import CppReflect.Json.Basic
import CppReflect.Model.Outline

/-!
# Models as JSON

A declaration is exported as an object with its handle, its place among the other declarations and
what is known of its kind. Types are told by their outlines.
-/

namespace CppReflect

/-- The name of an access. -/
def Access.name : Access → String
  | .none => "None"
  | .pub => "Public"
  | .prot => "Protected"
  | .priv => "Private"

/-- The name of a class keyword. -/
def TagKind.name : TagKind → String
  | .struct => "Struct"
  | .klass => "Class"
  | .union => "Union"

namespace TemplatedKind

/-- The ways to take part in templates. -/
def values : List TemplatedKind :=
  [.nonTemplate, .functionTemplate, .memberSpecialization, .functionTemplateSpecialization,
   .dependentFunctionTemplateSpecialization]

/-- The name of a way to take part in templates. -/
def name : TemplatedKind → String
  | .nonTemplate => "NonTemplate"
  | .functionTemplate => "FunctionTemplate"
  | .memberSpecialization => "MemberSpecialization"
  | .functionTemplateSpecialization => "FunctionTemplateSpecialization"
  | .dependentFunctionTemplateSpecialization => "DependentFunctionTemplateSpecialization"

/-- The way to take part in templates that has this name. -/
def ofName? (word : String) : Option TemplatedKind := values.find? fun k => k.name == word

end TemplatedKind

namespace SpecializationKind

/-- The ways a specialization comes about. -/
def values : List SpecializationKind :=
  [.undeclared, .implicitInstantiation, .explicitSpecialization, .explicitInstantiationDeclaration,
   .explicitInstantiationDefinition]

/-- The name of a way a specialization comes about. -/
def name : SpecializationKind → String
  | .undeclared => "Undeclared"
  | .implicitInstantiation => "ImplicitInstantiation"
  | .explicitSpecialization => "ExplicitSpecialization"
  | .explicitInstantiationDeclaration => "ExplicitInstantiationDeclaration"
  | .explicitInstantiationDefinition => "ExplicitInstantiationDefinition"

/-- The way that has this name, and `undeclared` for any other word. -/
def ofName (word : String) : SpecializationKind :=
  (values.find? fun k => k.name == word).getD .undeclared

end SpecializationKind

/-- A declaration told by its handle. -/
def Json.ofDecl (d : DeclId) : Json := ofNat d.handle

/-- The role of a function as JSON. -/
def SpecialMember.toJson : SpecialMember → Json
  | .none => .str "None"
  | .constructor isDefault copyOrMove =>
    .obj [("constructor", .arr [.bool isDefault, .bool copyOrMove])]
  | .destructor => .str "Destructor"
  | .conversion => .str "Conversion"
  | .operator op => .str ("Operator(" ++ op.name ++ ")")

namespace Model

/-- A type told by its outline; null if there is no such type. -/
def typeJson (m : Model) (t : TypeId) : Json :=
  if t.index < m.types.size then .str (m.outline t) else .null

/-- A template argument as JSON. -/
def argJson (m : Model) (a : TemplateArg) : Json :=
  .obj [("ty", m.typeJson a.type), ("value", .ofOption .str a.value)]

/-- What is known of a class. -/
def recordFields (m : Model) (info : RecordInfo) : List (String × Json) := [
  ("tag", .str info.tag.name),
  ("complete", .bool info.complete),
  ("bases", .ofList
    (fun b => .arr [m.typeJson b.type, .str b.access.name, .bool b.isVirtual]) info.bases),
  ("polymorphic", .bool info.polymorphic),
  ("abstract", .bool info.isAbstract),
  ("lambda", .bool info.lambda),
  ("aggregate", .bool info.aggregate),
  ("pod", .bool info.pod),
  ("size", .ofOption (fun n => .ofNat n.toNat) info.size),
  ("specialization", .ofOption
    (fun s => .obj [("template", .ofDecl s.template), ("args", .ofList m.argJson s.args)])
    info.specialization)]

/-- What is known of a function. -/
def functionFields (m : Model) (info : FunctionInfo) : List (String × Json) := [
  ("ret", m.typeJson info.returnType),
  ("params", .ofList
    (fun p => .arr [.str p.name, m.typeJson p.type, .ofOption .str p.default?]) info.params),
  ("variadic", .bool info.variadic),
  ("method", .ofOption
    (fun f => .ofList .bool [f.isConst, f.isVolatile, f.isStatic, f.isVirtual, f.isPure])
    info.method),
  ("special", info.special.toJson),
  ("deleted", .bool info.deleted),
  ("late", .bool info.lateParsed),
  ("defined", .bool info.defined),
  ("templated", .str info.templated.name),
  ("specialization", .str info.specialization.name),
  ("pattern", .ofOption .ofDecl info.pattern),
  ("args", .ofList m.argJson info.templateArgs),
  ("mangled", .ofOption .str info.mangledName)]

/-- The sort of a template parameter. -/
def paramSort (m : Model) : TemplateParamKind → String
  | .type => "type"
  | .template => "template"
  | .nonType t => "nontype " ++ m.outline t

/-- What is known of a template. -/
def templateFields (m : Model) (info : TemplateInfo) : List (String × Json) := [
  ("params", .ofList
    (fun p => .arr [.str p.name, .str (m.paramSort p.kind), .ofOption .str p.default?,
      .bool p.pack]) info.params),
  ("pattern", .ofOption .ofDecl info.pattern),
  ("specializations", .ofList .ofDecl info.specializations)]

/-- The name of the kind of a declaration, and what is known of it. -/
def kindFields (m : Model) : DeclKind → String × List (String × Json)
  | .translationUnit => ("TranslationUnit", [])
  | .namespaceDecl isInline => ("Namespace", [("inline", .bool isInline)])
  | .record info => ("Record", m.recordFields info)
  | .enum info =>
    ("Enum", [("scoped", .bool info.isScoped), ("integer_type", m.typeJson info.integerType),
      ("complete", .bool info.complete)])
  | .enumConstant value type =>
    ("EnumConstant", [("value", .int value.toInt), ("type", m.typeJson type)])
  | .variableDecl info =>
    ("Variable", [("type", m.typeJson info.type), ("field", .bool info.isField),
      ("mangled", .ofOption .str info.mangledName),
      ("offset", .ofOption (fun n => .int n.toInt) info.offset)])
  | .function info => ("Function", m.functionFields info)
  | .typedef underlying => ("Typedef", [("underlying", m.typeJson underlying)])
  | .classTemplate info => ("ClassTemplate", m.templateFields info)
  | .functionTemplate info => ("FunctionTemplate", m.templateFields info)

/-- A declaration as JSON. -/
def declJson (m : Model) (d : DeclId) : Json :=
  let e := m.decl d
  let (kind, fields) := m.kindFields e.kind
  .obj [
    ("h", .ofDecl d),
    ("name", .str e.name),
    ("parent", .ofOption .ofDecl e.parent),
    ("access", .str e.access.name),
    ("members", .ofList .ofDecl e.members),
    ("using", .ofList .ofDecl e.usingDirectives),
    ("implicit", .bool e.implicit),
    ("info", .obj (("kind", .str kind) :: fields))]

/-- All declarations in the order of their handles. -/
def toJson (m : Model) : Json :=
  .ofList (fun i => m.declJson ⟨i⟩) (List.range m.decls.size)

end Model

end CppReflect
