import CppReflect.Model.Resolve
import CppReflect.Proofs.Model.Sugar

/-!
# Types from spellings in a well-formed model

Reading a type from a text puts types into the table and changes nothing else. A name that means a
declaration means one that exists.
-/

namespace CppReflect.Model

variable {m : Model}

theorem hasDecl_of_isTypeDecl {d : DeclId} (h : m.isTypeDecl d = true) : m.HasDecl d :=
  hasDecl_of_ne_rootDecl fun heq => by simp [isTypeDecl, heq, rootDecl] at h

/-- The declaration that a type name means declares a type. -/
theorem isTypeDecl_of_resolveTypeName? {name : String} {context d : DeclId}
    (h : m.resolveTypeName? name context = some d) : m.isTypeDecl d = true := by
  unfold resolveTypeName? at h
  obtain ⟨scope, _, hscope⟩ := List.exists_of_findSome?_eq_some h
  split at hscope
  next found _ =>
    split at hscope
    next htype => exact Option.some.inj hscope ▸ htype
    next => simp at hscope
  next => simp at hscope

theorem resolveName_keeps (h : m.WellFormed) (name : QualifiedName) (context : DeclId) :
    m.Keeps (resolveName name context) fun t m' => m'.HasType t := by
  have hkind : ∀ {k : TypeKind}, k.parts = [] → (∀ d ∈ k.decl?, m.HasDecl d) →
      m.Keeps (internKind k) fun t m' => m'.HasType t := by
    intro k hparts hdecl
    exact (internKind_keeps h (by simp [hparts]) hdecl).weaken
      fun _ _ _ _ hget => hasType_of_get? hget
  refine Keeps.get_bind ?_
  split
  next d hd =>
    have hex := hasDecl_of_isTypeDecl (isTypeDecl_of_resolveTypeName? hd)
    split
    · exact hkind rfl (by rintro _ ⟨rfl⟩; exact hex)
    · exact hkind rfl (by rintro _ ⟨rfl⟩; exact hex)
    · exact hkind rfl (by rintro _ ⟨rfl⟩; exact hex)
  next =>
    split
    · exact hkind rfl (by simp [TypeKind.decl?])
    · exact hkind rfl (by simp [TypeKind.decl?])

theorem resolveBase_keeps (h : m.WellFormed) (base : Spelling.Base) (context : DeclId) :
    m.Keeps (resolveBase base context) fun t m' => m'.HasType t := by
  have hkind : ∀ {k : TypeKind} {m : Model}, m.WellFormed → k.decl? = none →
      (∀ p ∈ k.parts, m.HasType p) → m.Keeps (internKind k) fun t m' => m'.HasType t := by
    intro k m h hdecl hparts
    exact (internKind_keeps h hparts (by simp [hdecl])).weaken
      fun _ _ _ _ hget => hasType_of_get? hget
  cases base with
  | void | builtin b => exact hkind h rfl (by simp [TypeKind.parts])
  | complex b =>
      refine (hkind h rfl (by simp [TypeKind.parts])).bind fun t m' hwf _ ht => ?_
      exact hkind hwf rfl (by simpa [TypeKind.parts] using ht)
  | name n => exact resolveName_keeps h n context

mutual

theorem resolve_keeps (context : DeclId) : (s : Spelling) → {m : Model} → m.WellFormed →
    m.Keeps (resolve context s) fun t m' => m'.HasType t
  | .mk base quals ops, m, h => by
    unfold resolve
    refine (resolveBase_keeps h base context).bind fun t m₁ hwf₁ _ ht => ?_
    refine (withQuals_keeps hwf₁ t quals).bind fun u m₂ hwf₂ _ hu => ?_
    exact resolveOps_keeps context ops hwf₂ (hasType_of_get? hu)

theorem resolveOps_keeps (context : DeclId) : (ops : List DeclaratorOp) → {m : Model} →
    m.WellFormed → {t : TypeId} → m.HasType t →
    m.Keeps (resolveOps context t ops) fun u m' => m'.HasType u
  | [], m, h, t, ht => by
    unfold resolveOps
    exact Keeps.pure h ht
  | op :: ops, m, h, t, ht => by
    unfold resolveOps
    refine (resolveOp_keeps context op h ht).bind fun u m' hwf _ hu => ?_
    exact resolveOps_keeps context ops hwf hu

theorem resolveOp_keeps (context : DeclId) : (op : DeclaratorOp) → {m : Model} →
    m.WellFormed → {t : TypeId} → m.HasType t →
    m.Keeps (resolveOp context t op) fun u m' => m'.HasType u
  | .pointer quals, m, h, t, ht => by
    unfold resolveOp
    refine (internKind_keeps h (by simpa [TypeKind.parts] using ht) (by simp [TypeKind.decl?])).bind
      fun p m' hwf _ _ => ?_
    exact (withQuals_keeps hwf p quals).weaken fun _ _ _ _ hget => hasType_of_get? hget
  | .lvalueReference, m, h, t, ht => by
    unfold resolveOp
    exact lvalueReference_keeps h ht
  | .rvalueReference, m, h, t, ht => by
    unfold resolveOp
    exact rvalueReference_keeps h ht
  | .memberPointer klass quals, m, h, t, ht => by
    unfold resolveOp
    refine (resolveName_keeps h klass context).bind fun c m₁ hwf₁ hgrow₁ hc => ?_
    refine (internKind_keeps hwf₁ ?_ (by simp [TypeKind.decl?])).bind fun p m₂ hwf₂ _ _ => ?_
    · simp [TypeKind.parts, hgrow₁.hasType ht, hc]
    · exact (withQuals_keeps hwf₂ p quals).weaken fun _ _ _ _ hget => hasType_of_get? hget
  | .array (some n), m, h, t, ht | .array none, m, h, t, ht => by
    unfold resolveOp
    exact (internKind_keeps h (by simpa [TypeKind.parts] using ht) (by simp [TypeKind.decl?])).weaken
      fun _ _ _ _ hget => hasType_of_get? hget
  | .function params variadic quals ref, m, h, t, ht => by
    unfold resolveOp
    refine (resolveAll_keeps context params h).bind fun ps m' hwf hgrow hps => ?_
    refine (internKind_keeps hwf ?_ (by simp [TypeKind.decl?])).weaken
      fun _ _ _ _ hget => hasType_of_get? hget
    intro p hp
    rcases List.mem_cons.mp hp with rfl | hp
    · exact hgrow.hasType ht
    · exact hps p hp

theorem resolveAll_keeps (context : DeclId) : (ss : List Spelling) → {m : Model} →
    m.WellFormed → m.Keeps (resolveAll context ss) fun ts m' => ∀ t ∈ ts, m'.HasType t
  | [], m, h => by
    unfold resolveAll
    exact Keeps.pure h (by simp)
  | s :: rest, m, h => by
    unfold resolveAll
    refine (resolve_keeps context s h).bind fun t m₁ hwf₁ _ ht => ?_
    refine (resolveAll_keeps context rest hwf₁).bind fun ts m₂ hwf₂ hgrow₂ hts => ?_
    refine Keeps.pure hwf₂ ?_
    intro u hu
    rcases List.mem_cons.mp hu with rfl | hu
    · exact hgrow₂.hasType ht
    · exact hts u hu

end

/-- Operators are applied one after the other. -/
theorem resolveOps_append (context : DeclId) (t : TypeId) (ops ops' : List DeclaratorOp) :
    resolveOps context t (ops ++ ops') =
      resolveOps context t ops >>= fun u => resolveOps context u ops' := by
  induction ops generalizing t with
  | nil => simp [resolveOps]
  | cons o ops ih => simp [resolveOps, ih]

theorem resolve_append (context : DeclId) (base : Spelling.Base) (quals : Quals)
    (ops ops' : List DeclaratorOp) :
    resolve context (.mk base quals (ops ++ ops')) =
      resolve context (.mk base quals ops) >>= fun t => resolveOps context t ops' := by
  simp [resolve, resolveOps_append]

theorem parseType_keeps (h : m.WellFormed) (text : String) (context : DeclId) :
    m.Keeps (parseType text context) fun t m' => m'.HasType t := by
  unfold parseType
  split
  next s _ => exact resolve_keeps context s h
  next =>
    exact (internKind_keeps h (by simp [TypeKind.parts]) (by simp [TypeKind.decl?])).weaken
      fun _ _ _ _ hget => hasType_of_get? hget

end CppReflect.Model
