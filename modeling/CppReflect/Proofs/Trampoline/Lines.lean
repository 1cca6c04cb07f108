import CppReflect.Proofs.Trampoline.Words

/-!
# Sources as lines

A source is a list of lines between the braces of its function. Lines open and close further braces,
and a typedef is declared from its line on until the braces around it are closed. A line is scoped if
the typedefs that it mentions are declared where it stands.
-/

namespace CppReflect

namespace Trampoline

/-! ## Lines -/

/-- What stands in front of the path of a call. -/
def Call.front (level : Nat) (c : Call) : String :=
  match c.cast with
  | some signature => "(" ++ signature.render level
  | none => ""

/-- What stands behind the path of a call. -/
def Call.back (level : Nat) (c : Call) : String :=
  (if c.cast.isSome then ")" else "") ++ "(" ++ spread level (c.args.map Cell.text) ++ ")"

theorem Call.render_eq (level : Nat) (c : Call) :
    c.render level = c.front level ++ c.path ++ c.back level := by
  unfold Call.render Call.front Call.back
  cases c.cast <;> simp [String.append_assoc]

/-- A line of a source. -/
inductive Line where
  /-- The line opens braces. -/
  | opening (level : Nat) (condition : String)
  /-- The line closes braces. -/
  | closing (level : Nat) (after : String)
  /-- The line declares a typedef. -/
  | typedef (level : Nat) (name text : String)
  /-- The line has a call expression in it. -/
  | expression (level : Nat) (before : String) (call : Call) (after : String)
  | statement (level : Nat) (text : String)

namespace Line

/-- The text of a line. -/
def render : Line → String
  | .opening level condition => line level (condition ++ " \x7b")
  | .closing level after => line level ("\x7d" ++ after)
  | .typedef level _ text => line level ("typedef " ++ text ++ ";")
  | .expression level before call after => line level (before ++ call.render level ++ after)
  | .statement level text => line level text

/-- The names that are declared behind the line, for each of the open braces, if `frames` are those
in front of it. The innermost braces come first. -/
def declare (frames : List (List String)) (l : Line) : List (List String) :=
  match l, frames with
  | .opening .., frames => [] :: frames
  | .closing .., _ :: frames => frames
  | .typedef _ name _, frame :: frames => (name :: frame) :: frames
  | _, frames => frames

/-- A line of a text behind a call, where a condition can open braces. -/
def behindCall (level : Nat) (text : String) : Line :=
  if text = "\x7d" then .closing level ""
  else if text = "if (ret) \x7b" then .opening level "if (ret)"
  else .statement level text

theorem render_behindCall (level : Nat) (text : String) :
    (behindCall level text).render = line level text := by
  unfold behindCall
  split_ifs with hclosing hopening
  · rw [hclosing]
    rfl
  · rw [hopening]
    rfl
  · rfl

/-- What a line mentions typedefs in, which is all of it but for the path of a call. What stands in
the line of a typedef is a declaration. -/
def uses : Line → List String
  | .opening _ text | .closing _ text | .statement _ text => [text]
  | .typedef .. => []
  | .expression level before call after => [before ++ call.front level, call.back level ++ after]

end Line

/-- The names that a line can mention: those that are declared in the innermost braces, and that of
a class from all around. -/
def visible : List (List String) → List String
  | [] => []
  | frame :: frames => frame ++ frames.flatten.filter (· == "Nm")

variable {own : String → Prop} {frame names : List String} {frames : List (List String)}

/-- The typedefs that a line mentions are declared where it stands. -/
def Line.Scoped (own : String → Prop) (frames : List (List String)) (l : Line) : Prop :=
  ∀ text ∈ l.uses, UsesOnly own (visible frames) text

/-- Each of the lines is scoped behind those before it. -/
def ScopedLines (own : String → Prop) : List (List String) → List Line → Prop
  | _, [] => True
  | frames, l :: ls => l.Scoped own frames ∧ ScopedLines own (l.declare frames) ls

theorem scopedLines_append {ls ls' : List Line} :
    ScopedLines own frames (ls ++ ls') ↔
      ScopedLines own frames ls ∧ ScopedLines own (ls.foldl Line.declare frames) ls' := by
  induction ls generalizing frames with
  | nil => simp [ScopedLines]
  | cons l ls ih => simp [ScopedLines, ih, and_assoc]

/-- Lines in braces of their own, behind a condition. -/
def inBraces (level : Nat) (condition : String) (ls : List Line) : List Line :=
  .opening level condition :: ls ++ [.closing level ""]

/-- Lines that are scoped in any braces, and leave these open. -/
def Fits (own : String → Prop) (ls : List Line) : Prop :=
  ∀ frame frames, ScopedLines own (frame :: frames) ls ∧
    ∃ frame', ls.foldl Line.declare (frame :: frames) = frame' :: frames

namespace Fits

theorem append {ls ls' : List Line} (h : Fits own ls) (h' : Fits own ls') :
    Fits own (ls ++ ls') := by
  intro frame frames
  obtain ⟨hscoped, frame', hbehind⟩ := h frame frames
  obtain ⟨hscoped', hbehind'⟩ := h' frame' frames
  rw [scopedLines_append, List.foldl_append, hbehind]
  exact ⟨⟨hscoped, hscoped'⟩, hbehind'⟩

theorem flatMap {α : Type} {f : α → List Line} {l : List α} (h : ∀ a ∈ l, Fits own (f a)) :
    Fits own (l.flatMap f) := by
  induction l with
  | nil => exact fun frame frames => ⟨trivial, frame, rfl⟩
  | cons a l ih =>
      obtain ⟨hfirst, hrest⟩ := List.forall_mem_cons.mp h
      rw [List.flatMap_cons]
      exact hfirst.append (ih hrest)

theorem statement {level : Nat} {text : String} (h : UsesOnly own [] text) :
    Fits own [.statement level text] := by
  intro frame frames
  have hscoped : (Line.statement level text).Scoped own (frame :: frames) :=
    List.forall_mem_singleton.mpr (h.mono (List.nil_subset _))
  exact ⟨⟨hscoped, trivial⟩, frame, rfl⟩

theorem behindCall {level : Nat} {text : String} (h : UsesOnly own [] text)
    (hclosing : text ≠ "\x7d") (hopening : text ≠ "if (ret) \x7b") :
    Fits own [.behindCall level text] := by
  rw [Line.behindCall, if_neg hclosing, if_neg hopening]
  exact .statement h

theorem inBraces {ls : List Line} (h : Fits own ls) {level : Nat} {condition : String}
    (hcondition : UsesOnly own [] condition) : Fits own (inBraces level condition ls) := by
  intro frame frames
  obtain ⟨hscoped, frame', hbehind⟩ := h [] (frame :: frames)
  have hopen : (Line.opening level condition :: ls).foldl Line.declare (frame :: frames) =
      frame' :: frame :: frames := hbehind
  rw [Trampoline.inBraces, scopedLines_append, List.foldl_append, hopen]
  refine ⟨⟨⟨?_, hscoped⟩, ?_, trivial⟩, frame, rfl⟩
  · exact List.forall_mem_singleton.mpr (hcondition.mono (List.nil_subset _))
  · exact List.forall_mem_singleton.mpr (.of_wordless (by decide))

end Fits

/-! ## The lines of a call trampoline -/

/-- The lines of a block. -/
def Block.lines (m : Model) (level : Nat) (b : Block) : List Line :=
  b.typedefs.map (fun d => .typedef level d.name (m.printType d.type d.name)) ++
    .expression level b.before b.call b.after ::
      b.tail.map fun (depth, text) => .behindCall (level + depth) text

/-- The lines of a body. -/
def Body.lines (m : Model) (level : Nat) : Body → List Line
  | .plain b => b.lines m level
  | .guarded bs => bs.flatMap fun (condition, b) =>
    inBraces level condition (b.lines m (level + 1))

/-- The lines of a clause. -/
def Clause.lines (m : Model) (c : Clause) : List Line :=
  match c.count with
  | none => c.body.lines m 1
  | some n => inBraces 1 ("if (nargs == " ++ toString n ++ ")") (c.body.lines m 2)

/-- The lines of a call trampoline. -/
def Wrapper.lines (m : Model) (w : Wrapper) : List Line := w.clauses.flatMap (Clause.lines m)

/-- The call of a block and the statement around it mention the typedefs of the block alone, and the
lines behind it mention none. -/
structure Block.Scoped (own : String → Prop) (b : Block) : Prop where
  front : ∀ level, UsesOnly own b.names (b.before ++ b.call.front level)
  back : ∀ level, UsesOnly own b.names (b.call.back level ++ b.after)
  tail : ∀ level, Fits own (b.tail.map fun (depth, text) => .behindCall (level + depth) text)

/-- Blocks that stand behind conditions are scoped, and so are the conditions. -/
def Body.Scoped (own : String → Prop) : Body → Prop
  | .plain b => b.Scoped own
  | .guarded bs => ∀ p ∈ bs, UsesOnly own [] p.1 ∧ p.2.Scoped own

/-- The lines of typedefs declare them in the innermost braces. -/
theorem scopedLines_typedefs (own : String → Prop) (m : Model) (level : Nat) (typedefs : List AuxTypedef)
    (frame : List String) (frames : List (List String)) :
    let ls := typedefs.map fun d => Line.typedef level d.name (m.printType d.type d.name)
    ScopedLines own (frame :: frames) ls ∧
      ls.foldl Line.declare (frame :: frames) =
        ((typedefs.map AuxTypedef.name).reverse ++ frame) :: frames := by
  induction typedefs generalizing frame with
  | nil => exact ⟨trivial, rfl⟩
  | cons d typedefs ih =>
      obtain ⟨hscoped, hdeclared⟩ := ih (d.name :: frame)
      refine ⟨⟨nofun, hscoped⟩, hdeclared.trans ?_⟩
      rw [List.map_cons, List.reverse_cons, List.append_assoc, List.singleton_append]

/-- A block can stand in any braces, since it declares its typedefs before its call. -/
theorem Block.Scoped.fits {b : Block} (h : b.Scoped own) (m : Model) (level : Nat) :
    Fits own (b.lines m level) := by
  intro frame frames
  obtain ⟨htypedefs, hdeclared⟩ := scopedLines_typedefs own m level b.typedefs frame frames
  obtain ⟨htail, frame', hbehind⟩ := h.tail level (b.names.reverse ++ frame) frames
  have hvisible : b.names ⊆ visible ((b.names.reverse ++ frame) :: frames) := fun name hname =>
    List.mem_append_left _ (List.mem_append_left _ (List.mem_reverse.mpr hname))
  rw [Block.lines, scopedLines_append, List.foldl_append, hdeclared]
  refine ⟨⟨htypedefs, ?_, htail⟩, frame', hbehind⟩
  simp only [Line.Scoped, Line.uses, List.forall_mem_cons]
  exact ⟨(h.front level).mono hvisible, (h.back level).mono hvisible, nofun⟩

theorem Body.Scoped.fits {b : Body} (h : b.Scoped own) (m : Model) (level : Nat) :
    Fits own (b.lines m level) := by
  cases b with
  | plain b => exact Block.Scoped.fits h m level
  | guarded bs =>
      refine Fits.flatMap fun p hp => ?_
      obtain ⟨hcondition, hb⟩ := h p hp
      exact (hb.fits m (level + 1)).inBraces hcondition

theorem Clause.fits {c : Clause} (h : c.body.Scoped own) (m : Model) : Fits own (c.lines m) := by
  unfold Clause.lines
  cases c.count with
  | none => exact h.fits m 1
  | some n =>
      apply (h.fits m 2).inBraces
      exact ((UsesOnly.of_number n).behind (by decide) (by decide)).before_wordless (by decide)

/-- A call trampoline is scoped if the bodies of its clauses are. -/
theorem Wrapper.scopedLines {w : Wrapper} (h : ∀ c ∈ w.clauses, c.body.Scoped own) (m : Model) :
    ScopedLines own [[]] (w.lines m) := by
  have hfits : Fits own (w.lines m) := .flatMap fun c hc => Clause.fits (h c hc) m
  exact (hfits [] []).1

/-! ## The lines of a destructor trampoline -/

/-- The lines that destroy objects and give their memory back. -/
def Destroyer.freeing (d : Destroyer) : List Line :=
  inBraces 2 "if (!nary)" [.statement 3 ("delete (" ++ d.className ++ "*) obj;")] ++
    inBraces 2 "else" [.statement 3 ("delete[] (" ++ d.className ++ "*) obj;")]

/-- The lines that destroy objects alone. -/
def Destroyer.clearing (d : Destroyer) : List Line :=
  .typedef 2 "Nm" (d.className ++ " Nm") ::
    inBraces 2 "if (!nary)" [.statement 3 "((Nm*)obj)->~Nm();"] ++
    inBraces 2 "else"
      [.opening 3 "do",
        .statement 4 "(((Nm*)obj)+(--nary))->~Nm();",
        .closing 3 " while (nary);"]

/-- The lines of a destructor trampoline. -/
def Destroyer.lines (d : Destroyer) : List Line :=
  inBraces 1 "if (withFree)" d.freeing ++ inBraces 1 "else" d.clearing

theorem Destroyer.freeing_fits {d : Destroyer} (hclass : UsesOnly own [] d.className) :
    Fits own d.freeing := by
  have hdelete : Fits own [.statement 3 ("delete (" ++ d.className ++ "*) obj;")] :=
    .statement ((hclass.behind (by decide) (by decide)).followed (by decide) (by decide))
  have hdeleteAll : Fits own [.statement 3 ("delete[] (" ++ d.className ++ "*) obj;")] :=
    .statement ((hclass.behind (by decide) (by decide)).followed (by decide) (by decide))
  apply (hdelete.inBraces ?_).append (hdeleteAll.inBraces ?_)
  · exact .of_initials (by decide)
  · exact .of_initials (by decide)

/-- Where `Nm` is declared around the innermost braces, a line can mention it. -/
theorem usesOnly_visible {inner : List String} (hnm : ["Nm"] ⊆ frames.flatten) {text : String}
    (htext : Lacks text auxInitials) :
    UsesOnly own (visible (inner :: frames)) text := by
  apply (UsesOnly.of_auxInitials htext).mono
  intro name hname
  obtain rfl := List.mem_singleton.mp hname
  exact List.mem_append_right _ (List.mem_filter.mpr ⟨hnm hname, rfl⟩)

theorem Destroyer.clearing_fits (d : Destroyer) : Fits own d.clearing := by
  intro frame frames
  have hnone {text : String} (htext : Lacks text typedefInitials)
      (frames : List (List String)) : ∀ t ∈ [text], UsesOnly own (visible frames) t :=
    List.forall_mem_singleton.mpr (.of_initials htext)
  have hone : ∀ t ∈ ["((Nm*)obj)->~Nm();"],
      UsesOnly own (visible ([] :: ("Nm" :: frame) :: frames)) t :=
    List.forall_mem_singleton.mpr (usesOnly_visible (by simp) (by decide))
  have hmany : ∀ t ∈ ["(((Nm*)obj)+(--nary))->~Nm();"],
      UsesOnly own (visible ([] :: [] :: ("Nm" :: frame) :: frames)) t :=
    List.forall_mem_singleton.mpr (usesOnly_visible (by simp) (by decide))
  have hscoped : ScopedLines own (frame :: frames) d.clearing :=
    ⟨nofun, hnone (by decide) _, hone, hnone (by decide) _, hnone (by decide) _,
      hnone (by decide) _, hmany, hnone (by decide) _, hnone (by decide) _, trivial⟩
  exact ⟨hscoped, "Nm" :: frame, rfl⟩

/-- A destructor trampoline is scoped if the name of the class mentions no typedefs. -/
theorem Destroyer.scopedLines {d : Destroyer} (hclass : UsesOnly own [] d.className) :
    ScopedLines own [[]] d.lines := by
  have hflag : UsesOnly own [] ("if (" ++ "withFree" ++ ")") := by
    have hword : UsesOnly own [] "withFree" := .of_word (List.all_eq_true.mp rfl) (by rintro _ ⟨⟩; decide)
    exact (hword.behind (by decide) (by decide)).before_wordless (by decide)
  have hfreeing : Fits own (inBraces 1 "if (withFree)" d.freeing) :=
    (Destroyer.freeing_fits hclass).inBraces hflag
  have hclearing : Fits own (inBraces 1 "else" d.clearing) :=
    d.clearing_fits.inBraces (.of_initials (by decide))
  exact ((hfreeing.append hclearing) [] []).1

/-! ## Sources -/

namespace Source

/-- The text of a source. -/
def render (m : Model) : Source → String
  | .call w => w.render m
  | .destruction d => d.render

/-- What stands in front of the lines, up to the brace of the function. -/
def header : Source → String
  | .call w =>
    "#include <new>\n" ++
    "#pragma clang diagnostic push\n" ++
    "#pragma clang diagnostic ignored \"-Wformat-security\"\n" ++
    linkage ++ w.symbol ++ "(void* obj, int nargs, void** args, void* ret)\n\x7b\n"
  | .destruction d => linkage ++ d.symbol ++ "(void* obj, unsigned long nary, int withFree)\n\x7b\n"

/-- What stands behind the lines, from the brace of the function on. -/
def footer : Source → String
  | .call _ => "\x7d\n#pragma clang diagnostic pop\n"
  | .destruction _ => "\x7d\n"

/-- The lines of a source. -/
def lines (m : Model) : Source → List Line
  | .call w => w.lines m
  | .destruction d => d.lines

end Source

section Rendering

variable (m : Model) (level : Nat)

/-- The text of lines. -/
def renderLines (ls : List Line) : String := String.join (ls.map Line.render)

theorem renderLines_cons (l : Line) (ls : List Line) :
    renderLines (l :: ls) = l.render ++ renderLines ls := by
  rw [renderLines, List.map_cons, String.join_cons, renderLines]

theorem renderLines_append (ls ls' : List Line) :
    renderLines (ls ++ ls') = renderLines ls ++ renderLines ls' := by
  rw [renderLines, List.map_append, String.join_append, renderLines, renderLines]

theorem renderLines_inBraces (condition : String) (ls : List Line) :
    renderLines (inBraces level condition ls) =
      line level (condition ++ " \x7b") ++ renderLines ls ++ line level "\x7d" := by
  rw [inBraces, renderLines_append, renderLines_cons]
  rfl

theorem renderLines_flatMap {α : Type} (f : α → List Line) (l : List α) :
    renderLines (l.flatMap f) = String.join (l.map fun a => renderLines (f a)) := by
  induction l with
  | nil => rfl
  | cons a l ih => rw [List.flatMap_cons, renderLines_append, ih, List.map_cons, String.join_cons]

theorem Block.render_eq (b : Block) : b.render m level = renderLines (b.lines m level) := by
  have htypedefs : b.typedefs.map (AuxTypedef.render m level) = (b.typedefs.map fun d =>
      Line.typedef level d.name (m.printType d.type d.name)).map Line.render := by
    rw [List.map_map]
    rfl
  have htail : b.tail.map (fun (depth, text) => line (level + depth) text) =
      (b.tail.map fun (depth, text) => Line.behindCall (level + depth) text).map Line.render := by
    rw [List.map_map]
    exact List.map_congr_left fun l _ => (Line.render_behindCall _ _).symm
  rw [Block.render, htypedefs, htail, Block.lines, renderLines_append, renderLines_cons,
    ← String.append_assoc]
  rfl

theorem Body.render_eq (b : Body) : b.render m level = renderLines (b.lines m level) := by
  cases b with
  | plain b => exact b.render_eq m level
  | guarded bs =>
      rw [Body.render, Body.lines, renderLines_flatMap]
      apply congrArg String.join
      apply List.map_congr_left
      intro p _
      rw [renderLines_inBraces, ← p.2.render_eq]

theorem Clause.render_eq (c : Clause) : c.render m = renderLines (c.lines m) := by
  unfold Clause.render Clause.lines
  cases c.count with
  | none => exact c.body.render_eq m 1
  | some n =>
      have hcondition : "if (nargs == " ++ toString n ++ ") \x7b" =
          "if (nargs == " ++ toString n ++ ")" ++ " \x7b" := by
        simp only [String.append_assoc]
        rfl
      rw [renderLines_inBraces, ← c.body.render_eq, ← hcondition]

theorem Wrapper.render_eq (w : Wrapper) :
    w.render m =
      (Source.call w).header ++ renderLines (w.lines m) ++ (Source.call w).footer := by
  have hclauses : w.clauses.map (Clause.render m) =
      w.clauses.map fun c => renderLines (c.lines m) :=
    List.map_congr_left fun c _ => c.render_eq m
  rw [Wrapper.lines, renderLines_flatMap, ← hclauses]
  rfl

theorem Destroyer.render_eq (d : Destroyer) :
    d.render =
      (Source.destruction d).header ++ renderLines d.lines ++ (Source.destruction d).footer := by
  have halias : "typedef " ++ d.className ++ " Nm;" = "typedef " ++ (d.className ++ " Nm") ++ ";" := by
    simp only [String.append_assoc]
    rfl
  rw [Destroyer.render, halias]
  rfl

/-- A source is its lines between the braces of its function. -/
theorem Source.render_eq (source : Source) :
    source.render m = source.header ++ renderLines (source.lines m) ++ source.footer := by
  cases source with
  | call w => exact w.render_eq m
  | destruction d => exact d.render_eq

end Rendering

end Trampoline

end CppReflect
