import CppReflect.Library.PathList
import CppReflect.Proofs.Segments

/-!
# Variables in a text

Which parts of a text stand for themselves and which are names of variables is said by the text
alone: a name goes from its dollar sign to the next slash. So a text is expanded piece by piece
between slashes, and the values of the variables come into it as they are, whatever is in them.
-/

namespace CppReflect.PathList

/-- What stands for a variable in an expanded text. -/
def valueText (env : String → Option String) (name : List Char) : List Char :=
  ((env (String.ofList name)).getD "").toList

/-! ## Up to the next slash -/

theorem takeWhile_slashless {name : List Char} (h : '/' ∉ name) :
    name.takeWhile (· != '/') = name :=
  List.takeWhile_eq_self_iff.mpr fun _ hc => bne_iff_ne.mpr fun heq => h (heq ▸ hc)

theorem dropWhile_slashless {name : List Char} (h : '/' ∉ name) :
    name.dropWhile (· != '/') = [] :=
  List.dropWhile_eq_nil_iff.mpr fun _ hc => bne_iff_ne.mpr fun heq => h (heq ▸ hc)

/-- A slash behind a text changes nothing about the name in front of it. -/
theorem takeWhile_append_slash (as bs : List Char) :
    (as ++ '/' :: bs).takeWhile (· != '/') = as.takeWhile (· != '/') := by
  induction as with
  | nil => rfl
  | cons c as ih => rw [List.cons_append, List.takeWhile_cons, List.takeWhile_cons, ih]

theorem dropWhile_append_slash (as bs : List Char) :
    (as ++ '/' :: bs).dropWhile (· != '/') = as.dropWhile (· != '/') ++ '/' :: bs := by
  induction as with
  | nil => rfl
  | cons c as ih =>
      rw [List.cons_append, List.dropWhile_cons, List.dropWhile_cons, ih]
      split <;> rfl

theorem slash_notMem_takeWhile (cs : List Char) : '/' ∉ cs.takeWhile (· != '/') :=
  fun h => absurd (List.mem_takeWhile_imp h) (by decide)

/-! ## One variable after the other -/

/-- A text is taken apart at its first dollar sign, and what is behind the name in the same way. -/
@[elab_as_elim]
theorem dollar_induction {motive : List Char → Prop} (plain : ∀ cs, '$' ∉ cs → motive cs)
    (dollar : ∀ before behind, '$' ∉ before → motive (behind.dropWhile (· != '/')) →
      motive (before ++ '$' :: behind)) (cs : List Char) : motive cs := by
  induction hlength : cs.length using Nat.strongRecOn generalizing cs with
  | ind n ih =>
      by_cases hdollar : '$' ∈ cs
      · obtain ⟨before, behind, rfl, hbefore⟩ := List.eq_append_cons_of_mem hdollar
        apply dollar before behind hbefore
        apply ih _ _ _ rfl
        have hdropped := (List.dropWhile_suffix (l := behind) (· != '/')).length_le
        rw [List.length_append, List.length_cons] at hlength
        omega
      · exact plain cs hdollar

variable {env : String → Option String} {cs before : List Char}

theorem ne_dollar_of_mem (h : '$' ∉ cs) : ∀ c ∈ cs, (c == '$') = false := by
  intro c hc
  refine beq_false_of_ne ?_
  rintro rfl
  exact h hc

theorem cutAt_dollarless (h : '$' ∉ cs) : Text.cutAt (· == '$') cs = none :=
  Name.cutAt_eq_none (ne_dollar_of_mem h)

theorem cutAt_dollar (h : '$' ∉ before) (behind : List Char) :
    Text.cutAt (· == '$') (before ++ '$' :: behind) = some (before, behind) :=
  Name.cutAt_append (ne_dollar_of_mem h) (beq_self_eq_true '$') behind

theorem expandChars_dollarless (h : '$' ∉ cs) : expandChars env cs = cs := by
  rw [expandChars]
  split
  next => rfl
  next hcut =>
    rw [cutAt_dollarless h] at hcut
    cases hcut

theorem expandChars_dollar (h : '$' ∉ before) (behind : List Char) :
    expandChars env (before ++ '$' :: behind) =
      before ++ valueText env (behind.takeWhile (· != '/')) ++
        expandChars env (behind.dropWhile (· != '/')) := by
  rw [expandChars]
  split
  next hcut =>
    rw [cutAt_dollar h] at hcut
    cases hcut
  next hcut =>
    rw [cutAt_dollar h] at hcut
    cases hcut
    rfl

/-- What is in front of the first dollar sign stands for itself. -/
theorem expandChars_append (h : '$' ∉ before) (cs : List Char) :
    expandChars env (before ++ cs) = before ++ expandChars env cs := by
  cases cs using dollar_induction with
  | plain cs hcs =>
      rw [expandChars_dollarless hcs, expandChars_dollarless]
      exact fun hmem => (List.mem_append.mp hmem).elim h hcs
  | dollar front behind hfront _ =>
      have hboth : '$' ∉ before ++ front := fun hmem => (List.mem_append.mp hmem).elim h hfront
      rw [← List.append_assoc, expandChars_dollar hboth, expandChars_dollar hfront]
      simp only [List.append_assoc]

/-- The two sides of a slash are expanded apart. -/
theorem expandChars_append_slash (env : String → Option String) (as bs : List Char) :
    expandChars env (as ++ '/' :: bs) = expandChars env as ++ '/' :: expandChars env bs := by
  have hdollar : '$' ∉ ['/'] := by decide
  have hslash : expandChars env ('/' :: bs) = '/' :: expandChars env bs :=
    expandChars_append hdollar bs
  induction as using dollar_induction with
  | plain as has => rw [expandChars_append has, hslash, expandChars_dollarless has]
  | dollar before behind hbefore ih =>
      rw [List.append_assoc, List.cons_append, expandChars_dollar hbefore,
        takeWhile_append_slash, dropWhile_append_slash, ih, expandChars_dollar hbefore]
      simp only [List.append_assoc]

/-! ## The parts of a text -/

/-- A part of a text that may have variables in it. -/
inductive Part where
  /-- It stands for itself. -/
  | plain (cs : List Char)
  /-- A dollar sign and the name of a variable. -/
  | named (name : List Char)

namespace Part

/-- The part as it is written. -/
def source : Part → List Char
  | plain cs => cs
  | named name => '$' :: name

/-- What the part is replaced by. -/
def filled (env : String → Option String) : Part → List Char
  | plain cs => cs
  | named name => valueText env name

/-- The part is of its sort: there is no dollar sign outside variables and no slash in a name. -/
def Proper : Part → Prop
  | plain cs => '$' ∉ cs
  | named name => '/' ∉ name

end Part

/-- A text has parts of its own, which are replaced one by one in every environment. -/
theorem exists_parts (cs : List Char) :
    ∃ parts : List Part, (∀ part ∈ parts, part.Proper) ∧ parts.flatMap Part.source = cs ∧
      ∀ env, expandChars env cs = parts.flatMap (Part.filled env) := by
  induction cs using dollar_induction with
  | plain cs hcs =>
      refine ⟨[.plain cs], List.forall_mem_singleton.mpr hcs, List.append_nil cs, fun env => ?_⟩
      rw [expandChars_dollarless hcs]
      exact (List.append_nil cs).symm
  | dollar before behind hbefore ih =>
      obtain ⟨parts, hproper, hsource, hfilled⟩ := ih
      refine ⟨.plain before :: .named (behind.takeWhile (· != '/')) :: parts, ?_, ?_, ?_⟩
      · exact List.forall_mem_cons.mpr
          ⟨hbefore, List.forall_mem_cons.mpr ⟨slash_notMem_takeWhile behind, hproper⟩⟩
      · rw [List.flatMap_cons, List.flatMap_cons, hsource, Part.source, Part.source,
          List.cons_append, List.takeWhile_append_dropWhile]
      · intro env
        rw [expandChars_dollar hbefore, hfilled env, List.append_assoc]
        rfl

/-! ## Turn by turn -/

/-- A text on the way to its expansion. -/
structure Progress where
  /-- What is done. -/
  expanded : List Char
  /-- What has not been looked at. -/
  rest : List Char

namespace Progress

/-- Replaces the next variable, if there is one. -/
def turn? (env : String → Option String) (s : Progress) : Option Progress :=
  (Text.cutAt (· == '$') s.rest).map fun (before, behind) =>
    ⟨s.expanded ++ before ++ valueText env (behind.takeWhile (· != '/')),
      behind.dropWhile (· != '/')⟩

/-- Where a number of turns leads to, if there are that many. -/
def after? (env : String → Option String) : Nat → Progress → Option Progress
  | 0, s => some s
  | n + 1, s => (s.turn? env).bind (after? env n)

/-- The text when no variable is left. -/
def text (s : Progress) : List Char := s.expanded ++ s.rest

/-- The turns come to an end, at most one for each dollar sign, and the text is expanded then. -/
theorem exists_after? (env : String → Option String) (expanded cs : List Char) :
    ∃ n ≤ cs.count '$', ∃ last, after? env n ⟨expanded, cs⟩ = some last ∧
      last.turn? env = none ∧ last.text = expanded ++ expandChars env cs := by
  induction cs using dollar_induction generalizing expanded with
  | plain cs hcs =>
      refine ⟨0, Nat.zero_le _, ⟨expanded, cs⟩, rfl, ?_, ?_⟩
      · rw [turn?, cutAt_dollarless hcs]
        rfl
      · rw [expandChars_dollarless hcs, text]
  | dollar before behind hbefore ih =>
      obtain ⟨n, hn, last, hafter, hlast, htext⟩ :=
        ih (expanded ++ before ++ valueText env (behind.takeWhile (· != '/')))
      refine ⟨n + 1, ?_, last, ?_, hlast, ?_⟩
      · have hdropped := (List.dropWhile_sublist (l := behind) (· != '/')).count_le '$'
        rw [List.count_append, List.count_cons_self]
        omega
      · rw [after?, turn?, cutAt_dollar hbefore]
        exact hafter
      · rw [htext, expandChars_dollar hbefore]
        simp only [List.append_assoc]

end Progress

/-! ## Expansion -/

/-- Expansion goes through the components of a text: it leaves alone what has no variable in it, and
puts the value of a variable, or nothing, in place of a name at the end of a component. The parts
that are replaced are those of the text as it is written, so values are not looked into. One
variable after the other, the end is reached on every text. -/
theorem expand_by_components :
    (∀ env a b, expand env (a ++ "/" ++ b) = expand env a ++ "/" ++ expand env b) ∧
    (∀ env text, '$' ∉ text.toList → expand env text = text) ∧
    (∀ env front name, '$' ∉ front.toList → '/' ∉ name.toList →
      expand env (front ++ "$" ++ name) = front ++ (env name).getD "") ∧
    (∀ text : String, ∃ parts : List Part, (∀ part ∈ parts, part.Proper) ∧
      text = String.ofList (parts.flatMap Part.source) ∧
      ∀ env, expand env text = String.ofList (parts.flatMap (Part.filled env))) ∧
    (∀ env (text : String), ∃ n ≤ text.toList.count '$', ∃ last,
      Progress.after? env n ⟨[], text.toList⟩ = some last ∧ last.turn? env = none ∧
        expand env text = String.ofList last.text) := by
  refine ⟨?_, ?_, ?_, ?_, ?_⟩
  · intro env a b
    have htext : (a ++ "/" ++ b).toList = a.toList ++ '/' :: b.toList := by simp
    apply String.toList_inj.mp
    simp [expand, htext, expandChars_append_slash]
  · intro env text htext
    rw [expand, expandChars_dollarless htext, String.ofList_toList]
  · intro env front name hfront hname
    have htext : (front ++ "$" ++ name).toList = front.toList ++ '$' :: name.toList := by simp
    apply String.toList_inj.mp
    rw [expand, htext, expandChars_dollar hfront, takeWhile_slashless hname,
      dropWhile_slashless hname, expandChars_dollarless (List.not_mem_nil)]
    simp [valueText]
  · intro text
    obtain ⟨parts, hproper, hsource, hfilled⟩ := exists_parts text.toList
    refine ⟨parts, hproper, ?_, fun env => ?_⟩
    · rw [hsource, String.ofList_toList]
    · rw [expand, hfilled env]
  · intro env text
    obtain ⟨n, hn, last, hafter, hlast, htext⟩ := Progress.exists_after? env [] text.toList
    refine ⟨n, hn, last, hafter, hlast, ?_⟩
    rw [expand, htext, List.nil_append]

/-- A value with a dollar sign and slashes in it. -/
theorem expand_by_components_nested :
    let env : String → Option String :=
      fun name => if name = "HOME" then some "/h/$USER/x" else none
    '$' ∉ "a/lib".toList ∧ '/' ∉ "HOME".toList ∧
      expand env ("a/lib" ++ "$" ++ "HOME" ++ "/" ++ "b") = "a/lib/h/$USER/x/b" := by
  intro env
  obtain ⟨happend, hplain, hcomponent, -, -⟩ := expand_by_components
  have hfront : '$' ∉ "a/lib".toList := by decide
  have hname : '/' ∉ "HOME".toList := by decide
  refine ⟨hfront, hname, ?_⟩
  rw [happend, hcomponent env _ _ hfront hname, hplain env "b" (by decide)]
  decide

end CppReflect.PathList
