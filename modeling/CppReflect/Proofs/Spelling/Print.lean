import CppReflect.Model.Print
import CppReflect.Proofs.Spelling.Scan
import CppReflect.Spelling.Reader

/-!
# Printing spellings

A spelling is printed around a declarator from the inside out: operators such as `*` are written in
front of what is printed for the operators outside them, and array and function suffixes behind it,
with parentheses where an operator in front would bind too loosely. The text is cut into the tokens
that are printed one by one, so that it can be read by looking at tokens only.
-/

namespace CppReflect

/-- The operator is written in front of a declarator, and not behind it. -/
def DeclaratorOp.isPrefix : DeclaratorOp → Bool
  | .pointer _ | .lvalueReference | .rvalueReference | .memberPointer .. => true
  | .array _ | .function .. => false

/-- The operator makes a reference. -/
def DeclaratorOp.isReference : DeclaratorOp → Bool
  | .lvalueReference | .rvalueReference => true
  | _ => false

namespace Spelling

/-- The innermost operator is written in front of a declarator. -/
def opensWithPrefix : List DeclaratorOp → Bool
  | [] => false
  | o :: _ => o.isPrefix

/-- The innermost operator makes a reference. -/
def opensWithReference : List DeclaratorOp → Bool
  | [] => false
  | o :: _ => o.isReference

/-- What is printed for a base. -/
def Base.text : Base → String
  | .void => "void"
  | .builtin b => b.spelling
  | .complex b => "_Complex " ++ b.spelling
  | .name n => n.text

/-- What is printed for an operator in front of a declarator, its qualifiers apart. -/
def sigil : DeclaratorOp → String
  | .lvalueReference => "&"
  | .rvalueReference => "&&"
  | .memberPointer klass _ => klass.text ++ "::*"
  | _ => "*"

/-- The qualifiers that are printed behind the sigil of an operator. -/
def opQuals : DeclaratorOp → Quals
  | .pointer q | .memberPointer _ q => q
  | _ => .none

mutual

/-- The spelling printed around a declarator. -/
def print : Spelling → String → String
  | .mk base quals ops, x => Model.baseText base.text quals (printOps ops x)

/-- A declarator printed inside operators, of which the first one is the innermost. -/
def printOps : List DeclaratorOp → String → String
  | [], x => x
  | o :: ops, x =>
    if o.isPrefix then Model.operatorText (sigil o) (opQuals o) (printOps ops x)
    else
      (if opensWithPrefix ops then "(" ++ printOps ops x ++ ")" else printOps ops x) ++ printSuffix o

/-- What is printed behind a declarator. -/
def printSuffix : DeclaratorOp → String
  | .array (some n) => "[" ++ toString n.toNat ++ "]"
  | .array none => "[]"
  | .function params variadic quals ref =>
    "(" ++ Model.paramsText (printAll params) variadic ++ ")" ++ Model.functionTail quals ref
  | _ => ""

/-- The spellings of parameters. -/
def printAll : List Spelling → List String
  | [] => []
  | s :: rest => print s "" :: printAll rest

end

/-! ## Tokens -/

/-- The tokens of qualifiers. -/
def qualTokens (q : Quals) : List Token := q.words.map Token.word

/-- The tokens of a text. -/
def textTokens (s : String) : List Token := Token.scan s.toList

/-- The tokens of an operator in front of a declarator. -/
def prefixTokens (o : DeclaratorOp) : List Token := textTokens (sigil o) ++ qualTokens (opQuals o)

/-- The tokens of a reference qualifier. -/
def refTokens : RefQualifier → List Token
  | .none => []
  | .lvalue => [.punct "&"]
  | .rvalue => [.punct "&&"]

mutual

/-- The tokens of a spelling around those of a declarator. -/
def tokens : Spelling → List Token → List Token
  | .mk base quals ops, x => qualTokens quals ++ textTokens base.text ++ opTokens ops x

/-- The tokens of a declarator inside operators. -/
def opTokens : List DeclaratorOp → List Token → List Token
  | [], x => x
  | o :: ops, x =>
    if o.isPrefix then prefixTokens o ++ opTokens ops x
    else
      (if opensWithPrefix ops then .punct "(" :: opTokens ops x ++ [.punct ")"]
        else opTokens ops x) ++ suffixTokens o

/-- The tokens behind a declarator. -/
def suffixTokens : DeclaratorOp → List Token
  | .array (some n) => [.punct "[", .number (toString n.toNat), .punct "]"]
  | .array none => [.punct "[", .punct "]"]
  | .function params variadic quals ref =>
    .punct "(" :: paramTokens params variadic ++
      .punct ")" :: (qualTokens quals ++ refTokens ref)
  | _ => []

/-- The tokens of parameters, with `...` behind them for a variadic function. -/
def paramTokens : List Spelling → Bool → List Token
  | [], false => []
  | [], true => [.punct "..."]
  | s :: rest, variadic =>
    tokens s [] ++
      if rest.isEmpty && !variadic then [] else .punct "," :: paramTokens rest variadic

end

/-! ## What is printed is cut into the tokens -/

open Token (scan Separate Apart continues)

/-- A character that belongs to no token of more than one character. -/
def Lone (c : Char) : Prop := continues c = false ∧ c ≠ '.' ∧ c ≠ ':' ∧ c ≠ '&'

instance (c : Char) : Decidable (Lone c) := inferInstanceAs (Decidable (_ ∧ _))

theorem separate_of_lone_right {f : Char} (hf : Lone f) (a b : List Char) : Separate a (f :: b) := by
  rintro l _ _ ⟨rfl⟩
  refine ⟨Or.inr hf.1, ?_⟩
  rintro ⟨_, h | h | h⟩
  · exact hf.2.1 h
  · exact hf.2.2.1 h
  · exact hf.2.2.2 h

theorem separate_of_lone_left {l : Char} (hl : Lone l) (a b : List Char) :
    Separate (a ++ [l]) b := by
  intro l' hl' f _
  rw [List.getLast?_concat, Option.mem_some] at hl'
  subst hl'
  refine ⟨Or.inl hl.1, ?_⟩
  rintro ⟨rfl, h | h | h⟩
  · exact hl.2.1 h
  · exact hl.2.2.1 h
  · exact hl.2.2.2 h

theorem scan_append_lone {f : Char} (hf : Lone f) (a b : List Char) :
    scan (a ++ f :: b) = scan a ++ scan (f :: b) :=
  Token.scan_append (separate_of_lone_right hf a b)

theorem scan_lone_append {l : Char} (hl : Lone l) (a b : List Char) :
    scan (a ++ [l] ++ b) = scan (a ++ [l]) ++ scan b :=
  Token.scan_append (separate_of_lone_left hl a b)

theorem scan_blank (cs : List Char) : scan (' ' :: cs) = scan cs := by
  rw [Token.scan_cons, if_pos (by decide)]

/-- A blank separates everything. -/
theorem scan_append_blank (a b : List Char) : scan (a ++ ' ' :: b) = scan a ++ scan b := by
  rw [scan_append_lone (by decide), scan_blank]

theorem scan_blank_between (a b : String) :
    scan (a ++ " " ++ b).toList = scan a.toList ++ scan b.toList := by
  rw [String.append_assoc, String.toList_append, String.toList_append]
  exact scan_append_blank _ _

mutual

/-- No `&` of an operator is followed by an `&` of the declarator inside it, neither that of another
reference nor one that the class of a member pointer begins with. -/
def Tidy : Spelling → Prop
  | .mk _ _ ops => TidyOps ops

/-- The operators of a tidy spelling. -/
def TidyOps : List DeclaratorOp → Prop
  | [] => True
  | o :: ops => TidyOp o ∧ (o.isReference = true → opensWithReference ops = false) ∧ TidyOps ops

/-- An operator of a tidy spelling. -/
def TidyOp : DeclaratorOp → Prop
  | .memberPointer klass _ => klass.text.toList.head? ≠ some '&'
  | .function params .. => TidyAll params
  | _ => True

/-- The parameters of a tidy spelling. -/
def TidyAll : List Spelling → Prop
  | [] => True
  | s :: rest => Tidy s ∧ TidyAll rest

end

theorem scan_qualsText (q : Quals) : scan (Model.qualsText q).toList = qualTokens q := by
  unfold Model.qualsText qualTokens Quals.words
  cases q.contains .const <;> cases q.contains .volatile <;> cases q.contains .restrict <;>
    decide +kernel

theorem isDigit_continuesNumber {cs : List Char} (h : ∀ c ∈ cs, c.isDigit = true) :
    cs.takeWhile Token.continuesNumber = cs ∧ cs.dropWhile Token.continuesNumber = [] := by
  induction cs with
  | nil => exact ⟨rfl, rfl⟩
  | cons c cs ih =>
      obtain ⟨htake, hdrop⟩ := ih fun d hd => h d (List.mem_cons_of_mem _ hd)
      have hc := Token.continuesNumber_of_isDigit (h c List.mem_cons_self)
      simp [hc, htake, hdrop]

theorem not_startsWord_of_isDigit {c : Char} (h : c.isDigit = true) :
    Text.isSpace c = false ∧ Token.startsWord c = false := by
  have hall : ∀ n < 10, Text.isSpace (Char.ofNat (48 + n)) = false ∧
      Token.startsWord (Char.ofNat (48 + n)) = false := by
    decide +kernel
  obtain ⟨hlow, hhigh⟩ := Char.isDigit_iff_toNat.mp h
  have hlow : 48 ≤ c.toNat := hlow
  have hhigh : c.toNat ≤ 57 := hhigh
  have hc := hall (c.toNat - 48) (by omega)
  rwa [show 48 + (c.toNat - 48) = c.toNat by omega, Char.ofNat_toNat] at hc

/-- Decimal digits are one token. -/
theorem scan_decimal {digits : List Char} (hne : digits ≠ [])
    (h : ∀ c ∈ digits, c.isDigit = true) : scan digits = [.number (String.ofList digits)] := by
  obtain ⟨c, rest, rfl⟩ := List.exists_cons_of_ne_nil hne
  have hc := h c List.mem_cons_self
  obtain ⟨htake, hdrop⟩ := isDigit_continuesNumber fun d hd => h d (List.mem_cons_of_mem _ hd)
  obtain ⟨hspace, hword⟩ := not_startsWord_of_isDigit hc
  rw [Token.scan_cons, if_neg (by simp [hspace]), if_neg (by simp [hword]), if_pos hc, htake,
    hdrop, Token.scan_nil]

/-- A printed number is one token. -/
theorem scan_digits (n : Nat) : scan (toString n).toList = [.number (toString n)] := by
  rw [Nat.toString_eq_ofList_toDigits, String.toList_ofList]
  exact scan_decimal Nat.toDigits_ne_nil fun c hc =>
    Nat.isDigit_of_mem_toDigits (by decide) (by decide) hc

theorem qualTokens_none : qualTokens .none = [] := rfl

theorem quals_eq_none {q : Quals} (h : q.isEmpty = true) : q = .none := by
  rw [Quals.isEmpty, beq_iff_eq] at h
  cases q
  exact congrArg _ h

theorem isReference_cases {o : DeclaratorOp} (h : o.isReference = true) :
    o = .lvalueReference ∨ o = .rvalueReference := by
  cases o with
  | lvalueReference => exact Or.inl rfl
  | rvalueReference => exact Or.inr rfl
  | pointer | memberPointer | array | function => exact absurd h (by simp [DeclaratorOp.isReference])

/-- What ends the sigil of an operator other than a reference. -/
theorem sigil_endsWith_star {o : DeclaratorOp} (h : o.isReference = false) :
    ∃ front, (sigil o).toList = front ++ ['*'] := by
  cases o with
  | lvalueReference | rvalueReference => exact absurd h (by decide)
  | memberPointer klass q => exact ⟨klass.text.toList ++ [':', ':'], by simp [sigil]⟩
  | pointer | array | function => exact ⟨[], by simp [sigil]⟩

/-- The sigil of an operator is cut from what follows it, but for an `&` behind a reference. -/
theorem scan_sigil_append {o : DeclaratorOp} {b : List Char}
    (h : o.isReference = true → b.head? ≠ some '&') :
    scan ((sigil o).toList ++ b) = textTokens (sigil o) ++ scan b := by
  by_cases href : o.isReference = true
  · refine Token.scan_append ?_
    intro l hl f hf
    have hamp : l = '&' := by
      rcases isReference_cases href with rfl | rfl
      · exact (Option.some.inj hl).symm
      · exact (Option.some.inj hl).symm
    subst hamp
    refine ⟨Or.inl (by decide), ?_⟩
    rintro ⟨rfl, _⟩
    exact h href hf
  · obtain ⟨front, hsigil⟩ := sigil_endsWith_star (by simpa using href)
    rw [textTokens, hsigil, scan_lone_append (by decide)]

theorem head?_append_ne {c : Char} {cs ds : List Char} (hcs : cs.head? ≠ some c)
    (hds : ds.head? ≠ some c) : (cs ++ ds).head? ≠ some c := by
  cases cs with
  | nil => exact hds
  | cons => exact hcs

theorem qualsText_head? (q : Quals) : (Model.qualsText q).toList.head? ≠ some '&' := by
  unfold Model.qualsText Quals.words
  cases q.contains .const <;> cases q.contains .volatile <;> cases q.contains .restrict <;>
    decide +kernel

/-- The qualifiers of an operator are cut from its sigil and from the declarator, if the sigil is cut
from what can follow it. -/
theorem scan_operatorText_of {sigil x : String} (q : Quals)
    (hcut : ∀ cs : List Char, cs.head? ≠ some '&' ∨ cs = x.toList →
      scan (sigil.toList ++ cs) = textTokens sigil ++ scan cs) :
    scan (Model.operatorText sigil q x).toList =
      textTokens sigil ++ (qualTokens q ++ scan x.toList) := by
  unfold Model.operatorText
  split
  next hempty =>
    rw [String.toList_append, hcut _ (.inr rfl), quals_eq_none hempty, qualTokens_none,
      List.nil_append]
  next =>
    rw [String.append_assoc, String.append_assoc, String.toList_append]
    split
    next hx =>
      rw [String.isEmpty_iff.mp hx, String.append_empty, String.append_empty,
        hcut _ (.inl (qualsText_head? q)), scan_qualsText, String.toList_empty, Token.scan_nil,
        List.append_nil]
    next =>
      have hhead : (Model.qualsText q ++ (" " ++ x)).toList.head? ≠ some '&' := by
        rw [String.toList_append]
        exact head?_append_ne (qualsText_head? q) (by simp)
      rw [hcut _ (.inl hhead), ← String.append_assoc, scan_blank_between, scan_qualsText]

theorem scan_operatorText {o : DeclaratorOp} {x : String}
    (h : o.isReference = true → x.toList.head? ≠ some '&') :
    scan (Model.operatorText (sigil o) (opQuals o) x).toList = prefixTokens o ++ scan x.toList := by
  rw [scan_operatorText_of, prefixTokens, List.append_assoc]
  rintro cs (hcs | rfl)
  · exact scan_sigil_append fun _ => hcs
  · exact scan_sigil_append h

/-- The base of a type is cut from what is printed around. -/
theorem scan_baseText (base : String) (q : Quals) (x : String) :
    scan (Model.baseText base q x).toList =
      qualTokens q ++ textTokens base ++ scan x.toList := by
  have hfront : scan (if q.isEmpty = true then base else Model.qualsText q ++ " " ++ base).toList =
      qualTokens q ++ textTokens base := by
    split
    next hempty =>
      rw [quals_eq_none hempty]
      rfl
    next => rw [scan_blank_between, scan_qualsText, textTokens]
  unfold Model.baseText
  simp only
  rw [← hfront]
  split
  next hx => rw [String.isEmpty_iff.mp hx, String.toList_empty, Token.scan_nil, List.append_nil]
  next hx =>
    split
    next hbracket =>
      rw [String.toList_append]
      cases hcs : x.toList with
      | nil => rw [Text.startsWith, hcs] at hbracket; exact absurd hbracket (by decide)
      | cons c cs =>
          have hc : '[' = c := by
            rw [Text.startsWith, hcs] at hbracket
            simpa using hbracket
          subst hc
          exact scan_append_lone (by decide) _ _
    next => rw [scan_blank_between]

theorem printSuffix_head? {o : DeclaratorOp} (h : o.isPrefix = false) :
    ∃ c cs, (printSuffix o).toList = c :: cs ∧ (c = '[' ∨ c = '(') := by
  cases o with
  | pointer | lvalueReference | rvalueReference | memberPointer =>
      exact absurd h (by simp [DeclaratorOp.isPrefix])
  | array extent =>
      cases extent with
      | none => exact ⟨'[', [']'], by simp [printSuffix], Or.inl rfl⟩
      | some n =>
          refine ⟨'[', (toString n.toNat).toList ++ [']'], ?_, Or.inl rfl⟩
          simp [printSuffix]
  | function params variadic q ref =>
      refine ⟨'(', (Model.paramsText (printAll params) variadic).toList ++
        ')' :: (Model.functionTail q ref).toList, ?_, Or.inr rfl⟩
      simp [printSuffix]

theorem scan_parens (s : String) :
    scan ("(" ++ s ++ ")").toList = .punct "(" :: scan s.toList ++ [.punct ")"] := by
  rw [String.toList_append, String.toList_append]
  exact (scan_append_lone (f := ')') (by decide) _ _).trans
    (congrArg (· ++ scan [')']) (scan_lone_append (l := '(') (by decide) [] s.toList))

theorem scan_comma (a b : String) :
    scan (a ++ ", " ++ b).toList = scan a.toList ++ .punct "," :: scan b.toList := by
  rw [String.append_assoc, String.toList_append, String.toList_append]
  refine (scan_append_lone (f := ',') (by decide) _ _).trans (congrArg (scan a.toList ++ ·) ?_)
  exact scan_lone_append (l := ',') (by decide) [] _ |>.trans (congrArg _ (scan_blank _))

/-- What follows the parameters of a function is cut from them. -/
theorem scan_append_functionTail (a : List Char) (q : Quals) (ref : RefQualifier) :
    scan (a ++ (Model.functionTail q ref).toList) = scan a ++ (qualTokens q ++ refTokens ref) := by
  have hquals : scan (a ++ (if q.isEmpty = true then "" else " " ++ Model.qualsText q).toList) =
      scan a ++ qualTokens q := by
    split
    next hempty =>
      rw [quals_eq_none hempty, qualTokens_none, String.toList_empty, List.append_nil,
        List.append_nil]
    next =>
      rw [String.toList_append, ← scan_qualsText q]
      exact scan_append_blank a _
  unfold Model.functionTail
  rw [String.toList_append, ← List.append_assoc, ← List.append_assoc, ← hquals]
  cases ref with
  | none => simp [refTokens]
  | lvalue => exact scan_append_blank _ ['&']
  | rvalue => exact scan_append_blank _ ['&', '&']

/-- A declarator that opens with no reference is printed without an `&` in front. -/
theorem printOps_head? {ops : List DeclaratorOp} {x : String} (h : TidyOps ops)
    (href : opensWithReference ops = false) (hx : x.toList.head? ≠ some '&') :
    (printOps ops x).toList.head? ≠ some '&' := by
  induction ops with
  | nil => simpa [printOps] using hx
  | cons o ops ih =>
      unfold TidyOps at h
      unfold printOps
      split
      next hfront =>
        cases o with
        | lvalueReference | rvalueReference =>
            exact absurd href (by simp [opensWithReference, DeclaratorOp.isReference])
        | array | function => exact absurd hfront (by simp [DeclaratorOp.isPrefix])
        | pointer q =>
            unfold Model.operatorText
            split <;> simp [sigil]
        | memberPointer klass q =>
            have hklass := h.1
            unfold TidyOp at hklass
            unfold Model.operatorText
            cases hk : klass.text.toList with
            | nil => split <;> simp [sigil, hk]
            | cons c cs =>
                rw [hk] at hklass
                split <;> simpa [sigil, hk] using hklass
      next hsuffix =>
        obtain ⟨c, cs, hc, hopen⟩ := printSuffix_head? (by simpa using hsuffix)
        split
        next => simp
        next hops =>
          have hinner := ih h.2.2 (by
            cases ops with
            | nil => rfl
            | cons o' ops => cases o' <;> simp_all [opensWithPrefix, opensWithReference,
                DeclaratorOp.isPrefix, DeclaratorOp.isReference])
          rw [String.toList_append, hc]
          cases hcs : (printOps ops x).toList with
          | nil =>
              simp only [List.nil_append, List.head?_cons, ne_eq, Option.some.injEq]
              rintro rfl
              exact absurd hopen (by decide)
          | cons d ds =>
              rw [hcs] at hinner
              simpa using hinner

mutual

/-- A printed spelling is cut into the tokens of the spelling. -/
theorem scan_print {x : String} (hx : x.toList.head? ≠ some '&') : (s : Spelling) → Tidy s →
    scan (print s x).toList = tokens s (textTokens x)
  | .mk base quals ops, h => by
    unfold Tidy at h
    unfold print tokens
    rw [scan_baseText, scan_printOps hx ops h]

theorem scan_printOps {x : String} (hx : x.toList.head? ≠ some '&') :
    (ops : List DeclaratorOp) → TidyOps ops →
    scan (printOps ops x).toList = opTokens ops (textTokens x)
  | [], _ => by simp [printOps, opTokens, textTokens]
  | o :: ops, h => by
    unfold TidyOps at h
    unfold printOps opTokens
    have hops := scan_printOps hx ops h.2.2
    split
    next =>
      rw [scan_operatorText fun href => printOps_head? h.2.2 (h.2.1 href) hx, hops]
    next hsuffix =>
      obtain ⟨c, cs, hc, hopen⟩ := printSuffix_head? (by simpa using hsuffix)
      have hlone : Lone c := by rcases hopen with rfl | rfl <;> decide
      rw [String.toList_append, hc, scan_append_lone hlone, ← hc, scan_printSuffix o h.1]
      split
      next => rw [scan_parens, hops]
      next => rw [hops]

theorem scan_printSuffix : (o : DeclaratorOp) → TidyOp o →
    scan (printSuffix o).toList = suffixTokens o
  | .array (some n), _ => by
    have hdigits := scan_digits n.toNat
    simp only [printSuffix, suffixTokens, String.toList_append]
    refine (scan_append_lone (f := ']') (by decide) _ _).trans ?_
    exact congrArg (· ++ scan [']']) ((scan_lone_append (l := '[') (by decide) [] _).trans
      (congrArg _ hdigits))
  | .array none, _ => by
    simp only [printSuffix, suffixTokens]
    decide
  | .function params variadic quals ref, h => by
    have hparams := scan_paramsText params variadic (by unfold TidyOp at h; exact h)
    unfold printSuffix suffixTokens
    rw [String.toList_append, scan_append_functionTail, scan_parens, hparams, List.append_assoc]
    rfl
  | .pointer _, _ | .lvalueReference, _ | .rvalueReference, _ | .memberPointer .., _ => by
    simp [printSuffix, suffixTokens, Token.scan_nil]

theorem scan_paramsText : (params : List Spelling) → (variadic : Bool) → TidyAll params →
    scan (Model.paramsText (printAll params) variadic).toList = paramTokens params variadic
  | [], false, _ => by
    simp [Model.paramsText, printAll, Text.joined, paramTokens, Token.scan_nil]
  | [], true, _ => by
    simp only [Model.paramsText, printAll, paramTokens]
    decide
  | s :: rest, variadic, h => by
    unfold TidyAll at h
    have hs := scan_print (x := "") (by simp) s h.1
    have hrest := scan_paramsText rest variadic h.2
    unfold Model.paramsText printAll paramTokens
    by_cases hlast : rest.isEmpty && !variadic
    · simp only [Bool.and_eq_true, List.isEmpty_iff, Bool.not_eq_true'] at hlast
      obtain ⟨rfl, rfl⟩ := hlast
      simpa [printAll, Text.joined, textTokens, Token.scan_nil] using hs
    · have hne : printAll rest ++ (if variadic = true then ["..."] else []) ≠ [] := by
        cases rest <;> cases variadic <;> simp_all [printAll]
      rw [if_neg hlast, List.cons_append, Text.joined_cons hne, scan_comma, hs, ← hrest]
      rfl

end

end Spelling

end CppReflect
