import CppReflect.Proofs.Ast.Run

/-!
# Watched visits

A visit that is checked on its way: at each member, behind the location of the node and in front of
the decision whether the node is in the main file, a test of the scope, the node and the progress so
far is made, and the dump is given up where it fails. If this never shows, whatever the dump would
be given up with, the test has been passed at every member.
-/

namespace CppReflect.Ast

/-- What is asked at a member: in which scope, about which node, in which state. -/
abbrev MemberTest := DeclId → Json → Progress → Prop

open Classical in
/-- A member as it is visited, except that the dump is given up with `e` where the test fails. -/
noncomputable def visitMemberWatched (test : MemberTest) (e : IngestError) (visit : Visitor)
    (source : Source) (scope : DeclId) (s : MemberState) (node : Json) : IngestM MemberState := do
  observe node
  let p ← getThe Progress
  if test scope node p then
    if has node "loc" && inMainFile source p.file then
      declare visit source scope s node
    else
      passOver node
      return s
  else throw e

/-- The members of a node as they are visited, each of them watched. -/
noncomputable def visitMembersWatched (test : MemberTest) (e : IngestError) (source : Source) :
    Nat → Visitor
  | 0, _, _, _ => pure ()
  | fuel + 1, node, scope, access => do
    let _ ← (children node).foldlM
      (visitMemberWatched test e (visitMembersWatched test e source fuel) source scope)
      ⟨access, none⟩

/-- A whole dump as it is visited, each member of it watched. -/
noncomputable def visitDumpWatched (test : MemberTest) (e : IngestError) (source : Source)
    (node : Json) : IngestM Unit := do
  observe node
  visitMembersWatched test e source (node.depth + 1) node Model.root .none

end CppReflect.Ast
