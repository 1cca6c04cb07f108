import CppReflect.Model.Export
import CppReflect.Operation.Dispatch
import CppReflect.Proofs.Addresses
import CppReflect.Proofs.Ast.Decisions
import CppReflect.Proofs.Ast.Enumerations
import CppReflect.Proofs.Ast.Extension
import CppReflect.Proofs.Ast.ImplicitMembers
import CppReflect.Proofs.Ast.Overloads
import CppReflect.Proofs.Ast.SecondPass
import CppReflect.Proofs.Coherence
import CppReflect.Proofs.Derivation
import CppReflect.Proofs.Hiding
import CppReflect.Proofs.Instances
import CppReflect.Proofs.JoinedSegments
import CppReflect.Proofs.Library.Headers
import CppReflect.Proofs.Library.SearchOrder
import CppReflect.Proofs.Library.Stems
import CppReflect.Proofs.Library.Variables
import CppReflect.Proofs.Model.CanonicalTexts
import CppReflect.Proofs.Model.Dimensions
import CppReflect.Proofs.Model.References
import CppReflect.Proofs.Model.Sizes
import CppReflect.Proofs.Model.Transparency
import CppReflect.Proofs.NestedNames
import CppReflect.Proofs.Operation.BestMatch
import CppReflect.Proofs.Operation.Handles
import CppReflect.Proofs.OperatorListing
import CppReflect.Proofs.Session.Lifecycle
import CppReflect.Proofs.Spelling.MemberPointers
import CppReflect.Proofs.Stability
import CppReflect.Proofs.Trampoline.Deletion
import CppReflect.Proofs.Trampoline.Eligibility
import CppReflect.Proofs.Trampoline.History
import CppReflect.Proofs.Trampoline.Typedefs
import CppReflect.Proofs.TypeNames
import CppReflect.Proofs.Walks
import CppReflect.Spelling.Export
import CppReflect.Trampoline.Export
