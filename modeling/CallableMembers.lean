import CallableMembers.Session.Run
import CallableMembers.Proofs.Generics.RosterHistory
import CallableMembers.Proofs.Member.DraftHistory
import CallableMembers.Proofs.Ownership.Accounting
import CallableMembers.Proofs.Ownership.Reachability
import CallableMembers.Proofs.MapValues
import CallableMembers.Proofs.Session.Objects
import CallableMembers.Proofs.Session.Consistency
import CallableMembers.Proofs.Session.Evaluation
import CallableMembers.Proofs.Session.Queries
import CallableMembers.Proofs.Session.Progress
import CallableMembers.Proofs.Session.Lifetime
import CallableMembers.Proofs.Session.Frozen
import CallableMembers.Proofs.Generics.RosterReports
import CallableMembers.Proofs.Member.DraftReports
import CallableMembers.Proofs.Member.EmissionGate
import CallableMembers.Proofs.Member.MemberTable
import CallableMembers.Proofs.Session.MemberTables
import CallableMembers.Proofs.Session.OwnerCycles
import CallableMembers.Proofs.Generics.Slots
import CallableMembers.Proofs.Generics.Outcomes
import CallableMembers.Proofs.Member.ConstructorMarking
import CallableMembers.Proofs.Session.Declarations
import CallableMembers.Proofs.Session.DeclaringType
import CallableMembers.Proofs.Generics.Reordering
import CallableMembers.Proofs.Generics.Agreement
import CallableMembers.Proofs.History
import CallableMembers.Proofs.Generics.RosterTrace
import CallableMembers.Proofs.Member.DraftTrace
import CallableMembers.Proofs.Session.Reports
import CallableMembers.Proofs.Types.Nesting
import CallableMembers.Proofs.Session.NestedTypes
import CallableMembers.Proofs.Generics.Registration
import CallableMembers.Proofs.Generics.Rearrangement
import CallableMembers.Proofs.Types.Marks
import CallableMembers.Proofs.Session.NestedNames
import CallableMembers.Proofs.Text.NameList
import CallableMembers.Proofs.Member.SignatureText
import CallableMembers.Proofs.Text.HexNumber
import CallableMembers.Proofs.TokenText
