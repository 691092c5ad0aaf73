import CallableMembers.Member.Draft
import CallableMembers.Ownership.Ledger
import CallableMembers.Session.TypeExpr

/-!
# State — named objects and the holds between them

A session names types, weak references, parameters, generic parameters, rosters, drafts and
methods.  Types, parameters and methods are shared objects whose holders are counted in a ledger:
a name is one holder, a constructed type holds its element, a parameter its type, a method or a
draft its parameters and its return type, and a type the members in its table.  References,
declaring types and constraints hold nothing.

When a table lets go of a member that another one replaces is up to the map that the table is kept
in.  Such a member is retired and still held, until it is reclaimed by a step of its own, in any
order and at any time.  A table that goes with its type lets go of its members at once.
-/

namespace CallableMembers
namespace Session

open CallableMembers.Generics CallableMembers.Member CallableMembers.Ownership CallableMembers.Types

/-! ## Counted objects -/

inductive Node where
  | type (type : TypeDesc) (members : MemberTable)
  | parameter (p : Parameter)
  | method (m : Method)

instance : Holder Node where
  holds
    | .type t members => t.element?.toList.map TypeDesc.id ++ members.values.map Method.id
    | .parameter p => [p.type.id]
    | .method m => m.signature.holds

/-! ## The state -/

abbrev Names (α : Type) := OrderedMap String α

structure State where
  ledger : Ledger Node
  types : Names TypeDesc
  refs : Names WeakRef
  parameters : Names Parameter
  generics : Names GenericParameter
  rosters : Names Roster
  drafts : Names Draft
  methods : Names Method
  /-- The constraints of every generic parameter ever made, at the place of its identity. -/
  constraints : List (List WeakRef)
  /-- The members that were replaced in a table and have not been reclaimed. -/
  retired : List Method

namespace State

def empty : State where
  ledger := .empty
  types := .empty
  refs := .empty
  parameters := .empty
  generics := .empty
  rosters := .empty
  drafts := .empty
  methods := .empty
  constraints := []
  retired := []

/-- The holds of the caller: one for every name of a counted object, and those of the drafts,
which are no objects themselves. -/
def handles (s : State) : List ObjectId :=
  s.types.values.map TypeDesc.id ++ s.parameters.values.map Parameter.id
    ++ s.methods.values.map Method.id ++ s.drafts.values.flatMap fun d => d.signature.holds

/-- All holds that are not those of an object: the caller's, and those on retired members. -/
def roots (s : State) : List ObjectId :=
  s.handles ++ s.retired.map Method.id

/-! ## Holding and releasing -/

def add (s : State) (node : Node) : State :=
  { s with ledger := s.ledger.add node }

def addAll (s : State) (nodes : List Node) : State :=
  nodes.foldl add s

def retain (s : State) (i : ObjectId) : State :=
  { s with ledger := s.ledger.retain i }

def retainAll (s : State) (ids : List ObjectId) : State :=
  { s with ledger := s.ledger.retainAll ids }

def release (s : State) (i : ObjectId) : State :=
  { s with ledger := s.ledger.release i }

def releaseAll (s : State) (ids : List ObjectId) : State :=
  { s with ledger := s.ledger.releaseAll ids }

/-! ## Weak references -/

/-- The type a reference leads to, as long as it is held by anyone. -/
def upgrade (s : State) (r : WeakRef) : Option TypeDesc :=
  match s.ledger.find? r.target with
  | some (.type t _) => some t
  | _ => none

def isValid (s : State) (r : WeakRef) : Bool :=
  s.ledger.isLive r.target

/-- Like `upgrade`, with the name under which a missing type is reported. -/
def resolve (s : State) (r : WeakRef) (what : String) : Except MemberError TypeDesc :=
  match s.upgrade r with
  | some t => .ok t
  | none => .error (.typeMissing what)

def tokenOf? (s : State) (r : WeakRef) : Option Token :=
  (s.upgrade r).map TypeDesc.token

def fullNameOf? (s : State) (r : WeakRef) : Option String :=
  (s.upgrade r).map TypeDesc.fullName

/-- A member without a declaring type has none to resolve. -/
def resolveDeclaring (s : State) (m : Method) : Except MemberError (Option TypeDesc) :=
  match m.declaring? with
  | none => .ok none
  | some r => (s.resolve r "declaring type").map some

/-! ## Member tables -/

def members (s : State) (t : TypeDesc) : MemberTable :=
  match s.ledger.find? t.id with
  | some (.type _ members) => members
  | _ => .empty

def setMembers (s : State) (t : TypeDesc) (members : MemberTable) : State :=
  { s with ledger := s.ledger.replace t.id (.type t members) }

def retire (s : State) (ms : List Method) : State :=
  { s with retired := s.retired ++ ms }

/-- The table holds the member from now on; a member it replaces is retired. -/
def addMember (s : State) (t : TypeDesc) (m : Method) : State :=
  let before := s.members t
  ((s.retain m.id).setMembers t (before.add m)).retire (before.find? m.token).toList

/-! ## Constraints -/

def constraintsOf (s : State) (p : GenericParameter) : List WeakRef :=
  s.constraints.getD p.id []

/-- A constraint is appended and holds nothing. -/
def addConstraint (s : State) (p : GenericParameter) (t : TypeDesc) : State :=
  { s with constraints := s.constraints.modify p.id (· ++ [.of t]) }

/-! ## Storing under a name

A stored object takes over the caller's hold; the object that had the name is released after the
new one is in place. -/

def storeType (s : State) (name : String) (t : TypeDesc) : State :=
  let before := (s.types.find? name).toList.map TypeDesc.id
  { s with types := s.types.insert name t }.releaseAll before

def storeParameter (s : State) (name : String) (p : Parameter) : State :=
  let before := (s.parameters.find? name).toList.map Parameter.id
  { s with parameters := s.parameters.insert name p }.releaseAll before

def storeMethod (s : State) (name : String) (m : Method) : State :=
  let before := (s.methods.find? name).toList.map Method.id
  { s with methods := s.methods.insert name m }.releaseAll before

def storeDraft (s : State) (name : String) (d : Draft) : State :=
  let before := (s.drafts.find? name).toList.flatMap fun old => old.signature.holds
  { s with drafts := s.drafts.insert name d }.releaseAll before

/-- A draft that stays the same object is updated in place. -/
def updateDraft (s : State) (name : String) (d : Draft) : State :=
  { s with drafts := s.drafts.insert name d }

/-! ## Evaluating type expressions -/

/-- The type comes with a hold of its own, which the caller passes on or gives up.  Fails on an
unknown name, and where there is no such type: the element of a type that has none, the return
type of a member without one, the declaring type of a member that never had one or whose type is
gone. -/
def evaluate (s : State) : TypeExpr → Option (TypeDesc × State)
  | .stored name => do
      let t ← s.types.find? name
      return (t, s.retain t.id)
  | .typeOf parameter => do
      let p ← s.parameters.find? parameter
      return (p.type, s.retain p.type.id)
  | .returnOf method => do
      let m ← s.methods.find? method
      let t ← m.returnType?
      return (t, s.retain t.id)
  | .ownerOf method => do
      let m ← s.methods.find? method
      let r ← m.declaring?
      let t ← s.upgrade r
      return (t, s.retain t.id)
  | .named token flavor namespaceName name =>
      let t := .named s.ledger.nextId token flavor namespaceName name
      some (t, s.add (.type t .empty))
  | .constructed wrapper element => do
      let (inner, s) ← s.evaluate element
      let t := .constructed s.ledger.nextId wrapper inner
      return (t, s.add (.type t .empty))
  | .elementOf type => do
      let (outer, s) ← s.evaluate type
      let t ← outer.element?
      return (t, (s.retain t.id).release outer.id)

/-- The types come with one hold each. -/
def evaluateAll (s : State) : List TypeExpr → Option (List TypeDesc × State)
  | [] => some ([], s)
  | e :: rest => do
      let (t, s) ← s.evaluate e
      let (ts, s) ← s.evaluateAll rest
      return (t :: ts, s)

end State
end Session
end CallableMembers
