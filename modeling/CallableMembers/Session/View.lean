import CallableMembers.Session.State

/-!
# View — what the answers of a session show

A view is taken at one moment: what it says about weak references holds at that moment.
-/

namespace CallableMembers
namespace Session

open CallableMembers.Generics CallableMembers.Member CallableMembers.Types

structure TypeView where
  type : TypeDesc
  /-- How many members the type has. -/
  members : Nat

structure RefView where
  valid : Bool
  token? : Option Token
  fullName? : Option String

structure GenericView where
  parameter : GenericParameter
  constraints : List RefView

/-- A generic parameter in a view by ordinal, with the first place at which the very same object
was registered. -/
structure Placed where
  index : Nat
  parameter : GenericParameter

structure MethodView where
  method : Method
  /-- Absent if the member never had a declaring type. -/
  declaring? : Option RefView
  resolved : Except MemberError (Option TypeDesc)
  generics : List GenericView
  sorted : List Placed

def place (registered : List GenericParameter) (view : List GenericParameter) : List Placed :=
  view.map fun p => ⟨registered.findIdx fun q => q.id == p.id, p⟩

namespace State

def typeView (s : State) (t : TypeDesc) : TypeView :=
  ⟨t, (s.members t).size⟩

def refView (s : State) (r : WeakRef) : RefView :=
  ⟨s.isValid r, s.tokenOf? r, s.fullNameOf? r⟩

def genericView (s : State) (p : GenericParameter) : GenericView :=
  ⟨p, (s.constraintsOf p).map s.refView⟩

def methodView (s : State) (m : Method) : MethodView where
  method := m
  declaring? := m.declaring?.map s.refView
  resolved := s.resolveDeclaring m
  generics := m.generics.map s.genericView
  sorted := place m.generics m.genericView

end State
end Session
end CallableMembers
