import CallableMembers.Types.Parameter

/-!
# Signature — what a callable member takes and returns

A member is a method, with or without a return type, or a constructor, which returns nothing.  A
signature holds its parameters and its return type; it also decides whether an emitter can refer
to the member, because some types cannot stand in emitted references.
-/

namespace CallableMembers
namespace Member

open CallableMembers.Types

/-! ## Roles -/

inductive Role where
  /-- No return type means `void`, or a type that was not resolved. -/
  | method (returnType? : Option TypeDesc)
  | constructor
  deriving DecidableEq, Repr

namespace Role

def returnType? : Role → Option TypeDesc
  | .method returnType? => returnType?
  | .constructor => none

def isConstructor : Role → Bool
  | .method _ => false
  | .constructor => true

end Role

/-! ## Signatures -/

structure Signature where
  parameters : List Parameter
  role : Role
  deriving DecidableEq, Repr

namespace Signature

/-- The objects a signature keeps alive: its parameters, then its return type. -/
def holds (s : Signature) : List ObjectId :=
  s.parameters.map Parameter.id ++ s.role.returnType?.toList.map TypeDesc.id

/-- The full names of the parameter types, separated by commas, in parentheses. -/
def parameterText (s : Signature) : String :=
  "(" ++ String.intercalate ", " (s.parameters.map fun p => p.type.fullName) ++ ")"

end Signature

/-! ## Emission -/

/-- Types that keep an emitter from referring to a member: a pointer, and a reference to
something whose address cannot be taken.  A reference type without an element is let through. -/
def blocksEmission (t : TypeDesc) : Bool :=
  if t.isPointer then true
  else if t.isByRef then
    match t.element? with
    | some element => !element.isAddressable
    | none => false
  else false

namespace Signature

def hasBlockedParameter (s : Signature) : Bool :=
  s.parameters.any fun p => blocksEmission p.type

/-- A constructor has no return type to look at. -/
def isBlocked (s : Signature) : Bool :=
  s.role.returnType?.any blocksEmission || s.hasBlockedParameter

end Signature
end Member
end CallableMembers
