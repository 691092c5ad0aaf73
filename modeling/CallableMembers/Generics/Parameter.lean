import CallableMembers.Token

/-!
# Generic parameters

A generic parameter declares the ordinal at which it stands in its member.  Nothing ties the
ordinal to the order in which parameters are met.
-/

namespace CallableMembers
namespace Generics

/-! ## Bits of the attribute word -/

namespace Bit

def varianceMask : UInt16 := 0x0003
def covariant : UInt16 := 0x0001
def contravariant : UInt16 := 0x0002
def specialConstraintMask : UInt16 := 0x001C
def referenceType : UInt16 := 0x0004
def valueType : UInt16 := 0x0008
def defaultConstructor : UInt16 := 0x0010

end Bit

/-! ## Parameters -/

/-- Two parameters are the same object exactly if their identities are equal. -/
structure GenericParameter where
  id : Nat
  token : Token
  number : UInt32
  flags : UInt16
  name : String
  deriving DecidableEq, Repr

namespace GenericParameter

/-- The declared position, counted from zero. -/
def ordinal (p : GenericParameter) : Nat :=
  p.number.toNat

/-- The variance field is compared as a whole, so a parameter with both bits has neither. -/
def isCovariant (p : GenericParameter) : Bool :=
  p.flags &&& Bit.varianceMask == Bit.covariant

def isContravariant (p : GenericParameter) : Bool :=
  p.flags &&& Bit.varianceMask == Bit.contravariant

def requiresValueType (p : GenericParameter) : Bool :=
  p.flags &&& Bit.valueType != 0

def requiresReferenceType (p : GenericParameter) : Bool :=
  p.flags &&& Bit.referenceType != 0

def requiresDefaultConstructor (p : GenericParameter) : Bool :=
  p.flags &&& Bit.defaultConstructor != 0

end GenericParameter
end Generics
end CallableMembers
