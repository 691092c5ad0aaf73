import CallableMembers.Types.Descriptor

/-!
# Formal parameters

A parameter holds its type: constructed types are usually made for one signature and held by
nothing else.
-/

namespace CallableMembers
namespace Types

/-! ## Bits of the attribute word -/

namespace ParameterBit

def isIn : UInt16 := 0x0001
def isOut : UInt16 := 0x0002
def optional : UInt16 := 0x0010
def hasDefault : UInt16 := 0x1000
def hasFieldMarshal : UInt16 := 0x2000
def unused : UInt16 := 0xCFE0

end ParameterBit

/-! ## Parameters -/

/-- Two parameters are the same object exactly if their identities are equal. -/
structure Parameter where
  id : ObjectId
  /-- Null for a parameter that stands for no row. -/
  token : Token
  flags : UInt16
  /-- As declared; the place in a signature is the place in its list. -/
  position : UInt32
  name? : Option String
  type : TypeDesc
  deriving DecidableEq, Repr

namespace Parameter

/-- The parameter made for a type that stands alone in a signature: no row, no name, no flags.
A position beyond 32 bits is the largest. -/
def ofType (id : ObjectId) (position : Nat) (t : TypeDesc) : Parameter :=
  ⟨id, .null, 0, UInt32.ofNatClamp position, none, t⟩

/-- One parameter for every type, in order, with consecutive identities. -/
def ofTypes (firstId : ObjectId) (types : List TypeDesc) : List Parameter :=
  types.mapIdx fun position t => ofType (firstId + position) position t

def has (p : Parameter) (mask : UInt16) : Bool :=
  p.flags &&& mask != 0

def isIn (p : Parameter) : Bool := p.has ParameterBit.isIn
def isOut (p : Parameter) : Bool := p.has ParameterBit.isOut
def isOptional (p : Parameter) : Bool := p.has ParameterBit.optional
def hasDefault (p : Parameter) : Bool := p.has ParameterBit.hasDefault

/-- The type, then the name if there is one. -/
def display (p : Parameter) : String :=
  match p.name? with
  | none => p.type.fullName
  | some name => p.type.fullName ++ " " ++ name

end Parameter
end Types
end CallableMembers
