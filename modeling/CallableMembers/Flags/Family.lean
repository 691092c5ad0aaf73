/-!
# Family — the families of named bits in 16-bit metadata words

A family lists its constants in declaration order.  A constant may be zero or a union of other
constants: `RUNTIME` is both of the other code types, `ANY` both of the plain conventions.
-/

namespace CallableMembers
namespace Flags

/-! ## Bits of the method attribute word -/

namespace Bit

def unmanagedExport : UInt16 := 0x0008
def static : UInt16 := 0x0010
def final : UInt16 := 0x0020
def virtual : UInt16 := 0x0040
def hideBySig : UInt16 := 0x0080
def newSlot : UInt16 := 0x0100
def strict : UInt16 := 0x0200
def abstract : UInt16 := 0x0400
def specialName : UInt16 := 0x0800
def runtimeSpecialName : UInt16 := 0x1000
def platformInvoke : UInt16 := 0x2000
def hasSecurity : UInt16 := 0x4000
def requireSecurityObject : UInt16 := 0x8000

end Bit

/-! ## Fields of the two words -/

namespace Field

def codeType : UInt16 := 0x0003
def management : UInt16 := 0x0004
def access : UInt16 := 0x0007
def vtableLayout : UInt16 := 0x0100

end Field

/-! ## Families -/

inductive Family where
  | codeType
  | management
  | implOptions
  | vtable
  | modifiers
  | convention
  deriving DecidableEq, Repr

namespace Family

def all : List Family :=
  [.codeType, .management, .implOptions, .vtable, .modifiers, .convention]

/-- The name a set of the family carries in debug text. -/
def name : Family → String
  | .codeType => "MethodImplCodeType"
  | .management => "MethodImplManagement"
  | .implOptions => "MethodImplOptions"
  | .vtable => "MethodVtableFlags"
  | .modifiers => "MethodModifiers"
  | .convention => "CallingConventions"

def ofName? (name : String) : Option Family :=
  all.find? fun f => f.name == name

theorem ofName?_name : ∀ f ∈ all, ofName? f.name = some f := by
  decide

/-- The named constants, in declaration order. -/
def constants : Family → List (String × UInt16)
  | .codeType =>
      [("IL", 0x0000), ("NATIVE", 0x0001), ("OPTIL", 0x0002), ("RUNTIME", 0x0003)]
  | .management => [("UNMANAGED", 0x0004)]
  | .implOptions =>
      [("NO_INLINING", 0x0008), ("FORWARD_REF", 0x0010), ("SYNCHRONIZED", 0x0020),
       ("NO_OPTIMIZATION", 0x0040), ("PRESERVE_SIG", 0x0080), ("AGGRESSIVE_INLINING", 0x0100),
       ("INTERNAL_CALL", 0x1000)]
  | .vtable => [("REUSE_SLOT", 0x0000), ("NEW_SLOT", Bit.newSlot)]
  | .modifiers =>
      [("UNMANAGED_EXPORT", Bit.unmanagedExport), ("STATIC", Bit.static), ("FINAL", Bit.final),
       ("VIRTUAL", Bit.virtual), ("HIDE_BY_SIG", Bit.hideBySig), ("STRICT", Bit.strict),
       ("ABSTRACT", Bit.abstract), ("SPECIAL_NAME", Bit.specialName),
       ("RTSPECIAL_NAME", Bit.runtimeSpecialName), ("PINVOKE_IMPL", Bit.platformInvoke),
       ("HAS_SECURITY", Bit.hasSecurity), ("REQUIRE_SEC_OBJECT", Bit.requireSecurityObject)]
  | .convention =>
      [("STANDARD", 0x0001), ("VAR_ARGS", 0x0002), ("ANY", 0x0003), ("HAS_THIS", 0x0020),
       ("EXPLICIT_THIS", 0x0040)]

/-- Names are compared exactly; a constant that is zero has a value like any other. -/
def constant? (f : Family) (name : String) : Option UInt16 :=
  f.constants.lookup name

/-- The union of all constants. -/
def mask (f : Family) : UInt16 :=
  f.constants.foldl (fun acc c => acc ||| c.2) 0

end Family
end Flags
end CallableMembers
