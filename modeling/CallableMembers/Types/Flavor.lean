import CallableMembers.Text.DebugTree

/-!
# Flavor — what kind of type a type is

Most flavors are plain words; arrays carry their rank, usages of generic parameters the position
they refer to.
-/

namespace CallableMembers
namespace Types

open CallableMembers.Text

inductive Flavor where
  | void
  | boolean
  | char
  | i1
  | u1
  | i2
  | u2
  | i4
  | u4
  | i8
  | u8
  | r4
  | r8
  | nativeInt
  | nativeUInt
  | object
  | string
  | array (rank : UInt32)
  | pointer
  | byRef
  | genericInstance
  | genericParameter (index : UInt32) (ofMethod : Bool)
  | classType
  | valueType
  | interfaceType
  | unknown
  deriving DecidableEq, Repr

namespace Flavor

/-- The word a flavor is written with, its arguments left out. -/
def word : Flavor → String
  | .void => "Void"
  | .boolean => "Boolean"
  | .char => "Char"
  | .i1 => "I1"
  | .u1 => "U1"
  | .i2 => "I2"
  | .u2 => "U2"
  | .i4 => "I4"
  | .u4 => "U4"
  | .i8 => "I8"
  | .u8 => "U8"
  | .r4 => "R4"
  | .r8 => "R8"
  | .nativeInt => "I"
  | .nativeUInt => "U"
  | .object => "Object"
  | .string => "String"
  | .array _ => "Array"
  | .pointer => "Pointer"
  | .byRef => "ByRef"
  | .genericInstance => "GenericInstance"
  | .genericParameter _ _ => "GenericParameter"
  | .classType => "Class"
  | .valueType => "ValueType"
  | .interfaceType => "Interface"
  | .unknown => "Unknown"

/-- The flavors without arguments. -/
def plain : List Flavor :=
  [.void, .boolean, .char, .i1, .u1, .i2, .u2, .i4, .u4, .i8, .u8, .r4, .r8, .nativeInt,
   .nativeUInt, .object, .string, .pointer, .byRef, .genericInstance, .classType, .valueType,
   .interfaceType, .unknown]

def ofWord? (word : String) : Option Flavor :=
  plain.find? fun flavor => flavor.word == word

/-- Can emitted code take the address of a value of this flavor?  Not of an array, of a generic
instance, or of a usage of a generic parameter. -/
def isAddressable : Flavor → Bool
  | .array _ => false
  | .genericInstance => false
  | .genericParameter _ _ => false
  | _ => true

def isArray : Flavor → Bool
  | .array _ => true
  | _ => false

def debugTree : Flavor → DebugTree
  | .array rank => .record (word (.array rank)) [("rank", .number rank.toNat)]
  | .genericParameter index ofMethod =>
      .record (word (.genericParameter index ofMethod))
        [("index", .number index.toNat), ("method", .truth ofMethod)]
  | flavor => .word flavor.word

theorem ofWord?_word : ∀ flavor ∈ plain, ofWord? flavor.word = some flavor := by
  decide

end Flavor
end Types
end CallableMembers
