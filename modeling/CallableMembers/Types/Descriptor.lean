import CallableMembers.Ownership.ObjectId
import CallableMembers.Token
import CallableMembers.Types.Flavor

/-!
# Descriptor — named types and the types constructed from them

A type is an object of its own: two descriptors denote the same type exactly if their identities
are equal.  A constructed type has no token; its namespace is that of its element and its name is
the name of its element with a suffix, so a full name reads as the base name followed by the
suffixes of the wrappers from the inside out.
-/

namespace CallableMembers

namespace Types

open CallableMembers.Text

/-! ## Wrappers -/

/-- The ways to construct a type from its element. -/
inductive Wrapper where
  | pointer
  | byRef
  /-- One dimension, zero-based. -/
  | vector
  | array (rank : UInt32)
  deriving DecidableEq, Repr

namespace Wrapper

/-- A vector has the flavor of an array of rank one. -/
def flavor : Wrapper → Flavor
  | .pointer => .pointer
  | .byRef => .byRef
  | .vector => .array 1
  | .array rank => .array rank

/-- An array of rank zero is written as one of rank one. -/
def suffix : Wrapper → String
  | .pointer => "*"
  | .byRef => "&"
  | .vector => "[]"
  | .array rank => "[" ++ "".pushn ',' (rank.toNat - 1) ++ "]"

/-- Reads a wrapper from its one-character code; a digit is the rank of an array. -/
def ofCode? (code : Char) : Option Wrapper :=
  if code = '*' then some .pointer
  else if code = '&' then some .byRef
  else if code = '[' then some .vector
  else if code.isDigit then some (.array (UInt32.ofNat (code.toNat - '0'.toNat)))
  else none

end Wrapper

/-! ## Descriptors -/

inductive TypeDesc where
  | named (id : ObjectId) (token : Token) (flavor : Flavor) (namespaceName name : String)
  | constructed (id : ObjectId) (wrapper : Wrapper) (element : TypeDesc)
  deriving DecidableEq, Repr

namespace TypeDesc

def id : TypeDesc → ObjectId
  | .named id _ _ _ _ => id
  | .constructed id _ _ => id

def token : TypeDesc → Token
  | .named _ token _ _ _ => token
  | .constructed _ _ _ => .null

def flavor : TypeDesc → Flavor
  | .named _ _ flavor _ _ => flavor
  | .constructed _ wrapper _ => wrapper.flavor

def namespaceName : TypeDesc → String
  | .named _ _ _ namespaceName _ => namespaceName
  | .constructed _ _ element => element.namespaceName

def name : TypeDesc → String
  | .named _ _ _ _ name => name
  | .constructed _ wrapper element => element.name ++ wrapper.suffix

/-- A named type has no element, whatever its flavor. -/
def element? : TypeDesc → Option TypeDesc
  | .named _ _ _ _ _ => none
  | .constructed _ _ element => some element

/-- The name behind its namespace; an empty namespace leaves no separator. -/
def fullName (t : TypeDesc) : String :=
  if t.namespaceName = "" then t.name else t.namespaceName ++ "." ++ t.name

/-- The text of a type, which reads like its full name. -/
def display (t : TypeDesc) : String :=
  if t.namespaceName = "" then t.name else t.namespaceName ++ "." ++ t.name

def isPointer (t : TypeDesc) : Bool :=
  t.flavor == .pointer

def isByRef (t : TypeDesc) : Bool :=
  t.flavor == .byRef

def isArray (t : TypeDesc) : Bool :=
  t.flavor.isArray

def isAddressable (t : TypeDesc) : Bool :=
  t.flavor.isAddressable

/-- The flavors from the type down its elements to the named type at the end. -/
def flavorChain : TypeDesc → List Flavor
  | .named _ _ flavor _ _ => [flavor]
  | .constructed _ wrapper element => wrapper.flavor :: element.flavorChain

/-- Debug text shows how many members the type has; the count comes from its member table. -/
def debugTree (t : TypeDesc) (members : Nat) : DebugTree :=
  .record "CilType"
    [("token", t.token.debugTree), ("flavor", t.flavor.debugTree),
     ("name", .quoted t.fullName), ("methods", .number members)]

end TypeDesc

/-! ## Weak references -/

/-- Names a type without holding it; whether the type still exists is for its owner to say. -/
structure WeakRef where
  target : ObjectId
  deriving DecidableEq, Repr

namespace WeakRef

def of (t : TypeDesc) : WeakRef := ⟨t.id⟩

/-- A reference shows nothing of its target. -/
def debugTree (_ : WeakRef) : DebugTree :=
  .record "CilTypeRef" [("weak_ref", .word "(Weak)")]

end WeakRef
end Types
end CallableMembers
