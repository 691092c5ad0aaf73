import CallableMembers.Flags.Family
import CallableMembers.Text.DebugTree
import CallableMembers.Text.Hex

/-!
# FlagSet — a word read as a set of the bits of one family

Bits outside the family's mask may be present and are kept; only `truncate`, `complement` and
`ofBits?` look at the mask.  A set is listed by the names of its constants (`names`): a constant
is named if the set contains it and some of its bits are not covered by an earlier name.
-/

namespace CallableMembers
namespace Flags

open CallableMembers.Text

structure FlagSet (f : Family) where
  bits : UInt16
  deriving DecidableEq, Repr

namespace FlagSet

variable {f : Family}

/-! ## Reading a word -/

def all : FlagSet f := ⟨f.mask⟩

/-- Accepts a word without bits outside the family. -/
def ofBits? (word : UInt16) : Option (FlagSet f) :=
  if word &&& f.mask = word then some ⟨word⟩ else none

def truncate (word : UInt16) : FlagSet f :=
  ⟨word &&& f.mask⟩

/-! ## Set operations -/

def isEmpty (a : FlagSet f) : Bool :=
  a.bits == 0

def contains (a b : FlagSet f) : Bool :=
  a.bits &&& b.bits == b.bits

/-- Bits outside the family do not matter. -/
def isAll (a : FlagSet f) : Bool :=
  a.contains all

def intersects (a b : FlagSet f) : Bool :=
  a.bits &&& b.bits != 0

def union (a b : FlagSet f) : FlagSet f :=
  ⟨a.bits ||| b.bits⟩

def inter (a b : FlagSet f) : FlagSet f :=
  ⟨a.bits &&& b.bits⟩

/-- Bits outside the family survive unless `b` has them. -/
def diff (a b : FlagSet f) : FlagSet f :=
  ⟨a.bits &&& ~~~b.bits⟩

def symmDiff (a b : FlagSet f) : FlagSet f :=
  ⟨a.bits ^^^ b.bits⟩

def complement (a : FlagSet f) : FlagSet f :=
  truncate (~~~a.bits)

/-! ## Listing a set -/

/-- Walks the constants with the bits that no name covers yet; returns the constants named and
the bits left over. -/
def cover (word : UInt16) : UInt16 → List (String × UInt16) → List (String × UInt16) × UInt16
  | uncovered, [] => ([], uncovered)
  | uncovered, c :: rest =>
      if word &&& c.2 = c.2 ∧ uncovered &&& c.2 ≠ 0 then
        let (named, left) := cover word (uncovered &&& ~~~c.2) rest
        (c :: named, left)
      else
        cover word uncovered rest

/-- The named constants, in declaration order; a zero constant covers nothing and is not named. -/
def names (a : FlagSet f) : List (String × UInt16) :=
  (cover a.bits a.bits f.constants).1

/-- The bits that no name covers. -/
def unnamed (a : FlagSet f) : UInt16 :=
  (cover a.bits a.bits f.constants).2

/-- The words of the named constants, then the unnamed bits as one word if there are any. -/
def parts (a : FlagSet f) : List UInt16 :=
  a.names.map Prod.snd ++ if a.unnamed = 0 then [] else [a.unnamed]

/-! ## Text -/

/-- Names joined by bars, unnamed bits last in hexadecimal; the empty set is `0x0`. -/
def label (a : FlagSet f) : String :=
  let rest := if a.unnamed = 0 then [] else ["0x" ++ Hex.compact a.unnamed.toNat]
  match a.names.map Prod.fst ++ rest with
  | [] => "0x0"
  | parts => String.intercalate " | " parts

def debugTree (a : FlagSet f) : DebugTree :=
  .tuple f.name [.word a.label]

end FlagSet
end Flags
end CallableMembers
