import CallableMembers.Text.DebugTree
import CallableMembers.Text.Hex

/-!
# Token — metadata tokens

A token names a row of a metadata table: the table in the high byte, the row in the low 24 bits.
Its text is fixed-width, so texts, packed values and (table, row) pairs are ordered alike.
-/

namespace CallableMembers

open CallableMembers.Text

structure Token where
  value : UInt32
  deriving DecidableEq, Repr

namespace Token

/-! ## Tables -/

namespace Table

def typeDef : UInt8 := 0x02
def methodDef : UInt8 := 0x06
def param : UInt8 := 0x08
def memberRef : UInt8 := 0x0A
def genericParam : UInt8 := 0x2A

end Table

/-! ## Packing -/

def rowMask : UInt32 := 0x00FFFFFF

/-- Rows wider than 24 bits are cut. -/
def ofParts (table : UInt8) (row : UInt32) : Token :=
  ⟨(table.toUInt32 <<< 24) ||| (row &&& rowMask)⟩

def table (t : Token) : UInt8 :=
  (t.value >>> 24).toUInt8

def row (t : Token) : UInt32 :=
  t.value &&& rowMask

def null : Token := ⟨0⟩

def isNull (t : Token) : Bool :=
  t.value == 0

/-- The two tables whose rows can be called. -/
def isCallable (t : Token) : Bool :=
  t.table == Table.methodDef || t.table == Table.memberRef

/-! ## Order -/

instance : Ord Token where
  compare a b := compare a.value b.value

instance : LT Token where
  lt a b := a.value < b.value

instance : Std.TransOrd Token where
  eq_swap := Std.OrientedOrd.eq_swap (α := UInt32)
  isLE_trans := Std.TransOrd.isLE_trans (α := UInt32)

instance : Std.LawfulEqOrd Token where
  eq_of_compare {a b} h := by
    cases a; cases b
    exact congrArg Token.mk (Std.LawfulEqOrd.eq_of_compare h)

/-- The tokens in ascending order, each once. -/
def distinctAscending (tokens : List Token) : List Token :=
  (tokens.mergeSort fun a b => a.value ≤ b.value).eraseReps

/-! ## Text -/

/-- Eight hexadecimal digits behind the marker `0x`. -/
def display (t : Token) : String :=
  "0x" ++ Hex.padded 8 t.value.toNat

/-- A token is one word of debug text, although it shows its parts. -/
def debugTree (t : Token) : DebugTree :=
  .word ("Token(" ++ t.display ++ ", table: 0x" ++ Hex.padded 2 t.table.toNat
    ++ ", row: " ++ toString t.row ++ ")")

end Token
end CallableMembers
