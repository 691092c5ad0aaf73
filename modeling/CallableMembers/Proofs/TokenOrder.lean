import CallableMembers.Token

/-!
# TokenOrder — packed values are ordered by table, then by row

Tokens are compared as packed words.  The table stands in the high byte of the word and the row in
the other three, so a word is a pair of both and this is the lexicographic order of the pairs.
-/

namespace CallableMembers
namespace Token

/-! ## Packing -/

/-- The number of rows that a table can have. -/
def rows : Nat := 0x1000000

theorem toNat_table (t : Token) : t.table.toNat = t.value.toNat / rows := by
  have below := t.value.toNat_lt
  have shifted : (t.value >>> 24).toNat = t.value.toNat / rows := by
    rw [UInt32.toNat_shiftRight, Nat.shiftRight_eq_div_pow]
    rfl
  rw [table, UInt32.toNat_toUInt8, shifted, rows]
  omega

theorem toNat_row (t : Token) : t.row.toNat = t.value.toNat % rows := by
  have masked : t.row.toNat = t.value.toNat &&& (rows - 1) := UInt32.toNat_and t.value rowMask
  rw [masked]
  exact Nat.and_two_pow_sub_one_eq_mod t.value.toNat 24

theorem toNat_ofParts (table : UInt8) (row : UInt32) :
    (ofParts table row).value.toNat = table.toNat * rows + row.toNat % rows := by
  have cut : (row &&& rowMask).toNat = row.toNat % rows := toNat_row ⟨row⟩
  have shifted : (table.toUInt32 <<< 24).toNat = table.toNat <<< 24 := by
    have fits : table.toNat <<< 24 < 2 ^ 32 := by
      have below := table.toNat_lt
      rw [Nat.shiftLeft_eq]
      omega
    rw [UInt32.toNat_shiftLeft, UInt8.toNat_toUInt32]
    exact Nat.mod_eq_of_lt fits
  -- The row has no bit of the table's byte, so the disjunction is a sum.
  have apart := Nat.shiftLeft_add_eq_or_of_lt (Nat.mod_lt row.toNat (Nat.two_pow_pos 24)) table.toNat
  calc (ofParts table row).value.toNat
      = (table.toUInt32 <<< 24).toNat ||| (row &&& rowMask).toNat := UInt32.toNat_or _ _
    _ = table.toNat <<< 24 + row.toNat % rows := by rw [shifted, cut]; exact apart.symm
    _ = table.toNat * rows + row.toNat % rows := by rw [Nat.shiftLeft_eq]; rfl

theorem table_ofParts (table : UInt8) (row : UInt32) : (ofParts table row).table = table := by
  rw [← UInt8.toNat_inj, toNat_table, toNat_ofParts, rows]
  omega

theorem toNat_row_ofParts (table : UInt8) (row : UInt32) :
    (ofParts table row).row.toNat = row.toNat % rows := by
  rw [toNat_row, toNat_ofParts, rows]
  omega

theorem ofParts_table_row (t : Token) : ofParts t.table t.row = t := by
  suffices same : (ofParts t.table t.row).value = t.value from congrArg mk same
  rw [← UInt32.toNat_inj, toNat_ofParts, toNat_table, toNat_row, rows]
  omega

/-! ## Order -/

/-- The first token stands in an earlier table, or in an earlier row of the same one. -/
def Before (a b : Token) : Prop :=
  a.table < b.table ∨ (a.table = b.table ∧ a.row < b.row)

theorem compare_eq_lt_iff {a b : Token} : compare a b = .lt ↔ a.Before b := by
  have packed : compare a.value b.value = .lt ↔ a.value.toNat < b.value.toNat :=
    Std.compare_eq_lt.trans UInt32.lt_iff_toNat_lt
  refine packed.trans ?_
  -- Quotient and remainder by the size of a table decide which number is less.
  rw [Before, UInt8.lt_iff_toNat_lt, ← UInt8.toNat_inj, UInt32.lt_iff_toNat_lt]
  simp only [toNat_table, toNat_row, rows]
  omega

end Token
end CallableMembers
