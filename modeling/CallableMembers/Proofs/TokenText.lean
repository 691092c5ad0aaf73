import CallableMembers.Proofs.Text.HexNumber
import CallableMembers.Proofs.TokenOrder
import Mathlib.Tactic.TFAE
import Mathlib.Data.String.Basic

/-!
# TokenText — the text of a token is as good as its value

The text has one width and can be read back, and the texts of two tokens are ordered like the
tokens, so a list of texts can be sorted and searched in place of the tokens.
-/

namespace CallableMembers
namespace Token

open CallableMembers.Text

variable {a b t : Token} {text : String}

theorem toList_display (t : Token) :
    t.display.toList = '0' :: 'x' :: Hex.digits 8 t.value.toNat := by
  rw [display, String.toList_append, Hex.toList_padded]
  rfl

theorem length_display (t : Token) : t.display.length = 10 := by
  rw [← String.length_toList, toList_display]
  simp

/-- Eight digits are enough for every value. -/
theorem toNat_value_mod (t : Token) : t.value.toNat % 16 ^ 8 = t.value.toNat :=
  Nat.mod_eq_of_lt t.value.toNat_lt

/-! ## Reading -/

/-- The token of a text that is the marker and eight digits. -/
def ofText? (text : String) : Option Token :=
  match text.toList with
  | '0' :: 'x' :: digits =>
      if digits.length = 8 then (Hex.number? digits).map fun n => ⟨UInt32.ofNat n⟩ else none
  | _ => none

theorem ofText?_display (t : Token) : ofText? t.display = some t := by
  have read := Hex.number?_digits 8 t.value.toNat
  rw [toNat_value_mod] at read
  simp [ofText?, toList_display, read]

theorem display_of_ofText? (read : ofText? text = some t) : t.display = text := by
  rw [ofText?] at read
  split at read
  · next digits marked =>
      split at read
      · next width =>
          obtain ⟨n, number, rfl⟩ := Option.map_eq_some_iff.1 read
          obtain ⟨bound, written⟩ := Hex.digits_of_number? number
          rw [width] at bound written
          rw [← String.toList_inj, toList_display, marked, UInt32.toNat_ofNat_of_lt' bound, written]
      · cases read
  · cases read

theorem ofText?_eq_some_iff : ofText? text = some t ↔ t.display = text := by
  refine ⟨display_of_ofText?, ?_⟩
  rintro rfl
  exact ofText?_display t

theorem display_injective : Function.Injective display := by
  intro a b same
  have read := ofText?_display a
  rw [same, ofText?_display] at read
  exact (Option.some.inj read).symm

/-! ## Order -/

theorem lt_iff_compare_eq_lt : a < b ↔ compare a b = .lt :=
  (Std.compare_eq_lt (α := UInt32)).symm

theorem display_lt_display_iff : a.display < b.display ↔ a < b := by
  have digits : Hex.digits 8 a.value.toNat < Hex.digits 8 b.value.toNat
      ↔ a.value.toNat < b.value.toNat := by
    rw [Hex.digits_lt_digits_iff, toNat_value_mod, toNat_value_mod]
  rw [String.lt_iff_toList_lt, toList_display, toList_display, List.cons_lt_cons_self,
    List.cons_lt_cons_self]
  exact digits.trans UInt32.lt_iff_toNat_lt.symm

/-! ## The encodings -/

/-- A token is a table and a row of 24 bits, and its text is another form of the same: packed
values, pairs and texts are in one order, and the text is the only one that is read as the token. -/
theorem packing_and_text_faithful :
    (∀ (table : UInt8) (row : UInt32),
        (ofParts table row).table = table ∧ (ofParts table row).row.toNat = row.toNat % 2 ^ 24)
      ∧ (∀ t : Token, ofParts t.table t.row = t)
      ∧ (∀ a b : Token, [a < b, compare a b = .lt, a.Before b, a.display < b.display].TFAE)
      ∧ Function.Injective display
      ∧ (∀ t : Token, t.display.length = 10)
      ∧ ∀ (text : String) (t : Token), ofText? text = some t ↔ t.display = text := by
  refine ⟨fun table row => ⟨table_ofParts table row, toNat_row_ofParts table row⟩,
    ofParts_table_row, fun a b => ?_, display_injective, length_display,
    fun _ _ => ofText?_eq_some_iff⟩
  tfae_have 1 ↔ 2 := lt_iff_compare_eq_lt
  tfae_have 2 ↔ 3 := compare_eq_lt_iff
  tfae_have 4 ↔ 1 := display_lt_display_iff
  tfae_finish

end Token
end CallableMembers
