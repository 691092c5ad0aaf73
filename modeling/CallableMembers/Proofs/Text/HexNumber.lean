import CallableMembers.Text.Hex
import Mathlib.Algebra.Group.Nat.Defs
import Mathlib.Data.List.Induction

/-!
# HexNumber — the numbers that hexadecimal digits denote

Every number below a power of sixteen has exactly one row of that many digits, and of two rows of
one width the one that comes first in alphabetical order denotes the smaller number: the letters
among the digits stand behind the figures in the alphabet too.  `Hex.number?` reads a row.
-/

namespace CallableMembers
namespace Text
namespace Hex

variable {c : Char} {text : List Char} {width m n value : Nat}

/-! ## Single digits -/

/-- The sixteen digits, each at the place of its value. -/
def alphabet : List Char :=
  ['0', '1', '2', '3', '4', '5', '6', '7', '8', '9', 'a', 'b', 'c', 'd', 'e', 'f']

/-- The value of a digit.  Capital letters are no digits. -/
def digit? (c : Char) : Option Nat :=
  alphabet.idxOf? c

theorem alphabet_eq : alphabet = (List.range 16).map Nat.digitChar := by
  decide

theorem digit?_digitChar : ∀ value < 16, digit? (Nat.digitChar value) = some value := by
  decide

theorem digitChar_of_digit? (found : digit? c = some value) :
    value < 16 ∧ Nat.digitChar value = c := by
  obtain ⟨inside, here, _⟩ := List.idxOf?_eq_some_iff.1 found
  refine ⟨inside, ?_⟩
  simpa [alphabet_eq] using here

theorem digitChar_lt_digitChar_iff :
    ∀ m < 16, ∀ n < 16, (Nat.digitChar m < Nat.digitChar n ↔ m < n) := by
  decide

/-! ## Reading -/

/-- The number that a row of digits denotes, the most significant digit first. -/
def number? (text : List Char) : Option Nat :=
  text.foldlM (fun high c => (digit? c).map (16 * high + ·)) 0

theorem number?_concat_eq_some_iff : number? (text ++ [c]) = some n ↔
    ∃ high value, number? text = some high ∧ digit? c = some value ∧ 16 * high + value = n := by
  simp [number?, List.foldlM_append, Option.bind_eq_some_iff]

theorem number?_digits (width n : Nat) : number? (digits width n) = some (n % 16 ^ width) := by
  induction width generalizing n with
  | zero => simp [digits, number?, Nat.mod_one]
  | succ width ih =>
      have last := digit?_digitChar (n % 16) (Nat.mod_lt n (by decide))
      refine number?_concat_eq_some_iff.2 ⟨_, _, ih (n / 16), last, ?_⟩
      rw [Nat.pow_succ', Nat.mod_mul, Nat.add_comm]

/-- What can be read was written: a row of digits is the row of the number that it denotes. -/
theorem digits_of_number? (read : number? text = some n) :
    n < 16 ^ text.length ∧ digits text.length n = text := by
  -- The last digit of the row is the last one of the number.
  induction text using List.reverseRecOn generalizing n with
  | nil =>
      obtain rfl : 0 = n := Option.some.inj read
      exact ⟨by decide, rfl⟩
  | append_singleton text c ih =>
      obtain ⟨high, value, front, last, rfl⟩ := number?_concat_eq_some_iff.1 read
      obtain ⟨inside, rfl⟩ := digitChar_of_digit? last
      obtain ⟨bound, written⟩ := ih front
      have quotient : (16 * high + value) / 16 = high := by omega
      have remainder : (16 * high + value) % 16 = value := by omega
      rw [List.length_append, List.length_singleton, digits, quotient, remainder, written]
      refine ⟨?_, rfl⟩
      rw [Nat.pow_succ]
      omega

theorem digits_mod (width n : Nat) : digits width (n % 16 ^ width) = digits width n := by
  have written := (digits_of_number? (number?_digits width n)).2
  rwa [length_digits] at written

/-! ## Order -/

theorem digits_eq_digits_iff :
    digits width m = digits width n ↔ m % 16 ^ width = n % 16 ^ width := by
  constructor
  · intro same
    have read := congrArg number? same
    rw [number?_digits, number?_digits] at read
    exact Option.some.inj read
  · intro same
    rw [← digits_mod width m, same, digits_mod]

/-- Between texts of one length the last letters decide only if all else is the same. -/
theorem concat_lt_concat_iff {text text' : List Char} {c c' : Char}
    (lengths : text.length = text'.length) :
    text ++ [c] < text' ++ [c'] ↔ text < text' ∨ (text = text' ∧ c < c') := by
  induction text generalizing text' with
  | nil =>
      obtain rfl := List.length_eq_zero_iff.1 lengths.symm
      simp [List.cons_lt_cons_iff]
  | cons x text ih =>
      obtain ⟨y, text', rfl⟩ := List.exists_cons_of_length_eq_add_one lengths.symm
      have others := ih (Nat.succ.inj lengths)
      rw [List.cons_append, List.cons_append, List.cons_lt_cons_iff, List.cons_lt_cons_iff, others,
        List.cons.injEq, and_or_left, or_assoc, and_assoc]

theorem digits_lt_digits_iff :
    digits width m < digits width n ↔ m % 16 ^ width < n % 16 ^ width := by
  induction width generalizing m n with
  | zero => simp [digits, Nat.mod_one]
  | succ width ih =>
      have last := digitChar_lt_digitChar_iff (m % 16) (Nat.mod_lt m (by decide)) (n % 16)
        (Nat.mod_lt n (by decide))
      rw [digits, digits, concat_lt_concat_iff (by simp), ih, digits_eq_digits_iff, last,
        Nat.pow_succ', Nat.mod_mul, Nat.mod_mul]
      omega

end Hex
end Text
end CallableMembers
