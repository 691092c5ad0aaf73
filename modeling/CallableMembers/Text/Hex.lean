/-!
# Hex — hexadecimal digits of a natural number

Lowercase digits, most significant first.  `Hex.padded` writes the last `width` digits, leading
zeros included, so texts of one width have one length; `Hex.compact` writes no leading zero.
-/

namespace CallableMembers
namespace Text
namespace Hex

/-- The last `width` digits of `n`. -/
def digits : Nat → Nat → List Char
  | 0, _ => []
  | width + 1, n => digits width (n / 16) ++ [Nat.digitChar (n % 16)]

def padded (width n : Nat) : String :=
  String.ofList (digits width n)

/-- As few digits as the number needs; zero is one digit. -/
def compact (n : Nat) : String :=
  String.ofList (Nat.toDigits 16 n)

@[simp] theorem length_digits (width n : Nat) : (digits width n).length = width := by
  induction width generalizing n with
  | zero => rfl
  | succ width ih => simp [digits, ih]

@[simp] theorem toList_padded (width n : Nat) : (padded width n).toList = digits width n := by
  simp [padded]

end Hex
end Text
end CallableMembers
