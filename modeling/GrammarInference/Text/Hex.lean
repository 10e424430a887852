import GrammarInference.Text.Basic

/-!
# Hexadecimal numerals

Numbers in base sixteen with small letters, padded with zeros on the left to a least width, and
the reading of such digits.

The main statement says that a digit is read back from its character.
-/

namespace GrammarInference

namespace Text

/-- The character of a digit below sixteen. -/
def hexDigit (d : Nat) : Char :=
  if d < 10 then Char.ofNat ('0'.toNat + d) else Char.ofNat ('a'.toNat + (d - 10))

/-- The value of a hexadecimal digit in either case. -/
def hexValue? (c : Char) : Option Nat :=
  if '0' ≤ c ∧ c ≤ '9' then some (c.toNat - '0'.toNat)
  else if 'a' ≤ c ∧ c ≤ 'f' then some (c.toNat - 'a'.toNat + 10)
  else if 'A' ≤ c ∧ c ≤ 'F' then some (c.toNat - 'A'.toNat + 10)
  else none

theorem hexValue?_hexDigit {d : Nat} (h : d < 16) : hexValue? (hexDigit d) = some d := by
  revert d
  decide

/-- The `width` lowest hexadecimal digits of a number, highest first. -/
def hexDigits : Nat → Nat → Text
  | 0, _ => []
  | width + 1, n => hexDigits width (n / 16) ++ [hexDigit (n % 16)]

@[simp] theorem length_hexDigits (width n : Nat) : (hexDigits width n).length = width := by
  induction width generalizing n with
  | zero => rfl
  | succ w ih => simp [hexDigits, ih]

/-- How many hexadecimal digits a number needs; zero needs one. -/
def hexWidth (n : Nat) : Nat := Nat.log2 n / 4 + 1

/-- A number in base sixteen with at least `width` digits. -/
def hex (width n : Nat) : Text := hexDigits (max width (hexWidth n)) n

end Text

end GrammarInference
