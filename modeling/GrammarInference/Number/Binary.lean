/-!
# Binary numbers of 53 bits

A quotient of naturals is rounded to the nearest number that a significand of 53 bits and an
exponent of at least -1074 can hold; of two equally near ones the one with the even significand is
taken. Decimal numerals, quotients and evenly spaced positions are all rounded by this one rule.

The main statements say that rounding to a whole number is off by at most one half, and that a
whole number stays as it is.
-/

namespace GrammarInference

namespace Number

/-- The whole number nearest to `num / den`, a half going to the even neighbour. -/
def roundHalfEven (num den : Nat) : Nat :=
  let q := num / den
  let r := num % den
  if 2 * r < den then q
  else if den < 2 * r then q + 1
  else if q % 2 = 0 then q else q + 1

theorem roundHalfEven_one (n : Nat) : roundHalfEven n 1 = n := by
  simp [roundHalfEven, Nat.mod_one]

/-- Twice the distance between `num / den` and its rounding is at most one. -/
theorem two_mul_roundHalfEven_le (num : Nat) {den : Nat} (h : 0 < den) :
    2 * (roundHalfEven num den * den) ≤ 2 * num + den ∧
      2 * num ≤ 2 * (roundHalfEven num den * den) + den := by
  have hdiv : den * (num / den) + num % den = num := Nat.div_add_mod num den
  have hlt : num % den < den := Nat.mod_lt num h
  have hc : num / den * den = den * (num / den) := Nat.mul_comm _ _
  simp only [roundHalfEven]
  split
  · omega
  · split
    · rw [Nat.add_mul]; omega
    · split
      · omega
      · rw [Nat.add_mul]; omega

/-- The number `significand · 2 ^ exponent`. -/
structure Binary where
  /-- The significand. -/
  significand : Nat
  /-- The power of two it is scaled by. -/
  exponent : Int
  deriving Repr, DecidableEq

namespace Binary

/-- The rounding of `num / den` to a multiple of `2 ^ exponent`. -/
def atExponent (num den : Nat) (exponent : Int) : Binary :=
  if 0 ≤ exponent then ⟨roundHalfEven num (den * Nat.pow 2 exponent.toNat), exponent⟩
  else ⟨roundHalfEven (num * Nat.pow 2 (-exponent).toNat) den, exponent⟩

/-- Whether `num / den` lies below `2 ^ 52` multiples of `2 ^ exponent`. -/
def needsFiner (num den : Nat) (exponent : Int) : Bool :=
  if 0 ≤ exponent then num < den * Nat.pow 2 (52 + exponent.toNat)
  else num * Nat.pow 2 (-exponent).toNat < den * Nat.pow 2 52

/-- The number of 53 bits nearest to `num / den`. The exponent is settled before rounding: just
below a power of two the multiples lie closer together than above it. -/
def nearest (num den : Nat) : Binary :=
  let high : Int := (num.log2 : Int) - (den.log2 : Int) - 52
  let low := if needsFiner num den high then high - 1 else high
  atExponent num den (max low (-1074))

/-- The whole part. -/
def floor (b : Binary) : Nat :=
  if 0 ≤ b.exponent then b.significand * Nat.pow 2 b.exponent.toNat
  else b.significand / Nat.pow 2 (-b.exponent).toNat

/-- The number that is `factor` times `b`, rounded to 53 bits. -/
def scale (factor : Nat) (b : Binary) : Binary :=
  if 0 ≤ b.exponent then nearest (factor * b.significand * Nat.pow 2 b.exponent.toNat) 1
  else nearest (factor * b.significand) (Nat.pow 2 (-b.exponent).toNat)

/-- The floating-point number with this value; numbers beyond the largest one are infinite. -/
def toFloat (negative : Bool) (b : Binary) : Float :=
  let bits := (b.exponent + 1074).toNat * Nat.pow 2 52 + b.significand
  let bits := if 2047 * Nat.pow 2 52 ≤ bits then 2047 * Nat.pow 2 52 else bits
  Float.ofBits (UInt64.ofNat (bits + if negative then Nat.pow 2 63 else 0))

end Binary

/-- The floating-point number nearest to a quotient, with a sign. -/
def ofQuotient (negative : Bool) (num den : Nat) : Float :=
  if num = 0 then (if negative then -0.0 else 0.0)
  else (Binary.nearest num den).toFloat negative

/-- The floating-point number nearest to an integer. -/
def ofInt (n : Int) : Float := ofQuotient (n < 0) n.natAbs 1

end Number

end GrammarInference
