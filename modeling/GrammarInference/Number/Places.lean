import GrammarInference.Number.Decimal

/-!
# Decimal places

Floating-point numbers with a given number of decimal places, with an exponent, or with whichever
of the two is shorter. A number that lies between two candidates becomes the nearer one, and an
even one if both are as near.

The main statement says that the digits with no places are those of the nearest whole number.
-/

namespace GrammarInference

namespace Number

/-- The size of a floating-point number. -/
inductive Magnitude
  /-- A quotient. -/
  | finite (num den : Nat)
  /-- More than every number. -/
  | infinite
  /-- None. -/
  | undefined
  deriving Repr, DecidableEq

/-- Whether a floating-point number has a minus sign, and its size. -/
def magnitude (x : Float) : Bool × Magnitude :=
  let bits := x.toBits.toNat
  let biased : Nat := bits / Nat.pow 2 52 % 2048
  let fraction : Nat := bits % Nat.pow 2 52
  let size : Magnitude :=
    if biased = 2047 then if fraction = 0 then .infinite else .undefined
    else
      let m := if biased = 0 then fraction else fraction + Nat.pow 2 52
      let q : Int := if biased = 0 then -1074 else (biased : Int) - 1075
      .finite (m * Nat.pow 2 q.toNat) (Nat.pow 2 (-q).toNat)
  (Nat.pow 2 63 ≤ bits, size)

namespace Places

/-- Digits with a point before the last few of them. -/
def pointed (places n : Nat) (pointAlways : Bool) : Text :=
  let ds := decimal n
  let ds := List.replicate (places + 1 - ds.length) '0' ++ ds
  let whole := ds.take (ds.length - places)
  if places = 0 then if pointAlways then whole ++ ['.'] else whole
  else whole ++ '.' :: ds.drop (ds.length - places)

/-- A quotient with a number of decimal places. -/
def fixed (places : Nat) (pointAlways : Bool) (num den : Nat) : Text :=
  pointed places (roundHalfEven (num * Nat.pow 10 places) den) pointAlways

/-- The digits of a quotient, one before the point and some after it, and the power of ten that
they are scaled by. -/
def scientific (places num den : Nat) : Nat × Int :=
  if num = 0 then (0, 0)
  else
    let e := Shortest.pointOf num den - 1
    let n := roundHalfEven (num * Nat.pow 10 ((places : Int) - e).toNat)
      (den * Nat.pow 10 (e - places).toNat)
    if Nat.pow 10 (places + 1) ≤ n then (n / 10, e + 1) else (n, e)

/-- Digits with an exponent of at least two digits. -/
def withExponent (places n : Nat) (e : Int) (pointAlways : Bool) : Text :=
  let ds := decimal e.natAbs
  pointed places n pointAlways ++ ['e', if e < 0 then '-' else '+']
    ++ (if ds.length < 2 then '0' :: ds else ds)

/-- A text without the zeros, and then the point, at the end of its decimal places. -/
def trimmed (t : Text) : Text :=
  let front := t.takeWhile (· ≠ 'e')
  if front.contains '.' then
    let kept := front.reverse.dropWhile (· = '0')
    (if kept.head? = some '.' then kept.tail else kept).reverse ++ t.drop front.length
  else t

/-- A quotient with a number of digits: with an exponent if that is small or large. -/
def general (precision : Nat) (keepZeros : Bool) (num den : Nat) : Text :=
  let p := max precision 1
  let (n, e) := scientific (p - 1) num den
  let t := if -4 ≤ e ∧ e < p then fixed ((p : Int) - 1 - e).toNat keepZeros num den
    else withExponent (p - 1) n e keepZeros
  if keepZeros then t else trimmed t

/-- Without places the digits are those of the nearest whole number. -/
theorem fixed_zero (num den : Nat) :
    fixed 0 false num den = decimal (roundHalfEven num den) := by
  have hpos : 0 < (decimal (roundHalfEven num den)).length := by
    unfold decimal
    exact Nat.length_toDigits_pos
  have hr : 0 + 1 - (decimal (roundHalfEven num den)).length = 0 := by omega
  simp [fixed, pointed, hr]

end Places

end Number

end GrammarInference
