import GrammarInference.Text.Basic
import GrammarInference.Number.Binary

/-!
# Decimal form of numbers

Integers are written in base ten. A finite floating-point number is written with the fewest digits
that read back as the same number, and of those the digits nearest to it. `Shortest` finds the
digits; `Layout` lays them out.

The search is exact: a floating-point number is `m · 2 ^ q`, the numbers that round to it form an
interval around it, and for one digit, two digits, … the two neighbours of the number on that
decimal grid are tested against the interval.
-/

namespace GrammarInference

namespace Number

/-- The decimal digits of a natural number. -/
def decimal (n : Nat) : Text := (Nat.toDigits 10 n)

/-- An integer in base ten, with a minus sign when it is negative. -/
def showInt (n : Int) : Text :=
  if n < 0 then '-' :: decimal n.natAbs else decimal n.natAbs

/-- Digits after a decimal point and an exponent: `0.d₁d₂… · 10 ^ point`. -/
structure Digits where
  /-- The digits, read as a natural number. -/
  digits : Nat
  /-- The place of the decimal point, counted from before the first digit. -/
  point : Int
  deriving Repr, DecidableEq

namespace Shortest

/-- The interval of reals that round to a floating-point number: `low / den` to `high / den`
around `mid / den`, its ends included or not. -/
structure Interval where
  /-- Numerator of the lower end. -/
  low : Nat
  /-- Numerator of the number itself. -/
  mid : Nat
  /-- Numerator of the upper end. -/
  high : Nat
  /-- The common denominator. -/
  den : Nat
  /-- Whether the ends belong to the interval. -/
  closed : Bool
  deriving Repr

/-- The interval of the number with significand `m` and exponent `q`. Just above a power of two
the spacing below is half of the spacing above, except at the smallest exponent. -/
def interval (m : Nat) (q : Int) : Interval :=
  let up := Nat.pow 2 (q - 2).toNat
  let below := if m = Nat.pow 2 52 ∧ -1074 < q then 1 else 2
  ⟨(4 * m - below) * up, 4 * m * up, (4 * m + 2) * up, Nat.pow 2 (2 - q).toNat, m % 2 == 0⟩

/-- Whether `num / den` lies in the interval. -/
def Interval.has (i : Interval) (num den : Nat) : Bool :=
  let lower := i.low * den
  let upper := i.high * den
  let x := num * i.den
  if i.closed then lower ≤ x && x ≤ upper else lower < x && x < upper

/-- The least `j` with `den ≤ num · 10 ^ j`, looked for from `j` on in `fuel` steps. -/
def leadingZeros (num den : Nat) : Nat → Nat → Nat
  | 0, j => j
  | fuel + 1, j => if den ≤ num * Nat.pow 10 j then j else leadingZeros num den fuel (j + 1)

/-- The place of the decimal point of a positive number `num / den`. -/
def pointOf (num den : Nat) : Int :=
  if den ≤ num then ((decimal (num / den)).length : Int)
  else 1 - (leadingZeros num den 400 1 : Int)

/-- The digit string of `count` digits that lies in the interval and is nearest to the number. -/
def onGrid? (i : Interval) (point : Int) (count : Nat) : Option Nat :=
  let shift := (count : Int) - point
  let num := i.mid * Nat.pow 10 shift.toNat
  let den := i.den * Nat.pow 10 (-shift).toNat
  let below := num / den
  let above := below + 1
  let ok := fun d => i.has (d * Nat.pow 10 (-shift).toNat) (Nat.pow 10 shift.toNat)
  -- If both neighbours read back, the nearer one is taken, and the even one of two equally near.
  match ok below, ok above with
  | true, true => some (roundHalfEven num den)
  | true, false => some below
  | false, true => some above
  | false, false => none

/-- The shortest digits from `count` digits on, within `fuel` further counts. -/
def search (i : Interval) (point : Int) : Nat → Nat → Digits
  | 0, count => ⟨roundHalfEven (i.mid * Nat.pow 10 ((count : Int) - point).toNat)
      (i.den * Nat.pow 10 (point - count).toNat), point⟩
  | fuel + 1, count =>
    match onGrid? i point count with
    | some d => ⟨d, if Nat.pow 10 count ≤ d then point + 1 else point⟩
    | none => search i point fuel (count + 1)

/-- The shortest digits of the positive number `m · 2 ^ q`. -/
def digits (m : Nat) (q : Int) : Digits :=
  let i := interval m q
  search i (pointOf i.mid i.den) 17 1

end Shortest

namespace Layout

/-- Digits without the zeros at their end. -/
def significant (n : Nat) : Text :=
  ((decimal n).reverse.dropWhile (· = '0')).reverse

/-- A nonzero number is written positionally when its decimal point stands at most sixteen places
to the right of its first digit and at most three to the left, and with a signed exponent of at
least two digits otherwise. -/
def positive (d : Digits) : Text :=
  let ds := significant d.digits
  if -4 < d.point ∧ d.point ≤ 16 then
    if d.point ≤ 0 then ['0', '.'] ++ List.replicate (-d.point).toNat '0' ++ ds
    else
      let p := d.point.toNat
      let whole := ds.take p ++ List.replicate (p - ds.length) '0'
      let part := ds.drop p
      whole ++ ['.'] ++ if part.isEmpty then ['0'] else part
  else
    let e := d.point - 1
    let mantissa := match ds with
      | [] => ['0']
      | [x] => [x]
      | x :: more => x :: '.' :: more
    let places := decimal e.natAbs
    mantissa ++ ['e', if e < 0 then '-' else '+']
      ++ (if places.length < 2 then '0' :: places else places)

end Layout

/-- A floating-point number in its shortest decimal form. -/
def showReal (x : Float) : Text :=
  let bits := x.toBits.toNat
  let sign : Text := if Nat.pow 2 63 ≤ bits then ['-'] else []
  let biased : Nat := bits / Nat.pow 2 52 % 2048
  let fraction : Nat := bits % Nat.pow 2 52
  if biased = 2047 then
    if fraction = 0 then sign ++ "inf".toList else "nan".toList
  else if biased = 0 ∧ fraction = 0 then sign ++ "0.0".toList
  else if biased = 0 then sign ++ Layout.positive (Shortest.digits fraction (-1074))
  else sign ++ Layout.positive (Shortest.digits (fraction + Nat.pow 2 52) ((biased : Int) - 1075))

end Number

end GrammarInference
