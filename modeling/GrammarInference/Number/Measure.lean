import GrammarInference.Number.Numeral
import GrammarInference.Text.Hex

/-!
# Measured numbers

Numbers as measures are given to tools: decimal digits with a point and an exponent, hexadecimal
digits with a power of two, infinite, or no number at all. Such a number may stand at the front of
a longer text.
-/

namespace GrammarInference

namespace Number

namespace Measure

/-- The digits at the front of a number, those after its point, and what follows. -/
def digitsWith (isDigit : Char → Bool) (t : Text) : Text × Text × Text :=
  let whole := t.takeWhile isDigit
  match t.dropWhile isDigit with
  | '.' :: rest => (whole, rest.takeWhile isDigit, rest.dropWhile isDigit)
  | rest => (whole, [], rest)

/-- An exponent after its letter, if there is one, and what follows it. -/
def exponent? (letter : Char) (t : Text) : Option (Int × Text) :=
  match t with
  | c :: rest =>
    if c.toLower ≠ letter then none
    else
      let (negative, rest) := takeSign rest
      let digits := rest.takeWhile Char.isDigit
      if digits.isEmpty then none
      else
        let n : Int := ofDigits digits
        some (if negative then -n else n, rest.dropWhile Char.isDigit)
  | [] => none

/-- The number that hexadecimal digits denote. -/
def ofHexDigits (ds : Text) : Nat :=
  ds.foldl (fun n c => 16 * n + (Text.hexValue? c).getD 0) 0

/-- The exponent beyond which a number is zero or infinite. -/
def farExponent : Int := 20000

/-- The number `significand · 2 ^ exponent`. -/
def ofHex (significand : Nat) (exponent : Int) : Float :=
  if significand = 0 ∨ exponent < -farExponent then 0
  else if farExponent < exponent then 1.0 / 0.0
  else if 0 ≤ exponent then
    ofQuotient false (significand * Nat.pow 2 exponent.toNat) 1
  else ofQuotient false significand (Nat.pow 2 (-exponent).toNat)

/-- The hexadecimal number at the front of a text, after its mark. -/
def hexadecimal? (t : Text) : Option (Float × Text) :=
  let (whole, part, rest) := digitsWith (fun c => (Text.hexValue? c).isSome) t
  if whole.isEmpty && part.isEmpty then none
  else
    let (exponent, rest) := (exponent? 'p' rest).getD (0, rest)
    some (ofHex (ofHexDigits (whole ++ part)) (exponent - 4 * (part.length : Int)), rest)

/-- The decimal number at the front of a text. -/
def decimal? (t : Text) : Option (Float × Text) :=
  let (whole, part, rest) := digitsWith Char.isDigit t
  if whole.isEmpty && part.isEmpty then none
  else
    let (exponent, rest) := (exponent? 'e' rest).getD (0, rest)
    some (ofScientific false (ofDigits (whole ++ part))
      (exponent - (part.length : Int)), rest)

/-- What follows a word, in any case, at the front of a text. -/
def after? (word : String) (t : Text) : Option Text :=
  if (t.take word.length).map Char.toLower = word.toList then some (t.drop word.length) else none

/-- The number at the front of a text, without its sign. -/
def number? (t : Text) : Option (Float × Text) :=
  match after? "infinity" t, after? "inf" t, after? "nan" t, after? "0x" t with
  | some rest, _, _, _ => some (1.0 / 0.0, rest)
  | none, some rest, _, _ => some (1.0 / 0.0, rest)
  | none, none, some rest, _ => some (0.0 / 0.0, rest)
  | none, none, none, some rest => (hexadecimal? rest).orElse fun _ => decimal? t
  | none, none, none, none => decimal? t

end Measure

end Number

end GrammarInference
