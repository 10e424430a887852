import GrammarInference.Text.Blank
import GrammarInference.Text.Digit
import GrammarInference.Number.Binary
import GrammarInference.Number.Decimal

/-!
# Reading numerals

Integers and reals as people type them: blanks around the numeral, a sign, single underscores
between digits, and the decimal digits of any script. A real may have a fraction and an exponent,
or be one of the words for infinity and for "not a number" in any case. The number of digits of an
integer is limited, zeros at its front included.
-/

namespace GrammarInference

namespace Number

/-- A typed text with foreign blanks and digits replaced by ASCII ones, and all other characters
beyond ASCII by a question mark. A text of ASCII alone stays as it is. -/
def plainForm (t : Text) : Text :=
  t.map fun c =>
    if c.toNat < 128 then c
    else if Text.isBlank c then ' '
    else ((Text.digitValue? c).map fun d => Char.ofNat ('0'.toNat + d)).getD '?'

/-- The sign of a numeral, true for a minus, and what follows it. -/
def takeSign : Text → Bool × Text
  | '-' :: rest => (true, rest)
  | '+' :: rest => (false, rest)
  | rest => (false, rest)

/-- The digits at the front of a text and what follows them. A single underscore may stand between
two digits; `afterDigit` tells whether a digit has just been read. -/
def takeDigits (afterDigit : Bool) : Text → Text × Text
  | [] => ([], [])
  | c :: rest =>
    if c.isDigit then
      let (ds, left) := takeDigits true rest
      (c :: ds, left)
    else if c = '_' && afterDigit && (rest.head?.map Char.isDigit).getD false then
      takeDigits false rest
    else ([], c :: rest)

/-- The number that a text of ASCII digits denotes. -/
def ofDigits (ds : Text) : Nat := ds.foldl (fun n c => 10 * n + (c.toNat - '0'.toNat)) 0

/-- The greatest number of digits that an integer may be written with. -/
def mostDigits : Nat := 4300

/-- The wording for an integer with too many digits. -/
def tooManyDigitsMessage (count : Nat) : Text :=
  "Exceeds the limit (".toList ++ decimal mostDigits
    ++ " digits) for integer string conversion: value has ".toList ++ decimal count
    ++ " digits; use sys.set_int_max_str_digits() to increase the limit".toList

/-- The wording for an integer that would be written with too many digits. -/
def unwritableDigitsMessage : Text :=
  "Exceeds the limit (".toList ++ decimal mostDigits
    ++ " digits) for integer string conversion; ".toList
    ++ "use sys.set_int_max_str_digits() to increase the limit".toList

/-- Why a text is not read as an integer. -/
inductive IntFault
  /-- It denotes no integer. -/
  | notInteger
  /-- It has too many digits. -/
  | tooManyDigits (count : Nat)
  deriving Repr, DecidableEq

/-- The integer that a text denotes. The digits are counted before what follows them is looked
at, except that an underscore in the wrong place comes first. -/
def readInt (t : Text) : Except IntFault Int :=
  let (negative, body) := takeSign (Text.trim Text.isPlainBlank (plainForm t))
  let (ds, left) := takeDigits false body
  if ds.isEmpty || left.head? = some '_' then .error .notInteger
  else if mostDigits < ds.length then .error (.tooManyDigits ds.length)
  else if !left.isEmpty then .error .notInteger
  else .ok (if negative then -(ofDigits ds : Int) else ofDigits ds)

/-- The integer that a text denotes, if it denotes one. -/
def readInt? (t : Text) : Option Int := (readInt t).toOption

/-- The number `significand · 10 ^ exponent`, rounded. Exponents that put the number far beyond
the floating-point range are answered without computing the power. -/
def ofScientific (negative : Bool) (significand : Nat) (exponent : Int) : Float :=
  let size : Int := (Nat.toDigits 10 significand).length
  if significand = 0 ∨ exponent + size < -400 then ofQuotient negative 0 1
  else if 400 < exponent + size then ofQuotient negative (Nat.pow 10 400) 1
  else if 0 ≤ exponent then ofQuotient negative (significand * Nat.pow 10 exponent.toNat) 1
  else ofQuotient negative significand (Nat.pow 10 (-exponent).toNat)

/-- The exponent part of a numeral: `e` or `E`, a sign and digits. A text that does not start with
one has exponent zero and is left whole. -/
def takeExponent (t : Text) : Int × Text :=
  match t with
  | c :: rest =>
    if c = 'e' ∨ c = 'E' then
      let (negative, body) := takeSign rest
      let (ds, left) := takeDigits false body
      if ds.isEmpty then (0, t)
      else (if negative then -(ofDigits ds : Int) else ofDigits ds, left)
    else (0, t)
  | [] => (0, [])

/-- The real that a text denotes. -/
def readReal? (t : Text) : Option Float := do
  let (negative, body) := takeSign (Text.trim Text.isPlainBlank (plainForm t))
  let word := body.map Char.toLower
  if word = "inf".toList ∨ word = "infinity".toList then
    some (ofQuotient negative (Nat.pow 10 400) 1)
  else if word = "nan".toList then some (0.0 / 0.0)
  else
    let (whole, rest) := takeDigits false body
    let (fraction, rest) := match rest with
      | '.' :: more => takeDigits false more
      | _ => ([], rest)
    if whole.isEmpty && fraction.isEmpty then none
    else
      let (exponent, rest) := takeExponent rest
      if rest.isEmpty then
        some (ofScientific negative (ofDigits (whole ++ fraction))
          (exponent - (fraction.length : Int)))
      else none

end Number

end GrammarInference
