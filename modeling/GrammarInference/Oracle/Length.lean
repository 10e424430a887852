import GrammarInference.Number.Decimal
import GrammarInference.Number.Numeral
import GrammarInference.Text.Quoted

/-!
# Allowed lengths

A restriction on the length of queries: an exact length or a range. It is given as `N` or `A-B`.
-/

namespace GrammarInference

/-- Which lengths are allowed. -/
inductive LengthRule
  /-- All lengths. -/
  | any
  /-- One length. -/
  | exactly (n : Int)
  /-- The lengths from `low` to `high`. -/
  | between (low high : Int)
  deriving Repr, DecidableEq

/-- Why a text does not specify lengths. -/
inductive LengthError
  /-- A part is no integer. -/
  | notInteger (part : Text)
  /-- A part is an integer with too many digits. -/
  | tooManyDigits (count : Nat)
  /-- There is more than one dash. -/
  | manyDashes
  /-- The range is reversed. -/
  | reversed
  deriving Repr, DecidableEq

/-- How much of a quoted text is shown when it is no integer. -/
def longestShown : Nat := 200

/-- The wording for a text that is no integer. -/
def notIntegerMessage (t : Text) : Text :=
  "invalid literal for int() with base 10: ".toList ++ (Text.quoted t).take longestShown

/-- The wording of an error. -/
def LengthError.message : LengthError → Text
  | .notInteger part => notIntegerMessage part
  | .tooManyDigits count => Number.tooManyDigitsMessage count
  | .manyDashes => "\"allowed_length\" contains more than one dash.".toList
  | .reversed => "Invalid range for \"allowed_length\".".toList

namespace LengthRule

/-- The integer that a part of a specification denotes. -/
def readPart (part : Text) : Except LengthError Int :=
  match Number.readInt part with
  | .ok n => .ok n
  | .error .notInteger => .error (.notInteger part)
  | .error (.tooManyDigits count) => .error (.tooManyDigits count)

/-- Reads a specification: `N` or `A-B`. -/
def parse (spec : Text) : Except LengthError LengthRule :=
  match Text.cutAt '-' spec with
  | [part] => (readPart part).map .exactly
  | [a, b] =>
    match readPart a with
    | .error e => .error e
    | .ok low =>
      match readPart b with
      | .error e => .error e
      | .ok high => if high < low then .error .reversed else .ok (.between low high)
  | _ => .error .manyDashes

/-- Reads an optional specification; without one all lengths are allowed. -/
def parse? (spec : Option Text) : Except LengthError LengthRule :=
  match spec with
  | none => .ok .any
  | some s => parse s

/-- Why a query breaks the rule, if it does. -/
def violation? (r : LengthRule) (query : Text) : Option Text :=
  let length : Int := query.length
  match r with
  | .any => none
  | .exactly n =>
    if length = n then none
    else some ("the query length is not equal to ".toList ++ Number.showInt n)
  | .between low high =>
    if low ≤ length ∧ length ≤ high then none
    else some ("the query length is not in ".toList ++ Number.showInt low ++ ['-']
      ++ Number.showInt high)

/-- A rule is broken by a query exactly when the length is not among the allowed ones. -/
theorem violation?_eq_none_iff (r : LengthRule) (query : Text) :
    r.violation? query = none ↔
      match r with
      | .any => True
      | .exactly n => (query.length : Int) = n
      | .between low high => low ≤ (query.length : Int) ∧ (query.length : Int) ≤ high := by
  cases r with
  | any => simp only [violation?]
  | exactly n => simp only [violation?]; split <;> simp_all only [reduceCtorEq]
  | between low high => simp only [violation?]; split <;> simp_all only [reduceCtorEq, and_self]

end LengthRule

end GrammarInference
