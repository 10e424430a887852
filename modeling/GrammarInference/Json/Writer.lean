import GrammarInference.Json.Value
import GrammarInference.Machine
import GrammarInference.Number.Numeral

/-!
# Writing JSON

The written form is ASCII: other characters are escaped by their UTF-16 units. Without an
indentation everything stands on one line, with a space after commas and colons; with one, every
entry stands on a line of its own, indented by its depth. Empty lists and objects are never broken
up.

`write` is the text as such, however long. `writeOn` is what a machine makes of it: the spaces of
each level have to find room, integers may have only so many digits, and so may the whole text have
only so many characters. The first obstacle on the way through the value is reported.
-/

namespace GrammarInference

namespace Json

/-- A UTF-16 unit as an escape. -/
def escapeUnit (n : Nat) : Text := ['\\', 'u'] ++ Text.hexDigits 4 n

/-- A character inside a written string. -/
def escapeChar (c : Char) : Text :=
  if c = '"' then ['\\', '"']
  else if c = '\\' then ['\\', '\\']
  else if c = '\n' then ['\\', 'n']
  else if c = '\r' then ['\\', 'r']
  else if c = '\t' then ['\\', 't']
  else if c = '\x08' then ['\\', 'b']
  else if c = '\x0c' then ['\\', 'f']
  else if 0x20 ≤ c.toNat ∧ c.toNat ≤ 0x7e then [c]
  else if c.toNat < 0x10000 then escapeUnit c.toNat
  else
    let n := c.toNat - 0x10000
    escapeUnit (0xd800 + n / 1024) ++ escapeUnit (0xdc00 + n % 1024)

/-- A string between double quotes. -/
def writeText (t : Text) : Text := ['"'] ++ t.flatMap escapeChar ++ ['"']

/-- A floating-point number; infinities and "not a number" have words. -/
def writeReal (x : Float) : Text :=
  if x.isNaN then "NaN".toList
  else if x.isInf then (if x < 0 then "-Infinity".toList else "Infinity".toList)
  else Number.showReal x

/-- How a document is laid out: on one line, or indented by a number of spaces per level. A
negative number of spaces counts as none. -/
abbrev Indent := Option Int

/-- What stands after an opening bracket, at a depth. -/
def lineBreak (indent : Indent) (depth : Nat) : Text :=
  match indent with
  | none => []
  | some n => '\n' :: List.replicate (n.toNat * depth) ' '

/-- What stands between two entries, at a depth. -/
def separator (indent : Indent) (depth : Nat) : Text :=
  match indent with
  | none => [',', ' ']
  | some _ => ',' :: lineBreak indent depth

mutual

/-- A value at a depth. -/
def writeAt (indent : Indent) (depth : Nat) : Value → Text
  | .null => "null".toList
  | .bool true => "true".toList
  | .bool false => "false".toList
  | .int n => Number.showInt n
  | .real x => writeReal x
  | .text t => writeText t
  | .array [] => ['[', ']']
  | .array (v :: rest) =>
    ['['] ++ lineBreak indent (depth + 1) ++ writeAt indent (depth + 1) v
      ++ writeItems indent (depth + 1) rest ++ lineBreak indent depth ++ [']']
  | .object [] => ['{', '}']
  | .object ((k, v) :: rest) =>
    ['{'] ++ lineBreak indent (depth + 1) ++ writeText k ++ [':', ' ']
      ++ writeAt indent (depth + 1) v ++ writeFields indent (depth + 1) rest
      ++ lineBreak indent depth ++ ['}']

/-- The entries of a list after its first one. -/
def writeItems (indent : Indent) (depth : Nat) : List Value → Text
  | [] => []
  | v :: rest => separator indent depth ++ writeAt indent depth v ++ writeItems indent depth rest

/-- The fields of an object after its first one. -/
def writeFields (indent : Indent) (depth : Nat) : List (Text × Value) → Text
  | [] => []
  | (k, v) :: rest =>
    separator indent depth ++ writeText k ++ [':', ' '] ++ writeAt indent depth v
      ++ writeFields indent depth rest

end

namespace Value

mutual

/-- Whether every integer of a value has few enough digits to be written. -/
def hasShortIntegers : Value → Bool
  | .int n => (Number.decimal n.natAbs).length ≤ Number.mostDigits
  | .array items => allShort items
  | .object fields => fieldsShort fields
  | _ => true

/-- Whether every integer of several values has few enough digits. -/
def allShort : List Value → Bool
  | [] => true
  | v :: rest => v.hasShortIntegers && allShort rest

/-- Whether every integer of several fields has few enough digits. -/
def fieldsShort : List (Text × Value) → Bool
  | [] => true
  | (_, v) :: rest => v.hasShortIntegers && fieldsShort rest

end

end Value

/-- A value as a document. -/
def write (indent : Indent) (v : Value) : Text := writeAt indent 0 v

/-! ### Writing on a machine -/

/-- Why a value cannot be written. -/
inductive Obstacle
  /-- An integer has too many digits. -/
  | tooManyDigits
  /-- The machine lacks something. -/
  | shortage (s : Shortage)
  deriving Repr, DecidableEq

/-- The spaces of one level. A number of spaces is beyond all lengths on either side of zero. -/
def unitOn (m : Machine) : Indent → Except Shortage Text
  | none => .ok []
  | some n =>
    if n < -(Text.greatestLength + 1 : Int) then .error .beyondLengths
    else m.copies [' '] n.toNat

/-- What keeps the line break at a depth from being written, where `unit` is the spaces of one
level. On a single line there are no breaks. -/
def breakObstacle? (m : Machine) (indent : Indent) (unit : Text) (depth : Nat) : Option Obstacle :=
  match indent with
  | none => none
  | some _ => (m.lacks? (.copies unit depth)).map .shortage

mutual

/-- What keeps a value at a depth from being written: the first obstacle on the way through it. -/
def obstacle? (m : Machine) (indent : Indent) (unit : Text) (depth : Nat) : Value → Option Obstacle
  | .int n => if (Number.decimal n.natAbs).length ≤ Number.mostDigits then none
    else some .tooManyDigits
  | .array (v :: rest) =>
    (breakObstacle? m indent unit (depth + 1)).or <|
      (obstacle? m indent unit (depth + 1) v).or <|
        (itemsObstacle? m indent unit (depth + 1) rest).or <| breakObstacle? m indent unit depth
  | .object ((_, v) :: rest) =>
    (breakObstacle? m indent unit (depth + 1)).or <|
      (obstacle? m indent unit (depth + 1) v).or <|
        (fieldsObstacle? m indent unit (depth + 1) rest).or <| breakObstacle? m indent unit depth
  | _ => none

/-- What keeps the entries of a list after its first one from being written. -/
def itemsObstacle? (m : Machine) (indent : Indent) (unit : Text) (depth : Nat) :
    List Value → Option Obstacle
  | [] => none
  | v :: rest =>
    (obstacle? m indent unit depth v).or (itemsObstacle? m indent unit depth rest)

/-- What keeps the fields of an object after its first one from being written. -/
def fieldsObstacle? (m : Machine) (indent : Indent) (unit : Text) (depth : Nat) :
    List (Text × Value) → Option Obstacle
  | [] => none
  | (_, v) :: rest =>
    (obstacle? m indent unit depth v).or (fieldsObstacle? m indent unit depth rest)

end

/-- A value as a document, as a machine writes it. -/
def writeOn (m : Machine) (indent : Indent) (v : Value) : Except Obstacle Text :=
  match unitOn m indent with
  | .error s => .error (.shortage s)
  | .ok unit =>
    match obstacle? m indent unit 0 v with
    | some o => .error o
    | none => (m.joined [write indent v]).mapError .shortage

end Json

end GrammarInference
