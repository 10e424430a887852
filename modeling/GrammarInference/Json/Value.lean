import GrammarInference.Number.Decimal
import GrammarInference.Text.Quoted

/-!
# JSON values

Objects keep their fields in the order of first appearance, and a field that appears twice keeps
its first place and its last value. Numbers are integers of any size or floating-point numbers.

`Value.shown` is the form in which messages show a value.
-/

namespace GrammarInference

namespace Json

/-- A JSON value. -/
inductive Value
  /-- The null value. -/
  | null
  /-- A truth value. -/
  | bool (b : Bool)
  /-- A number written without fraction and exponent. -/
  | int (n : Int)
  /-- Any other number. -/
  | real (x : Float)
  /-- A string. -/
  | text (t : Text)
  /-- A list of values. -/
  | array (items : List Value)
  /-- Named values. -/
  | object (fields : List (Text × Value))
  deriving Inhabited

/-- Sets a field: an existing one keeps its place, a new one comes last. -/
def setField (key : Text) (value : Value) : List (Text × Value) → List (Text × Value)
  | [] => [(key, value)]
  | (k, v) :: rest =>
    if k = key then (k, value) :: rest else (k, v) :: setField key value rest

theorem mem_keys_setField {key k : Text} {value : Value} {fields : List (Text × Value)} :
    k ∈ (setField key value fields).map Prod.fst ↔ k = key ∨ k ∈ fields.map Prod.fst := by
  induction fields with
  | nil => simp [setField]
  | cons f rest ih =>
    obtain ⟨k', v'⟩ := f
    simp only [setField]
    split
    · next h => subst h; simp
    · simp only [List.map_cons, List.mem_cons, ih]; grind

/-- A new field comes last. -/
theorem setField_of_not_mem {key : Text} {value : Value} {fields : List (Text × Value)}
    (h : key ∉ fields.map Prod.fst) : setField key value fields = fields ++ [(key, value)] := by
  induction fields with
  | nil => rfl
  | cons f rest ih =>
    obtain ⟨k', v'⟩ := f
    simp only [List.map_cons, List.mem_cons, not_or] at h
    simp [setField, Ne.symm h.1, ih h.2]

/-- The fields that a list of assignments leaves. -/
def fieldsOf (assignments : List (Text × Value)) : List (Text × Value) :=
  assignments.foldl (fun fields f => setField f.1 f.2 fields) []

/-- The value of a field of a list of fields. -/
def lookup? (key : Text) : List (Text × Value) → Option Value
  | [] => none
  | (k, v) :: rest => if k = key then some v else lookup? key rest

namespace Value

mutual

/-- A value as messages show it: words for null and the truth values, quoted strings inside lists
and objects. -/
def quoted : Value → Text
  | .null => "None".toList
  | .bool true => "True".toList
  | .bool false => "False".toList
  | .int n => Number.showInt n
  | .real x => Number.showReal x
  | .text t => Text.quoted t
  | .array items => ['['] ++ quotedItems items ++ [']']
  | .object fields => ['{'] ++ quotedFields fields ++ ['}']

/-- List entries, separated by a comma and a space. -/
def quotedItems : List Value → Text
  | [] => []
  | [v] => quoted v
  | v :: rest => quoted v ++ [',', ' '] ++ quotedItems rest

/-- Fields, separated by a comma and a space. -/
def quotedFields : List (Text × Value) → Text
  | [] => []
  | [(k, v)] => Text.quoted k ++ [':', ' '] ++ quoted v
  | (k, v) :: rest => Text.quoted k ++ [':', ' '] ++ quoted v ++ [',', ' '] ++ quotedFields rest

end

/-! ### Equal values

Numbers are equal if their values are, truth values count as one and zero, and the order of the
fields of an object does not matter. Values that are equal in this sense have one canonical
spelling. -/

/-- The spelling of a number. A floating-point number that is whole is spelled like an integer. -/
def canonicalReal (x : Float) : Text :=
  let bits := x.toBits.toNat
  let biased := bits / Nat.pow 2 52 % 2048
  let fraction := bits % Nat.pow 2 52
  let significand := if biased = 0 then fraction else fraction + Nat.pow 2 52
  let exponent := max biased 1
  if biased = 2047 then Number.showReal x
  else if 1075 ≤ exponent ∨ significand % Nat.pow 2 (1075 - exponent) = 0 then
    let magnitude : Int :=
      significand * Nat.pow 2 (exponent - 1075) / Nat.pow 2 (1075 - exponent)
    Number.showInt (if Nat.pow 2 63 ≤ bits then -magnitude else magnitude)
  else Number.showReal x

/-- Puts the spelling of a field in its place among others. -/
def insertSpelling (s : Text) : List Text → List Text
  | [] => [s]
  | t :: rest => if s < t then s :: t :: rest else t :: insertSpelling s rest

mutual

/-- The spelling that equal values share. -/
def canonical : Value → Text
  | .null => "None".toList
  | .bool b => if b then ['1'] else ['0']
  | .int n => Number.showInt n
  | .real x => canonicalReal x
  | .text t => Text.quoted t
  | .array items => ['['] ++ canonicalItems items ++ [']']
  | .object fields => ['{'] ++ Text.concat (canonicalFields fields) ++ ['}']

/-- The spellings of list entries, each with a comma behind it. -/
def canonicalItems : List Value → Text
  | [] => []
  | v :: rest => canonical v ++ [','] ++ canonicalItems rest

/-- The spellings of fields, each with a comma behind it, in order. -/
def canonicalFields : List (Text × Value) → List Text
  | [] => []
  | (k, v) :: rest =>
    insertSpelling (Text.quoted k ++ [':'] ++ canonical v ++ [',']) (canonicalFields rest)

end

/-- A value as messages show it; a string by itself stands without quotes. -/
def shown : Value → Text
  | .text t => t
  | v => quoted v

end Value

end Json

end GrammarInference
