import GrammarInference.Text.Hex

/-!
# Input alphabets

The alphabet an oracle is queried with: the 128 characters of ASCII or the 256 characters that
stand for bytes. `showQuery` renders a query for people to read; queries over bytes are shown as
hexadecimal pairs.

The main statement says that an alphabet is found by its name in any case.
-/

namespace GrammarInference

/-- The alphabet that substitutes are drawn from. -/
inductive Alphabet
  /-- The characters with codes below 128. -/
  | ascii
  /-- The characters with codes below 256, one for each byte. -/
  | byte
  deriving Repr, DecidableEq

namespace Alphabet

/-- How many characters an alphabet has. -/
def size : Alphabet → Nat
  | .ascii => 128
  | .byte => 256

/-- The characters of an alphabet in the order of their codes. -/
def characters (a : Alphabet) : List Char := (List.range a.size).map Char.ofNat

@[simp] theorem length_characters (a : Alphabet) : a.characters.length = a.size := by
  simp [characters]

/-- The name of an alphabet. -/
def name : Alphabet → Text
  | .ascii => "ASCII".toList
  | .byte => "BYTE".toList

/-- The alphabet with a given name, in any case. -/
def ofName? (name : Text) : Option Alphabet :=
  [Alphabet.ascii, .byte].find? fun a => a.name = Text.capitals name

/-- The wording for a name that no alphabet has. -/
def unknownMessage (name : Text) : Text := "Unknown input alphabet: ".toList ++ name

theorem ofName?_name (a : Alphabet) : ofName? a.name = some a := by
  cases a <;> decide

end Alphabet

/-- A query as people read it. Over bytes every character is a hexadecimal number of at least two
digits; otherwise only control characters of ASCII are replaced, by their codes. -/
def showQuery (alphabet : Option Alphabet) (query : Text) : Text :=
  if alphabet = some .byte then query.flatMap fun c => Text.hex 2 c.toNat
  else query.flatMap fun c =>
    if c.toNat < 32 ∨ c.toNat = 127 then ['\\', 'x'] ++ Text.hex 2 c.toNat else [c]

end GrammarInference
