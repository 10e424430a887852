import GrammarInference.CharClass.Basic
import GrammarInference.Text.Hex

/-!
# Printed classes

A class prints as its only character or as a bracket expression with ranges, such as `[0-9a-f]`.
Three or more consecutive characters make a range, two are written side by side. A backslash
stands before characters that mean something where they stand, and characters outside printable
ASCII are written by their codes.
-/

namespace GrammarInference

namespace CharClass

/-- A character by its code. -/
def escapeCode (c : Char) : Text := ['\\', 'x'] ++ Text.hex 2 c.toNat

/-- A character, escaped if it is among `special` or a backslash, and written by its code if it is
not printable ASCII. -/
def escapeChar (special : List Char) (c : Char) : Text :=
  if c ∈ special ∨ c = '\\' then ['\\', c]
  else if 0x20 ≤ c.toNat ∧ c.toNat ≤ 0x7e then [c]
  else escapeCode c

/-- The characters with a meaning in printed grammars. -/
def grammarSpecial : List Char := "()[]\x7b\x7d|*+<>".toList

/-- The characters with a meaning inside brackets. -/
def bracketSpecial : List Char := "[]-^".toList

/-- Extends the stretch that a list of stretches starts with, if `c` is the character just before
it, and otherwise puts a new one in front. -/
def extendStretch (c : Char) : List (Char × Char) → List (Char × Char)
  | [] => [(c, c)]
  | (first, last) :: rest =>
    if c.toNat + 1 = first.toNat then (c, last) :: rest else (c, c) :: (first, last) :: rest

/-- The maximal stretches of consecutive characters, each by its first and last one. -/
def stretches (cs : List Char) : List (Char × Char) := cs.foldr extendStretch []

/-- A stretch inside brackets. -/
def formatStretch (s : Char × Char) : Text :=
  let first := escapeChar bracketSpecial s.1
  let last := escapeChar bracketSpecial s.2
  if s.1.toNat + 2 ≤ s.2.toNat then first ++ ['-'] ++ last
  else if s.1 = s.2 then first
  else first ++ last

/-- Characters as a class. -/
def formatChars : List Char → Text
  | [c] => escapeChar grammarSpecial c
  | cs => ['['] ++ (stretches cs).flatMap formatStretch ++ [']']

/-- The members that are single characters. -/
def chars (k : CharClass) : List Char := k.characters.filterMap Symbol.char?

/-- A class of characters as it is printed. -/
def format (k : CharClass) : Text := formatChars k.chars

/-- Why a class cannot be printed. -/
inductive FormatFault
  /-- The class has no members. -/
  | empty
  /-- A member is not a single character. -/
  | notCharacter
  deriving Repr, DecidableEq

/-- A class as it is printed, if it has members and all of them are single characters. -/
def format? (k : CharClass) : Except FormatFault Text :=
  if k.characters.all fun s => s.char?.isSome then
    if k.characters.isEmpty then .error .empty else .ok k.format
  else .error .notCharacter

end CharClass

end GrammarInference
