import GrammarInference.Text.Case
import GrammarInference.Text.Letter

/-!
# Kinds of characters

The named kinds of characters that the sets of a pattern are made of, in all scripts, and the
members of such sets. A set can take capitals for small letters: then a character belongs to it if
one of its other cases does.

The main statement says that such a set keeps all that it has without.
-/

namespace GrammarInference

namespace Regex

/-- A named kind of characters. -/
inductive Kind
  /-- Letters. -/
  | alpha
  /-- Decimal digits. -/
  | digit
  /-- Letters and digits. -/
  | alnum
  /-- Capitals. -/
  | upper
  /-- Small letters. -/
  | lower
  /-- White space. -/
  | space
  /-- Space and tabulator. -/
  | blank
  /-- Visible characters that are neither letters nor digits. -/
  | punct
  /-- Visible characters and the space. -/
  | print
  /-- Visible characters. -/
  | graph
  /-- Control characters. -/
  | cntrl
  /-- Hexadecimal digits. -/
  | xdigit
  deriving Repr, DecidableEq

namespace Kind

/-- The kinds by their names in brackets. -/
def named : List (Text × Kind) :=
  [("alpha".toList, .alpha), ("digit".toList, .digit), ("alnum".toList, .alnum),
    ("upper".toList, .upper), ("lower".toList, .lower), ("space".toList, .space),
    ("blank".toList, .blank), ("punct".toList, .punct), ("print".toList, .print),
    ("graph".toList, .graph), ("cntrl".toList, .cntrl), ("xdigit".toList, .xdigit)]

/-- The spaces, as ranges of codes, without those that must not break a line. -/
def spaces : List (Nat × Nat) :=
  [(0x20, 0x20), (0x1680, 0x1680), (0x2000, 0x2006), (0x2008, 0x200a), (0x205f, 0x205f),
    (0x3000, 0x3000)]

/-- The codes of characters that count as visible although nothing is drawn for them. -/
def unseen : List (Nat × Nat) :=
  [(0xa0, 0xa0), (0xad, 0xad), (0x600, 0x605), (0x61c, 0x61c), (0x6dd, 0x6dd), (0x70f, 0x70f),
    (0x890, 0x891), (0x8e2, 0x8e2), (0x180e, 0x180e), (0x2007, 0x2007), (0x200b, 0x200f),
    (0x202a, 0x202f), (0x2060, 0x2064), (0x2066, 0x206f), (0xe000, 0xf8ff), (0xfeff, 0xfeff),
    (0xfff9, 0xfffb), (0xf0000, 0xffffd), (0x100000, 0x10fffd)]

/-- Whether a code lies in one of some ranges. -/
def within (ranges : List (Nat × Nat)) (code : Nat) : Bool :=
  ranges.any fun r => r.1 ≤ code && code ≤ r.2

/-- Whether a character is visible. -/
def isVisible (c : Char) : Bool :=
  c ≠ ' ' && (Text.isPrintable c || within unseen c.toNat)

/-- Whether a character is of a kind. -/
def has (k : Kind) (c : Char) : Bool :=
  match k with
  | .alpha => Text.isLetter c
  | .digit => c.isDigit
  | .alnum => Text.isLetter c || c.isDigit
  | .upper => Text.lowered c ≠ c
  | .lower => Text.raised c ≠ c || c ∈ ['ª', 'º', 'ß']
  | .space => within ((9, 13) :: (0x2028, 0x2029) :: spaces) c.toNat
  | .blank => within ((9, 9) :: spaces) c.toNat
  | .punct => isVisible c && !Text.isLetter c && !c.isDigit
  | .print => isVisible c || within spaces c.toNat
  | .graph => isVisible c
  | .cntrl => within [(0, 0x1f), (0x7f, 0x9f), (0x2028, 0x2029)] c.toNat
  | .xdigit => c.isDigit || ('a' ≤ c && c ≤ 'f') || ('A' ≤ c && c ≤ 'F')

end Kind

/-- A part of a set of characters. -/
inductive Item
  /-- The characters from `low` to `high`. -/
  | range (low high : Char)
  /-- The characters of a kind. -/
  | kind (k : Kind)
  /-- The characters of a kind that belong to ASCII. -/
  | plain (k : Kind)
  /-- The characters outside of some parts. -/
  | outside (items : List Item)
  deriving Repr

namespace Item

mutual

/-- Whether a character belongs to a part. -/
def has (c : Char) : Item → Bool
  | .range low high => low ≤ c && c ≤ high
  | .kind k => k.has c
  | .plain k => c.toNat < 128 && k.has c
  | .outside items => !someHas c items

/-- Whether a character belongs to one of some parts. -/
def someHas (c : Char) : List Item → Bool
  | [] => false
  | i :: rest => has c i || someHas c rest

end

/-- The cases of a character. -/
def cases (c : Char) : List Char :=
  let low := Text.lowered c
  let high := Text.raised c
  [c, low, high, Text.lowered high, Text.raised low]

/-- Whether a character is the only one of a part, up to case. -/
def isAlone (c : Char) : Item → Bool
  | .range low high => low = high && Text.raised low = Text.raised c
  | _ => false

/-- Whether a character or, if the case does not matter, one of its cases belongs to one of some
parts. -/
def anyHas (fold : Bool) (items : List Item) (c : Char) : Bool :=
  items.any (Item.has c)
    || (fold && items.any fun i => i.isAlone c || (cases c).any fun d => i.has d)

/-- Whether two characters are the same, perhaps up to case. -/
def same (fold : Bool) (a b : Char) : Bool :=
  a = b || (fold && (Text.raised a = Text.raised b || Text.lowered a = Text.lowered b))

/-- A set that takes capitals for small letters keeps what it has without. -/
theorem anyHas_fold {items : List Item} {c : Char} (h : anyHas false items c = true) :
    anyHas true items c = true := by
  simp only [anyHas, Bool.false_and, Bool.or_false] at h
  simp [anyHas, h]

end Item

end Regex

end GrammarInference
