import GrammarInference.Text.Basic

/-!
# Blank characters

Two notions of white space. Numerals may be surrounded by any blank of Unicode; of the ASCII
codes only tab to carriage return and the space count there. Structured documents and command
lines have narrower sets of their own, defined where they are read.
-/

namespace GrammarInference

namespace Text

/-- The white space of ASCII: tab, line feed, vertical tab, form feed, carriage return, space. -/
def isPlainBlank (c : Char) : Bool :=
  c = ' ' || ('\t' ≤ c && c ≤ '\r')

/-- White space that may surround a numeral: the ASCII blanks and, beyond ASCII, the next-line
control, the no-break space and the Unicode spaces and separators. -/
def isBlank (c : Char) : Bool :=
  isPlainBlank c || c.toNat = 0x85 || c.toNat = 0xa0 || c.toNat = 0x1680
    || (0x2000 ≤ c.toNat && c.toNat ≤ 0x200a) || c.toNat = 0x2028 || c.toNat = 0x2029
    || c.toNat = 0x202f || c.toNat = 0x205f || c.toNat = 0x3000

/-- A text without the characters that satisfy `p` at its two ends. -/
def trim (p : Char → Bool) (t : Text) : Text :=
  ((t.dropWhile p).reverse.dropWhile p).reverse

end Text

end GrammarInference
