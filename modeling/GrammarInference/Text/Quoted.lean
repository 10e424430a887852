import GrammarInference.Text.Hex
import GrammarInference.Text.Printable

/-!
# Quoted texts

The form in which messages show a text: between single quotes, or between double quotes when the
text has a single quote and no double quote. The quote in use and the backslash are escaped, line
feed, carriage return and tab have letters, other characters that are not printable are shown by
their code, and all else stands for itself.
-/

namespace GrammarInference

namespace Text

/-- A character inside quotes. -/
def quotedChar (quote c : Char) : Text :=
  if c = quote ∨ c = '\\' then ['\\', c]
  else if c = '\n' then ['\\', 'n']
  else if c = '\r' then ['\\', 'r']
  else if c = '\t' then ['\\', 't']
  else if isPrintable c then [c]
  else if c.toNat < 0x100 then ['\\', 'x'] ++ hex 2 c.toNat
  else if c.toNat < 0x10000 then ['\\', 'u'] ++ hex 4 c.toNat
  else ['\\', 'U'] ++ hex 8 c.toNat

/-- The quote that a text is shown with. -/
def quoteFor (t : Text) : Char :=
  if '\'' ∈ t ∧ '"' ∉ t then '"' else '\''

/-- A text between quotes. -/
def quoted (t : Text) : Text :=
  [quoteFor t] ++ t.flatMap (quotedChar (quoteFor t)) ++ [quoteFor t]

/-- A list of texts between brackets, each quoted. -/
def quotedList (ts : List Text) : Text :=
  ['['] ++ [',', ' '].intercalate (ts.map quoted) ++ [']']

end Text

end GrammarInference
