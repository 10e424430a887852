import GrammarInference.Text.Basic

/-!
# Command lines

A command line is cut into words at blanks. Single quotes keep everything up to the next single
quote; double quotes do the same, except that a backslash before a double quote or a backslash
makes it stand for itself. Outside quotes a backslash makes the next character stand for itself.
Quotes may enclose a part of a word, and an empty pair of quotes makes an empty word.
-/

namespace GrammarInference

namespace Words

/-- Why a command line cannot be cut into words. -/
inductive Fault
  /-- A quote is not closed. -/
  | openQuote
  /-- The line ends after a backslash. -/
  | openEscape
  deriving Repr, DecidableEq

/-- The wording of a fault. -/
def Fault.message : Fault → Text
  | .openQuote => "No closing quotation".toList
  | .openEscape => "No escaped character".toList

/-- What the next character means. -/
inductive Mode
  /-- Between words. -/
  | between
  /-- Inside a word, outside quotes. -/
  | plain
  /-- Inside single quotes. -/
  | single
  /-- Inside double quotes. -/
  | double
  /-- After a backslash outside quotes. -/
  | escaped
  /-- After a backslash inside double quotes. -/
  | escapedInDouble
  deriving Repr, DecidableEq

/-- The blanks that separate words. -/
def isSeparator (c : Char) : Bool := c = ' ' || c = '\t' || c = '\r' || c = '\n'

/-- The mode outside quotes after a character, and the character if it belongs to the word. -/
def enter (c : Char) : Mode × Text :=
  if c = '\'' then (.single, [])
  else if c = '"' then (.double, [])
  else if c = '\\' then (.escaped, [])
  else (.plain, [c])

/-- Cuts the rest of a line, where `word` is the part of the current word already read. -/
def cut : Mode → Text → Text → Except Fault (List Text)
  | .between, _, [] => .ok []
  | .plain, word, [] => .ok [word]
  | .single, _, [] => .error .openQuote
  | .double, _, [] => .error .openQuote
  | .escaped, _, [] => .error .openEscape
  | .escapedInDouble, _, [] => .error .openEscape
  | .between, word, c :: rest =>
    if isSeparator c then cut .between word rest else cut (enter c).1 (enter c).2 rest
  | .plain, word, c :: rest =>
    if isSeparator c then (cut .between [] rest).map (word :: ·)
    else cut (enter c).1 (word ++ (enter c).2) rest
  | .single, word, c :: rest =>
    if c = '\'' then cut .plain word rest else cut .single (word ++ [c]) rest
  | .double, word, c :: rest =>
    if c = '"' then cut .plain word rest
    else if c = '\\' then cut .escapedInDouble word rest
    else cut .double (word ++ [c]) rest
  | .escaped, word, c :: rest => cut .plain (word ++ [c]) rest
  | .escapedInDouble, word, c :: rest =>
    cut .double (word ++ if c = '"' ∨ c = '\\' then [c] else ['\\', c]) rest

/-- The words of a command line. -/
def split (line : Text) : Except Fault (List Text) := cut .between [] line

end Words

end GrammarInference
