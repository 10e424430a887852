import GrammarInference.Grammar.Rules
import GrammarInference.CharClass.Format
import GrammarInference.Number.Decimal

/-!
# Printed grammars

A grammar prints in a compact notation like that of regular expressions: classes in brackets,
alternatives and repeated parts in parentheses, counts behind them, references in angle brackets.
The root stands on the first line, every rule on a line of its own.

Only classes of more than one member are shown. One with a member that is not a single character
cannot be printed, and a node that shows one cannot either.
-/

namespace GrammarInference

namespace Literal

/-- A character of a literal with its class. -/
def formatCell (cell : Char × Option CharClass) : Text :=
  match cell.2 with
  | some k => if 1 < k.size then k.format else CharClass.escapeChar CharClass.grammarSpecial cell.1
  | none => CharClass.escapeChar CharClass.grammarSpecial cell.1

/-- A literal as it is printed. -/
def format (l : Literal) : Text := l.cells.flatMap formatCell

/-- Whether all classes that are shown consist of single characters. -/
def isPrintable (l : Literal) : Bool :=
  l.classes.all fun k => k.all fun k => k.size ≤ 1 || k.characters.all fun s => s.char?.isSome

end Literal

/-- A range of counts as it is printed. -/
def Bounds.format (b : Bounds) : Text :=
  match b.max, b.min with
  | none, 0 => ['*']
  | none, 1 => ['+']
  | none, n => ['\x7b'] ++ Number.decimal n ++ [',', '\x7d']
  | some m, n => ['\x7b'] ++ Number.decimal n ++ [','] ++ Number.decimal m ++ ['\x7d']

namespace Node

mutual

/-- A node as it is printed. -/
def format : Node → Text
  | .literal l => l.format
  | .sequence [] => ['(', ')']
  | .sequence (n :: rest) => format n ++ formatAll rest
  | .alternation [] => ['(', ')']
  | .alternation (n :: rest) => ['('] ++ format n ++ formatOptions rest ++ [')']
  | .repetition b x => ['('] ++ format b ++ [')'] ++ x.format
  | .recursive name => ['<'] ++ name ++ ['>']

/-- Nodes side by side. -/
def formatAll : List Node → Text
  | [] => []
  | n :: rest => format n ++ formatAll rest

/-- The options after the first one. -/
def formatOptions : List Node → Text
  | [] => []
  | n :: rest => ['|'] ++ format n ++ formatOptions rest

end

/-- Whether a node can be printed. -/
def isPrintable (n : Node) : Bool :=
  n.walk.all fun m => match m with
    | .literal l => l.isPrintable
    | _ => true

/-- A node as it is printed, if it can be. -/
def format? (n : Node) : Option Text := if n.isPrintable then some n.format else none

end Node

namespace Grammar

/-- A grammar as it is printed. -/
def format (g : Grammar) : Text :=
  g.root.format ++ g.rules.entries.flatMap fun e =>
    ['\n'] ++ e.1 ++ " ::= ".toList ++ e.2.format

/-- A grammar as it is printed, if it can be. -/
def format? (g : Grammar) : Option Text :=
  if g.root.isPrintable && g.rules.entries.all fun e => e.2.isPrintable then some g.format
  else none

end Grammar

end GrammarInference
