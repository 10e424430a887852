import GrammarInference.Tool.Condition
import GrammarInference.Tool.Shell.Arithmetic

/-!
# Conditions of the shell

The commands `test` and `[` of the shell itself. They differ from the tools of these names: texts
can be compared by their order, whole numbers have 64 bits, and a condition may end early where the
tool sees a mistake.

A word that looks like an operator is one unless it stands where only an operand makes sense. The
functions for the levels of an expression take the words from the current one on, and give back
the words from the last one that they have used.
-/

namespace GrammarInference

namespace Shell

namespace Condition

/-- What a word of a condition can be. -/
inductive Role
  /-- A condition of the one word that follows. -/
  | unary
  /-- A comparison of the words around it. -/
  | binary
  /-- The opposite. -/
  | not
  /-- Both. -/
  | both
  /-- One of both. -/
  | either
  /-- The start of a group. -/
  | opening
  /-- The end of a group. -/
  | closing
  /-- None of these. -/
  | operand
  deriving Repr, DecidableEq

/-- The words that compare two others. -/
def comparisons : List Text :=
  ["=".toList, "!=".toList, "<".toList, ">".toList, "-eq".toList, "-ne".toList, "-ge".toList,
    "-gt".toList, "-le".toList, "-lt".toList, "-nt".toList, "-ot".toList, "-ef".toList]

/-- What a word can be, wherever it stands. -/
def role (w : Text) : Role :=
  if w ∈ comparisons then .binary
  else match w with
    | ['!'] => .not
    | ['('] => .opening
    | [')'] => .closing
    | ['-', 'a'] => .both
    | ['-', 'o'] => .either
    | ['-', c] => if c ∈ "rwxefdcbpugkstznhLSOG".toList then .unary else .operand
    | _ => .operand

/-- Whether the first word is an operand because of the words after it. -/
def standsAlone (rest : List Text) : Bool :=
  match rest with
  | [] => true
  | [_] => false
  | w :: _ :: _ => role w = .binary

/-- What the first word is; nothing at the end. -/
def roleAt (ws : List Text) : Option Role :=
  match ws with
  | [] => none
  | w :: rest =>
    match role w with
    | .unary => some (if standsAlone rest then .operand else .unary)
    | .opening => some (if rest.isEmpty then .operand else .opening)
    | r => some r

/-- A mistake in a condition, perhaps at a word. -/
def mistake (w : Text) (wording : String) : Text :=
  if w.isEmpty then wording.toList else w ++ ": ".toList ++ wording.toList

/-- The whole number that a word denotes. -/
def number (w : Text) : Except Text Int :=
  let isGood (t : Text) : Bool :=
    let (_, ds) := Number.takeSign (t.dropWhile Arithmetic.isSpace)
    ds.head?.any Char.isDigit && (ds.dropWhile Char.isDigit).all Arithmetic.isSpace
  if isGood w then
    let (negative, ds) := Number.takeSign (w.dropWhile Arithmetic.isSpace)
    let n : Int := Number.ofDigits (ds.takeWhile Char.isDigit)
    let n := if negative then -n else n
    if n < Arithmetic.least ∨ Arithmetic.greatest < n then .error ("Illegal number: ".toList ++ w)
    else .ok n
  else .error ("Illegal number: ".toList ++ w)

/-- Whether a text comes before another one. -/
def isBefore : Text → Text → Bool
  | _, [] => false
  | [], _ :: _ => true
  | c :: s, d :: t => c < d || (c = d && isBefore s t)

/-- The value of a comparison. Files have no age here, so that none is newer than another. -/
def compare (around : Tool.Surroundings) (a op b : Text) : Except Text Bool :=
  match Tool.Condition.comparison? op with
  | some f => do return f (← number a) (← number b)
  | none =>
    match op with
    | ['='] => .ok (a = b)
    | ['!', '='] => .ok (a ≠ b)
    | ['<'] => .ok (isBefore a b)
    | ['>'] => .ok (isBefore b a)
    | ['-', 'e', 'f'] =>
      .ok ((around.held? a).isSome && around.locate? a = around.locate? b)
    | _ => .ok false

/-- The value of a condition of one word. -/
def examine (around : Tool.Surroundings) (op a : Text) : Except Text Bool :=
  if op = "-t".toList then (number a).map fun _ => false
  else .ok ((Tool.Condition.unary around op a).getD false)

/-- A value and the words from the last one used. -/
abbrev Reading := Except Text (Bool × List Text)

mutual

/-- Conditions of which one has to hold. -/
def disjunction (around : Tool.Surroundings) : Nat → Bool → List Text → Reading
  | 0, _, ws => .ok (false, ws)
  | fuel + 1, alone, ws => do
    let (a, ws) ← conjunction around fuel alone ws
    if roleAt (ws.drop 1) = some .either then
      let (b, ws) ← disjunction around fuel false (ws.drop 2)
      return (a || b, ws)
    else return (a, ws)

/-- Conditions that all have to hold. -/
def conjunction (around : Tool.Surroundings) : Nat → Bool → List Text → Reading
  | 0, _, ws => .ok (false, ws)
  | fuel + 1, alone, ws => do
    let (a, ws) ← term around fuel alone ws
    if roleAt (ws.drop 1) = some .both then
      let (b, ws) ← conjunction around fuel false (ws.drop 2)
      return (a && b, ws)
    else return (a, ws)

/-- A single condition. The first word may be known to be an operand. -/
def term (around : Tool.Surroundings) : Nat → Bool → List Text → Reading
  | 0, _, ws => .ok (false, ws)
  | _ + 1, _, [] => .ok (false, [])
  | fuel + 1, alone, w :: rest =>
    match if alone then some .operand else roleAt (w :: rest) with
    | some .not => do
      let (a, ws) ← term around fuel false rest
      return (!a, if rest.isEmpty then [w] else ws)
    | some .opening =>
      if roleAt rest = some .closing then .ok (false, rest)
      else do
        let (a, ws) ← disjunction around fuel false rest
        if roleAt (ws.drop 1) = some .closing then return (a, ws.drop 1)
        else .error "closing paren expected".toList
    | some .unary =>
      match rest with
      | [] => .error (mistake w "argument expected")
      | a :: _ => (examine around w a).map fun v => (v, rest)
    | _ =>
      match rest with
      | op :: more =>
        if roleAt rest = some .binary then
          match more with
          | b :: _ => (compare around w op b).map fun v => (v, more)
          | [] => .error (mistake op "argument expected")
        else .ok (!w.isEmpty, w :: rest)
      | [] => .ok (!w.isEmpty, [w])

end

/-- Whether words are a comparison by their number. -/
def isComparison (ws : List Text) : Bool :=
  ws.length = 3 && (ws.tail.head?.map role) = some .binary

/-- Three or four words without exclamation marks in front of them, and whether there were any.
However many they are, they count as one. -/
def unmarked : List Text → Bool × List Text
  | [] => (false, [])
  | w :: rest =>
    if w = ['!'] ∧ 2 ≤ rest.length ∧ rest.length ≤ 3 ∧ !isComparison (w :: rest) then
      (true, (unmarked rest).2)
    else (false, w :: rest)

/-- The truth value of the words. Three or four words are read by their number first. -/
def evaluate (around : Tool.Surroundings) (ws : List Text) : Except Text Bool := do
  let (marked, ws) := unmarked ws
  let grouped := 3 ≤ ws.length && ws.length ≤ 4 && !isComparison ws && ws.head? = some ['(']
    && ws.getLast? = some [')']
  let whole := if grouped then ws.tail.dropLast else ws
  if whole.isEmpty then return false
  let (v, left) ← disjunction around (8 * ws.length + 8) (isComparison ws) whole
  match left with
  | u :: _ :: _ => .error (mistake u "unexpected operator")
  | _ => return v != marked

end Condition

end Shell

end GrammarInference
