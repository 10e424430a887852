import GrammarInference.Number.Decimal
import GrammarInference.Text.Hex

/-!
# Arithmetic of the shell

Expressions over whole numbers of 64 bits and over variables, which an expression may set.
Comparisons and logical operators have the values one and zero, and the operators bind as usual.

An expression is cut into tokens, put together, and evaluated with a list of the variables that it
has set so far.
-/

namespace GrammarInference

namespace Shell

namespace Arithmetic

/-- Why an expression has no value. -/
inductive Fault
  /-- An operand is missing. -/
  | expectingPrimary
  /-- Something follows the expression. -/
  | expectingEnd
  /-- A group is not closed. -/
  | expectingClosing
  /-- The second half of a choice is missing. -/
  | expectingColon
  /-- A division has no value. -/
  | divisionByZero
  /-- The value of a variable is no number. -/
  | illegalNumber (t : Text)
  /-- A quotient has too many bits. -/
  | overflow
  deriving Repr, DecidableEq

/-! ### Numbers -/

/-- The value of a digit in a base, if it is one. -/
def digitValue? (base : Nat) (c : Char) : Option Nat :=
  (Text.hexValue? c).bind fun d => if d < base then some d else none

/-- The number that digits of a base denote, and the rest. -/
def digits (base : Nat) : Nat → Text → Nat × Text
  | n, [] => (n, [])
  | n, c :: rest =>
    match digitValue? base c with
    | some d => digits base (base * n + d) rest
    | none => (n, c :: rest)

/-- The number at the front of a text that starts with a digit, and the rest. A zero in front means
octal digits, and a zero and an `x` hexadecimal ones. -/
def numberAt (t : Text) : Nat × Text :=
  match t with
  | '0' :: x :: c :: rest =>
    if (x = 'x' ∨ x = 'X') ∧ (Text.hexValue? c).isSome then digits 16 0 (c :: rest)
    else digits 8 0 t
  | '0' :: _ => digits 8 0 t
  | t => digits 10 0 t

/-- The greatest number. -/
def greatest : Int := 9223372036854775807

/-- The least number. -/
def least : Int := -9223372036854775808

/-- Whether a character is white space. -/
def isSpace (c : Char) : Bool := c = ' ' || ('\t' ≤ c && c ≤ '\r')

/-- The number at the front of a text after white space and a sign, and the rest; nothing if there
is no digit. It may have too many bits. -/
def signedAt? (t : Text) : Option (Int × Text) :=
  let t := t.dropWhile isSpace
  let (negative, t) := match t with
    | '-' :: t => (true, t)
    | '+' :: t => (false, t)
    | t => (false, t)
  if t.head?.any Char.isDigit then
    let (n, rest) := numberAt t
    some (if negative then -(n : Int) else n, rest)
  else none

/-- The number that the value of a variable denotes. -/
def readValue (t : Text) : Except Fault Int64 :=
  match signedAt? t with
  | some (n, rest) =>
    if n < least ∨ greatest < n ∨ !rest.all isSpace then .error (.illegalNumber t)
    else .ok (.ofInt n)
  | none => if t.all isSpace then .ok 0 else .error (.illegalNumber t)

/-! ### Tokens -/

/-- An operator between two numbers. -/
inductive Operator
  /-- The product. -/
  | times
  /-- The quotient, rounded toward zero. -/
  | over
  /-- What is left by the quotient. -/
  | modulo
  /-- The sum. -/
  | plus
  /-- The difference. -/
  | minus
  /-- The bits of the first number, moved up. -/
  | shiftUp
  /-- The bits of the first number, moved down. -/
  | shiftDown
  /-- Whether the first number is less. -/
  | less
  /-- Whether the first number is at most the second. -/
  | atMost
  /-- Whether the first number is greater. -/
  | greater
  /-- Whether the first number is at least the second. -/
  | atLeast
  /-- Whether the numbers are the same. -/
  | equal
  /-- Whether the numbers differ. -/
  | unequal
  /-- The bits that both have. -/
  | bitAnd
  /-- The bits that one of them has. -/
  | bitXor
  /-- The bits that one or both have. -/
  | bitOr
  deriving Repr, DecidableEq

/-- How loosely an operator binds. -/
def Operator.rank : Operator → Nat
  | .times => 0
  | .over => 0
  | .modulo => 0
  | .plus => 1
  | .minus => 1
  | .shiftUp => 2
  | .shiftDown => 2
  | .less => 3
  | .atMost => 3
  | .greater => 3
  | .atLeast => 3
  | .equal => 4
  | .unequal => 4
  | .bitAnd => 5
  | .bitXor => 6
  | .bitOr => 7

/-- A token of an expression. -/
inductive Token
  /-- A number. -/
  | number (n : Int64)
  /-- The name of a variable. -/
  | name (t : Text)
  /-- An operator. -/
  | operator (o : Operator)
  /-- An assignment, perhaps together with an operator. -/
  | assign (o : Option Operator)
  /-- Both. -/
  | both
  /-- One or both. -/
  | either
  /-- The opposite truth value. -/
  | not
  /-- The opposite bits. -/
  | invert
  /-- The question mark of a choice. -/
  | question
  /-- The colon of a choice. -/
  | colon
  /-- The start of a group. -/
  | opening
  /-- The end of a group. -/
  | closing
  /-- Anything else. -/
  | wrong
  deriving Repr, DecidableEq

/-- The tokens by how they are written; where one is written at the start of another, the longer
one comes first. -/
def marks : List (Text × Token) :=
  [("<<=".toList, .assign (some .shiftUp)), (">>=".toList, .assign (some .shiftDown)),
    ("<<".toList, .operator .shiftUp), (">>".toList, .operator .shiftDown),
    ("<=".toList, .operator .atMost), (">=".toList, .operator .atLeast),
    ("==".toList, .operator .equal), ("!=".toList, .operator .unequal),
    ("&&".toList, .both), ("||".toList, .either),
    ("*=".toList, .assign (some .times)), ("/=".toList, .assign (some .over)),
    ("%=".toList, .assign (some .modulo)), ("+=".toList, .assign (some .plus)),
    ("-=".toList, .assign (some .minus)), ("&=".toList, .assign (some .bitAnd)),
    ("^=".toList, .assign (some .bitXor)), ("|=".toList, .assign (some .bitOr)),
    ("*".toList, .operator .times), ("/".toList, .operator .over),
    ("%".toList, .operator .modulo), ("+".toList, .operator .plus),
    ("-".toList, .operator .minus), ("<".toList, .operator .less),
    (">".toList, .operator .greater), ("&".toList, .operator .bitAnd),
    ("^".toList, .operator .bitXor), ("|".toList, .operator .bitOr), ("=".toList, .assign none),
    ("!".toList, .not), ("~".toList, .invert), ("?".toList, .question), (":".toList, .colon),
    ("(".toList, .opening), (")".toList, .closing)]

/-- The tokens of a text. Every token uses up a unit of fuel. -/
def tokens : Nat → Text → List Token
  | 0, _ => []
  | _ + 1, [] => []
  | fuel + 1, c :: rest =>
    if c = ' ' ∨ c = '\t' ∨ c = '\n' then tokens fuel rest
    else if c.isDigit then
      let (n, rest) := numberAt (c :: rest)
      .number (.ofInt (min n greatest)) :: tokens fuel rest
    else if c.isAlpha ∨ c = '_' then
      let name := (c :: rest).takeWhile fun d => d.isAlphanum || d = '_'
      .name name :: tokens fuel ((c :: rest).drop name.length)
    else match marks.find? fun m => m.1.isPrefixOf (c :: rest) with
      | some (mark, token) => token :: tokens fuel ((c :: rest).drop mark.length)
      | none => [.wrong]

/-! ### Expressions -/

/-- An expression. -/
inductive Expression
  /-- A number. -/
  | number (n : Int64)
  /-- The value of a variable. -/
  | name (t : Text)
  /-- The opposite number. -/
  | negated (e : Expression)
  /-- The opposite truth value. -/
  | not (e : Expression)
  /-- The opposite bits. -/
  | inverted (e : Expression)
  /-- An operator with two operands. -/
  | operation (o : Operator) (a b : Expression)
  /-- Whether both hold. -/
  | both (a b : Expression)
  /-- Whether one holds. -/
  | either (a b : Expression)
  /-- One of two, by a condition. -/
  | choice (condition a b : Expression)
  /-- A value that a variable is set to, perhaps combined with its value before. -/
  | assign (name : Text) (o : Option Operator) (e : Expression)
  deriving Repr

/-- What a step of putting together leads to: an expression and the tokens left. -/
abbrev Step := Except Fault (Expression × List Token)

mutual

/-- A number, a variable, a sign or a group. -/
def primary : Nat → List Token → Step
  | 0, _ => .error .expectingPrimary
  | fuel + 1, t =>
    match t with
    | .number n :: rest => .ok (.number n, rest)
    | .name t :: rest => .ok (.name t, rest)
    | .operator .plus :: rest => primary fuel rest
    | .operator .minus :: rest => (primary fuel rest).map fun (e, rest) => (.negated e, rest)
    | .not :: rest => (primary fuel rest).map fun (e, rest) => (.not e, rest)
    | .invert :: rest => (primary fuel rest).map fun (e, rest) => (.inverted e, rest)
    | .opening :: rest => do
      match ← whole fuel rest with
      | (e, .closing :: rest) => .ok (e, rest)
      | _ => .error .expectingClosing
    | _ => .error .expectingPrimary

/-- What is joined to an expression by operators that bind more strongly than a rank. -/
def joined (rank : Nat) : Nat → Expression → List Token → Step
  | 0, e, rest => .ok (e, rest)
  | fuel + 1, e, t =>
    match t with
    | .operator o :: rest =>
      if o.rank < rank then do
        let (b, rest) ← primary fuel rest
        let (b, rest) ← joined o.rank fuel b rest
        joined rank fuel (.operation o e b) rest
      else .ok (e, t)
    | t => .ok (e, t)

/-- Expressions that all have to hold. -/
def conjunction : Nat → List Token → Step
  | 0, _ => .error .expectingPrimary
  | fuel + 1, t => do
    let (a, rest) ← primary fuel t
    match ← joined 8 fuel a rest with
    | (a, .both :: rest) => (conjunction fuel rest).map fun (b, rest) => (.both a b, rest)
    | r => .ok r

/-- Expressions of which one has to hold. -/
def disjunction : Nat → List Token → Step
  | 0, _ => .error .expectingPrimary
  | fuel + 1, t => do
    match ← conjunction fuel t with
    | (a, .either :: rest) => (disjunction fuel rest).map fun (b, rest) => (.either a b, rest)
    | r => .ok r

/-- A choice, or an expression without one. -/
def choice : Nat → List Token → Step
  | 0, _ => .error .expectingPrimary
  | fuel + 1, t => do
    match ← disjunction fuel t with
    | (condition, .question :: rest) =>
      match ← whole fuel rest with
      | (a, .colon :: rest) =>
        (choice fuel rest).map fun (b, rest) => (.choice condition a b, rest)
      | _ => .error .expectingColon
    | r => .ok r

/-- A whole expression, which may set a variable. -/
def whole : Nat → List Token → Step
  | 0, _ => .error .expectingPrimary
  | fuel + 1, t =>
    match t with
    | .name x :: .assign o :: rest =>
      (whole fuel rest).map fun (e, rest) => (.assign x o e, rest)
    | t => choice fuel t

end

/-- The expression that a text denotes. -/
def read (t : Text) : Except Fault Expression :=
  let ts := tokens (t.length + 1) t
  match whole (8 * ts.length + 8) ts with
  | .error f => .error f
  | .ok (e, []) => .ok e
  | .ok (_, _ :: _) => .error .expectingEnd

/-! ### Values -/

/-- The number for a truth value. -/
def truth (b : Bool) : Int64 := if b then 1 else 0

/-- The value of an operator. -/
def Operator.value (o : Operator) (a b : Int64) : Except Fault Int64 :=
  match o with
  | .times => .ok (a * b)
  | .plus => .ok (a + b)
  | .minus => .ok (a - b)
  | .shiftUp => .ok (a <<< b)
  | .shiftDown => .ok (a >>> b)
  | .less => .ok (truth (a < b))
  | .atMost => .ok (truth (a ≤ b))
  | .greater => .ok (truth (b < a))
  | .atLeast => .ok (truth (b ≤ a))
  | .equal => .ok (truth (a = b))
  | .unequal => .ok (truth (a ≠ b))
  | .bitAnd => .ok (a &&& b)
  | .bitXor => .ok (a ^^^ b)
  | .bitOr => .ok (a ||| b)
  | .over =>
    if b = 0 then .error .divisionByZero
    else if b = -1 ∧ a.toInt = least then .error .overflow
    else .ok (a / b)
  | .modulo =>
    if b = 0 then .error .divisionByZero
    else if b = -1 ∧ a.toInt = least then .error .overflow
    else .ok (a % b)

/-- The variables that were set, the last one first. -/
abbrev Settings := List (Text × Int64)

/-- The value of a variable. -/
def valueOf (valueOf? : Text → Option Text) (set : Settings) (name : Text) : Except Fault Int64 :=
  match set.lookup name with
  | some n => .ok n
  | none => readValue ((valueOf? name).getD [])

/-- The value of an expression, and the variables that were set. -/
def evaluate (valueOf? : Text → Option Text) :
    Expression → Settings → Except Fault (Int64 × Settings)
  | .number n, set => .ok (n, set)
  | .name x, set => (valueOf valueOf? set x).map fun n => (n, set)
  | .negated e, set => (evaluate valueOf? e set).map fun (n, set) => (-n, set)
  | .not e, set => (evaluate valueOf? e set).map fun (n, set) => (truth (n = 0), set)
  | .inverted e, set => (evaluate valueOf? e set).map fun (n, set) => (~~~n, set)
  | .operation o a b, set => do
    let (m, set) ← evaluate valueOf? a set
    let (n, set) ← evaluate valueOf? b set
    (o.value m n).map fun v => (v, set)
  | .both a b, set => do
    let (m, set) ← evaluate valueOf? a set
    if m = 0 then .ok (0, set)
    else (evaluate valueOf? b set).map fun (n, set) => (truth (n ≠ 0), set)
  | .either a b, set => do
    let (m, set) ← evaluate valueOf? a set
    if m ≠ 0 then .ok (1, set)
    else (evaluate valueOf? b set).map fun (n, set) => (truth (n ≠ 0), set)
  | .choice condition a b, set => do
    let (c, set) ← evaluate valueOf? condition set
    if c ≠ 0 then evaluate valueOf? a set else evaluate valueOf? b set
  | .assign x o e, set => do
    let (n, set) ← evaluate valueOf? e set
    let v ← match o with
      | none => .ok n
      | some o => do o.value (← valueOf valueOf? set x) n
    .ok (v, (x, v) :: set)

/-- A number in decimal digits. -/
def shown (n : Int64) : Text := Number.showInt n.toInt

end Arithmetic

end Shell

end GrammarInference
