import GrammarInference.Tool.Basic

/-!
# Conditions

The tool `test`, also called `[`: its arguments form a condition about texts, whole numbers and
files. Up to four arguments are read by their number, so that any text can be compared; more of
them form an expression with `!`, `-a`, `-o` and parentheses.

The exit status is 0 if the condition holds, 1 if it does not, and 2 if the arguments form none.
-/

namespace GrammarInference

namespace Tool

namespace Condition

/-- A truth value and the arguments that are left; nothing if the arguments form no condition. -/
abbrev Reading := Option (Bool × List Text)

/-- The opposite of a condition. -/
def negated (r : Reading) : Reading := r.map fun (b, rest) => (!b, rest)

/-- Whether an argument is a dash and one character. -/
def isSwitch (a : Text) : Bool := a.length = 2 && a.head? = some '-'

/-- The operators that compare whole numbers. -/
def comparison? (op : Text) : Option (Int → Int → Bool) :=
  match String.ofList op with
  | "-eq" => some fun a b => a = b
  | "-ne" => some fun a b => a ≠ b
  | "-lt" => some fun a b => a < b
  | "-le" => some fun a b => a ≤ b
  | "-gt" => some fun a b => b < a
  | "-ge" => some fun a b => b ≤ a
  | _ => none

/-- The operators between two texts. -/
def isBinary (op : Text) : Bool :=
  op ∈ ["=".toList, "==".toList, "!=".toList, "-nt".toList, "-ot".toList, "-ef".toList]
    || (comparison? op).isSome

/-- The value of a comparison. Files have no age here, so that one is newer than another only if
the other does not exist. -/
def binary (w : Surroundings) (a op b : Text) : Option Bool :=
  match comparison? op with
  | some f => do some (f (← readWhole? a) (← readWhole? b))
  | none =>
    if op = "=".toList ∨ op = "==".toList then some (a = b)
    else if op = "!=".toList then some (a ≠ b)
    else if op = "-nt".toList then some ((w.held? a).isSome && (w.held? b).isNone)
    else if op = "-ot".toList then some ((w.held? a).isNone && (w.held? b).isSome)
    else some ((w.held? a).isSome && a = b)

/-- The value of a condition about one text or file. -/
def unary (w : Surroundings) (op a : Text) : Option Bool :=
  match op with
  | ['-', 'n'] => some (!a.isEmpty)
  | ['-', 'z'] => some a.isEmpty
  | ['-', 't'] => (readWhole? a).map fun _ => false
  | ['-', c] =>
    let held := w.held? a
    if c ∈ "erwuOG".toList then some held.isSome
    else if c = 'd' || c = 'x' then some (held = some .directory)
    else if c = 'f' then some (match held with | some (.file _) => true | _ => false)
    else if c = 's' then
      some (match held with
        | some (.file content) => !content.isEmpty
        | some .directory => true
        | _ => false)
    else if c = 'c' then some (held = some .nullDevice)
    else if c ∈ "bghkLNpS".toList then some false
    else none
  | _ => none

/-- A condition of one argument. -/
def one : List Text → Reading
  | a :: rest => some (!a.isEmpty, rest)
  | [] => none

/-- A condition of two arguments. -/
def two (w : Surroundings) : List Text → Reading
  | a :: b :: rest =>
    if a = ['!'] then negated (one (b :: rest))
    else if isSwitch a then (unary w a b).map fun v => (v, rest)
    else none
  | _ => none

/-- The length of a text in digits. -/
def lengthOf (a : Text) : Text := Number.decimal a.length

/-- A comparison of which one side is `-l` and a text whose length is meant, and what follows. -/
def measured (a : Text) (rest : List Text) : Option (Text × Text × Text × List Text) :=
  let mark := ['-', 'l']
  match rest with
  | x :: op :: y :: more =>
    if a = mark ∧ (comparison? op).isSome then
      match more with
      | z :: more' =>
        if y = mark then some (lengthOf x, op, lengthOf z, more')
        else some (lengthOf x, op, y, more)
      | [] => some (lengthOf x, op, y, more)
    else if op = mark ∧ (comparison? x).isSome then some (a, x, lengthOf y, more)
    else none
  | _ => none

/-- The number of arguments before the closing parenthesis, if it comes soon; all of them
otherwise. -/
def groupSize (args : List Text) : Nat :=
  match args with
  | [] => 1
  | _ :: rest =>
    let size := 1 + (rest.takeWhile (· ≠ [')'])).length
    if size ≤ 4 then size else args.length

mutual

/-- Conditions of which one has to hold. Every step of the reading takes one unit of fuel. -/
def disjunction (w : Surroundings) : Nat → List Text → Reading
  | 0, _ => none
  | fuel + 1, args =>
    match conjunction w fuel args with
    | none => none
    | some (a, rest) =>
      match rest with
      | [] => some (a, [])
      | op :: more =>
        if op = "-o".toList then
          (disjunction w fuel more).map fun (b, rest) => (a || b, rest)
        else some (a, rest)

/-- Conditions that all have to hold. -/
def conjunction (w : Surroundings) : Nat → List Text → Reading
  | 0, _ => none
  | fuel + 1, args =>
    match term w fuel args with
    | none => none
    | some (a, rest) =>
      match rest with
      | [] => some (a, [])
      | op :: more =>
        if op = "-a".toList then
          (conjunction w fuel more).map fun (b, rest) => (a && b, rest)
        else some (a, rest)

/-- A single condition. -/
def term (w : Surroundings) : Nat → List Text → Reading
  | 0, _ => none
  | _ + 1, [] => none
  | fuel + 1, a :: rest =>
    if a = ['!'] then negated (term w fuel rest)
    else if a = ['('] then
      match counted w fuel (groupSize rest) rest with
      | some (v, [')'] :: rest) => some (v, rest)
      | _ => none
    else match measured a rest with
      | some (left, op, right, more) => (binary w left op right).map fun v => (v, more)
      | none => match rest with
      | op :: b :: more =>
        if isBinary op then (binary w a op b).map fun v => (v, more)
        else if isSwitch a then (unary w a op).map fun v => (v, b :: more)
        else some (!a.isEmpty, rest)
      | [b] =>
        if isSwitch a then (unary w a b).map fun v => (v, [])
        else some (!a.isEmpty, rest)
      | [] => if isSwitch a then none else some (!a.isEmpty, rest)

/-- The condition that a number of arguments at the front form. -/
def counted (w : Surroundings) : Nat → Nat → List Text → Reading
  | 0, _, _ => none
  | _ + 1, 0, args => some (false, args)
  | _ + 1, 1, args => one args
  | _ + 1, 2, args => two w args
  | fuel + 1, 3, args => three w fuel args
  | fuel + 1, 4, args =>
    match args with
    | a :: b :: c :: d :: rest =>
      if a = ['!'] then negated (three w fuel (b :: c :: d :: rest))
      else if a = ['('] ∧ d = [')'] then
        match two w (b :: c :: d :: rest) with
        | some (v, _ :: rest) => some (v, rest)
        | _ => none
      else disjunction w fuel args
    | _ => none
  | fuel + 1, _ + 5, args => disjunction w fuel args

/-- A condition of three arguments. -/
def three (w : Surroundings) : Nat → List Text → Reading
  | 0, _ => none
  | fuel + 1, a :: b :: c :: rest =>
    if isBinary b then (binary w a b c).map fun v => (v, rest)
    else if a = ['!'] then negated (two w (b :: c :: rest))
    else if a = ['('] ∧ c = [')'] then some (!b.isEmpty, rest)
    else if b = "-a".toList ∨ b = "-o".toList then disjunction w fuel (a :: b :: c :: rest)
    else none
  | _ + 1, _ => none

end

/-- The truth value of a condition, if the arguments form one. -/
def evaluate (w : Surroundings) (args : List Text) : Option Bool :=
  match counted w (8 * args.length + 8) args.length args with
  | some (v, []) => some v
  | _ => none

end Condition

/-- The tool `test`. -/
def test : Tool := fun s =>
  match Condition.evaluate s s.arguments with
  | some true => .quiet 0
  | some false => .quiet 1
  | none => .quiet 2

/-- The tool `[`: a condition that ends with `]`. -/
def bracket : Tool := fun s =>
  if s.arguments.getLast? = some [']'] then test { s with arguments := s.arguments.dropLast }
  else .quiet 2

end Tool

end GrammarInference
