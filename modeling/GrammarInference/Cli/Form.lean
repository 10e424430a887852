import GrammarInference.Text.Basic
import GrammarInference.Text.Digit

/-!
# Reading arguments

A form says which flags there are, what a value does to what is being filled in, and what becomes
of the operand, the argument that belongs to no flag. A flag has a letter, a name or both; a name
may be cut short as long as it stays unique. The value of a flag follows it as the next argument,
after an equals sign, or right after the letter.

All arguments are first told apart, without regard to the values that flags need: what looks like
a flag is one, even where a value would be due. A negative number and an argument with a space are
never flags unless they begin with a known letter, and after `--` there are only operands.
-/

namespace GrammarInference

namespace Cli

/-- Why arguments are not accepted as they are. -/
inductive Stop
  /-- Help is asked for. -/
  | help
  /-- Something is wrong with them. -/
  | misuse
  deriving Repr, DecidableEq

/-- A flag with a value. -/
structure Flag (σ : Type) where
  /-- Its letter, if it has one. -/
  letter : Option Char
  /-- Its name. -/
  name : Text
  /-- What a value does; nothing if it is malformed. -/
  fill : σ → Text → Option σ

/-- What becomes of the operand. -/
inductive Operand (σ : Type)
  /-- One argument is filled in. -/
  | single (fill : σ → Text → σ)
  /-- An argument and all after it are filled in; some of them may be left over. -/
  | rest (fill : σ → Text → List Text → Except Stop (σ × List Text))

/-- A form that arguments fill in. -/
structure Form (σ τ : Type) where
  /-- What it holds at first. -/
  start : σ
  /-- Its flags. Help can be asked for in addition. -/
  flags : List (Flag σ)
  /-- Its operand. -/
  operand : Operand σ
  /-- What it amounts to; nothing if something is missing. -/
  finish : σ → Option τ

/-- A flag or the request for help. -/
inductive Choice (σ : Type)
  /-- The request for help. -/
  | help
  /-- A flag. -/
  | flag (f : Flag σ)

/-- An argument, told apart. -/
inductive Item (σ : Type)
  /-- An operand or a value. -/
  | plain (t : Text)
  /-- The mark after which there are no flags. -/
  | separator
  /-- What looks like a flag but is none. -/
  | unknown (t : Text)
  /-- The request for help, with the letters after it; nothing if it is spoiled by a value. -/
  | help (letters : Option Text)
  /-- A flag, and the value that is attached to it. -/
  | flag (g : Flag σ) (attached : Option Text)

/-- A choice by its name, with the value after an equals sign. Help has no value. -/
def Choice.named {σ : Type} (attached : Option Text) : Choice σ → Item σ
  | .help => .help (if attached.isNone then some [] else none)
  | .flag g => .flag g attached

namespace Form

variable {σ τ : Type}

/-- What a letter stands for. -/
def byLetter? (f : Form σ τ) (c : Char) : Option (Choice σ) :=
  if c = 'h' then some .help
  else (f.flags.find? fun g => g.letter = some c).map .flag

/-- The names and what they stand for. -/
def names (f : Form σ τ) : List (Text × Choice σ) :=
  ("help".toList, .help) :: f.flags.map fun g => (g.name, .flag g)

/-- What a name stands for. -/
def byName? (f : Form σ τ) (t : Text) : Option (Choice σ) :=
  (f.names.find? fun n => n.1 = t).map Prod.snd

/-- Whether a text is a negative number: digits of any script, perhaps with a point among them or
before them. A line may end after it. -/
def isNegativeNumber (t : Text) : Bool :=
  let isDigit (c : Char) : Bool := (Text.digitValue? c).isSome
  match t with
  | '-' :: rest =>
    let rest := if rest.getLast? = some '\n' then rest.dropLast else rest
    match rest.dropWhile isDigit with
    | [] => !rest.isEmpty
    | '.' :: fraction => !fraction.isEmpty && fraction.all isDigit
    | _ => false
  | _ => false

/-- What begins with a dash, is no known flag as it stands and starts no name. -/
def other (t : Text) : Item σ :=
  if isNegativeNumber t || t.contains ' ' then .plain t else .unknown t

/-- Tells an argument apart that comes before any `--`. A name cut short has to be unique. -/
def item (f : Form σ τ) (t : Text) : Except Stop (Item σ) :=
  match t with
  | '-' :: '-' :: body =>
    let name := body.takeWhile (· ≠ '=')
    let attached := if name.length < body.length then some (body.drop (name.length + 1)) else none
    match f.byName? name with
    | some c => .ok (c.named attached)
    | none =>
      match f.names.filter fun n => name.isPrefixOf n.1 with
      | [] => .ok (other t)
      | [n] => .ok (n.2.named attached)
      | _ => .error .misuse
  | '-' :: letter :: body =>
    match f.byLetter? letter with
    | none => .ok (other t)
    | some c =>
      match c, body with
      | .help, ['='] => .ok (.help none)
      | .help, '=' :: letters => .ok (.help (some letters))
      | .help, letters => .ok (.help (some letters))
      | .flag g, [] => .ok (.flag g none)
      | .flag g, '=' :: value => .ok (.flag g (some value))
      | .flag g, value => .ok (.flag g (some value))
  | t => .ok (.plain t)

/-- Tells arguments apart. -/
def items (f : Form σ τ) : List Text → Except Stop (List (Item σ))
  | [] => .ok []
  | t :: rest =>
    if t = ['-', '-'] then .ok (.separator :: rest.map .plain)
    else
      match f.item t with
      | .error e => .error e
      | .ok i => (f.items rest).map (i :: ·)

/-- A filled in value, or the report that it is malformed. -/
def filled (r : Option σ) : Except Stop σ :=
  match r with
  | some s => .ok s
  | none => .error .misuse

/-- What follows from the letters after the request for help: help, unless one of them is unknown
or needs a value that does not follow. What stands after the letter of a flag is its value. -/
def afterHelp (f : Form σ τ) (next : List (Item σ)) : Text → Stop
  | [] => .help
  | letter :: rest =>
    match f.byLetter? letter with
    | none => .misuse
    | some .help => f.afterHelp next rest
    | some (.flag _) =>
      match rest, next with
      | _ :: _, _ => .help
      | [], .plain _ :: _ => .help
      | [], _ => .misuse

/-- Goes through the arguments. The operand is `pending` until it has been found; what nothing is
known about is left over, the last one first. -/
def fill (f : Form σ τ) (pending : Bool) (s : σ) (left : List Text) :
    List (Text × Item σ) → Except Stop (σ × List Text)
  | [] => .ok (s, left.reverse)
  | (t, .unknown _) :: rest => f.fill pending s (t :: left) rest
  | (_, .help none) :: _ => .error .misuse
  | (_, .help (some letters)) :: rest => .error (f.afterHelp (rest.map Prod.snd) letters)
  | (_, .flag g (some value)) :: rest => do
    f.fill pending (← filled (g.fill s value)) left rest
  | (_, .flag g none) :: (_, .plain value) :: rest => do
    f.fill pending (← filled (g.fill s value)) left rest
  | (_, .flag _ none) :: _ => .error .misuse
  | (t, .separator) :: rest =>
    match pending, f.operand with
    | true, .single place =>
      match rest with
      | (_, .plain value) :: rest => f.fill false (place s value) left rest
      | rest => f.fill pending s (t :: left) rest
    | true, .rest _ => if rest.isEmpty then .ok (s, (t :: left).reverse) else .error .misuse
    | false, _ => f.fill pending s (t :: left) rest
  | (t, .plain _) :: rest =>
    match pending, f.operand with
    | true, .single place =>
      match rest with
      -- A `--` right after the operand belongs to it.
      | (_, .separator) :: rest => f.fill false (place s t) left rest
      | rest => f.fill false (place s t) left rest
    | true, .rest place => do
      let (s, more) ← place s t (rest.map Prod.fst)
      return (s, left.reverse ++ more)
    | false, _ => f.fill false s (t :: left) rest

/-- Fills in a form, if the arguments do so. Those that nothing is known about are left over. -/
def read (f : Form σ τ) (args : List Text) : Except Stop (τ × List Text) :=
  match f.items args with
  | .error e => .error e
  | .ok is =>
    match f.fill true f.start [] (args.zip is) with
    | .error e => .error e
    | .ok (s, left) =>
      match f.finish s with
      | none => .error .misuse
      | some r => .ok (r, left)

end Form

end Cli

end GrammarInference
