import GrammarInference.Tool.Basic
import GrammarInference.Text.Hex

/-!
# Printing arguments

The tool `echo` prints its arguments with a space between them and ends the line. A backslash can
introduce a character that is hard to type; which ways of writing there are depends on who reads
them, so that the readers share only the pieces.
-/

namespace GrammarInference

namespace Tool

namespace Echo

/-- The value of an octal digit. -/
def octalValue? (c : Char) : Option Nat :=
  if '0' ≤ c ∧ c ≤ '7' then some (c.toNat - '0'.toNat) else none

/-- The byte with a given number; greater numbers count modulo 256. -/
def byte (n : Nat) : Char := Char.ofNat (n % 256)

/-- The number that at most `count` octal digits at the front denote, after a number already read,
and what follows them. -/
def octal : Nat → Nat → Text → Nat × Text
  | 0, n, t => (n, t)
  | _ + 1, n, [] => (n, [])
  | count + 1, n, c :: rest =>
    match octalValue? c with
    | some d => octal count (8 * n + d) rest
    | none => (n, c :: rest)

/-- The number that one or two hexadecimal digits at the front denote, and what follows them. -/
def hexPair? (t : Text) : Option (Nat × Text) :=
  match t with
  | [] => none
  | c :: rest =>
    match Text.hexValue? c, rest with
    | none, _ => none
    | some a, [] => some (a, [])
    | some a, d :: more =>
      match Text.hexValue? d with
      | some b => some (16 * a + b, more)
      | none => some (a, rest)

/-- The character that a letter after a backslash stands for. -/
def letter? (c : Char) : Option Char :=
  match c with
  | 'a' => some '\x07'
  | 'b' => some '\x08'
  | 'f' => some '\x0c'
  | 'n' => some '\n'
  | 'r' => some '\r'
  | 't' => some '\t'
  | 'v' => some '\x0b'
  | '\\' => some '\\'
  | _ => none

/-- What a backslash leads to. -/
inductive Escape
  /-- A character, and what follows. -/
  | char (c : Char) (rest : Text)
  /-- The end of all output. -/
  | stop
  /-- Nothing: the backslash stands for itself. -/
  | none

/-- The escape at the front of a text after a backslash, as the tool `echo` reads it. -/
def escape (t : Text) : Escape :=
  match t with
  | [] => .none
  | 'c' :: _ => .stop
  | 'e' :: rest => .char '\x1b' rest
  | 'x' :: rest =>
    match hexPair? rest with
    | some (n, rest) => .char (byte n) rest
    | .none => .none
  | '0' :: rest =>
    let (n, rest) := octal 3 0 rest
    .char (byte n) rest
  | c :: rest =>
    match letter? c, octalValue? c with
    | some l, _ => .char l rest
    | _, some _ =>
      let (n, rest) := octal 3 0 (c :: rest)
      .char (byte n) rest
    | _, _ => .none

/-- The text with its escapes replaced, and whether all output ends there. Every step uses up at
least one character. -/
def expand (escape : Text → Escape) : Nat → Text → Text × Bool
  | 0, _ => ([], false)
  | _ + 1, [] => ([], false)
  | fuel + 1, c :: rest =>
    if c = '\\' then
      match escape rest with
      | .char d rest =>
        let (t, stop) := expand escape fuel rest
        (d :: t, stop)
      | .stop => ([], true)
      | .none =>
        let (t, stop) := expand escape fuel rest
        ('\\' :: t, stop)
    else
      let (t, stop) := expand escape fuel rest
      (c :: t, stop)

/-- The arguments with a space between them. -/
def joined (args : List Text) : Text := [' '].intercalate args

/-- Whether an argument is an option: a dash and one or more of the letters `n`, `e` and `E`. -/
def isOption (a : Text) : Bool :=
  match a with
  | '-' :: c :: rest => (c :: rest).all fun c => c = 'n' || c = 'e' || c = 'E'
  | _ => false

/-- Whether escapes are read, after a list of option letters. -/
def readsEscapes (letters : Text) : Bool :=
  ((letters.filter fun c => c = 'e' || c = 'E').getLast?) = some 'e'

end Echo

/-- The tool `echo`. -/
def echo : Tool := fun s =>
  let letters := (s.arguments.takeWhile Echo.isOption).flatMap (·.drop 1)
  let t := Echo.joined (s.arguments.dropWhile Echo.isOption)
  let lineEnd := if letters.contains 'n' then [] else ['\n']
  if Echo.readsEscapes letters then
    let (t, stop) := Echo.expand Echo.escape t.length t
    .printing 0 (if stop then t else t ++ lineEnd)
  else .printing 0 (t ++ lineEnd)

end Tool

end GrammarInference
