import GrammarInference.Number.Measure
import GrammarInference.Number.Places
import GrammarInference.Tool.Echo
import GrammarInference.Tool.Shell.Arithmetic

/-!
# Formatted printing

The commands of the shell that print their arguments. `echo` reads escapes in its arguments;
`printf` reads them in its format, in which a percent sign and a letter stand for an argument. The
format is used again as long as there are arguments left.

The main statement says that a format without percent signs and escapes is printed as it is.
-/

namespace GrammarInference

namespace Shell

namespace Format

/-! ### Escapes -/

/-- An escape of up to three octal digits, or a letter. -/
def escape (t : Text) : Tool.Echo.Escape :=
  match t with
  | [] => .none
  | c :: rest =>
    match Tool.Echo.letter? c, Tool.Echo.octalValue? c with
    | some l, _ => .char l rest
    | none, some _ =>
      let (n, rest) := Tool.Echo.octal 3 0 (c :: rest)
      .char (Tool.Echo.byte n) rest
    | none, none => if c = 'e' then .char '\x1b' rest else .none

/-- An escape in an argument: as in a format, but a zero stands before octal digits, and there is
one that ends the output. -/
def argumentEscape (t : Text) : Tool.Echo.Escape :=
  match t with
  | 'c' :: _ => .stop
  | '0' :: rest =>
    let (n, rest) := Tool.Echo.octal 3 0 rest
    .char (Tool.Echo.byte n) rest
  | t => escape t

/-- What `echo` prints. -/
def echo (args : List Text) : Text :=
  let (silent, args) := match args with
    | ['-', 'n'] :: rest => (true, rest)
    | args => (false, args)
  let t := Tool.Echo.joined args
  let (t, stop) := Tool.Echo.expand argumentEscape t.length t
  if stop || silent then t else t ++ ['\n']

/-! ### Fields -/

/-- How an argument is laid out. -/
structure Field where
  /-- The flags. -/
  flags : Text := []
  /-- The least number of characters. -/
  width : Nat := 0
  /-- The greatest number of characters, or the number of digits, if there is one. -/
  limit : Option Nat := none

namespace Field

/-- Whether a flag is set. -/
def has (f : Field) (flag : Char) : Bool := f.flags.contains flag

/-- The blanks or zeros that a text of a given length lacks. -/
def filler (f : Field) (filling : Char) (length : Nat) : Text :=
  List.replicate (f.width - length) filling

/-- Fills a text up with blanks. -/
def fill (f : Field) (t : Text) : Text :=
  if f.has '-' then t ++ f.filler ' ' t.length else f.filler ' ' t.length ++ t

/-- Fills a number up: with zeros between its sign and its digits if that is asked for. -/
def fillNumber (f : Field) (zeros : Bool) (sign digits : Text) : Text :=
  if zeros && f.has '0' && !f.has '-' then
    sign ++ f.filler '0' (sign.length + digits.length) ++ digits
  else f.fill (sign ++ digits)

/-- The sign that a number is written with. -/
def sign (f : Field) (negative : Bool) : Text :=
  if negative then ['-'] else if f.has '+' then ['+'] else if f.has ' ' then [' '] else []

/-- Digits with as many zeros in front as the field asks for. Zero needs no digits if none are
asked for. -/
def digits (f : Field) (base n : Nat) : Text :=
  let ds := if n = 0 ∧ f.limit = some 0 then [] else Nat.toDigits base n
  List.replicate (f.limit.getD 0 - ds.length) '0' ++ ds

/-- A whole number. -/
def signed (f : Field) (n : Int) : Text :=
  f.fillNumber f.limit.isNone (f.sign (n < 0)) (f.digits 10 n.natAbs)

/-- A whole number that is not negative, in a base. -/
def unsigned (f : Field) (letter : Char) (n : Nat) : Text :=
  let base := if letter = 'u' then 10 else if letter = 'o' then 8 else 16
  let ds := f.digits base n
  let marked := f.has '#'
  let ds := if marked && letter = 'o' && ds.head? ≠ some '0' then '0' :: ds else ds
  let mark := if marked && base = 16 && n ≠ 0 then ['0', 'x'] else []
  let t := f.fillNumber f.limit.isNone mark ds
  if letter = 'X' then t.map Char.toUpper else t

/-- A floating-point number. -/
def real (f : Field) (letter : Char) (x : Float) : Text :=
  let (negative, size) := Number.magnitude x
  let sign := f.sign negative
  let places := f.limit.getD 6
  let marked := f.has '#'
  let t := match size with
    | .infinite => f.fill (sign ++ "inf".toList)
    | .undefined => f.fill (sign ++ "nan".toList)
    | .finite num den =>
      f.fillNumber true sign (
        if letter.toLower = 'f' then Number.Places.fixed places marked num den
        else if letter.toLower = 'e' then
          let (n, e) := Number.Places.scientific places num den
          Number.Places.withExponent places n e marked
        else Number.Places.general places marked num den)
  if letter.isUpper then t.map Char.toUpper else t

/-- A text, cut at the limit. -/
def text (f : Field) (t : Text) : Text :=
  f.fill (match f.limit with
    | some n => t.take n
    | none => t)

end Field

/-! ### Printing -/

/-- What has been printed. -/
structure Printing where
  /-- The text, the last piece first. -/
  pieces : List Text := []
  /-- The complaints about arguments, the last one first. -/
  complaints : List Text := []
  /-- The arguments that are left. -/
  arguments : List Text

/-- Why printing ends before the format does. -/
inductive Halt
  /-- An argument says so. -/
  | asked
  /-- The format is wrong. -/
  | wrong (complaint : Text)

namespace Printing

/-- Adds text to what has been printed. -/
def add (p : Printing) (t : Text) : Printing := { p with pieces := t :: p.pieces }

/-- The next argument, if one is left. -/
def next (p : Printing) : Option Text × Printing :=
  (p.arguments.head?, { p with arguments := p.arguments.tail })

/-- Adds a complaint about an argument. -/
def complain (p : Printing) (argument : Text) (wording : String) : Printing :=
  { p with complaints := (argument ++ ": ".toList ++ wording.toList) :: p.complaints }

/-- The complaint about an argument of which something is left after its number. -/
def checkRest (p : Printing) (argument rest : Text) : Printing :=
  if rest.isEmpty then p
  else if rest.length = argument.length then p.complain argument "expected numeric value"
  else p.complain argument "not completely converted"

/-- The code of the character after a quote at the start of an argument. -/
def quotedCode? (t : Text) : Option Nat :=
  match t with
  | q :: rest => if q = '\'' ∨ q = '"' then some (rest.head?.elim 0 Char.toNat) else none
  | [] => none

/-- The number that the next argument denotes, between two bounds. -/
def whole (least greatest : Int) (p : Printing) : Int × Printing :=
  match p.next with
  | (none, p) => (0, p)
  | (some t, p) =>
    match quotedCode? t with
    | some n => (n, p)
    | none =>
      match Arithmetic.signedAt? t with
      | none => (0, p.checkRest t t)
      | some (n, rest) =>
        -- A negative number stands for one beyond the bound if there are none below zero.
        let low := if least = 0 then -greatest else least
        let v := max low (min greatest n)
        let v := if least = 0 && v < 0 then v + greatest + 1 else v
        if !rest.isEmpty then (v, p.checkRest t rest)
        else if n < low ∨ greatest < n then
          (if least = 0 && n < 0 then greatest else v,
            p.complain t "Numerical result out of range")
        else (v, p)

/-- The next argument as a number with a sign. -/
def signed (p : Printing) : Int × Printing := p.whole Arithmetic.least Arithmetic.greatest

/-- The next argument as a number without a sign. -/
def unsigned (p : Printing) : Int × Printing := p.whole 0 (2 * Arithmetic.greatest + 1)

/-- The next argument as a floating-point number. -/
def real (p : Printing) : Float × Printing :=
  match p.next with
  | (none, p) => (0, p)
  | (some t, p) =>
    match quotedCode? t with
    | some n => (n.toFloat, p)
    | none =>
      let (negative, digits) := Number.takeSign (t.dropWhile Arithmetic.isSpace)
      match Number.Measure.number? digits with
      | some (x, rest) => (if negative then -x else x, p.checkRest t rest)
      | none => (0, p.checkRest t t)

/-- A number of characters in a format, or the next argument in place of an asterisk. -/
def count (p : Printing) (t : Text) : Option Int × Text × Printing :=
  match t with
  | '*' :: rest =>
    let (n, p) := p.signed
    (some n, rest, p)
  | t =>
    let ds := t.takeWhile Char.isDigit
    (if ds.isEmpty then none else some (Number.ofDigits ds), t.drop ds.length, p)

/-- The description of a field after a percent sign, and what follows. -/
def field (p : Printing) (t : Text) : Field × Text × Printing :=
  let flags := t.takeWhile fun c => c ∈ "#-+ 0".toList
  let (width, t, p) := p.count (t.drop flags.length)
  let width := width.getD 0
  let flags := if width < 0 then '-' :: flags else flags
  match t with
  | '.' :: rest =>
    let (limit, t, p) := p.count rest
    let limit := limit.getD 0
    (⟨flags, width.natAbs, if limit < 0 then none else some limit.toNat⟩, t, p)
  | t => (⟨flags, width.natAbs, none⟩, t, p)

/-- Prints an argument by the letter of its conversion. -/
def convert (p : Printing) (f : Field) (letter : Char) (directive : Text) :
    Printing × Option Halt :=
  if letter = 's' then
    let (a, p) := p.next
    (p.add (f.text (a.getD [])), none)
  else if letter = 'b' then
    let (a, p) := p.next
    let a := a.getD []
    let (t, stop) := Tool.Echo.expand argumentEscape a.length a
    (p.add (f.text t), if stop then some .asked else none)
  else if letter = 'c' then
    let (a, p) := p.next
    (p.add (f.fill [(a.getD []).head?.getD '\x00']), none)
  else if letter = 'd' ∨ letter = 'i' then
    let (n, p) := p.signed
    (p.add (f.signed n), none)
  else if letter ∈ "uoxX".toList then
    let (n, p) := p.unsigned
    (p.add (f.unsigned letter n.toNat), none)
  else if letter ∈ "eEfFgG".toList then
    let (x, p) := p.real
    (p.add (f.real letter x), none)
  else (p, some (.wrong (directive ++ ": invalid directive".toList)))

/-- Goes through a format once. Every step uses up at least one character. -/
def once : Nat → Text → Printing → Printing × Option Halt
  | 0, _, p => (p, none)
  | _ + 1, [], p => (p, none)
  | fuel + 1, '%' :: '%' :: rest, p => once fuel rest (p.add ['%'])
  | fuel + 1, '%' :: rest, p =>
    match p.field rest with
    | (_, [], p) => (p, some (.wrong "missing format character".toList))
    | (f, letter :: more, p) =>
      match p.convert f letter ('%' :: rest.take (rest.length - more.length)) with
      | (p, some halt) => (p, some halt)
      | (p, none) => once fuel more p
  | fuel + 1, '\\' :: rest, p =>
    match escape rest with
    | .char d rest => once fuel rest (p.add [d])
    | _ =>
      match rest with
      | '"' :: rest => once fuel rest (p.add ['"'])
      | rest => once fuel rest (p.add ['\\'])
  | fuel + 1, c :: rest, p => once fuel rest (p.add [c])

/-- Goes through a format again and again until no arguments are left. -/
def repeated (format : Text) : Nat → Printing → Printing × Option Halt
  | 0, p => (p, none)
  | fuel + 1, p =>
    match once format.length format p with
    | (p', none) =>
      if p'.arguments.isEmpty || p'.arguments.length = p.arguments.length then (p', none)
      else repeated format fuel p'
    | r => r

/-- A format without percent signs and backslashes is printed as it is. -/
theorem once_of_plain (p : Printing) {format : Text} (h : ∀ c ∈ format, c ≠ '%' ∧ c ≠ '\\') :
    ∀ {fuel}, format.length ≤ fuel → once fuel format p
      = ({ p with pieces := (format.map fun c => [c]).reverse ++ p.pieces }, none) := by
  induction format generalizing p with
  | nil => intro fuel _; cases fuel <;> simp [once]
  | cons c rest ih =>
    intro fuel hf
    cases fuel with
    | zero => simp at hf
    | succ fuel =>
      have hc := h c (by simp)
      rw [once]
      · rw [ih _ (fun d hd => h d (List.mem_cons_of_mem _ hd)) (by simpa using hf)]
        simp [add]
      all_goals simp_all

end Printing

/-- What a command prints, what it complains about, and its status. -/
structure Printed where
  /-- The text. -/
  text : Text
  /-- The complaints. -/
  complaints : List Text
  /-- The exit status. -/
  status : Nat

/-- What `printf` prints. -/
def printf (format : Text) (args : List Text) : Printed :=
  let (p, halt) := Printing.repeated format (args.length + 1) { arguments := args }
  let text := p.pieces.reverse.flatten
  match halt with
  | some (.wrong complaint) => ⟨text, (complaint :: p.complaints).reverse, 2⟩
  | _ => ⟨text, p.complaints.reverse, if p.complaints.isEmpty then 0 else 1⟩

end Format

end Shell

end GrammarInference
