import GrammarInference.Tool.Options

/-!
# Joining files

The tool `cat` prints files one after another, and its input where a dash stands. It can number the
lines, join empty ones, and show characters that are otherwise invisible; for these a border between
two files means nothing.

The main statement says that without such options what is printed is what was read.
-/

namespace GrammarInference

namespace Tool

namespace Cat

/-- An option of `cat`. -/
inductive Key
  /-- Shows everything that is invisible. -/
  | showAll
  /-- Numbers the lines that are not empty. -/
  | numberFilled
  /-- Shows the ends of lines and what is invisible apart from tabulators. -/
  | showEnds
  /-- Shows the ends of lines. -/
  | onlyEnds
  /-- Numbers the lines. -/
  | number
  /-- Joins empty lines. -/
  | squeeze
  /-- Shows tabulators and what is invisible. -/
  | showTabs
  /-- Shows tabulators. -/
  | onlyTabs
  /-- Nothing. -/
  | ignored
  /-- Shows what is invisible apart from tabulators and ends of lines. -/
  | showOther
  /-- Explains the options. -/
  | help
  deriving Repr, DecidableEq

/-- The options of `cat`. -/
def table : OptionTable Key where
  letters := [('A', .showAll, .nothing), ('b', .numberFilled, .nothing), ('e', .showEnds, .nothing),
    ('E', .onlyEnds, .nothing), ('n', .number, .nothing), ('s', .squeeze, .nothing),
    ('t', .showTabs, .nothing), ('T', .onlyTabs, .nothing), ('u', .ignored, .nothing),
    ('v', .showOther, .nothing)]
  names := [("show-all".toList, .showAll, .nothing),
    ("number-nonblank".toList, .numberFilled, .nothing),
    ("show-ends".toList, .onlyEnds, .nothing), ("number".toList, .number, .nothing),
    ("squeeze-blank".toList, .squeeze, .nothing), ("show-tabs".toList, .onlyTabs, .nothing),
    ("show-nonprinting".toList, .showOther, .nothing), ("help".toList, .help, .nothing),
    ("version".toList, .help, .nothing)]

/-- How the joined files are printed. -/
structure Style where
  /-- Whether all lines are numbered. -/
  number : Bool
  /-- Whether the lines that are not empty are numbered. -/
  numberFilled : Bool
  /-- Whether empty lines that follow each other become one. -/
  squeeze : Bool
  /-- Whether the ends of lines are shown. -/
  ends : Bool
  /-- Whether tabulators are shown. -/
  tabs : Bool
  /-- Whether other invisible characters are shown. -/
  other : Bool
  deriving Repr, DecidableEq

/-- The style that options ask for. -/
def styleOf (keys : List Key) : Style where
  number := keys.contains .number
  numberFilled := keys.contains .numberFilled
  squeeze := keys.contains .squeeze
  ends := keys.any fun k => k = .showAll || k = .showEnds || k = .onlyEnds
  tabs := keys.any fun k => k = .showAll || k = .showTabs || k = .onlyTabs
  other := keys.any fun k => k = .showAll || k = .showEnds || k = .showTabs || k = .showOther

/-- The style that changes nothing. -/
def Style.isPlain (s : Style) : Bool :=
  !(s.number || s.numberFilled || s.squeeze || s.ends || s.tabs || s.other)

/-- A character of a line as it is shown. -/
def shown (s : Style) (c : Char) : Text :=
  let low (n : Nat) : Text :=
    if n < 32 then ['^', Char.ofNat (n + 64)]
    else if n = 127 then ['^', '?']
    else [Char.ofNat n]
  if c = '\t' then if s.tabs then ['^', 'I'] else [c]
  else if !s.other then [c]
  else if c.toNat < 128 then low c.toNat
  else 'M' :: '-' :: low (c.toNat - 128)

/-- A carriage return at the end of a line is shown when the end is. -/
def shownLine (s : Style) (line : Text) (closed : Bool) : Text :=
  if s.ends && !s.other && closed && line.getLast? = some '\r' then
    line.dropLast.flatMap (shown s) ++ ['^', 'M']
  else line.flatMap (shown s)

/-- The number before a line. -/
def label (n : Nat) : Text :=
  let digits := Number.decimal n
  List.replicate (6 - digits.length) ' ' ++ digits ++ ['\t']

/-- The lines with the number of the next one, and whether the line before was empty. The last line
is open: it has no end. -/
def lines (s : Style) : Nat → Bool → List Text → List Text
  | _, _, [] => []
  | n, afterEmpty, line :: rest =>
    let last := rest.isEmpty
    if last && line.isEmpty then []
    else if s.squeeze && afterEmpty && line.isEmpty then lines s n true rest
    else
      let numbered := if s.numberFilled then !line.isEmpty else s.number
      let text := (if numbered then label n else []) ++ shownLine s line (!last)
        ++ (if last then [] else if s.ends then ['$', '\n'] else ['\n'])
      text :: lines s (if numbered then n + 1 else n) line.isEmpty rest

/-- The joined files as they are printed. -/
def printed (s : Style) (t : Text) : Text :=
  if s.isPlain then t else (lines s 1 false (Text.cutAt '\n' t)).flatten

/-- What becomes of a file that is to be joined. -/
inductive Joined
  /-- Its content. -/
  | content (t : Text)
  /-- It cannot be joined. -/
  | refused (name : Text) (wording : String)

/-- The files one after another. The standard input, which a dash stands for, is used up by the
first one who reads it. A file that is not empty cannot be joined to itself. -/
def contents (around : Surroundings) : Text → List Text → List Joined
  | _, [] => []
  | input, name :: rest =>
    let circular : Joined := .refused name "input file is output file"
    if Surroundings.isInput name then
      (match around.inputFault with
        | some wording => .refused name wording
        | none => if around.isCircular && !input.isEmpty then circular else .content input)
        :: contents around [] rest
    else
      (match around.contentOf? name with
        | some content =>
          if around.isTarget name && !content.isEmpty then circular else .content content
        | none => .refused name (around.obstacle name)) :: contents around input rest

/-- The joined files, and the complaints, each with the number of characters before it. -/
def gather : List Joined → Text × List (Nat × Text)
  | [] => ([], [])
  | .content t :: rest =>
    let (more, complaints) := gather rest
    (t ++ more, complaints.map fun (n, complaint) => (n + t.length, complaint))
  | .refused name wording :: rest =>
    let (t, complaints) := gather rest
    (t, (0, fileComplaint "cat".toList (quotedName name) wording) :: complaints)
where
  /-- The name of a file, in quotes if it is not plain. -/
  quotedName (name : Text) : Text :=
    if !name.isEmpty && name.all fun c => c.isAlphanum || c ∈ "-_./+,@%".toList then name
    else '\'' :: name ++ ['\'']

/-- A plain style leaves what was read as it is. -/
theorem printed_of_isPlain {s : Style} (h : s.isPlain = true) (t : Text) : printed s t = t := by
  simp [printed, h]

end Cat

/-- The tool `cat`. -/
def cat : Tool := fun s =>
  let a := Cat.table.read s.arguments
  let keys := a.options.map Prod.fst
  if keys.contains .help then .quiet 0
  else if a.mistaken then .quiet 1
  else
    let names := if a.operands.isEmpty then [['-']] else a.operands
    let (t, complaints) := Cat.gather (Cat.contents s s.input names)
    let style := Cat.styleOf keys
    { status := if complaints.isEmpty then 0 else 1
      output := Cat.printed style t
      reads := names.any Surroundings.isInput
      complaints := if style.isPlain then complaints
        else complaints.map fun (n, complaint) =>
          ((Cat.printed style (t.take n)).length, complaint) }

end Tool

end GrammarInference
