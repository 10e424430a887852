import GrammarInference.Number.Numeral
import GrammarInference.Tool.Options
import GrammarInference.Tool.Regex.Reader
import GrammarInference.Tool.Regex.Rich

/-!
# Searching lines

The tool `grep` selects the lines of its input that a pattern matches. The exit status is 0 if a
line was selected, 1 if none was, and 2 if the pattern or an option is wrong or a file is missing.

Input is taken as UTF-8. Null bytes end lines, and input with them is searched but not printed; nor
are lines that are no UTF-8.
-/

namespace GrammarInference

namespace Tool

namespace Grep

/-! ### Options -/

/-- How patterns are read. -/
inductive Reading
  /-- As regular expressions. -/
  | regex (style : Regex.Style)
  /-- As rich regular expressions. -/
  | rich
  /-- As they stand. -/
  | fixed
  deriving Repr, DecidableEq

/-- What is done with a directory. -/
inductive Directories
  /-- It cannot be read. -/
  | read
  /-- It is left out. -/
  | skip
  /-- The files in it are searched. -/
  | descend
  deriving Repr, DecidableEq

/-- An option of `grep`. -/
inductive Key
  /-- A digit of the number of lines around a selected line. -/
  | digit (c : Char)
  /-- How patterns are read. -/
  | reading (r : Reading)
  /-- How patterns are read, by name. -/
  | readingNamed
  /-- A pattern. -/
  | pattern
  /-- A file of patterns. -/
  | patternFile
  /-- Whether case is ignored. -/
  | ignoreCase (on : Bool)
  /-- Selects the other lines. -/
  | invert
  /-- The whole line has to match. -/
  | wholeLine
  /-- Whole words have to match. -/
  | wholeWord
  /-- Prints the number of lines. -/
  | count
  /-- Prints nothing. -/
  | quiet
  /-- Leaves out complaints about files. -/
  | noMessages
  /-- Prints the matching parts. -/
  | onlyMatching
  /-- Numbers the lines. -/
  | number
  /-- Prints how many bytes come before. -/
  | offset
  /-- Prints the names of files with selected lines, or of the others. -/
  | names (wanted : Bool)
  /-- Whether lines are printed with the name of their file. -/
  | named (on : Bool)
  /-- The name of the standard input. -/
  | label
  /-- Ends names with a null byte. -/
  | nullNames
  /-- Lines end with a null byte. -/
  | nullLines
  /-- Aligns lines with a tabulator. -/
  | tabs
  /-- Takes all input for text. -/
  | allText
  /-- Leaves out input with null bytes. -/
  | skipBinary
  /-- What is done with input that has null bytes. -/
  | binary
  /-- The number of lines after which a file is left. -/
  | most
  /-- The number of lines after a selected line. -/
  | after
  /-- The number of lines before a selected line. -/
  | before
  /-- The number of lines around a selected line. -/
  | around
  /-- What stands between groups of lines. -/
  | separator
  /-- Nothing stands between groups of lines. -/
  | noSeparator
  /-- What is done with directories. -/
  | directories
  /-- Searches the files in directories. -/
  | descend
  /-- What is done with devices. -/
  | devices
  /-- Marks what matches. -/
  | color
  /-- A file of patterns for names. -/
  | nameFile
  /-- Nothing. -/
  | ignored
  /-- Explains the options. -/
  | help
  deriving Repr, DecidableEq

/-- The options of `grep`. -/
def table : OptionTable Key where
  letters := "0123456789".toList.map (fun c => (c, Key.digit c, Takes.nothing)) ++
    [('A', .after, .value), ('B', .before, .value), ('C', .around, .value),
      ('D', .devices, .value), ('E', .reading (.regex .extended), .nothing),
      ('F', .reading .fixed, .nothing), ('G', .reading (.regex .basic), .nothing),
      ('H', .named true, .nothing), ('I', .skipBinary, .nothing), ('L', .names false, .nothing),
      ('P', .reading .rich, .nothing), ('T', .tabs, .nothing), ('U', .ignored, .nothing),
      ('V', .help, .nothing), ('X', .readingNamed, .value), ('Z', .nullNames, .nothing),
      ('a', .allText, .nothing), ('b', .offset, .nothing), ('c', .count, .nothing),
      ('d', .directories, .value), ('e', .pattern, .value), ('f', .patternFile, .value),
      ('h', .named false, .nothing), ('i', .ignoreCase true, .nothing),
      ('l', .names true, .nothing), ('m', .most, .value), ('n', .number, .nothing),
      ('o', .onlyMatching, .nothing), ('q', .quiet, .nothing), ('r', .descend, .nothing),
      ('R', .descend, .nothing), ('s', .noMessages, .nothing), ('u', .ignored, .nothing),
      ('v', .invert, .nothing), ('w', .wholeWord, .nothing), ('x', .wholeLine, .nothing),
      ('y', .ignoreCase true, .nothing), ('z', .nullLines, .nothing)]
  names :=
    [("basic-regexp".toList, .reading (.regex .basic), .nothing),
      ("extended-regexp".toList, .reading (.regex .extended), .nothing),
      ("fixed-regexp".toList, .reading .fixed, .nothing),
      ("fixed-strings".toList, .reading .fixed, .nothing),
      ("perl-regexp".toList, .reading .rich, .nothing),
      ("after-context".toList, .after, .value), ("before-context".toList, .before, .value),
      ("binary-files".toList, .binary, .value), ("binary".toList, .ignored, .nothing),
      ("byte-offset".toList, .offset, .nothing), ("context".toList, .around, .value),
      ("color".toList, .color, .perhaps), ("colour".toList, .color, .perhaps),
      ("count".toList, .count, .nothing), ("devices".toList, .devices, .value),
      ("directories".toList, .directories, .value), ("exclude".toList, .ignored, .value),
      ("exclude-from".toList, .nameFile, .value), ("exclude-dir".toList, .ignored, .value),
      ("file".toList, .patternFile, .value), ("files-with-matches".toList, .names true, .nothing),
      ("files-without-match".toList, .names false, .nothing),
      ("group-separator".toList, .separator, .value), ("help".toList, .help, .nothing),
      ("include".toList, .ignored, .value), ("ignore-case".toList, .ignoreCase true, .nothing),
      ("no-ignore-case".toList, .ignoreCase false, .nothing),
      ("initial-tab".toList, .tabs, .nothing), ("label".toList, .label, .value),
      ("line-buffered".toList, .ignored, .nothing), ("line-number".toList, .number, .nothing),
      ("line-regexp".toList, .wholeLine, .nothing), ("max-count".toList, .most, .value),
      ("no-filename".toList, .named false, .nothing),
      ("no-group-separator".toList, .noSeparator, .nothing),
      ("no-messages".toList, .noMessages, .nothing), ("null".toList, .nullNames, .nothing),
      ("null-data".toList, .nullLines, .nothing),
      ("only-matching".toList, .onlyMatching, .nothing), ("quiet".toList, .quiet, .nothing),
      ("recursive".toList, .descend, .nothing),
      ("dereference-recursive".toList, .descend, .nothing), ("regexp".toList, .pattern, .value),
      ("invert-match".toList, .invert, .nothing), ("silent".toList, .quiet, .nothing),
      ("text".toList, .allText, .nothing), ("unix-byte-offsets".toList, .ignored, .nothing),
      ("version".toList, .help, .nothing), ("with-filename".toList, .named true, .nothing),
      ("word-regexp".toList, .wholeWord, .nothing)]
  border := some .ignored

/-- What the options ask for. -/
structure Settings where
  /-- How patterns are read, if an option says so. -/
  reading : Option Reading := none
  /-- The patterns given by options, each with a line end. -/
  patterns : Option Text := none
  /-- Whether the standard input was read for patterns. -/
  inputUsed : Bool := false
  /-- Whether case is ignored. -/
  ignoreCase : Bool := false
  /-- Whether the other lines are selected. -/
  invert : Bool := false
  /-- Whether the whole line has to match. -/
  wholeLine : Bool := false
  /-- Whether whole words have to match. -/
  wholeWord : Bool := false
  /-- Whether only the number of lines is printed. -/
  count : Bool := false
  /-- Whether nothing is printed. -/
  quiet : Bool := false
  /-- Whether only the matching parts are printed. -/
  onlyMatching : Bool := false
  /-- Whether lines are numbered. -/
  numbered : Bool := false
  /-- Whether lines are printed with the number of bytes before them. -/
  offsets : Bool := false
  /-- Whether only the names of files with selected lines are printed, or only those of the
  others. -/
  names : Option Bool := none
  /-- Whether lines are printed with the name of their file. -/
  withName : Option Bool := none
  /-- The name of the standard input. -/
  label : Text := "(standard input)".toList
  /-- Whether names end with a null byte. -/
  nullNames : Bool := false
  /-- What ends a line. -/
  lineEnd : Char := '\n'
  /-- Whether lines are aligned with a tabulator. -/
  tabs : Bool := false
  /-- Whether all input is taken for text. -/
  allText : Bool := false
  /-- Whether input with null bytes is left out. -/
  skipBinary : Bool := false
  /-- The number of lines after which a file is left. -/
  most : Option Nat := none
  /-- The number of lines after a selected line. -/
  after : Option Nat := none
  /-- The number of lines before a selected line. -/
  before : Option Nat := none
  /-- The number of lines around a selected line where nothing else is said. -/
  around : Option Nat := none
  /-- What stands between groups of lines. -/
  separator : Option Text := some ['-', '-']
  /-- What is done with directories. -/
  directories : Directories := .read
  /-- Whether what matches is marked. -/
  color : Bool := false
  /-- Whether complaints about files are left out. -/
  silent : Bool := false
  /-- Whether the options are to be explained. -/
  help : Bool := false

/-- A whole number as options have it: blanks, a sign and digits. -/
def readCount? (t : Text) : Option Int :=
  let t := t.dropWhile fun c => c = ' ' || ('\t' ≤ c && c ≤ '\r')
  let digits (t : Text) : Option Nat :=
    if t.isEmpty || !t.all Char.isDigit then none else some (Number.ofDigits t)
  match t with
  | '-' :: t => (digits t).map fun n => -(n : Int)
  | '+' :: t => (digits t).map Int.ofNat
  | t => (digits t).map Int.ofNat

/-- A number of lines; wrong ones end with status 2. -/
def readContext (t : Text) : Except Int Nat :=
  match readCount? t with
  | some n => if n < 0 then .error 2 else .ok n.toNat
  | none => .error 2

/-- The ways of reading patterns by name. -/
def readings : List (Text × Reading) :=
  [("grep".toList, .regex .basic), ("egrep".toList, .regex .extended), ("fgrep".toList, .fixed),
    ("awk".toList, .regex .extended), ("gawk".toList, .regex .extended),
    ("posixawk".toList, .regex .extended), ("perl".toList, .rich)]

/-- What is done with directories, by name. -/
def directoriesNamed : List (Text × Directories) :=
  [("read".toList, .read), ("recurse".toList, .descend), ("skip".toList, .skip)]

/-- The settings after an option that says how patterns are read; two of them have to agree. -/
def Settings.choose (s : Settings) (r : Reading) : Except Int Settings :=
  if s.reading.any (· ≠ r) then .error 2 else .ok { s with reading := some r }

/-- The settings with more patterns. -/
def Settings.withPatterns (s : Settings) (t : Text) : Settings :=
  { s with patterns := some (s.patterns.getD [] ++ t) }

/-- The settings with the patterns of a file. -/
def Settings.withPatternFile (s : Settings) (around : Surroundings) (name : Text) :
    Except Int Settings :=
  let closed (t : Text) : Text := if t.getLast?.all (· = '\n') then t else t ++ ['\n']
  if name = ['-'] then
    .ok { s.withPatterns (closed (if s.inputUsed then [] else around.input)) with
      inputUsed := true }
  else match around.contentOf? name with
    | some t => .ok (s.withPatterns (closed t))
    | none => .error 2

/-- The settings after an option; a wrong value ends with a status. -/
def Settings.apply (s : Settings) (around : Surroundings) (key : Key) (value : Option Text) :
    Except Int Settings :=
  let t := value.getD []
  match key with
  | .digit _ => .ok s
  | .reading r => s.choose r
  | .readingNamed =>
    match readings.lookup t with
    | some r => s.choose r
    | none => .error 2
  | .pattern => .ok (s.withPatterns (t ++ ['\n']))
  | .patternFile => s.withPatternFile around t
  | .ignoreCase on => .ok { s with ignoreCase := on }
  | .invert => .ok { s with invert := true }
  | .wholeLine => .ok { s with wholeLine := true }
  | .wholeWord => .ok { s with wholeWord := true }
  | .count => .ok { s with count := true }
  | .quiet => .ok { s with quiet := true }
  | .noMessages => .ok { s with silent := true }
  | .onlyMatching => .ok { s with onlyMatching := true }
  | .number => .ok { s with numbered := true }
  | .offset => .ok { s with offsets := true }
  | .names wanted => .ok { s with names := some wanted }
  | .named on => .ok { s with withName := some on }
  | .label => .ok { s with label := t }
  | .nullNames => .ok { s with nullNames := true }
  | .nullLines => .ok { s with lineEnd := '\x00' }
  | .tabs => .ok { s with tabs := true }
  | .allText => .ok { s with allText := true, skipBinary := false }
  | .skipBinary => .ok { s with allText := false, skipBinary := true }
  | .binary =>
    if t = "binary".toList then .ok { s with allText := false, skipBinary := false }
    else if t = "text".toList then .ok { s with allText := true, skipBinary := false }
    else if t = "without-match".toList then .ok { s with allText := false, skipBinary := true }
    else .error 2
  | .most =>
    match readCount? t with
    | some n => .ok { s with most := if n < 0 then none else some n.toNat }
    | none => .error 2
  | .after => (readContext t).map fun n => { s with after := some n }
  | .before => (readContext t).map fun n => { s with before := some n }
  | .around => (readContext t).map fun n => { s with around := some n }
  | .separator => .ok { s with separator := some t }
  | .noSeparator => .ok { s with separator := none }
  | .directories =>
    match directoriesNamed.filter fun d => t.isPrefixOf d.1 with
    | [d] => .ok { s with directories := d.2 }
    | _ => .error 1
  | .descend => .ok { s with directories := .descend }
  | .devices => if t = "read".toList ∨ t = "skip".toList then .ok s else .error 2
  | .color =>
    match value with
    | none => .ok { s with color := false }
    | some t =>
      if t ∈ ["always".toList, "yes".toList, "force".toList] then .ok { s with color := true }
      else if t ∈ ["never".toList, "no".toList, "none".toList, "auto".toList, "tty".toList,
          "if-tty".toList] then .ok { s with color := false }
      else .ok { s with help := true }
  | .nameFile => if (around.contentOf? t).isSome || t = ['-'] then .ok s else .error 2
  | .ignored => .ok s
  | .help => .ok { s with help := true }

/-- The settings after some options. Digits that follow each other make one number. -/
def Settings.applyAll (s : Settings) (around : Surroundings) (digits : Text) :
    List (Key × Option Text) → Except Int Settings
  | [] => .ok s
  | (.digit c, _) :: rest =>
    let digits := digits ++ [c]
    { s with around := some (Number.ofDigits digits) }.applyAll around digits rest
  | (key, value) :: rest =>
    match s.apply around key value with
    | .ok s => s.applyAll around [] rest
    | .error status => .error status

/-! ### Matching -/

/-- What is searched for. -/
structure Search where
  /-- The expressions. -/
  patterns : List Regex
  /-- Whether the first possibility counts, and not the longest. -/
  inOrder : Bool
  /-- Whether the whole line has to match. -/
  wholeLine : Bool
  /-- Whether whole words have to match. -/
  wholeWord : Bool
  /-- Whether the empty text is looked for inside the bytes of a character, too. -/
  emptyInside : Bool

/-- The expression that a pattern stands for. -/
def compile? (s : Settings) (pattern : Text) : Option Regex :=
  let t := gathered pattern
  match s.reading.getD (.regex .basic) with
  | .fixed => some (Regex.text s.ignoreCase t)
  | .regex style => Regex.read style s.ignoreCase t
  | .rich => do
    let r ← Regex.Rich.read { fold := s.ignoreCase } t
    let edge (place : Regex.Place) (r : Regex) : Regex := .seq r (.here place)
    let noWord (r : Regex) : Regex := .look false (.seq r (.set false false Regex.plainWordItems))
    some (if s.wholeLine then edge .lineEnd (.seq (.here .lineStart) r)
      else if s.wholeWord then .seq (.seq (noWord (.back 1)) r) (noWord .empty)
      else r)

/-- The characters that mean something after a backslash. -/
def escapedMeanings : Text := "BWSswb<>'\x60123456789".toList

/-- The text that a pattern finds if all that it has are characters that stand for themselves. In the
last one of several patterns a backslash at the end does so. -/
def plain? (style : Regex.Style) (fold isLast : Bool) : Text → Option Text
  | [] => some []
  | ['\\'] => if isLast then some ['\\'] else none
  | '\\' :: c :: rest =>
    if escapedMeanings.contains c || (style = .basic && "()+?\x7b|".toList.contains c)
        || (fold && hasWideCase c) then none
    else (plain? style fold isLast rest).map (c :: ·)
  | c :: rest =>
    if "$*.[^".toList.contains c || (style ≠ .basic && "(+?\x7b|".toList.contains c)
        || (fold && hasWideCase c) then none
    else (plain? style fold isLast rest).map (c :: ·)
where
  /-- Whether a case of a character lies outside of ASCII. -/
  hasWideCase (c : Char) : Bool :=
    if c.toNat < 128 then "iIsS".toList.contains c
    else (Regex.Item.cases c).any fun d => d ≠ c

/-- The texts that several patterns find if none of them has special characters. -/
def plainTexts? (s : Settings) (patterns : List Text) : Option (List Text) :=
  match s.reading.getD (.regex .basic) with
  | .regex style =>
    let count := patterns.length
    if count < 2 then none
    else (patterns.mapIdx fun n t => plain? style s.ignoreCase (n + 1 = count) (gathered t)).mapM id
  | _ => none

/-- What is searched for by some patterns, if they are correct. -/
def search? (s : Settings) (patterns : List Text) : Option Search :=
  let inOrder := s.reading = some .rich
  if inOrder && 1 < patterns.length then none
  else
    let compiled := match plainTexts? s patterns with
      | some ts => some (ts.map (Regex.text s.ignoreCase))
      | none => patterns.mapM (compile? s)
    compiled.map fun rs => ⟨rs, inOrder, s.wholeLine, s.wholeWord, !s.ignoreCase⟩

/-- The characters of a line; a byte that belongs to none is left open. -/
def glyphs : Nat → Bytes → List (Option Char)
  | 0, _ => []
  | _ + 1, [] => []
  | fuel + 1, first :: rest =>
    match Encoding.step first rest with
    | .defect _ size => none :: glyphs fuel (rest.drop (size - 1))
    | .char c size => some c :: glyphs fuel (rest.drop (size - 1))

/-- A line in bytes as a line of characters. -/
def lineOf (t : Text) : Regex.Line :=
  (glyphs t.length (toBytes t)).toArray

/-- Whether the empty text inside the bytes of a character counts as a word of its own. -/
def isInsideWide (g : Search) (chars : Regex.Line) (position : Nat) : Bool :=
  g.emptyInside && match chars[position]? with
    | some (some c) => 128 ≤ c.toNat
    | _ => false

/-- The part of a line that matches from a position on. -/
def Search.from? (g : Search) (line : Regex.Line) (start : Nat) : Option (Nat × Nat) :=
  let states := g.patterns.flatMap fun r => Regex.endsFrom r line start
  if g.inOrder then states.head?.map fun s => (s.marked.getD start, s.position)
  else
    let stops := states.map Regex.State.position
    -- The empty text is no word where a longer one matches.
    let filled := stops.any (start < ·)
    let suitable := stops.filter fun stop =>
      if g.wholeLine then start = 0 && stop = line.size
      else !g.wholeWord || (!Regex.isWordAt line stop && !(filled && stop = start)
        && (!Regex.isWordBefore line start || (start = stop && isInsideWide g line start)))
    suitable.max?.map fun stop => (start, stop)

/-- Whether some part of a line matches. -/
def Search.finds (g : Search) (line : Regex.Line) : Bool :=
  if g.wholeLine then (g.from? line 0).isSome
  else if g.wholeWord && !g.inOrder then
    (List.range (line.size + 1)).any fun start => (g.from? line start).isSome
  else g.patterns.any fun r => r.occursIn line

/-- The parts of a line that match and are not empty, from left to right. -/
def Search.parts (g : Search) (line : Regex.Line) : Nat → Nat → List (Nat × Nat)
  | 0, _ => []
  | fuel + 1, start =>
    if line.size < start then []
    else match g.from? line start with
      | some (first, stop) =>
        if first < stop ∧ start < stop then (first, stop) :: g.parts line fuel stop
        else g.parts line fuel (start + 1)
      | none => g.parts line fuel (start + 1)

/-- The bytes of a part of a line. -/
def bytesOf (line : Regex.Line) (first stop : Nat) : Text :=
  (line.extract first stop).toList.flatMap fun c =>
    match c with
    | some c => spread [c]
    | none => ['\x00']

/-! ### Printing -/

/-- A line of an input. -/
structure Entry where
  /-- Its number. -/
  number : Nat
  /-- The number of bytes before it. -/
  offset : Nat
  /-- Its bytes. -/
  text : Text

/-- A text that is marked with a color, if anything is. -/
def painted (on : Bool) (color t : Text) : Text :=
  if on then "\x1b[".toList ++ color ++ "m\x1b[K".toList ++ t ++ "\x1b[m\x1b[K".toList else t

/-- The color of what matches. -/
def matchColor : Text := "01;31".toList

/-- The name of a file and what follows it. -/
def nameFront (s : Settings) (name : Text) (sep : Char) : Text :=
  painted s.color "35".toList name
    ++ if s.nullNames then ['\x00'] else painted s.color "36".toList [sep]

/-- What is printed before a line or a part of one. -/
def front (s : Settings) (name : Option Text) (number offset : Nat) (sep : Char)
    (isEmpty : Bool) : Text :=
  let counted (on : Bool) (n : Nat) : Text :=
    let digits := Number.decimal n
    let wide := if s.tabs then List.replicate (19 - digits.length) ' ' ++ digits else digits
    if on then painted s.color "32".toList wide ++ painted s.color "36".toList [sep] else []
  let heads := (name.map fun n => nameFront s n sep).getD [] ++ counted s.numbered number
    ++ counted s.offsets offset
  if s.tabs && !heads.isEmpty && !isEmpty then heads ++ ['\t'] else heads

/-- A line with the parts of it that match marked. -/
def marked (g : Search) (t : Text) (line : Regex.Line) : Text :=
  go 0 (g.parts line (2 * line.size + 2) 0)
where
  /-- The rest of the line from a position on. -/
  go (position : Nat) : List (Nat × Nat) → Text
    | [] => t.drop (bytesOf line 0 position).length
    | (first, stop) :: rest =>
      bytesOf line position first ++ painted true matchColor (bytesOf line first stop)
        ++ go stop rest

/-- What is printed of a line, which is a selected one or stands near one; nothing if it is no text
and cannot be printed. -/
def printed (s : Settings) (g : Search) (name : Option Text) (e : Entry) (selected : Bool) :
    Option Text :=
  let line := lineOf e.text
  let sep := if selected then ':' else '-'
  let matching := selected != s.invert
  if s.onlyMatching then
    some (if matching then
      (g.parts line (2 * line.size + 2) 0).flatMap fun (first, stop) =>
        front s name e.number (e.offset + (bytesOf line 0 first).length) sep false
          ++ painted s.color matchColor (bytesOf line first stop) ++ [s.lineEnd]
    else [])
  else if !s.allText && line.contains none then none
  else
    some (front s name e.number e.offset sep e.text.isEmpty
      ++ (if s.color && matching then marked g e.text line else e.text) ++ [s.lineEnd])

/-! ### Files -/

/-- The printing of a file as it goes on. -/
structure Progress where
  /-- The first line after the last printed one, if a line was printed. -/
  next : Option Nat := none
  /-- How many lines are still to be printed after the last selected one. -/
  pending : Nat := 0
  /-- Whether lines of any file were selected for printing. -/
  used : Bool
  /-- What was printed, the last piece first. -/
  output : List Text := []

/-- A way of printing a line: it may be impossible, and a line is selected or not. -/
abbrev Printer := Nat → Bool → Option Text

/-- Prints one line if that is possible. -/
def Progress.print (printer : Printer) (p : Progress) (n : Nat) (selected : Bool) : Progress :=
  match printer n selected with
  | some t => { p with output := t :: p.output, next := some (n + 1) }
  | none => p

/-- Prints the lines that are still to be printed, up to a given one. -/
def Progress.printPending (printer : Printer) (limit : Nat) : Nat → Progress → Progress
  | 0, p => { p with pending := 0 }
  | count + 1, p =>
    let n := p.next.getD 0
    let p := { p with next := some n }
    if n < limit then (p.print printer n false).printPending printer limit count
    else { p with pending := count + 1 }

/-- The number of lines after selected ones, if an option gives it. -/
def Settings.linesAfter (s : Settings) : Option Nat := s.after.or s.around

/-- The number of lines before selected ones, if an option gives it. -/
def Settings.linesBefore (s : Settings) : Option Nat := s.before.or s.around

/-- Prints selected lines that follow each other, with the lines before them. -/
def Progress.printRun (s : Settings) (printer : Printer) (p : Progress) (first count : Nat) :
    Progress :=
  let p := if p.pending = 0 then p else p.printPending printer first p.pending
  let start := max (first - s.linesBefore.getD 0) (min first (p.next.getD 0))
  let apart := p.used && p.next ≠ some start && (s.linesBefore.isSome || s.linesAfter.isSome)
  let p := match s.separator with
    | some t =>
      let line := painted s.color "36".toList t ++ ['\n']
      if apart then { p with output := line :: p.output } else p
    | none => p
  let p := (List.range' start (first - start)).foldl (fun p n => p.print printer n false) p
  let p := (List.range' first count).foldl (fun p n => p.print printer n true) p
  { p with used := true, pending := s.linesAfter.getD 0 }

/-- The numbers that follow each other in a list, as a first number and a count. -/
def runsOf : List Nat → List (Nat × Nat)
  | [] => []
  | n :: rest =>
    match runsOf rest with
    | (m, count) :: more =>
      if m = n + 1 then (n, count + 1) :: more else (n, 1) :: (m, count) :: more
    | [] => [(n, 1)]

/-- The lines of an input, numbered. -/
def entriesOf (lineEnd : Char) (t : Text) : List Entry :=
  let pieces := Text.cutAt lineEnd t
  let pieces := if pieces.getLast? = some [] then pieces.dropLast else pieces
  (pieces.foldl (fun (es, number, offset) piece =>
    (⟨number, offset, piece⟩ :: es, number + 1, offset + piece.length + 1))
    (([] : List Entry), 1, 0)).1.reverse

/-- The places of the selected lines, of which there may be a greatest number. -/
def selectedOf (s : Settings) (g : Search) : Option Nat → Nat → List Entry → List Nat
  | _, _, [] => []
  | some 0, _, _ => []
  | most, n, e :: rest =>
    if g.finds (lineOf e.text) != s.invert then n :: selectedOf s g (most.map (· - 1)) (n + 1) rest
    else selectedOf s g most (n + 1) rest

/-- Searches a file: the number of selected lines, what is printed, and whether lines of any file
were selected for printing. -/
def searchFile (s : Settings) (g : Search) (named used : Bool) (name content : Text) :
    Nat × Text × Bool :=
  let front := if named then nameFront s name ':' else []
  let binary := !s.allText && s.lineEnd = '\n' && content.contains '\x00'
  if binary && s.skipBinary then
    (0, if s.count && s.names.isNone && !s.quiet then front ++ ['0', '\n'] else [], used)
  else
    let content := if binary then content.map fun c => if c = '\x00' then '\n' else c else content
    let entries := entriesOf s.lineEnd content
    let most := if (s.quiet || s.names.isSome) && s.most ≠ some 0 then some 1 else s.most
    let selected := selectedOf s g most 0 entries
    if s.quiet then (selected.length, [], used)
    else match s.names with
      | some wanted =>
        (selected.length, if selected.isEmpty = wanted then []
          else painted s.color "35".toList name ++ [if s.nullNames then '\x00' else '\n'], used)
      | none =>
        if s.count then (selected.length, front ++ Number.decimal selected.length ++ ['\n'], used)
        else if binary then (selected.length, [], used)
        else
          let lines := entries.toArray
          let printer : Printer := fun n selected =>
            (lines[n]?).bind fun e => printed s g (if named then some name else none) e selected
          let runs := if s.invert then runsOf selected else selected.map fun n => (n, 1)
          let p := runs.foldl (fun p (first, count) => p.printRun s printer first count)
            ({ used := used } : Progress)
          let p := p.printPending printer lines.size p.pending
          (selected.length, p.output.reverse.flatten, p.used)

/-- The places of the files below a directory, each with its path from there. Every level uses up a
unit of fuel. -/
def filesBelow (w : Workspace) : Nat → Place → List (Text × Place)
  | 0, _ => []
  | depth + 1, directory =>
    (w.entriesIn directory).flatMap fun name =>
      let p := directory.child name
      if w.holding? p = some .directory then
        (filesBelow w depth p).map fun (path, p) => (name ++ '/' :: path, p)
      else [(name, p)]

/-- A file to search. -/
inductive Source
  /-- A file with its name and content, which may be all of it that can be read. -/
  | file (name content : Text) (complete : Bool)
  /-- A file that cannot be searched. -/
  | missing (name : Text) (wording : String)

/-- The files that an operand names. -/
def sourcesOf (s : Settings) (around : Surroundings) (name : Text) : List Source :=
  let printing := !(s.quiet || s.count || s.names.isSome) && s.most ≠ some 1
  let circular := "input file is also the output"
  if Surroundings.isInput name then
    let shown := if name = ['-'] then s.label else name
    match around.inputFault with
    | some wording => [.missing shown wording]
    | none =>
      if around.isCircular && printing then [.missing shown circular]
      else [.file shown (if s.inputUsed then [] else around.input) true]
  else match around.held? name with
    | some (.file bytes) =>
      if around.isTarget name && printing then [.missing name circular]
      else [.file name (ofBytes bytes) true]
    | some .nullDevice => [.file name [] true]
    | some .directory =>
      match s.directories, around.locate? name with
      | .skip, _ => []
      | .descend, some p =>
        let front := if name.getLast? = some '/' then name else name ++ ['/']
        (filesBelow around.workspace 64 p).map fun (path, p) =>
          .file (front ++ spread path) (ofBytes (around.workspace.contentAt p)) true
      | _, _ => [.file name [] false]
    | none => [.missing name (around.obstacle name)]

/-- The files to search. Without operands that is the standard input, or the directory with all the
files in it. -/
def sources (s : Settings) (around : Surroundings) (operands : List Text) : List Source :=
  if operands.isEmpty then
    if s.directories = .descend then
      (filesBelow around.workspace 64 around.directory).map fun (path, p) =>
        .file (spread path) (ofBytes (around.workspace.contentAt p)) true
    else sourcesOf s around ['-']
  else operands.flatMap (sourcesOf s around)

/-- What searching files leads to. -/
structure Found where
  /-- Whether lines were selected. -/
  hit : Bool := false
  /-- Whether something could not be searched. -/
  missing : Bool := false
  /-- What is printed. -/
  output : Text := []
  /-- The complaints, each with the number of characters before it. -/
  complaints : List (Nat × Text) := []

/-- What was found, after a text in front. -/
def Found.after (f : Found) (t : Text) : Found :=
  { f with
    output := t ++ f.output
    complaints := f.complaints.map fun (n, complaint) => (n + t.length, complaint) }

/-- What was found, after a complaint in front. -/
def Found.withComplaint (f : Found) (s : Settings) (name : Text) (wording : String) : Found :=
  if s.silent then { f with missing := true }
  else
    { f with
      missing := true
      complaints := (0, fileComplaint "grep".toList name wording) :: f.complaints }

/-- Searches files one after another. -/
def searchAll (s : Settings) (g : Search) (named : Bool) : Bool → List Source → Found
  | _, [] => {}
  | used, .missing name wording :: rest =>
    (searchAll s g named used rest).withComplaint s name wording
  | used, .file name content complete :: rest =>
    let (selected, output, used) := searchFile s g named used name content
    if s.quiet && selected ≠ 0 then { hit := true }
    else
      let f := searchAll s g named used rest
      let f := { f with hit := f.hit || selected ≠ 0 }
      let f := f.after output
      if complete then f else f.withComplaint s name "Is a directory"

/-- The different patterns on the lines of a text. -/
def patternsOf (t : Text) : List Text := Text.distinct (Text.cutAt '\n' t)

/-- Searches for patterns in the files that operands name. -/
def run (s : Settings) (around : Surroundings) (patterns operands : List Text) : Result :=
  let idle := s.most = some 0
    || (patterns = [[]] && s.invert && !s.wholeLine && !s.wholeWord)
  if idle && s.names ≠ some false then .quiet 1
  else match search? s patterns with
    | none => .quiet 2
    | some g =>
      let named := s.withName.getD (1 < operands.length || s.directories = .descend)
      let f := searchAll s g named false (sources s around operands)
      { status := if f.hit && (s.quiet || !f.missing) then 0 else if f.missing then 2 else 1
        output := f.output
        complaints := f.complaints
        reads := s.inputUsed || operands.any Surroundings.isInput
          || (operands.isEmpty && s.directories ≠ .descend) }

end Grep

/-- The tool `grep`. -/
def grep : Tool := fun around =>
  let a := Grep.table.read around.arguments
  match Grep.Settings.applyAll {} around [] a.options with
  | .error status => .quiet status
  | .ok s =>
    if a.mistaken then .quiet 2
    else if s.help then .quiet 0
    else match s.patterns, a.operands with
      | some [], operands =>
        -- Without any pattern nothing matches.
        let s := { s with invert := !s.invert, wholeLine := false, wholeWord := false }
        Grep.run { s with reading := none } around [[]] operands
      | some t, operands => Grep.run s around (Grep.patternsOf t.dropLast) operands
      | none, t :: operands => Grep.run s around (Grep.patternsOf t) operands
      | none, [] => .quiet 2

end Tool

end GrammarInference
