import GrammarInference.Number.Numeral
import GrammarInference.Tool.Shell.Script

/-!
# Reading scripts

Scripts are read one line of commands at a time, as the lines before a mistake are still run.
A document that a command reads follows the line of the command; the reader keeps the marks that
end the documents still to come, and collects the documents.

Every reading function takes one unit of fuel to call another one; a reading that needs more fuel
than the script has characters is a mistake in the script.
-/

namespace GrammarInference

namespace Shell

namespace Read

/-- A document that is still to come. -/
structure Waiting where
  /-- The line that ends it. -/
  mark : Text
  /-- Whether tabulators at the start of its lines are left out. -/
  strips : Bool
  /-- Whether it stands for itself, without values in it. -/
  isPlain : Bool

/-- What the reader keeps. -/
structure Source where
  /-- The rest of the script. -/
  rest : Text
  /-- The whole script. -/
  whole : Text
  /-- The number of its first line. -/
  firstLine : Nat := 1
  /-- The documents still to come. -/
  waiting : List Waiting := []
  /-- The documents of the commands read so far. -/
  documents : List Word := []

/-- A step of reading; it fails if the script is wrong. -/
abbrev Reading := StateT Source Option

/-- The number of the line that is being read. -/
def Source.line (s : Source) : Nat :=
  s.firstLine + (s.whole.take (s.whole.length - s.rest.length)).count '\n'

/-- The rest of the script. -/
def rest : Reading Text := do return (← get).rest

/-- Goes on with a given rest. -/
def goOn (t : Text) : Reading Unit := modify fun s => { s with rest := t }

/-! ### Characters -/

/-- Whether a character ends a word outside quotes. -/
def endsWord (c : Char) : Bool := c ∈ " \t\n;&|<>()".toList

/-- The rest of a script after blanks and joined lines. -/
def afterBlanks : Text → Text
  | '\\' :: '\n' :: rest => afterBlanks rest
  | c :: rest => if c = ' ' ∨ c = '\t' then afterBlanks rest else c :: rest
  | [] => []

/-- The rest of a script after blanks and a comment. -/
def afterComment (t : Text) : Text :=
  match afterBlanks t with
  | '#' :: rest => rest.dropWhile (· ≠ '\n')
  | t => t

/-- Skips blanks and a comment. -/
def skipBlanks : Reading Unit := modify fun s => { s with rest := afterComment s.rest }

/-- The word at the front of a script if nothing in it is quoted or replaced. -/
def plainWord (t : Text) : Text :=
  let w := t.takeWhile fun c => !(endsWord c)
  if w.any fun c => c ∈ "'\"\\$\x60".toList then [] else w

/-- The words with a meaning of their own. -/
def keywords : List Text :=
  ["!".toList, "case".toList, "do".toList, "done".toList, "elif".toList, "else".toList,
    "esac".toList, "fi".toList, "for".toList, "if".toList, "in".toList, "then".toList,
    "until".toList, "while".toList, "\x7b".toList, "\x7d".toList]

/-- The words that end a list of commands. -/
def closingWords : List Text :=
  ["then".toList, "else".toList, "elif".toList, "fi".toList, "do".toList, "done".toList,
    "esac".toList, "\x7d".toList]

/-- Whether a list of commands ends here. -/
def endsList (t : Text) : Bool :=
  match t with
  | [] => true
  | ')' :: _ => true
  | ';' :: ';' :: _ => true
  | t => plainWord t ∈ closingWords

/-- Takes a text that has to be there. -/
def expect (t : Text) : Reading Unit := do
  let now ← rest
  if t.isPrefixOf now then goOn (now.drop t.length) else failure

/-- The name of a parameter after a dollar sign. -/
def parameterName (braced : Bool) (t : Text) : Text :=
  match t with
  | [] => []
  | c :: rest =>
    if c.isAlpha ∨ c = '_' then c :: rest.takeWhile fun d => d.isAlphanum || d = '_'
    else if c.isDigit then if braced then t.takeWhile Char.isDigit else [c]
    else if c ∈ "@*#?$!-".toList then [c] else []

/-- How a parameter is used, by what follows its name in braces: the use, whether an empty value
counts as missing, and the rest. -/
def useOf (t : Text) : Use × Bool × Text :=
  let simple (c : Char) : Option Use :=
    match c with
    | '-' => some .standard
    | '=' => some .assign
    | '?' => some .demand
    | '+' => some .alternative
    | _ => none
  match t with
  | '\x7d' :: _ => (.plain, false, t)
  | '#' :: '#' :: rest => (.dropStart true, false, rest)
  | '#' :: rest => (.dropStart false, false, rest)
  | '%' :: '%' :: rest => (.dropEnd true, false, rest)
  | '%' :: rest => (.dropEnd false, false, rest)
  | ':' :: c :: rest =>
    match simple c with
    | some use => (use, true, rest)
    | none => (if c = '\x7d' then .plain else .wrong, true, c :: rest)
  | c :: rest =>
    match simple c with
    | some use => (use, false, rest)
    | none => (.wrong, false, c :: rest)
  | [] => (.wrong, false, [])

/-- The script between two backward quotes, and the rest. -/
def backQuoted (quoted : Bool) : Text → Option (Text × Text)
  | [] => none
  | '\x60' :: rest => some ([], rest)
  | '\\' :: '\n' :: rest => backQuoted quoted rest
  | '\\' :: c :: rest =>
    (backQuoted quoted rest).map fun (t, rest) =>
      (if c ∈ "\x60\\$".toList || (quoted && c = '"') then c :: t else '\\' :: c :: t, rest)
  | c :: rest => (backQuoted quoted rest).map fun (t, rest) => (c :: t, rest)

/-- The name of an assignment at the front of a script, and what follows the equals sign. -/
def assignment? (t : Text) : Option (Text × Text) :=
  let name := t.takeWhile fun c => c.isAlphanum || c = '_'
  match t.drop name.length with
  | '=' :: rest => if isName name then some (name, rest) else none
  | _ => none

/-- The start of a redirection. -/
inductive Turn
  /-- The stream and what is done with it. -/
  | to (stream : Nat) (direction : Direction)
  /-- The stream that a document is read from, and whether tabulators are left out. -/
  | document (stream : Nat) (strips : Bool)

/-- The start of a redirection, and the rest. -/
def turn? (t : Text) : Option (Turn × Text) :=
  let (number, t) : Option Nat × Text :=
    match t with
    | c :: rest =>
      match c.isDigit, rest.head? with
      | true, some '<' => (some (c.toNat - '0'.toNat), rest)
      | true, some '>' => (some (c.toNat - '0'.toNat), rest)
      | _, _ => (none, t)
    | [] => (none, t)
  let input := number.getD 0
  let output := number.getD 1
  match t with
  | '<' :: '<' :: '-' :: rest => some (.document input true, rest)
  | '<' :: '<' :: rest => some (.document input false, rest)
  | '<' :: '&' :: rest => some (.to input .same, rest)
  | '<' :: '>' :: rest => some (.to input .update, rest)
  | '<' :: rest => some (.to input .read, rest)
  | '>' :: '>' :: rest => some (.to output .append, rest)
  | '>' :: '&' :: rest => some (.to output .same, rest)
  | '>' :: '|' :: rest => some (.to output .replace, rest)
  | '>' :: rest => some (.to output .write, rest)
  | _ => none

/-- The word that marks the end of a document, whether some of it is quoted, and the rest. -/
def markOf : Nat → Text → Text × Bool × Text
  | 0, t => ([], false, t)
  | _ + 1, [] => ([], false, [])
  | fuel + 1, c :: rest =>
    let within (quote : Char) : Text × Bool × Text :=
      let inner := rest.takeWhile (· ≠ quote)
      let (w, _, t) := markOf fuel (rest.drop (inner.length + 1))
      (inner ++ w, true, t)
    if endsWord c then ([], false, c :: rest)
    else if c = '\'' then within '\''
    else if c = '"' then within '"'
    else if c = '\\' then
      let (w, _, t) := markOf fuel (rest.drop 1)
      (rest.take 1 ++ w, true, t)
    else
      let (w, quoted, t) := markOf fuel rest
      (c :: w, quoted, t)

/-- Whether the last character of a text is a backslash that is not itself after one. -/
def endsInBackslash (t : Text) : Bool := (t.reverse.takeWhile (· = '\\')).length % 2 = 1

/-- The lines up to a mark, each with its end, and the rest. A line may be the continuation of the
one before it; such a line is no mark. -/
def untilMark (w : Waiting) (continues : Bool) : Nat → Text → Text × Text
  | 0, t => ([], t)
  | _ + 1, [] => ([], [])
  | fuel + 1, t =>
    let t := if w.strips && !continues then t.dropWhile (· = '\t') else t
    let line := t.takeWhile (· ≠ '\n')
    let after := t.drop (line.length + 1)
    if line = w.mark && !continues then ([], after)
    else
      let (more, rest) := untilMark w (!w.isPlain && endsInBackslash line) fuel after
      (line ++ (t.drop line.length).take 1 ++ more, rest)

/-- Puts a part in front of a word; text with the same quoting is joined. -/
def cons (p : Part) (w : Word) : Word :=
  match p, w with
  | .text q t, .text r u :: rest => if q = r then .text q (t ++ u) :: rest else p :: w
  | p, w => p :: w

/-- Puts parts in front of a word. -/
def joined (ps w : Word) : Word := ps.foldr cons w

mutual

/-- A word, up to a character that ends it. -/
def word : Nat → Reading Word
  | 0 => failure
  | fuel + 1 => do
    match ← rest with
    | [] => return []
    | c :: _ =>
      if endsWord c then return []
      else
        let front ← part fuel
        return joined front (← word fuel)

/-- The parts that start with a character outside quotes. -/
def part : Nat → Reading Word
  | 0 => failure
  | fuel + 1 => do
    match ← rest with
    | [] => failure
    | c :: rest =>
      if c = '\'' then
        match rest.dropWhile (· ≠ '\'') with
        | _ :: more =>
          goOn more
          return [.text true (rest.takeWhile (· ≠ '\''))]
        | [] => failure
      else if c = '"' then
        goOn rest
        return cons (Part.text true []) (← quoted fuel)
      else if c = '\\' then
        match rest with
        | '\n' :: rest =>
          goOn rest
          return []
        | d :: rest =>
          goOn rest
          return [.text true [d]]
        | [] =>
          goOn []
          return [.text true ['\\']]
      else if c = '$' then
        goOn rest
        dollar fuel false
      else if c = '\x60' then
        goOn rest
        backward fuel false
      else
        goOn rest
        return [.text false [c]]

/-- The parts up to the closing double quote. -/
def quoted : Nat → Reading Word
  | 0 => failure
  | fuel + 1 => do
    match ← rest with
    | [] => failure
    | c :: more =>
      if c = '"' then
        goOn more
        return []
      else
        let front ← quotedPart fuel ['"']
        return joined front (← quoted fuel)

/-- The parts that start with a character inside double quotes. A backslash before one of some
characters, beside those that always need it, takes their meaning away. -/
def quotedPart : Nat → Text → Reading Word
  | 0, _ => failure
  | fuel + 1, marks => do
    match ← rest with
    | [] => failure
    | c :: rest =>
      if c = '\\' then
        match rest with
        | '\n' :: rest =>
          goOn rest
          return []
        | d :: rest =>
          goOn rest
          if d ∈ "$\x60\\".toList ∨ d ∈ marks then return [.text true [d]]
          else return [.text true ['\\', d]]
        | [] =>
          goOn []
          return [.text true ['\\']]
      else if c = '$' then
        goOn rest
        dollar fuel true
      else if c = '\x60' then
        goOn rest
        backward fuel true
      else
        goOn rest
        return [.text true [c]]

/-- The output of the script between backward quotes. -/
def backward : Nat → Bool → Reading Word
  | 0, _ => failure
  | fuel + 1, isQuoted => do
    match backQuoted isQuoted (← rest) with
    | none => failure
    | some (inner, after) =>
      let outer ← get
      set { outer with rest := inner, whole := inner, firstLine := outer.line, waiting := [],
                       documents := [] }
      let s ← commands fuel
      let inner ← get
      if !inner.rest.isEmpty then failure
      set { outer with rest := after }
      return [.output isQuoted (s.noting inner.documents)]

/-- The part that a dollar sign introduces. -/
def dollar (fuel : Nat) (isQuoted : Bool) : Reading Word :=
  match fuel with
  | 0 => failure
  | fuel + 1 => do
    match ← rest with
    | '(' :: '(' :: more =>
      goOn more
      return [.number isQuoted (← arithmetic fuel 0)]
    | '(' :: more =>
      let outer ← get
      set { outer with rest := more, waiting := [], documents := [] }
      let s ← commands fuel
      expect [')']
      let inner ← get
      set { outer with rest := inner.rest }
      return [.output isQuoted (s.noting inner.documents)]
    | '\x7b' :: more =>
      goOn more
      braces fuel isQuoted
    | t =>
      let name := parameterName false t
      goOn (t.drop name.length)
      return if name.isEmpty then [.text isQuoted ['$']]
        else [.value isQuoted name .plain false []]

/-- A parameter in braces. -/
def braces (fuel : Nat) (isQuoted : Bool) : Reading Word :=
  match fuel with
  | 0 => failure
  | fuel + 1 => do
    let t ← rest
    let counted := match t with
      | '#' :: rest =>
        let name := parameterName true rest
        match name, rest.drop name.length with
        | [], _ => none
        | name, '\x7d' :: rest => some (name, rest)
        | _, _ => none
      | _ => none
    match counted with
    | some (name, rest) =>
      goOn rest
      return [.value isQuoted name .length false []]
    | none =>
      let name := parameterName true t
      -- A length without a parameter that it is the length of.
      let isLone := match t with
        | '#' :: _ :: '\x7d' :: _ => true
        | _ => false
      let (use, orEmpty, rest) :=
        if name.isEmpty || isLone then (.wrong, false, t.drop name.length)
        else useOf (t.drop name.length)
      goOn rest
      let w ← braceWord fuel (isQuoted && !use.isPattern)
      return [.value isQuoted name use orEmpty w]

/-- The word up to a closing brace. -/
def braceWord : Nat → Bool → Reading Word
  | 0, _ => failure
  | fuel + 1, isQuoted => do
    match ← rest with
    | [] => failure
    | c :: more =>
      if c = '\x7d' then
        goOn more
        return []
      else
        let front ← if isQuoted ∧ c ≠ '"' then quotedPart fuel ['"', '\x7d'] else part fuel
        return joined front (← braceWord fuel isQuoted)

/-- An arithmetic expression up to two closing parentheses, inside some open ones. -/
def arithmetic : Nat → Nat → Reading Word
  | 0, _ => failure
  | fuel + 1, depth => do
    match depth, ← rest with
    | _, [] => failure
    | 0, ')' :: ')' :: more =>
      goOn more
      return []
    | depth, c :: _ =>
      let front ← quotedPart fuel ['"']
      let depth := if c = '(' then depth + 1 else if c = ')' then depth - 1 else depth
      return joined front (← arithmetic fuel depth)

/-- The parts of a document, in which double quotes stand for themselves. -/
def document : Nat → Reading Word
  | 0 => failure
  | fuel + 1 => do
    match ← rest with
    | [] => return []
    | _ =>
      let front ← quotedPart fuel []
      return joined front (← document fuel)

/-- Takes the documents that follow a line. -/
def takeDocuments : Nat → Reading Unit
  | 0 => failure
  | fuel + 1 => do
    let s ← get
    match s.waiting with
    | [] => return
    | w :: waiting =>
      let (t, after) := untilMark w false (s.rest.length + 1) s.rest
      if w.isPlain then
        set { s with rest := after, waiting, documents := s.documents ++ [[Part.text true t]] }
      else
        set { s with rest := t, whole := t, firstLine := s.line, waiting := [] }
        let ps ← document fuel
        set { s with rest := after, waiting, documents := s.documents ++ [ps] }
      takeDocuments fuel

/-- Takes a line end, and the documents that follow it. -/
def lineEnd (fuel : Nat) : Reading Unit :=
  match fuel with
  | 0 => failure
  | fuel + 1 => do
    expect ['\n']
    takeDocuments fuel

/-- Skips blanks, comments and line ends. -/
def skipLines : Nat → Reading Unit
  | 0 => failure
  | fuel + 1 => do
    skipBlanks
    if (← rest).head? = some '\n' then
      lineEnd fuel
      skipLines fuel

/-- Takes a word with a meaning of its own, after line ends. -/
def keyword (fuel : Nat) (w : Text) : Reading Unit :=
  match fuel with
  | 0 => failure
  | fuel + 1 => do
    skipLines fuel
    let t ← rest
    if plainWord t = w then goOn (t.drop w.length) else failure

/-- A list of commands, which may be empty, up to what ends it. -/
def commands : Nat → Reading Script
  | 0 => failure
  | fuel + 1 => do
    skipLines fuel
    if endsList (← rest) then return .nothing
    let s ← chain fuel
    skipBlanks
    let s ← match ← rest with
      | ';' :: ';' :: _ => pure s
      | ';' :: more => do
        goOn more
        pure s
      | '&' :: more => do
        goOn more
        pure (.background s)
      | '\n' :: _ => pure s
      | t => if endsList t then pure s else failure
    match ← commands fuel with
    | .sequence ss => return .sequence (s :: ss)
    | other => return .sequence [s, other]

/-- A list of commands that is not empty. -/
def someCommands : Nat → Reading Script
  | 0 => failure
  | fuel + 1 => do
    match ← commands fuel with
    | .sequence [] => failure
    | .sequence [s] => return s
    | s => return s

/-- Pipelines joined by `&&` and `||`. -/
def chain : Nat → Reading Script
  | 0 => failure
  | fuel + 1 => do
    let s ← pipeline fuel
    chainAfter fuel s

/-- What is joined to a pipeline. -/
def chainAfter : Nat → Script → Reading Script
  | 0, _ => failure
  | fuel + 1, s => do
    skipBlanks
    match ← rest with
    | '&' :: '&' :: more =>
      goOn more
      skipLines fuel
      let next ← pipeline fuel
      chainAfter fuel (.both s next)
    | '|' :: '|' :: more =>
      goOn more
      skipLines fuel
      let next ← pipeline fuel
      chainAfter fuel (.either s next)
    | _ => return s

/-- Commands joined by bars, with an exclamation mark before them or without. -/
def pipeline : Nat → Reading Script
  | 0 => failure
  | fuel + 1 => do
    skipBlanks
    let t ← rest
    let isNegated := plainWord t = ['!']
    if isNegated then goOn (t.drop 1)
    skipBlanks
    let first ← command fuel
    let others ← piped fuel
    let s := if others.isEmpty then first else .pipeline (first :: others)
    return if isNegated then .negated s else s

/-- The further commands of a pipeline. -/
def piped : Nat → Reading (List Script)
  | 0 => failure
  | fuel + 1 => do
    skipBlanks
    match ← rest with
    | '|' :: '|' :: _ => return []
    | '|' :: more =>
      goOn more
      skipLines fuel
      let c ← command fuel
      return c :: (← piped fuel)
    | _ => return []

/-- A command. -/
def command : Nat → Reading Script
  | 0 => failure
  | fuel + 1 => do
    let t ← rest
    let w := plainWord t
    let isCompound := w ∈ keywords || t.head? = some '('
    if !isCompound then simple fuel [] [] [] (← get).line
    else
      let line := (← get).line
      goOn (t.drop (if t.head? = some '(' then 1 else w.length))
      let s ←
        if t.head? = some '(' then do
          let s ← someCommands fuel
          expect [')']
          pure (Script.subshell s)
        else if w = "if".toList then choice fuel
        else if w = "while".toList ∨ w = "until".toList then do
          let condition ← someCommands fuel
          keyword fuel "do".toList
          let body ← someCommands fuel
          keyword fuel "done".toList
          pure (.loop (w = "until".toList) condition body)
        else if w = "for".toList then each fuel line
        else if w = "case".toList then do
          skipBlanks
          let subject ← word fuel
          if subject.isEmpty then failure
          keyword fuel "in".toList
          pure (.select line subject (← branches fuel))
        else if w = "\x7b".toList then do
          let s ← someCommands fuel
          keyword fuel "\x7d".toList
          pure s
        else failure
      return s.turning line (← redirects fuel)

/-- What follows `if`. -/
def choice : Nat → Reading Script
  | 0 => failure
  | fuel + 1 => do
    let condition ← someCommands fuel
    keyword fuel "then".toList
    let yes ← someCommands fuel
    skipLines fuel
    let t ← rest
    let w := plainWord t
    goOn (t.drop w.length)
    if w = "fi".toList then return .choice condition yes .nothing
    else if w = "else".toList then
      let no ← someCommands fuel
      keyword fuel "fi".toList
      return .choice condition yes no
    else if w = "elif".toList then return .choice condition yes (← choice fuel)
    else failure

/-- What follows `for`. -/
def each : Nat → Nat → Reading Script
  | 0, _ => failure
  | fuel + 1, line => do
    skipBlanks
    let t ← rest
    let name := plainWord t
    if !isName name then failure
    goOn (t.drop name.length)
    skipLines fuel
    let t ← rest
    let ws ← (do
      if plainWord t = "in".toList then
        goOn (t.drop 2)
        let ws ← words fuel
        match ← rest with
        | ';' :: more => goOn more
        | '\n' :: _ => lineEnd fuel
        | _ => failure
        pure (some ws)
      else
        match t with
        | ';' :: more => goOn more
        | _ => pure ()
        pure none : Reading (Option (List Word)))
    keyword fuel "do".toList
    let body ← someCommands fuel
    keyword fuel "done".toList
    return .each line name ws body

/-- The branches of `case`. -/
def branches : Nat → Reading (List (List Word × Script))
  | 0 => failure
  | fuel + 1 => do
    skipLines fuel
    let t ← rest
    if plainWord t = "esac".toList then
      goOn (t.drop 4)
      return []
    match t with
    | '(' :: more => goOn more
    | _ => pure ()
    let ps ← patterns fuel
    let body ← commands fuel
    skipLines fuel
    match ← rest with
    | ';' :: ';' :: more =>
      goOn more
      return (ps, body) :: (← branches fuel)
    | t =>
      if plainWord t = "esac".toList then
        goOn (t.drop 4)
        return [(ps, body)]
      else failure

/-- The patterns of a branch, up to the closing parenthesis. -/
def patterns : Nat → Reading (List Word)
  | 0 => failure
  | fuel + 1 => do
    skipBlanks
    let w ← word fuel
    if w.isEmpty then failure
    skipBlanks
    match ← rest with
    | ')' :: more =>
      goOn more
      return [w]
    | '|' :: more =>
      goOn more
      return w :: (← patterns fuel)
    | _ => failure

/-- Words up to the end of a command. -/
def words : Nat → Reading (List Word)
  | 0 => failure
  | fuel + 1 => do
    skipBlanks
    match ← rest with
    | [] => return []
    | c :: _ =>
      if endsWord c then return []
      else
        let w ← word fuel
        return w :: (← words fuel)

/-- A redirection, if one is here. -/
def redirect? : Nat → Reading (Option Redirect)
  | 0 => failure
  | fuel + 1 => do
    match turn? (← rest) with
    | none => return none
    | some (.to stream direction, after) =>
      goOn after
      skipBlanks
      let w ← word fuel
      if w.isEmpty then failure
      return some (.turn stream direction w)
    | some (.document stream strips, after) =>
      goOn after
      skipBlanks
      let t ← rest
      let (mark, quoted, after) := markOf (t.length + 1) t
      if after.length = t.length then failure
      let s ← get
      let next : Waiting := ⟨mark, strips, quoted⟩
      set { s with rest := after, waiting := s.waiting ++ [next] }
      return some (.document stream (s.documents.length + s.waiting.length))

/-- Redirections. -/
def redirects : Nat → Reading (List Redirect)
  | 0 => failure
  | fuel + 1 => do
    skipBlanks
    match ← redirect? fuel with
    | none => return []
    | some r => return r :: (← redirects fuel)

/-- Assignments, words and redirections, after those already read; or the definition of a
function. -/
def simple : Nat → List (Text × Word) → List Word → List Redirect → Nat → Reading Script
  | 0, _, _, _, _ => failure
  | fuel + 1, as, ws, rs, line => do
    skipBlanks
    match ← redirect? fuel with
    | some r => simple fuel as ws (rs ++ [r]) line
    | none =>
      let t ← rest
      match t with
      | '(' :: more =>
        match as, ws, rs with
        | [], [[.text false name]], [] =>
          goOn more
          skipBlanks
          expect [')']
          if !isName name || name ∈ specialCommands then failure
          skipLines fuel
          return .function name (← command fuel)
        | _, _, _ => finish as ws rs line
      | [] => finish as ws rs line
      | c :: _ =>
        if endsWord c then finish as ws rs line
        else match ws, assignment? t with
          | [], some (name, after) =>
            goOn after
            let w ← word fuel
            simple fuel (as ++ [(name, w)]) ws rs line
          | _, _ =>
            let w ← word fuel
            simple fuel as (ws ++ [w]) rs line
where
  /-- The command that was read, if there is one. -/
  finish (as : List (Text × Word)) (ws : List Word) (rs : List Redirect) (line : Nat) :
      Reading Script :=
    if as.isEmpty && ws.isEmpty && rs.isEmpty then failure else return .simple line as ws rs

/-- The commands up to the end of a line. -/
def line : Nat → Reading Script
  | 0 => failure
  | fuel + 1 => do
    let s ← chain fuel
    skipBlanks
    match ← rest with
    | [] => return s
    | ';' :: ';' :: _ => failure
    | ';' :: more =>
      goOn more
      furtherOnLine fuel s
    | '&' :: more =>
      goOn more
      furtherOnLine fuel (.background s)
    | '\n' :: _ =>
      lineEnd fuel
      return s
    | _ => failure

/-- More commands on the same line, after one that was closed. -/
def furtherOnLine : Nat → Script → Reading Script
  | 0, _ => failure
  | fuel + 1, s => do
    skipBlanks
    match ← rest with
    | [] => return s
    | '\n' :: _ =>
      lineEnd fuel
      return s
    | _ =>
      let more ← line fuel
      return .sequence [s, more]

end

end Read

/-- The next line of commands of a script with the number of its first line, and the rest; nothing
if only blanks are left. The outer `none` is a mistake in the script. -/
def nextLine? (t : Text) (number : Nat) : Option (Option (Script × Text × Nat)) :=
  let fuel := 12 * t.length + 24
  match (do Read.skipLines fuel; Read.rest : Read.Reading Text).run
      { rest := t, whole := t, firstLine := number } with
  | none => none
  | some ([], _) => some none
  | some (_, s) =>
    match (Read.line fuel).run s with
    | none => none
    | some (script, s) =>
      -- A script that ends without the documents of its last line has empty ones.
      let documents := s.documents ++ s.waiting.map fun _ => ([] : Word)
      some (some (script.noting documents, s.rest, s.line))

end Shell

end GrammarInference
