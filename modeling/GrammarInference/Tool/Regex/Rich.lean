import GrammarInference.Text.Hex
import GrammarInference.Tool.Regex.Basic

/-!
# Rich regular expressions

A third way of writing regular expressions, in which possibilities are tried in a fixed order.
Beside what extended expressions have there are repetitions that prefer few rounds or give none
back, groups with names, conditions on what comes before and after, calls of groups, and switches
that change how the rest of a group is read. The kinds of characters know ASCII only.

A pattern is read from the left. What is read depends on the switches and on the groups met so far,
which the reader keeps together with the rest of the pattern.
-/

namespace GrammarInference

namespace Regex

namespace Rich

/-- The switches of a group. -/
structure Switches where
  /-- Whether capitals and small letters are the same. -/
  fold : Bool := false
  /-- Whether a point stands for a line end, too. -/
  anyChar : Bool := false
  /-- Whether a caret and a dollar sign stand for the places around every line end. -/
  everyLine : Bool := false
  /-- Whether blanks and comments may stand between the parts. -/
  spaced : Bool := false
  /-- Whether blanks may stand in sets. -/
  spacedSets : Bool := false
  /-- Whether only groups with a name have a number. -/
  namedOnly : Bool := false
  /-- Whether repetitions prefer few rounds, and many with a question mark. -/
  few : Bool := false
  /-- Whether two groups may have the same name. -/
  sameNames : Bool := false

/-- What the reader keeps. -/
structure Source where
  /-- The rest of the pattern. -/
  rest : Text
  /-- The switches. -/
  switches : Switches
  /-- The number of groups met so far. -/
  groups : Nat := 0
  /-- The names of groups, with their numbers. -/
  names : List (Text × Nat) := []
  /-- The names that the whole pattern gives, if they are known already. -/
  known : Option (List (Text × Nat)) := none

/-- A step of reading; it fails if the pattern is wrong. -/
abbrev Reading := StateT Source Option

/-- The rest of the pattern. -/
def rest : Reading Text := do return (← get).rest

/-- Goes on with a given rest. -/
def goOn (t : Text) : Reading Unit := modify fun s => { s with rest := t }

/-- Takes a character that has to be there. -/
def expect (c : Char) : Reading Unit := do
  match ← rest with
  | d :: more => if c = d then goOn more else failure
  | [] => failure

/-- Takes a text if it is there. -/
def taken (t : Text) : Reading Bool := do
  let now ← rest
  if t.isPrefixOf now then
    goOn (now.drop t.length)
    return true
  else return false

/-- Takes the characters up to a given one, and that one. -/
def upToChar (c : Char) : Reading Text := do
  let now ← rest
  goOn (now.dropWhile (· ≠ c))
  expect c
  return now.takeWhile (· ≠ c)

/-! ### Escapes -/

/-- Writes parts that are quoted as a whole with a backslash before each special character. -/
def unquote : Bool → Text → Text
  | false, '\\' :: 'Q' :: t => unquote true t
  | false, '\\' :: 'E' :: t => unquote false t
  | false, '\\' :: c :: t => '\\' :: c :: unquote false t
  | true, '\\' :: 'E' :: t => unquote false t
  | true, c :: t =>
    if c.toNat < 128 ∧ !c.isAlphanum then '\\' :: c :: unquote true t else c :: unquote true t
  | false, c :: t => c :: unquote false t
  | _, [] => []

/-- The character with a code, if there is one. -/
def ofCode? (n : Nat) : Option Char :=
  if n.isValidChar then some (Char.ofNat n) else none

/-- The number that digits denote. -/
def number (base : Nat) (digits : Text) : Nat :=
  digits.foldl (fun n c => base * n + (Text.hexValue? c).getD 0) 0

/-- Whether a character is an octal digit. -/
def isOctal (c : Char) : Bool := '0' ≤ c && c ≤ '7'

/-- Whether a character is a hexadecimal digit. -/
def isHex (c : Char) : Bool := (Text.hexValue? c).isSome

/-- Takes at most so many digits. -/
def digits (most : Nat) (isDigit : Char → Bool) : Reading Text := do
  let now ← rest
  let taken := (now.take most).takeWhile isDigit
  goOn (now.drop taken.length)
  return taken

/-- Takes a code in braces. -/
def bracedCode (base : Nat) (isDigit : Char → Bool) : Reading Char := do
  expect '\x7b'
  let code ← digits 10 isDigit
  expect '\x7d'
  if code.isEmpty then failure
  match ofCode? (number base code) with
  | some c => return c
  | none => failure

/-- The part of a set that an escape stands for, if it stands for one. -/
def setOf? (c : Char) : Option (List Item) :=
  let horizontal := ('\t', '\t') :: ('\u00a0', '\u00a0') :: ('\u180e', '\u180e')
    :: ('\u2007', '\u2007') :: ('\u202f', '\u202f')
    :: Kind.spaces.map fun r => (Char.ofNat r.1, Char.ofNat r.2)
  let vertical := [('\n', '\r'), ('\u0085', '\u0085'), ('\u2028', '\u2029')]
  let ranges := List.map fun r : Char × Char => Item.range r.1 r.2
  match c with
  | 'd' => some [.plain .digit]
  | 'D' => some [.outside [.plain .digit]]
  | 's' => some [.plain .space]
  | 'S' => some [.outside [.plain .space]]
  | 'w' => some plainWordItems
  | 'h' => some (ranges horizontal)
  | 'v' => some (ranges vertical)
  | _ => none

/-- The sets that an escape excludes, if it stands for what is outside of some. -/
def exclusionOf? (c : Char) : Option (List Item) :=
  match c with
  | 'W' => some plainWordItems
  | 'H' => setOf? 'h'
  | 'V' => setOf? 'v'
  | _ => none

/-- The items of a general property. -/
def propertyOf? (name : Text) : Option (List Item) :=
  let all := Item.range '\x00' (Char.ofNat 0x10ffff)
  let signs := "$+<=>^|~\x60".toList.map fun c => Item.range c c
  match String.ofList name with
  | "Any" => some [all]
  | "L" => some [.kind .alpha]
  | "Lu" => some [.kind .upper]
  | "Ll" => some [.kind .lower]
  | "L&" => some [.kind .upper, .kind .lower]
  | "N" => some [.kind .digit]
  | "Nd" => some [.kind .digit]
  | "P" => some [.range '!' '#', .range '%' '*', .range ',' '/', .range ':' ';', .range '?' '@',
      .range '[' ']', .range '_' '_', .range '{' '{', .range '}' '}', .range '«' '«',
      .range '»' '»', .range '\u2010' '\u2027', .range '\u3001' '\u3003']
  | "S" => some signs
  | "Z" => some (Kind.spaces.map fun r => Item.range (Char.ofNat r.1) (Char.ofNat r.2))
  | "Zs" => some (Kind.spaces.map fun r => Item.range (Char.ofNat r.1) (Char.ofNat r.2))
  | "C" => some [.kind .cntrl]
  | "Cc" => some [.kind .cntrl]
  | "Xan" => some [.kind .alnum]
  | "Xwd" => some wordItems
  | "Xsp" => some [.kind .space]
  | "Xps" => some [.kind .space]
  | _ => none

/-- Takes the name of a property, which may be one letter or stand in braces, and says whether its
opposite is meant. -/
def property : Reading (Bool × List Item) := do
  match ← rest with
  | '\x7b' :: more =>
    goOn more
    let negated ← taken ['^']
    let name ← upToChar '\x7d'
    match propertyOf? name with
    | some items => return (negated, items)
    | none => failure
  | c :: more =>
    goOn more
    match propertyOf? [c] with
    | some items => return (false, items)
    | none => failure
  | [] => failure

/-- The character that an escape stands for, after its letter, in sets and elsewhere. -/
def charOf (c : Char) : Reading Char := do
  match c with
  | 'a' => return '\x07'
  | 'e' => return '\x1b'
  | 'f' => return '\x0c'
  | 'n' => return '\n'
  | 'r' => return '\r'
  | 't' => return '\t'
  | 'x' =>
    if (← rest).head? = some '\x7b' then bracedCode 16 isHex
    else return Char.ofNat (number 16 (← digits 2 isHex))
  | 'o' => bracedCode 8 isOctal
  | 'N' =>
    if ← taken ['\x7b', 'U', '+'] then
      let code ← upToChar '\x7d'
      if code.isEmpty || !code.all isHex then failure
      match ofCode? (number 16 code) with
      | some c => return c
      | none => failure
    else failure
  | 'c' =>
    match ← rest with
    | d :: more =>
      if d.toNat < 32 || 126 < d.toNat then failure
      goOn more
      return Char.ofNat (d.toUpper.toNat ^^^ 64)
    | [] => failure
  | '0' => return Char.ofNat (number 8 (← digits 2 isOctal))
  | c => if c.isAlphanum then failure else return c

/-! ### Sets -/

/-- A member of a set: a character, or some items, of which the opposite may be meant. -/
inductive Member
  /-- A character. -/
  | single (c : Char)
  /-- Items. -/
  | items (negated : Bool) (items : List Item)

/-- Takes a named kind after its opening bracket and colon. -/
def kindInSet : Reading Member := do
  let negated ← taken ['^']
  let name ← upToChar ':'
  expect ']'
  if name = "word".toList then return .items negated plainWordItems
  else if name = "ascii".toList then return .items negated [.range '\x00' '\x7f']
  else match Kind.named.lookup name with
    | some k => return .items negated [.plain k]
    | none => failure

/-- Whether a named kind follows an opening bracket: a mark, a name and the mark before a closing
bracket. -/
def opensKind (mark : Char) (t : Text) : Bool :=
  match t with
  | c :: rest =>
    c = mark && match rest.dropWhile fun d => d.isAlpha || d = '^' with
      | d :: ']' :: _ => d = mark
      | _ => false
  | [] => false

/-- Takes a member of a set. -/
def member : Reading Member := do
  match ← rest with
  | '[' :: more =>
    if opensKind ':' more then
      goOn (more.drop 1)
      kindInSet
    else if opensKind '.' more || opensKind '=' more then failure
    else
      goOn more
      return .single '['
  | '\\' :: c :: more =>
    goOn more
    match setOf? c, exclusionOf? c with
    | some items, _ => return .items false items
    | none, some items => return .items true items
    | none, none =>
      if c = 'b' then return .single '\x08'
      else if c = 'p' || c = 'P' then
        let (negated, items) ← property
        return .items (negated != (c = 'P')) items
      else if '1' ≤ c ∧ c ≤ '7' then
        goOn (c :: more)
        return .single (Char.ofNat (number 8 (← digits 3 isOctal)))
      else if c = '8' || c = '9' then return .single c
      else return .single (← charOf c)
  | ['\\'] => failure
  | c :: more =>
    goOn more
    return .single c
  | [] => failure

/-- The parts of a set that a member stands for. -/
def Member.all : Member → List Item
  | .single c => [.range c c]
  | .items false all => all
  | .items true all => [.outside all]

/-- Takes the members of a set up to its end. Every member uses up a unit of fuel. -/
def members : Nat → Bool → Reading (List Item)
  | 0, _ => failure
  | fuel + 1, first => do
    let blanks := (← get).switches.spacedSets
    match ← rest with
    | [] => failure
    | c :: more =>
      if c = ']' ∧ !first then
        goOn more
        return []
      else if blanks ∧ (c = ' ' ∨ c = '\t') then
        goOn more
        members fuel first
      else
        let m ← member
        match m, ← rest with
        | .single low, '-' :: d :: more =>
          if d = ']' then return m.all ++ (← members fuel false)
          else
            goOn (d :: more)
            match ← member with
            | .single high =>
              if high < low then failure
              return .range low high :: (← afterRange fuel)
            | .items _ _ => failure
        | .items _ _, '-' :: d :: _ =>
          if d = ']' then return m.all ++ (← members fuel false) else failure
        | m, _ => return m.all ++ (← members fuel false)
where
  /-- Takes the members after a range, where a dash stands for itself. -/
  afterRange (fuel : Nat) : Reading (List Item) := do
    if ← taken ['-'] then return .range '-' '-' :: (← members fuel false)
    else members fuel false

/-- Takes a set after its opening bracket. -/
def setAfterBracket : Reading Regex := do
  let negated ← taken ['^']
  let s ← get
  let items ← members (s.rest.length + 1) true
  return .set s.switches.fold negated items

/-! ### References -/

/-- Takes a number with a sign, relative to the groups met so far, or without one. -/
def groupNumber : Reading Nat := do
  let s ← get
  match s.rest with
  | '-' :: more =>
    goOn more
    let t ← digits 5 Char.isDigit
    let n := number 10 t
    if t.isEmpty || n = 0 || s.groups < n then failure
    return s.groups + 1 - n
  | '+' :: more =>
    goOn more
    let t ← digits 5 Char.isDigit
    if t.isEmpty || number 10 t = 0 then failure
    return s.groups + number 10 t
  | _ =>
    let t ← digits 5 Char.isDigit
    if t.isEmpty then failure
    return number 10 t

/-- Takes a name. -/
def name : Reading Text := do
  let t ← digits 32 fun c => c.isAlphanum || c = '_'
  match t.head? with
  | some c => if c.isDigit then failure else return t
  | none => failure

/-- Takes a name or a number up to a character, and gives the number of the group. -/
def groupUpTo (stop : Char) : Reading Nat := do
  let number ← match (← rest).head? with
    | some c =>
      if c.isDigit || c = '-' || c = '+' then groupNumber
      else do
        let t ← name
        let s ← get
        match s.names.lookup t, s.known with
        | some n, _ => pure n
        | none, none => pure 0
        | none, some known =>
          match known.lookup t with
          | some n => pure n
          | none => failure
    | none => failure
  expect stop
  return number

/-- The character that closes a name opened by a given one. -/
def closer? (c : Char) : Option Char :=
  match c with
  | '<' => some '>'
  | '\'' => some '\''
  | '\x7b' => some '\x7d'
  | _ => none

/-- The bounds of a repetition at the front of a text, and what follows them. -/
def bounds? (t : Text) : Option (Nat × Option Nat × Text) :=
  match t with
  | '*' :: rest => some (0, none, rest)
  | '+' :: rest => some (1, none, rest)
  | '?' :: rest => some (0, some 1, rest)
  | '\x7b' :: rest =>
    let least := rest.takeWhile Char.isDigit
    if least.isEmpty then none
    else match rest.dropWhile Char.isDigit with
      | '\x7d' :: more => some (number 10 least, some (number 10 least), more)
      | ',' :: more =>
        let most := more.takeWhile Char.isDigit
        match more.dropWhile Char.isDigit with
        | '\x7d' :: more =>
          some (number 10 least, if most.isEmpty then none else some (number 10 most), more)
        | _ => none
      | _ => none
  | _ => none

/-- Takes a part that begins with a backslash, after it, and says whether it can be repeated. -/
def escape : Reading (Regex × Bool) := do
  let s ← get
  let fold := s.switches.fold
  match s.rest with
  | [] => failure
  | c :: more =>
    goOn more
    match setOf? c, exclusionOf? c with
    | some items, _ => return (.set false false items, true)
    | none, some items => return (.set false true items, true)
    | none, none =>
      match c with
      | 'b' => return (.here .plainWordEdge, false)
      | 'B' => return (.here .noPlainWordEdge, false)
      | 'A' => return (.here .textStart, false)
      | 'G' => return (.here .textStart, false)
      | 'z' => return (.here .textEnd, false)
      | 'Z' => return (.here .textEnd, false)
      | 'K' => return (.mark, false)
      | 'C' => return (.any, true)
      | 'X' => return (.seq .any (.rep (.set false false [.range '\u0300' '\u036f']) 0 none .firm),
          true)
      | 'R' =>
        return (.firm (.alt (.seq (char false '\r') (char false '\n'))
          (.set false false ((setOf? 'v').getD []))), true)
      | 'p' =>
        let (negated, items) ← property
        return (.set fold negated items, true)
      | 'P' =>
        let (negated, items) ← property
        return (.set fold (!negated) items, true)
      | 'k' =>
        match more with
        | d :: more =>
          match closer? d with
          | some stop =>
            goOn more
            return (.again fold (← groupUpTo stop), true)
          | none => failure
        | [] => failure
      | 'g' =>
        match more with
        | '\x7b' :: more =>
          goOn more
          return (.again fold (← groupUpTo '\x7d'), true)
        | d :: more =>
          match closer? d with
          | some stop =>
            goOn more
            return (.call (← groupUpTo stop), true)
          | none => return (.again fold (← groupNumber), true)
        | [] => failure
      | 'N' =>
        if (['\x7b', 'U', '+']).isPrefixOf more then return (char fold (← charOf 'N'), true)
        else if more.head? = some '\x7b' ∧ (bounds? more).isNone then failure
        else return (.set false true [.range '\n' '\n'], true)
      | _ =>
        if '1' ≤ c ∧ c ≤ '9' then
          let all := c :: more.takeWhile Char.isDigit
          let n := number 10 all
          if n < 10 ∨ n ≤ s.groups then
            goOn (s.rest.drop all.length)
            return (.again fold n, true)
          else if isOctal c then
            goOn s.rest
            return (char fold (Char.ofNat (number 8 (← digits 3 isOctal))), true)
          else return (char fold c, true)
        else return (char fold (← charOf c), true)

/-! ### Groups -/

/-- The greatest number in a repetition. -/
def greatestCount : Nat := 65535

/-- Skips comments, and blanks where they may stand. Every step uses up a unit of fuel. -/
def skipBlanks : Nat → Reading Unit
  | 0 => return
  | fuel + 1 => do
    let s ← get
    match s.rest with
    | '(' :: '?' :: '#' :: more =>
      goOn more
      let _ ← upToChar ')'
      skipBlanks fuel
    | c :: more =>
      if s.switches.spaced ∧ Kind.space.has c then
        goOn more
        skipBlanks fuel
      else if s.switches.spaced ∧ c = '#' then
        goOn (more.dropWhile (· ≠ '\n'))
        skipBlanks fuel
      else return
    | [] => return

/-- Skips what may stand between two parts. -/
def skip : Reading Unit := do skipBlanks ((← rest).length + 1)

/-- Takes a repetition of a part, if one follows. -/
def repeated (r : Regex) (repeatable : Bool) : Reading Regex := do
  skip
  let s ← get
  match bounds? s.rest with
  | none => return r
  | some (least, most, more) =>
    if !repeatable || greatestCount < least
        || most.any fun m => m < least || greatestCount < m then
      failure
    goOn more
    skip
    let few := s.switches.few
    let preference ← do
      if ← taken ['+'] then pure Preference.firm
      else if (← taken ['?']) != few then pure Preference.few
      else pure Preference.many
    skip
    if (bounds? (← rest)).isSome then failure
    return .rep r least most preference

/-- The switches after one letter. -/
def Switches.change? (s : Switches) (c : Char) (on : Bool) : Option Switches :=
  match c with
  | 'i' => some { s with fold := on }
  | 's' => some { s with anyChar := on }
  | 'm' => some { s with everyLine := on }
  | 'x' => some { s with spaced := on }
  | 'n' => some { s with namedOnly := on }
  | 'U' => some { s with few := on }
  | 'J' => some { s with sameNames := on }
  | _ => none

/-- The switches without those that letters set by default. -/
def Switches.cleared (s : Switches) : Switches := { few := s.few, sameNames := s.sameNames }

/-- Takes the letters that set and clear switches, up to a colon or a closing parenthesis, and says
whether it was a colon. Every letter uses up a unit of fuel. -/
def changes : Nat → Bool → Reading Bool
  | 0, _ => failure
  | fuel + 1, on => do
    match ← rest with
    | ')' :: more =>
      goOn more
      return false
    | ':' :: more =>
      goOn more
      return true
    | '-' :: more =>
      if !on then failure
      goOn more
      changes fuel false
    | '^' :: more =>
      goOn more
      modify fun s => { s with switches := s.switches.cleared }
      changes fuel true
    | 'x' :: 'x' :: more =>
      goOn more
      modify fun s => { s with switches := { s.switches with spaced := on, spacedSets := on } }
      changes fuel on
    | c :: more =>
      match (← get).switches.change? c on with
      | some switches =>
        goOn more
        modify fun s => { s with switches := switches }
        changes fuel on
      | none => failure
    | [] => failure

/-- Whether an expression moves the start of the reported match. -/
def marks : Regex → Bool
  | .seq a b => marks a || marks b
  | .alt a b => marks a || marks b
  | .rep a _ _ _ => marks a
  | .group _ a => marks a
  | .firm a => marks a
  | .look _ a => marks a
  | .choose _ a b => marks a || marks b
  | .mark => true
  | _ => false

/-- The condition that an expression matches here, or does not. -/
def lookAhead? (wanted : Bool) (r : Regex) : Option Regex :=
  if marks r then none else some (.look wanted r)

/-- The alternatives of an expression, each from as far back as it is wide. -/
def fromBehind? : Regex → Option Regex
  | .alt a b => do some (.alt (← fromBehind? a) (← fromBehind? b))
  | r => do some (.seq (.back (← r.width?)) r)

/-- Numbers a new group. -/
def newGroup : Reading Nat := do
  modify fun s => { s with groups := s.groups + 1 }
  return (← get).groups

/-- Numbers a new group and gives it a name. -/
def newNamed (stop : Char) : Reading Nat := do
  let t ← name
  expect stop
  let s ← get
  let n := s.groups + 1
  if (s.names.lookup t).any (· ≠ n) && !s.switches.sameNames then failure
  modify fun s => { s with groups := n, names := s.names ++ [(t, n)] }
  return n

mutual

/-- Takes alternatives. If asked for, all of them number their groups from the same start. Every
step of the reading takes one unit of fuel. -/
def alternatives : Nat → Bool → Reading Regex
  | 0, _ => failure
  | fuel + 1, restarts => do
    let start := (← get).groups
    let first ← sequence fuel
    if ← taken ['|'] then
      let reached := (← get).groups
      if restarts then modify fun s => { s with groups := start }
      let others ← alternatives fuel restarts
      modify fun s => { s with groups := max reached s.groups }
      return .alt first others
    else return first

/-- Takes parts that follow each other. -/
def sequence : Nat → Reading Regex
  | 0 => failure
  | fuel + 1 => do
    skip
    match (← rest).head? with
    | none => return .empty
    | some c =>
      if c = '|' ∨ c = ')' then return .empty
      let (part, repeatable) ← part fuel
      let r ← repeated part repeatable
      return .seq r (← sequence fuel)

/-- Takes a part, and says whether it can be repeated. -/
def part : Nat → Reading (Regex × Bool)
  | 0 => failure
  | fuel + 1 => do
    let s ← get
    let fold := s.switches.fold
    match s.rest with
    | [] => failure
    | c :: more =>
      goOn more
      match c with
      | '\\' => escape
      | '[' =>
        if opensKind ':' more || opensKind '.' more || opensKind '=' more then failure
        return (← setAfterBracket, true)
      | '.' =>
        return (if s.switches.anyChar then .any else .set false true [.range '\n' '\n'], true)
      | '^' => return (.here (if s.switches.everyLine then .anyLineStart else .textStart), false)
      | '$' => return (.here (if s.switches.everyLine then .anyLineEnd else .textEnd), false)
      | '(' => group fuel
      | '*' => failure
      | '+' => failure
      | '?' => failure
      | c =>
        if (bounds? (c :: more)).isSome then failure
        return (char fold c, true)

/-- Takes a group after its opening parenthesis, and says whether it can be repeated. -/
def group : Nat → Reading (Regex × Bool)
  | 0 => failure
  | fuel + 1 => do
    let s ← get
    match s.rest with
    | '*' :: more =>
      goOn more
      let verb ← upToChar ')'
      if verb = "F".toList ∨ verb = "FAIL".toList then return (never, false) else failure
    | '?' :: more =>
      goOn more
      let outer := s.switches
      let inside (restarts : Bool) : Reading Regex := do
        let r ← alternatives fuel restarts
        expect ')'
        modify fun s => { s with switches := outer }
        return r
      let ofOption (r : Option Regex) : Reading (Regex × Bool) :=
        match r with
        | some r => return (r, true)
        | none => failure
      match more with
      | ':' :: more =>
        goOn more
        return (← inside false, true)
      | '|' :: more =>
        goOn more
        return (← inside true, true)
      | '>' :: more =>
        goOn more
        return (.firm (← inside false), true)
      | '=' :: more =>
        goOn more
        ofOption (lookAhead? true (← inside false))
      | '!' :: more =>
        goOn more
        ofOption (lookAhead? false (← inside false))
      | '<' :: '=' :: more =>
        goOn more
        ofOption ((fromBehind? (← inside false)).bind (lookAhead? true))
      | '<' :: '!' :: more =>
        goOn more
        ofOption ((fromBehind? (← inside false)).bind (lookAhead? false))
      | '<' :: more =>
        goOn more
        let n ← newNamed '>'
        return (.group n (← inside false), true)
      | 'P' :: '<' :: more =>
        goOn more
        let n ← newNamed '>'
        return (.group n (← inside false), true)
      | '\'' :: more =>
        goOn more
        let n ← newNamed '\''
        return (.group n (← inside false), true)
      | 'P' :: '=' :: more =>
        goOn more
        return (.again outer.fold (← groupUpTo ')'), true)
      | 'P' :: '>' :: more =>
        goOn more
        return (.call (← groupUpTo ')'), true)
      | '&' :: more =>
        goOn more
        return (.call (← groupUpTo ')'), true)
      | 'R' :: ')' :: more =>
        goOn more
        return (.call 0, true)
      | '(' :: more =>
        goOn more
        return (← choice fuel, true)
      | c :: d :: _ =>
        if c.isDigit ∨ c = '+' ∨ (c = '-' ∧ d.isDigit) then
          return (.call (← groupUpTo ')'), true)
        else if ← changes (more.length + 1) true then return (← inside false, true)
        else return (.empty, false)
      | _ => failure
    | _ =>
      let outer := s.switches
      if outer.namedOnly then
        let r ← alternatives fuel false
        expect ')'
        modify fun s => { s with switches := outer }
        return (r, true)
      else
        let n ← newGroup
        let r ← alternatives fuel false
        expect ')'
        modify fun s => { s with switches := outer }
        return (.group n r, true)

/-- Takes a choice that depends on a condition, after the opening parenthesis of the condition. -/
def choice : Nat → Reading Regex
  | 0 => failure
  | fuel + 1 => do
    let outer := (← get).switches
    let pick ← (do
      if (← rest).head? = some '?' then
        let (condition, _) ← group fuel
        match condition with
        | .look wanted a =>
          pure fun yes no : Regex =>
            Regex.alt (.seq (.look wanted a) yes) (.seq (.look (!wanted) a) no)
        | _ => failure
      else if ← taken "DEFINE)".toList then
        pure fun yes no : Regex => Regex.alt (.seq never yes) no
      else
        let n ← do
          match (← rest).head?.bind closer? with
          | some stop => do
            goOn ((← rest).drop 1)
            let n ← groupUpTo stop
            expect ')'
            pure n
          | none => groupUpTo ')'
        pure fun yes no : Regex => Regex.choose n yes no : Reading (Regex → Regex → Regex))
    let yes ← sequence fuel
    let no ← if ← taken ['|'] then sequence fuel else pure .empty
    expect ')'
    modify fun s => { s with switches := outer }
    return pick yes no

end

/-- The numbers of the groups that an expression refers to. -/
def references : Regex → List Nat
  | .seq a b => references a ++ references b
  | .alt a b => references a ++ references b
  | .rep a _ _ _ => references a
  | .group _ a => references a
  | .firm a => references a
  | .look _ a => references a
  | .choose n a b => n :: references a ++ references b
  | .again _ n => [n]
  | .call n => [n]
  | _ => []

/-- What is kept after reading the whole of a pattern, with the names known already. -/
def readWith (switches : Switches) (known : Option (List (Text × Nat))) (t : Text) :
    Option (Regex × Source) :=
  match (alternatives (4 * t.length + 8) false).run ⟨t, switches, 0, [], known⟩ with
  | some (r, s) => if s.rest.isEmpty then some (r, s) else none
  | none => none

/-- The expression that a pattern stands for, if it is a correct one. The names of groups are read
first, as some may be used before they are given. -/
def read (switches : Switches) (pattern : Text) : Option Regex := do
  let t := unquote false pattern
  let (_, first) ← readWith switches none t
  let (r, s) ← readWith switches (some first.names) t
  if (references r).all (· ≤ s.groups) then some r else none

end Rich

end Regex

end GrammarInference
