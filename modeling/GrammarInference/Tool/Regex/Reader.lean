import GrammarInference.Number.Numeral
import GrammarInference.Tool.Regex.Basic

/-!
# Reading regular expressions

There are two ways of writing. In basic expressions the characters that group, repeat and divide
have a backslash before them, and an asterisk, a caret or a dollar sign that cannot have its
meaning where it stands is itself. In extended expressions those characters stand alone, and a
backslash takes their meaning away.

A pattern is first cut into tokens, which depends on what stands before and after; then the tokens
are put together.
-/

namespace GrammarInference

namespace Regex

/-- A way of writing expressions. -/
inductive Style
  /-- Special characters have a backslash. -/
  | basic
  /-- Special characters stand alone. -/
  | extended
  deriving Repr, DecidableEq

/-- A token of a pattern. -/
inductive Token
  /-- An expression without parts. -/
  | atom (r : Regex)
  /-- A repetition of what stands before. -/
  | times (least : Nat) (most : Option Nat)
  /-- The start of a group. -/
  | opening
  /-- The end of a group. -/
  | closing
  /-- The bar between two expressions. -/
  | bar
  deriving Repr

/-! ### Brackets -/

/-- The text up to a mark of two characters, and what follows the mark. -/
def upTo (a b : Char) : Text → Option (Text × Text)
  | c :: d :: rest =>
    if c = a ∧ d = b then some ([], rest)
    else (upTo a b (d :: rest)).map fun (t, rest) => (c :: t, rest)
  | _ => none

/-- A member of a bracket expression. -/
inductive Member
  /-- The characters of a kind. -/
  | kind (k : Kind)
  /-- The characters that count as the same letter as a given one. -/
  | alike (c : Char)
  /-- A single character. -/
  | single (c : Char)
  deriving Repr

/-- The only character of the name of a member. It has to be one of ASCII. -/
def onlyPlain? : Text → Option Char
  | [c] => if c.toNat < 128 then some c else none
  | _ => none

/-- The member at the front of a bracket expression, and what follows it. -/
def member? : Text → Option (Member × Text)
  | '[' :: ':' :: rest => do
    let (name, rest) ← upTo ':' ']' rest
    let kind ← Kind.named.lookup name
    some (.kind kind, rest)
  | '[' :: '.' :: rest => do
    let (name, rest) ← upTo '.' ']' rest
    some (.single (← onlyPlain? name), rest)
  | '[' :: '=' :: rest => do
    let (name, rest) ← upTo '=' ']' rest
    some (.alike (← onlyPlain? name), rest)
  | c :: rest => some (.single c, rest)
  | [] => none

/-- The items that a member and what follows it stand for, if a range may start there. A range
leads from one character of ASCII to another. -/
def span? (m : Member) (rest : Text) : Option (Item × Text) :=
  match rest with
  | '-' :: c :: _ =>
    if c = ']' then some (alone m, rest)
    else match m, member? (rest.drop 1) with
      | .single low, some (.single high, rest) =>
        if low ≤ high ∧ high.toNat < 128 then some (.range low high, rest) else none
      | _, _ => none
  | _ => some (alone m, rest)
where
  /-- The item that a member is when it stands alone. -/
  alone : Member → Item
    | .kind k => .kind k
    | .alike c => .range c c
    | .single c => .range c c

/-- The items of a bracket expression up to its end. A closing bracket that comes first is a
member, and so is a dash that comes first or last. Every member uses up a unit of fuel. -/
def members? : Nat → Bool → Text → Option (List Item × Text)
  | 0, _, _ => none
  | fuel + 1, first, t =>
    match first, t with
    | false, ']' :: rest => some ([], rest)
    | false, ['-'] => none
    | false, '-' :: c :: rest =>
      if c = ']' then some ([.range '-' '-'], rest) else none
    | _, t => do
      let (m, rest) ← member? t
      let (item, rest) ← span? m rest
      let (items, rest) ← members? fuel false rest
      some (item :: items, rest)

/-- Whether a bracket expression is a kind of characters that lacks its outer brackets. -/
def lacksBrackets (t : Text) : Bool :=
  match t with
  | ':' :: rest =>
    match rest.dropWhile (· ≠ ']') with
    | [] => false
    | _ => (rest.takeWhile (· ≠ ']')).getLast? = some ':'
  | _ => false

/-- The set that starts after an opening bracket. -/
def bracketed? (fold : Bool) (t : Text) : Option (Regex × Text) :=
  if lacksBrackets t then none
  else match t with
    | '^' :: rest => (members? (rest.length + 1) true rest).map fun (items, rest) =>
        (.set fold true items, rest)
    | _ => (members? (t.length + 1) true t).map fun (items, rest) => (.set fold false items, rest)

/-! ### Tokens -/

/-- The greatest number in a repetition. -/
def greatestCount : Nat := 32767

/-- The bounds of a repetition. -/
inductive CountBounds
  /-- Bounds, and what follows them. -/
  | bounds (least : Nat) (most : Option Nat) (rest : Text)
  /-- Bounds that are too great or in the wrong order. -/
  | wrong
  /-- No bounds. -/
  | unreadable

/-- The bounds that start after an opening brace. -/
def boundsOf (style : Style) (t : Text) : CountBounds :=
  let leastDigits := t.takeWhile Char.isDigit
  let afterLeast := t.dropWhile Char.isDigit
  let least := Number.ofDigits leastDigits
  let (known, most, rest) : Bool × Option Nat × Text :=
    match afterLeast with
    | ',' :: more =>
      let digits := more.takeWhile Char.isDigit
      (true, if digits.isEmpty then none else some (Number.ofDigits digits),
        more.dropWhile Char.isDigit)
    | _ => (!leastDigits.isEmpty, some least, afterLeast)
  let closed : Option Text :=
    match style, rest with
    | .extended, '\x7d' :: rest => some rest
    | .basic, '\\' :: '\x7d' :: rest => some rest
    | _, _ => none
  match closed with
  | none => .unreadable
  | some rest =>
    if !known then .unreadable
    else if greatestCount < least || most.any fun m => m < least || greatestCount < m then .wrong
    else .bounds least most rest

/-- What stands before the place where a token starts. -/
inductive Before
  /-- The start of the pattern, of a group or of an alternative. -/
  | start
  /-- A caret at such a start. -/
  | caret
  /-- Anything else. -/
  | inner
  deriving Repr, DecidableEq

/-- The expression that a backslash and a character stand for. -/
def escaped (fold : Bool) (c : Char) : Regex :=
  match c with
  | 'w' => .set false false wordItems
  | 'W' => .set false true wordItems
  | 's' => .set false false [.kind .space]
  | 'S' => .set false true [.kind .space]
  | '<' => .here .wordStart
  | '>' => .here .wordEnd
  | 'b' => .here .wordEdge
  | 'B' => .here .noWordEdge
  | '\x60' => .here .textStart
  | '\'' => .here .textEnd
  | c => char fold c

/-- Whether a dollar sign may end the line before the given rest of a basic pattern. -/
def endsBranch (rest : Text) : Bool :=
  match rest with
  | [] => true
  | '\\' :: ')' :: _ => true
  | '\\' :: '|' :: _ => true
  | _ => false

/-- The token at the front of a pattern, and what follows it; `none` if the pattern is wrong. -/
def token? (style : Style) (fold : Bool) (before : Before) (depth : Nat) :
    Text → Option (Token × Text)
  | [] => none
  | ['\\'] => none
  | '\\' :: c :: rest =>
    if style = .basic ∧ c = '(' then some (.opening, rest)
    else if style = .basic ∧ c = ')' then some (.closing, rest)
    else if style = .basic ∧ c = '|' then some (.bar, rest)
    else if style = .basic ∧ c = '+' ∧ before = .inner then some (.times 1 none, rest)
    else if style = .basic ∧ c = '?' ∧ before = .inner then some (.times 0 (some 1), rest)
    else if style = .basic ∧ c = '\x7b' ∧ before = .inner then
      match boundsOf .basic rest with
      | .bounds least most rest => some (.times least most, rest)
      | _ => none
    else if '1' ≤ c ∧ c ≤ '9' then some (.atom (.again fold (c.toNat - '0'.toNat)), rest)
    else some (.atom (escaped fold c), rest)
  | '[' :: rest => (bracketed? fold rest).map fun (r, rest) => (.atom r, rest)
  | '.' :: rest => some (.atom .any, rest)
  | '^' :: rest =>
    if style = .extended ∨ before = .start then some (.atom (.here .lineStart), rest)
    else some (.atom (char fold '^'), rest)
  | '$' :: rest =>
    if style = .extended ∨ endsBranch rest then some (.atom (.here .lineEnd), rest)
    else some (.atom (char fold '$'), rest)
  | '*' :: rest =>
    if style = .extended ∨ before = .inner then some (.times 0 none, rest)
    else some (.atom (char fold '*'), rest)
  | c :: rest =>
    if style = .basic then some (.atom (char fold c), rest)
    else if c = '(' then some (.opening, rest)
    else if c = ')' then
      if depth = 0 then some (.atom (char fold c), rest) else some (.closing, rest)
    else if c = '|' then some (.bar, rest)
    else if c = '+' then some (.times 1 none, rest)
    else if c = '?' then some (.times 0 (some 1), rest)
    else if c = '\x7b' then
      if before = .inner ∧ rest.head? = some '\x7d' then none
      else match boundsOf .extended rest with
      | .bounds least most rest => some (.times least most, rest)
      | .wrong => none
      | .unreadable => some (.atom (char fold c), rest)
    else some (.atom (char fold c), rest)

/-- What a token is for the place after it. A condition on words cannot be repeated. -/
def Token.leaves (t : Token) (before : Before) : Before :=
  match t with
  | .opening => .start
  | .bar => .start
  | .atom (.here .lineStart) => if before = .start then .caret else .inner
  | .atom (.here .lineEnd) => .inner
  | .atom (.here _) => .caret
  | _ => .inner

/-- What the groups of an extended pattern look like to the check of their ends. -/
structure Nesting where
  /-- How many groups are open. -/
  depth : Nat := 0
  /-- Whether there is nothing that could be repeated: a repetition mark is skipped. -/
  isFresh : Bool := true
  /-- Whether a repetition mark has just been skipped. A parenthesis that closes a group stands for
  itself then. -/
  skipped : Bool := false

/-- The nesting after a token at the front of an extended pattern. -/
def Nesting.after (n : Nesting) (t : Text) (token : Token) : Nesting :=
  let isMark := n.isFresh && match t.head?, token with
    | some '*', _ => true
    | some '+', _ => true
    | some '?', _ => true
    | some '\x7b', .atom _ => true
    | _, _ => false
  let depth :=
    match token with
    | .opening => n.depth + 1
    | _ => if t.head? = some ')' && !n.skipped then n.depth - 1 else n.depth
  let isFresh :=
    match token with
    | .opening => true
    | .bar => true
    | .atom (.here _) => true
    | _ => isMark
  ⟨depth, isFresh, isMark⟩

/-- The tokens of a pattern. Every token uses up a unit of fuel. -/
def tokens (style : Style) (fold : Bool) :
    Nat → Before → Nat → Nesting → Text → Option (List Token)
  | _, _, _, nesting, [] => if style = .extended ∧ nesting.depth ≠ 0 then none else some []
  | 0, _, _, _, _ => none
  | fuel + 1, before, depth, nesting, t => do
    let (token, rest) ← token? style fold before depth t
    let depth := match token with
      | .opening => depth + 1
      | .closing => depth - 1
      | _ => depth
    (tokens style fold fuel (token.leaves before) depth (nesting.after t token) rest).map
      (token :: ·)

/-! ### Expressions -/

/-- A group that is being read: the alternatives before the last bar, and the parts since then,
the last one first. -/
structure Frame where
  /-- The number of the group. -/
  number : Nat
  /-- The alternatives, the last one first. -/
  branches : List Regex
  /-- The parts of the current alternative, the last one first. -/
  parts : List Regex

/-- The parts of an alternative, one after the other. -/
def sequence (parts : List Regex) : Regex :=
  match parts with
  | [] => .empty
  | last :: earlier => earlier.foldl (fun r part => .seq part r) last

/-- What a group holds. -/
def Frame.close (f : Frame) : Regex :=
  f.branches.foldl (fun r branch => .alt branch r) (sequence f.parts)

/-- Puts tokens together. The frames are those of the open groups, the innermost one first, and
the last one is the pattern itself. -/
def assemble (closed opened : Nat) : List Frame → List Token → Option Regex
  | [f], [] => some f.close
  | f :: outer, .atom r :: rest =>
    match r with
    | .again _ number =>
      if closed < number then none
      else assemble closed opened ({ f with parts := r :: f.parts } :: outer) rest
    | _ => assemble closed opened ({ f with parts := r :: f.parts } :: outer) rest
  | f :: outer, .times least most :: rest =>
    match f.parts with
    | [] => assemble closed opened ({ f with parts := [.empty] } :: outer) rest
    | .here .wordStart :: _ => assemble closed opened (f :: outer) rest
    | .here .wordEnd :: _ => assemble closed opened (f :: outer) rest
    | .here .wordEdge :: _ => assemble closed opened (f :: outer) rest
    | .here .noWordEdge :: _ => assemble closed opened (f :: outer) rest
    | last :: earlier =>
      let part := .rep last least most .many
      assemble closed opened ({ f with parts := part :: earlier } :: outer) rest
  | f :: outer, .bar :: rest =>
    assemble closed opened
      ({ f with branches := sequence f.parts :: f.branches, parts := [] } :: outer) rest
  | fs, .opening :: rest => assemble closed (opened + 1) (⟨opened + 1, [], []⟩ :: fs) rest
  | f :: g :: outer, .closing :: rest =>
    assemble (closed + 1) opened
      ({ g with parts := .group f.number f.close :: g.parts } :: outer) rest
  | _, _ => none

/-- The expression that a pattern stands for, if it is a correct one. -/
def read (style : Style) (fold : Bool) (pattern : Text) : Option Regex :=
  match tokens style fold pattern.length .start 0 {} pattern with
  | none => none
  | some ts => assemble 0 0 [⟨0, [], []⟩] ts

end Regex

end GrammarInference
