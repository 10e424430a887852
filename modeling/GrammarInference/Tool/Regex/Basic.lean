import GrammarInference.Tool.Regex.Kind
import Std.Data.HashSet

/-!
# Regular expressions

Expressions for parts of a line, with bounded repetition, references to groups and conditions on
the surroundings. Matching follows all possibilities: it leads from states to the states after the
expression, where a state is a position together with the parts that groups have matched so far.
The states are in order of preference, so that the first one is the match of choice for patterns
that prefer one possibility to another, and the one that lies furthest is the match of choice for
patterns that want the longest. A state is listed once, at its first place: what follows from it
does not depend on how it was reached.

A line is a list of characters in which a byte that belongs to no character is left open.
-/

namespace GrammarInference

namespace Regex

/-- A condition on a position. -/
inductive Place
  /-- The start of the whole text. -/
  | textStart
  /-- The end of the whole text. -/
  | textEnd
  /-- The start of the line. -/
  | lineStart
  /-- The end of the line. -/
  | lineEnd
  /-- The start of a line that follows a line end, too. -/
  | anyLineStart
  /-- The end of a line that a line end follows, too. -/
  | anyLineEnd
  /-- The start of a word. -/
  | wordStart
  /-- The end of a word. -/
  | wordEnd
  /-- The start or the end of a word. -/
  | wordEdge
  /-- Neither the start nor the end of a word. -/
  | noWordEdge
  /-- The start or the end of a word of ASCII characters. -/
  | plainWordEdge
  /-- Neither the start nor the end of a word of ASCII characters. -/
  | noPlainWordEdge
  deriving Repr, DecidableEq

/-- What a repetition prefers. -/
inductive Preference
  /-- As many rounds as possible, and fewer if that fails. -/
  | many
  /-- As few rounds as possible, and more if that fails. -/
  | few
  /-- As many rounds as possible, and nothing else. -/
  | firm
  deriving Repr, DecidableEq

end Regex

/-- A regular expression. -/
inductive Regex
  /-- The empty text. -/
  | empty
  /-- Any character. -/
  | any
  /-- A character of a set, or one outside of it, perhaps up to case. -/
  | set (fold negated : Bool) (items : List Regex.Item)
  /-- One expression after the other. -/
  | seq (a b : Regex)
  /-- One expression or the other. -/
  | alt (a b : Regex)
  /-- Repetition, at least and at most so often. -/
  | rep (a : Regex) (least : Nat) (most : Option Nat) (preference : Regex.Preference)
  /-- A numbered group. -/
  | group (number : Nat) (a : Regex)
  /-- The text that a group matched, once more, perhaps up to case. -/
  | again (fold : Bool) (number : Nat)
  /-- The expression of a group, once more. -/
  | call (number : Nat)
  /-- The match of choice of an expression, and nothing else. -/
  | firm (a : Regex)
  /-- The condition that an expression matches here, or that it does not. -/
  | look (wanted : Bool) (a : Regex)
  /-- A number of characters before. -/
  | back (count : Nat)
  /-- One expression if a group has matched, the other if it has not. -/
  | choose (number : Nat) (a b : Regex)
  /-- A condition on the position. -/
  | here (p : Regex.Place)
  /-- The start of the reported match. -/
  | mark
  deriving Repr

namespace Regex

/-- A line: a byte that belongs to no character is `none`. -/
abbrev Line := Array (Option Char)

/-- A point reached in matching. -/
structure State where
  /-- The position in the line. -/
  position : Nat
  /-- The parts that groups matched, by number, from a position to a position. -/
  groups : List (Nat × Nat × Nat) := []
  /-- The start of the reported match, if it is not where the matching started. -/
  marked : Option Nat := none
  deriving Repr, DecidableEq, Hashable

/-- The expression for one character. -/
def char (fold : Bool) (c : Char) : Regex := .set fold false [.range c c]

/-- The expression for a text. -/
def text (fold : Bool) (t : Text) : Regex := t.foldr (fun c r => .seq (char fold c) r) .empty

/-- The sets of word characters. -/
def wordItems : List Item := [.kind .alnum, .range '_' '_']

/-- The sets of word characters in ASCII. -/
def plainWordItems : List Item := [.plain .alnum, .range '_' '_']

/-- The expression that matches nothing. -/
def never : Regex := .look false .empty

/-- Whether an expression asks what a group matched. -/
def refersBack : Regex → Bool
  | .seq a b => a.refersBack || b.refersBack
  | .alt a b => a.refersBack || b.refersBack
  | .rep a _ _ _ => a.refersBack
  | .group _ a => a.refersBack
  | .firm a => a.refersBack
  | .look _ a => a.refersBack
  | .again _ _ => true
  | .choose _ _ _ => true
  | _ => false

/-- The groups with a number, in the order in which they open. -/
def numbered (number : Nat) : Regex → List Regex
  | .seq a b => a.numbered number ++ b.numbered number
  | .alt a b => a.numbered number ++ b.numbered number
  | .rep a _ _ _ => a.numbered number
  | .group n a => if n = number then .group n a :: a.numbered number else a.numbered number
  | .firm a => a.numbered number
  | .look _ a => a.numbered number
  | .choose _ a b => a.numbered number ++ b.numbered number
  | _ => []

/-- The number of characters that every match of an expression has, if it is clear. -/
def width? : Regex → Option Nat
  | .empty => some 0
  | .any => some 1
  | .set _ _ _ => some 1
  | .seq a b => do some ((← a.width?) + (← b.width?))
  | .alt a b =>
    match a.width?, b.width? with
    | some m, some n => if m = n then some m else none
    | _, _ => none
  | .rep a least most _ => if most = some least then a.width?.map (least * ·) else none
  | .group _ a => a.width?
  | .firm a => a.width?
  | .look _ _ => some 0
  | .here _ => some 0
  | .again _ _ => none
  | .call _ => none
  | .back _ => none
  | .choose _ a b =>
    match a.width?, b.width? with
    | some m, some n => if m = n then some m else none
    | _, _ => none
  | .mark => none

/-! ### Places -/

/-- Whether a character of some sets stands at a position. -/
def standsAt (items : List Item) (l : Line) (position : Nat) : Bool :=
  match l[position]? with
  | some (some c) => items.any (Item.has c)
  | _ => false

/-- Whether a character of some sets stands before a position. -/
def standsBefore (items : List Item) (l : Line) (position : Nat) : Bool :=
  0 < position && standsAt items l (position - 1)

/-- Whether a word character stands at a position. -/
def isWordAt : Line → Nat → Bool := standsAt wordItems

/-- Whether a word character stands before a position. -/
def isWordBefore : Line → Nat → Bool := standsBefore wordItems

/-- Whether a condition on a position holds. -/
def Place.holds (l : Line) (position : Nat) (place : Place) : Bool :=
  let before := isWordBefore l position
  let after := isWordAt l position
  let edge := standsBefore plainWordItems l position != standsAt plainWordItems l position
  match place with
  | .textStart => position = 0
  | .textEnd => position = l.size
  | .lineStart => position = 0
  | .lineEnd => position = l.size
  | .anyLineStart => position = 0 || l[position - 1]? = some (some '\n')
  | .anyLineEnd => position = l.size || l[position]? = some (some '\n')
  | .wordStart => !before && after
  | .wordEnd => before && !after
  | .wordEdge => before != after
  | .noWordEdge => before == after
  | .plainWordEdge => edge
  | .noPlainWordEdge => !edge

/-! ### Steps -/

/-- The states after one character that satisfies a condition. -/
def advance (l : Line) (condition : Char → Bool) (s : State) : List State :=
  match l[s.position]? with
  | some (some c) => if condition c then [{ s with position := s.position + 1 }] else []
  | _ => []

/-- The states after the text of a group, once more. -/
def advanceAgain (fold : Bool) (l : Line) (number : Nat) (s : State) : List State :=
  match s.groups.lookup number with
  | none => []
  | some (start, stop) =>
    let count := stop - start
    if s.position + count ≤ l.size ∧
        (List.range count).all fun i =>
          match l[start + i]?, l[s.position + i]? with
          | some (some a), some (some b) => Item.same fold a b
          | a, b => a = b then
      [{ s with position := s.position + count }]
    else []

/-- States that have been come by. -/
structure Trail where
  /-- The states, the last one first. -/
  found : List State := []
  /-- The same states, to look them up. -/
  seen : Std.HashSet State := {}
  /-- The states from which further rounds of a repetition were tried, with the number of rounds
  that were left if this number counts. -/
  tried : Std.HashSet (Nat × State) := {}

/-- A trail with one more state, if it is new. -/
def Trail.add (t : Trail) (s : State) : Trail :=
  if t.seen.contains s then t else { t with found := s :: t.found, seen := t.seen.insert s }

/-- Some states without repetitions, each at its first place. -/
def distinct (ss : List State) : List State :=
  match ss with
  | [] => []
  | [s] => [s]
  | ss => (ss.foldl Trail.add {}).found.reverse

/-- The states after a number of steps. -/
def times (step : List State → List State) : Nat → List State → List State
  | 0, ss => ss
  | n + 1, ss => step (times step n ss)

/-- Searches through at most so many rounds of a repetition, whose number counts if it is bounded.
A round that does not move is the last one. -/
def explore (bounded few : Bool) (step : List State → List State) : Nat → State → Trail → Trail
  | 0, s, t => t.add s
  | n + 1, s, t =>
    let key := (if bounded then n else 0, s)
    if t.tried.contains key then t
    else
      let t := { t with tried := t.tried.insert key }
      let t := if few then t.add s else t
      let t := (step [s]).foldl
        (fun t next => if next.position = s.position then t.add next
          else explore bounded few step n next t) t
      if few then t else t.add s

/-- The states after a repetition. -/
def rounds (l : Line) (few : Bool) (step : List State → List State) (most : Option Nat)
    (ss : List State) : List State :=
  let count := (most.getD (l.size + 1)).min (l.size + 1)
  (ss.foldl (fun t s => explore (count ≤ l.size) few step count s t) {}).found.reverse

/-- The states after an expression. What `call` leads to is given. -/
def ends (l : Line) (call : Nat → List State → List State) : Regex → List State → List State
  | .empty, ss => ss
  | .any, ss => ss.flatMap (advance l fun _ => true)
  | .set fold negated items, ss =>
    ss.flatMap (advance l fun c => negated != Item.anyHas fold items c)
  | .seq a b, ss => ends l call b (ends l call a ss)
  | .alt a b, ss => distinct (ss.flatMap fun s => ends l call a [s] ++ ends l call b [s])
  | .rep a least most preference, ss =>
    let after (ss : List State) : List State :=
      rounds l (preference = .few) (ends l call a) (most.map (· - least))
        (times (ends l call a) least ss)
    if preference = .firm then distinct (ss.flatMap fun s => (after [s]).take 1) else after ss
  | .group number a, ss =>
    distinct (ss.flatMap fun s => (ends l call a [s]).map fun e =>
      { e with groups := (number, s.position, e.position)
          :: e.groups.filter fun g => g.1 ≠ number })
  | .again fold number, ss => ss.flatMap (advanceAgain fold l number)
  | .call number, ss =>
    distinct (ss.flatMap fun s => (call number [s]).map fun e => { s with position := e.position })
  | .firm a, ss => distinct (ss.flatMap fun s => (ends l call a [s]).take 1)
  | .look true a, ss =>
    distinct (ss.flatMap fun s =>
      ((ends l call a [s]).take 1).map fun e => { e with position := s.position })
  | .look false a, ss => ss.filter fun s => (ends l call a [s]).isEmpty
  | .back count, ss =>
    ss.flatMap fun s =>
      if count ≤ s.position then [{ s with position := s.position - count }] else []
  | .choose number a b, ss =>
    distinct (ss.flatMap fun s =>
      if (s.groups.lookup number).isSome then ends l call a [s] else ends l call b [s])
  | .here place, ss => ss.filter fun s => place.holds l s.position
  | .mark, ss => distinct (ss.map fun s => { s with marked := some s.position })

/-- An expression without its groups. -/
def ungrouped : Regex → Regex
  | .seq a b => .seq a.ungrouped b.ungrouped
  | .alt a b => .alt a.ungrouped b.ungrouped
  | .rep a least most preference => .rep a.ungrouped least most preference
  | .group _ a => a.ungrouped
  | .firm a => .firm a.ungrouped
  | .look wanted a => .look wanted a.ungrouped
  | .choose number a b => .choose number a.ungrouped b.ungrouped
  | r => r

/-- What calling a group of an expression leads to. The calls may be nested as deep as the fuel
allows. -/
def called (r : Regex) (l : Line) : Nat → Nat → List State → List State
  | 0, _, _ => []
  | depth + 1, number, ss =>
    if number = 0 then ends l (called r l depth) r ss
    else match r.numbered number with
      | g :: _ => ends l (called r l depth) g ss
      | [] => []

/-- The states after matches that start at given positions. -/
def endsAfter (r : Regex) (l : Line) (starts : List Nat) : List State :=
  let seen := if r.refersBack then r else r.ungrouped
  ends l (called r l (l.size + 4)) seen (starts.map fun start => ⟨start, [], none⟩)

/-- The states after a match that starts at a given position, in order of preference. -/
def endsFrom (r : Regex) (l : Line) (start : Nat) : List State := r.endsAfter l [start]

/-- Whether an expression matches some part of a line. -/
def occursIn (r : Regex) (l : Line) : Bool :=
  !(r.endsAfter l (List.range (l.size + 1))).isEmpty

end Regex

end GrammarInference
