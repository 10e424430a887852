import GrammarInference.Grammar.Node

/-!
# Runs

A run is a stretch of a list that consists of two or more copies of a unit. Nodes are compared by
a key: single characters by the members of their classes, repetitions by the key of their bodies,
all other nodes by themselves. A run is maximal when neither another copy precedes it nor another
one follows it.

The runs of a list are put in the order in which they are tried: the widest first, and of equally
wide ones those with the shortest unit, from left to right.
-/

namespace GrammarInference

/-- What a node is compared by. -/
inductive Key
  /-- A single character is compared by the members of its class. -/
  | members (characters : List Symbol)
  /-- A repetition is compared by its body. -/
  | repeated (body : Key)
  /-- Any other node is compared by itself. -/
  | node (n : Node)
  deriving DecidableEq

/-- Whether no check in a node is a list or an object. -/
def Node.hasAtomicChecks (n : Node) : Bool :=
  n.walk.all fun m => match m with
    | .literal l => l.classes.all fun k => k.all fun k => k.checks.all Symbol.isAtom
    | _ => true

/-- Whether equal keys can be looked up in a table. -/
def Key.isIndexable : Key → Bool
  | .members _ => true
  | .repeated body => body.isIndexable
  | .node n => n.hasAtomicChecks

/-- The key of a node. -/
def Node.key : Node → Key
  | .literal l =>
    match l.text, l.classes with
    | [_], [some k] => .members k.characters
    | _, _ => .node (.literal l)
  | .repetition b _ => .repeated b.key
  | n => .node n

/-- A stretch of a list of `size` entries: `count` copies of `unit` entries from `start` on. -/
structure Run (size : Nat) where
  /-- Where the run starts. -/
  start : Nat
  /-- How many entries a copy has. -/
  unit : Nat
  /-- How many copies there are. -/
  count : Nat
  /-- A copy has at least one entry. -/
  one_le_unit : 1 ≤ unit
  /-- There are at least two copies. -/
  two_le_count : 2 ≤ count
  /-- The run lies in the list. -/
  fits : start + unit * count ≤ size
  deriving Repr, DecidableEq

namespace Run

variable {α : Type} [DecidableEq α]

/-- How many entries a run covers. -/
def width {size : Nat} (r : Run size) : Nat := r.unit * r.count

/-- Whether `a` is tried no later than `b`: a wider run first, then one with a shorter unit, then
one further left. -/
def precedes {size : Nat} (a b : Run size) : Bool :=
  b.width < a.width || (a.width = b.width && (a.unit < b.unit ||
    (a.unit = b.unit && a.start ≤ b.start)))

/-- The number of copies of `unit` at the front of a list, counted up to `fuel`. -/
def copies (unit : List α) : Nat → List α → Nat
  | 0, _ => 0
  | fuel + 1, xs =>
    if xs.take unit.length = unit then copies unit fuel (xs.drop unit.length) + 1 else 0

/-- The maximal run with a given start and unit, if there is one. -/
def at? (xs : List α) (unit start : Nat) : Option (Run xs.length) :=
  let pattern := (xs.drop start).take unit
  if unit ≤ start ∧ (xs.drop (start - unit)).take unit = pattern then none
  else
    let count := copies pattern xs.length (xs.drop start)
    if h : 1 ≤ unit ∧ 2 ≤ count ∧ start + unit * count ≤ xs.length then
      some ⟨start, unit, count, h.1, h.2.1, h.2.2⟩
    else none

/-- All maximal runs, in the order of their units and starts. -/
def all (xs : List α) : List (Run xs.length) :=
  (List.range' 1 (xs.length / 2)).flatMap fun unit =>
    (List.range (xs.length - 2 * unit + 1)).filterMap fun start => at? xs unit start

/-- Puts a run in its place in a list of runs. -/
def insert {size : Nat} (r : Run size) : List (Run size) → List (Run size)
  | [] => [r]
  | s :: rest => if r.precedes s then r :: s :: rest else s :: insert r rest

/-- Runs in the order in which they are tried. -/
def sort {size : Nat} (rs : List (Run size)) : List (Run size) := rs.foldr insert []

/-- The first `limit` runs of a list, in the order in which they are tried. -/
def candidates (xs : List α) (limit : Nat) : List (Run xs.length) := (sort (all xs)).take limit

end Run

end GrammarInference
