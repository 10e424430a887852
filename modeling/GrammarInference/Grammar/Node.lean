import GrammarInference.CharClass.Basic

/-!
# Grammar nodes

A grammar is built from literals, sequences, alternations, repetitions and references to rules. A
literal holds a text and may hold a class for each of its characters; a repetition holds a range
of counts, perhaps without an upper end. References go through a rule table, so that a node is
always a finite tree.

The main statements say that two nodes are compared correctly, that `walk` starts at the node
itself, and that renaming a reference changes references alone.
-/

namespace GrammarInference

/-- Fixed text. `classes` has an optional class for every character, or is empty when no position
was generalized. -/
structure Literal where
  /-- The text. -/
  text : Text
  /-- The classes of the positions. -/
  classes : List (Option CharClass)
  /-- There are no classes, or one entry for each character. -/
  fits : classes = [] ∨ classes.length = text.length
  deriving Repr, DecidableEq

namespace Literal

/-- A text without classes. -/
def plain (t : Text) : Literal := ⟨t, [], .inl rfl⟩

/-- A single character with a class. -/
def single (c : Char) (k : CharClass) : Literal := ⟨[c], [some k], .inr rfl⟩

/-- The optional class of every position. -/
def positions (l : Literal) : List (Option CharClass) :=
  if l.classes = [] then List.replicate l.text.length none else l.classes

@[simp] theorem length_positions (l : Literal) : l.positions.length = l.text.length := by
  unfold positions
  split
  · simp
  · next h => exact l.fits.resolve_left h

/-- The characters, each with the class of its position. -/
def cells (l : Literal) : List (Char × Option CharClass) := l.text.zip l.positions

@[simp] theorem map_fst_cells (l : Literal) : l.cells.map Prod.fst = l.text := by
  rw [cells, List.map_fst_zip]
  simp

/-- Two literals side by side. Without classes on both sides there are none; otherwise a side
without classes has no class at any of its positions. -/
def append (a b : Literal) : Literal :=
  if h : a.classes = [] ∧ b.classes = [] then ⟨a.text ++ b.text, [], .inl rfl⟩
  else ⟨a.text ++ b.text, a.positions ++ b.positions, .inr (by simp)⟩

@[simp] theorem text_append (a b : Literal) : (a.append b).text = a.text ++ b.text := by
  unfold append
  split <;> rfl

end Literal

/-- A range of counts. -/
structure Bounds where
  /-- The least count. -/
  min : Nat
  /-- The greatest count, if there is one. -/
  max : Option Nat
  /-- The range is not empty. -/
  ordered : ∀ m ∈ max, min ≤ m
  deriving Repr, DecidableEq

namespace Bounds

/-- All counts from `n` on. -/
def atLeast (n : Nat) : Bounds := ⟨n, none, by simp⟩

/-- Whether a count lies in the range. -/
def has (b : Bounds) (n : Nat) : Bool := b.min ≤ n && b.max.all (n ≤ ·)

/-- The smallest range that contains two ranges. -/
def hull (a b : Bounds) : Bounds where
  min := Nat.min a.min b.min
  max := match a.max, b.max with
    | some m, some n => some (Nat.max m n)
    | _, _ => none
  ordered := by
    intro m hm
    split at hm
    · next x y hx hy =>
      cases hm
      exact Nat.le_trans (Nat.min_le_left _ _)
        (Nat.le_trans (a.ordered x hx) (Nat.le_max_left _ _))
    · cases hm

end Bounds

/-- A part of a grammar. -/
inductive Node
  /-- Fixed text. -/
  | literal (l : Literal)
  /-- One part after another. -/
  | sequence (children : List Node)
  /-- One of several parts; the first is the default. -/
  | alternation (options : List Node)
  /-- Copies of a part. -/
  | repetition (body : Node) (bounds : Bounds)
  /-- A reference to a rule. -/
  | recursive (target : Text)
  deriving Repr

namespace Node

instance : Inhabited Node := ⟨.sequence []⟩

/-- The node that derives the empty text alone. -/
def empty : Node := .sequence []

/-- A list of nodes as one node: a single node stands for itself. -/
def sequenceOf : List Node → Node
  | [n] => n
  | ns => .sequence ns

/-- The parts of a node when it is put into a sequence. -/
def children : Node → List Node
  | .sequence cs => cs
  | n => [n]

/-- The branches a rule can be resolved to: the options of an alternation, or the rule itself. -/
def branches : Node → List Node
  | .alternation os => os
  | n => [n]

/-! ### Equality -/

mutual

/-- Whether two nodes are equal. -/
def beq : Node → Node → Bool
  | .literal a, .literal b => a = b
  | .sequence as, .sequence bs => beqAll as bs
  | .alternation as, .alternation bs => beqAll as bs
  | .repetition a x, .repetition b y => x = y && beq a b
  | .recursive a, .recursive b => a = b
  | _, _ => false

/-- Whether two lists of nodes are equal. -/
def beqAll : List Node → List Node → Bool
  | [], [] => true
  | a :: as, b :: bs => beq a b && beqAll as bs
  | _, _ => false

end

mutual

theorem beq_iff : ∀ a b : Node, beq a b = true ↔ a = b
  | .literal a, b => by cases b <;> simp [beq]
  | .sequence as, b => by cases b <;> simp [beq, beqAll_iff as]
  | .alternation as, b => by cases b <;> simp [beq, beqAll_iff as]
  | .repetition a x, b => by cases b <;> simp [beq, beq_iff a, and_comm]
  | .recursive a, b => by cases b <;> simp [beq]

theorem beqAll_iff : ∀ as bs : List Node, beqAll as bs = true ↔ as = bs
  | [], bs => by cases bs <;> simp [beqAll]
  | a :: as, bs => by cases bs <;> simp [beqAll, beq_iff a, beqAll_iff as]

end

instance : DecidableEq Node := fun a b => decidable_of_iff _ (beq_iff a b)

/-! ### Traversal -/

mutual

/-- A node and all nodes below it, each before those below it, from left to right. -/
def walk : Node → List Node
  | .literal l => [.literal l]
  | .sequence cs => .sequence cs :: walkAll cs
  | .alternation os => .alternation os :: walkAll os
  | .repetition b x => .repetition b x :: walk b
  | .recursive t => [.recursive t]

/-- The walks of several nodes, one after another. -/
def walkAll : List Node → List Node
  | [] => []
  | n :: rest => walk n ++ walkAll rest

end

theorem mem_walk_self (n : Node) : n ∈ n.walk := by
  cases n <;> simp [walk]

/-- The rule a node refers to, if it is a reference. -/
def target? : Node → Option Text
  | .recursive t => some t
  | _ => none

/-- The rules referred to in a node, in the order of the references. -/
def targets (n : Node) : List Text := n.walk.filterMap target?

/-- Whether a node refers to a rule. -/
def refersTo (n : Node) (rule : Text) : Bool := rule ∈ n.targets

/-- Whether a node refers to any rule. -/
def isOpen (n : Node) : Bool := !n.targets.isEmpty

/-- The positions of the branches that satisfy `p`. -/
def branchIndices (p : Node → Bool) (rule : Node) : List Nat :=
  (List.range rule.branches.length).filter fun i => (rule.branches[i]?).any p

/-- The positions of the base branches of a rule: those that do not refer back to it. -/
def baseIndices (rule : Node) (name : Text) : List Nat :=
  rule.branchIndices fun b => !b.refersTo name

/-- The positions of the branches that refer to no rule at all. -/
def closedIndices (rule : Node) : List Nat :=
  rule.branchIndices fun b => !b.isOpen

/-- The first base branch of a rule. -/
def firstBase? (rule : Node) (name : Text) : Option Node :=
  rule.branches.find? fun b => !b.refersTo name

mutual

/-- A node with every reference to `old` turned into a reference to `new`. -/
def rename (old new : Text) : Node → Node
  | .literal l => .literal l
  | .sequence cs => .sequence (renameAll old new cs)
  | .alternation os => .alternation (renameAll old new os)
  | .repetition b x => .repetition (rename old new b) x
  | .recursive t => .recursive (if t = old then new else t)

/-- The same renaming in every node of a list. -/
def renameAll (old new : Text) : List Node → List Node
  | [] => []
  | n :: rest => rename old new n :: renameAll old new rest

end

/-! ### Size -/

mutual

/-- The number of nodes in a tree. -/
def size : Node → Nat
  | .literal _ => 1
  | .sequence cs => 1 + sizeAll cs
  | .alternation os => 1 + sizeAll os
  | .repetition b _ => 1 + size b
  | .recursive _ => 1

/-- The number of nodes in several trees. -/
def sizeAll : List Node → Nat
  | [] => 0
  | n :: rest => size n + sizeAll rest

end

theorem one_le_size (n : Node) : 1 ≤ n.size := by
  cases n <;> simp [size]

end Node

end GrammarInference
