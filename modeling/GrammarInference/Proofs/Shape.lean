import GrammarInference.Grammar.Rules
import GrammarInference.Learn.Runs

/-!
# The shape of learned nodes

Learning makes nodes of a narrow shape only. A literal is a single character with a class of
characters that it belongs to; a sequence does not consist of one part, and none of its parts is
empty; an alternation has two options at least, not all of them empty; a repetition has no greatest
count. `Node.Tidy done` says that a node has this shape everywhere and refers only to the rules
named in `done`; a `Node.Part` is tidy and not empty, as the parts of a sequence are.

The shape is a condition on every node of the walk. It is unfolded once for every form of a node,
and the later proofs cite these equivalences.
-/

namespace GrammarInference

/-- All symbols of a list are characters. -/
def Symbol.AllChars (ss : List Symbol) : Prop := ∀ s ∈ ss, ∃ c, s = Symbol.ofChar c

/-- A class whose members and checks are single characters. -/
structure CharClass.OfCharacters (k : CharClass) : Prop where
  /-- The members are single characters. -/
  characters : Symbol.AllChars k.characters
  /-- The checks are single characters. -/
  checks : Symbol.AllChars k.checks

/-- A class of characters in strictly increasing order, all of which are triggers, and whose checks
are among them. -/
structure CharClass.Regular (k : CharClass) : Prop where
  /-- The members are single characters. -/
  single : ∀ s ∈ k.characters, ∃ c, s = Symbol.ofChar c
  /-- The members are in strictly increasing order. -/
  ordered : k.characters.Pairwise (· < ·)
  /-- The triggers are the members. -/
  triggered : k.triggers = k.characters
  /-- The checks are members. -/
  checked : k.checks ⊆ k.characters

theorem CharClass.Regular.ofCharacters {k : CharClass} (hk : k.Regular) : k.OfCharacters :=
  ⟨hk.single, fun s hs => hk.single s (hk.checked hs)⟩

/-- A single character with a class that it belongs to. -/
def Literal.Regular (l : Literal) : Prop :=
  ∃ c k, l = Literal.single c k ∧ k.Regular ∧ Symbol.ofChar c ∈ k.characters

namespace Node

/-- Whether a node has the shape of a learned node, the nodes below it aside. -/
def TidyHere (done : List Text) : Node → Prop
  | .literal l => l.Regular
  | .sequence cs => cs.length ≠ 1 ∧ empty ∉ cs
  | .alternation os => 2 ≤ os.length ∧ ∃ o ∈ os, o ≠ empty
  | .repetition _ x => x.max = none
  | .recursive name => name ∈ done

/-- A condition holds of a node and of all nodes below it. -/
def Throughout (P : Node → Prop) (n : Node) : Prop := ∀ m ∈ n.walk, P m

/-- A node that has the shape of learned nodes everywhere and refers to the rules `done` only. -/
def Tidy (done : List Text) (n : Node) : Prop := ∀ m ∈ n.walk, m.TidyHere done

/-- A tidy node that is not empty. -/
structure Part (done : List Text) (n : Node) : Prop where
  /-- The node is not empty. -/
  ne_empty : n ≠ empty
  /-- The node is tidy. -/
  tidy : n.Tidy done

/-- A node is a repetition. -/
def IsRepetition (n : Node) : Prop := ∃ b x, n = .repetition b x

/-- A node is a sequence. -/
def IsSequence (n : Node) : Prop := ∃ cs, n = .sequence cs

/-- A node is an alternation. -/
def IsAlternation (n : Node) : Prop := ∃ os, n = .alternation os

/-! ### Walks and references -/

theorem mem_walkAll {m : Node} {ns : List Node} : m ∈ walkAll ns ↔ ∃ n ∈ ns, m ∈ n.walk := by
  induction ns with
  | nil => simp [walkAll]
  | cons n rest ih => simp [walkAll, ih]

@[simp] theorem targets_literal (l : Literal) : (literal l).targets = [] := by
  simp [targets, walk, target?]

@[simp] theorem targets_recursive (name : Text) : (recursive name).targets = [name] := by
  simp [targets, walk, target?]

@[simp] theorem targets_repetition (b : Node) (x : Bounds) :
    (repetition b x).targets = b.targets := by
  rw [targets, walk, List.filterMap_cons_none rfl, targets]

private theorem filterMap_walkAll (ns : List Node) :
    (walkAll ns).filterMap target? = ns.flatMap targets := by
  induction ns with
  | nil => rfl
  | cons n rest ih => rw [walkAll, List.filterMap_append, ih, List.flatMap_cons, targets]

@[simp] theorem targets_sequence (cs : List Node) :
    (sequence cs).targets = cs.flatMap targets := by
  rw [← filterMap_walkAll, targets, walk, List.filterMap_cons_none rfl]

@[simp] theorem targets_alternation (os : List Node) :
    (alternation os).targets = os.flatMap targets := by
  rw [← filterMap_walkAll, targets, walk, List.filterMap_cons_none rfl]

@[simp] theorem targets_sequenceOf (ns : List Node) :
    (sequenceOf ns).targets = ns.flatMap targets := by
  unfold sequenceOf
  split
  · simp
  · exact targets_sequence _

theorem targets_subset_of_mem_branches {b n : Node} (h : b ∈ n.branches) :
    b.targets ⊆ n.targets := by
  cases n with
  | alternation os =>
    rw [targets_alternation]
    exact fun k hk => List.mem_flatMap.mpr ⟨b, h, hk⟩
  | _ =>
    rw [List.mem_singleton.mp h]
    exact List.Subset.refl _

theorem forall_walkAll {P : Node → Prop} {ns : List Node} :
    (∀ m ∈ walkAll ns, P m) ↔ ∀ n ∈ ns, ∀ m ∈ n.walk, P m := by
  simp only [mem_walkAll]
  exact ⟨fun h n hn m hm => h m ⟨n, hn, hm⟩, fun h m ⟨n, hn, hm⟩ => h n hn m hm⟩

/-! ### Conditions on every node -/

section Throughout

variable {P : Node → Prop} {n : Node}

theorem Throughout.here (h : n.Throughout P) : P n := h n (mem_walk_self n)

theorem throughout_literal {l : Literal} : (literal l).Throughout P ↔ P (literal l) := by
  simp [Throughout, walk]

theorem throughout_recursive {name : Text} :
    (recursive name).Throughout P ↔ P (recursive name) := by
  simp [Throughout, walk]

theorem throughout_repetition {b : Node} {x : Bounds} :
    (repetition b x).Throughout P ↔ P (repetition b x) ∧ b.Throughout P := by
  rw [Throughout, walk, List.forall_mem_cons]
  rfl

theorem throughout_sequence {cs : List Node} :
    (sequence cs).Throughout P ↔ P (sequence cs) ∧ ∀ c ∈ cs, c.Throughout P := by
  rw [Throughout, walk, List.forall_mem_cons, forall_walkAll]
  rfl

theorem throughout_alternation {os : List Node} :
    (alternation os).Throughout P ↔ P (alternation os) ∧ ∀ o ∈ os, o.Throughout P := by
  rw [Throughout, walk, List.forall_mem_cons, forall_walkAll]
  rfl

/-- What holds throughout a node holds throughout its parts. -/
theorem Throughout.children (h : n.Throughout P) : ∀ c ∈ n.children, c.Throughout P := by
  cases n with
  | sequence cs => exact (throughout_sequence.mp h).2
  | _ => exact List.forall_mem_singleton.mpr h

/-- What holds throughout a node holds throughout its branches. -/
theorem Throughout.branches (h : n.Throughout P) : ∀ b ∈ n.branches, b.Throughout P := by
  cases n with
  | alternation os => exact (throughout_alternation.mp h).2
  | _ => exact List.forall_mem_singleton.mpr h

/-- A node that is a reference goes to a rule of the list. -/
def RefersHere (names : List Text) (n : Node) : Prop := ∀ name ∈ n.target?, name ∈ names

/-- The references in a node go to the rules of a list. -/
theorem throughout_refersHere {names : List Text} :
    n.Throughout (RefersHere names) ↔ n.targets ⊆ names := by
  constructor
  · intro h name hname
    obtain ⟨m, hm, ht⟩ := List.mem_filterMap.mp hname
    exact h m hm name ht
  · intro h m hm name hname
    exact h (List.mem_filterMap.mpr ⟨m, hm, hname⟩)

end Throughout

/-! ### Tidy nodes, form by form -/

variable {done done' : List Text}

@[simp] theorem tidy_literal {l : Literal} : (literal l).Tidy done ↔ l.Regular := by
  simp [Tidy, walk, TidyHere]

@[simp] theorem tidy_recursive {name : Text} : (recursive name).Tidy done ↔ name ∈ done := by
  simp [Tidy, walk, TidyHere]

@[simp] theorem tidy_repetition {b : Node} {x : Bounds} :
    (repetition b x).Tidy done ↔ x.max = none ∧ b.Tidy done := by
  simp [Tidy, walk, TidyHere]

theorem tidy_sequence {cs : List Node} :
    (sequence cs).Tidy done ↔ cs.length ≠ 1 ∧ ∀ c ∈ cs, c.Part done := by
  simp only [Tidy, walk, List.forall_mem_cons, forall_walkAll, TidyHere]
  constructor
  · rintro ⟨⟨hlen, he⟩, h⟩
    exact ⟨hlen, fun c hc => ⟨fun hce => he (hce ▸ hc), h c hc⟩⟩
  · rintro ⟨hlen, h⟩
    exact ⟨⟨hlen, fun he => (h _ he).ne_empty rfl⟩, fun c hc => (h c hc).tidy⟩

theorem tidy_alternation {os : List Node} :
    (alternation os).Tidy done ↔
      2 ≤ os.length ∧ (∃ o ∈ os, o ≠ empty) ∧ ∀ o ∈ os, o.Tidy done := by
  simp only [Tidy, walk, List.forall_mem_cons, forall_walkAll, TidyHere, and_assoc]

@[simp] theorem tidy_empty : empty.Tidy done := tidy_sequence.mpr ⟨by simp, by simp⟩

theorem Tidy.mono {n : Node} (h : n.Tidy done) (hsub : done ⊆ done') : n.Tidy done' := by
  intro m hm
  have := h m hm
  cases m with
  | recursive name => exact hsub this
  | _ => exact this

/-- A tidy node refers to the given rules only. -/
theorem Tidy.targets_subset {n : Node} (h : n.Tidy done) : n.targets ⊆ done := by
  refine throughout_refersHere.mp fun m hm name hname => ?_
  have hm := h m hm
  cases m with
  | recursive t =>
    cases hname
    exact hm
  | _ => cases hname

/-! ### Parts of sequences -/

/-- The parts of a tidy node are not empty. -/
theorem Tidy.children {n : Node} (h : n.Tidy done) : ∀ c ∈ n.children, c.Part done := by
  cases n with
  | sequence cs => exact (tidy_sequence.mp h).2
  | _ =>
    intro c hc
    rw [List.mem_singleton.mp hc]
    exact ⟨by simp [empty], h⟩

/-- Putting the parts of a tidy node together gives the node again. -/
theorem Tidy.sequenceOf_children {n : Node} (h : n.Tidy done) : sequenceOf n.children = n := by
  cases n with
  | sequence cs =>
    unfold sequenceOf Node.children
    split
    · next m hm =>
      rw [show cs = [m] from hm] at h
      exact absurd rfl (tidy_sequence.mp h).1
    · rfl
  | _ => rfl

theorem tidy_sequenceOf {ns : List Node} (h : ∀ n ∈ ns, n.Part done) :
    (sequenceOf ns).Tidy done := by
  unfold sequenceOf
  split
  · next m => exact (h m (by simp)).tidy
  · next hne =>
    refine tidy_sequence.mpr ⟨fun hlen => ?_, h⟩
    obtain ⟨m, rfl⟩ := List.length_eq_one_iff.mp hlen
    exact hne m rfl

theorem part_sequenceOf {ns : List Node} (hne : ns ≠ []) (h : ∀ n ∈ ns, n.Part done) :
    (sequenceOf ns).Part done := by
  refine ⟨fun he => ?_, tidy_sequenceOf h⟩
  unfold sequenceOf at he
  split at he
  · next m => exact (h m (by simp)).ne_empty he
  · cases he
    exact hne rfl

/-- Nodes side by side make an alternation only if there is no other node. -/
theorem eq_of_isAlternation_sequenceOf {ns : List Node} (h : (sequenceOf ns).IsAlternation) :
    ∃ os, ns = [alternation os] := by
  obtain ⟨os, hos⟩ := h
  unfold sequenceOf at hos
  split at hos
  · exact ⟨os, by rw [hos]⟩
  · cases hos

/-! ### Branches -/

/-- A node that is not an alternation is its only branch. -/
theorem branches_of_not_alternation {n : Node} (h : ¬ n.IsAlternation) : n.branches = [n] := by
  cases n with
  | alternation os => exact absurd ⟨os, rfl⟩ h
  | _ => rfl

/-- Only an alternation without options has no branches. -/
theorem branches_eq_nil_iff {n : Node} : n.branches = [] ↔ n = .alternation [] := by
  cases n <;> simp [branches]

theorem Tidy.branches {n : Node} (h : n.Tidy done) : ∀ b ∈ n.branches, b.Tidy done := by
  cases n with
  | alternation os => exact (tidy_alternation.mp h).2.2
  | _ =>
    intro b hb
    rw [List.mem_singleton.mp hb]
    exact h

theorem Tidy.branches_ne_nil {n : Node} (h : n.Tidy done) : n.branches ≠ [] := by
  cases n with
  | alternation os =>
    rintro rfl
    exact absurd (tidy_alternation.mp h).1 (by decide)
  | _ => simp [Node.branches]

/-- A tidy node that is not empty has a branch that is not empty. -/
theorem Part.exists_branch {n : Node} (h : n.Part done) : ∃ b ∈ n.branches, b ≠ empty := by
  cases n with
  | alternation os => exact (tidy_alternation.mp h.tidy).2.1
  | _ => exact ⟨_, List.mem_singleton_self _, h.ne_empty⟩

/-! ### Mergeable nodes -/

/-- What keeps merging from failing, the nodes below aside: a literal is a single character with a
class of characters that it belongs to, and a reference goes to a rule of the list. -/
def MergeableHere (names : List Text) : Node → Prop
  | .literal l =>
    ∃ x k, l = Literal.single x k ∧ k.OfCharacters ∧ Symbol.ofChar x ∈ k.characters
  | .recursive name => name ∈ names
  | _ => True

/-- A node that can be merged without a failure. -/
def Mergeable (names : List Text) (n : Node) : Prop := n.Throughout (MergeableHere names)

/-- Tidy nodes can be merged. -/
theorem Tidy.mergeable {n : Node} (h : n.Tidy done) : n.Mergeable done := by
  intro m hm
  have hm := h m hm
  cases m with
  | literal l =>
    obtain ⟨x, k, rfl, hk, hx⟩ := hm
    exact ⟨x, k, rfl, hk.ofCharacters, hx⟩
  | recursive name => exact hm
  | _ => trivial

namespace Mergeable

variable {names : List Text}

/-- A mergeable node refers to the given rules only. -/
theorem targets_subset {n : Node} (h : n.Mergeable names) : n.targets ⊆ names := by
  refine throughout_refersHere.mp fun m hm name hname => ?_
  have hm := h m hm
  cases m with
  | recursive t =>
    cases hname
    exact hm
  | _ => cases hname

theorem hasAtomicChecks {n : Node} (h : n.Mergeable names) : n.hasAtomicChecks = true := by
  refine List.all_eq_true.mpr fun m hm => ?_
  have hm := h m hm
  cases m with
  | literal l =>
    obtain ⟨x, k, rfl, hk, _⟩ := hm
    simp only [Literal.single, List.all_cons, Option.all_some, List.all_nil, Bool.and_true,
      List.all_eq_true]
    intro s hs
    obtain ⟨c, rfl⟩ := hk.checks s hs
    rfl
  | _ => rfl

/-- Nothing in a mergeable node keeps it from being looked up by its key. -/
protected theorem isIndexable : ∀ {n : Node}, n.Mergeable names → n.key.isIndexable = true
  | .literal l, h => by
    obtain ⟨x, k, rfl, _⟩ := throughout_literal.mp h
    rfl
  | .sequence cs, h => hasAtomicChecks h
  | .alternation os, h => hasAtomicChecks h
  | .repetition b x, h => Mergeable.isIndexable (n := b) (throughout_repetition.mp h).2
  | .recursive name, h => hasAtomicChecks h

end Mergeable

end Node

end GrammarInference
