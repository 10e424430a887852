import GrammarInference.Proofs.Outcome
import Mathlib.Logic.Relation

/-!
# The shape of learned grammars

A learned grammar has a narrow shape (`Grammar.Shaped`). Every literal has some text and at each
position a class that holds the character there; no repetition has a greatest count; every rule has
a base, which does not refer back to the rule, and one more branch, which does so once; and rules
that refer to other rules never come back to where they started.

The rules are acyclic because they lie in layers: a rule refers to itself and to rules below it
(`Rules.Layered.acyclic`). The shape of the nodes comes from tidy nodes, whose literals are single
characters, and joining literals keeps a class at each position (`Literal.Covered.append`). What the
oracle answers plays no part in this, so that the shape is that of every grammar learned in any
session with any oracle.
-/

namespace GrammarInference

/-! ### Literals -/

/-- A class that a position with the character `c` may have. -/
structure CharClass.Covers (k : CharClass) (c : Char) : Prop where
  /-- The members are single characters. -/
  single : ∀ s ∈ k.characters, ∃ d, s = Symbol.ofChar d
  /-- The members are in strictly increasing order. -/
  ordered : k.characters.Pairwise (· < ·)
  /-- The character is a member. -/
  mem : Symbol.ofChar c ∈ k.characters
  /-- The triggers are the members. -/
  triggered : k.triggers = k.characters

/-- A literal with some text and a class at each position. -/
structure Literal.Covered (l : Literal) : Prop where
  /-- There is some text. -/
  text_ne_nil : l.text ≠ []
  /-- Each position has a class that covers the character there. -/
  classes : List.Forall₂ (fun c k => ∃ k', k = some k' ∧ k'.Covers c) l.text l.classes

namespace Literal

theorem Regular.covered {l : Literal} (h : l.Regular) : l.Covered := by
  obtain ⟨c, k, rfl, hk, hc⟩ := h
  have hcovers : k.Covers c := ⟨hk.single, hk.ordered, hc, hk.triggered⟩
  exact ⟨by simp [single], .cons ⟨k, rfl, hcovers⟩ .nil⟩

theorem Covered.classes_ne_nil {l : Literal} (h : l.Covered) : l.classes ≠ [] := by
  intro hnil
  have hlength := h.classes.length_eq
  rw [hnil, List.length_nil, List.length_eq_zero_iff] at hlength
  exact h.text_ne_nil hlength

/-- Literals side by side keep their classes. -/
theorem Covered.append {a b : Literal} (ha : a.Covered) (hb : b.Covered) :
    (a.append b).Covered := by
  have hclasses : (a.append b).classes = a.classes ++ b.classes := by
    rw [Literal.append, dif_neg fun h => ha.classes_ne_nil h.1]
    simp only [positions_of_ne_nil ha.classes_ne_nil, positions_of_ne_nil hb.classes_ne_nil]
  refine ⟨?_, ?_⟩
  · rw [text_append]
    exact List.append_ne_nil_of_left_ne_nil ha.text_ne_nil b.text
  · rw [text_append, hclasses]
    exact List.rel_append ha.classes hb.classes

end Literal

/-! ### Nodes -/

namespace Node

/-- Whether a node has the shape of nodes in a learned grammar, the nodes below it aside. -/
def ShapedHere : Node → Prop
  | .literal l => l.Covered
  | .repetition _ x => x.max = none
  | _ => True

theorem joins_shapedHere : Joins ShapedHere where
  sequence _ := trivial
  alternation _ := trivial
  repetition h _ := h
  append := Literal.Covered.append

/-- A learned node has the shape before it is made compact. -/
theorem TidyHere.shapedHere {done : List Text} {n : Node} (h : n.TidyHere done) :
    n.ShapedHere := by
  cases n with
  | literal l => exact Literal.Regular.covered h
  | repetition b x => exact h
  | _ => trivial

end Node

/-! ### Rules -/

namespace Rules

/-- A rule refers to another rule. -/
def RefersTo (r : Rules) (a b : Text) : Prop :=
  a ≠ b ∧ ∃ rule, r.get? a = some rule ∧ b ∈ rule.targets

/-- A rule is a base that does not refer to it and a branch that refers to it once. -/
def Nests (name : Text) (rule : Node) : Prop :=
  ∃ base nested, rule = .alternation [base, nested] ∧ name ∉ base.targets ∧
    nested.targets.count name = 1

namespace Layered

variable {r : Rules} {done : List Text} {a b : Text}

theorem mem_of_refersTo (h : r.Layered done) (ha : a ∈ done) (hab : r.RefersTo a b) :
    b ∈ done := by
  obtain ⟨-, rule, hrule, hb⟩ := hab
  exact (h.of_get? ha hrule).1 hb

theorem mem_of_reflTransGen (h : r.Layered done) (ha : a ∈ done)
    (hab : Relation.ReflTransGen r.RefersTo a b) : b ∈ done := by
  induction hab with
  | refl => exact ha
  | tail _ hstep ih => exact h.mem_of_refersTo ih hstep

/-- **No circles.** From the topmost rule other references lead below it and stay there. -/
theorem acyclic (h : r.Layered done) (ha : a ∈ done) : ¬ Relation.TransGen r.RefersTo a a := by
  induction h with
  | nil => cases ha
  | @cons top older base nested below hl ih =>
    intro hcircle
    rcases List.mem_cons.mp ha with rfl | ha
    · -- The first step leaves the topmost rule for a lower one, from where it is out of reach.
      obtain ⟨b, ⟨hne, rule, hrule, hb⟩, hback⟩ := Relation.TransGen.head'_iff.mp hcircle
      have hbelow : b ∈ older := by
        rw [hl.get] at hrule
        obtain rfl := Option.some.inj hrule
        rw [Node.targets_alternation, List.flatMap_cons, List.flatMap_cons, List.flatMap_nil,
          List.append_nil, List.mem_append] at hb
        rcases hb with hb | hb
        · exact hl.base hb
        · exact (List.mem_cons.mp (hl.nested hb)).resolve_left hne.symm
      exact hl.new (below.mem_of_reflTransGen hbelow hback)
    · exact ih ha hcircle

theorem nests (h : r.Layered done) (ha : a ∈ done) {rule : Node} (hrule : r.get? a = some rule) :
    Nests a rule := by
  obtain ⟨newer, older, base, nested, rfl, hl⟩ := h.layer ha
  rw [hl.get] at hrule
  obtain rfl := Option.some.inj hrule
  exact ⟨base, nested, rfl, fun hmem => hl.new (hl.base hmem), hl.once⟩

end Layered

end Rules

/-! ### Grammars -/

/-- The shape of a learned grammar. -/
structure Grammar.Shaped (g : Grammar) : Prop where
  /-- The nodes of the root and of every rule have the shape. -/
  nodes : ∀ n ∈ g.walk, n.ShapedHere
  /-- Every rule has a base, and one more branch that refers to the rule once. -/
  rules : ∀ name rule, (name, rule) ∈ g.rules.entries → Rules.Nests name rule
  /-- Rules that refer to others do not come back. -/
  acyclic : ∀ name, ¬ Relation.TransGen g.rules.RefersTo name name

/-- What joining parts cannot break holds throughout the finished grammar if it holds of learned
nodes. -/
theorem Memory.InOrder.throughout {m : Memory} {done : List Text} {root : Node}
    (h : m.InOrder done root) {P : Node → Prop} (hP : Node.Joins P)
    (htidy : ∀ n, n.TidyHere done → P n) :
    ∀ n ∈ (Grammar.mk root.compact (m.rules.compactOn (m.rules.reachable root))).walk, P n := by
  have hreached := h.ordered.layered.reachable_subset h.tidy.targets_subset
  intro n hn
  rcases List.mem_append.mp hn with hn | hn
  · exact hP.compact (fun part hpart => htidy part (h.tidy part hpart)) n hn
  · obtain ⟨⟨name, rule⟩, he, hn⟩ := List.mem_flatMap.mp hn
    have hget := Rules.get?_of_mem_entries he
    have hname := Rules.mem_of_mem_names_compactOn (Rules.mem_names_of_get? hget)
    rw [Rules.get?_compactOn hname, Option.map_eq_some_iff] at hget
    obtain ⟨rule, hrule, rfl⟩ := hget
    have hrule := h.ordered.tidy name (hreached hname) rule hrule
    exact hP.compact (fun part hpart => htidy part (hrule part hpart)) n hn

/-- A memory in order is finished with a grammar of this shape. -/
theorem Memory.InOrder.shaped {m : Memory} {done : List Text} {root : Node}
    (h : m.InOrder done root) :
    Grammar.Shaped ⟨root.compact, m.rules.compactOn (m.rules.reachable root)⟩ := by
  have hlayered := h.ordered.layered
  have hreached := hlayered.reachable_subset h.tidy.targets_subset
  have hcompact := hlayered.compactOn (hlayered.closed_reachable h.tidy.targets_subset)
  have hnames := Rules.names_compactOn_subset (r := m.rules) hreached
  refine ⟨h.throughout Node.joins_shapedHere fun _ => Node.TidyHere.shapedHere,
    fun name rule he => ?_, fun name hcircle => ?_⟩
  · have hget := Rules.get?_of_mem_entries he
    exact hcompact.nests (hnames (Rules.mem_names_of_get? hget)) hget
  · obtain ⟨b, ⟨-, rule, hrule, -⟩, -⟩ := Relation.TransGen.head'_iff.mp hcircle
    exact hcompact.acyclic (hnames (Rules.mem_names_of_get? hrule)) hcircle

/-! ### Runs -/

namespace Session

variable {σ : Type} {o : Oracle σ} {limits : Limits} {s s' : Session σ} {seeds : List Text}
  {g : Grammar}

/-- A learned grammar is a compact root with the compact rules that it reaches, taken from a memory
in order. -/
theorem inOrder_of_synthesize (h : s.synthesize o limits seeds = (.ok g, s')) :
    ∃ (m : Memory) (done : List Text) (root : Node), m.InOrder done root ∧
      g = ⟨root.compact, m.rules.compactOn (m.rules.reachable root)⟩ := by
  have hreach :=
    ((Learner.synthesize limits seeds).tree Memory.empty).reaches_any o s
  rw [synthesize, learn] at h
  split at h
  · next g' m s₁ hrun =>
    rw [hrun] at hreach
    obtain rfl := Except.ok.inj (congrArg Prod.fst h)
    exact ⟨m, (Learner.inOrder_of_returns_synthesize hreach).2.2⟩
  · cases h

/-- **Shape.** A grammar that is learned has the shape of learned grammars, whatever the oracle
answers, the limits are, and the session remembers. -/
theorem shaped_of_synthesize (h : s.synthesize o limits seeds = (.ok g, s')) : g.Shaped := by
  obtain ⟨m, done, root, hroot, rfl⟩ := inOrder_of_synthesize h
  exact hroot.shaped

/-- Whether a text is some letters `x` in pairs of parentheses. -/
def isEnclosed (t : Text) : Bool :=
  let depth := (t.takeWhile (· = '(')).length
  2 * depth < t.length && t = List.replicate depth '(' ++
    List.replicate (t.length - 2 * depth) 'x' ++ List.replicate depth ')'

/-- From two letters in two pairs of parentheses two rules are learned, the first of which refers to
the second one and to itself. -/
theorem shaped_of_synthesize_enclosed : ∃ g s,
    (start none ()).synthesize (Oracle.ofPredicate isEnclosed) Limits.strict
      [['(', '(', 'x', 'x', ')', ')']] = (.ok g, s) ∧
    g.rules.entries.map (fun e => (e.1, e.2.targets)) =
      [(['r', '0'], [['r', '1'], ['r', '0']]), (['r', '1'], [['r', '1']])] ∧ g.Shaped := by
  have hrun : ∃ g s, (start none ()).synthesize (Oracle.ofPredicate isEnclosed) Limits.strict
      [['(', '(', 'x', 'x', ')', ')']] = (.ok g, s) ∧
      g.rules.entries.map (fun e => (e.1, e.2.targets)) =
        [(['r', '0'], [['r', '1'], ['r', '0']]), (['r', '1'], [['r', '1']])] :=
    ⟨_, _, rfl, rfl⟩
  obtain ⟨g, s, h, hrules⟩ := hrun
  exact ⟨g, s, h, hrules, shaped_of_synthesize h⟩

end Session

end GrammarInference
