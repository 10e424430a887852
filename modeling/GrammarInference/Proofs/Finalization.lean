import GrammarInference.Proofs.Consistency
import GrammarInference.Proofs.LearnedShape
import GrammarInference.Proofs.Normalization

/-!
# Which rules are finished

The finished grammar has the rules that the root reaches, and no others. The search for them takes
steps of its own, each from all names that are known to the rules that these refer to; after as many
steps as there are rules and one more, nothing new is found, since a step that finds no new rule is
followed by one that finds no new name (`Rules.mem_reachWithin`). This holds of any table, also of
one with references that lead nowhere.

Finishing succeeds if the rules that are reached are built as learning builds them (`Rules.Built`).
What learning has left behind elsewhere in the table does not matter.
-/

namespace GrammarInference

namespace Rules

variable {r : Rules} {root : Node} {known done : List Text} {a b name : Text}

/-! ### Reached rules -/

/-- The rule `a` mentions `b`. -/
def Mentions (r : Rules) (a b : Text) : Prop := ∃ rule, r.get? a = some rule ∧ b ∈ rule.targets

/-- A root reaches a name by references, its own and those of rules. -/
def Reached (r : Rules) (root : Node) (name : Text) : Prop :=
  ∃ first ∈ root.targets, Relation.ReflTransGen r.Mentions first name

theorem reached_of_mem_targets (h : name ∈ root.targets) : r.Reached root name := ⟨name, h, .refl⟩

theorem Reached.tail (h : r.Reached root a) (hab : r.Mentions a b) : r.Reached root b := by
  obtain ⟨first, hfirst, hpath⟩ := h
  exact ⟨first, hfirst, hpath.tail hab⟩

theorem Closed.mem_of_reflTransGen (h : r.Closed done) (ha : a ∈ done)
    (hab : Relation.ReflTransGen r.Mentions a b) : b ∈ done := by
  induction hab with
  | refl => exact ha
  | tail _ hstep ih =>
    obtain ⟨rule, hrule, hb⟩ := hstep
    exact h _ ih rule hrule hb

/-- What is found within some steps is reached. -/
theorem reached_of_mem_reachWithin (hknown : ∀ name ∈ known, r.Reached root name) (steps : Nat) :
    ∀ name ∈ r.reachWithin steps known, r.Reached root name := by
  induction steps generalizing known with
  | zero => exact hknown
  | succ steps ih =>
    refine ih fun k hk => ?_
    rcases mem_reachStep.mp hk with hk | ⟨a, ha, rule, hrule, hk⟩
    · exact hknown k hk
    · exact (hknown a ha).tail ⟨rule, hrule, hk⟩

/-- How many of the names have rules. -/
def countKnown (r : Rules) (known : List Text) : Nat := (known.filter (· ∈ r.names)).length

theorem countKnown_le_size (hnodup : known.Nodup) : r.countKnown known ≤ r.size := by
  have hsub : known.filter (· ∈ r.names) ⊆ r.names :=
    fun k hk => of_decide_eq_true (List.mem_filter.mp hk).2
  have hle := (List.subperm_of_subset (hnodup.filter _) hsub).length_le
  rwa [names, List.length_map] at hle

/-- A step finds a new rule, or all is found: names without rules lead nowhere. -/
theorem closed_reachStep_or_lt (hnodup : known.Nodup) :
    r.Closed (r.reachStep known) ∨ r.countKnown known < r.countKnown (r.reachStep known) := by
  by_cases hsub : ∀ k ∈ r.reachStep known, k ∈ r.names → k ∈ known
  · -- A name with a rule was known already, so that this step has looked at its rule.
    refine .inl fun k hk rule hrule target htarget => ?_
    have hk := hsub k hk (mem_names_of_get? hrule)
    exact mem_reachStep.mpr (.inr ⟨k, hk, rule, hrule, htarget⟩)
  · push Not at hsub
    obtain ⟨k, hk, hname, hnew⟩ := hsub
    -- The new rule comes in addition to those that were known.
    have hcons : k :: known.filter (· ∈ r.names) ⊆ (r.reachStep known).filter (· ∈ r.names) := by
      refine List.cons_subset.mpr ⟨List.mem_filter.mpr ⟨hk, decide_eq_true hname⟩, fun j hj => ?_⟩
      obtain ⟨hj, hjname⟩ := List.mem_filter.mp hj
      exact List.mem_filter.mpr ⟨r.subset_reachStep known hj, hjname⟩
    have hnodup' := List.nodup_cons.mpr
      ⟨fun hmem => hnew (List.mem_filter.mp hmem).1, hnodup.filter (· ∈ r.names)⟩
    exact .inr (List.subperm_of_subset hnodup' hcons).length_le

/-- **The bound of the search.** One step more than there are rules left to find closes the
names. -/
theorem closed_reachWithin (hnodup : known.Nodup) {steps : Nat}
    (hsteps : r.size < r.countKnown known + steps) : r.Closed (r.reachWithin steps known) := by
  induction steps generalizing known with
  | zero => exact absurd (countKnown_le_size hnodup) (Nat.not_le_of_lt hsteps)
  | succ steps ih =>
    rcases closed_reachStep_or_lt (r := r) hnodup with hclosed | hlt
    · exact hclosed.reachWithin steps
    · exact ih (r.nodup_reachStep known) (by omega)

/-- **Reached names.** The search finds the names that the root reaches, within more steps than
there are rules. -/
theorem mem_reachWithin {steps : Nat} (hsteps : r.size < steps) :
    name ∈ r.reachWithin steps (Text.distinct root.targets) ↔ r.Reached root name := by
  constructor
  · refine reached_of_mem_reachWithin (fun k hk => ?_) steps name
    exact reached_of_mem_targets (Text.mem_distinct.mp hk)
  · rintro ⟨first, hfirst, hpath⟩
    have hclosed := closed_reachWithin (r := r) (Text.nodup_distinct root.targets)
      (Nat.lt_add_left _ hsteps)
    exact hclosed.mem_of_reflTransGen
      (r.subset_reachWithin steps _ (Text.mem_distinct.mpr hfirst)) hpath

theorem mem_reachable : name ∈ r.reachable root ↔ r.Reached root name :=
  mem_reachWithin (Nat.lt_succ_self _)

/-! ### Built rules -/

/-- A root and the rules that it reaches, as learning builds them. -/
structure Built (r : Rules) (root : Node) : Prop where
  /-- Every reference has a rule. -/
  present : ∀ name, r.Reached root name → name ∈ r.names
  /-- A rule may refer to itself, but does not come back through other rules. -/
  acyclic : ∀ name, r.Reached root name → ¬ Relation.TransGen r.RefersTo name name
  /-- Every rule has a branch that does not refer back to it. -/
  base : ∀ name, r.Reached root name → ∀ rule, r.get? name = some rule →
    ∃ b ∈ rule.branches, name ∉ b.targets
  /-- No rule loses its branches when it is made compact. -/
  keeps : ∀ name, r.Reached root name → ∀ rule, r.get? name = some rule → rule.compact.branches ≠ []
  /-- The members of classes in the root are characters. -/
  printable_root : root.isPrintable = true
  /-- The members of classes in the rules are characters. -/
  printable_rules : ∀ name, r.Reached root name → ∀ rule, r.get? name = some rule →
    rule.isPrintable = true

/-- A rule with several branches keeps them. -/
theorem branches_compact_ne_nil {os : List Node} (h : os ≠ []) :
    (Node.alternation os).compact.branches ≠ [] := by
  simp only [Node.compact, Node.compactAll_eq_map, Node.branches]
  exact List.map_eq_nil_iff.not.mpr h

/-- From rules that lie in layers none but these are reached. -/
theorem Layered.mem_of_reached (h : r.Layered done) (hroot : root.targets ⊆ done)
    (hname : r.Reached root name) : name ∈ done := by
  obtain ⟨first, hfirst, hpath⟩ := hname
  exact h.closed.mem_of_reflTransGen (hroot hfirst) hpath

/-- Rules that lie in layers are built so. -/
theorem Layered.built (h : r.Layered done) (hroot : root.targets ⊆ done)
    (hprint : root.isPrintable = true)
    (hrules : ∀ name ∈ done, ∀ rule, r.get? name = some rule → rule.isPrintable = true) :
    r.Built root := by
  have hdone : ∀ name, r.Reached root name → name ∈ done := fun _ => h.mem_of_reached hroot
  refine ⟨fun name hname => h.subset_names (hdone name hname),
    fun name hname => h.acyclic (hdone name hname), fun name hname rule hrule => ?_,
    fun name hname rule hrule => ?_, hprint, fun name hname => hrules name (hdone name hname)⟩
  · obtain ⟨base, nested, rfl, hbase, -⟩ := h.nests (hdone name hname) hrule
    exact ⟨base, .head _, hbase⟩
  · obtain ⟨base, nested, rfl, -⟩ := h.nests (hdone name hname) hrule
    exact branches_compact_ne_nil (by simp)

/-! ### The finished rules -/

/-- The rules that are kept stay in the order in which they came. -/
theorem names_compactOn (r : Rules) (reached : List Text) :
    (r.compactOn reached).names = r.names.filter (· ∈ reached) := by
  simp only [compactOn, filterMap, names, List.map_map, List.filter_map]
  rfl

/-- A compact rule has a branch that does not refer back to it if the rule has one. -/
theorem exists_base_compact {rule : Node} (hkeep : rule.compact.branches ≠ [])
    (h : ∃ b ∈ rule.branches, name ∉ b.targets) :
    ∃ b ∈ rule.compact.branches, name ∉ b.targets := by
  obtain ⟨b, hb, hname⟩ := h
  by_cases halt : rule.IsAlternation
  · obtain ⟨os, rfl⟩ := halt
    refine ⟨b.compact, ?_, by rwa [Node.targets_compact]⟩
    simp only [Node.compact, Node.compactAll_eq_map, Node.branches]
    exact List.mem_map_of_mem hb
  · -- The rule is its only branch; whatever it becomes, nothing in it refers back.
    rw [Node.branches_of_not_alternation halt, List.mem_singleton] at hb
    obtain ⟨b', hb'⟩ := List.exists_mem_of_ne_nil _ hkeep
    refine ⟨b', hb', fun hmem => hname ?_⟩
    rw [hb, ← Node.targets_compact]
    exact Node.targets_subset_of_mem_branches hb' hmem

namespace Built

theorem mem_names_compactOn (h : r.Built root) :
    name ∈ (r.compactOn (r.reachable root)).names ↔ r.Reached root name := by
  rw [names_compactOn, List.mem_filter, decide_eq_true_iff, mem_reachable]
  exact and_iff_right_of_imp (h.present name)

theorem get?_compactOn_reachable (hname : r.Reached root name) :
    (r.compactOn (r.reachable root)).get? name = (r.get? name).map Node.compact :=
  get?_compactOn (mem_reachable.mpr hname)

/-- A finished rule is a rule that was reached, made compact. -/
theorem of_get?_compactOn (h : r.Built root) {rule : Node}
    (hrule : (r.compactOn (r.reachable root)).get? name = some rule) :
    r.Reached root name ∧ ∃ rule', r.get? name = some rule' ∧ rule = rule'.compact := by
  have hname := h.mem_names_compactOn.mp (mem_names_of_get? hrule)
  rw [get?_compactOn_reachable hname] at hrule
  obtain ⟨rule', hrule', rfl⟩ := Option.map_eq_some_iff.mp hrule
  exact ⟨hname, rule', hrule', rfl⟩

/-- First base branches of finished rules refer to other rules. -/
theorem refersTo_of_defaultRefers (h : r.Built root)
    (hab : (r.compactOn (r.reachable root)).DefaultRefers a b) : r.RefersTo a b := by
  obtain ⟨rule, base, hrule, hbase, hb⟩ := hab
  obtain ⟨-, rule', hrule', rfl⟩ := h.of_get?_compactOn hrule
  refine ⟨?_, rule', hrule', ?_⟩
  · rintro rfl
    simpa [Node.refersTo, hb] using List.find?_some hbase
  · rw [← Node.targets_compact]
    exact Node.targets_subset_of_mem_branches (List.mem_of_find?_eq_some hbase) hb

/-- The finished grammar is consistent. -/
theorem consistent (h : r.Built root) :
    Grammar.Consistent ⟨root.compact, r.compactOn (r.reachable root)⟩ := by
  refine ⟨fun name hname => ?_, fun name rule hrule => ?_, fun name hcircle => ?_⟩
  · refine h.mem_names_compactOn.mpr ?_
    rcases List.mem_append.mp hname with hname | hname
    · have hname := Node.mem_filterMap_target?.mpr hname
      rw [← Node.targets, Node.targets_compact] at hname
      exact reached_of_mem_targets hname
    · obtain ⟨⟨k, rule⟩, he, hname⟩ := List.mem_flatMap.mp hname
      obtain ⟨hk, rule', hrule', rfl⟩ := h.of_get?_compactOn (get?_of_mem_entries he)
      have hname := Node.mem_filterMap_target?.mpr hname
      rw [← Node.targets, Node.targets_compact] at hname
      exact hk.tail ⟨rule', hrule', hname⟩
  · obtain ⟨hname, rule', hrule', rfl⟩ := h.of_get?_compactOn hrule
    exact exists_base_compact (h.keeps name hname rule' hrule') (h.base name hname rule' hrule')
  · obtain ⟨b, ⟨rule, -, hrule, -⟩, -⟩ := Relation.TransGen.head'_iff.mp hcircle
    have hname := (h.of_get?_compactOn hrule).1
    refine h.acyclic name hname ?_
    exact Relation.TransGen.mono (fun _ _ => h.refersTo_of_defaultRefers) _ _ hcircle

/-- The finished grammar can be printed. -/
theorem exists_format? (h : r.Built root) :
    ∃ shown, Grammar.format? ⟨root.compact, r.compactOn (r.reachable root)⟩ = some shown := by
  unfold Grammar.format?
  refine ⟨_, if_pos ?_⟩
  rw [Bool.and_eq_true, List.all_eq_true]
  refine ⟨Node.isPrintable_compact h.printable_root, fun ⟨k, rule⟩ he => ?_⟩
  obtain ⟨hk, rule', hrule', rfl⟩ := h.of_get?_compactOn (get?_of_mem_entries he)
  exact Node.isPrintable_compact (h.printable_rules k hk rule' hrule')

/-- The finished root derives what the root derived under all rules. -/
theorem derives_compactOn (h : r.Built root) {t : Text} :
    Derives (r.compactOn (r.reachable root)) root.compact t ↔ Derives r root t := by
  have hreplaced : ReplacedBy {k | r.Reached root k} r (r.compactOn (r.reachable root)) :=
    replacedBy_compact (fun k hk => decide_eq_true (mem_reachable.mpr hk))
      (fun k hk rule hrule j hj => hk.tail ⟨rule, hrule, hj⟩)
      fun k hk rule hrule hnil => absurd hnil (h.keeps k hk rule hrule)
  constructor
  · refine Derives.of_yields fun xs hxs => ?_
    have hroot := (Node.yields_compact root xs).mp hxs
    exact hroot.of_replacedBy (replacedBy_of_compact _ r) fun _ _ => trivial
  · refine Derives.of_yields fun xs hxs => (Node.yields_compact root xs).mpr ?_
    exact hxs.of_replacedBy hreplaced fun k hk => reached_of_mem_targets hk

end Built

end Rules

/-! ### Memories that learning leaves -/

/-- Learning builds a root and rules of this kind. -/
theorem Memory.InOrder.built {m : Memory} {done : List Text} {root : Node}
    (h : m.InOrder done root) : m.rules.Built root :=
  h.ordered.layered.built h.tidy.targets_subset h.tidy.mergeable.isPrintable
    fun name hname rule hrule => (h.ordered.tidy name hname rule hrule).mergeable.isPrintable

namespace Session

variable {σ : Type} {o : Oracle σ} {limits : Limits} {s s' : Session σ} {seeds : List Text}
  {g : Grammar} {m : Memory} {root : Node}

/-- A learned grammar was finished from a root and rules of this kind. -/
theorem built_of_synthesize (h : s.synthesize o limits seeds = (.ok g, s')) :
    ∃ (m : Memory) (root : Node), m.rules.Built root ∧
      g = ⟨root.compact, m.rules.compactOn (m.rules.reachable root)⟩ := by
  obtain ⟨m, done, root, hm, hg⟩ := inOrder_of_synthesize h
  exact ⟨m, root, hm.built, hg⟩

/-! ### Runs -/

/-- **The run.** Finishing asks nothing and leaves the memory as it was; it notes the grammar that
it ends with. -/
theorem learn_finalize (h : m.rules.Built root) (s : Session σ) (o : Oracle σ) :
    ∃ shown, Grammar.format? ⟨root.compact, m.rules.compactOn (m.rules.reachable root)⟩ =
        some shown ∧
      s.learn o (Learner.finalize root) m =
        ((.ok ⟨root.compact, m.rules.compactOn (m.rules.reachable root)⟩, m),
          s.addNote ⟨.info, "Synthesized grammar:\n".toList ++ shown⟩) := by
  obtain ⟨shown, hshown⟩ := h.exists_format?
  have hvalid := Grammar.validate_of_consistent h.consistent
  have hknown : (m.rules.reachable root).find? (fun name => !m.rules.contains name) = none := by
    refine List.find?_eq_none.mpr fun name hname => ?_
    simpa [Rules.contains] using h.present name (Rules.mem_reachable.mp hname)
  refine ⟨shown, hshown, ?_⟩
  -- Finishing may fail in three places: at a reference, at the check, and where it prints.
  unfold Rules.compactOn at hvalid hshown ⊢
  have hrules : Learns o s Learner.rules m m.rules m s := rfl
  rw [Learner.finalize, learn_bind hrules]
  dsimp only
  rw [hknown]
  dsimp only
  rw [hvalid]
  dsimp only
  rw [hshown]
  rfl

/-- **Finishing** succeeds for a root and rules as learning builds them. The finished grammar has
the rules that the root reaches, each made compact and all in the order in which they came, and no
others; it passes the check, and its root derives what the root derived under all rules. The search
for the rules needs no more steps than it takes. -/
theorem finalize_keeps_reached (h : m.rules.Built root) (s : Session σ) (o : Oracle σ) :
    ∃ g shown, s.learn o (Learner.finalize root) m =
        ((.ok g, m), s.addNote ⟨.info, "Synthesized grammar:\n".toList ++ shown⟩) ∧
      g.format? = some shown ∧
      g.root = root.compact ∧
      (∀ name, name ∈ g.rules.names ↔ m.rules.Reached root name) ∧
      g.rules.names.Sublist m.rules.names ∧
      (∀ name, m.rules.Reached root name →
        g.rules.get? name = (m.rules.get? name).map Node.compact) ∧
      (∀ steps, m.rules.size < steps → ∀ name,
        name ∈ m.rules.reachWithin steps (Text.distinct root.targets) ↔
          m.rules.Reached root name) ∧
      g.validate = .ok () ∧
      ∀ t, Derives g.rules g.root t ↔ Derives m.rules root t := by
  obtain ⟨shown, hshown, hrun⟩ := learn_finalize h s o
  refine ⟨_, shown, hrun, hshown, rfl, fun _ => h.mem_names_compactOn, ?_,
    fun _ => Rules.Built.get?_compactOn_reachable, fun _ hsteps _ => Rules.mem_reachWithin hsteps,
    Grammar.validate_of_consistent h.consistent, fun _ => h.derives_compactOn⟩
  rw [Rules.names_compactOn]
  exact List.filter_sublist

/-- A rule that refers to itself, one that was left behind, and one that refers to the first. -/
def abandonedRules : Rules :=
  ⟨[("r0".toList, .alternation [.literal (.plain ['x']),
      .sequence [.literal (.plain ['(']), .recursive "r0".toList, .literal (.plain [')'])]]),
    ("r1".toList, .alternation [.recursive "r0".toList, .literal (.plain ['y'])]),
    ("r2".toList, .alternation [.recursive "r0".toList,
      .sequence [.recursive "r2".toList, .recursive "r0".toList]])], by decide⟩

/-- The rule that was left behind does not lie in the layers. -/
theorem layered_abandonedRules : abandonedRules.Layered ["r2".toList, "r0".toList] :=
  .cons (.cons .nil ⟨by simp, rfl, by simp, by simp, by simp⟩)
    ⟨by simp, rfl, by simp, by simp, by simp⟩

/-- The rule that was left behind is dropped, and a rule that only another rule refers to is
kept. -/
theorem finalize_keeps_reached_abandonedRules :
    abandonedRules.Built (.recursive "r2".toList) ∧
      ∃ g s, (start none ()).learn (Oracle.ofPredicate fun _ => true)
          (Learner.finalize (.recursive "r2".toList)) ⟨abandonedRules, []⟩ =
            ((.ok g, ⟨abandonedRules, []⟩), s) ∧
        "r0".toList ∈ g.rules.names ∧ "r1".toList ∉ g.rules.names := by
  have hroot : (Node.recursive "r2".toList).targets ⊆ ["r2".toList, "r0".toList] := by simp
  have hprint : ∀ name rule, abandonedRules.get? name = some rule → rule.isPrintable = true := by
    intro name rule hrule
    have hmem := Rules.mem_entries_of_get? hrule
    simp only [abandonedRules, List.mem_cons, Prod.mk.injEq, List.not_mem_nil, or_false] at hmem
    rcases hmem with ⟨-, rfl⟩ | ⟨-, rfl⟩ | ⟨-, rfl⟩ <;> rfl
  have hbuilt := layered_abandonedRules.built hroot rfl fun name _ => hprint name
  obtain ⟨g, shown, hrun, -, -, hnames, -⟩ :=
    finalize_keeps_reached (m := ⟨abandonedRules, []⟩) hbuilt (start none ())
      (Oracle.ofPredicate fun _ => true)
  have hfirst : abandonedRules.Reached (.recursive "r2".toList) "r2".toList :=
    Rules.reached_of_mem_targets (by simp)
  refine ⟨hbuilt, g, _, hrun, (hnames _).mpr ?_, fun hmem => ?_⟩
  · exact hfirst.tail ⟨_, rfl, by simp⟩
  · have hdone := layered_abandonedRules.mem_of_reached hroot ((hnames _).mp hmem)
    simp at hdone

end Session

end GrammarInference
