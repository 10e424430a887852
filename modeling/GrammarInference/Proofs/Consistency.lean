import GrammarInference.Proofs.LoadedGrammars
import GrammarInference.Proofs.Shortages
import Mathlib.Logic.Relation

/-!
# What the check of a grammar finds

A grammar passes the check if and only if it is `Grammar.Consistent`: every reference has a rule,
every rule has a branch that does not refer back to it, and the first such branches lead into no
circle. Otherwise an error is reported, and what it says is true (`GrammarError.Holds`).

The search for circles keeps the rules that are active. Each of them leads, by first base branches,
to the rule that is visited; so an active rule that is met once more lies on a circle
(`Rules.circle_of_visit`). The other direction is the order in which rules are finished. Active
rules are different rules of the table, which bounds the search: with more room for steps down it
comes out the same (`Rules.circleWithin_eq`).

A grammar in order has a default text for every node over its rules. What is left open is how long
this text is, how many copies it takes and how far references lead to it, so that a machine need not
be able to put it together (`Grammar.validate_exact`).
-/

namespace GrammarInference

namespace Rules

variable {r : Rules} {a b name : Text} {active done done' circle : List Text}

/-! ### First base branches -/

/-- The first base branch of the rule `a` refers to `b`. -/
def DefaultRefers (r : Rules) (a b : Text) : Prop :=
  ∃ rule base, r.get? a = some rule ∧ rule.firstBase? a = some base ∧ b ∈ base.targets

theorem mem_needs : b ∈ r.needs a ↔ r.DefaultRefers a b := by
  unfold needs DefaultRefers
  cases hrule : r.get? a with
  | none => simp
  | some rule => cases hbase : rule.firstBase? a <;> simp [hbase]

theorem DefaultRefers.mem_names (h : r.DefaultRefers a b) : a ∈ r.names := by
  obtain ⟨rule, -, hrule, -⟩ := h
  exact mem_names_of_get? hrule

/-- What leads to a rule of the table is a rule of the table. -/
theorem mem_names_of_reflTransGen (h : Relation.ReflTransGen r.DefaultRefers a b)
    (hb : b ∈ r.names) : a ∈ r.names := by
  rcases h.cases_head with rfl | ⟨c, hac, -⟩
  · exact hb
  · exact hac.mem_names

/-- From grounded rules, first base branches lead down only. -/
theorem Grounded.acc (h : r.Grounded done) (ha : a ∈ done) :
    Acc (fun b a => r.DefaultRefers a b) a := by
  induction h generalizing a with
  | nil => cases ha
  | @cons top older rule base _ get first needs ih =>
    rcases List.mem_cons.mp ha with rfl | ha
    · refine .intro _ fun b ⟨rule', base', hrule, hbase, hb⟩ => ih (needs ?_)
      obtain rfl := Option.some.inj (get.symm.trans hrule)
      obtain rfl := Option.some.inj (first.symm.trans hbase)
      exact hb
    · exact ih ha

/-- Grounded rules lie on no circle of first base branches. -/
theorem Grounded.acyclic (h : r.Grounded done) (ha : a ∈ done) :
    ¬ Relation.TransGen r.DefaultRefers a a := by
  have hacc := (h.acc ha).transGen
  clear ha
  intro hcircle
  induction hacc with
  | intro b _ ih => exact ih b (Relation.transGen_swap.mpr hcircle) hcircle

/-! ### Circles that are met -/

/-- A search over several rules that meets a circle meets it at one of them. -/
theorem exists_of_foldlM_error {f : List Text → Text → Except (List Text) (List Text)}
    {names : List Text} (h : names.foldlM f done = .error circle) :
    ∃ name ∈ names, ∃ before, f before name = .error circle := by
  induction names generalizing done with
  | nil => cases h
  | cons name rest ih =>
    rw [List.foldlM_cons] at h
    cases hf : f done name with
    | error circle' =>
      rw [hf] at h
      cases h
      exact ⟨name, .head _, done, hf⟩
    | ok middle =>
      rw [hf] at h
      obtain ⟨name', hname', hbefore⟩ := ih h
      exact ⟨name', .tail _ hname', hbefore⟩

/-- The rules of a list lead to a rule among them that lies on a circle. -/
def LeadsIntoCircle (r : Rules) (names : List Text) : Prop :=
  ∃ c ∈ names, Relation.TransGen r.DefaultRefers c c ∧
    ∀ a ∈ names, a ∈ r.names ∧ Relation.ReflTransGen r.DefaultRefers a c

/-- **A visit** that meets a circle is right about it, if the active rules lead to the one that is
visited. -/
theorem circle_of_visit (fuel : Nat)
    (hactive : ∀ a ∈ active, Relation.ReflTransGen r.DefaultRefers a name)
    (h : r.visit fuel active done name = .error circle) : r.LeadsIntoCircle circle := by
  induction fuel generalizing active name done with
  | zero => cases h
  | succ fuel ih =>
    simp only [visit] at h
    cases hseen : (r.needs name).foldlM (fun done child =>
        if child ∈ active then .error (Text.sortedSet active)
        else if child ∈ done then .ok done
        else r.visit fuel (child :: active) done child) done with
    | ok seen =>
      rw [hseen] at h
      cases h
    | error circle' =>
      rw [hseen] at h
      cases h
      obtain ⟨child, hchild, before, hstep⟩ := exists_of_foldlM_error hseen
      have hname := mem_needs.mp hchild
      have hbelow : ∀ a ∈ active, Relation.ReflTransGen r.DefaultRefers a child :=
        fun a ha => (hactive a ha).tail hname
      split at hstep
      · next hmem =>
        -- The child leads to the rule that is visited, which refers to the child.
        cases hstep
        refine ⟨child, Text.mem_sortedSet.mpr hmem, .tail' (hactive child hmem) hname, ?_⟩
        intro a ha
        have ha := Text.mem_sortedSet.mp ha
        exact ⟨mem_names_of_reflTransGen (hactive a ha) hname.mem_names, hbelow a ha⟩
      · split at hstep
        · cases hstep
        · exact ih (List.forall_mem_cons.mpr ⟨.refl, hbelow⟩) hstep

/-! ### The bound of the search -/

/-- The first circle among the base branches, with `fuel` for the steps down from each rule. -/
def circleWithin (r : Rules) (fuel : Nat) : Option (List Text) :=
  match r.names.foldlM (fun done name =>
    if name ∈ done then .ok done else r.visit fuel [name] done name) [] with
  | .ok _ => none
  | .error circle => some circle

/-- A search that goes through the same rules in the same way has the same outcome. -/
private theorem foldlM_congr {f g : List Text → Text → Except (List Text) (List Text)}
    {names : List Text} (h : ∀ name ∈ names, ∀ done, f done name = g done name)
    (done : List Text) : names.foldlM f done = names.foldlM g done := by
  induction names generalizing done with
  | nil => rfl
  | cons name rest ih =>
    obtain ⟨hname, hrest⟩ := List.forall_mem_cons.mp h
    rw [List.foldlM_cons, List.foldlM_cons, hname done]
    exact bind_congr fun middle => ih hrest middle

/-- **A visit** does not need more fuel than there are rules that are not active. The rule that is
visited need not be one of the table; the rules on the way to it are. -/
theorem visit_succ (fuel : Nat) (hnodup : (name :: active).Nodup) (hactive : active ⊆ r.names)
    (hfuel : r.size < fuel + active.length) :
    r.visit (fuel + 1) (name :: active) done name = r.visit fuel (name :: active) done name := by
  induction fuel generalizing active name done with
  | zero =>
    -- All active rules but the visited one are different rules of the table, so some fuel is left.
    have hle := (List.subperm_of_subset hnodup.of_cons hactive).length_le
    rw [names, List.length_map] at hle
    unfold size at hfuel
    omega
  | succ fuel ih =>
    have hchildren : ∀ child ∈ r.needs name, ∀ before,
        (if child ∈ name :: active then .error (Text.sortedSet (name :: active))
          else if child ∈ before then .ok before
          else r.visit (fuel + 1) (child :: name :: active) before child) =
        (if child ∈ name :: active then .error (Text.sortedSet (name :: active))
          else if child ∈ before then Except.ok before
          else r.visit fuel (child :: name :: active) before child) := by
      intro child hchild before
      split
      · rfl
      · next hnew =>
        split
        · rfl
        · have hname := (mem_needs.mp hchild).mem_names
          refine ih (List.nodup_cons.mpr ⟨hnew, hnodup⟩)
            (List.cons_subset.mpr ⟨hname, hactive⟩) ?_
          rw [List.length_cons]
          omega
    rw [visit, visit, foldlM_congr hchildren]

/-- **The search ends.** With more fuel than there are rules, it comes out the same however much
there is. -/
theorem circleWithin_eq {fuel : Nat} (h : r.size < fuel) : r.circleWithin fuel = r.baseCycle? := by
  induction h with
  | refl => rfl
  | @step fuel h ih =>
    rw [← ih, circleWithin, circleWithin]
    have hvisit : ∀ name ∈ r.names, ∀ done : List Text,
        (if name ∈ done then .ok done else r.visit (fuel + 1) [name] done name) =
          if name ∈ done then Except.ok done else r.visit fuel [name] done name := by
      intro name _ done
      split
      · rfl
      · exact visit_succ fuel (List.nodup_singleton name) (List.nil_subset _)
          (Nat.lt_of_succ_le h)
    rw [foldlM_congr hvisit]

/-- A circle that is reported is one. -/
theorem circle_of_baseCycle? (h : r.baseCycle? = some circle) : r.LeadsIntoCircle circle := by
  unfold baseCycle? at h
  dsimp only at h
  split at h
  · cases h
  · next circle' hcircle =>
    cases h
    obtain ⟨name, -, before, hstep⟩ := exists_of_foldlM_error hcircle
    split at hstep
    · cases hstep
    · exact circle_of_visit (r.size + 1) (List.forall_mem_singleton.mpr .refl) hstep

end Rules

/-! ### References -/

/-- The references in nodes, by the rules that they go to. -/
theorem Node.mem_filterMap_target? {ns : List Node} {name : Text} :
    name ∈ ns.filterMap Node.target? ↔ .recursive name ∈ ns := by
  rw [List.mem_filterMap]
  constructor
  · rintro ⟨n, hn, ht⟩
    cases n with
    | recursive t =>
      cases ht
      exact hn
    | _ => cases ht
  · intro h
    exact ⟨_, h, rfl⟩

/-- A rule without a first base branch refers back to itself in all branches. -/
theorem Node.firstBase?_eq_none_iff {rule : Node} {name : Text} :
    rule.firstBase? name = none ↔ ∀ b ∈ rule.branches, name ∈ b.targets := by
  simp [Node.firstBase?, List.find?_eq_none, Node.refersTo]

namespace Grammar

variable {g : Grammar}

/-! ### Consistency -/

/-- A grammar in which references can be followed to the end. -/
structure Consistent (g : Grammar) : Prop where
  /-- Every reference has a rule. -/
  targets : ∀ name, .recursive name ∈ g.walk → name ∈ g.rules.names
  /-- Every rule has a branch that does not refer back to it. -/
  base : ∀ name rule, g.rules.get? name = some rule → ∃ b ∈ rule.branches, name ∉ b.targets
  /-- The first such branches lead into no circle. -/
  acyclic : ∀ name, ¬ Relation.TransGen g.rules.DefaultRefers name name

end Grammar

/-- What an error of the check says about a grammar. -/
def GrammarError.Holds (g : Grammar) : GrammarError → Prop
  -- there is a reference to the rule, and no such rule
  | .danglingReference name => .recursive name ∈ g.walk ∧ name ∉ g.rules.names
  -- all branches of the rule refer back to it
  | .noBaseCase name =>
    ∃ rule, g.rules.get? name = some rule ∧ ∀ b ∈ rule.branches, name ∈ b.targets
  -- the first base branches of the rules lead into a circle
  | .baseCycle names => g.rules.LeadsIntoCircle names
  -- no other error is one of the check
  | _ => False

namespace Grammar

variable {g : Grammar}

/-- A grammar with a fault that holds is not consistent. -/
theorem not_consistent_of_holds {e : GrammarError} (h : e.Holds g) : ¬ g.Consistent := by
  intro hg
  cases e with
  | danglingReference name => exact h.2 (hg.targets name h.1)
  | noBaseCase name =>
    obtain ⟨rule, hrule, hall⟩ := h
    obtain ⟨b, hb, hnot⟩ := hg.base name rule hrule
    exact hnot (hall b hb)
  | baseCycle names =>
    obtain ⟨c, -, hcircle, -⟩ := h
    exact hg.acyclic c hcircle
  | _ => exact h

/-- **Reports.** What the check reports holds. -/
theorem holds_of_validate {e : GrammarError} (h : g.validate = .error e) : e.Holds g := by
  unfold validate at h
  split at h
  · next name hdangling =>
    cases h
    refine ⟨Node.mem_filterMap_target?.mp (List.mem_of_find?_eq_some hdangling), ?_⟩
    simpa [Rules.contains] using List.find?_some hdangling
  · split at h
    · next name hbaseless =>
      cases h
      obtain ⟨⟨k, rule⟩, hfound, rfl⟩ := Option.map_eq_some_iff.mp hbaseless
      refine ⟨rule, Rules.get?_of_mem_entries (List.mem_of_find?_eq_some hfound), ?_⟩
      exact Node.firstBase?_eq_none_iff.mp (by simpa using List.find?_some hfound)
    · split at h
      · next circle hcircle =>
        cases h
        exact Rules.circle_of_baseCycle? hcircle
      · cases h

/-- What passes the check is consistent. -/
theorem consistent_of_validate (h : g.validate = .ok ()) : g.Consistent := by
  have hresolves := resolves_of_validate h
  refine ⟨fun name hname => ?_, fun name rule hrule => ?_, fun name hcircle => ?_⟩
  · exact hresolves.targets _ (contains_of_mem_walk hname) (by simp)
  · obtain ⟨b, hb⟩ := hresolves.base name rule hrule
    refine ⟨b, List.mem_of_find?_eq_some hb, ?_⟩
    simpa [Node.refersTo] using List.find?_some hb
  · obtain ⟨done, hdone, hnames⟩ := hresolves.grounded
    obtain ⟨b, hb, -⟩ := Relation.TransGen.head'_iff.mp hcircle
    exact hdone.acyclic (hnames hb.mem_names) hcircle

/-- What is consistent passes the check. -/
theorem validate_of_consistent (h : g.Consistent) : g.validate = .ok () := by
  cases hvalid : g.validate with
  | ok u => rfl
  | error e => exact absurd h (not_consistent_of_holds (holds_of_validate hvalid))

/-- A node over the rules of a grammar in order has a default text. -/
theorem defaultText_of_validate (h : g.validate = .ok ()) {n : Node}
    (hn : n.targets ⊆ g.rules.names) : g.rules.defaultText n = .ok (g.rules.text n) := by
  obtain ⟨done, hdone, hnames⟩ := (resolves_of_validate h).grounded
  exact hdone.defaultText (List.Subset.trans hn hnames)

/-- **Exactness.** The check succeeds for the consistent grammars and for no others. Its search for
circles ends: more room for steps down does not change what it finds. For any other grammar an error
is reported that holds of it. Once the check has succeeded, every node over the rules has a default
text, and every machine gives it, unless it lacks something for a part of it. -/
theorem validate_exact (g : Grammar) :
    (g.validate = .ok () ↔ g.Consistent) ∧
      (∀ fuel, g.rules.size < fuel → g.rules.circleWithin fuel = g.rules.baseCycle?) ∧
      (¬ g.Consistent → ∃ e, g.validate = .error e ∧ e.Holds g) ∧
      (g.validate = .ok () → ∀ n : Node, n.targets ⊆ g.rules.names →
        ∃ u, g.rules.defaultText n = .ok u ∧ ∀ m, g.rules.RendersOn m n u) := by
  refine ⟨⟨consistent_of_validate, validate_of_consistent⟩, fun _ => Rules.circleWithin_eq,
    fun h => ?_, fun h n hn => ?_⟩
  · cases hvalid : g.validate with
    | ok u => exact absurd (consistent_of_validate hvalid) h
    | error e => exact ⟨e, rfl, holds_of_validate hvalid⟩
  · have hdefault := defaultText_of_validate h hn
    exact ⟨_, hdefault, Rules.rendersOn_of_defaultText hdefault⟩

/-- More copies of the empty text than any text has characters. -/
def blanks : Grammar := ⟨.repetition (.literal (.plain [])) (.atLeast 9223372036854775808), .empty⟩

/-- No machine puts so many copies together. -/
theorem renderOn_blanks (m : Machine) (rule : Nat → Text → Except RenderFault Text) {left : Nat}
    (hleft : 2 ≤ left) : blanks.root.renderOn m rule left = .error (.shortage .beyondLengths) := by
  have hroot : ¬ left < blanks.root.renderCalls := Nat.not_lt.mpr (Nat.le_of_succ_le hleft)
  have hbody : ¬ left - 1 < (Node.literal (.plain [])).renderCalls :=
    Nat.not_lt.mpr (Nat.le_sub_of_add_le hleft)
  have hlong : Text.greatestLength < (Need.copies [] 9223372036854775808).extent := by decide
  have hcopies : m.copies [] 9223372036854775808 = .error .beyondLengths := by
    rw [Machine.copies, Machine.lacks?_of_extent hlong]
  rw [blanks] at hroot ⊢
  rw [Node.renderOn, if_neg hroot]
  rw [Node.renderOn, if_neg hbody]
  exact congrArg (Except.mapError RenderFault.shortage) hcopies

/-- **Copies are not looked at.** A grammar passes the check, and its root refers to no rule, but no
machine puts its default text together, which is empty. -/
theorem blanks_pass_validate :
    blanks.validate = .ok () ∧ blanks.root.targets ⊆ blanks.rules.names ∧
      blanks.rules.defaultText blanks.root = .ok [] ∧
      ∀ m : Machine, 2 ≤ m.calls →
        blanks.rules.render m blanks.root = .error (.shortage .beyondLengths) := by
  have hempty : ∀ count, Text.times [] count = [] := by simp [Text.times]
  refine ⟨rfl, by simp [blanks], congrArg Except.ok (hempty _), fun m hm => ?_⟩
  exact renderOn_blanks m _ hm

end Grammar

end GrammarInference
