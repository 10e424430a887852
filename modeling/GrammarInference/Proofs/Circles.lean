import GrammarInference.Grammar.Validate
import GrammarInference.Proofs.Texts
import GrammarInference.Sample.Derivation

/-!
# What the check of a grammar gives

A grammar that passes the check can be resolved: its references go to rules of the table, and the
first base branches lead down to rules without references (`Grammar.resolves_of_validate`). All its
parts have a default text and a default derivation.

The order of the rules is the one in which the search for circles has finished with them. A visit
makes one more rule active with every step down, all active rules are different rules of the table,
and there is more fuel than rules that are not active; so the fuel lasts, and a rule is put in front
of the list only after the rules that its base refers to (`Rules.visited_of_visit`).
-/

namespace GrammarInference

namespace Rules

variable {r : Rules} {done done' : List Text}

/-- Every rule has a base, which refers to rules of the table. -/
def HasBases (r : Rules) : Prop :=
  ∀ name ∈ r.names, ∃ rule base, r.get? name = some rule ∧ rule.firstBase? name = some base ∧
    base.targets ⊆ r.names

/-- What visiting some rules makes of a list of rules that have been visited. -/
structure Visited (r : Rules) (names done done' : List Text) : Prop where
  /-- The rules of the list are grounded. -/
  grounded : r.Grounded done'
  /-- No rule leaves the list. -/
  kept : done ⊆ done'
  /-- The rules are in the list. -/
  visited : names ⊆ done'

theorem Visited.of_mem (hdone : r.Grounded done) {name : Text} (hname : name ∈ done) :
    r.Visited [name] done done :=
  ⟨hdone, List.Subset.refl _, List.cons_subset.mpr ⟨hname, List.nil_subset _⟩⟩

/-- Rules that are visited one after another are visited. -/
theorem visited_of_foldlM {visit : List Text → Text → Except (List Text) (List Text)}
    {names : List Text}
    (hvisit : ∀ name ∈ names, ∀ done done', r.Grounded done → visit done name = .ok done' →
      r.Visited [name] done done')
    (hdone : r.Grounded done) (h : names.foldlM visit done = .ok done') :
    r.Visited names done done' := by
  induction names generalizing done with
  | nil =>
    obtain rfl : done = done' := Except.ok.inj h
    exact ⟨hdone, List.Subset.refl _, List.nil_subset _⟩
  | cons name rest ih =>
    obtain ⟨hfirst, hrest⟩ := List.forall_mem_cons.mp hvisit
    rw [List.foldlM_cons] at h
    cases hv : visit done name with
    | error circle =>
      rw [hv] at h
      cases h
    | ok middle =>
      rw [hv] at h
      have hname := hfirst done middle hdone hv
      have hnames := ih hrest hname.grounded h
      refine ⟨hnames.grounded, List.Subset.trans hname.kept hnames.kept, ?_⟩
      exact List.cons_subset.mpr ⟨hnames.kept (hname.visited List.mem_cons_self), hnames.visited⟩

/-- **A visit** that meets no circle grounds the rule and keeps the others grounded. -/
theorem visited_of_visit (hr : r.HasBases) (fuel : Nat) {active : List Text} {name : Text}
    (hnodup : active.Nodup) (hactive : active ⊆ r.names) (hname : name ∈ active)
    (hfuel : r.size < fuel + active.length) (hdone : r.Grounded done)
    (h : r.visit fuel active done name = .ok done') : r.Visited [name] done done' := by
  induction fuel generalizing active name done done' with
  | zero =>
    -- All active rules are different rules of the table, which leaves some fuel.
    have hle := (List.subperm_of_subset hnodup hactive).length_le
    rw [names, List.length_map] at hle
    unfold size at hfuel
    omega
  | succ fuel ih =>
    obtain ⟨rule, base, hrule, hbase, htargets⟩ := hr name (hactive hname)
    have hneeds : r.needs name = Text.sortedSet base.targets := by
      rw [needs, hrule, Option.bind_some, hbase]
    simp only [visit] at h
    cases hseen : (r.needs name).foldlM (fun done child =>
        if child ∈ active then .error (Text.sortedSet active)
        else if child ∈ done then .ok done
        else r.visit fuel (child :: active) done child) done with
    | error circle =>
      rw [hseen] at h
      cases h
    | ok seen =>
      rw [hseen] at h
      obtain rfl : name :: seen = done' := Except.ok.inj h
      have hvisited : r.Visited (r.needs name) done seen := by
        refine visited_of_foldlM (fun child hchild before after hbefore hstep => ?_) hdone hseen
        split at hstep
        · cases hstep
        · next hnew =>
          split at hstep
          · next hmem =>
            obtain rfl := Except.ok.inj hstep
            exact .of_mem hbefore hmem
          · rw [hneeds] at hchild
            have hchild := htargets (Text.mem_sortedSet.mp hchild)
            refine ih (List.nodup_cons.mpr ⟨hnew, hnodup⟩) (List.cons_subset.mpr ⟨hchild, hactive⟩)
              List.mem_cons_self ?_ hbefore hstep
            rw [List.length_cons]
            omega
      have hbelow : base.targets ⊆ seen := fun k hk =>
        hvisited.visited (hneeds ▸ Text.mem_sortedSet.mpr hk)
      refine ⟨.cons hvisited.grounded hrule hbase hbelow, ?_, List.cons_subset.mpr ⟨?_, ?_⟩⟩
      · exact List.Subset.trans hvisited.kept (List.subset_cons_self _ _)
      · exact List.mem_cons_self
      · exact List.nil_subset _

/-- Without circles all rules are grounded. -/
theorem grounded_of_baseCycle? (hr : r.HasBases) (h : r.baseCycle? = none) :
    ∃ done, r.Grounded done ∧ r.names ⊆ done := by
  unfold baseCycle? at h
  dsimp only at h
  split at h
  · next done hdone =>
    have hvisited : r.Visited r.names [] done := by
      refine visited_of_foldlM (fun name hname before after hbefore hstep => ?_) .nil hdone
      split at hstep
      · next hmem =>
        obtain rfl := Except.ok.inj hstep
        exact .of_mem hbefore hmem
      · refine visited_of_visit hr (r.size + 1) (List.nodup_singleton name)
          (List.cons_subset.mpr ⟨hname, List.nil_subset _⟩) List.mem_cons_self ?_ hbefore hstep
        rw [List.length_singleton]
        omega
    exact ⟨done, hvisited.grounded, hvisited.visited⟩
  · cases h

end Rules

/-! ### Default derivations -/

namespace Derivation

variable {rule : Text → Nat → Except DeriveFault Derivation} {depth : Nat}

mutual

/-- Where every reference of a node has a default derivation, the node has one. -/
theorem exists_defaultWith :
    ∀ {n : Node}, (∀ name ∈ n.targets, ∃ d, rule name (depth + 1) = .ok d) →
      ∃ d, defaultWith rule depth n = .ok d
  | .literal _, _ => ⟨_, by rw [defaultWith]⟩
  | .sequence cs, h => by
    rw [Node.targets_sequence] at h
    obtain ⟨ds, hds⟩ := exists_defaultAllWith h
    exact ⟨_, by rw [defaultWith, hds]⟩
  | .alternation [], _ => ⟨_, by rw [defaultWith]⟩
  | .alternation (o :: _), h => by
    rw [Node.targets_alternation] at h
    obtain ⟨d, hd⟩ := exists_defaultWith (n := o) fun name hname =>
      h name (List.mem_append_left _ hname)
    exact ⟨_, by rw [defaultWith, hd]⟩
  | .repetition b x, h => by
    rw [Node.targets_repetition] at h
    obtain ⟨d, hd⟩ := exists_defaultWith (n := b) h
    rw [defaultWith, hd]
    split <;> exact ⟨_, rfl⟩
  | .recursive name, h => by
    obtain ⟨d, hd⟩ := h name (by simp)
    exact ⟨_, by rw [defaultWith, hd]⟩

theorem exists_defaultAllWith :
    ∀ {ns : List Node}, (∀ name ∈ ns.flatMap Node.targets, ∃ d, rule name (depth + 1) = .ok d) →
      ∃ ds, defaultAllWith rule depth ns = .ok ds
  | [], _ => ⟨_, by rw [defaultAllWith]⟩
  | n :: rest, h => by
    obtain ⟨d, hd⟩ := exists_defaultWith (n := n) fun name hname =>
      h name (List.mem_append_left _ hname)
    obtain ⟨ds, hds⟩ := exists_defaultAllWith fun name hname =>
      h name (List.mem_append_right _ hname)
    exact ⟨_, by rw [defaultAllWith, hd, hds]⟩

end

end Derivation

namespace Rules.Grounded

variable {r : Rules} {done : List Text}

/-- References to grounded rules have default derivations. -/
theorem exists_deriveRule (h : Grounded r done) {steps : Nat} (hs : done.length ≤ steps)
    {name : Text} (hname : name ∈ done) (depth : Nat) :
    ∃ d, r.deriveRule steps name depth = .ok d := by
  induction h generalizing steps name depth with
  | nil => cases hname
  | @cons top older rule base below get first needs ih =>
    rw [List.length_cons] at hs
    rcases List.mem_cons.mp hname with rfl | hname
    · -- The base refers to older rules, for which one step less is enough.
      obtain ⟨steps, rfl⟩ := Nat.exists_eq_add_of_le' (Nat.le_trans (Nat.le_add_left 1 _) hs)
      have hrule : r.deriveRule (steps + 1) name depth =
          Derivation.defaultWith (r.deriveRule steps) depth base := by
        simp only [deriveRule, get, first]
      rw [hrule]
      exact Derivation.exists_defaultWith fun k hk => ih (by omega) (needs hk) _
    · exact ih (by omega) hname depth

/-- **Default derivations.** A node that refers to grounded rules has a default derivation. -/
theorem exists_derive (h : Grounded r done) {n : Node} (hn : n.targets ⊆ done) (depth : Nat) :
    ∃ d, r.derive n depth = .ok d := by
  have hsteps : done.dedup.length ≤ r.size + 1 :=
    Nat.le_succ_of_le (h.dedup.length_le done.nodup_dedup)
  exact Derivation.exists_defaultWith fun _ hname =>
    h.dedup.exists_deriveRule hsteps (List.mem_dedup.mpr (hn hname)) _

end Rules.Grounded

/-! ### The check -/

namespace Grammar

variable {g : Grammar}

/-- Every reference can be followed, and following first base branches comes to an end. -/
structure Resolves (g : Grammar) : Prop where
  /-- The parts of the grammar refer to rules of the table. -/
  targets : ∀ n : Node, n.walk ⊆ g.walk → n.targets ⊆ g.rules.names
  /-- Every rule has a branch that does not refer to it. -/
  base : ∀ name rule, g.rules.get? name = some rule → ∃ b, rule.firstBase? name = some b
  /-- All rules are grounded. -/
  grounded : ∃ done, g.rules.Grounded done ∧ g.rules.names ⊆ done

variable {n : Node}

theorem Resolves.defaultText (h : g.Resolves) (hn : n.walk ⊆ g.walk) :
    g.rules.defaultText n = .ok (g.rules.text n) := by
  obtain ⟨done, hdone, hnames⟩ := h.grounded
  exact hdone.defaultText (List.Subset.trans (h.targets n hn) hnames)

theorem Resolves.exists_derive (h : g.Resolves) (hn : n.walk ⊆ g.walk) (depth : Nat) :
    ∃ d, g.rules.derive n depth = .ok d := by
  obtain ⟨done, hdone, hnames⟩ := h.grounded
  exact hdone.exists_derive (List.Subset.trans (h.targets n hn) hnames) depth

private theorem targets_subset_of_danglingReference? (h : g.danglingReference? = none)
    (hn : n.walk ⊆ g.walk) : n.targets ⊆ g.rules.names := by
  intro name hname
  obtain ⟨m, hm, ht⟩ := List.mem_filterMap.mp hname
  have hknown := List.find?_eq_none.mp h name (List.mem_filterMap.mpr ⟨m, hn hm, ht⟩)
  simpa [Rules.contains] using hknown

/-- **In order.** A grammar that passes the check can be resolved. -/
theorem resolves_of_validate (h : g.validate = .ok ()) : g.Resolves := by
  unfold validate at h
  split at h
  · cases h
  · next hdangling =>
    split at h
    · cases h
    · next hbaseless =>
      split at h
      · cases h
      · next hcycle =>
        -- No rule was found that has no base branch.
        have hbase : ∀ name rule, g.rules.get? name = some rule →
            ∃ b, rule.firstBase? name = some b := fun name rule hrule => by
          have hentry := Rules.mem_entries_of_get? hrule
          have hsome := List.find?_eq_none.mp (Option.map_eq_none_iff.mp hbaseless) _ hentry
          exact Option.ne_none_iff_exists'.mp (by simpa using hsome)
        refine ⟨fun _ => targets_subset_of_danglingReference? hdangling, hbase,
          Rules.grounded_of_baseCycle? (fun name hname => ?_) hcycle⟩
        obtain ⟨rule, hrule⟩ := Rules.exists_get?_of_mem_names hname
        obtain ⟨b, hb⟩ := hbase name rule hrule
        have hmem : b ∈ rule.branches := List.mem_of_find?_eq_some hb
        have htargets : rule.targets ⊆ g.rules.names :=
          targets_subset_of_danglingReference? hdangling fun m hm =>
            List.mem_append_right _ (List.mem_flatMap.mpr ⟨_, Rules.mem_entries_of_get? hrule, hm⟩)
        exact ⟨rule, b, hrule, hb,
          List.Subset.trans (Node.targets_subset_of_mem_branches hmem) htargets⟩

end Grammar

end GrammarInference
