import GrammarInference.Learn.Synthesis
import GrammarInference.Proofs.Compaction
import GrammarInference.Proofs.Outcomes
import GrammarInference.Proofs.Validity

/-!
# The finished grammar

Learning ends with the rules that the root reaches, made compact. The reached names are closed:
every step that is not the last one reaches a new name, and there are no more steps than names
(`Rules.closed_reachable`). The rules that are left out are not referred to, so that the rest still
lies in layers (`Rules.Layered.compactOn`), every node that is left has the same text
(`Rules.Layered.text_compactOn`), and the finished grammar is in order
(`Rules.Layered.validate_compactOn`).
-/

namespace GrammarInference

namespace Rules

variable {r : Rules} {done known : List Text} {root : Node}

/-! ### Reached names -/

theorem mem_reachStep {k : Text} :
    k ∈ r.reachStep known ↔
      k ∈ known ∨ ∃ name ∈ known, ∃ rule, r.get? name = some rule ∧ k ∈ rule.targets := by
  unfold reachStep
  rw [Text.mem_distinct, List.mem_append, List.mem_flatMap]
  refine or_congr_right (exists_congr fun name => and_congr_right fun _ => ?_)
  cases r.get? name <;> simp

theorem subset_reachStep (r : Rules) (known : List Text) : known ⊆ r.reachStep known :=
  fun _ hk => mem_reachStep.mpr (.inl hk)

theorem nodup_reachStep (r : Rules) (known : List Text) : (r.reachStep known).Nodup :=
  Text.nodup_distinct _

theorem Closed.reachStep_subset (h : r.Closed done) (hsub : known ⊆ done) :
    r.reachStep known ⊆ done := by
  intro k hk
  rcases mem_reachStep.mp hk with hk | ⟨name, hname, rule, hrule, hk⟩
  · exact hsub hk
  · exact h name (hsub hname) rule hrule hk

theorem subset_reachWithin (r : Rules) (steps : Nat) (known : List Text) :
    known ⊆ r.reachWithin steps known := by
  induction steps generalizing known with
  | zero => exact List.Subset.refl _
  | succ steps ih => exact List.Subset.trans (r.subset_reachStep known) (ih _)

theorem Closed.reachWithin_subset (h : r.Closed done) (steps : Nat) (hsub : known ⊆ done) :
    r.reachWithin steps known ⊆ done := by
  induction steps generalizing known with
  | zero => exact hsub
  | succ steps ih => exact ih (h.reachStep_subset hsub)

/-- Names that are closed stay closed. -/
theorem Closed.reachWithin (h : r.Closed known) (steps : Nat) :
    r.Closed (r.reachWithin steps known) := by
  induction steps generalizing known with
  | zero => exact h
  | succ steps ih =>
    refine ih fun name hname rule hrule => ?_
    have hname := h.reachStep_subset (List.Subset.refl _) hname
    exact List.Subset.trans (h name hname rule hrule) (r.subset_reachStep known)

/-- A step reaches a new name, unless the names are closed already. -/
theorem closed_or_length_lt (hnodup : known.Nodup) :
    r.Closed known ∨ known.length < (r.reachStep known).length := by
  by_cases hsub : r.reachStep known ⊆ known
  · refine .inl fun name hname rule hrule k hk => ?_
    exact hsub (mem_reachStep.mpr (.inr ⟨name, hname, rule, hrule, hk⟩))
  · refine .inr ?_
    obtain ⟨k, hk, hnew⟩ : ∃ k ∈ r.reachStep known, k ∉ known := by
      simpa [List.subset_def] using hsub
    have hcons : k :: known ⊆ r.reachStep known :=
      List.cons_subset.mpr ⟨hk, r.subset_reachStep known⟩
    exact (List.subperm_of_subset (List.nodup_cons.mpr ⟨hnew, hnodup⟩) hcons).length_le

theorem Closed.reachWithin_of_length_le (h : r.Closed done) (hnodup : known.Nodup)
    (hsub : known ⊆ done) {steps : Nat} (hsteps : done.length ≤ known.length + steps) :
    r.Closed (r.reachWithin steps known) := by
  induction steps generalizing known with
  | zero =>
    -- As many different names as there are names are all of them.
    have hperm := (List.subperm_of_subset hnodup hsub).perm_of_length_le hsteps
    exact fun name hname rule hrule =>
      List.Subset.trans (h name (hsub hname) rule hrule) hperm.symm.subset
  | succ steps ih =>
    rcases closed_or_length_lt (r := r) hnodup with hclosed | hlt
    · exact hclosed.reachWithin (steps + 1)
    · exact ih (r.nodup_reachStep known) (h.reachStep_subset hsub) (by omega)

theorem targets_subset_reachable (r : Rules) (root : Node) : root.targets ⊆ r.reachable root :=
  fun _ hk => r.subset_reachWithin _ _ (Text.mem_distinct.mpr hk)

theorem Layered.reachable_subset (h : r.Layered done) (hroot : root.targets ⊆ done) :
    r.reachable root ⊆ done :=
  h.closed.reachWithin_subset _ fun _ hk => hroot (Text.mem_distinct.mp hk)

/-- **Reached names are closed.** The number of rules bounds the steps to reach all names. -/
theorem Layered.closed_reachable (h : r.Layered done) (hroot : root.targets ⊆ done) :
    r.Closed (r.reachable root) :=
  h.closed.reachWithin_of_length_le (Text.nodup_distinct _)
    (fun _ hk => hroot (Text.mem_distinct.mp hk)) (by have := h.length_le; omega)

/-! ### Compact rules -/

/-- The rules with some names, made compact. -/
def compactOn (r : Rules) (reached : List Text) : Rules := r.filterMap (· ∈ reached) Node.compact

variable {reached : List Text}

theorem get?_compactOn {name : Text} (hname : name ∈ reached) :
    (r.compactOn reached).get? name = (r.get? name).map Node.compact := by
  rw [compactOn, get?_filterMap, if_pos (decide_eq_true hname)]

theorem mem_of_mem_names_compactOn {name : Text} (h : name ∈ (r.compactOn reached).names) :
    name ∈ reached := by
  obtain ⟨rule, hrule⟩ := exists_get?_of_mem_names h
  rw [compactOn, get?_filterMap] at hrule
  split at hrule
  · next hmem => exact of_decide_eq_true hmem
  · cases hrule

/-- A layer stays a layer when rules that are not reached are left out. -/
theorem Layer.compactOn {name : Text} {older : List Text} {base nested : Node}
    (h : r.Layer name older base nested) (hclosed : r.Closed reached) (hname : name ∈ reached) :
    (r.compactOn reached).Layer name (older.filter (· ∈ reached)) base.compact nested.compact := by
  have hrule := hclosed name hname _ h.get
  rw [Node.targets_alternation, List.flatMap_cons, List.flatMap_cons, List.flatMap_nil,
    List.append_nil, List.append_subset] at hrule
  obtain ⟨hbase, hnested⟩ := hrule
  refine ⟨fun hmem => h.new (List.mem_filter.mp hmem).1, ?_, ?_, ?_, ?_⟩
  · rw [get?_compactOn hname, h.get, Option.map_some]
    simp only [Node.compact, Node.compactAll]
  · rw [Node.targets_compact]
    exact fun k hk => List.mem_filter.mpr ⟨h.base hk, decide_eq_true (hbase hk)⟩
  · rw [Node.targets_compact]
    exact h.once
  · rw [Node.targets_compact]
    intro k hk
    rcases List.mem_cons.mp (h.nested hk) with rfl | holder
    · exact .head _
    · exact .tail _ (List.mem_filter.mpr ⟨holder, decide_eq_true (hnested hk)⟩)

/-- **Layers.** The rules that are reached lie in layers when they are compact. -/
theorem Layered.compactOn (h : r.Layered done) (hclosed : r.Closed reached) :
    (r.compactOn reached).Layered (done.filter (· ∈ reached)) := by
  induction h with
  | nil => exact .nil
  | @cons name older base nested _ hl ih =>
    rw [List.filter_cons]
    split
    · next hname => exact .cons ih (hl.compactOn hclosed (of_decide_eq_true hname))
    · exact ih

private theorem Layered.textRule_compactOn (h : r.Layered done) (hclosed : r.Closed reached)
    {steps steps' : Nat} (hs : done.length ≤ steps)
    (hs' : (done.filter (· ∈ reached)).length ≤ steps') {name : Text} (hname : name ∈ done)
    (hreached : name ∈ reached) :
    (r.compactOn reached).textRule steps' name = r.textRule steps name := by
  induction h generalizing steps steps' name with
  | nil => cases hname
  | @cons top older base nested below hl ih =>
    rw [List.length_cons] at hs
    by_cases htop : top ∈ reached
    · rw [List.filter_cons_of_pos (by simpa using htop), List.length_cons] at hs'
      rcases List.mem_cons.mp hname with rfl | hname
      · obtain ⟨steps, rfl⟩ := Nat.exists_eq_add_of_le' (Nat.le_trans (Nat.le_add_left 1 _) hs)
        obtain ⟨steps', rfl⟩ := Nat.exists_eq_add_of_le' (Nat.le_trans (Nat.le_add_left 1 _) hs')
        have hl' := hl.compactOn hclosed hreached
        rw [hl.textRule_succ, hl'.textRule_succ, Node.textWith_compact]
        refine Node.textWith_congr fun k hk => ?_
        rw [← Node.targets_compact] at hk
        have hk := List.mem_filter.mp (hl'.base hk)
        exact ih (by omega) (by omega) hk.1 (of_decide_eq_true hk.2)
      · exact ih (by omega) (by omega) hname hreached
    · rw [List.filter_cons_of_neg (by simpa using htop)] at hs'
      rcases List.mem_cons.mp hname with rfl | hname
      · exact absurd hreached htop
      · exact ih (by omega) hs' hname hreached

/-- **Texts.** A compact node under the compact rules has the text that it had before. -/
theorem Layered.text_compactOn (h : r.Layered done) (hclosed : r.Closed reached) {n : Node}
    (hn : n.targets ⊆ reached) (hdone : n.targets ⊆ done) :
    (r.compactOn reached).text n.compact = r.text n := by
  rw [text, Node.textWith_compact, text]
  refine Node.textWith_congr fun name hname => ?_
  exact h.textRule_compactOn hclosed (Nat.le_succ_of_le h.length_le)
    (Nat.le_succ_of_le (h.compactOn hclosed).length_le) (hdone hname) (hn hname)

theorem names_compactOn_subset (hsub : reached ⊆ done) :
    (r.compactOn reached).names ⊆ done.filter (· ∈ reached) := by
  intro name hname
  have hname := mem_of_mem_names_compactOn hname
  exact List.mem_filter.mpr ⟨hsub hname, decide_eq_true hname⟩

theorem targets_compact_subset (h : r.Layered done) (hroot : root.targets ⊆ done) {n : Node}
    (hn : n.targets ⊆ root.targets) :
    n.compact.targets ⊆ done.filter (· ∈ r.reachable root) := by
  rw [Node.targets_compact]
  intro k hk
  have hk := r.targets_subset_reachable root (hn hk)
  exact List.mem_filter.mpr ⟨h.reachable_subset hroot hk, decide_eq_true hk⟩

/-- The finished grammar is in order. -/
theorem Layered.validate_compactOn (h : r.Layered done) (hroot : root.targets ⊆ done) :
    Grammar.validate ⟨root.compact, r.compactOn (r.reachable root)⟩ = .ok () :=
  Grammar.validate_of_layered (h.compactOn (h.closed_reachable hroot))
    (names_compactOn_subset (h.reachable_subset hroot))
    (targets_compact_subset h hroot (List.Subset.refl _))

end Rules

namespace Learner

variable {R : Replies} {m m' : Memory} {root : Node} {done : List Text}

/-- **Finishing.** The finished grammar is the compact root with the compact rules it reaches. -/
theorem of_returns_finalize {g : Grammar} (h : (finalize root).Returns R m g m') :
    g = ⟨root.compact, m.rules.compactOn (m.rules.reachable root)⟩ ∧ m' = m := by
  simp only [finalize, returns_bind, returns_rules] at h
  obtain ⟨_, _, ⟨rfl, rfl⟩, h⟩ := h
  split at h
  · exact (returns_fail.mp h).elim
  · split at h
    · exact (returns_fail.mp h).elim
    · split at h
      · exact (returns_fail.mp h).elim
      · simp only [returns_bind, returns_note, returns_pure] at h
        obtain ⟨_, _, rfl, rfl, rfl⟩ := h
        exact ⟨rfl, rfl⟩

end Learner

end GrammarInference
