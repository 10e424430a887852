import GrammarInference.Grammar.Validate
import GrammarInference.Proofs.Layers

/-!
# Layered grammars are in order

A grammar whose rules all lie in layers, and whose root refers to them only, passes every check:
no reference dangles, the base of a rule does not refer back to it, and the search for circles
among the bases goes down the layers. Below the rule that is visited, no rule is active
(`Rules.Layered.visit_ok`), so that the search cannot meet an active rule.
-/

namespace GrammarInference

namespace Rules

variable {r : Rules} {done : List Text}

/-! ### Lookups in layers -/

/-- A layered rule that is found is an alternation whose branches refer to layered rules, and its
base is its first base branch. -/
theorem Layered.of_get? (h : r.Layered done) {name : Text} (hname : name ∈ done) {rule : Node}
    (hrule : r.get? name = some rule) : rule.targets ⊆ done ∧ (rule.firstBase? name).isSome := by
  refine ⟨h.closed name hname rule hrule, ?_⟩
  obtain ⟨newer, older, base, nested, rfl, hl⟩ := h.layer hname
  rw [hl.get] at hrule
  cases hrule
  rw [hl.firstBase?]
  rfl

/-! ### Circles -/

/-- A fold that never fails has a result. -/
private theorem exists_foldlM_ok {α β ε : Type} {f : β → α → Except ε β} {xs : List α}
    (h : ∀ x ∈ xs, ∀ b, ∃ b', f b x = .ok b') (b : β) : ∃ b', xs.foldlM f b = .ok b' := by
  induction xs generalizing b with
  | nil => exact ⟨b, rfl⟩
  | cons x xs ih =>
    obtain ⟨b', hb'⟩ := h x (.head _) b
    obtain ⟨b'', hb''⟩ := ih (fun y hy => h y (.tail _ hy)) b'
    refine ⟨b'', ?_⟩
    rw [List.foldlM_cons, hb']
    exact hb''

/-- A rule needs those that its base refers to. -/
theorem Layer.mem_needs {name k : Text} {older : List Text} {base nested : Node}
    (h : r.Layer name older base nested) (hk : k ∈ r.needs name) : k ∈ older := by
  unfold needs at hk
  rw [h.get, Option.bind_some, h.firstBase?] at hk
  exact h.base (Text.mem_sortedSet.mp hk)

/-- Visiting a rule in layers meets no circle, if no active rule lies below it. -/
theorem Layered.visit_ok (h : r.Layered done) {name : Text} (hname : name ∈ done) (fuel : Nat)
    {active : List Text} (hactive : ∀ a ∈ active, a = name ∨ a ∉ done) (visited : List Text) :
    ∃ visited', r.visit fuel active visited name = .ok visited' := by
  induction h generalizing name fuel active visited with
  | nil => cases hname
  | @cons top older base nested below hl ih =>
    rcases List.mem_cons.mp hname with rfl | hname
    · cases fuel with
      | zero => exact ⟨visited, rfl⟩
      | succ fuel =>
        -- An active rule below this one would lie above itself.
        have none_below : ∀ a ∈ active, a ∉ older := by
          intro a ha hmem
          rcases hactive a ha with rfl | hnot
          · exact hl.new hmem
          · exact hnot (.tail _ hmem)
        have visit_child : ∀ child ∈ r.needs name, ∀ visited, ∃ visited',
            (if child ∈ active then .error (Text.sortedSet active)
              else if child ∈ visited then .ok visited
              else r.visit fuel (child :: active) visited child) = Except.ok visited' := by
          intro child hchild visited
          have hchild := hl.mem_needs hchild
          rw [if_neg fun hmem => none_below child hmem hchild]
          split
          · exact ⟨visited, rfl⟩
          · refine ih hchild fuel (fun a ha => ?_) visited
            rcases List.mem_cons.mp ha with rfl | ha
            · exact .inl rfl
            · exact .inr (none_below a ha)
        obtain ⟨visited', hv⟩ := exists_foldlM_ok visit_child visited
        refine ⟨name :: visited', ?_⟩
        simp only [visit]
        rw [hv]
        rfl
    · refine ih hname fuel (fun a ha => ?_) visited
      rcases hactive a ha with rfl | hnot
      · exact .inl rfl
      · exact .inr fun hmem => hnot (.tail _ hmem)

/-- Layered rules have no circle among their bases. -/
theorem Layered.baseCycle?_eq_none (h : r.Layered done) (hnames : r.names ⊆ done) :
    r.baseCycle? = none := by
  have visit_name : ∀ name ∈ r.names, ∀ visited, ∃ visited',
      (if name ∈ visited then .ok visited
        else r.visit (r.size + 1) [name] visited name) = Except.ok visited' := by
    intro name hname visited
    split
    · exact ⟨visited, rfl⟩
    · refine h.visit_ok (hnames hname) _ (fun a ha => ?_) visited
      exact .inl (List.mem_singleton.mp ha)
  obtain ⟨visited, hv⟩ := exists_foldlM_ok visit_name []
  unfold baseCycle?
  rw [hv]

end Rules

namespace Grammar

variable {g : Grammar} {done : List Text}

theorem danglingReference?_eq_none (h : g.rules.Layered done) (hnames : g.rules.names ⊆ done)
    (hroot : g.root.targets ⊆ done) : g.danglingReference? = none := by
  refine List.find?_eq_none.mpr fun name hname => ?_
  have hmem : name ∈ done := by
    rw [walk, List.filterMap_append, List.mem_append] at hname
    rcases hname with hname | hname
    · exact hroot hname
    · obtain ⟨n, hn, ht⟩ := List.mem_filterMap.mp hname
      obtain ⟨⟨k, rule⟩, he, hn⟩ := List.mem_flatMap.mp hn
      have hrule := Rules.get?_of_mem_entries he
      refine (h.of_get? (hnames (Rules.mem_names_of_get? hrule)) hrule).1 ?_
      exact List.mem_filterMap.mpr ⟨n, hn, ht⟩
  simpa [Rules.contains] using h.subset_names hmem

theorem baseless?_eq_none (h : g.rules.Layered done) (hnames : g.rules.names ⊆ done) :
    g.baseless? = none := by
  unfold baseless?
  rw [Option.map_eq_none_iff, List.find?_eq_none]
  rintro ⟨name, rule⟩ he
  have hrule := Rules.get?_of_mem_entries he
  obtain ⟨base, hbase⟩ := Option.isSome_iff_exists.mp
    (h.of_get? (hnames (Rules.mem_names_of_get? hrule)) hrule).2
  simp [hbase]

/-- **Validity.** A grammar whose rules lie in layers, and whose root refers to them only, is in
order. -/
theorem validate_of_layered (h : g.rules.Layered done) (hnames : g.rules.names ⊆ done)
    (hroot : g.root.targets ⊆ done) : g.validate = .ok () := by
  unfold validate
  rw [danglingReference?_eq_none h hnames hroot, baseless?_eq_none h hnames,
    h.baseCycle?_eq_none hnames]

end Grammar

end GrammarInference
