import GrammarInference.Proofs.Texts

/-!
# Rules in layers

The rules that learning completes are *layered*: each is an alternation of a base and a nested
branch, the base refers to rules completed before, the nested branch to the rule itself once as
well. Rules in layers are grounded and closed.

Learning goes on from a table that it has reached before, or one that it has been given.
`Rules.LayeredOn` says that further rules lie in layers on the rules that were there: they are
grounded, closed or layered if those are.
-/

namespace GrammarInference

namespace Rules

/-- The rules of some names refer to these names only. -/
def Closed (r : Rules) (known : List Text) : Prop :=
  ∀ name ∈ known, ∀ rule, r.get? name = some rule → rule.targets ⊆ known

/-- A rule above the layers `older`. -/
structure Layer (r : Rules) (name : Text) (older : List Text) (base nested : Node) : Prop where
  /-- The rules below are others. -/
  new : name ∉ older
  /-- The rule is an alternation of a base and a nested branch. -/
  get : r.get? name = some (.alternation [base, nested])
  /-- The base refers to rules below. -/
  base : base.targets ⊆ older
  /-- The nested branch refers to the rule itself once. -/
  once : nested.targets.count name = 1
  /-- Otherwise the nested branch refers to rules below. -/
  nested : nested.targets ⊆ name :: older

/-- The rules `done`, the latest first, lie in layers. -/
inductive Layered (r : Rules) : List Text → Prop
  /-- No rules lie in layers. -/
  | nil : Layered r []
  /-- One more rule lies above the layers. -/
  | cons {name : Text} {older : List Text} {base nested : Node} (below : Layered r older)
    (layer : Layer r name older base nested) : Layered r (name :: older)

/-- The rules `done`, the latest first, lie in layers on the rules `ground`. -/
inductive LayeredOn (r : Rules) (ground : List Text) : List Text → Prop
  /-- The rules on the ground themselves. -/
  | ground : LayeredOn r ground ground
  /-- One more rule lies above the layers. -/
  | cons {name : Text} {older : List Text} {base nested : Node} (below : LayeredOn r ground older)
    (layer : Layer r name older base nested) : LayeredOn r ground (name :: older)

namespace Layer

variable {r r' : Rules} {name : Text} {older : List Text} {base nested : Node}

/-- The base is the first branch that does not refer to the rule. -/
theorem firstBase? (h : Layer r name older base nested) :
    (Node.alternation [base, nested]).firstBase? name = some base := by
  have hno : base.refersTo name = false := by
    refine decide_eq_false fun hmem => ?_
    exact h.new (h.base hmem)
  simp [Node.firstBase?, Node.branches, hno]

theorem textRule_succ (h : Layer r name older base nested) (steps : Nat) :
    r.textRule (steps + 1) name = base.textWith (r.textRule steps) := by
  simp only [textRule]
  rw [h.get, Option.bind_some, h.firstBase?]

theorem congr (h : Layer r name older base nested) (agree : r'.get? name = r.get? name) :
    Layer r' name older base nested :=
  ⟨h.new, agree.trans h.get, h.base, h.once, h.nested⟩

theorem mem_names (h : Layer r name older base nested) : name ∈ r.names :=
  mem_names_of_get? h.get

/-- The rule refers to itself and to rules below. -/
theorem targets_subset (h : Layer r name older base nested) :
    (Node.alternation [base, nested]).targets ⊆ name :: older := by
  rw [Node.targets_alternation, List.flatMap_cons, List.flatMap_cons, List.flatMap_nil,
    List.append_nil]
  exact List.append_subset.mpr ⟨List.Subset.trans h.base (List.subset_cons_self _ _), h.nested⟩

/-- A closed set of rules stays closed with a layer on it. -/
theorem closed (h : Layer r name older base nested) (below : r.Closed older) :
    r.Closed (name :: older) := by
  intro k hk rule hrule
  rcases List.mem_cons.mp hk with rfl | hk
  · rw [h.get] at hrule
    obtain rfl := Option.some.inj hrule
    exact h.targets_subset
  · exact List.Subset.trans (below k hk rule hrule) (List.subset_cons_self _ _)

end Layer

namespace Layered

variable {r r' : Rules} {done : List Text}

/-- Every rule in layers stands above the layers it needs. -/
theorem layer (h : Layered r done) {name : Text} (hname : name ∈ done) :
    ∃ newer older base nested, done = newer ++ name :: older ∧
      Layer r name older base nested := by
  induction h with
  | nil => cases hname
  | @cons top older base nested _ hl ih =>
    rcases List.mem_cons.mp hname with rfl | hname
    · exact ⟨[], older, base, nested, rfl, hl⟩
    · obtain ⟨newer, older, base', nested', rfl, hl'⟩ := ih hname
      exact ⟨top :: newer, older, base', nested', rfl, hl'⟩

theorem nodup (h : Layered r done) : done.Nodup := by
  induction h with
  | nil => exact .nil
  | cons _ hl ih => exact List.nodup_cons.mpr ⟨hl.new, ih⟩

/-- A table with the same rules in the layers is layered too. -/
theorem congr (h : Layered r done) (agree : ∀ name ∈ done, r'.get? name = r.get? name) :
    Layered r' done := by
  induction h with
  | nil => exact .nil
  | cons _ hl ih =>
    exact .cons (ih fun k hk => agree k (.tail _ hk)) (hl.congr (agree _ (.head _)))

/-- Rules in layers are grounded. -/
theorem grounded (h : Layered r done) : Grounded r done := by
  induction h with
  | nil => exact .nil
  | cons _ hl ih => exact .cons ih hl.get hl.firstBase? hl.base

/-- Rules in layers refer to each other only. -/
theorem closed (h : Layered r done) : r.Closed done := by
  induction h with
  | nil => exact fun _ h => by cases h
  | cons _ hl ih => exact hl.closed ih

/-- The names in layers are names of the table. -/
theorem subset_names (h : Layered r done) : done ⊆ r.names := h.grounded.subset_names

theorem length_le (h : Layered r done) : done.length ≤ r.size := h.grounded.length_le h.nodup

end Layered

namespace LayeredOn

variable {r r' : Rules} {ground done done' : List Text}

theorem subset (h : LayeredOn r ground done) : ground ⊆ done := by
  induction h with
  | ground => exact List.Subset.refl _
  | cons _ _ ih => exact List.Subset.trans ih (List.subset_cons_self _ _)

/-- A table with the same rules in the layers is layered on the same rules. -/
theorem congr (h : LayeredOn r ground done)
    (agree : ∀ name ∈ done, name ∈ r.names → r'.get? name = r.get? name) :
    LayeredOn r' ground done := by
  induction h with
  | ground => exact .ground
  | cons _ hl ih =>
    exact .cons (ih fun k hk => agree k (.tail _ hk)) (hl.congr (agree _ (.head _) hl.mem_names))

theorem trans (h : LayeredOn r ground done) (h' : LayeredOn r done done') :
    LayeredOn r ground done' := by
  induction h' with
  | ground => exact h
  | cons _ hl ih => exact .cons ih hl

theorem layered (h : LayeredOn r ground done) (hground : r.Layered ground) : r.Layered done := by
  induction h with
  | ground => exact hground
  | cons _ hl ih => exact .cons ih hl

theorem grounded (h : LayeredOn r ground done) (hground : r.Grounded ground) :
    r.Grounded done := by
  induction h with
  | ground => exact hground
  | cons _ hl ih => exact .cons ih hl.get hl.firstBase? hl.base

theorem closed (h : LayeredOn r ground done) (hground : r.Closed ground) : r.Closed done := by
  induction h with
  | ground => exact hground
  | cons _ hl ih => exact hl.closed ih

end LayeredOn

end Rules

end GrammarInference
