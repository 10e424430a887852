import GrammarInference.Sample.Sampler
import GrammarInference.Proofs.Language

/-!
# What random choices can lead to

`Draw.Reaches` relates a tree of random choices to every result it can have, whatever the choices.
A run from any source of randomness has one of these results, so that a fact about all results
that can be reached is a fact about every stream of draws.

For drawings, which may fail, `Drawing.Returns` singles out the results that are no failures, and
`Drawing.Fails` the failures. Every primitive drawing is inverted once for each of them; the
drawings of the sampler are then taken apart step by step.
-/

namespace GrammarInference

/-- A result that a computation has for some way of making its random choices. -/
inductive Draw.Reaches {α : Type} : Draw α → α → Prop
  /-- The result itself. -/
  | done (a : α) : Reaches (.done a) a
  /-- Whichever alternative is chosen. -/
  | choose {others : Nat} {next : Fin (others + 1) → Draw α} {a : α} (i : Fin (others + 1))
    (h : Reaches (next i) a) : Reaches (.choose others next) a
  /-- Whichever number is drawn. -/
  | unit {next : Float → Draw α} {a : α} (x : Float) (h : Reaches (next x) a) :
    Reaches (.unit next) a
  /-- A note changes nothing. -/
  | note {n : Note} {next : Draw α} {a : α} (h : Reaches next a) : Reaches (.note n next) a

namespace Draw

variable {α β : Type}

@[simp] theorem reaches_done {a b : α} : (Draw.done a).Reaches b ↔ b = a :=
  ⟨fun h => by cases h; rfl, fun h => h ▸ .done _⟩

/-- A computation in two steps reaches what the second reaches from a result of the first. -/
theorem reaches_bind {d : Draw α} {f : α → Draw β} {b : β} :
    (d.bind f).Reaches b ↔ ∃ a, d.Reaches a ∧ (f a).Reaches b := by
  constructor
  · intro h
    induction d with
    | done a => exact ⟨a, .done a, h⟩
    | choose others next ih =>
      cases h with
      | choose i h =>
        obtain ⟨a, ha, hb⟩ := ih i h
        exact ⟨a, .choose i ha, hb⟩
    | unit next ih =>
      cases h with
      | unit x h =>
        obtain ⟨a, ha, hb⟩ := ih x h
        exact ⟨a, .unit x ha, hb⟩
    | note n next ih =>
      cases h with
      | note h =>
        obtain ⟨a, ha, hb⟩ := ih h
        exact ⟨a, .note ha, hb⟩
  · rintro ⟨a, ha, hb⟩
    induction ha with
    | done a => exact hb
    | choose i _ ih => exact .choose i (ih hb)
    | unit x _ ih => exact .unit x (ih hb)
    | note _ ih => exact .note (ih hb)

/-- **Every stream of draws.** A run from any source ends with a result that can be reached. -/
theorem reaches_run {σ : Type} (source : Source σ) (d : Draw α) (s : σ) :
    d.Reaches (d.run source s).1 := by
  induction d generalizing s with
  | done a => exact .done a
  | choose others next ih => exact .choose _ (ih _ _)
  | unit next ih => exact .unit _ (ih _ _)
  | note n next ih => exact .note (ih s)

/-- A source that makes its choices as they are written down: each entry is an alternative and a
number, of which one is used. -/
def scripted : Source (List (Nat × Float)) where
  choose others script :=
    (⟨min (script.headD (0, 0.0)).1 others, Nat.lt_succ_of_le (Nat.min_le_right _ _)⟩, script.tail)
  unit script := ((script.headD (0, 0.0)).2, script.tail)

/-- **Every result.** What can be reached is what some run ends with. -/
theorem reaches_iff_run {d : Draw α} {a : α} :
    d.Reaches a ↔ ∃ script, (d.run scripted script).1 = a := by
  constructor
  · intro h
    induction h with
    | done a => exact ⟨[], rfl⟩
    | @choose others next a i _ ih =>
      obtain ⟨script, hscript⟩ := ih
      refine ⟨(i.val, 0.0) :: script, ?_⟩
      have hi : scripted.choose others ((i.val, 0.0) :: script) = (i, script) :=
        Prod.ext (Fin.ext (Nat.min_eq_left (Nat.le_of_lt_succ i.isLt))) rfl
      rw [run, hi]
      exact hscript
    | unit x _ ih =>
      obtain ⟨script, hscript⟩ := ih
      exact ⟨(0, x) :: script, hscript⟩
    | note _ ih =>
      obtain ⟨script, hscript⟩ := ih
      exact ⟨script, hscript⟩
  · rintro ⟨script, rfl⟩
    exact reaches_run scripted d script

end Draw

/-- A result that a drawing has for some way of making its choices. -/
def Drawing.Returns {α : Type} (d : Drawing α) (a : α) : Prop := Draw.Reaches d (.ok a)

namespace Drawing

variable {α β : Type}

/-- What a run returns can be returned. -/
theorem returns_of_run {σ : Type} {d : Drawing α} {source : Source σ} {state : σ} {a : α}
    (h : (Draw.run source d.run state).1 = .ok a) : d.Returns a := by
  have hreach := Draw.reaches_run source d.run state
  rwa [h] at hreach

theorem returns_bind {d : Drawing α} {f : α → Drawing β} {b : β} :
    (d >>= f).Returns b ↔ ∃ a, d.Returns a ∧ (f a).Returns b := by
  change (Draw.bind d (ExceptT.bindCont f)).Reaches (.ok b) ↔ _
  rw [Draw.reaches_bind]
  constructor
  · rintro ⟨a | a, ha, hb⟩
    · cases Draw.reaches_done.mp hb
    · exact ⟨a, ha, hb⟩
  · rintro ⟨a, ha, hb⟩
    exact ⟨.ok a, ha, hb⟩

@[simp] theorem returns_pure {a b : α} : (pure a : Drawing α).Returns b ↔ b = a := by
  change (Draw.done (Except.ok a)).Reaches (.ok b) ↔ _
  rw [Draw.reaches_done, Except.ok.injEq]

@[simp] theorem returns_fail {f : DeriveFault} {a : α} :
    (fail f : Drawing α).Returns a ↔ False := by
  change (Draw.done (Except.error f)).Reaches (.ok a) ↔ _
  rw [Draw.reaches_done]
  exact iff_of_false (by simp) id

@[simp] theorem returns_unit {x : Float} : unit.Returns x ↔ True :=
  iff_true_intro (.unit x (.done _))

@[simp] theorem returns_note {n : Note} {u : Unit} : (note n).Returns u ↔ True :=
  iff_true_intro (.note (.done _))

/-- Any position may be chosen. -/
@[simp] theorem returns_position {others i : Nat} : (position others).Returns i ↔ i ≤ others := by
  constructor
  · intro h
    cases h with
    | choose j h =>
      obtain rfl : i = j.val := by simpa using Draw.reaches_done.mp h
      exact Nat.le_of_lt_succ j.isLt
  · intro h
    exact .choose ⟨i, Nat.lt_succ_of_le h⟩ (.done _)

/-- Any entry may be chosen, and nothing else. -/
@[simp] theorem returns_oneOf {xs : List α} {a : α} : (oneOf xs).Returns a ↔ a ∈ xs := by
  cases xs with
  | nil =>
    change (Draw.done (Except.error DeriveFault.nothingToChoose)).Reaches (.ok a) ↔ _
    simp
  | cons x rest =>
    constructor
    · intro h
      cases h with
      | choose i h =>
        obtain rfl : a = (x :: rest).get i := by simpa using Draw.reaches_done.mp h
        exact List.get_mem (x :: rest) i
    · intro h
      obtain ⟨i, rfl⟩ := List.get_of_mem h
      exact .choose i (.done _)

end Drawing

/-! ### Failures -/

/-- A failure that a drawing can end with for some way of making its choices. -/
def Drawing.Fails {α : Type} (d : Drawing α) (f : DeriveFault) : Prop := Draw.Reaches d (.error f)

namespace Drawing

variable {α β : Type} {f : DeriveFault}

/-- What a run fails with can be failed with. -/
theorem fails_of_run {σ : Type} {d : Drawing α} {source : Source σ} {state : σ}
    (h : (Draw.run source d.run state).1 = .error f) : d.Fails f := by
  have hreach := Draw.reaches_run source d.run state
  rwa [h] at hreach

theorem fails_bind {d : Drawing α} {k : α → Drawing β} :
    (d >>= k).Fails f ↔ d.Fails f ∨ ∃ a, d.Returns a ∧ (k a).Fails f := by
  change (Draw.bind d (ExceptT.bindCont k)).Reaches (.error f) ↔ _
  rw [Draw.reaches_bind]
  constructor
  · rintro ⟨f' | a, ha, hb⟩
    · cases Draw.reaches_done.mp hb
      exact .inl ha
    · exact .inr ⟨a, ha, hb⟩
  · rintro (h | ⟨a, ha, hb⟩)
    · exact ⟨.error f, h, Draw.reaches_done.mpr rfl⟩
    · exact ⟨.ok a, ha, hb⟩

@[simp] theorem fails_pure {a : α} : (pure a : Drawing α).Fails f ↔ False := by
  change (Draw.done (Except.ok a)).Reaches (.error f) ↔ _
  simp

@[simp] theorem fails_fail {f' : DeriveFault} : (fail f' : Drawing α).Fails f ↔ f = f' := by
  change (Draw.done (Except.error f')).Reaches (.error f) ↔ _
  simp

@[simp] theorem fails_unit : unit.Fails f ↔ False := by
  refine iff_false_intro fun h => ?_
  cases h with
  | unit x h => cases Draw.reaches_done.mp h

@[simp] theorem fails_note {n : Note} : (note n).Fails f ↔ False := by
  refine iff_false_intro fun h => ?_
  cases h with
  | note h => cases Draw.reaches_done.mp h

@[simp] theorem fails_position {others : Nat} : (position others).Fails f ↔ False := by
  refine iff_false_intro fun h => ?_
  cases h with
  | choose i h => cases Draw.reaches_done.mp h

/-- Choosing an entry fails where there is none, and nowhere else. -/
theorem fails_oneOf {xs : List α} : (oneOf xs).Fails f ↔ xs = [] ∧ f = .nothingToChoose := by
  cases xs with
  | nil =>
    change (Draw.done (Except.error DeriveFault.nothingToChoose)).Reaches (.error f) ↔ _
    simp
  | cons x rest =>
    refine iff_of_false (fun h => ?_) fun h => List.cons_ne_nil x rest h.1
    cases h with
    | choose i h => cases Draw.reaches_done.mp h

end Drawing

end GrammarInference
