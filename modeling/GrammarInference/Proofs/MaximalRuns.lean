import GrammarInference.Proofs.Copies
import Mathlib.Data.List.Nodup
import Mathlib.Data.List.Sort

/-!
# The search for runs is exact

A run is maximal if its copies are alike and no further copy stands on either side of it
(`Run.IsMaximal`). This says nothing about how runs are searched: neither that a unit is extended
to the right, copy by copy, nor which units and starts are looked at.

The search finds every maximal run and nothing else (`Run.mem_all`), each of them once
(`Run.nodup_all`), and puts them into a strict order (`Run.Before`). The candidates of a list of
nodes are therefore the first of its maximal runs (`Run.candidates_exact`).
-/

namespace GrammarInference

namespace Run

variable {α : Type} {xs : List α}

/-- The `unit` entries of a list from `start` on, or fewer where the list ends. -/
def block (xs : List α) (unit start : Nat) : List α := (xs.drop start).take unit

/-- A run consists of copies of its first unit, and is not part of a longer one with this unit. -/
structure IsMaximal (xs : List α) (r : Run xs.length) : Prop where
  /-- The copies are alike. -/
  alike : ∀ i < r.count, block xs r.unit (r.start + r.unit * i) = block xs r.unit r.start
  /-- What follows the copies is not one more, if it is as long as a copy at all. -/
  ends : r.start + r.unit * (r.count + 1) ≤ xs.length →
    block xs r.unit (r.start + r.unit * r.count) ≠ block xs r.unit r.start
  /-- What precedes the copies is not one more, if it is as long as a copy at all. -/
  begins : r.unit ≤ r.start → block xs r.unit (r.start - r.unit) ≠ block xs r.unit r.start

theorem length_block (xs : List α) (unit start : Nat) :
    (block xs unit start).length = min unit (xs.length - start) := by
  rw [block, List.length_take, List.length_drop]

theorem block_drop (xs : List α) (unit start i : Nat) :
    block (xs.drop start) unit i = block xs unit (start + i) := by
  rw [block, block, List.drop_drop]

/-- There is room for two copies. -/
theorem start_add_two_mul_unit_le {size : Nat} (r : Run size) : r.start + 2 * r.unit ≤ size := by
  have hwidth : r.unit * 2 ≤ r.unit * r.count := Nat.mul_le_mul_left _ r.two_le_count
  have hfits := r.fits
  omega

theorem length_block_start (r : Run xs.length) : (block xs r.unit r.start).length = r.unit := by
  have := r.start_add_two_mul_unit_le
  rw [length_block]
  omega

/-! ### Finding the run with a given unit and start -/

section Search

variable [DecidableEq α]

/-- Copies at the front of a list are counted up to the first stretch that is none. -/
theorem copies_eq_iff {u : List α} (hu : u ≠ []) {fuel : Nat} {ys : List α}
    (hfuel : ys.length ≤ fuel) {c : Nat} :
    copies u fuel ys = c ↔
      (∀ i < c, block ys u.length (u.length * i) = u) ∧ block ys u.length (u.length * c) ≠ u := by
  have hpos : 0 < u.length := List.length_pos_iff.mpr hu
  -- The stretches of the list after the first one are those of the rest.
  induction fuel generalizing ys c with
  | zero =>
    obtain rfl : ys = [] := List.length_eq_zero_iff.mp (Nat.le_zero.mp hfuel)
    have hblock : ∀ i, block [] u.length i ≠ u := fun i => by simpa [block] using hu.symm
    cases c with
    | zero => exact iff_of_true rfl ⟨fun i hi => absurd hi (Nat.not_lt_zero i), hblock _⟩
    | succ c => exact iff_of_false (by simp [copies]) fun h => hblock _ (h.1 0 (Nat.succ_pos c))
  | succ fuel ih =>
    have hrest : (ys.drop u.length).length ≤ fuel := by rw [List.length_drop]; omega
    have hshift : ∀ i, block ys u.length (u.length * (i + 1)) =
        block (ys.drop u.length) u.length (u.length * i) := fun i => by
      rw [block_drop, Nat.mul_succ, Nat.add_comm]
    have hzero : block ys u.length (u.length * 0) = ys.take u.length := by simp [block]
    simp only [copies]
    split
    · next hfirst =>
      cases c with
      | zero => exact iff_of_false (by simp) fun h => h.2 (hzero.trans hfirst)
      | succ c =>
        rw [Nat.add_right_cancel_iff, Nat.forall_lt_succ_left', hzero, hshift]
        simp only [hshift, hfirst, true_and]
        exact ih hrest
    · next hfirst =>
      cases c with
      | zero => exact iff_of_true rfl ⟨fun i hi => absurd hi (Nat.not_lt_zero i), hzero ▸ hfirst⟩
      | succ c =>
        exact iff_of_false (by simp) fun h => hfirst (hzero.symm.trans (h.1 0 (Nat.succ_pos c)))

/-- A run is made of as many copies of its first unit as are counted from its start on. -/
theorem copies_eq_count_iff {r : Run xs.length} :
    copies (block xs r.unit r.start) xs.length (xs.drop r.start) = r.count ↔
      (∀ i < r.count, block xs r.unit (r.start + r.unit * i) = block xs r.unit r.start) ∧
        (r.start + r.unit * (r.count + 1) ≤ xs.length →
          block xs r.unit (r.start + r.unit * r.count) ≠ block xs r.unit r.start) := by
  have hlen := r.length_block_start
  have hne : block xs r.unit r.start ≠ [] :=
    List.ne_nil_of_length_pos (by rw [hlen]; exact r.one_le_unit)
  rw [copies_eq_iff hne (by rw [List.length_drop]; omega), hlen]
  simp only [block_drop]
  -- A stretch that the list is too short for is no copy.
  refine and_congr_right fun _ => ⟨fun h _ => h, fun h heq => ?_⟩
  by_cases hroom : r.start + r.unit * (r.count + 1) ≤ xs.length
  · exact h hroom heq
  · have hshort := congrArg List.length heq
    have hunit := r.one_le_unit
    rw [hlen, length_block] at hshort
    rw [Nat.mul_succ] at hroom
    omega

/-- What is found at a unit and a start is the maximal run there. -/
theorem at?_eq_some_iff {unit start : Nat} {r : Run xs.length} :
    at? xs unit start = some r ↔ r.unit = unit ∧ r.start = start ∧ r.IsMaximal xs := by
  unfold at?
  dsimp only
  constructor
  · intro h
    split at h
    · cases h
    · next hbegins =>
      split at h
      · next hrun =>
        cases h
        obtain ⟨alike, ends⟩ := copies_eq_count_iff (r := ⟨start, unit, _, hrun.1, hrun.2.1,
          hrun.2.2⟩).mp rfl
        exact ⟨rfl, rfl, alike, ends, fun hroom heq => hbegins ⟨hroom, heq⟩⟩
      · cases h
  · rintro ⟨rfl, rfl, hr⟩
    have hcount := copies_eq_count_iff.mpr ⟨hr.alike, hr.ends⟩
    unfold block at hcount
    rw [if_neg fun h => hr.begins h.1 h.2]
    simp only [hcount]
    rw [dif_pos ⟨r.one_le_unit, r.two_le_count, r.fits⟩]

/-- **All runs.** The search finds the maximal runs and nothing else. -/
theorem mem_all {r : Run xs.length} : r ∈ all xs ↔ r.IsMaximal xs := by
  simp only [all, List.mem_flatMap, List.mem_filterMap, List.mem_range'_1, List.mem_range,
    at?_eq_some_iff]
  constructor
  · rintro ⟨_, _, _, _, _, _, hr⟩
    exact hr
  · intro hr
    have hroom := r.start_add_two_mul_unit_le
    have hunit := r.one_le_unit
    exact ⟨r.unit, by omega, r.start, by omega, rfl, rfl, hr⟩

/-- No run is found twice, since it is found at its own unit and start. -/
theorem nodup_all (xs : List α) : (all xs).Nodup := by
  rw [all, List.nodup_flatMap]
  constructor
  · intro unit _
    refine List.nodup_range.filterMap fun i j r hi hj => ?_
    exact (at?_eq_some_iff.mp hi).2.1.symm.trans (at?_eq_some_iff.mp hj).2.1
  · refine List.Pairwise.imp (fun hne r hr hr' => hne ?_) List.nodup_range'
    obtain ⟨_, _, hr⟩ := List.mem_filterMap.mp hr
    obtain ⟨_, _, hr'⟩ := List.mem_filterMap.mp hr'
    exact (at?_eq_some_iff.mp hr).1.symm.trans (at?_eq_some_iff.mp hr').1

end Search

/-! ### The order of the candidates -/

section Order

variable {size : Nat} {a b c : Run size}

/-- A run comes strictly before another one: it is wider, or as wide with a shorter unit, or it has
the same unit and starts further left. -/
def Before (a b : Run size) : Prop :=
  b.width < a.width ∨ a.width = b.width ∧
    (a.unit < b.unit ∨ a.unit = b.unit ∧ a.start < b.start)

theorem precedes_iff : a.precedes b = true ↔
    b.width < a.width ∨ a.width = b.width ∧
      (a.unit < b.unit ∨ a.unit = b.unit ∧ a.start ≤ b.start) := by
  simp [precedes]

/-- A run is known by its width, its unit and its start. -/
theorem eq_of_width (hwidth : a.width = b.width) (hunit : a.unit = b.unit)
    (hstart : a.start = b.start) : a = b := by
  obtain ⟨start, unit, count, hpos, _, _⟩ := a
  obtain ⟨start', unit', count', _, _, _⟩ := b
  simp only [width] at hwidth hunit hstart
  subst hunit hstart
  obtain rfl : count = count' := Nat.eq_of_mul_eq_mul_left hpos hwidth
  rfl

theorem before_of_precedes (h : a.precedes b = true) (hne : a ≠ b) : a.Before b := by
  rcases precedes_iff.mp h with hwidth | ⟨hwidth, hunit | ⟨hunit, hstart⟩⟩
  · exact .inl hwidth
  · exact .inr ⟨hwidth, .inl hunit⟩
  · refine .inr ⟨hwidth, .inr ⟨hunit, Nat.lt_of_le_of_ne hstart fun heq => hne ?_⟩⟩
    exact eq_of_width hwidth hunit heq

theorem Before.ne (h : a.Before b) : a ≠ b := by
  rintro rfl
  rcases h with h | ⟨-, h | ⟨-, h⟩⟩ <;> exact absurd h (Nat.lt_irrefl _)

instance : Std.Total fun a b : Run size => a.precedes b = true where
  total a b := by simp only [precedes_iff]; omega

instance : IsTrans (Run size) fun a b => a.precedes b = true where
  trans a b c := by simp only [precedes_iff]; omega

theorem insert_eq_orderedInsert (r : Run size) (rs : List (Run size)) :
    insert r rs = rs.orderedInsert (fun a b => a.precedes b = true) r := by
  induction rs with
  | nil => rfl
  | cons s rest ih => rw [insert, ih, List.orderedInsert_cons]

theorem sort_eq_insertionSort (rs : List (Run size)) :
    sort rs = rs.insertionSort fun a b => a.precedes b = true := by
  induction rs with
  | nil => rfl
  | cons r rest ih =>
    rw [List.insertionSort_cons, ← ih, ← insert_eq_orderedInsert]
    rfl

/-- Runs without repetitions are put into their strict order. -/
theorem pairwise_sort {rs : List (Run size)} (h : rs.Nodup) : (sort rs).Pairwise Before := by
  rw [sort_eq_insertionSort]
  have hordered := List.pairwise_insertionSort (fun a b : Run size => a.precedes b = true) rs
  have hnodup := (List.perm_insertionSort (fun a b => a.precedes b = true) rs).nodup_iff.mpr h
  exact (hordered.and hnodup).imp fun h => before_of_precedes h.1 h.2

end Order

/-- **The candidates are exact.** The candidates of a list of nodes are the first ones, up to the
limit, of a list that holds every maximal run of their keys once, in strict order: wider runs come
first, among equally wide ones those with a shorter unit, and then those further left. -/
theorem candidates_exact (nodes : List Node) (limit : Nat) :
    ∃ rs : List (Run (nodes.map Node.key).length),
      (∀ r, r ∈ rs ↔ r.IsMaximal (nodes.map Node.key)) ∧ rs.Nodup ∧ rs.Pairwise Before ∧
      candidates (nodes.map Node.key) limit = rs.take limit := by
  have hsorted := pairwise_sort (nodup_all (nodes.map Node.key))
  exact ⟨_, fun r => mem_sort.trans mem_all, hsorted.imp Before.ne, hsorted, rfl⟩

/-- A single entry in front of a run is too short for another copy, so that the run that starts
there is maximal as well. -/
example : (candidates [1, 1, 2, 1, 1, 2, 1] 2).map (fun r => (r.start, r.unit, r.count)) =
    [(0, 3, 2), (1, 3, 2)] := by decide

end Run

end GrammarInference
