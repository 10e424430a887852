import GrammarInference.Learn.Runs

/-!
# The copies in a run

A run found by `Run.at?` is made of copies of its first unit, and so is every run among the
candidates of a list (`Run.copies_of_mem_candidates`). For a list of nodes, whose runs are those of
their keys, the copies are blocks of nodes with the keys of the first block.
-/

namespace GrammarInference

namespace Run

variable {α : Type} [DecidableEq α]

/-- The counted copies stand at the front. -/
theorem take_copies (unit : List α) (fuel : Nat) (xs : List α) :
    xs.take (unit.length * copies unit fuel xs) =
      (List.replicate (copies unit fuel xs) unit).flatten := by
  induction fuel generalizing xs with
  | zero => simp [copies]
  | succ fuel ih =>
    simp only [copies]
    split
    · next h =>
      rw [Nat.mul_succ, Nat.add_comm, List.take_add, h, ih, List.replicate_succ,
        List.flatten_cons]
    · simp

/-- A run covers copies of its first unit. -/
theorem take_width_of_at? {xs : List α} {unit start : Nat} {r : Run xs.length}
    (h : at? xs unit start = some r) :
    ((xs.drop r.start).take (r.unit * r.count)) =
      (List.replicate r.count ((xs.drop r.start).take r.unit)).flatten := by
  unfold at? at h
  dsimp only at h
  split at h
  · cases h
  · split at h
    · next hr =>
      cases h
      dsimp only
      have hlen : ((xs.drop start).take unit).length = unit := by
        rw [List.length_take, List.length_drop, Nat.min_eq_left]
        have := Nat.mul_le_mul_left unit hr.2.1
        omega
      have := take_copies ((xs.drop start).take unit) xs.length (xs.drop start)
      rwa [hlen] at this
    · cases h

theorem mem_insert {size : Nat} {r s : Run size} {rs : List (Run size)} :
    s ∈ insert r rs ↔ s = r ∨ s ∈ rs := by
  induction rs with
  | nil => simp [insert]
  | cons q rest ih =>
    simp only [insert]
    split
    · simp
    · simp only [List.mem_cons, ih]
      exact or_left_comm

theorem mem_sort {size : Nat} {s : Run size} {rs : List (Run size)} : s ∈ sort rs ↔ s ∈ rs := by
  induction rs with
  | nil => simp [sort]
  | cons r rest ih =>
    rw [List.mem_cons, ← ih]
    exact mem_insert

/-- Every candidate covers copies of its first unit. -/
theorem copies_of_mem_candidates {xs : List α} {limit : Nat} {r : Run xs.length}
    (h : r ∈ candidates xs limit) :
    ((xs.drop r.start).take (r.unit * r.count)) =
      (List.replicate r.count ((xs.drop r.start).take r.unit)).flatten := by
  have hall : r ∈ all xs := mem_sort.mp (List.mem_of_mem_take h)
  obtain ⟨unit, _, hr⟩ := List.mem_flatMap.mp hall
  obtain ⟨start, _, hr⟩ := List.mem_filterMap.mp hr
  exact take_width_of_at? hr

/-- A list falls, at a run, into what is before the run, its first unit, the other ones, and what is
after the run. -/
theorem eq_parts {β : Type} {size : Nat} (r : Run size) (xs : List β) :
    xs = xs.take r.start ++ ((xs.drop r.start).take r.unit ++
      (xs.drop (r.start + r.unit)).take (r.unit * (r.count - 1))) ++
      xs.drop (r.start + r.unit * r.count) := by
  have hcount := r.two_le_count
  have hwidth : r.unit * r.count = r.unit + r.unit * (r.count - 1) := by
    obtain ⟨k, hk⟩ := Nat.exists_eq_add_of_le' hcount
    rw [hk, Nat.mul_succ, Nat.add_comm]
    rfl
  calc xs
      = xs.take r.start ++ xs.drop r.start := (List.take_append_drop _ _).symm
    _ = xs.take r.start ++ ((xs.drop r.start).take (r.unit + r.unit * (r.count - 1)) ++
          (xs.drop r.start).drop (r.unit * r.count)) := by
        rw [← hwidth, List.take_append_drop (r.unit * r.count)]
    _ = _ := by
        rw [List.take_add, List.drop_drop, List.drop_drop]
        simp only [List.append_assoc]

end Run

/-- Copies of a list of images are the images of blocks. -/
private theorem exists_blocks {α β : Type} (f : α → β) (u : List β) :
    ∀ (n : Nat) (xs : List α), xs.map f = (List.replicate n u).flatten →
      ∃ blocks : List (List α), xs = blocks.flatten ∧ blocks.length = n ∧
        ∀ b ∈ blocks, b.map f = u
  | 0, xs, h => ⟨[], by simpa using h, rfl, by simp⟩
  | n + 1, xs, h => by
    rw [List.replicate_succ, List.flatten_cons] at h
    obtain ⟨as, bs, rfl, ha, hb⟩ := List.map_eq_append_iff.mp h
    obtain ⟨blocks, rfl, hlen, hall⟩ := exists_blocks f u n bs hb
    refine ⟨as :: blocks, rfl, by rw [List.length_cons, hlen], ?_⟩
    exact List.forall_mem_cons.mpr ⟨ha, hall⟩

/-- A list of nodes falls, at a run of its keys, into the nodes before the run, its first unit,
further copies of it, and the nodes after the run. -/
structure Node.CopiesAt (nodes pre first : List Node) (copies : List (List Node))
    (post : List Node) : Prop where
  /-- The parts in order. -/
  split : nodes = pre ++ (first ++ copies.flatten) ++ post
  /-- A unit has at least one node. -/
  first_ne_nil : first ≠ []
  /-- There is another copy. -/
  copies_ne_nil : copies ≠ []
  /-- The copies have the keys of the first unit. -/
  alike : ∀ b ∈ copies, b.map Node.key = first.map Node.key

/-- **Copies.** A run of nodes whose keys are a candidate consists of copies. -/
theorem Node.copiesAt_of_mem_candidates {nodes : List Node} {limit : Nat}
    {r : Run (nodes.map Node.key).length}
    (h : r ∈ Run.candidates (nodes.map Node.key) limit) :
    ∃ copies : List (List Node), copies.length + 1 = r.count ∧
      (nodes.drop (r.start + r.unit)).take (r.unit * (r.count - 1)) = copies.flatten ∧
      Node.CopiesAt nodes (nodes.take r.start) ((nodes.drop r.start).take r.unit) copies
        (nodes.drop (r.start + r.unit * r.count)) := by
  have hfits : r.start + r.unit * r.count ≤ nodes.length := by simpa using r.fits
  have hcount := r.two_le_count
  obtain ⟨k, hk⟩ : ∃ k, r.count = k + 2 := Nat.exists_eq_add_of_le' hcount
  have hwidth : r.unit * r.count = r.unit + r.unit * (k + 1) := by
    rw [hk, Nat.mul_succ, Nat.add_comm]
  have hunit : ((nodes.drop r.start).take r.unit).length = r.unit := by
    rw [List.length_take, List.length_drop, Nat.min_eq_left]
    omega
  have hcopies := Run.copies_of_mem_candidates h
  simp only [← List.map_drop, ← List.map_take] at hcopies
  rw [hwidth, List.take_add, List.drop_drop, List.map_append, hk, List.replicate_succ,
    List.flatten_cons] at hcopies
  -- The keys of the first copy stand in front of those of the other copies.
  have hrest := List.append_cancel_left hcopies
  obtain ⟨copies, hflat, hlen, hall⟩ := exists_blocks Node.key _ _ _ hrest
  refine ⟨copies, by rw [hlen, hk], ?_, ?_, ?_, ?_, hall⟩
  · rw [hk]
    exact hflat
  · rw [← hflat]
    have hparts := r.eq_parts nodes
    rwa [hk] at hparts ⊢
  · intro hnil
    rw [hnil] at hunit
    have := r.one_le_unit
    rw [← hunit] at this
    exact absurd this (by simp)
  · rintro rfl
    cases hlen

end GrammarInference
