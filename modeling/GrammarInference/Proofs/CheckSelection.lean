import GrammarInference.Proofs.ClassUnions
import GrammarInference.Proofs.Generalizing
import GrammarInference.Proofs.Rounding

/-!
# What is chosen for checking

The checks of a class are members of it without repetitions, the observed character among them, and
as many as may be chosen (`Checks.selects_of_characters`). Positions that are strictly increasing
and lie in the list are enough for this (`Checks.selects_pickBy`).

The positions are whole parts of the multiples of a quotient, and whole parts of numbers that grow
by at least one are strictly increasing (`Checks.spaced_floors`). The exact multiples grow like
this. So do the rounded ones as long as no more than `2 ^ 25` are asked for, since rounding then
moves each by less than the growth of the exact ones has to spare; there are fewer characters.
-/

namespace GrammarInference

namespace Checks

/-! ### Members at increasing positions -/

/-- Positions in a list of `size` entries, strictly increasing, as many as asked for. -/
structure Spaced (size count : Nat) (positions : List Nat) : Prop where
  /-- There are as many as asked for. -/
  length_eq : positions.length = count
  /-- They lie in the list. -/
  lt_size : ∀ p ∈ positions, p < size
  /-- They are strictly increasing. -/
  increasing : positions.Pairwise (· < ·)

/-- What is chosen from a list of members, among which one was observed. -/
structure Selects {α : Type} (members : List α) (observed : α) (count : Nat)
    (selection : List α) : Prop where
  /-- All entries are members. -/
  subset : selection ⊆ members
  /-- No entry is repeated. -/
  nodup : selection.Nodup
  /-- The observed member is chosen. -/
  observed_mem : observed ∈ selection
  /-- All members are chosen, or as many as may be. -/
  length_eq : selection.length = min members.length count
  /-- The entries stand in the order of the members, but the first one may have given way to the
  observed one. -/
  order : selection.Sublist members ∨
    ∃ first rest, (first :: rest).Sublist members ∧ selection = observed :: rest

section Selection

variable {α : Type} {members : List α} {positions : List Nat} {observed : α} {count : Nat}

/-- At increasing positions stand as many members, in their order. -/
theorem Spaced.sublist_members (h : Spaced members.length count positions) :
    (positions.filterMap fun i => members[i]?).Sublist members ∧
      (positions.filterMap fun i => members[i]?).length = count := by
  -- The positions become indices of the list, for which there is always a member.
  have hvalues : (positions.pmap Fin.mk h.lt_size).map Fin.val = positions := by
    simp [List.map_pmap]
  have hsome : ((fun i => members[i]?) ∘ Fin.val : Fin members.length → Option α) =
      some ∘ fun i => members[i] := funext fun i => List.getElem?_eq_getElem i.isLt
  have hindices : (positions.filterMap fun i => members[i]?) =
      (positions.pmap Fin.mk h.lt_size).map fun i => members[i] := by
    conv_lhs => rw [← hvalues, List.filterMap_map, hsome, List.filterMap_eq_map]
  rw [hindices]
  refine ⟨List.map_getElem_sublist ?_, ?_⟩
  · exact h.increasing.pmap h.lt_size fun _ _ _ _ hlt => hlt
  · rw [List.length_map, List.length_pmap, h.length_eq]

variable [DecidableEq α]

/-- What is chosen at increasing positions is a selection: the observed member takes the place of
the first one only if it is not among them. -/
theorem Spaced.selects_pickAt (h : Spaced members.length count positions) (hnodup : members.Nodup)
    (hmem : observed ∈ members) (hcount : 1 ≤ count) (hlen : count ≤ members.length) :
    Selects members observed count (pickAt positions members observed) := by
  obtain ⟨hsublist, hlength⟩ := h.sublist_members
  unfold pickAt
  dsimp only
  generalize positions.filterMap (fun i => members[i]?) = picked at hsublist hlength ⊢
  have hpicked : picked.Nodup := hnodup.sublist hsublist
  split
  · next hobserved =>
    rw [Text.distinct_of_nodup hpicked]
    exact ⟨hsublist.subset, hpicked, hobserved, by omega, .inl hsublist⟩
  · next hmissing =>
    obtain ⟨first, rest, rfl⟩ := List.exists_cons_of_length_pos (l := picked) (by omega)
    rw [List.set_cons_zero]
    have hrest : rest.Sublist members := (List.sublist_cons_self first rest).trans hsublist
    have hnew : observed ∉ rest := fun hmem => hmissing (List.mem_cons_of_mem _ hmem)
    have hselected : (observed :: rest).Nodup :=
      List.nodup_cons.mpr ⟨hnew, (List.nodup_cons.mp hpicked).2⟩
    rw [Text.distinct_of_nodup hselected]
    rw [List.length_cons] at hlength
    exact ⟨List.cons_subset.mpr ⟨hmem, hrest.subset⟩, hselected, .head _,
      by rw [List.length_cons]; omega, .inr ⟨first, rest, hsublist, rfl⟩⟩

end Selection

/-! ### Whole parts of multiples -/

/-- The whole parts of numbers that grow by at least one are strictly increasing. -/
theorem spaced_floors {size count : Nat} {f : Nat → ℚ} (hnonneg : ∀ i, 0 ≤ f i)
    (hlt : ∀ i < count, f i < size) (hstep : ∀ i j, i < j → j < count → f i + 1 ≤ f j) :
    Spaced size count ((List.range count).map fun i => ⌊f i⌋₊) where
  length_eq := by rw [List.length_map, List.length_range]
  lt_size p hp := by
    obtain ⟨i, hi, rfl⟩ := List.mem_map.mp hp
    exact (Nat.floor_lt (hnonneg i)).mpr (hlt i (List.mem_range.mp hi))
  increasing := by
    refine List.pairwise_map.mpr (List.pairwise_lt_range.imp_of_mem fun {i j} _ hj hij => ?_)
    calc ⌊f i⌋₊ < ⌊f i⌋₊ + 1 := Nat.lt_succ_self _
      _ = ⌊f i + 1⌋₊ := (Nat.floor_add_one (hnonneg i)).symm
      _ ≤ ⌊f j⌋₊ := Nat.floor_le_floor (hstep i j hij (List.mem_range.mp hj))

/-- `count` evenly spaced positions in a list of `size` entries: the exact whole parts of the
multiples of `size / count`. -/
def evenPositions (size count : Nat) : List Nat :=
  (List.range count).map fun i => i * size / count

section Positions

variable {size count : Nat}

/-- In a list with entries, evenly spaced positions are positions of the list. -/
theorem lt_of_mem_evenPositions (hsize : 0 < size) {p : Nat} (hp : p ∈ evenPositions size count) :
    p < size := by
  obtain ⟨i, hi, rfl⟩ := List.mem_map.mp hp
  have hi : i < count := List.mem_range.mp hi
  rw [Nat.div_lt_iff_lt_mul (by omega), Nat.mul_comm]
  exact Nat.mul_lt_mul_of_pos_left hi hsize

theorem evenPositions_eq_floors (size count : Nat) :
    evenPositions size count =
      (List.range count).map fun i : Nat => ⌊(i * (size / count) : ℚ)⌋₊ := by
  refine List.map_congr_left fun i _ => ?_
  rw [← mul_div_assoc, ← Nat.cast_mul, Nat.floor_div_eq_div]

theorem spaced_evenPositions (hcount : 1 ≤ count) (h : count ≤ size) :
    Spaced size count (evenPositions size count) := by
  have hpos : (0 : ℚ) < count := by exact_mod_cast hcount
  have hone : (1 : ℚ) ≤ size / count := by
    rw [one_le_div hpos]
    exact_mod_cast h
  rw [evenPositions_eq_floors]
  refine spaced_floors (fun i => by positivity) (fun i hi => ?_) fun i j hij _ => ?_
  · have hi : (i : ℚ) < count := by exact_mod_cast hi
    calc (i * (size / count) : ℚ) < count * (size / count) :=
          mul_lt_mul_of_pos_right hi (one_pos.trans_le hone)
      _ = size := mul_div_cancel₀ _ hpos.ne'
  · have hij : (i + 1 : ℚ) ≤ j := by exact_mod_cast hij
    calc (i * (size / count) + 1 : ℚ) ≤ (i + 1) * (size / count) := by linarith
      _ ≤ j * (size / count) := mul_le_mul_of_nonneg_right hij (one_pos.le.trans hone)

/-! ### Rounded multiples -/

open Number

theorem spacedPositions_eq_floors (size count : Nat) :
    spacedPositions size count =
      (List.range count).map fun i => ⌊((Binary.nearest size count).scale i).value⌋₊ :=
  List.map_congr_left fun _ _ => Binary.floor_eq _

/-- A quotient that is greater than one exceeds one by at least its denominator's reciprocal. -/
theorem one_add_le_div (hcount : 1 ≤ count) (h : count < size) (hbound : count ≤ 2 ^ 25) :
    1 + 1 / 2 ^ 25 ≤ (size / count : ℚ) := by
  have hpos : (0 : ℚ) < count := by exact_mod_cast hcount
  have hbound : (count : ℚ) ≤ 2 ^ 25 := by exact_mod_cast hbound
  have hsize : (count + 1 : ℚ) ≤ size := by exact_mod_cast h
  calc (1 + 1 / 2 ^ 25 : ℚ) ≤ 1 + 1 / count := by gcongr
    _ = (count + 1) / count := by field_simp
    _ ≤ size / count := by gcongr

/-- The multiples of a rounded quotient, rounded once more, are off by less than the quotient. -/
theorem abs_scale_nearest_sub_le (hcount : 1 ≤ count) (h : count < size) (hbound : count ≤ 2 ^ 25)
    {i : Nat} (hi : i < count) :
    |((Binary.nearest size count).scale i).value - i * (size / count)| ≤
      size / count * (3 / 2 ^ 28) := by
  have hquot := one_add_le_div hcount h hbound
  have hnearest := abs_le.mp (Binary.abs_nearest_sub_le hcount h.le)
  have hone : 1 ≤ (Binary.nearest size count).value := by linarith
  have hscale := abs_le.mp (Binary.abs_scale_sub_le hone i)
  generalize (size / count : ℚ) = quot at *
  generalize (Binary.nearest size count).value = rounded at *
  have hi0 : (0 : ℚ) ≤ i := Nat.cast_nonneg i
  have hi : (i : ℚ) ≤ 2 ^ 25 := by exact_mod_cast hi.le.trans hbound
  -- The quotient's own error grows with the multiple, and the multiple is rounded again.
  have hlower : i * (quot - quot / 2 ^ 53) ≤ i * rounded :=
    mul_le_mul_of_nonneg_left (by linarith) hi0
  have hupper : i * rounded ≤ i * (quot + quot / 2 ^ 53) :=
    mul_le_mul_of_nonneg_left (by linarith) hi0
  have hmultiple : i * quot ≤ 2 ^ 25 * quot := mul_le_mul_of_nonneg_right hi (by linarith)
  rw [abs_le]
  constructor
  · linarith
  · linarith

/-- As long as they are not too many, the rounded positions are increasing and in the list, too. -/
theorem spaced_spacedPositions (hcount : 1 ≤ count) (h : count < size) (hbound : count ≤ 2 ^ 25) :
    Spaced size count (spacedPositions size count) := by
  have hpos : (0 : ℚ) < count := by exact_mod_cast hcount
  have hquot := one_add_le_div hcount h hbound
  have hmul : (count * (size / count) : ℚ) = size := mul_div_cancel₀ _ hpos.ne'
  have herror := fun {i} => abs_scale_nearest_sub_le (i := i) hcount h hbound
  rw [spacedPositions_eq_floors]
  refine spaced_floors (fun _ => Binary.value_nonneg _) (fun i hi => ?_) fun i j hij hj => ?_
  · have hnext : ((i + 1) * (size / count) : ℚ) ≤ count * (size / count) :=
      mul_le_mul_of_nonneg_right (by exact_mod_cast hi) (by linarith)
    linarith [(abs_le.mp (herror hi)).2]
  · have hnext : ((i + 1) * (size / count) : ℚ) ≤ j * (size / count) :=
      mul_le_mul_of_nonneg_right (by exact_mod_cast hij) (by linarith)
    linarith [(abs_le.mp (herror (hij.trans hj))).2, (abs_le.mp (herror hj)).1]

end Positions

/-! ### What is chosen -/

/-- At most `count` of the members, chosen as `pick` does, with positions of one's own. -/
def pickBy {α : Type} [DecidableEq α] (positions : Nat → Nat → List Nat) (members : List α)
    (observed : α) (count : Nat) : List α :=
  if members.length ≤ count then members
  else pickAt (positions members.length count) members observed

theorem pick_eq_pickBy {α : Type} [DecidableEq α] (members : List α) (observed : α) (count : Nat) :
    pick members observed count = pickBy spacedPositions members observed count := rfl

/-- Increasing positions in the list are enough for a selection; all members are one as well. -/
theorem selects_pickBy {α : Type} [DecidableEq α] {positions : Nat → Nat → List Nat}
    {members : List α} {observed : α} {count : Nat} (hnodup : members.Nodup)
    (hmem : observed ∈ members) (hcount : 1 ≤ count)
    (h : count < members.length →
      Spaced members.length count (positions members.length count)) :
    Selects members observed count (pickBy positions members observed count) := by
  unfold pickBy
  split
  · next hall =>
    exact ⟨List.Subset.refl _, hnodup, hmem, (min_eq_left hall).symm, .inl (List.Sublist.refl _)⟩
  · next hmore =>
    have hlt : count < members.length := by omega
    exact (h hlt).selects_pickAt hnodup hmem hcount hlt.le

/-- There are no more distinct characters than code points. -/
theorem length_le_of_characters {members : List Symbol} (hnodup : members.Nodup)
    (hchars : ∀ s ∈ members, ∃ c, s = Symbol.ofChar c) : members.length ≤ 2 ^ 25 := by
  obtain ⟨chars, rfl⟩ : members ∈ Set.range (List.map Symbol.ofChar) := by
    rw [Set.range_list_map]
    exact fun s hs => (hchars s hs).imp fun _ heq => heq.symm
  have hcodes : (chars.map Char.toNat).Nodup :=
    (List.Nodup.of_map _ hnodup).map fun _ _ heq => Char.toNat_inj.mp heq
  have hsubset : chars.map Char.toNat ⊆ List.range 0x110000 := by
    intro n hn
    obtain ⟨c, _, rfl⟩ := List.mem_map.mp hn
    have hvalid : c.toNat < 0xd800 ∨ (0xdfff < c.toNat ∧ c.toNat < 0x110000) := c.valid
    exact List.mem_range.mpr (by omega)
  have hlength := (List.subperm_of_subset hcodes hsubset).length_le
  rw [List.length_map, List.length_range] at hlength
  rw [List.length_map]
  omega

/-- **The checks are a selection.** Let a list of distinct characters hold the observed one, and let
at least one check be allowed. With the exact whole parts of the multiples as positions, none lies
outside the list, and what is chosen are members without repetitions, the observed one among them,
as many as there are and as may be, in the order of the list but for the first. The same holds with
the rounded positions that are used. -/
theorem selects_of_characters {members : List Symbol} {observed : Symbol} {count : Nat}
    (hchars : ∀ s ∈ members, ∃ c, s = Symbol.ofChar c) (hnodup : members.Nodup)
    (hmem : observed ∈ members) (hcount : 1 ≤ count) :
    (∀ p ∈ evenPositions members.length count, p < members.length) ∧
      Selects members observed count (pickBy evenPositions members observed count) ∧
      (count < members.length →
        ∀ p ∈ spacedPositions members.length count, p < members.length) ∧
      Selects members observed count (pick members observed count) := by
  have hbound := length_le_of_characters hnodup hchars
  have hrounded (hlt : count < members.length) :
      Spaced members.length count (spacedPositions members.length count) :=
    spaced_spacedPositions hcount hlt (by omega)
  refine ⟨fun _ => lt_of_mem_evenPositions (List.length_pos_of_mem hmem), ?_,
    fun hlt => (hrounded hlt).lt_size, ?_⟩
  · exact selects_pickBy hnodup hmem hcount fun hlt => spaced_evenPositions hcount hlt.le
  · rw [pick_eq_pickBy]
    exact selects_pickBy hnodup hmem hcount hrounded

/-- Of ten letters five are chosen, starting with the observed `b`, which has no place of its own:
the chosen ones would be `a`, `c`, `e`, `g` and `i`. -/
theorem selects_of_characters_letters :
    let members := ['a', 'b', 'c', 'd', 'e', 'f', 'g', 'h', 'i', 'j'].map Symbol.ofChar
    let observed := Symbol.ofChar 'b'
    pick members observed 5 = ['b', 'c', 'e', 'g', 'i'].map Symbol.ofChar ∧
      Selects members observed 5 (pick members observed 5) ∧
      Selects members observed 5 (pickBy evenPositions members observed 5) := by
  intro members observed
  have hchars : ∀ s ∈ members, ∃ c, s = Symbol.ofChar c :=
    fun s hs => (List.mem_map.mp hs).imp fun _ h => h.2.symm
  have hmem : observed ∈ members := by decide
  have hselects := selects_of_characters hchars (by decide) hmem (show 1 ≤ 5 by decide)
  exact ⟨by decide, hselects.2.2.2, hselects.2.1⟩

end Checks

end GrammarInference
