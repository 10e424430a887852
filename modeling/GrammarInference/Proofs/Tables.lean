import GrammarInference.Grammar.Rules
import GrammarInference.Number.Decimal

/-!
# Names and rules of a table

Looking up a name in a rule table finds an entry, setting a rule adds at most its name, and
selecting rules keeps those that are selected.

Learning names its rules by their number: `Rules.Numbered` says that every name of a table is one
of a smaller number than the table has rules, so that the next name is new.
-/

namespace GrammarInference

namespace Rules

variable {r : Rules} {name k : Text} {rule : Node}

/-! ### Lookups -/

/-- A rule that is found is an entry. -/
theorem mem_entries_of_get? (h : r.get? name = some rule) : (name, rule) ∈ r.entries := by
  unfold get? at h
  generalize r.entries = es at h ⊢
  induction es with
  | nil => simp [find?] at h
  | cons e rest ih =>
    obtain ⟨k, n⟩ := e
    simp only [find?] at h
    split at h
    · next hk =>
      obtain rfl : n = rule := by simpa using h
      rw [hk]
      exact List.mem_cons_self
    · exact List.mem_cons_of_mem _ (ih h)

/-- An entry is the rule that is found under its name. -/
theorem get?_of_mem_entries (h : (name, rule) ∈ r.entries) : r.get? name = some rule := by
  have hd := r.distinct
  unfold get?
  generalize r.entries = es at h hd ⊢
  induction es with
  | nil => cases h
  | cons e rest ih =>
    obtain ⟨k, n⟩ := e
    obtain ⟨hk, hd⟩ := List.nodup_cons.mp hd
    simp only [find?]
    rcases List.mem_cons.mp h with heq | h
    · cases heq
      rw [if_pos rfl]
    · rw [if_neg, ih h hd]
      rintro rfl
      exact hk (List.mem_map.mpr ⟨_, h, rfl⟩)

theorem mem_names_of_get? (h : r.get? name = some rule) : name ∈ r.names :=
  List.mem_map_of_mem (mem_entries_of_get? h)

theorem exists_get?_of_mem_names (h : name ∈ r.names) : ∃ rule, r.get? name = some rule := by
  obtain ⟨⟨k, rule⟩, he, rfl⟩ := List.mem_map.mp h
  exact ⟨rule, get?_of_mem_entries he⟩

/-- Selecting rules keeps the selected ones, changed as asked for. -/
theorem get?_filterMap (p : Text → Bool) (f : Node → Node) (r : Rules) (name : Text) :
    (r.filterMap p f).get? name = if p name then (r.get? name).map f else none := by
  unfold get? filterMap
  dsimp only
  induction r.entries with
  | nil => simp [find?]
  | cons e rest ih =>
    obtain ⟨k, n⟩ := e
    rw [List.filter_cons]
    by_cases hk : k = name
    · subst hk
      by_cases hp : p k = true
      · simp [find?, hp]
      · rw [if_neg hp] at ih ⊢
        rw [ih, if_neg hp]
    · by_cases hp : p k = true
      · rw [if_pos hp, List.map_cons]
        simp only [find?]
        rw [if_neg hk, if_neg hk, ih]
      · rw [if_neg hp, ih]
        simp only [find?]
        rw [if_neg hk]

/-! ### Names after a rule has been set -/

@[simp] theorem mem_names_set : k ∈ (r.set name rule).names ↔ k = name ∨ k ∈ r.names :=
  mem_map_fst_setIn

/-- A new name comes last. -/
theorem size_set_of_not_mem (h : name ∉ r.names) : (r.set name rule).size = r.size + 1 := by
  unfold names at h
  unfold size set
  dsimp only
  generalize r.entries = es at h ⊢
  induction es with
  | nil => rfl
  | cons e rest ih =>
    obtain ⟨k, n⟩ := e
    rw [List.map_cons, List.mem_cons, not_or] at h
    simp only [setIn]
    rw [if_neg (Ne.symm h.1), List.length_cons, ih h.2, List.length_cons]

/-- A known name keeps its place. -/
theorem size_set_of_mem (h : name ∈ r.names) : (r.set name rule).size = r.size := by
  unfold names at h
  unfold size set
  dsimp only
  generalize r.entries = es at h ⊢
  induction es with
  | nil => cases h
  | cons e rest ih =>
    obtain ⟨k, n⟩ := e
    simp only [setIn]
    split
    · rfl
    · next hk =>
      rw [List.length_cons, List.length_cons, ih]
      exact (List.mem_cons.mp h).resolve_left (Ne.symm hk)

/-! ### Numbered names -/

/-- The name of the rule with a number. -/
def nameOf (n : Nat) : Text := 'r' :: Number.decimal n

theorem nameOf_injective {m n : Nat} (h : nameOf m = nameOf n) : m = n := by
  have h : Number.decimal m = Number.decimal n := by simpa [nameOf] using h
  rw [← Nat.ofDigitChars_ten_toDigits (n := m), ← Nat.ofDigitChars_ten_toDigits (n := n)]
  exact congrArg (Nat.ofDigitChars 10 · 0) h

/-- Every name is that of a number smaller than the number of rules. -/
def Numbered (r : Rules) : Prop := ∀ name ∈ r.names, ∃ n < r.size, name = nameOf n

theorem numbered_empty : empty.Numbered := by
  intro name h
  cases h

namespace Numbered

/-- The next name is new. -/
theorem next_not_mem (h : r.Numbered) : nameOf r.size ∉ r.names := by
  intro hmem
  obtain ⟨n, hn, heq⟩ := h _ hmem
  exact Nat.ne_of_gt hn (nameOf_injective heq)

/-- Taking the next name keeps the names numbered. -/
theorem set_next (h : r.Numbered) (rule : Node) : (r.set (nameOf r.size) rule).Numbered := by
  intro k hk
  rw [size_set_of_not_mem h.next_not_mem]
  rcases mem_names_set.mp hk with rfl | hk
  · exact ⟨r.size, Nat.lt_succ_self _, rfl⟩
  · obtain ⟨n, hn, rfl⟩ := h k hk
    exact ⟨n, Nat.lt_succ_of_lt hn, rfl⟩

/-- So does setting a rule again. -/
theorem set_again (h : r.Numbered) (hname : name ∈ r.names) (rule : Node) :
    (r.set name rule).Numbered := by
  intro k hk
  rw [size_set_of_mem hname]
  rcases mem_names_set.mp hk with rfl | hk
  · exact h k hname
  · exact h k hk

end Numbered

end Rules

end GrammarInference
