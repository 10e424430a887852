/-!
# Text

Inputs, rule names and printed grammars are lists of characters, so that every length, index and
cut counts code points. The operations here are the few that the rest of the library needs and
that lists do not have: repetition, search for a part, cutting at a separator, and replacement. They
are without limits; what a machine can do of them is said with the machine.

The main statements say that repetition is additive in the count and that cutting loses nothing.
-/

namespace GrammarInference

/-- A text is a list of characters. -/
abbrev Text := List Char

namespace Text

/-- The comparison of texts decides their equality. -/
instance : LawfulBEq Text := inferInstance

/-- `n` copies of a text, one after another. -/
def times (t : Text) (n : Nat) : Text := (List.replicate n t).flatten

@[simp] theorem times_zero (t : Text) : times t 0 = [] := rfl

theorem times_succ (t : Text) (n : Nat) : times t (n + 1) = t ++ times t n := rfl

theorem times_add (t : Text) (m n : Nat) : times t (m + n) = times t m ++ times t n := by
  induction m with
  | zero => simp
  | succ m ih => rw [Nat.add_right_comm, times_succ, times_succ, ih, List.append_assoc]

@[simp] theorem times_one (t : Text) : times t 1 = t := by simp [times]

/-- The greatest length that a text may have: the largest integer of 64 bits. -/
def greatestLength : Nat := 9223372036854775807

/-- All texts of a list, one after another. -/
def concat (ts : List Text) : Text := ts.flatten

/-- Whether `part` occurs in `whole` as a consecutive part. -/
def occurs (part : Text) : Text → Bool
  | [] => part.isEmpty
  | c :: rest => part.isPrefixOf (c :: rest) || occurs part rest

/-- The pieces of a text between occurrences of the separator `sep`; there is always at least
one piece. -/
def cutAt (sep : Char) : Text → List Text
  | [] => [[]]
  | c :: rest =>
    if c = sep then [] :: cutAt sep rest
    else match cutAt sep rest with
      | [] => [[c]]
      | piece :: pieces => (c :: piece) :: pieces

theorem cutAt_ne_nil (sep : Char) (t : Text) : cutAt sep t ≠ [] := by
  cases t with
  | nil => simp [cutAt]
  | cons c rest =>
    simp only [cutAt]
    split
    · simp
    · split <;> simp

/-- Putting the separator back between the pieces gives the text again. -/
theorem intercalate_cutAt (sep : Char) (t : Text) : [sep].intercalate (cutAt sep t) = t := by
  induction t with
  | nil => rfl
  | cons c rest ih =>
    simp only [cutAt]
    split
    · next h =>
      subst h
      cases hr : cutAt c rest with
      | nil => exact absurd hr (cutAt_ne_nil c rest)
      | cons p ps => rw [hr] at ih; simp [List.intercalate, List.intersperse] at ih ⊢; exact ih
    · cases hr : cutAt sep rest with
      | nil => exact absurd hr (cutAt_ne_nil sep rest)
      | cons p ps =>
        rw [hr] at ih
        cases ps <;> simp [List.intercalate, List.intersperse] at ih ⊢ <;> exact ih

/-- Every occurrence of `old`, taken from the left without overlap, becomes `new`. An empty `old`
occurs nowhere. -/
def replaceAll (old new : Text) (t : Text) : Text :=
  go t.length t
where
  /-- Replacement within the first `fuel` steps; each step uses up at least one character. -/
  go : Nat → Text → Text
    | 0, t => t
    | _ + 1, [] => []
    | fuel + 1, c :: rest =>
      if !old.isEmpty && old.isPrefixOf (c :: rest) then
        new ++ go fuel ((c :: rest).drop old.length)
      else c :: go fuel rest

/-- The first `count` entries; a negative count leaves out that many at the end. -/
def takeSigned {α : Type} (count : Int) (xs : List α) : List α :=
  if 0 ≤ count then xs.take count.toNat else xs.take (xs.length - (-count).toNat)

/-- The entries of a list without repetitions, each at its first place. -/
def distinct {α : Type} [DecidableEq α] (xs : List α) : List α :=
  go [] xs
where
  /-- The entries of the list that are neither in `seen` nor repeated. -/
  go (seen : List α) : List α → List α
    | [] => []
    | x :: rest => if x ∈ seen then go seen rest else x :: go (x :: seen) rest

section Distinct

variable {α : Type} [DecidableEq α]

theorem mem_distinct_go {x : α} {seen xs : List α} :
    x ∈ distinct.go seen xs ↔ x ∈ xs ∧ x ∉ seen := by
  induction xs generalizing seen with
  | nil => simp [distinct.go]
  | cons y rest ih =>
    simp only [distinct.go]
    split
    · next hy =>
      rw [ih, List.mem_cons]
      constructor
      · exact fun ⟨h, hs⟩ => ⟨.inr h, hs⟩
      · rintro ⟨rfl | h, hs⟩
        · exact absurd hy hs
        · exact ⟨h, hs⟩
    · next hy =>
      rw [List.mem_cons, ih, List.mem_cons, List.mem_cons]
      by_cases hxy : x = y
      · subst hxy
        simp [hy]
      · simp [hxy]

@[simp] theorem mem_distinct {x : α} {xs : List α} : x ∈ distinct xs ↔ x ∈ xs := by
  rw [distinct, mem_distinct_go]
  simp

/-- Nothing is repeated. -/
theorem nodup_distinct (xs : List α) : (distinct xs).Nodup := by
  have key : ∀ seen, (distinct.go seen xs).Nodup := by
    induction xs with
    | nil => exact fun _ => List.nodup_nil
    | cons y rest ih =>
      intro seen
      simp only [distinct.go]
      split
      · exact ih seen
      · refine List.nodup_cons.mpr ⟨fun hmem => ?_, ih _⟩
        exact (mem_distinct_go.mp hmem).2 (.head _)
  exact key []

end Distinct

/-- Lower case ASCII letters become capitals, and so do `ſ` and `ı`, the two letters outside
ASCII whose capitals are ASCII. All else stays. -/
def capitals (t : Text) : Text :=
  t.map fun c => if c = 'ſ' then 'S' else if c = 'ı' then 'I' else c.toUpper

end Text

end GrammarInference
