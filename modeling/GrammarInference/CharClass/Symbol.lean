import GrammarInference.Text.Basic

/-!
# Symbols

The members of a character class. Learning produces classes of single characters. A saved grammar
may also hold longer or empty texts and values that are no texts at all; a class carries such
values along, but nothing can be printed or sampled from them.

Symbols are ordered: texts by their characters, after them numbers, the empty value and compound
values, each by their spelling. Sets of symbols are kept as strictly increasing lists.
-/

namespace GrammarInference

/-- A member of a character class. -/
inductive Symbol
  /-- A text, usually a single character. -/
  | text (t : Text)
  /-- A number, known by a spelling that equal numbers share. -/
  | number (spelling : Text)
  /-- The empty value. -/
  | nothing
  /-- A list or an object, known by a spelling that equal ones share. -/
  | compound (spelling : Text)
  deriving Repr, DecidableEq

namespace Symbol

/-- The symbol of a single character. -/
def ofChar (c : Char) : Symbol := .text [c]

/-- The character of a symbol that is a single character. -/
def char? : Symbol → Option Char
  | .text [c] => some c
  | _ => none

/-- The text of a symbol that is a text. -/
def text? : Symbol → Option Text
  | .text t => some t
  | _ => none

/-- The characters of a symbol, or the spelling of a value that is no text. -/
def toText : Symbol → Text
  | .text t => t
  | .number spelling => spelling
  | .nothing => []
  | .compound spelling => spelling

/-- The place of a kind of symbols in the order. -/
def rank : Symbol → Nat
  | .text _ => 0
  | .number _ => 1
  | .nothing => 2
  | .compound _ => 3

/-- Whether symbols can be kept in a set: lists and objects cannot. -/
def isAtom (s : Symbol) : Bool := s.rank ≠ 3

/-- Whether symbols can be put in order among each other: texts, or numbers, or at most one. -/
def comparable (ss : List Symbol) : Bool :=
  ss.length ≤ 1 || ss.all (·.rank = 0) || ss.all (·.rank = 1)

@[simp] theorem char?_ofChar (c : Char) : (ofChar c).char? = some c := rfl

@[simp] theorem toText_ofChar (c : Char) : (ofChar c).toText = [c] := rfl

theorem ofChar_injective {c d : Char} (h : ofChar c = ofChar d) : c = d := by
  simpa [ofChar] using h

theorem eq_of_rank_of_toText {a b : Symbol} (hr : a.rank = b.rank) (ht : a.toText = b.toText) :
    a = b := by
  cases a <;> cases b <;> simp_all [rank, toText]

/-- Symbols of one kind come in the order of their texts or spellings. -/
def lt (a b : Symbol) : Prop := a.rank < b.rank ∨ (a.rank = b.rank ∧ a.toText < b.toText)

instance : LT Symbol := ⟨lt⟩

instance (a b : Symbol) : Decidable (a < b) :=
  inferInstanceAs (Decidable (a.rank < b.rank ∨ (a.rank = b.rank ∧ a.toText < b.toText)))

theorem lt_irrefl (a : Symbol) : ¬ a < a := by
  rintro (h | ⟨_, h⟩)
  · exact Nat.lt_irrefl _ h
  · exact List.lt_irrefl _ h

theorem lt_trans {a b c : Symbol} (h₁ : a < b) (h₂ : b < c) : a < c := by
  rcases h₁ with h₁ | ⟨e₁, h₁⟩ <;> rcases h₂ with h₂ | ⟨e₂, h₂⟩
  · exact .inl (Nat.lt_trans h₁ h₂)
  · exact .inl (e₂ ▸ h₁)
  · exact .inl (e₁ ▸ h₂)
  · exact .inr ⟨e₁.trans e₂, List.lt_trans h₁ h₂⟩

theorem lt_or_eq_or_gt (a b : Symbol) : a < b ∨ a = b ∨ b < a := by
  rcases Nat.lt_trichotomy a.rank b.rank with hr | hr | hr
  · exact .inl (.inl hr)
  · by_cases h₁ : a.toText < b.toText
    · exact .inl (.inr ⟨hr, h₁⟩)
    · by_cases h₂ : b.toText < a.toText
      · exact .inr (.inr (.inr ⟨hr.symm, h₂⟩))
      · refine .inr (.inl (eq_of_rank_of_toText hr ?_))
        exact List.le_antisymm (List.not_lt.1 h₂) (List.not_lt.1 h₁)
  · exact .inr (.inr (.inl hr))

/-! ### Sets of symbols -/

/-- Adds a symbol to a strictly increasing list. -/
def insert (a : Symbol) : List Symbol → List Symbol
  | [] => [a]
  | b :: rest => if a < b then a :: b :: rest else if a = b then b :: rest else b :: insert a rest

/-- The symbols of a list in strictly increasing order. -/
def setOf (xs : List Symbol) : List Symbol := xs.foldr insert []

@[simp] theorem mem_insert {a x : Symbol} {xs : List Symbol} :
    x ∈ insert a xs ↔ x = a ∨ x ∈ xs := by
  induction xs with
  | nil => simp [insert]
  | cons b rest ih =>
    simp only [insert]
    split
    · simp
    · split
      · next h => subst h; simp
      · simp only [List.mem_cons, ih]; grind

@[simp] theorem mem_setOf {x : Symbol} {xs : List Symbol} : x ∈ setOf xs ↔ x ∈ xs := by
  induction xs with
  | nil => simp [setOf]
  | cons a rest ih => simp only [setOf, List.foldr_cons, mem_insert, List.mem_cons] at ih ⊢; rw [ih]

theorem pairwise_insert (a : Symbol) {xs : List Symbol} (h : xs.Pairwise (· < ·)) :
    (insert a xs).Pairwise (· < ·) := by
  induction xs with
  | nil => simp [insert]
  | cons b rest ih =>
    obtain ⟨hb, hrest⟩ := List.pairwise_cons.1 h
    simp only [insert]
    split
    · next hab =>
      refine List.pairwise_cons.2 ⟨?_, h⟩
      intro x hx
      rcases List.mem_cons.1 hx with rfl | hx
      · exact hab
      · exact lt_trans hab (hb x hx)
    · split
      · exact h
      · next hab hne =>
        refine List.pairwise_cons.2 ⟨?_, ih hrest⟩
        intro x hx
        rcases mem_insert.1 hx with rfl | hx
        · rcases lt_or_eq_or_gt x b with h' | h' | h'
          · exact absurd h' hab
          · exact absurd h' hne
          · exact h'
        · exact hb x hx

/-- The list that `setOf` makes is strictly increasing. -/
theorem pairwise_setOf (xs : List Symbol) : (setOf xs).Pairwise (· < ·) := by
  induction xs with
  | nil => simp [setOf]
  | cons a rest ih => exact pairwise_insert a ih

end Symbol

end GrammarInference
