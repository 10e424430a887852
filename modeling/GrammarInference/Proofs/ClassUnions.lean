import GrammarInference.Proofs.Batches
import GrammarInference.Proofs.SafeMerging
import Mathlib.Data.List.Sort

/-!
# Unions of classes

The union of two classes keeps the first checks of both, in their order and without repetitions, up
to a bound. In a union of several classes this happens at every step, so that an inner union throws
away checks which an outer one might have had room for. It never shows: a check that is thrown away
comes after as many others as are kept, and at most those that an earlier class has as well are left
out later on (`Text.take_distinct_append_take`).

So unions are associative, order of the checks included, and uniting with one of the two classes
again changes nothing (`CharClass.union_assoc`, `CharClass.union_union_of_subset`). Classes that
cannot be put in order fail to unite in whichever order it is tried (`CharClass.union?_assoc`). What
many classes are united to depends on their sequence alone, not on how it is grouped
(`CharClass.laws_of_union`).
-/

namespace GrammarInference

/-! ### First entries without repetitions -/

namespace Text

section Distinct

variable {α : Type} [DecidableEq α]

/-- Of a second list the entries are kept that the first one does not have. -/
theorem distinct_append (xs ys : List α) :
    distinct (xs ++ ys) = distinct xs ++ (distinct ys).filter fun y => y ∉ xs := by
  induction xs with
  | nil => simp [distinct, distinct.go]
  | cons x rest ih =>
    rw [List.cons_append, distinct_cons, ih, distinct_cons, List.filter_append, List.filter_filter,
      List.cons_append]
    simp

/-- A list without repetitions stays as it is. -/
theorem distinct_of_nodup {xs : List α} (h : xs.Nodup) : distinct xs = xs := by
  induction xs with
  | nil => rfl
  | cons x rest ih =>
    obtain ⟨hx, hrest⟩ := List.nodup_cons.mp h
    rw [distinct_cons, ih hrest, List.filter_eq_self.mpr]
    intro y hy
    exact decide_eq_true fun heq => hx (heq ▸ hy)

theorem distinct_append_of_subset {xs ys : List α} (h : ys ⊆ xs) :
    distinct (xs ++ ys) = distinct xs := by
  rw [distinct_append, List.filter_eq_nil_iff.mpr, List.append_nil]
  intro y hy
  simpa using h (mem_distinct.mp hy)

theorem nodup_take_distinct (m : Nat) (xs : List α) : ((distinct xs).take m).Nodup :=
  (nodup_distinct xs).sublist (List.take_sublist _ _)

/-- The first entries of two lists are those of the second list behind the first entries of the
first list. -/
theorem take_distinct_take_append (m : Nat) (xs ys : List α) :
    (distinct ((distinct xs).take m ++ ys)).take m = (distinct (xs ++ ys)).take m := by
  rw [distinct_append, distinct_append xs, distinct_of_nodup (nodup_take_distinct m xs)]
  rcases Nat.le_total m (distinct xs).length with hlong | hshort
  · have hlen : ((distinct xs).take m).length = m := by rw [List.length_take, Nat.min_eq_left hlong]
    rw [List.take_append_of_le_length hlen.ge, List.take_append_of_le_length hlong, List.take_take,
      Nat.min_self]
  · rw [List.take_of_length_le hshort]
    simp only [mem_distinct]

/-- Of the first entries of a list at least as many are new as there is room for: those that are not
new are entries of the list in front. -/
theorem le_length_filter_take {m : Nat} {xs ys : List α} (h : m ≤ (distinct ys).length) :
    m - (distinct xs).length ≤ (((distinct ys).take m).filter fun y => y ∉ xs).length := by
  have hnodup : (((distinct ys).take m).filter fun y => y ∈ xs).Nodup :=
    (nodup_take_distinct m ys).filter _
  have hsubset : (((distinct ys).take m).filter fun y => y ∈ xs) ⊆ distinct xs := fun y hy =>
    mem_distinct.mpr (of_decide_eq_true (List.mem_filter.mp hy).2)
  have hknown := (List.subperm_of_subset hnodup hsubset).length_le
  have hsplit :=
    List.length_eq_length_filter_add (l := (distinct ys).take m) fun y => decide (y ∈ xs)
  rw [List.length_take, Nat.min_eq_left h] at hsplit
  simp only [decide_not]
  omega

/-- The first entries of two lists are those of the first entries of the second list behind the
first list. -/
theorem take_distinct_append_take (m : Nat) (xs ys : List α) :
    (distinct (xs ++ (distinct ys).take m)).take m = (distinct (xs ++ ys)).take m := by
  rw [distinct_append, distinct_append xs ys, distinct_of_nodup (nodup_take_distinct m ys),
    List.take_append, List.take_append]
  congr 1
  rcases Nat.le_total m (distinct ys).length with hlong | hshort
  · conv_rhs => rw [← List.take_append_drop m (distinct ys), List.filter_append]
    rw [List.take_append_of_le_length (le_length_filter_take hlong)]
  · rw [List.take_of_length_le hshort]

end Distinct

end Text

/-! ### Sets of symbols -/

namespace Symbol

instance : Std.Irrefl fun a b : Symbol => a < b := ⟨lt_irrefl⟩

instance : Std.Antisymm fun a b : Symbol => a < b :=
  ⟨fun a _ h h' => absurd (lt_trans h h') (lt_irrefl a)⟩

/-- A set is known by its members. -/
theorem setOf_congr {xs ys : List Symbol} (h : ∀ s, s ∈ xs ↔ s ∈ ys) : setOf xs = setOf ys :=
  (pairwise_setOf xs).eq_of_mem_iff (pairwise_setOf ys) fun s => by rw [mem_setOf, mem_setOf, h]

/-- Among symbols that can be put in order, some can be put in order too. -/
theorem comparable_setOf_of_subset {xs ys : List Symbol} (h : comparable (setOf ys) = true)
    (hsub : xs ⊆ ys) : comparable (setOf xs) = true := by
  have hset : setOf xs ⊆ setOf ys := fun s hs => mem_setOf.mpr (hsub (mem_setOf.mp hs))
  have hlen : (setOf xs).length ≤ (setOf ys).length :=
    (List.subperm_of_subset (pairwise_setOf xs).nodup hset).length_le
  simp only [comparable, Bool.or_eq_true, decide_eq_true_eq, List.all_eq_true] at h ⊢
  exact h.imp (Or.imp (Nat.le_trans hlen) fun h s hs => h s (hset hs)) fun h s hs => h s (hset hs)

end Symbol

namespace CharClass

variable {a b c : CharClass} {m : Nat}

/-! ### Unions of classes that can be united -/

theorem eq_of_parts (ht : a.triggers = b.triggers) (hs : a.characters = b.characters)
    (hc : a.checks = b.checks) : a = b := by
  cases a
  cases b
  simp only [mk.injEq]
  exact ⟨ht, hs, hc⟩

theorem checks_union (a b : CharClass) (m : Nat) :
    (a.union b m).checks = (Text.distinct (a.checks ++ b.checks)).take m := by
  simp [union, Text.takeSigned]

/-- Unions are associative, with the order of the checks. -/
theorem union_assoc (a b c : CharClass) (m : Nat) :
    (a.union b m).union c m = a.union (b.union c m) m := by
  have hset : ∀ xs ys zs : List Symbol, Symbol.setOf (Symbol.setOf (xs ++ ys) ++ zs) =
      Symbol.setOf (xs ++ Symbol.setOf (ys ++ zs)) := fun xs ys zs =>
    Symbol.setOf_congr fun s => by simp [or_assoc]
  refine eq_of_parts (hset _ _ _) (hset _ _ _) ?_
  rw [checks_union, checks_union, checks_union, checks_union, Text.take_distinct_take_append,
    Text.take_distinct_append_take, List.append_assoc]

/-- A class whose parts belong to a union already adds nothing to it. -/
theorem union_union_of_subset (ht : c.triggers ⊆ a.triggers ++ b.triggers)
    (hs : c.characters ⊆ a.characters ++ b.characters) (hc : c.checks ⊆ a.checks ++ b.checks) :
    (a.union b m).union c m = a.union b m := by
  have hset : ∀ {xs ys : List Symbol}, ys ⊆ xs → Symbol.setOf (Symbol.setOf xs ++ ys) =
      Symbol.setOf xs := fun {xs ys} hsub => Symbol.setOf_congr fun s => by
    rw [List.mem_append, Symbol.mem_setOf]
    exact or_iff_left_of_imp fun hs => hsub hs
  refine eq_of_parts (hset ht) (hset hs) ?_
  rw [checks_union, checks_union, Text.take_distinct_take_append, Text.distinct_append_of_subset hc]

/-- What is said of the members and the checks of a union. -/
structure IsUnion (m : Nat) (a b k : CharClass) : Prop where
  /-- The members are those of both classes. -/
  contains : ∀ s, k.contains s = (a.contains s || b.contains s)
  /-- The members are in strictly increasing order. -/
  ordered : k.characters.Pairwise (· < ·)
  /-- No check is repeated. -/
  nodup_checks : k.checks.Nodup
  /-- There are no more checks than may be kept. -/
  length_checks_le : k.checks.length ≤ m
  /-- The checks are members if those of both classes are. -/
  checks_subset : a.checks ⊆ a.characters → b.checks ⊆ b.characters → k.checks ⊆ k.characters

theorem isUnion_union (a b : CharClass) (m : Nat) : IsUnion m a b (a.union b m) where
  contains _ := contains_union
  ordered := pairwise_characters_union a b m
  nodup_checks := by
    rw [checks_union]
    exact Text.nodup_take_distinct _ _
  length_checks_le := by
    rw [checks_union]
    exact List.length_take_le _ _
  checks_subset ha hb s hs :=
    mem_characters_union.mpr ((mem_checks_union hs).imp (fun h => ha h) fun h => hb h)

/-! ### Classes that cannot be united -/

/-- Members that can be put in order among each other, and checks that can be kept in a set. -/
structure Compatible (characters checks : List Symbol) : Prop where
  /-- The members can be put in order. -/
  comparable : Symbol.comparable (Symbol.setOf characters) = true
  /-- The checks can be kept in a set. -/
  atomic : ∀ s ∈ checks, s.isAtom = true

theorem Compatible.of_subset {xs xs' cs cs' : List Symbol} (h : Compatible xs cs) (hs : xs' ⊆ xs)
    (hc : cs' ⊆ cs) : Compatible xs' cs' :=
  ⟨Symbol.comparable_setOf_of_subset h.comparable hs, fun s hs => h.atomic s (hc hs)⟩

theorem canUnite_iff : a.canUnite b = true ↔
    Compatible (a.characters ++ b.characters) (a.checks ++ b.checks) := by
  rw [canUnite, Bool.and_eq_true, List.all_eq_true]
  exact ⟨fun h => ⟨h.1, h.2⟩, fun h => ⟨h.comparable, h.atomic⟩⟩

theorem canUnite_comm (a b : CharClass) : a.canUnite b = b.canUnite a := by
  rw [Bool.eq_iff_iff, canUnite_iff, canUnite_iff]
  constructor <;> intro h <;> exact h.of_subset (by simp) (by simp)

/-- Three classes can be united one after another if they are compatible together. -/
theorem canUnite_union_iff : a.canUnite b = true ∧ (a.union b m).canUnite c = true ↔
    Compatible (a.characters ++ b.characters ++ c.characters)
      (a.checks ++ b.checks ++ c.checks) := by
  rw [canUnite_iff, canUnite_iff]
  constructor
  · rintro ⟨hab, h⟩
    refine ⟨Symbol.comparable_setOf_of_subset h.comparable fun s hs => ?_, fun s hs => ?_⟩
    · rwa [List.mem_append, mem_characters_union, ← List.mem_append, ← List.mem_append]
    · rcases List.mem_append.mp hs with hs | hs
      · exact hab.atomic s hs
      · exact h.atomic s (List.mem_append_right _ hs)
  · intro h
    refine ⟨h.of_subset (by simp) (by simp), h.of_subset (fun s hs => ?_) fun s hs => ?_⟩
    · rwa [List.mem_append, mem_characters_union, ← List.mem_append, ← List.mem_append] at hs
    · refine List.mem_append.mpr ((List.mem_append.mp hs).imp_left fun hs => ?_)
      exact List.mem_append.mpr (mem_checks_union hs)

/-- The grouping of three classes does not decide whether they can be united. -/
theorem canUnite_union_assoc : a.canUnite b = true ∧ (a.union b m).canUnite c = true ↔
    b.canUnite c = true ∧ a.canUnite (b.union c m) = true := by
  rw [canUnite_comm a (b.union c m), canUnite_union_iff, canUnite_union_iff]
  constructor <;> intro h <;> exact h.of_subset (by simp) (by simp)

/-! ### Unions as far as they are possible -/

theorem union?_bind (a b : CharClass) (m : Int)
    (f : CharClass → Except IncomparableMembers CharClass) :
    (a.union? b m >>= f) = if a.canUnite b = true then f (a.union b m) else .error {} := by
  unfold union?
  split <;> rfl

/-- Unions are associative, and so is their failing. -/
theorem union?_assoc (a b c : CharClass) (m : Nat) :
    (a.union? b m >>= fun k => k.union? c m) = b.union? c m >>= fun k => a.union? k m := by
  rw [union?_bind, union?_bind, union?, union?, ← ite_and, ← ite_and, union_assoc,
    if_congr canUnite_union_assoc rfl rfl]

/-- Uniting once more with a class whose parts belong to a union changes nothing. -/
theorem union?_of_subset (ht : c.triggers ⊆ a.triggers ++ b.triggers)
    (hs : c.characters ⊆ a.characters ++ b.characters) (hc : c.checks ⊆ a.checks ++ b.checks) :
    (a.union? b m >>= fun k => k.union? c m) = a.union? b m := by
  have hcompatible : a.canUnite b = true ∧ (a.union b m).canUnite c = true ↔
      a.canUnite b = true := by
    rw [canUnite_union_iff, canUnite_iff]
    exact ⟨fun h => h.of_subset (by simp) (by simp), fun h => h.of_subset
      (List.append_subset.mpr ⟨List.Subset.refl _, hs⟩)
      (List.append_subset.mpr ⟨List.Subset.refl _, hc⟩)⟩
  rw [union?_bind, union?, ← ite_and, union_union_of_subset ht hs hc,
    if_congr hcompatible rfl rfl, union?]

/-- Classes that are united two at a time. -/
inductive Grouping
  /-- A class by itself. -/
  | one (k : CharClass)
  /-- What two groups are united to is united. -/
  | both (left right : Grouping)

namespace Grouping

/-- The classes of a grouping, from left to right. -/
def classes : Grouping → List CharClass
  | .one k => [k]
  | .both g h => g.classes ++ h.classes

/-- The class that a grouping comes to, if all its unions are possible. -/
def unite (m : Int) : Grouping → Except IncomparableMembers CharClass
  | .one k => .ok k
  | .both g h => do (← g.unite m).union? (← h.unite m) m

end Grouping

/-- A class united with a union from the left is united with the classes one after another. -/
theorem foldlM_union? (a k : CharClass) (ks : List CharClass) (m : Nat) :
    (ks.foldlM (fun k l => k.union? l m) k >>= fun b => a.union? b m) =
      a.union? k m >>= fun b => ks.foldlM (fun k l => k.union? l m) b := by
  induction ks generalizing k with
  | nil => simp
  | cons l ks ih =>
    simp only [List.foldlM_cons, bind_assoc, ih]
    rw [← bind_assoc, ← union?_assoc, bind_assoc]

/-- A grouping comes to what uniting its classes one after another comes to. -/
theorem Grouping.unite_eq_foldlM (m : Nat) (g : Grouping) : ∃ k ks, g.classes = k :: ks ∧
    g.unite m = ks.foldlM (fun k l => k.union? l m) k := by
  induction g with
  | one k => exact ⟨k, [], rfl, rfl⟩
  | both g h ihg ihh =>
    obtain ⟨k, ks, hks, hg⟩ := ihg
    obtain ⟨l, ls, hls, hh⟩ := ihh
    refine ⟨k, ks ++ l :: ls, by rw [classes, hks, hls, List.cons_append], ?_⟩
    simp only [unite, hg, hh, foldlM_union?, List.foldlM_append, List.foldlM_cons]

/-- **Unions of classes.** Let a union keep at most `m` checks. Uniting three classes from the left
and from the right gives the same class, with its checks in the same order, or is not possible
either way; uniting once more with one of two classes gives their union again. A union has the
members of both classes in increasing order, and at most `m` checks without repetitions, which are
members if the checks of both classes are. Classes of characters can always be united. So whatever
the number of classes, what they come to does not depend on how the unions are grouped. -/
theorem laws_of_union (a b c : CharClass) (m : Nat) :
    ((a.union? b m >>= fun k => k.union? c m) = b.union? c m >>= fun k => a.union? k m) ∧
    (a.union? b m >>= fun k => k.union? a m) = a.union? b m ∧
    (a.union? b m >>= fun k => k.union? b m) = a.union? b m ∧
    (∀ k, a.union? b m = .ok k → IsUnion m a b k) ∧
    (a.OfCharacters → b.OfCharacters → ∃ k, a.union? b m = .ok k ∧ k.OfCharacters) ∧
    ∀ g h : Grouping, g.classes = h.classes → g.unite m = h.unite m := by
  refine ⟨union?_assoc a b c m, union?_of_subset (by simp) (by simp) (by simp),
    union?_of_subset (by simp) (by simp) (by simp), fun k hk => ?_,
    fun ha hb => ⟨_, ha.union?_eq_ok hb m, ha.union hb m⟩, fun g h hgh => ?_⟩
  · unfold union? at hk
    split at hk <;> cases hk
    exact isUnion_union a b m
  · obtain ⟨k, ks, hks, hg⟩ := g.unite_eq_foldlM m
    obtain ⟨l, ls, hls, hh⟩ := h.unite_eq_foldlM m
    obtain ⟨rfl, rfl⟩ := List.cons.inj (hks.symm.trans (hgh.trans hls))
    exact hg.trans hh.symm

/-- Three checks are kept of five letters. The union of the last two classes leaves out the check
`e`, for which there would not have been room in the end. -/
theorem laws_of_union_letters :
    let a := ofChars ['a', 'b']
    let b := ofChars ['b', 'c']
    let c := ofChars ['c', 'd', 'e']
    (b.union? c 3).map checks = .ok (['b', 'c', 'd'].map Symbol.ofChar) ∧
      ((a.union? b 3 >>= fun k => k.union? c 3).map checks =
        .ok (['a', 'b', 'c'].map Symbol.ofChar)) ∧
      (b.union? c 3 >>= fun k => a.union? k 3).map checks =
        .ok (['a', 'b', 'c'].map Symbol.ofChar) := by
  intro a b c
  have hleft : (a.union? b 3 >>= fun k => k.union? c 3).map checks =
      .ok (['a', 'b', 'c'].map Symbol.ofChar) := by rfl
  refine ⟨by rfl, hleft, ?_⟩
  have hassoc := (laws_of_union a b c 3).1
  exact (congrArg (Except.map checks) hassoc).symm.trans hleft

end CharClass

end GrammarInference
