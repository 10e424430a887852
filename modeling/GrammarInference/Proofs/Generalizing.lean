import GrammarInference.Learn.Generalize
import GrammarInference.Proofs.MergeShape
import Mathlib.Data.List.Forall2

/-!
# The classes of generalized characters

Generalizing a character gives a class of characters that the character belongs to, whatever the
oracle replies: a class that is used again is one of those in memory, whose triggers are members,
and a new class has as its members the character itself and characters that were tried. The rules in
memory stay, and its classes stay classes of characters. A call that fails leaves the memory as it
is (`Learner.readsToFailure_generalize`): a class is remembered in the last step.
-/

namespace GrammarInference

/-- All classes in memory are classes of characters. -/
def Memory.HasRegularClasses (m : Memory) : Prop := ∀ k ∈ m.classes, k.Regular

namespace CharClass

/-- The members of the predefined classes are characters. -/
theorem allChars_of_mem_predefined {k : CharClass} (h : k ∈ predefined) :
    Symbol.AllChars k.characters := by
  have range : ∀ first last checks, Symbol.AllChars (ofRange first last checks).characters := by
    intro first last checks s hs
    obtain ⟨n, _, rfl⟩ := List.mem_map.mp (Symbol.mem_setOf.mp hs)
    exact ⟨_, rfl⟩
  simp only [predefined, List.mem_cons, List.not_mem_nil, or_false] at h
  rcases h with rfl | rfl | rfl | rfl
  · exact range _ _ _
  · exact range _ _ _
  · exact range _ _ _
  · intro s hs
    have hs := Symbol.mem_setOf.mp hs
    simp only [List.mem_cons, List.not_mem_nil, or_false] at hs
    rcases hs with rfl | rfl
    · exact ⟨_, rfl⟩
    · exact ⟨_, rfl⟩

end CharClass

/-- Checks are picked among the members, if the observed symbol is one. -/
theorem Checks.pick_subset {α : Type} [DecidableEq α] {members : List α} {observed : α}
    (h : observed ∈ members) (count : Nat) : pick members observed count ⊆ members := by
  unfold pick
  split
  · exact List.Subset.refl _
  · intro x hx
    have hx := Text.mem_distinct.mp hx
    have hpicked : ∀ {x}, x ∈ (spacedPositions members.length count).filterMap
        (fun i => members[i]?) → x ∈ members := by
      intro x hx
      obtain ⟨i, _, hi⟩ := List.mem_filterMap.mp hx
      exact List.mem_of_getElem? hi
    split at hx
    · exact hpicked hx
    · rcases List.mem_or_eq_of_mem_set hx with hx | rfl
      · exact hpicked hx
      · exact h

namespace Learner

variable {R : Replies} {m m' : Memory} {limits : Limits} {c : Context}

/-! ### What stays in memory -/

theorem reads_acceptsAll (ts : List Text) : (acceptsAll ts).Reads := by
  induction ts with
  | nil => exact reads_pure _
  | cons t rest ih => exact (reads_accepts t).bind fun _ => ih.ite (reads_pure _)

theorem reads_firstConfirmed (ks : List CharClass) : (firstConfirmed c ks).Reads := by
  induction ks with
  | nil => exact reads_pure _
  | cons k rest ih => exact (reads_acceptsAll _).bind fun _ => (reads_pure _).ite ih

theorem reads_scan (candidates known : List Symbol) : (scan c candidates known).Reads :=
  (reads_acceptsEach _).bind fun _ => reads_pure _

theorem reads_scanPredefined (observed : Symbol) (ks : List CharClass) (known : List Symbol) :
    (scanPredefined c observed ks known).Reads := by
  induction ks generalizing known with
  | nil => exact reads_pure _
  | cons k rest ih =>
    refine Reads.ite ((reads_acceptsAll _).bind fun _ => Reads.ite ?_ (ih known)) (ih known)
    exact (reads_scan _ _).bind fun found => ih found

theorem reads_scanAlphabet (known : List Symbol) : (scanAlphabet limits c known).Reads :=
  (reads_scan _ _).ite (reads_pure _)

/-- A class that is to be remembered is remembered in the end, after all that can fail. -/
theorem readsToFailure_newClass (observed : Text) (known : List Symbol) :
    (newClass limits observed known).ReadsToFailure := by
  have hlast : ∀ k : CharClass, (learnClass k >>= fun _ => pure k).ReadsToFailure := by
    intro k R m m' e h
    cases Query.reaches_done.mp h
  unfold newClass
  dsimp only
  split
  · exact .bind (reads_shownClass _) fun _ => .bind (reads_note _) fun _ => hlast _
  · exact hlast _

/-- A call that fails learns nothing. -/
theorem readsToFailure_generalize (observed : Text) :
    (generalize limits c observed).ReadsToFailure := by
  refine .bind reads_classes fun ks => .bind (reads_firstConfirmed _) fun first => ?_
  cases first with
  | some k =>
    exact .bind (reads_shownClass k) fun _ => .bind (reads_note _) fun _ _ _ _ _ h => reads_pure k h
  | none =>
    refine .bind (reads_scanPredefined _ _ _) fun known => .bind (reads_scanAlphabet known) ?_
    exact fun found => readsToFailure_newClass observed found

/-! ### Classes of characters -/

theorem of_returns_firstConfirmed {ks : List CharClass} {res : Option CharClass}
    (h : (firstConfirmed c ks).Returns R m res m') :
    m' = m ∧ ∀ k, res = some k → k ∈ ks := by
  induction ks with
  | nil =>
    exact of_returns_none h
  | cons k rest ih =>
    simp only [firstConfirmed, returns_bind] at h
    obtain ⟨ok, _, hok, h⟩ := h
    obtain rfl := reads_acceptsAll _ hok
    split at h
    · exact of_returns_some (.head _) h
    · obtain ⟨rfl, hfound⟩ := ih h
      exact ⟨rfl, fun k' hk' => .tail _ (hfound k' hk')⟩

/-- Scanning keeps what is known and adds candidates only. -/
theorem of_returns_scan {candidates known found : List Symbol}
    (h : (scan c candidates known).Returns R m found m') :
    m' = m ∧ known ⊆ found ∧ found ⊆ known ++ candidates := by
  simp only [scan, returns_bind, returns_acceptsEach, returns_pure] at h
  obtain ⟨answers, _, ⟨_, rfl⟩, rfl, rfl⟩ := h
  refine ⟨rfl, List.subset_append_left _ _, fun s hs => ?_⟩
  rcases List.mem_append.mp hs with hs | hs
  · exact List.mem_append_left _ hs
  · obtain ⟨⟨s', ok⟩, hmem, hs⟩ := List.mem_filterMap.mp hs
    have hs' := List.mem_of_mem_filter (List.of_mem_zip hmem).1
    dsimp only at hs
    split at hs
    · cases hs
      exact List.mem_append_right _ hs'
    · cases hs

theorem of_returns_scan_chars {candidates known found : List Symbol}
    (h : (scan c candidates known).Returns R m found m') (hc : Symbol.AllChars candidates)
    (hk : Symbol.AllChars known) : m' = m ∧ known ⊆ found ∧ Symbol.AllChars found := by
  obtain ⟨rfl, hsub, hfound⟩ := of_returns_scan h
  refine ⟨rfl, hsub, fun s hs => ?_⟩
  rcases List.mem_append.mp (hfound hs) with hs | hs
  · exact hk s hs
  · exact hc s hs

theorem of_returns_scanPredefined {observed : Symbol} {ks : List CharClass}
    {known found : List Symbol}
    (h : (scanPredefined c observed ks known).Returns R m found m')
    (hks : ∀ k ∈ ks, Symbol.AllChars k.characters) (hk : Symbol.AllChars known) :
    m' = m ∧ known ⊆ found ∧ Symbol.AllChars found := by
  induction ks generalizing known with
  | nil =>
    obtain ⟨rfl, rfl⟩ := returns_pure.mp h
    exact ⟨rfl, List.Subset.refl _, hk⟩
  | cons k rest ih =>
    obtain ⟨hkc, hrest⟩ := List.forall_mem_cons.mp hks
    simp only [scanPredefined] at h
    split at h
    · simp only [returns_bind] at h
      obtain ⟨ok, _, hok, h⟩ := h
      obtain rfl := reads_acceptsAll _ hok
      split at h
      · simp only [returns_bind] at h
        obtain ⟨more, _, hmore, h⟩ := h
        obtain ⟨rfl, hsub, hmore⟩ := of_returns_scan_chars hmore hkc hk
        obtain ⟨rfl, hsub', hfound⟩ := ih h hrest hmore
        exact ⟨rfl, List.Subset.trans hsub hsub', hfound⟩
      · exact ih h hrest hk
    · exact ih h hrest hk

theorem of_returns_scanAlphabet {known found : List Symbol}
    (h : (scanAlphabet limits c known).Returns R m found m') (hk : Symbol.AllChars known) :
    m' = m ∧ known ⊆ found ∧ Symbol.AllChars found := by
  unfold scanAlphabet at h
  split at h
  · refine of_returns_scan_chars h (fun s hs => ?_) hk
    obtain ⟨x, _, rfl⟩ := List.mem_map.mp hs
    exact ⟨x, rfl⟩
  · obtain ⟨rfl, rfl⟩ := returns_pure.mp h
    exact ⟨rfl, List.Subset.refl _, hk⟩

/-- A new class has the given characters as members. -/
theorem regular_ofSymbols {known : List Symbol} {observed : Symbol}
    (hk : Symbol.AllChars known) (ho : observed ∈ known) (count : Nat) :
    (CharClass.ofSymbols (Symbol.setOf known)
      (some (Checks.pick (Symbol.setOf known) observed count)) none).Regular where
  single s hs := hk s (Symbol.mem_setOf.mp (Symbol.mem_setOf.mp hs))
  ordered := Symbol.pairwise_setOf _
  triggered := rfl
  checked _ hs :=
    Symbol.mem_setOf.mpr (Checks.pick_subset (Symbol.mem_setOf.mpr ho) count hs)

theorem of_returns_learnClass {k : CharClass} {u : Unit} (hm : m.HasRegularClasses)
    (hk : k.Regular) (h : (learnClass k).Returns R m u m') :
    m'.rules = m.rules ∧ m'.HasRegularClasses := by
  obtain rfl := returns_learnClass.mp h
  split
  · exact ⟨rfl, hm⟩
  · refine ⟨rfl, fun k' hk' => ?_⟩
    rcases List.mem_append.mp hk' with hk' | hk'
    · exact hm k' hk'
    · rw [List.mem_singleton.mp hk']
      exact hk

theorem of_returns_newClass {x : Char} {known : List Symbol} {k : CharClass}
    (hm : m.HasRegularClasses) (hk : Symbol.AllChars known) (hx : Symbol.ofChar x ∈ known)
    (h : (newClass limits [x] known).Returns R m k m') :
    m'.rules = m.rules ∧ m'.HasRegularClasses ∧ k.Regular ∧ Symbol.ofChar x ∈ k.characters := by
  have hregular := regular_ofSymbols hk hx limits.maxChecks
  have hmem : Symbol.ofChar x ∈ (CharClass.ofSymbols (Symbol.setOf known)
      (some (Checks.pick (Symbol.setOf known) (Symbol.ofChar x) limits.maxChecks))
      none).characters := Symbol.mem_setOf.mpr (Symbol.mem_setOf.mpr hx)
  unfold newClass at h
  dsimp only at h
  split at h
  · simp only [returns_bind, returns_note, returns_shownClass, returns_pure] at h
    obtain ⟨_, _, ⟨_, rfl⟩, _, _, rfl, _, _, hlearn, rfl, rfl⟩ := h
    obtain ⟨hr, hc⟩ := of_returns_learnClass hm hregular hlearn
    exact ⟨hr, hc, hregular, hmem⟩
  · simp only [returns_bind, returns_pure] at h
    obtain ⟨_, _, hlearn, rfl, rfl⟩ := h
    obtain ⟨hr, hc⟩ := of_returns_learnClass hm hregular hlearn
    exact ⟨hr, hc, hregular, hmem⟩

/-- **Generalizing.** The class of a character is a class of characters that it belongs to. -/
theorem of_returns_generalize {x : Char} {k : CharClass} (hm : m.HasRegularClasses)
    (h : (generalize limits c [x]).Returns R m k m') :
    m'.rules = m.rules ∧ m'.HasRegularClasses ∧ k.Regular ∧ Symbol.ofChar x ∈ k.characters := by
  simp only [generalize, returns_bind, returns_classes] at h
  obtain ⟨_, _, ⟨rfl, rfl⟩, first, _, hfirst, h⟩ := h
  obtain ⟨rfl, hfirst⟩ := of_returns_firstConfirmed hfirst
  cases first with
  | some found =>
    simp only [returns_bind, returns_note, returns_shownClass, returns_pure] at h
    obtain ⟨_, _, ⟨_, rfl⟩, _, _, rfl, rfl, rfl⟩ := h
    have hmem := hfirst k rfl
    rw [List.mem_reverse, List.mem_filter] at hmem
    have hk := hm k hmem.1
    exact ⟨rfl, hm, hk, hk.triggered ▸ of_decide_eq_true hmem.2⟩
  | none =>
    simp only [returns_bind] at h
    obtain ⟨known, _, hknown, found, _, hfound, h⟩ := h
    have hx : Symbol.AllChars [Symbol.ofChar x] := fun s hs => ⟨x, List.mem_singleton.mp hs⟩
    obtain ⟨rfl, hsub, hall⟩ := of_returns_scanPredefined hknown
      (fun k hk => CharClass.allChars_of_mem_predefined hk) hx
    obtain ⟨rfl, hsub', hall'⟩ := of_returns_scanAlphabet hfound hall
    exact of_returns_newClass hm hall' (hsub' (hsub (List.mem_singleton_self _))) h

/-- The classes of the characters of a text are classes that the characters belong to. -/
theorem of_returns_generalizeFrom {done rest : Text} {ks : List CharClass}
    (hm : m.HasRegularClasses) (h : (generalizeFrom limits done rest).Returns R m ks m') :
    m'.rules = m.rules ∧ m'.HasRegularClasses ∧
      List.Forall₂ (fun x k => k.Regular ∧ Symbol.ofChar x ∈ k.characters) rest ks := by
  induction rest generalizing done ks m with
  | nil =>
    obtain ⟨rfl, rfl⟩ := returns_pure.mp h
    exact ⟨rfl, hm, .nil⟩
  | cons x rest ih =>
    simp only [generalizeFrom, returns_bind, returns_pure] at h
    obtain ⟨k, m₁, hk, ks, _, hks, rfl, rfl⟩ := h
    obtain ⟨hr₁, hm₁, hk⟩ := of_returns_generalize hm hk
    obtain ⟨hr₂, hm₂, hks⟩ := ih hm₁ hks
    exact ⟨hr₂.trans hr₁, hm₂, .cons hk hks⟩

end Learner

end GrammarInference
