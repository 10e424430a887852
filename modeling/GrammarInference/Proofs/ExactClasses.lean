import GrammarInference.Proofs.Endings
import GrammarInference.Proofs.Refusals

/-!
# Which characters a class has

Generalizing a character between two texts takes the latest class in memory that was learned for
this character and is confirmed between the texts, all its checks being accepted there. If there is
none, it makes a new class from the character itself and the symbols that a search finds.

The search is described for arbitrary replies that say of a text whether it is accepted. What is
found is known before or is a candidate that is said to be accepted, and every other candidate is
said to be rejected (`Found`); a class that is passed over has a check that is said to be rejected.
A rejection may be one by the budget, so that only the first half is a fact about the oracle.
Without a budget both are, and the class is known exactly (`Session.exact_of_generalize`).
-/

namespace GrammarInference

/-! ### Predefined classes and alphabets -/

/-- A character has the number that it is made from, or zero if there is no such character. -/
private theorem toNat_ofNat_le (n : Nat) : (Char.ofNat n).toNat ≤ n := by
  unfold Char.ofNat
  by_cases h : n.isValidChar
  · rw [dif_pos h]
    exact Nat.le_refl n
  · rw [dif_neg h]
    exact Nat.zero_le n

theorem Alphabet.mem_characters {a : Alphabet} {x : Char} :
    x ∈ a.characters ↔ x.toNat < a.size := by
  rw [characters, List.mem_map]
  constructor
  · rintro ⟨n, hn, rfl⟩
    exact Nat.lt_of_le_of_lt (toNat_ofNat_le n) (List.mem_range.mp hn)
  · exact fun h => ⟨x.toNat, List.mem_range.mpr h, Char.ofNat_toNat x⟩

namespace CharClass

variable {k : CharClass}

theorem triggers_of_mem_predefined (h : k ∈ predefined) : k.triggers = k.characters := by
  simp only [predefined, List.mem_cons, List.not_mem_nil, or_false] at h
  rcases h with rfl | rfl | rfl | rfl <;> rfl

theorem toNat_le_of_mem_ofRange {first last y : Char} {checks : List Char}
    (h : Symbol.ofChar y ∈ (ofRange first last checks).characters) : y.toNat ≤ last.toNat := by
  obtain ⟨n, hn, heq⟩ := List.mem_map.mp (Symbol.mem_setOf.mp h)
  obtain rfl := Symbol.ofChar_injective heq
  have hn := List.mem_range'_1.mp hn
  have hle := toNat_ofNat_le n
  omega

/-- The members of the predefined classes belong to every alphabet. -/
theorem mem_alphabet_of_mem_predefined (h : k ∈ predefined) {y : Char}
    (hy : Symbol.ofChar y ∈ k.characters) (a : Alphabet) : y ∈ a.characters := by
  have hsize : 128 ≤ a.size := by cases a <;> decide
  refine Alphabet.mem_characters.mpr (Nat.lt_of_lt_of_le ?_ hsize)
  have range : ∀ {first last checks}, last.toNat < 128 →
      Symbol.ofChar y ∈ (ofRange first last checks).characters → y.toNat < 128 :=
    fun hlast hy => Nat.lt_of_le_of_lt (toNat_le_of_mem_ofRange hy) hlast
  simp only [predefined, List.mem_cons, List.not_mem_nil, or_false] at h
  rcases h with rfl | rfl | rfl | rfl
  · exact range (by decide) hy
  · exact range (by decide) hy
  · exact range (by decide) hy
  · have hy := Symbol.mem_setOf.mp hy
    simp only [List.mem_cons, List.not_mem_nil, or_false] at hy
    rcases hy with hy | hy <;> (rw [Symbol.ofChar_injective hy]; decide)

end CharClass

/-! ### The search -/

section Search

variable {P : Text → Bool → Prop} {limits : Limits} {c : Context} {m m' : Memory}

/-- All checks of a class are accepted. -/
def CharClass.Confirmed (P : Text → Bool → Prop) (c : Context) (k : CharClass) : Prop :=
  ∀ s ∈ k.checks, P (c.fill s.toText) true

/-- A check of a class is rejected. -/
def CharClass.Refuted (P : Text → Bool → Prop) (c : Context) (k : CharClass) : Prop :=
  ∃ s ∈ k.checks, P (c.fill s.toText) false

/-- What a search has found: the symbols known before and some of those that may be candidates, all
of them accepted; those that must be candidates are found or rejected. -/
structure Found (P : Text → Bool → Prop) (c : Context) (known : List Symbol)
    (may must : Symbol → Prop) (found : List Symbol) : Prop where
  /-- What is known is kept. -/
  kept : known ⊆ found
  /-- What is added is an accepted candidate. -/
  sound : ∀ s ∈ found, s ∈ known ∨ may s ∧ P (c.fill s.toText) true
  /-- What is left out is rejected. -/
  complete : ∀ s, must s → s ∈ found ∨ P (c.fill s.toText) false

/-- Where no text is both accepted and rejected, a class is not both confirmed and refuted. -/
theorem CharClass.Confirmed.not_refuted (hP : ∀ t, P t true → ¬ P t false) {k : CharClass}
    (h : k.Confirmed P c) : ¬ k.Refuted P c :=
  fun ⟨s, hs, hrejected⟩ => hP _ (h s hs) hrejected

namespace Found

variable {known mid found : List Symbol} {may may' must must' : Symbol → Prop}

/-- A search without candidates finds nothing. -/
theorem none : Found P c known (fun _ => False) (fun _ => False) known :=
  ⟨List.Subset.refl _, fun _ hs => .inl hs, fun _ hs => hs.elim⟩

/-- Two searches one after the other. -/
theorem trans (h : Found P c known may must mid) (h' : Found P c mid may' must' found) :
    Found P c known (fun s => may s ∨ may' s) (fun s => must s ∨ must' s) found where
  kept := List.Subset.trans h.kept h'.kept
  sound s hs := by
    rcases h'.sound s hs with hs | ⟨hmay, hacc⟩
    · exact (h.sound s hs).imp_right (.imp_left .inl)
    · exact .inr ⟨.inr hmay, hacc⟩
  complete s hs := by
    rcases hs with hs | hs
    · exact (h.complete s hs).imp_left fun hmem => h'.kept hmem
    · exact h'.complete s hs

/-- There may be more candidates, and there must be fewer. -/
theorem mono (h : Found P c known may must found) (hmay : ∀ s, may s → may' s)
    (hmust : ∀ s, must' s → must s) : Found P c known may' must' found :=
  ⟨h.kept, fun s hs => (h.sound s hs).imp_right (.imp_left (hmay s)),
    fun s hs => h.complete s (hmust s hs)⟩

/-- Where no text is both accepted and rejected, it is known what has been found. -/
theorem mem_iff (h : Found P c known may must found) (hP : ∀ t, P t true → ¬ P t false)
    (hmust : ∀ s, may s → must s) {s : Symbol} :
    s ∈ found ↔ s ∈ known ∨ may s ∧ P (c.fill s.toText) true := by
  refine ⟨h.sound s, ?_⟩
  rintro (hs | ⟨hmay, hacc⟩)
  · exact h.kept hs
  · exact (h.complete s (hmust s hmay)).resolve_right (hP _ hacc)

end Found

namespace Learner

/-- Asking about several texts one by one stops at a rejected one. -/
theorem acceptsAll_saying {ts : List Text} {b : Bool}
    (h : (acceptsAll ts).Returns (.saying P) m b m') :
    (b = true → ∀ t ∈ ts, P t true) ∧ (b = false → ∃ t ∈ ts, P t false) := by
  induction ts with
  | nil =>
    obtain ⟨rfl, -⟩ := returns_pure.mp h
    exact ⟨fun _ => List.forall_mem_nil _, fun hb => (by cases hb)⟩
  | cons t rest ih =>
    simp only [acceptsAll, returns_bind, returns_accepts] at h
    obtain ⟨first, _, ⟨hfirst, rfl⟩, h⟩ := h
    have hfirst : P t first := hfirst first rfl
    split at h
    · next htrue =>
      rw [htrue] at hfirst
      obtain ⟨hall, hsome⟩ := ih h
      refine ⟨fun hb => List.forall_mem_cons.mpr ⟨hfirst, hall hb⟩, fun hb => ?_⟩
      obtain ⟨u, hu, hrejected⟩ := hsome hb
      exact ⟨u, .tail _ hu, hrejected⟩
    · next hfalse =>
      rw [Bool.eq_false_iff.mpr hfalse] at hfirst
      obtain ⟨rfl, -⟩ := returns_pure.mp h
      exact ⟨fun hb => (by cases hb), fun _ => ⟨t, .head _, hfirst⟩⟩

/-- The checks of a class are asked about one by one. -/
theorem confirms_saying {k : CharClass} {b : Bool}
    (h : (acceptsAll (substitutes c k.checks)).Returns (.saying P) m b m') :
    (b = true → k.Confirmed P c) ∧ (b = false → k.Refuted P c) := by
  obtain ⟨hall, hsome⟩ := acceptsAll_saying h
  refine ⟨fun hb s hs => hall hb _ (List.mem_map_of_mem hs), fun hb => ?_⟩
  obtain ⟨t, ht, hrejected⟩ := hsome hb
  obtain ⟨s, hs, rfl⟩ := List.mem_map.mp ht
  exact ⟨s, hs, hrejected⟩

/-- The first class that is confirmed comes after classes that are refuted; without one, all are. -/
theorem firstConfirmed_saying {ks : List CharClass} {res : Option CharClass}
    (h : (firstConfirmed c ks).Returns (.saying P) m res m') :
    (res = none ∧ ∀ j ∈ ks, j.Refuted P c) ∨
      ∃ before k after, res = some k ∧ ks = before ++ k :: after ∧ k.Confirmed P c ∧
        ∀ j ∈ before, j.Refuted P c := by
  induction ks with
  | nil =>
    obtain ⟨rfl, -⟩ := returns_pure.mp h
    exact .inl ⟨rfl, List.forall_mem_nil _⟩
  | cons k rest ih =>
    simp only [firstConfirmed, returns_bind] at h
    obtain ⟨ok, _, hok, h⟩ := h
    obtain rfl := reads_acceptsAll _ hok
    obtain ⟨hconfirmed, hrefuted⟩ := confirms_saying hok
    split at h
    · next htrue =>
      obtain ⟨rfl, -⟩ := returns_pure.mp h
      exact .inr ⟨[], k, rest, rfl, rfl, hconfirmed htrue, List.forall_mem_nil _⟩
    · next hfalse =>
      have hk := hrefuted (Bool.eq_false_iff.mpr hfalse)
      rcases ih h with ⟨rfl, hrest⟩ | ⟨before, k', after, rfl, rfl, hk', hbefore⟩
      · exact .inl ⟨rfl, List.forall_mem_cons.mpr ⟨hk, hrest⟩⟩
      · exact .inr ⟨k :: before, k', after, rfl, rfl, hk', List.forall_mem_cons.mpr ⟨hk, hbefore⟩⟩

/-- Scanning adds the candidates that are accepted. -/
theorem scan_saying {candidates known found : List Symbol}
    (h : (scan c candidates known).Returns (.saying P) m found m') :
    Found P c known (· ∈ candidates) (· ∈ candidates) found := by
  simp only [scan, returns_bind, returns_acceptsEach, returns_pure] at h
  obtain ⟨answers, _, ⟨hanswers, -⟩, rfl, -⟩ := h
  have hanswers : List.Forall₂ P (substitutes c (candidates.filter fun s => s ∉ known)) answers :=
    hanswers answers rfl
  obtain ⟨hlen, hzip⟩ := List.forall₂_iff_zip.mp (List.forall₂_map_left_iff.mp hanswers)
  refine ⟨List.subset_append_left _ _, fun s hs => ?_, fun s hs => ?_⟩
  · rcases List.mem_append.mp hs with hs | hs
    · exact .inl hs
    · obtain ⟨⟨s', ok⟩, hmem, hs⟩ := List.mem_filterMap.mp hs
      -- A symbol that was found stands next to the answer for its text.
      have hsaid := hzip hmem
      have hcandidate := List.mem_of_mem_filter (List.of_mem_zip hmem).1
      cases ok with
      | true =>
        obtain rfl := Option.some.inj hs
        exact .inr ⟨hcandidate, hsaid⟩
      | false => cases hs
  · by_cases hknown : s ∈ known
    · exact .inl (List.mem_append_left _ hknown)
    · have hfresh : s ∈ candidates.filter fun s => s ∉ known :=
        List.mem_filter.mpr ⟨hs, decide_eq_true hknown⟩
      -- Every symbol that was not known has been asked about.
      obtain ⟨ok, hmem⟩ := Session.exists_of_answered
        (List.forall₂_iff_zip.mpr ⟨hlen, fun hmem => hmem⟩) hfresh
      cases ok with
      | true =>
        exact .inl (List.mem_append_right _ (List.mem_filterMap.mpr ⟨(s, true), hmem, rfl⟩))
      | false => exact .inr (hzip hmem)

/-- Of the predefined classes of a symbol, those that are confirmed are scanned. -/
theorem scanPredefined_saying {observed : Symbol} {ks : List CharClass} {known found : List Symbol}
    (h : (scanPredefined c observed ks known).Returns (.saying P) m found m') :
    Found P c known
      (fun s => ∃ p ∈ ks, observed ∈ p.triggers ∧ p.Confirmed P c ∧ s ∈ p.characters)
      (fun s => ∃ p ∈ ks, observed ∈ p.triggers ∧ ¬ p.Refuted P c ∧ s ∈ p.characters) found := by
  induction ks generalizing known m with
  | nil =>
    obtain ⟨rfl, -⟩ := returns_pure.mp h
    exact Found.none.mono (fun _ hs => hs.elim) (by simp)
  | cons k rest ih =>
    have later : ∀ {A : CharClass → Prop} (s : Symbol),
        (∃ p ∈ rest, observed ∈ p.triggers ∧ A p ∧ s ∈ p.characters) →
          ∃ p ∈ k :: rest, observed ∈ p.triggers ∧ A p ∧ s ∈ p.characters :=
      fun s ⟨p, hp, hs⟩ => ⟨p, .tail _ hp, hs⟩
    simp only [scanPredefined] at h
    split at h
    · next htrigger =>
      simp only [returns_bind] at h
      obtain ⟨ok, _, hok, h⟩ := h
      obtain ⟨hconfirmed, hrefuted⟩ := confirms_saying hok
      split at h
      · next htrue =>
        simp only [returns_bind] at h
        obtain ⟨mid, _, hmid, h⟩ := h
        -- The class is confirmed: its members are scanned, and then those of the later classes.
        refine ((scan_saying hmid).trans (ih h)).mono (fun s hs => ?_) fun s hs => ?_
        · rcases hs with hs | hs
          · exact ⟨k, .head _, htrigger, hconfirmed htrue, hs⟩
          · exact later s hs
        · obtain ⟨p, hp, hs⟩ := hs
          rcases List.mem_cons.mp hp with rfl | hp
          · exact .inl hs.2.2
          · exact .inr ⟨p, hp, hs⟩
      · next hfalse =>
        -- The class is refuted, so that it adds nothing to what has to be found.
        have hk := hrefuted (Bool.eq_false_iff.mpr hfalse)
        refine (ih h).mono later fun s hs => ?_
        obtain ⟨p, hp, hs⟩ := hs
        rcases List.mem_cons.mp hp with rfl | hp
        · exact absurd hk hs.2.1
        · exact ⟨p, hp, hs⟩
    · next htrigger =>
      refine (ih h).mono later fun s hs => ?_
      obtain ⟨p, hp, hs⟩ := hs
      rcases List.mem_cons.mp hp with rfl | hp
      · exact absurd hs.1 htrigger
      · exact ⟨p, hp, hs⟩

theorem scanAlphabet_saying {known found : List Symbol}
    (h : (scanAlphabet limits c known).Returns (.saying P) m found m') :
    Found P c known
      (fun s => limits.exhaustiveCharacters = true ∧
        s ∈ limits.alphabet.characters.map Symbol.ofChar)
      (fun s => limits.exhaustiveCharacters = true ∧
        s ∈ limits.alphabet.characters.map Symbol.ofChar) found := by
  unfold scanAlphabet at h
  split at h
  · next hexhaustive =>
    exact (scan_saying h).mono (fun s hs => ⟨hexhaustive, hs⟩) fun s hs => hs.2
  · next hexhaustive =>
    obtain ⟨rfl, -⟩ := returns_pure.mp h
    exact Found.none.mono (fun s hs => hs.elim) fun s hs => hexhaustive hs.1

/-- A new class has the known symbols as members, and it is remembered as the latest one, unless
there is one like it already. -/
theorem members_of_returns_newClass {R : Replies} {observed : Text} {known : List Symbol}
    {k : CharClass} (h : (newClass limits observed known).Returns R m k m') :
    (∀ s, s ∈ k.characters ↔ s ∈ known) ∧
      m' = if k ∈ m.classes then m else { m with classes := m.classes ++ [k] } := by
  have hmembers : ∀ s, s ∈ (CharClass.ofSymbols (Symbol.setOf known)
      (some (Checks.pick (Symbol.setOf known) (Symbol.text observed) limits.maxChecks))
      none).characters ↔ s ∈ known :=
    fun s => Symbol.mem_setOf.trans Symbol.mem_setOf
  unfold newClass at h
  dsimp only at h
  split at h
  · simp only [returns_bind, returns_note, returns_shownClass, returns_pure,
      returns_learnClass] at h
    obtain ⟨_, _, ⟨_, rfl⟩, _, _, rfl, _, _, rfl, rfl, rfl⟩ := h
    exact ⟨hmembers, rfl⟩
  · simp only [returns_bind, returns_pure, returns_learnClass] at h
    obtain ⟨_, _, rfl, rfl, rfl⟩ := h
    exact ⟨hmembers, rfl⟩

/-- What generalizing a symbol between two texts leads to. -/
inductive Generalized (P : Text → Bool → Prop) (limits : Limits) (c : Context) (observed : Symbol)
    (m : Memory) (k : CharClass) : Memory → Prop
  /-- The latest class of the symbol that is not refuted is used again. -/
  | reused {older newer : List CharClass} (split : m.classes = older ++ k :: newer)
    (trigger : observed ∈ k.triggers) (confirmed : k.Confirmed P c)
    (passed : ∀ n ∈ newer, observed ∈ n.triggers → n.Refuted P c) :
    Generalized P limits c observed m k m
  /-- All classes of the symbol are refuted, and there is a new one. -/
  | made {found : List Symbol} (passed : ∀ n ∈ m.classes, observed ∈ n.triggers → n.Refuted P c)
    (search : Found P c [observed]
      (fun s => (∃ p ∈ CharClass.predefined, observed ∈ p.triggers ∧ p.Confirmed P c ∧
          s ∈ p.characters) ∨
        limits.exhaustiveCharacters = true ∧ s ∈ limits.alphabet.characters.map Symbol.ofChar)
      (fun s => (∃ p ∈ CharClass.predefined, observed ∈ p.triggers ∧ ¬ p.Refuted P c ∧
          s ∈ p.characters) ∨
        limits.exhaustiveCharacters = true ∧ s ∈ limits.alphabet.characters.map Symbol.ofChar)
      found)
    (members : ∀ s, s ∈ k.characters ↔ s ∈ found) :
    Generalized P limits c observed m k
      (if k ∈ m.classes then m else { m with classes := m.classes ++ [k] })

/-- The last entries of a list that meet a condition. -/
private theorem exists_split_of_reverse_filter {α : Type} {p : α → Bool} {xs before after : List α}
    {a : α} (h : (xs.filter p).reverse = before ++ a :: after) :
    ∃ older newer, xs = older ++ a :: newer ∧ p a = true ∧ newer.filter p = before.reverse := by
  have h := List.reverse_eq_append_iff.mp h
  rw [List.reverse_cons, List.append_assoc, List.singleton_append] at h
  obtain ⟨front, back, rfl, -, hback⟩ := List.filter_eq_append_iff.mp h
  obtain ⟨skipped, newer, rfl, -, ha, hnewer⟩ := List.filter_eq_cons_iff.mp hback
  exact ⟨front ++ skipped, newer, by rw [List.append_assoc], ha, hnewer⟩

theorem generalized_of_returns {observed : Text} {k : CharClass}
    (h : (generalize limits c observed).Returns (.saying P) m k m') :
    Generalized P limits c (Symbol.text observed) m k m' := by
  simp only [generalize, returns_bind, returns_classes] at h
  obtain ⟨_, _, ⟨rfl, rfl⟩, first, _, hfirst, h⟩ := h
  obtain ⟨rfl, -⟩ := of_returns_firstConfirmed hfirst
  rcases firstConfirmed_saying hfirst with
    ⟨rfl, hall⟩ | ⟨before, j, after, rfl, hsplit, hj, hpassed⟩
  · simp only [returns_bind] at h
    obtain ⟨known, _, hknown, found, _, hfound, h⟩ := h
    obtain rfl := reads_scanPredefined _ _ _ hknown
    obtain rfl := reads_scanAlphabet _ hfound
    obtain ⟨hmembers, rfl⟩ := members_of_returns_newClass h
    refine .made (fun n hn htrigger => hall n ?_)
      ((scanPredefined_saying hknown).trans (scanAlphabet_saying hfound)) hmembers
    exact List.mem_reverse.mpr (List.mem_filter.mpr ⟨hn, decide_eq_true htrigger⟩)
  · obtain ⟨older, newer, hclasses, htrigger, hnewer⟩ := exists_split_of_reverse_filter hsplit
    simp only [returns_bind, returns_note, returns_shownClass, returns_pure] at h
    obtain ⟨_, _, ⟨_, rfl⟩, _, _, rfl, rfl, rfl⟩ := h
    refine .reused hclasses (of_decide_eq_true htrigger) hj fun n hn htrigger => hpassed n ?_
    rw [← List.mem_reverse, ← hnewer]
    exact List.mem_filter.mpr ⟨hn, decide_eq_true htrigger⟩

namespace Generalized

variable {x : Char} {k : CharClass}

/-- A class is one that is used again and confirmed, or all its members are accepted. -/
theorem sound (h : Generalized P limits c (.ofChar x) m k m') (hx : P (c.fill [x]) true) :
    k ∈ m.classes ∧ (Symbol.ofChar x ∈ k.triggers ∧ k.Confirmed P c) ∧ m' = m ∨
      (∀ s ∈ k.characters, P (c.fill s.toText) true) ∧
        m' = if k ∈ m.classes then m else { m with classes := m.classes ++ [k] } := by
  cases h with
  | reused split trigger confirmed passed => exact .inl ⟨by simp [split], ⟨trigger, confirmed⟩, rfl⟩
  | made passed search members =>
    refine .inr ⟨fun s hs => ?_, rfl⟩
    rcases search.sound s ((members s).mp hs) with hs | ⟨-, hacc⟩
    · rw [List.mem_singleton.mp hs]
      exact hx
    · exact hacc

/-- Where a class in memory is confirmed, the latest such class is used again. -/
theorem latest (h : Generalized P limits c (.ofChar x) m k m') (hP : ∀ t, P t true → ¬ P t false)
    (hsome : ∃ j ∈ m.classes, Symbol.ofChar x ∈ j.triggers ∧ j.Confirmed P c) :
    ∃ older newer, m.classes = older ++ k :: newer ∧
      (Symbol.ofChar x ∈ k.triggers ∧ k.Confirmed P c) ∧
      (∀ j ∈ newer, ¬ (Symbol.ofChar x ∈ j.triggers ∧ j.Confirmed P c)) ∧ m' = m := by
  cases h with
  | reused split trigger confirmed passed =>
    exact ⟨_, _, split, ⟨trigger, confirmed⟩,
      fun j hj ⟨htrigger, hconfirmed⟩ => hconfirmed.not_refuted hP (passed j hj htrigger), rfl⟩
  | made passed search members =>
    obtain ⟨j, hj, htrigger, hconfirmed⟩ := hsome
    exact absurd (passed j hj htrigger) (hconfirmed.not_refuted hP)

/-- Where no class in memory is confirmed, there is a new one, and its members are known. -/
theorem fresh (h : Generalized P limits c (.ofChar x) m k m') (hP : ∀ t, P t true → ¬ P t false)
    (hk : k.Regular) (hx : P (c.fill [x]) true)
    (hnone : ∀ j ∈ m.classes, ¬ (Symbol.ofChar x ∈ j.triggers ∧ j.Confirmed P c)) :
    k ∉ m.classes ∧ m' = { m with classes := m.classes ++ [k] } ∧
      ∀ s, s ∈ k.characters ↔ s = .ofChar x ∨
        ((∃ p ∈ CharClass.predefined, Symbol.ofChar x ∈ p.triggers ∧ p.Confirmed P c ∧
            s ∈ p.characters) ∨
          limits.exhaustiveCharacters = true ∧
            s ∈ limits.alphabet.characters.map Symbol.ofChar) ∧ P (c.fill s.toText) true := by
  have hsound := h.sound hx
  cases h with
  | reused split trigger confirmed passed =>
    exact absurd ⟨trigger, confirmed⟩ (hnone k (by simp [split]))
  | @made found passed search members =>
    have hfound : Symbol.ofChar x ∈ found := search.kept (List.mem_singleton_self _)
    have hnew : k ∉ m.classes := by
      intro hmem
      have htrigger : Symbol.ofChar x ∈ k.triggers := hk.triggered ▸ (members _).mpr hfound
      rcases hsound with ⟨-, hsuits, -⟩ | ⟨hall, -⟩
      · exact hnone k hmem hsuits
      · exact hnone k hmem ⟨htrigger, fun s hs => hall s (hk.checked hs)⟩
    refine ⟨hnew, if_neg hnew, fun s => (members s).trans ?_⟩
    rw [search.mem_iff hP fun s => ?_, List.mem_singleton]
    refine Or.imp_left fun ⟨p, hp, htrigger, hconfirmed, hs⟩ => ?_
    exact ⟨p, hp, htrigger, hconfirmed.not_refuted hP, hs⟩

end Generalized

end Learner

end Search

namespace Session

/-- The classes in memory after some calls, which may differ in all but the memory they start from
and may fail. -/
inductive Called : List CharClass → Prop
  /-- There are no classes in the beginning. -/
  | start : Called []
  /-- One more call. -/
  | call {σ : Type} {o : Oracle σ} {s s' : Session σ} {limits : Limits} {c : Context} {x : Char}
    {m m' : Memory} {r : Except Failure CharClass} (before : Called m.classes)
    (run : s.learn o (Learner.generalize limits c [x]) m = ((r, m'), s')) : Called m'.classes

/-- The classes are classes of characters after any calls. -/
theorem Called.regular {ks : List CharClass} (h : Called ks) : ∀ k ∈ ks, k.Regular := by
  induction h with
  | start => exact fun k hk => by cases hk
  | @call σ o s s' limits c x m m' r _ run ih =>
    have hreach := ((Learner.generalize limits c [x]).tree m).reaches_any o s
    unfold learn at run
    rw [run] at hreach
    cases r with
    | ok k => exact (Learner.of_returns_generalize ih hreach).2.1
    | error e =>
      obtain rfl := Learner.readsToFailure_generalize [x] hreach
      exact ih

variable {σ : Type} {o : Oracle σ} {v : Text → Except OracleFault Bool} {s s' : Session σ}
  {m m' : Memory} {x : Char}

/-- A class that was learned for a character is confirmed between two texts. -/
def Suits (v : Text → Except OracleFault Bool) (left right : Text) (x : Char) (k : CharClass) :
    Prop :=
  Symbol.ofChar x ∈ k.triggers ∧ ∀ s ∈ k.checks, v (left ++ s.toText ++ right) = .ok true

/-- With an exhaustive search the candidates are the characters of the alphabet, which the members
of the predefined classes are among. -/
theorem candidate_iff {limits : Limits} {left right : Text} {y : Char} :
    ((∃ p ∈ CharClass.predefined, Suits v left right x p ∧ Symbol.ofChar y ∈ p.characters) ∨
      limits.exhaustiveCharacters = true ∧
        Symbol.ofChar y ∈ limits.alphabet.characters.map Symbol.ofChar) ↔
    if limits.exhaustiveCharacters then y ∈ limits.alphabet.characters
    else ∃ p ∈ CharClass.predefined, Symbol.ofChar x ∈ p.characters ∧
      (∀ s ∈ p.checks, v (left ++ s.toText ++ right) = .ok true) ∧
      Symbol.ofChar y ∈ p.characters := by
  have hmap : Symbol.ofChar y ∈ limits.alphabet.characters.map Symbol.ofChar ↔
      y ∈ limits.alphabet.characters :=
    List.mem_map_of_injective fun _ _ => Symbol.ofChar_injective
  rw [hmap]
  split
  · next h =>
    simp only [h, true_and]
    refine ⟨?_, .inr⟩
    rintro (⟨p, hp, -, hy⟩ | hy)
    · exact CharClass.mem_alphabet_of_mem_predefined hp hy _
    · exact hy
  · next h =>
    simp only [h, false_and, or_false, Bool.false_eq_true]
    refine exists_congr fun p => and_congr_right fun hp => ?_
    rw [Suits, CharClass.triggers_of_mem_predefined hp, and_assoc]

/-- **Classes.** Let the answers of an oracle be fixed by the text, and let a character be accepted
between two texts. Whatever calls have been made before, generalizing the character ends with a
class if the oracle always answers, and a class that it ends with contains the character. Either it
is one in memory that suits the character there, or all its members are accepted there.

Without a budget a class in memory is used again if and only if one suits, and then it is the latest
one that does. Otherwise the class is new, and its members are the character and all accepted
candidates: with an exhaustive search the characters of the alphabet, and without one the members of
the predefined classes of the character whose checks are all accepted. -/
theorem exact_of_generalize (ho : o.Decides v) (hs : s.Faithful v) (hm : Called m.classes)
    (limits : Limits) (left right : Text) (hacc : v (left ++ [x] ++ right) = .ok true) :
    ((∀ t, ∃ b, v t = .ok b) →
      ∃ k m' s', Learns o s (Learner.generalize limits ⟨left, right⟩ [x]) m k m' s') ∧
    ∀ k m' s', Learns o s (Learner.generalize limits ⟨left, right⟩ [x]) m k m' s' →
      Symbol.ofChar x ∈ k.characters ∧ Symbol.AllChars k.characters ∧
      (k ∈ m.classes ∧ Suits v left right x k ∧ m' = m ∨
        (∀ y, Symbol.ofChar y ∈ k.characters → v (left ++ [y] ++ right) = .ok true) ∧
          m' = if k ∈ m.classes then m else { m with classes := m.classes ++ [k] }) ∧
      (s.budget = none →
        ((∃ j ∈ m.classes, Suits v left right x j) →
          ∃ older newer, m.classes = older ++ k :: newer ∧ Suits v left right x k ∧
            (∀ j ∈ newer, ¬ Suits v left right x j) ∧ m' = m) ∧
        ((∀ j ∈ m.classes, ¬ Suits v left right x j) →
          k ∉ m.classes ∧ m' = { m with classes := m.classes ++ [k] } ∧
          ∀ y, Symbol.ofChar y ∈ k.characters ↔ y = x ∨ v (left ++ [y] ++ right) = .ok true ∧
            if limits.exhaustiveCharacters then y ∈ limits.alphabet.characters
            else ∃ p ∈ CharClass.predefined, Symbol.ofChar x ∈ p.characters ∧
              (∀ s ∈ p.checks, v (left ++ s.toText ++ right) = .ok true) ∧
              Symbol.ofChar y ∈ p.characters)) := by
  have hregular : m.HasRegularClasses := hm.regular
  refine ⟨fun htotal => ?_, fun k m' s' h => ?_⟩
  · rcases learns_or_fails (Learner.orderly_generalize [x])
      (Learner.safe_generalize Replies.answered_answers hregular x) o s with
      hlearns | ⟨f, _, _, -, t, world, hfault⟩
    · exact hlearns
    · obtain ⟨b, hb⟩ := htotal t
      rw [ho t world, hb] at hfault
      cases hfault
  · have hret := h.returns_judged ho hs (Learner.orderly_generalize [x])
    obtain ⟨-, -, hk, hx⟩ := Learner.of_returns_generalize hregular hret
    have hgeneralized := Learner.generalized_of_returns hret
    have hx' : s'.Judges v (left ++ [x] ++ right) true := judges_true.mpr hacc
    -- At the end of the run the session says of a text that it is accepted if the oracle does.
    have hsuits : ∀ j, (Symbol.ofChar x ∈ j.triggers ∧ j.Confirmed (s'.Judges v) ⟨left, right⟩) ↔
        Suits v left right x j := fun j =>
      and_congr_right fun _ => forall₂_congr fun _ _ => judges_true
    refine ⟨hx, hk.single, ?_, fun hbudget => ?_⟩
    · refine (hgeneralized.sound hx').imp (fun ⟨hmem, hj, heq⟩ => ⟨hmem, (hsuits k).mp hj, heq⟩)
        fun ⟨hall, heq⟩ => ⟨fun y hy => judges_true.mp (hall _ hy), heq⟩
    · obtain ⟨_, hx⟩ := h.exchange ho (Learner.orderly_generalize [x])
      have hunlimited : ∀ t, s'.Judges v t true → ¬ s'.Judges v t false := by
        intro t htrue hfalse
        rw [judges_of_unlimited (hx.budget.trans hbudget)] at htrue hfalse
        rw [htrue] at hfalse
        cases hfalse
      refine ⟨fun hsome => ?_, fun hnone => ?_⟩
      · have hlatest := hgeneralized.latest hunlimited
        simp only [hsuits] at hlatest
        exact hlatest hsome
      · obtain ⟨hnew, heq, hmembers⟩ := hgeneralized.fresh hunlimited hk hx'
          fun j hj hc => hnone j hj ((hsuits j).mp hc)
        refine ⟨hnew, heq, fun y => (hmembers _).trans (or_congr ?_ ?_)⟩
        · exact ⟨Symbol.ofChar_injective, congrArg Symbol.ofChar⟩
        · rw [and_comm, ← candidate_iff]
          simp only [← and_assoc, hsuits]
          exact and_congr_left fun _ => judges_true

/-- Whether a text is a digit other than `3`, or `5!` or `7!`. -/
def isMarked (t : Text) : Bool :=
  t ∈ ["0", "1", "2", "4", "5", "6", "7", "8", "9", "5!", "7!"].map String.toList

/-- The digits other than `3`, four of which are checked. -/
def digitClass : CharClass :=
  .ofSymbols ("012456789".toList.map Symbol.ofChar) (some ("0257".toList.map Symbol.ofChar)) none

/-- The digits that have been learned from `7` alone do not suit before a mark, where an exhaustive
search finds that `5` and `7` make up the class. -/
theorem exact_of_generalize_marked : Called [digitClass] ∧ ∃ k m s,
    Learns (Oracle.ofPredicate isMarked) (start none ())
      (Learner.generalize Limits.standard ⟨[], ['!']⟩ ['7']) ⟨.empty, [digitClass]⟩ k m s ∧
    k ∉ [digitClass] ∧ ∀ y, Symbol.ofChar y ∈ k.characters ↔
      y = '7' ∨ isMarked [y, '!'] = true ∧ y ∈ Alphabet.ascii.characters := by
  have hrun : (start none ()).learn (Oracle.ofPredicate isMarked)
      (Learner.generalize Limits.strict .whole ['7']) .empty =
      ((.ok digitClass, ⟨.empty, [digitClass]⟩), _) := rfl
  have hcalled : Called [digitClass] := .call .start hrun
  obtain ⟨hends, hexact⟩ := exact_of_generalize (o := Oracle.ofPredicate isMarked)
    (v := fun t => .ok (isMarked t)) (fun _ _ => rfl) (s := start none ())
    (fun t b h => by simp [start, answer?] at h) (m := ⟨.empty, [digitClass]⟩) hcalled
    Limits.standard [] ['!'] (x := '7') (by decide)
  obtain ⟨k, m, s, hrun⟩ := hends fun t => ⟨_, rfl⟩
  obtain ⟨-, -, -, hunlimited⟩ := hexact k m s hrun
  obtain ⟨hnew, -, hmembers⟩ := (hunlimited rfl).2 (by
    rintro j hj ⟨-, hchecks⟩
    rw [List.mem_singleton.mp hj] at hchecks
    exact absurd (hchecks (.ofChar '0') (.head _)) (by decide))
  refine ⟨hcalled, k, m, s, hrun, hnew, fun y => (hmembers y).trans ?_⟩
  simp [Limits.standard]

end Session

end GrammarInference
