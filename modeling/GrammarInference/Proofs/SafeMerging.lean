import GrammarInference.Proofs.MergeShape
import GrammarInference.Proofs.Safety

/-!
# Merging cannot fail

If every question is answered, merging two mergeable nodes ends without a failure, though a merge
may be rejected. Classes of characters can be united, the nodes can be aligned by their keys, and a
reference goes to a grounded rule, so that it has a default text and two rules can be compared.
Since merging leaves the memory, one memory with its grounded rules is fixed throughout.
-/

namespace GrammarInference

namespace CharClass.OfCharacters

variable {a b k : CharClass}

theorem all_checks_isAtom (hk : k.OfCharacters) : k.checks.all Symbol.isAtom = true := by
  refine List.all_eq_true.mpr fun s hs => ?_
  obtain ⟨c, rfl⟩ := hk.checks s hs
  rfl

/-- Classes of characters can be united. -/
theorem union?_eq_ok (ha : a.OfCharacters) (hb : b.OfCharacters) (n : Int) :
    a.union? b n = .ok (a.union b n) := by
  have hall : (a.union b 0).characters.all (fun s => s.rank = 0) = true := by
    refine List.all_eq_true.mpr fun s hs => ?_
    obtain ⟨c, rfl⟩ := (ha.union hb 0).characters s hs
    rfl
  have hchecks : (a.checks ++ b.checks).all Symbol.isAtom = true := by
    rw [List.all_append, ha.all_checks_isAtom, hb.all_checks_isAtom]
    rfl
  unfold union? canUnite Symbol.comparable
  rw [hall, hchecks, Bool.or_true, Bool.true_or, Bool.true_and, if_pos rfl]

end CharClass.OfCharacters

namespace Node

variable {names : List Text}

theorem mergeableHere_single {x : Char} {k : CharClass} :
    MergeableHere names (.literal (.single x k)) ↔
      k.OfCharacters ∧ Symbol.ofChar x ∈ k.characters := by
  constructor
  · rintro ⟨y, k', h, hk, hy⟩
    simp only [Literal.single, Literal.mk.injEq, List.cons.injEq, Option.some.injEq, and_true] at h
    obtain ⟨rfl, rfl⟩ := h
    exact ⟨hk, hy⟩
  · rintro ⟨hk, hx⟩
    exact ⟨x, k, rfl, hk, hx⟩

/-- Merging gives mergeable nodes. -/
theorem unites_mergeableHere (names : List Text) : Unites (MergeableHere names) where
  sequence _ := trivial
  alternation _ := trivial
  repetition _ _ := trivial
  union ha hb n := by
    obtain ⟨hka, hx⟩ := mergeableHere_single.mp ha
    obtain ⟨hkb, _⟩ := mergeableHere_single.mp hb
    refine mergeableHere_single.mpr ⟨hka.union hkb n, ?_⟩
    exact CharClass.mem_characters_union.mpr (.inl hx)

end Node

namespace Learner

variable {R : Replies} {m : Memory} {limits : Limits} {c : Context} {names : List Text}

theorem safe_render_of_mergeable (hg : m.rules.Grounded names) {n : Node}
    (hn : n.Mergeable names) : (render n).Safe R m :=
  safe_render (hg.defaultText hn.targets_subset)

theorem safe_renderAll_of_mergeable (hg : m.rules.Grounded names) {ns : List Node}
    (hns : ∀ n ∈ ns, n.Mergeable names) : (renderAll ns).Safe R m :=
  safe_renderAll (hg.defaultTexts fun n hn => (hns n hn).targets_subset)

theorem safe_acceptsSymbols (hR : R.Answered) {ss : List Symbol} (hss : Symbol.AllChars ss) :
    (acceptsSymbols c ss).Safe R m := by
  induction ss with
  | nil => exact safe_pure _
  | cons s rest ih =>
    obtain ⟨⟨x, rfl⟩, hrest⟩ := List.forall_mem_cons.mp hss
    refine (safe_accepts hR _).bind fun ok m₁ h => ?_
    obtain ⟨_, rfl⟩ := returns_accepts.mp h
    split
    · exact ih hrest
    · exact safe_pure _

theorem safe_uniteClasses (hR : R.Answered) {x y : Char} {ka kb : CharClass}
    (ha : ka.OfCharacters) (hx : Symbol.ofChar x ∈ ka.characters) (hb : kb.OfCharacters)
    (hy : Symbol.ofChar y ∈ kb.characters) :
    (uniteClasses limits x ka y kb c).Safe R m := by
  have hextra : Symbol.AllChars ((Text.distinct (kb.checks ++ [Symbol.ofChar y])).filter
      fun s => !ka.contains s) := by
    intro s hs
    have hs := Text.mem_distinct.mp (List.mem_of_mem_filter hs)
    rcases List.mem_append.mp hs with hs | hs
    · exact hb.checks s hs
    · exact ⟨y, List.mem_singleton.mp hs⟩
  have hunion : Symbol.ofChar x ∈ (ka.union kb limits.maxChecks).characters :=
    CharClass.mem_characters_union.mpr (.inl hx)
  unfold uniteClasses
  split
  · exact safe_pure _
  · -- All checks are single characters, so that none of them stops the union.
    rw [if_neg (by simp [hb.all_checks_isAtom])]
    refine (safe_acceptsSymbols hR hextra).bind fun ok m₁ h => ?_
    obtain ⟨rfl, _⟩ := of_returns_acceptsSymbols h
    split
    · rw [ha.union?_eq_ok hb]
      refine (safe_shownClass_of_characters ha hx).bind fun _ _ _ => ?_
      refine (safe_shownClass_of_characters hb hy).bind fun _ _ _ => ?_
      refine (safe_shownClass_of_characters (ha.union hb _) hunion).bind fun _ _ _ => ?_
      exact (safe_note _).bind fun _ _ _ => safe_pure _
    · refine (safe_shownClass_of_characters ha hx).bind fun _ _ _ => ?_
      refine (safe_shownClass_of_characters hb hy).bind fun _ _ _ => ?_
      exact (safe_note _).bind fun _ _ _ => safe_pure _

theorem safe_mergeLiterals (hR : R.Answered) {a b : Literal}
    (ha : Node.MergeableHere names (.literal a)) (hb : Node.MergeableHere names (.literal b)) :
    (mergeLiterals limits a b c).Safe R m := by
  obtain ⟨x, ka, rfl, hka, hx⟩ := ha
  obtain ⟨y, kb, rfl, hkb, hy⟩ := hb
  rw [mergeLiterals_single]
  split
  · exact safe_pure _
  · exact safe_uniteClasses hR hka hx hkb hy

/-! ### Alternatives -/

section Grounded

variable (hR : R.Answered) (hg : m.rules.Grounded names)

include hR hg

theorem safe_addOptions {os options : List Node} (hos : ∀ o ∈ os, o.Mergeable names) :
    (addOptions c os options).Safe R m := by
  induction os generalizing options with
  | nil => exact safe_pure _
  | cons o rest ih =>
    obtain ⟨hfirst, hrest⟩ := List.forall_mem_cons.mp hos
    simp only [addOptions]
    split
    · exact ih hrest
    · refine (safe_render_of_mergeable hg hfirst).bind fun _ _ h => ?_
      obtain ⟨_, rfl⟩ := text_of_returns_render h
      refine (safe_accepts hR _).bind fun _ _ h => ?_
      obtain ⟨_, rfl⟩ := returns_accepts.mp h
      split
      · exact ih hrest
      · refine (safe_shownNode_compact hfirst.isPrintable).bind fun _ _ _ => ?_
        exact (safe_note _).bind fun _ _ _ => safe_pure _

theorem safe_alternate {a b : Node} (ha : a.Mergeable names) (hb : b.Mergeable names) :
    (alternate a b c).Safe R m := by
  refine (safe_addOptions hR hg hb.branches).bind fun added m₁ hadded => ?_
  obtain ⟨rfl, hadded⟩ := of_returns_addOptions hadded
  cases added with
  | none => exact safe_pure _
  | some options =>
    obtain ⟨extra, rfl, hsub, -⟩ := hadded _ rfl
    have hprint : (Node.alternation (a.branches ++ extra)).isPrintable = true := by
      refine Node.isPrintable_alternation.mpr (List.forall_mem_append.mpr ⟨fun o ho => ?_, ?_⟩)
      · exact Node.Mergeable.isPrintable (ha.branches o ho)
      · exact fun o ho => Node.Mergeable.isPrintable (hb.branches o (hsub o ho))
    generalize a.branches ++ extra = options at hprint
    have shown : ((shownNode (Node.alternation options).compact) >>= fun t => (do
        note (Note.generalized "alternation".toList t)
        return some (Node.alternation options)) : Learner (Option Node)).Safe R m₁ := by
      refine (safe_shownNode (Node.isPrintable_compact hprint)).bind fun _ _ _ => ?_
      exact (safe_note _).bind fun _ _ _ => safe_pure _
    rcases options with _ | ⟨o, _ | ⟨p, ps⟩⟩
    · exact shown
    · exact safe_pure _
    · exact shown

/-! ### Steps over the merges inside -/

omit hR hg

/-- Merging smaller mergeable nodes ends without a failure and gives mergeable nodes. -/
structure InnerMergesSafely (R : Replies) (m : Memory) (names : List Text)
    (inner : Node → Node → Context → Learner (Option Node)) : Prop where
  /-- There is no failure. -/
  safe : ∀ {a b : Node} (c : Context), a.Mergeable names → b.Mergeable names →
    (inner a b c).Safe R m
  /-- The outcome is mergeable. -/
  merges : MergesInto R m (Node.MergeableHere names) inner
    (MergesThroughout (Node.MergeableHere names))

variable {inner : Node → Node → Context → Learner (Option Node)}

include hR

theorem safe_countsAccepted (body : Text) (counts : List Nat) :
    (countsAccepted c body counts).Safe R m := by
  induction counts with
  | nil => exact safe_pure _
  | cons count rest ih =>
    refine (safe_accepts hR _).bind fun _ _ h => ?_
    obtain ⟨_, rfl⟩ := returns_accepts.mp h
    split
    · exact ih
    · exact (safe_note _).bind fun _ _ _ => safe_pure _

include hg

theorem safe_mergeRepetitions (hinner : InnerMergesSafely R m names inner) {a b : Node}
    (ha : a.Mergeable names) (hb : b.Mergeable names) :
    (mergeRepetitions inner a b c).Safe R m := by
  have hbodyA := throughout_asRepetition ha
  have hbodyB := throughout_asRepetition hb
  unfold mergeRepetitions
  refine (safe_render_of_mergeable hg hbodyA).bind fun _ _ h => ?_
  obtain ⟨_, rfl⟩ := text_of_returns_render h
  refine (hinner.safe _ hbodyA hbodyB).bind fun body _ h => ?_
  obtain ⟨rfl, hbody⟩ := hinner.merges hbodyA hbodyB h
  cases body with
  | none => exact safe_pure _
  | some body =>
    refine (safe_render_of_mergeable hg (hbody body rfl)).bind fun _ _ h => ?_
    obtain ⟨_, rfl⟩ := text_of_returns_render h
    refine (safe_countsAccepted hR _ _).bind fun _ _ _ => ?_
    split <;> exact safe_pure _

omit hR

theorem safe_mergePairs (hinner : InnerMergesSafely R m names inner) {rest as bs acc : List Node}
    (has : ∀ a ∈ as, a.Mergeable names) (hbs : ∀ b ∈ bs, b.Mergeable names)
    (hrest : ∀ n ∈ rest, n.Mergeable names) (hacc : ∀ n ∈ acc, n.Mergeable names) :
    (mergePairs inner c rest as bs acc).Safe R m := by
  induction as generalizing bs acc with
  | nil =>
    simp only [mergePairs]
    exact safe_pure _
  | cons a as ih =>
    cases bs with
    | nil =>
      simp only [mergePairs]
      exact safe_pure _
    | cons b bs =>
      obtain ⟨ha, has⟩ := List.forall_mem_cons.mp has
      obtain ⟨hb, hbs⟩ := List.forall_mem_cons.mp hbs
      simp only [mergePairs]
      refine (safe_renderAll_of_mergeable hg hacc).bind fun _ _ h => ?_
      obtain ⟨_, rfl⟩ := texts_of_returns_renderAll h
      refine (safe_renderAll_of_mergeable hg (List.forall_mem_append.mpr ⟨has, hrest⟩)).bind
        fun _ _ h => ?_
      obtain ⟨_, rfl⟩ := texts_of_returns_renderAll h
      refine (hinner.safe _ ha hb).bind fun n _ h => ?_
      obtain ⟨rfl, hn⟩ := hinner.merges ha hb h
      cases n with
      | none => exact safe_pure _
      | some n =>
        have hn := List.forall_mem_singleton.mpr (hn n rfl)
        exact ih has hbs (List.forall_mem_append.mpr ⟨hacc, hn⟩)

theorem safe_mergeSides (hinner : InnerMergesSafely R m names inner) {rest acc : List Node}
    {b : Block Node} (hleft : ∀ n ∈ b.left, n.Mergeable names)
    (hright : ∀ n ∈ b.right, n.Mergeable names) (hrest : ∀ n ∈ rest, n.Mergeable names)
    (hacc : ∀ n ∈ acc, n.Mergeable names) : (mergeSides inner c rest b acc).Safe R m := by
  unfold mergeSides
  split
  · exact safe_mergePairs hg hinner hleft hright hrest hacc
  · exact safe_pure _

include hR

theorem safe_mergeBlocks (hinner : InnerMergesSafely R m names inner) {blocks : List (Block Node)}
    {acc : List Node} (hleft : ∀ d ∈ blocks, ∀ n ∈ d.left, n.Mergeable names)
    (hright : ∀ d ∈ blocks, ∀ n ∈ d.right, n.Mergeable names)
    (hacc : ∀ n ∈ acc, n.Mergeable names) : (mergeBlocks inner c blocks acc).Safe R m := by
  have hunites := Node.unites_mergeableHere names
  induction blocks generalizing acc with
  | nil => exact safe_pure _
  | cons b blocks ih =>
    obtain ⟨hbl, hleft'⟩ := List.forall_mem_cons.mp hleft
    obtain ⟨hbr, hright'⟩ := List.forall_mem_cons.mp hright
    have hrest : ∀ n ∈ blocks.flatMap Block.left, n.Mergeable names := by
      intro n hn
      obtain ⟨d, hd, hn⟩ := List.mem_flatMap.mp hn
      exact hleft' d hd n hn
    simp only [mergeBlocks]
    refine (safe_mergeSides hg hinner hbl hbr hrest hacc).bind fun paired m₁ h => ?_
    obtain ⟨rfl, hpaired⟩ := of_returns_mergeSides hinner.merges hbl hbr h
    cases paired with
    -- What pairs are merged into refers to the same rules as the pairs.
    | some out =>
      exact ih hleft' hright' (Node.Unites.throughout_pairsMerged (hpaired out rfl) hacc)
    | none =>
      refine (safe_renderAll_of_mergeable hg hacc).bind fun _ _ h => ?_
      obtain ⟨_, rfl⟩ := texts_of_returns_renderAll h
      refine (safe_renderAll_of_mergeable hg hrest).bind fun _ _ h => ?_
      obtain ⟨_, rfl⟩ := texts_of_returns_renderAll h
      -- The pairs have not been merged, and both sides become alternatives as wholes.
      have hl := hunites.throughout_sequenceOf hbl
      have hr := hunites.throughout_sequenceOf hbr
      refine (safe_alternate hR hg hl hr).bind fun n _ h => ?_
      obtain ⟨rfl, hn⟩ := of_returns_alternate h
      cases n with
      | none => exact safe_pure _
      | some n =>
        obtain ⟨extra, added, rfl⟩ := hn n rfl
        have hn := List.forall_mem_singleton.mpr (hunites.throughout_alternated added hl hr)
        exact ih hleft' hright' (List.forall_mem_append.mpr ⟨hacc, hn⟩)

theorem safe_mergeSequences (hinner : InnerMergesSafely R m names inner) {a b : Node}
    (ha : a.Mergeable names) (hb : b.Mergeable names) :
    (mergeSequences inner a b c).Safe R m := by
  have hindexable : ((a.children ++ b.children).all fun n => n.key.isIndexable) = true := by
    refine List.all_eq_true.mpr (List.forall_mem_append.mpr ⟨fun n hn => ?_, fun n hn => ?_⟩)
    · exact Node.Mergeable.isIndexable (ha.children n hn)
    · exact Node.Mergeable.isIndexable (hb.children n hn)
  obtain ⟨hleft, hright⟩ := Align.forall_mem_blocks Node.key ha.children hb.children
  unfold mergeSequences
  rw [hindexable, if_neg (by simp)]
  refine (safe_mergeBlocks hR hg hinner hleft hright (by simp)).bind fun merged _ _ => ?_
  cases merged <;> exact safe_pure _

omit hR

theorem safe_sameRule {s t : Text} (hs : s ∈ names) (ht : t ∈ names) :
    (sameRule s t).Safe R m := by
  unfold sameRule
  split
  · exact safe_pure _
  · refine safe_rules.bind fun _ _ h => ?_
    obtain ⟨rfl, rfl⟩ := returns_rules.mp h
    obtain ⟨ruleB, hB⟩ := Rules.exists_get?_of_mem_names (hg.subset_names ht)
    obtain ⟨ruleA, hA⟩ := Rules.exists_get?_of_mem_names (hg.subset_names hs)
    rw [hB]
    dsimp only
    rw [hA]
    exact safe_pure _

include hR

theorem safe_mergeStructure (hinner : InnerMergesSafely R m names inner) {a b : Node}
    (ha : a.Mergeable names) (hb : b.Mergeable names) :
    (mergeStructure inner limits a b c).Safe R m := by
  unfold mergeStructure
  split
  · exact safe_mergeLiterals hR ha.here hb.here
  · exact safe_mergeRepetitions hR hg hinner ha hb
  · exact safe_mergeRepetitions hR hg hinner ha hb
  · split <;> exact safe_pure _
  · refine (safe_sameRule hg ha.here hb.here).bind fun _ _ _ => ?_
    split <;> exact safe_pure _
  · exact safe_mergeSequences hR hg hinner ha hb
  · exact safe_mergeSequences hR hg hinner ha hb
  · exact safe_pure _

theorem safe_mergeStep (hinner : InnerMergesSafely R m names inner) {a b : Node}
    (ha : a.Mergeable names) (hb : b.Mergeable names) :
    (mergeStep inner limits a b c).Safe R m := by
  unfold mergeStep
  split
  · exact safe_pure _
  · refine (safe_mergeStructure hR hg hinner ha hb).bind fun outcome _ h => ?_
    obtain ⟨rfl, _⟩ := of_returns_mergeStructure hinner.merges ha hb h
    split
    · exact safe_pure _
    · exact safe_alternate hR hg ha hb

theorem innerMergesSafely_mergeWithin (limits : Limits) (depth : Nat) :
    InnerMergesSafely R m names (mergeWithin limits depth) := by
  have hmerges := (Node.unites_mergeableHere names).merges_throughout R m limits
  refine ⟨?_, hmerges depth⟩
  induction depth with
  | zero => exact fun c ha hb => safe_alternate hR hg ha hb
  | succ depth ih => exact fun c ha hb => safe_mergeStep hR hg ⟨ih, hmerges depth⟩ ha hb

/-! ### The root -/

theorem safe_tryMerge {existing tree : Node} (he : existing.Mergeable names)
    (ht : tree.Mergeable names) :
    (tryMerge limits existing tree).Safe R m := by
  have hinner := innerMergesSafely_mergeWithin hR hg limits
  unfold tryMerge
  split
  · exact safe_pure _
  · refine (safe_mergeStructure hR hg (hinner _) he ht).bind fun outcome _ h => ?_
    obtain ⟨rfl, houtcome⟩ := of_returns_mergeStructure (hinner _).merges he ht h
    split
    · next n =>
      have hn := (Node.unites_mergeableHere names).throughout_structureMerged (houtcome n rfl) he ht
      refine (safe_render_of_mergeable hg hn).bind fun _ _ h => ?_
      obtain ⟨_, rfl⟩ := text_of_returns_render h
      refine (safe_render_of_mergeable hg he).bind fun _ _ h => ?_
      obtain ⟨_, rfl⟩ := text_of_returns_render h
      split
      · exact safe_pure _
      · refine (safe_accepts hR _).bind fun _ _ _ => ?_
        split <;> exact safe_pure _
    · exact safe_pure _

theorem safe_mergeIntoFirst {tree : Node} {options : List Node} (ht : tree.Mergeable names)
    (hos : ∀ o ∈ options, o.Mergeable names) : (mergeIntoFirst limits tree options).Safe R m := by
  have hmerge := fun depth => (innerMergesSafely_mergeWithin hR hg limits depth).merges
  induction options with
  | nil => exact safe_pure _
  | cons o rest ih =>
    obtain ⟨hfirst, hrest⟩ := List.forall_mem_cons.mp hos
    refine (safe_tryMerge hR hg hfirst ht).bind fun first _ h => ?_
    obtain ⟨rfl, _⟩ := of_returns_tryMerge hmerge hfirst ht h
    cases first with
    | some n => exact safe_pure _
    | none =>
      refine (ih hrest).bind fun others _ _ => ?_
      cases others <;> exact safe_pure _

/-- **Merging cannot fail** where root and tree are mergeable. -/
theorem safe_mergeRoot {root tree : Node} (hroot : root.Mergeable names)
    (ht : tree.Mergeable names) :
    (mergeRoot limits root tree).Safe R m := by
  refine (safe_mergeIntoFirst hR hg ht hroot.branches).bind fun first _ _ => ?_
  cases first with
  | some merged => exact safe_pure _
  | none =>
    dsimp only
    split
    · exact safe_pure _
    · exact (safe_note _).bind fun _ _ _ => safe_pure _

end Grounded

end Learner

end GrammarInference
