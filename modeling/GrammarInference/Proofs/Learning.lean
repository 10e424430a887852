import GrammarInference.Proofs.Acceptance
import GrammarInference.Proofs.Answers
import GrammarInference.Proofs.Finishing
import GrammarInference.Proofs.Generalizing

/-!
# Learning from seeds

What holds between the steps of learning is `Memory.InOrder`: the rules grow in layers, the
classes are classes of characters, and the root is tidy. The tree of a seed keeps the memory in
order and has an accepted text if the seed is accepted; merging the trees is an induction over the
seeds (`Learner.mergeSeeds_induction`).

The main result is that every branch of the root of a learned grammar has a default text that the
oracle was asked about and accepts.
-/

namespace GrammarInference

/-- The nodes for the characters of a text, each with its class. -/
def Node.literals (t : Text) (ks : List CharClass) : List Node :=
  (t.zip ks).map fun (c, k) => Node.literal (Literal.single c k)

/-- The classes of the characters of a text are classes that the characters belong to. -/
def CharClass.Cover (t : Text) (ks : List CharClass) : Prop :=
  List.Forall₂ (fun x k => k.Regular ∧ Symbol.ofChar x ∈ k.characters) t ks

/-- A memory with a root that refers to its completed rules. -/
structure Memory.InOrder (m : Memory) (done : List Text) (root : Node) : Prop where
  /-- The rules lie in layers. -/
  ordered : m.rules.Ordered done
  /-- The classes are classes of characters. -/
  regular : m.HasRegularClasses
  /-- The root is tidy. -/
  tidy : root.Tidy done

namespace CharClass.Cover

variable {t : Text} {ks : List CharClass}

theorem part_literals (h : Cover t ks) (done : List Text) :
    ∀ n ∈ Node.literals t ks, n.Part done := by
  unfold Cover at h
  induction h with
  | nil => exact fun n hn => by cases hn
  | cons hk _ ih =>
    refine List.forall_mem_cons.mpr ⟨⟨by simp [Node.empty], ?_⟩, ih⟩
    exact Node.tidy_literal.mpr (Literal.regular_single.mpr hk)

theorem texts_literals (h : Cover t ks) (r : Rules) : r.texts (Node.literals t ks) = t := by
  unfold Cover at h
  induction h with
  | nil => exact r.texts_nil
  | @cons x k t ks _ _ ih =>
    change r.texts (Node.literal (Literal.single x k) :: Node.literals t ks) = x :: t
    rw [Rules.texts_cons, Rules.text_literal, ih]
    rfl

theorem not_alternation_literals (t : Text) (ks : List CharClass) :
    ¬ (Node.sequenceOf (Node.literals t ks)).IsAlternation := by
  intro halt
  obtain ⟨os, hos⟩ := Node.eq_of_isAlternation_sequenceOf halt
  have hmem : Node.alternation os ∈ Node.literals t ks := by rw [hos]; exact .head _
  obtain ⟨_, _, heq⟩ := List.mem_map.mp hmem
  cases heq

end CharClass.Cover

namespace Learner

variable {R : Replies} {limits : Limits} {m m' : Memory} {done : List Text}

/-- All seeds are accepted where checking them succeeds, and the memory stays. -/
theorem of_returns_checkSeeds {seeds : List Text} {u : Unit}
    (h : (checkSeeds limits seeds).Returns R m u m') :
    m' = m ∧ ∀ seed ∈ seeds, R.seed seed (.ok true) := by
  induction seeds with
  | nil => exact ⟨(returns_pure.mp h).2, by simp⟩
  | cons seed rest ih =>
    simp only [checkSeeds, returns_bind, returns_vouch] at h
    obtain ⟨ok, _, ⟨hok, rfl⟩, h⟩ := h
    split at h
    · next htrue =>
      rw [htrue] at hok
      simp only [returns_bind, returns_note] at h
      obtain ⟨_, _, rfl, h⟩ := h
      obtain ⟨rfl, hrest⟩ := ih h
      exact ⟨rfl, List.forall_mem_cons.mpr ⟨hok, hrest⟩⟩
    · exact (returns_fail.mp h).elim

/-! ### The tree of a seed -/

/-- The tree of a seed is the structure that its characters are given. -/
theorem of_returns_seedTree {seed : Text} {tree : Node} (hm : m.HasRegularClasses)
    (h : (seedTree limits seed).Returns R m tree m') :
    ∃ ks out m₁, m₁.rules = m.rules ∧ m₁.HasRegularClasses ∧ CharClass.Cover seed ks ∧
      Restructured R (Node.literals seed ks) Context.whole m₁ out m' ∧
      tree = Node.sequenceOf out := by
  simp only [seedTree, generalizeText, returns_bind] at h
  obtain ⟨ks, m₁, hks, out, _, hout, h⟩ := h
  simp only [returns_shownNode, returns_note, returns_pure] at h
  obtain ⟨_, _, ⟨_, rfl⟩, _, _, rfl, rfl, rfl⟩ := h
  obtain ⟨hr, hc, hcover⟩ := of_returns_generalizeFrom hm hks
  exact ⟨ks, out, m₁, hr, hc, hcover, restructured_of_structureRegion hout, rfl⟩

/-- The tree of a seed is tidy, and the memory stays in order while it is made. -/
theorem seedTree_grows {seed : Text} {tree : Node} (ho : m.rules.Ordered done)
    (hm : m.HasRegularClasses) (h : (seedTree limits seed).Returns R m tree m') :
    ∃ done', m.rules.Grows done m'.rules done' ∧ m'.InOrder done' tree ∧ ¬ tree.IsAlternation := by
  obtain ⟨ks, out, m₁, hr, hc, hcover, hs, rfl⟩ := of_returns_seedTree hm h
  rw [← hr] at ho ⊢
  obtain ⟨done', hg, hparts, _, hclasses⟩ := hs.grows ho (hcover.part_literals done)
  refine ⟨done', hg, ⟨hg.ordered, ?_, Node.tidy_sequenceOf hparts⟩, ?_⟩
  · unfold Memory.HasRegularClasses
    rw [hclasses]
    exact hc
  · exact hs.not_alternation (CharClass.Cover.not_alternation_literals seed ks)

/-- The text of the tree of an accepted seed is accepted. -/
theorem seedTree_accepts {seed : Text} {tree : Node} (ho : m.rules.Ordered done)
    (hm : m.HasRegularClasses) (h : (seedTree limits seed).Returns R m tree m')
    (hseed : R.Accepts seed) : R.Accepts (m'.rules.text tree) := by
  obtain ⟨ks, out, m₁, hr, _, hcover, hs, rfl⟩ := of_returns_seedTree hm h
  rw [← hr] at ho
  have hacc := hs.accepts ho.founded
    (fun n hn => (hcover.part_literals done n hn).tidy.targets_subset) (by
      rwa [Context.fill_whole, hcover.texts_literals])
  rwa [Context.fill_whole, ← Rules.text_sequenceOf] at hacc

/-! ### Merging trees -/

/-- Merging a tree into a root leaves the memory, and what is so is in order. -/
theorem mergeRoot_inOrder {root tree out : Node} (hroot : m.InOrder done root)
    (htree : tree.Tidy done) (h : (mergeRoot limits root tree).Returns R m out m') :
    m' = m ∧ m.InOrder done out := by
  have hmerge : ∀ depth, MergesInto R m (Node.TidyHere done) (mergeWithin limits depth)
      (Node.MergesTidy done) :=
    merge_induction (fun ha hb h => h.mergesTidy ha hb) limits
  obtain ⟨rfl, hout⟩ := of_returns_mergeRoot hmerge hroot.tidy htree h
  exact ⟨rfl, hroot.ordered, hroot.regular, hout.tidy hroot.tidy htree⟩

/-- **Induction over seeds.** What merging the tree of one more seed keeps holds of all seeds. -/
theorem mergeSeeds_induction {I : List Text → Memory → Node → Prop} {seeds : List Text}
    (step : ∀ seed ∈ seeds, ∀ {taken m root tree m₁ out m₂}, I taken m root →
      (seedTree limits seed).Returns R m tree m₁ →
      (mergeRoot limits root tree).Returns R m₁ out m₂ → I (taken ++ [seed]) m₂ out)
    (taken : List Text) {root out : Node} (hI : I taken m root)
    (h : (mergeSeeds limits seeds root).Returns R m out m') : I (taken ++ seeds) m' out := by
  induction seeds generalizing taken root m with
  | nil =>
    obtain ⟨rfl, rfl⟩ := returns_pure.mp h
    rwa [List.append_nil]
  | cons seed rest ih =>
    simp only [mergeSeeds, returns_bind] at h
    obtain ⟨tree, m₁, htree, merged, m₂, hmerged, h⟩ := h
    have hnext := step seed (.head _) hI htree hmerged
    rw [← List.singleton_append, ← List.append_assoc]
    exact ih (fun s hs => step s (.tail _ hs)) _ hnext h

/-- What learning has found out about a root: the memory is in order, and all branches of the root
are accepted. -/
def AcceptedRoot (R : Replies) (m : Memory) (root : Node) : Prop :=
  ∃ done, m.InOrder done root ∧ AcceptsBranches R m.rules root

theorem acceptedRoot_of_seedTree {seed : Text} {tree : Node} (ho : m.rules.Ordered done)
    (hm : m.HasRegularClasses) (hseed : R.Accepts seed)
    (h : (seedTree limits seed).Returns R m tree m') : AcceptedRoot R m' tree := by
  obtain ⟨done', _, htree, hna⟩ := seedTree_grows ho hm h
  exact ⟨done', htree,
    acceptsBranches_of_not_alternation hna (seedTree_accepts ho hm h hseed)⟩

theorem AcceptedRoot.mergeRoot {seed : Text} {root tree out : Node} {m₁ m₂ : Memory}
    (h : AcceptedRoot R m root) (hseed : R.Accepts seed)
    (htree : (seedTree limits seed).Returns R m tree m₁)
    (hmerged : (mergeRoot limits root tree).Returns R m₁ out m₂) : AcceptedRoot R m₂ out := by
  obtain ⟨done, hroot, hacc⟩ := h
  obtain ⟨done', hg, ht, _⟩ := seedTree_grows hroot.ordered hroot.regular htree
  have htidy := hroot.tidy.mono hg.subset
  obtain ⟨rfl, hout⟩ := mergeRoot_inOrder ⟨ht.ordered, ht.regular, htidy⟩ ht.tidy hmerged
  have hacc' : AcceptsBranches R m₂.rules root := by
    intro b hb
    rw [hg.text_eq hroot.ordered (hroot.tidy.branches b hb)]
    exact hacc b hb
  obtain ⟨_, hm⟩ := of_returns_mergeRoot (merges_accepted R m₂ (Node.TidyHere done') limits) htidy
    ht.tidy hmerged
  exact ⟨done', hout, hm.accepts htidy ht.tidy hacc'
    (seedTree_accepts hroot.ordered hroot.regular htree hseed)⟩

theorem AcceptedRoot.refineAll {root out : Node} (h : AcceptedRoot R m root)
    (hout : (refineAll limits root).Returns R m out m') : AcceptedRoot R m' out := by
  obtain ⟨done, hroot, hacc⟩ := h
  have hp := refined_of_refinePasses _ hout
  obtain ⟨done', hg, htidy, hclasses⟩ := hp.grows hroot.ordered hroot.tidy
  refine ⟨done', ⟨hg.ordered, ?_, htidy⟩, hp.accepts hroot.ordered hroot.tidy hacc⟩
  unfold Memory.HasRegularClasses
  rw [hclasses]
  exact hroot.regular

/-- Learning ends by finishing a root whose branches are all accepted. -/
theorem of_returns_synthesize {seeds : List Text} {g : Grammar}
    (hseed : ∀ t, R.seed t (.ok true) → R.Accepts t)
    (h : (synthesize limits seeds).Returns R Memory.empty g m') :
    ∃ root, AcceptedRoot R m' root ∧
      g = ⟨root.compact, m'.rules.compactOn (m'.rules.reachable root)⟩ := by
  cases seeds with
  | nil => exact (returns_fail.mp h).elim
  | cons seed rest =>
    simp only [synthesize, returns_bind] at h
    obtain ⟨_, _, hcheck, tree, m₁, htree, root, m₂, hroot, refined, m₃, hrefined, hfinal⟩ := h
    obtain ⟨rfl, hseeds⟩ := of_returns_checkSeeds hcheck
    have haccept := fun s hs => hseed s (hseeds s hs)
    have hfirst := acceptedRoot_of_seedTree Rules.ordered_empty (fun k hk => by cases hk)
      (haccept seed (.head _)) htree
    have hmerged : AcceptedRoot R m₂ root :=
      mergeSeeds_induction (I := fun _ m root => AcceptedRoot R m root)
        (fun s hs _ _ _ _ _ _ _ hI => hI.mergeRoot (haccept s (.tail _ hs))) [seed] hfirst hroot
    obtain ⟨hg, rfl⟩ := of_returns_finalize hfinal
    exact ⟨refined, hmerged.refineAll hrefined, hg⟩

end Learner

end GrammarInference
