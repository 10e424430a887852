import GrammarInference.Proofs.MergeShape
import GrammarInference.Proofs.Refining

/-!
# Accepted default texts

Every step of learning leaves an accepted input where it has found one: if the context filled with
the text of a node is accepted, so is the context filled with the text of what the node becomes.
This is shown for giving structure (`Restructured.accepts`), where the rules grow meanwhile and the
texts of nodes do not change with them, for merging (`Learner.merges_accepted`) and for refining
(`Refined.accepts`).

A root has more than its default text to keep: all its branches are accepted, and they stay
accepted when a tree is merged into the root (`RootMerged.accepts`) and when it is refined
(`PassesRefined.accepts`).
-/

namespace GrammarInference

namespace Restructured

variable {R : Replies} {ns ns' : List Node} {c : Context} {m m' : Memory} {done : List Text}

/-- **Acceptance.** Giving structure to nodes that refer to founded rules keeps the input
accepted. -/
theorem accepts (h : Restructured R ns c m ns' m') (hf : m.rules.Founded done)
    (hns : ∀ n ∈ ns, n.targets ⊆ done) (hacc : R.Accepts (c.fill (m.rules.texts ns))) :
    R.Accepts (c.fill (m'.rules.texts ns')) := by
  induction h generalizing done with
  | keep ns c m => exact hacc
  | abandon sub attempt _ _ ih =>
    obtain ⟨done₁, hx, -⟩ := attempt.addsLayers hf fun n hn => hns n (sub hn)
    refine ih (hx.founded hf) (fun n hn => List.Subset.trans (hns n hn) hx.subset) ?_
    rwa [hx.extension.texts_eq hf.grounded hns]
  | @fold ns pre first post body left right copies c m m₁ m₂ m₃ least parts inside evidence before
      after _ ihBefore ihAfter =>
    rw [parts.split] at hns
    have hpre : ∀ n ∈ pre, n.targets ⊆ done := fun n hn => hns n (by simp [hn])
    have hfirst : ∀ n ∈ first, n.targets ⊆ done := fun n hn => hns n (by simp [hn])
    have hpost : ∀ n ∈ post, n.targets ⊆ done := fun n hn => hns n (by simp [hn])
    obtain ⟨done₁, done₂, done₃, hl⟩ := exists_foldLayers hf hfirst hpre hpost inside before after
    -- The least count of copies of the body stands between both sides as they were.
    have hmiddle : R.Accepts (c.fill (m.rules.texts pre
        ++ Text.times (m₁.rules.texts body) least ++ m.rules.texts post)) := by
      rw [← Context.fill_narrow]
      rcases Nat.lt_or_eq_of_le evidence.le with hlt | rfl
      · exact evidence.lowered least (Nat.le_refl _) hlt
      · rcases evidence.kept with hraw | hkept
        · rw [hraw, Context.fill_narrow, ← Rules.texts_append, ← Rules.texts_append,
            ← parts.split]
          exact hacc
        · exact hkept
    have hbefore := ihBefore hl.founded₁ hl.pre (by
      rw [Context.fill_narrow, List.nil_append, hl.inside.extension.texts_eq hf.grounded hpre,
        ← List.append_assoc]
      exact hmiddle)
    have hpost₂ := fun n hn => List.Subset.trans (hl.post n hn) hl.before.subset
    have hafter := ihAfter hl.founded₂ hpost₂ (by
      rw [Context.fill_narrow, List.append_nil,
        hl.before.extension.texts_eq hl.founded₁.grounded hl.post,
        hl.inside.extension.texts_eq hf.grounded hpost]
      rw [Context.fill_narrow, List.nil_append, ← List.append_assoc] at hbefore
      exact hbefore)
    rw [Context.fill_narrow, List.append_nil] at hafter
    rw [Rules.texts_append, Rules.texts_append, Rules.texts_cons, Rules.texts_nil,
      Rules.text_repetition, Rules.text_sequenceOf, List.append_nil,
      (hl.before.trans hl.after).extension.texts_eq hl.founded₁.grounded hl.body,
      hl.after.extension.texts_eq hl.founded₂.grounded hl.left]
    exact hafter
  | @nest left middle right middle' c m m₁ evidence inside ih =>
    have hleft : ∀ n ∈ left, n.targets ⊆ done := fun n hn => hns n (by simp [hn])
    have hmiddle : ∀ n ∈ middle, n.targets ⊆ done := fun n hn => hns n (by simp [hn])
    have hright : ∀ n ∈ right, n.targets ⊆ done := fun n hn => hns n (by simp [hn])
    -- While the middle is given structure, the new rule holds a placeholder.
    have hreserve := Rules.AddsLayers.reserve hf.numbered done
      (Node.sequenceOf (left ++ middle ++ right))
    have hf₀ := hreserve.founded hf
    obtain ⟨done₁, hx, hmiddle', -⟩ := inside.addsLayers hf₀ hmiddle
    have hinside := ih hf₀ hmiddle (by
      change R.Accepts (Context.fill _ ((m.rules.set _ _).texts middle))
      rw [Context.fill_narrow, hreserve.extension.texts_eq hf.grounded hmiddle,
        ← Rules.texts_append, ← Rules.texts_append]
      exact hacc)
    rw [Context.fill_narrow] at hinside
    change R.Accepts (c.fill ((m₁.rules.set _ _).texts _))
    rw [Rules.texts_cons, Rules.texts_nil, List.append_nil,
      hx.text_nestRule hf hleft hmiddle' hright]
    exact hinside

end Restructured

/-! ### Merging -/

section Merging

variable {R : Replies} {r : Rules} {done : List Text} {a b n : Node} {c : Context}

/-- What merging keeps of acceptance: where the text of the first node is accepted, the text of the
outcome is. -/
def MergesAccepted (R : Replies) (r : Rules) (a _ : Node) (c : Context) (n : Node) : Prop :=
  R.Accepts (c.fill (r.text a)) → R.Accepts (c.fill (r.text n))

theorem Rules.text_ofOptions (r : Rules) (o : Node) (os : List Node) :
    r.text (Node.ofOptions (o :: os)) = r.text o := by
  unfold Node.ofOptions
  split
  · next n hn => rw [List.cons.inj hn |>.1]
  · exact r.text_alternation o os

/-- The text of a node is that of its first branch. -/
theorem Rules.text_of_branches (r : Rules) {o : Node} {os : List Node} (h : a.branches = o :: os) :
    r.text a = r.text o := by
  cases a with
  | alternation options =>
    obtain rfl : options = o :: os := h
    exact r.text_alternation o os
  | _ =>
    cases h
    rfl

/-- Alternatives have the text of the first node, or that of an accepted option. -/
theorem Alternated.accepts {extra : List Node} (h : Alternated R r a b c extra) :
    MergesAccepted R r a b c (Node.ofOptions (a.branches ++ extra)) := by
  intro hacc
  rcases hbranches : a.branches with _ | ⟨o, os⟩
  · -- Without options of its own, the first node has none to stand for.
    obtain rfl := Node.branches_eq_nil_iff.mp hbranches
    rcases extra with _ | ⟨o, os⟩
    · exact hacc
    · rw [List.nil_append, r.text_ofOptions]
      exact h.accepted o List.mem_cons_self
  · rw [List.cons_append, r.text_ofOptions, ← r.text_of_branches hbranches]
    exact hacc

theorem PairsMerged.accepts {rest as bs acc out : List Node}
    (h : PairsMerged (MergesAccepted R r) r c rest as bs acc out)
    (hacc : R.Accepts (c.fill (r.texts acc ++ (r.texts as ++ r.texts rest)))) :
    R.Accepts (c.fill (r.texts out ++ r.texts rest)) := by
  induction h with
  | nil acc => simpa using hacc
  | @cons a b n as bs acc out merged _ ih =>
    have hn := merged (by
      rw [Context.fill_narrow, Rules.texts_append]
      simpa using hacc)
    rw [Context.fill_narrow] at hn
    exact ih (by simpa using hn)

theorem BlocksMerged.accepts {blocks : List (Block Node)} {acc out : List Node}
    (h : BlocksMerged (MergesAccepted R r) R r c blocks acc out)
    (hacc : R.Accepts (c.fill (r.texts acc ++ r.texts (blocks.flatMap Block.left)))) :
    R.Accepts (c.fill (r.texts out)) := by
  induction h with
  | nil acc => simpa using hacc
  | @pairs d blocks acc acc' out merged _ ih =>
    refine ih (merged.accepts ?_)
    rwa [List.flatMap_cons, Rules.texts_append] at hacc
  | @alternatives d blocks acc extra out added _ ih =>
    have hn := added.accepts (by
      rw [Context.fill_narrow, Rules.text_sequenceOf]
      simpa using hacc)
    rw [Context.fill_narrow] at hn
    exact ih (by simpa using hn)

/-- Merging by structure keeps the input accepted. -/
theorem StructureMerged.accepts (h : StructureMerged R r (MergesAccepted R r) a b c n) :
    MergesAccepted R r a b c n := by
  intro hacc
  cases h with
  | character => exact hacc
  | union =>
    rw [Rules.text_literal] at hacc ⊢
    exact hacc
  | unclassed => exact hacc
  | repetition either merged accepted =>
    rw [Rules.text_repetition]
    refine accepted _ ?_
    unfold Learner.trialCounts
    split
    · next hz => exact hz ▸ .head _
    · exact .head _
  | option => exact hacc
  | reference => exact hacc
  | blocks either other blocks =>
    rw [Rules.text_sequenceOf]
    refine blocks.accepts ?_
    rw [Rules.texts_nil, List.nil_append, Align.flatMap_left_blocks, Rules.texts_children]
    exact hacc

theorem MergeStep.accepts (h : MergeStep R r (MergesAccepted R r) a b c n) :
    MergesAccepted R r a b c n := by
  cases h with
  | same => exact id
  | merged h => exact h.accepts
  | alternate h => exact h.accepts

/-- **Acceptance.** Merging keeps the input of the first node accepted. -/
theorem Learner.merges_accepted (R : Replies) (m : Memory) (P : Node → Prop) (limits : Limits)
    (depth : Nat) :
    MergesInto R m P (mergeWithin limits depth) (MergesAccepted R m.rules) :=
  merge_induction (fun _ _ h => h.accepts) limits depth

/-- The texts of all branches of a node are accepted. -/
def AcceptsBranches (R : Replies) (r : Rules) (n : Node) : Prop :=
  ∀ b ∈ n.branches, R.Accepts (r.text b)

theorem acceptsBranches_of_not_alternation (h : ¬ a.IsAlternation)
    (hacc : R.Accepts (r.text a)) : AcceptsBranches R r a := by
  intro b hb
  rw [Node.branches_of_not_alternation h, List.mem_singleton] at hb
  rwa [hb]

/-- The branches of several options are the options. -/
theorem Node.branches_ofOptions {os : List Node} (h : os.length ≠ 1) :
    (ofOptions os).branches = os := by
  unfold ofOptions
  split
  · exact absurd rfl h
  · rfl

/-- A tidy sequence does not have exactly one part. -/
theorem Node.Tidy.length_children_ne_one (ha : a.Tidy done) (h : a.IsSequence) :
    a.children.length ≠ 1 := by
  obtain ⟨cs, rfl⟩ := h
  exact (Node.tidy_sequence.mp ha).1

/-- Sequences that are merged into a single alternation have become alternatives as a whole. -/
theorem BlocksMerged.alternated {os : List Node}
    (h : BlocksMerged (MergesAccepted R r) R r c (Align.blocks Node.key a.children b.children) []
      [Node.alternation os])
    (ha : a.Tidy done) (hb : b.Tidy done) (either : a.IsSequence ∨ b.IsSequence) :
    ∃ extra, Alternated R r a b (c.narrow [] []) extra ∧
      Node.alternation os = Node.ofOptions (a.branches ++ extra) := by
  have hin : ∀ d ∈ Align.blocks Node.key a.children b.children, Align.Inhabited d :=
    fun d hd => Align.inhabited_of_mem_blocks hd
  have hl := Align.flatMap_left_blocks Node.key a.children b.children
  have hr := Align.flatMap_right_blocks Node.key a.children b.children
  generalize Align.blocks Node.key a.children b.children = ds at h hin hl hr
  cases h with
  -- Pairs give as many nodes as a side has, and a sequence does not have just one child.
  | @pairs d rest _ acc' _ merged more =>
    obtain ⟨hd, hin⟩ := List.forall_mem_cons.mp hin
    obtain ⟨hlen, hacc'⟩ := merged.length_eq
    have hle := more.length_le hin
    have hpos : 0 < d.left.length := by
      rcases hd with hd | hd
      · exact List.length_pos_iff.mpr hd
      · exact hlen ▸ List.length_pos_iff.mpr hd
    rw [List.length_singleton] at hle
    rw [List.length_nil] at hacc'
    obtain rfl : rest = [] := List.length_eq_zero_iff.mp (by omega)
    rw [List.flatMap_cons, List.flatMap_nil, List.append_nil] at hl hr
    rcases either with hs | hs
    · exact absurd (by rw [← hl]; omega) (ha.length_children_ne_one hs)
    · exact absurd (by rw [← hr]; omega) (hb.length_children_ne_one hs)
  | @alternatives d rest _ extra _ added more =>
    -- Every block leaves a node behind, so this block is the only one.
    have hle := more.length_le (List.forall_mem_cons.mp hin).2
    rw [List.nil_append, List.length_singleton, List.length_singleton] at hle
    obtain rfl : rest = [] := List.length_eq_zero_iff.mp (by omega)
    rw [List.flatMap_cons, List.flatMap_nil, List.append_nil] at hl hr
    rw [hl, hr, ha.sequenceOf_children, hb.sequenceOf_children] at added
    rw [hl, ha.sequenceOf_children] at more
    rw [Rules.texts_nil, List.flatMap_nil, Rules.texts_nil] at added
    generalize hn : Node.ofOptions (a.branches ++ extra) = k at more
    cases more
    exact ⟨extra, added, hn.symm⟩

/-- Where two nodes are merged by their structure into an alternation, no branch is new but those
that are accepted. -/
theorem StructureMerged.acceptsBranches
    (h : StructureMerged R r (MergesAccepted R r) a b Context.whole n) (ha : a.Tidy done)
    (hb : b.Tidy done) (hna : ¬ a.IsAlternation) (hacc : R.Accepts (r.text a)) :
    AcceptsBranches R r n := by
  have hn := h.accepts
  rw [MergesAccepted, Context.fill_whole, Context.fill_whole] at hn
  by_cases halt : n.IsAlternation
  swap
  · exact acceptsBranches_of_not_alternation halt (hn hacc)
  cases h with
  | option => exact absurd ⟨_, rfl⟩ hna
  | @blocks _ _ _ merged either other blocks =>
    obtain ⟨os, rfl⟩ := Node.eq_of_isAlternation_sequenceOf halt
    obtain ⟨extra, added, heq⟩ := blocks.alternated ha hb either
    change AcceptsBranches R r (Node.alternation os)
    rw [Node.branches_of_not_alternation hna] at heq
    rw [heq]
    -- Without an addition the alternation would be the first node, which is none.
    have hlen : ([a] ++ extra).length ≠ 1 := by
      intro hone
      obtain rfl : extra = [] := by simpa using hone
      exact hna ⟨os, heq.symm⟩
    intro o ho
    rw [Node.branches_ofOptions hlen, List.singleton_append] at ho
    rcases List.mem_cons.mp ho with rfl | ho
    · exact hacc
    · simpa [Context.fill_narrow] using added.accepted o ho
  | _ => exact absurd halt (by rintro ⟨os, hos⟩; cases hos)

theorem TryMerged.accepts {existing tree : Node}
    (h : TryMerged R r (MergesAccepted R r) existing tree n)
    (hacc : R.Accepts (r.text existing)) : R.Accepts (r.text n) := by
  cases h with
  | same => exact hacc
  | merged _ accepted =>
    rcases accepted with heq | hn
    · rwa [heq]
    · exact hn

/-- **Acceptance of the root.** Merging an accepted tree into a root keeps all its branches
accepted. -/
theorem RootMerged.accepts {root tree : Node}
    (h : RootMerged R r (MergesAccepted R r) root tree n) (hroot : root.Tidy done)
    (ht : tree.Tidy done) (hacc : AcceptsBranches R r root) (htree : R.Accepts (r.text tree)) :
    AcceptsBranches R r n := by
  cases h with
  | @merged before after o k options h =>
    have ho : o ∈ root.branches := by simp [options]
    by_cases hlen : (before ++ k :: after).length = 1
    · -- The only option is the root itself.
      obtain ⟨rfl, rfl⟩ : before = [] ∧ after = [] := by
        rw [List.length_append, List.length_cons] at hlen
        exact ⟨List.length_eq_zero_iff.mp (by omega), List.length_eq_zero_iff.mp (by omega)⟩
      have hna : ¬ root.IsAlternation := by
        rintro ⟨os, rfl⟩
        have := (Node.tidy_alternation.mp hroot).1
        rw [show os = [o] from options] at this
        exact absurd this (by simp)
      obtain rfl : root = o := by
        rw [Node.branches_of_not_alternation hna] at options
        exact (List.cons.inj options).1
      change AcceptsBranches R r k
      cases h with
      | same => exact hacc
      | merged h _ => exact h.acceptsBranches hroot ht hna (hacc _ ho)
    · intro p hp
      rw [Node.branches_ofOptions hlen, List.mem_append, List.mem_cons] at hp
      rcases hp with hp | rfl | hp
      · exact hacc p (by simp [options, hp])
      · exact h.accepts (hacc o ho)
      · exact hacc p (by simp [options, hp])
  | known =>
    rw [hroot.ofOptions_branches]
    exact hacc
  | added =>
    have hpos := List.length_pos_iff.mpr hroot.branches_ne_nil
    intro p hp
    rw [Node.branches_ofOptions (by rw [List.length_append, List.length_singleton]; omega)] at hp
    rcases List.mem_append.mp hp with hp | hp
    · exact hacc p hp
    · rw [List.mem_singleton.mp hp]
      exact htree

end Merging

/-! ### Refining -/

section Refining

variable {R : Replies} {done : List Text}

/-- **Acceptance.** Refining keeps the input accepted. -/
theorem Refined.accepts : ∀ {n n' : Node} {c : Context} {m m' : Memory} {done : List Text},
    Refined R n c m n' m' → m.rules.Ordered done → n.Tidy done →
      R.Accepts (c.fill (m.rules.text n)) → R.Accepts (c.fill (m'.rules.text n'))
  | _, _, _, _, _, _, .same n c m, _, _, hacc => hacc
  | _, _, _, _, _, _, .sequence h, ho, hn, hacc => by
    rw [Rules.text_sequence] at hacc
    rw [Rules.text_sequenceOf]
    exact h.accepts ho.founded (fun c hc => (hn.children c hc).tidy.targets_subset) hacc
  | _, _, _, _, _, _, .alternation h hs, ho, hn, hacc => by
    obtain ⟨hfirst, hrest⟩ := List.forall_mem_cons.mp (Node.tidy_alternation.mp hn).2.2
    obtain ⟨done₁, hg₁, hfirst', _⟩ := h.grows ho hfirst
    obtain ⟨done₂, hg₂, _⟩ := hs.grows hg₁.ordered fun o ho => (hrest o ho).mono hg₁.subset
    rw [Rules.text_alternation] at hacc ⊢
    -- The other options may add rules, but the text of the first one stays.
    rw [hg₂.text_eq hg₁.ordered hfirst']
    exact h.accepts ho hfirst hacc
  | .repetition b x, .repetition b' _, _, _, _, _, .repetition h accepted, _, _, hacc => by
    rw [Rules.text_repetition] at hacc ⊢
    rcases accepted with heq | hbody
    · rwa [heq]
    · -- With a least count of zero there is no copy, whatever the body has become.
      rcases Nat.eq_zero_or_pos x.min with hz | hpos
      · rw [hz, Text.times_zero] at hacc ⊢
        exact hacc
      · rwa [Nat.max_eq_left hpos] at hbody
  | _, _, _, _, _, _, .body h, ho, hn, hacc => by
    obtain ⟨done', hg, _⟩ := h.grows ho (Node.tidy_repetition.mp hn).2
    rwa [hg.text_eq ho hn]

/-- Refined options are accepted if the options are. -/
theorem RefinedOptions.accepts {os os' : List Node} {c : Context} {m m' : Memory}
    (h : RefinedOptions R os c m os' m') (ho : m.rules.Ordered done)
    (hos : ∀ o ∈ os, o.Tidy done) (hacc : ∀ o ∈ os, R.Accepts (c.fill (m.rules.text o))) :
    ∀ o ∈ os', R.Accepts (c.fill (m'.rules.text o)) := by
  induction os generalizing os' m done with
  | nil =>
    cases h
    exact fun o ho => by cases ho
  | cons o rest ih =>
    cases h with
    | @cons _ refined kept _ others _ _ m₁ _ h hkept hs =>
      obtain ⟨hfirst, hrest⟩ := List.forall_mem_cons.mp hos
      obtain ⟨hfacc, hracc⟩ := List.forall_mem_cons.mp hacc
      obtain ⟨done₁, hg₁, hrefined, _⟩ := h.grows ho hfirst
      have hrest₁ : ∀ p ∈ rest, p.Tidy done₁ := fun p hp => (hrest p hp).mono hg₁.subset
      obtain ⟨done₂, hg₂, _⟩ := hs.grows hg₁.ordered hrest₁
      refine List.forall_mem_cons.mpr ⟨?_, ih hs hg₁.ordered hrest₁ fun p hp => ?_⟩
      · rcases hkept with rfl | ⟨rfl, hkacc⟩
        · rwa [(hg₁.trans hg₂).text_eq ho hfirst]
        · rwa [hg₂.text_eq hg₁.ordered hrefined]
      · rw [hg₁.text_eq ho (hrest p hp)]
        exact hracc p hp

/-- Refining a root keeps all its branches accepted. -/
theorem Refined.acceptsBranches {root out : Node} {m m' : Memory}
    (h : Refined R root Context.whole m out m') (ho : m.rules.Ordered done)
    (hroot : root.Tidy done) (hacc : AcceptsBranches R m.rules root) :
    AcceptsBranches R m'.rules out := by
  by_cases halt : root.IsAlternation
  · obtain ⟨os, rfl⟩ := halt
    cases h with
    | same => exact hacc
    | @alternation o first rest others _ _ m₁ _ h hs =>
      obtain ⟨hfirst, hrest⟩ := List.forall_mem_cons.mp (Node.tidy_alternation.mp hroot).2.2
      obtain ⟨hfacc, hracc⟩ := List.forall_mem_cons.mp hacc
      obtain ⟨done₁, hg₁, hfirst', _⟩ := h.grows ho hfirst
      have hrest₁ : ∀ p ∈ rest, p.Tidy done₁ := fun p hp => (hrest p hp).mono hg₁.subset
      obtain ⟨done₂, hg₂, _⟩ := hs.grows hg₁.ordered hrest₁
      refine List.forall_mem_cons.mpr ⟨?_, fun p hp => ?_⟩
      · rw [hg₂.text_eq hg₁.ordered hfirst']
        simpa using h.accepts ho hfirst (by simpa using hfacc)
      · -- Refining the first option has added rules; the texts of the other options are the same.
        have hothers := hs.accepts hg₁.ordered hrest₁ fun q hq => by
          rw [hg₁.text_eq ho (hrest q hq), Context.fill_whole]
          exact hracc q hq
        simpa using hothers p hp
  · have hroot_acc : R.Accepts (m.rules.text root) :=
      hacc root (by rw [Node.branches_of_not_alternation halt]; exact List.mem_singleton_self _)
    refine acceptsBranches_of_not_alternation (h.not_alternation hroot halt) ?_
    simpa using h.accepts ho hroot (by simpa using hroot_acc)

/-- **Acceptance of the root.** Passes over a root keep all its branches accepted. -/
theorem PassesRefined.accepts {root out : Node} {m m' : Memory}
    (h : PassesRefined R root m out m') (ho : m.rules.Ordered done) (hroot : root.Tidy done)
    (hacc : AcceptsBranches R m.rules root) : AcceptsBranches R m'.rules out := by
  induction h generalizing done with
  | done => exact hacc
  | stop h =>
    obtain ⟨done', hg, _⟩ := h.grows ho hroot
    intro b hb
    rw [hg.text_eq ho (hroot.branches b hb)]
    exact hacc b hb
  | pass h _ _ ih =>
    obtain ⟨done₁, hg, hrefined, _⟩ := h.grows ho hroot
    exact ih hg.ordered hrefined (h.acceptsBranches ho hroot hacc)

end Refining

end GrammarInference
