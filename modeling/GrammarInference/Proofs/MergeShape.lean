import GrammarInference.Proofs.Merging

/-!
# The shape of merged nodes

What holds throughout two nodes holds throughout what they are merged into, if it does not depend on
the parts of a node and united classes keep it (`Node.Unites.merges_throughout`).

Merging tidy nodes gives a tidy node, which is empty only if both nodes are (`Node.MergesTidy`). The
classes of characters stay classes of characters when they are united, every block of an
alignment has a node on one side at least, and alternatives are never all empty.
-/

namespace GrammarInference

/-! ### Classes -/

/-- Checks of united classes are checks of one of them. -/
theorem CharClass.mem_checks_union {a b : CharClass} {n : Int} {s : Symbol}
    (h : s ∈ (a.union b n).checks) : s ∈ a.checks ∨ s ∈ b.checks := by
  have h : s ∈ Text.distinct (a.checks ++ b.checks) := by
    simp only [CharClass.union, Text.takeSigned] at h
    split at h <;> exact List.mem_of_mem_take h
  exact List.mem_append.mp (Text.mem_distinct.mp h)

theorem CharClass.mem_characters_union {a b : CharClass} {n : Int} {s : Symbol} :
    s ∈ (a.union b n).characters ↔ s ∈ a.characters ∨ s ∈ b.characters := by
  simp [CharClass.union]

/-- The union of classes of characters is one. -/
theorem CharClass.Regular.union {a b : CharClass} (ha : a.Regular) (hb : b.Regular) (n : Int) :
    (a.union b n).Regular where
  single s hs := by
    rcases List.mem_append.mp (Symbol.mem_setOf.mp hs) with hs | hs
    · exact ha.single s hs
    · exact hb.single s hs
  ordered := a.pairwise_characters_union b n
  triggered := by rw [CharClass.union, ha.triggered, hb.triggered]
  checked s hs := mem_characters_union.mpr
    ((mem_checks_union hs).imp (fun hs => ha.checked hs) fun hs => hb.checked hs)

theorem Literal.regular_single {x : Char} {k : CharClass} :
    (Literal.single x k).Regular ↔ k.Regular ∧ Symbol.ofChar x ∈ k.characters := by
  constructor
  · rintro ⟨y, k', h, hk, hy⟩
    simp only [Literal.single, Literal.mk.injEq, List.cons.injEq, Option.some.injEq, and_true] at h
    obtain ⟨rfl, rfl⟩ := h
    exact ⟨hk, hy⟩
  · rintro ⟨hk, hx⟩
    exact ⟨x, k, rfl, hk, hx⟩

/-- The union of classes of single characters is one. -/
theorem CharClass.OfCharacters.union {a b : CharClass} (ha : a.OfCharacters)
    (hb : b.OfCharacters) (n : Int) : (a.union b n).OfCharacters where
  characters s hs := (mem_characters_union.mp hs).elim (ha.characters s) (hb.characters s)
  checks s hs := (mem_checks_union hs).elim (ha.checks s) (hb.checks s)

/-! ### Conditions that merging keeps -/

/-- A condition on single nodes that merging cannot break: any sequence, alternation or repetition
meets it, and a character with united classes meets it where it did with each of them. -/
structure Node.Unites (P : Node → Prop) : Prop where
  /-- Sequences meet the condition. -/
  sequence : ∀ cs, P (.sequence cs)
  /-- Alternations meet the condition. -/
  alternation : ∀ os, P (.alternation os)
  /-- Repetitions meet the condition. -/
  repetition : ∀ b x, P (.repetition b x)
  /-- Classes may be united. -/
  union : ∀ {x y ka kb}, P (.literal (.single x ka)) → P (.literal (.single y kb)) →
    ∀ n, P (.literal (.single x (ka.union kb n)))

/-- What merging keeps of a condition: the outcome meets it throughout. -/
def MergesThroughout (P : Node → Prop) (_ _ : Node) (_ : Context) (n : Node) : Prop :=
  n.Throughout P

namespace Node.Unites

variable {P : Node → Prop} {R : Replies} {r : Rules} {a b n : Node} {c : Context}

theorem throughout_sequenceOf (hP : Unites P) {ns : List Node} (h : ∀ n ∈ ns, n.Throughout P) :
    (sequenceOf ns).Throughout P := by
  unfold sequenceOf
  split
  · exact h _ (.head _)
  · exact throughout_sequence.mpr ⟨hP.sequence _, h⟩

theorem throughout_ofOptions (hP : Unites P) {os : List Node} (h : ∀ o ∈ os, o.Throughout P) :
    (ofOptions os).Throughout P := by
  unfold ofOptions
  split
  · exact h _ (.head _)
  · exact throughout_alternation.mpr ⟨hP.alternation _, h⟩

theorem throughout_alternated (hP : Unites P) {extra : List Node}
    (h : Alternated R r a b c extra) (ha : a.Throughout P) (hb : b.Throughout P) :
    (ofOptions (a.branches ++ extra)).Throughout P := by
  refine hP.throughout_ofOptions (List.forall_mem_append.mpr ⟨ha.branches, fun o ho => ?_⟩)
  exact hb.branches o (h.mem o ho)

theorem throughout_pairsMerged {rest as bs acc out : List Node}
    (h : PairsMerged (MergesThroughout P) r c rest as bs acc out)
    (hacc : ∀ n ∈ acc, n.Throughout P) : ∀ n ∈ out, n.Throughout P := by
  induction h with
  | nil acc => exact hacc
  | cons merged _ ih =>
    exact ih (List.forall_mem_append.mpr ⟨hacc, List.forall_mem_singleton.mpr merged⟩)

theorem throughout_blocksMerged (hP : Unites P) {blocks : List (Block Node)}
    {acc out : List Node} (h : BlocksMerged (MergesThroughout P) R r c blocks acc out)
    (hleft : ∀ d ∈ blocks, ∀ n ∈ d.left, n.Throughout P)
    (hright : ∀ d ∈ blocks, ∀ n ∈ d.right, n.Throughout P) (hacc : ∀ n ∈ acc, n.Throughout P) :
    ∀ n ∈ out, n.Throughout P := by
  induction h with
  | nil acc => exact hacc
  | pairs merged _ ih =>
    exact ih (List.forall_mem_cons.mp hleft).2 (List.forall_mem_cons.mp hright).2
      (throughout_pairsMerged merged hacc)
  | alternatives added _ ih =>
    obtain ⟨hl, hleft⟩ := List.forall_mem_cons.mp hleft
    obtain ⟨hr, hright⟩ := List.forall_mem_cons.mp hright
    have hn := hP.throughout_alternated added (hP.throughout_sequenceOf hl)
      (hP.throughout_sequenceOf hr)
    exact ih hleft hright (List.forall_mem_append.mpr ⟨hacc, List.forall_mem_singleton.mpr hn⟩)

theorem throughout_structureMerged (hP : Unites P)
    (h : StructureMerged R r (MergesThroughout P) a b c n) (ha : a.Throughout P)
    (hb : b.Throughout P) : n.Throughout P := by
  cases h with
  | union maxChecks =>
    exact throughout_literal.mpr
      (hP.union (throughout_literal.mp ha) (throughout_literal.mp hb) maxChecks)
  | repetition _ merged => exact throughout_repetition.mpr ⟨hP.repetition _ _, merged⟩
  | blocks _ _ blocks =>
    obtain ⟨hleft, hright⟩ := Align.forall_mem_blocks Node.key ha.children hb.children
    exact hP.throughout_sequenceOf (hP.throughout_blocksMerged blocks hleft hright (by simp))
  | _ => exact ha

theorem throughout_mergeStep (hP : Unites P) (ha : a.Throughout P) (hb : b.Throughout P)
    (h : MergeStep R r (MergesThroughout P) a b c n) : n.Throughout P := by
  cases h with
  | same => exact ha
  | merged h => exact hP.throughout_structureMerged h ha hb
  | alternate h => exact hP.throughout_alternated h ha hb

/-- **Conditions.** What merging cannot break holds throughout every merged node. -/
theorem merges_throughout (hP : Unites P) (R : Replies) (m : Memory) (limits : Limits)
    (depth : Nat) :
    Learner.MergesInto R m P (Learner.mergeWithin limits depth) (MergesThroughout P) :=
  Learner.merge_induction (fun ha hb h => hP.throughout_mergeStep ha hb h) limits depth

end Node.Unites

/-! ### Blocks -/

namespace Align

variable {α κ : Type} [DecidableEq κ]

/-- A longest common stretch that is not empty starts in the first list. -/
theorem start_lt_of_longest {xs ys : List κ} (h : (longest xs ys).length ≠ 0) :
    (longest xs ys).start < xs.length := by
  unfold longest at h ⊢
  have key : ∀ (ss : List Stretch) (best : Stretch),
      (∀ s ∈ ss, s.start < xs.length) → (best.length ≠ 0 → best.start < xs.length) →
      (ss.foldl (fun best s => if best.length < s.length then s else best) best).length ≠ 0 →
      (ss.foldl (fun best s => if best.length < s.length then s else best) best).start
        < xs.length := by
    intro ss
    induction ss with
    | nil => exact fun best _ hb h => hb h
    | cons s rest ih =>
      intro best hss hbest h
      refine ih _ (fun q hq => hss q (.tail _ hq)) (fun hne => ?_) h
      dsimp only at hne ⊢
      split
      · exact hss s (.head _)
      · next hlt =>
        rw [if_neg hlt] at hne
        exact hbest hne
  refine key _ _ (fun s hs => ?_) (fun hne => absurd rfl hne) h
  obtain ⟨i, hi, hs⟩ := List.mem_flatMap.mp hs
  obtain ⟨j, _, rfl⟩ := List.mem_map.mp hs
  exact List.mem_range.mp hi

/-- There is something in every block. -/
def Inhabited (b : Block α) : Prop := b.left ≠ [] ∨ b.right ≠ []

theorem inhabited_of_mem_gap {xs ys : List α} {b : Block α} (h : b ∈ gap xs ys) : Inhabited b := by
  unfold gap at h
  split at h
  · cases h
  · next hne =>
    rw [List.mem_singleton.mp h]
    simpa [Inhabited, -not_and, Classical.not_and_iff_not_or_not] using hne

theorem inhabited_of_mem_blocksWithin {key : α → κ} {depth : Nat} {xs ys : List α} {b : Block α}
    (h : b ∈ blocksWithin key depth xs ys) : Inhabited b := by
  induction depth generalizing xs ys with
  | zero => exact inhabited_of_mem_gap h
  | succ depth ih =>
    simp only [blocksWithin] at h
    split at h
    · exact inhabited_of_mem_gap h
    · next hlen =>
      rcases List.mem_append.mp h with h | h
      · exact ih h
      · rcases List.mem_cons.mp h with rfl | h
        · have hstart := start_lt_of_longest hlen
          rw [List.length_map] at hstart
          refine .inl fun hnil => ?_
          have := congrArg List.length hnil
          rw [List.length_take, List.length_drop, List.length_nil] at this
          omega
        · exact ih h

theorem inhabited_consBlock {b : Block α} {bs : List (Block α)} (hb : Inhabited b)
    (hbs : ∀ d ∈ bs, Inhabited d) : ∀ d ∈ consBlock b bs, Inhabited d := by
  cases bs with
  | nil => exact List.forall_mem_singleton.mpr hb
  | cons d rest =>
    obtain ⟨_, hrest⟩ := List.forall_mem_cons.mp hbs
    simp only [consBlock]
    split
    · refine List.forall_mem_cons.mpr ⟨?_, hrest⟩
      rcases hb with hb | hb
      · exact .inl (by simp [hb])
      · exact .inr (by simp [hb])
    · exact List.forall_mem_cons.mpr ⟨hb, hbs⟩

/-- Every block of an alignment has an entry on one side at least. -/
theorem inhabited_of_mem_blocks {key : α → κ} {xs ys : List α} {b : Block α}
    (h : b ∈ blocks key xs ys) : Inhabited b := by
  have key : ∀ bs : List (Block α), (∀ d ∈ bs, Inhabited d) →
      ∀ d ∈ bs.foldr consBlock [], Inhabited d := by
    intro bs
    induction bs with
    | nil => exact fun _ d hd => by cases hd
    | cons d rest ih =>
      intro hbs
      obtain ⟨hd, hrest⟩ := List.forall_mem_cons.mp hbs
      exact inhabited_consBlock hd (ih hrest)
  exact key _ (fun d hd => inhabited_of_mem_blocksWithin hd) b h

end Align

/-! ### Alternatives -/

namespace Node

variable {done : List Text}

theorem tidy_ofOptions {os : List Node} (hne : os ≠ [])
    (hsome : 2 ≤ os.length → ∃ o ∈ os, o ≠ empty) (h : ∀ o ∈ os, o.Tidy done) :
    (ofOptions os).Tidy done := by
  unfold ofOptions
  split
  · next n => exact h n (.head _)
  · next hone =>
    have hlen : 2 ≤ os.length := by
      rcases os with _ | ⟨o, _ | ⟨p, ps⟩⟩
      · exact absurd rfl hne
      · exact absurd rfl (hone o)
      · simp
    exact tidy_alternation.mpr ⟨hlen, hsome hlen, h⟩

theorem ofOptions_ne_empty {os : List Node} (h : 2 ≤ os.length) : ofOptions os ≠ empty := by
  unfold ofOptions
  split
  · cases h with
    | step h => cases h
  · simp [empty]

/-- The branches of a tidy node as options are the node itself. -/
theorem Tidy.ofOptions_branches {n : Node} (h : n.Tidy done) : ofOptions n.branches = n := by
  cases n with
  | alternation os =>
    unfold ofOptions Node.branches
    split
    · next m hm =>
      rw [show os = [m] from hm] at h
      exact absurd (tidy_alternation.mp h).1 (by simp)
    · rfl
  | _ => rfl

/-- A node with two branches is an alternation of several options, one of which is not empty. -/
theorem Tidy.exists_branch {n : Node} (h : n.Tidy done) (hlen : 2 ≤ n.branches.length) :
    ∃ b ∈ n.branches, b ≠ empty := by
  cases n with
  | alternation os => exact (tidy_alternation.mp h).2.1
  | _ => exact absurd hlen (by simp [Node.branches])

/-- What merging keeps of the shape: the outcome is tidy, and empty only if both nodes are. -/
def MergesTidy (done : List Text) (a b : Node) (_ : Context) (n : Node) : Prop :=
  n.Tidy done ∧ (n = empty → a = empty ∧ b = empty)

end Node

section Shape

variable {R : Replies} {r : Rules} {done : List Text} {a b n : Node} {c : Context}

theorem Alternated.mergesTidy {extra : List Node} (h : Alternated R r a b c extra)
    (ha : a.Tidy done) (hb : b.Tidy done) :
    Node.MergesTidy done a b c (Node.ofOptions (a.branches ++ extra)) := by
  have hsome : 2 ≤ (a.branches ++ extra).length → ∃ o ∈ a.branches ++ extra, o ≠ Node.empty := by
    intro hlen
    by_cases hae : a = Node.empty
    · subst hae
      obtain ⟨o, ho⟩ : ∃ o, o ∈ extra := by
        rcases extra with _ | ⟨o, rest⟩
        · exact absurd hlen (by simp [Node.branches, Node.empty])
        · exact ⟨o, .head _⟩
      refine ⟨o, List.mem_append_right _ ho, ?_⟩
      rintro rfl
      exact h.new _ ho (List.mem_singleton_self _)
    · obtain ⟨o, ho, hne⟩ := Node.Part.exists_branch ⟨hae, ha⟩
      exact ⟨o, List.mem_append_left _ ho, hne⟩
  have hne : a.branches ++ extra ≠ [] := by simp [ha.branches_ne_nil]
  refine ⟨Node.tidy_ofOptions hne hsome ?_, fun he => ?_⟩
  · intro o ho
    rcases List.mem_append.mp ho with ho | ho
    · exact ha.branches o ho
    · exact hb.branches o (h.mem o ho)
  · have hshort : ¬ 2 ≤ (a.branches ++ extra).length :=
      fun hlen => Node.ofOptions_ne_empty hlen he
    have hone : 1 ≤ a.branches.length := List.length_pos_iff.mpr ha.branches_ne_nil
    rw [List.length_append] at hshort
    obtain rfl : extra = [] := List.length_eq_zero_iff.mp (by omega)
    rw [List.append_nil, ha.ofOptions_branches] at he
    refine ⟨he, ?_⟩
    -- An empty `a` has only itself as a branch, and all branches of `b` are among these.
    by_contra hbe
    obtain ⟨o, ho, hoe⟩ := Node.Part.exists_branch ⟨hbe, hb⟩
    have := h.all o ho
    rw [he] at this
    exact hoe (by simpa [Node.branches, Node.empty] using this)

/-- Pairs are as many on both sides, and each gives one node. -/
theorem PairsMerged.length_eq {M : Node → Node → Context → Node → Prop}
    {rest as bs acc out : List Node} (h : PairsMerged M r c rest as bs acc out) :
    as.length = bs.length ∧ out.length = acc.length + as.length := by
  induction h with
  | nil acc => exact ⟨rfl, rfl⟩
  | cons _ _ ih =>
    obtain ⟨hlen, hout⟩ := ih
    rw [List.length_append, List.length_singleton] at hout
    simp only [List.length_cons]
    omega

theorem PairsMerged.parts {rest as bs acc out : List Node}
    (h : PairsMerged (Node.MergesTidy done) r c rest as bs acc out)
    (has : ∀ a ∈ as, a.Part done) (hacc : ∀ n ∈ acc, n.Part done) : ∀ n ∈ out, n.Part done := by
  induction h with
  | nil acc => exact hacc
  | @cons a b n as bs acc out merged _ ih =>
    obtain ⟨hn, hempty⟩ := merged
    have ⟨ha, has⟩ := List.forall_mem_cons.mp has
    refine ih has fun k hk => ?_
    rcases List.mem_append.mp hk with hk | hk
    · exact hacc k hk
    · rw [List.mem_singleton.mp hk]
      exact ⟨fun he => ha.ne_empty (hempty he).1, hn⟩

/-- Every block gives at least one node. -/
theorem BlocksMerged.length_le {M : Node → Node → Context → Node → Prop}
    {blocks : List (Block Node)} {acc out : List Node}
    (h : BlocksMerged M R r c blocks acc out) (hin : ∀ d ∈ blocks, Align.Inhabited d) :
    acc.length + blocks.length ≤ out.length := by
  induction h with
  | nil acc => exact Nat.le_refl _
  | @pairs d blocks acc acc' out merged _ ih =>
    obtain ⟨hd, hin⟩ := List.forall_mem_cons.mp hin
    obtain ⟨hlen, hacc'⟩ := merged.length_eq
    have hpos : 0 < d.left.length := by
      rcases hd with hd | hd
      · exact List.length_pos_iff.mpr hd
      · exact hlen ▸ List.length_pos_iff.mpr hd
    have := ih hin
    rw [List.length_cons]
    omega
  | alternatives _ _ ih =>
    have := ih (List.forall_mem_cons.mp hin).2
    rw [List.length_append, List.length_singleton] at this
    rw [List.length_cons]
    omega

/-- Alternatives from the sides of a block that has something in it are not empty. -/
theorem Alternated.part {d : Block Node} {extra : List Node}
    (h : Alternated R r (Node.sequenceOf d.left) (Node.sequenceOf d.right) c extra)
    (hd : Align.Inhabited d) (hleft : ∀ n ∈ d.left, n.Part done)
    (hright : ∀ n ∈ d.right, n.Part done) :
    (Node.ofOptions ((Node.sequenceOf d.left).branches ++ extra)).Part done := by
  obtain ⟨hn, hempty⟩ := h.mergesTidy (Node.tidy_sequenceOf hleft) (Node.tidy_sequenceOf hright)
  refine ⟨fun he => ?_, hn⟩
  rcases hd with hd | hd
  · exact (Node.part_sequenceOf hd hleft).ne_empty (hempty he).1
  · exact (Node.part_sequenceOf hd hright).ne_empty (hempty he).2

theorem BlocksMerged.parts {blocks : List (Block Node)} {acc out : List Node}
    (h : BlocksMerged (Node.MergesTidy done) R r c blocks acc out)
    (hin : ∀ d ∈ blocks, Align.Inhabited d)
    (hleft : ∀ d ∈ blocks, ∀ n ∈ d.left, n.Part done)
    (hright : ∀ d ∈ blocks, ∀ n ∈ d.right, n.Part done) (hacc : ∀ n ∈ acc, n.Part done) :
    ∀ n ∈ out, n.Part done := by
  induction h with
  | nil acc => exact hacc
  | @pairs d blocks acc acc' out merged _ ih =>
    obtain ⟨_, hin⟩ := List.forall_mem_cons.mp hin
    obtain ⟨hdl, hleft⟩ := List.forall_mem_cons.mp hleft
    obtain ⟨_, hright⟩ := List.forall_mem_cons.mp hright
    exact ih hin hleft hright (merged.parts hdl hacc)
  | @alternatives d blocks acc extra out added _ ih =>
    obtain ⟨hd, hin⟩ := List.forall_mem_cons.mp hin
    obtain ⟨hdl, hleft⟩ := List.forall_mem_cons.mp hleft
    obtain ⟨hdr, hright⟩ := List.forall_mem_cons.mp hright
    refine ih hin hleft hright fun k hk => ?_
    rcases List.mem_append.mp hk with hk | hk
    · exact hacc k hk
    · rw [List.mem_singleton.mp hk]
      exact added.part hd hdl hdr

/-- Nodes that are merged by their structure give a tidy node. -/
theorem StructureMerged.mergesTidy (h : StructureMerged R r (Node.MergesTidy done) a b c n)
    (ha : a.Tidy done) (hb : b.Tidy done) : Node.MergesTidy done a b c n := by
  cases h with
  | character x y k => exact ⟨ha, fun h => by simp [Node.empty] at h⟩
  | union maxChecks overlap accepted =>
    obtain ⟨hka, hx⟩ := Literal.regular_single.mp (Node.tidy_literal.mp ha)
    obtain ⟨hkb, _⟩ := Literal.regular_single.mp (Node.tidy_literal.mp hb)
    refine ⟨Node.tidy_literal.mpr (Literal.regular_single.mpr ⟨hka.union hkb _, ?_⟩),
      fun h => by simp [Node.empty] at h⟩
    exact Symbol.mem_setOf.mpr (List.mem_append_left _ hx)
  | @repetition _ _ body _ either merged accepted =>
    have hmax : ∀ {n : Node}, n.Tidy done → (Learner.asRepetition n).2.max = none := by
      intro n hn
      cases n with
      | repetition b x => exact (Node.tidy_repetition.mp hn).1
      | _ => rfl
    refine ⟨Node.tidy_repetition.mpr ⟨?_, merged.1⟩, fun h => by simp [Node.empty] at h⟩
    simp [Bounds.hull, hmax ha]
  | option mem => exact ⟨ha, fun h => by simp [Node.empty] at h⟩
  | unclassed text => exact ⟨ha, fun h => by simp [Node.empty] at h⟩
  | reference same => exact ⟨ha, fun h => by simp [Node.empty] at h⟩
  | @blocks _ _ _ merged either other blocks =>
    obtain ⟨hleft, hright⟩ := ha.parts_of_blocks hb
    have hin : ∀ d ∈ Align.blocks Node.key a.children b.children, Align.Inhabited d :=
      fun d hd => Align.inhabited_of_mem_blocks hd
    have hparts := blocks.parts hin hleft hright (by simp)
    have hlen := blocks.length_le hin
    refine ⟨Node.tidy_sequenceOf hparts, fun he => ?_⟩
    -- Without nodes in the outcome there are no blocks, and no parts on either side.
    have hnil : merged = [] := by
      by_contra hne
      exact (Node.part_sequenceOf hne hparts).ne_empty he
    have hblocks : Align.blocks Node.key a.children b.children = [] := by
      rw [hnil, List.length_nil] at hlen
      exact List.length_eq_zero_iff.mp (by omega)
    have hachildren : a.children = [] := by
      rw [← Align.flatMap_left_blocks Node.key a.children b.children, hblocks, List.flatMap_nil]
    have hbchildren : b.children = [] := by
      rw [← Align.flatMap_right_blocks Node.key a.children b.children, hblocks, List.flatMap_nil]
    rw [← ha.sequenceOf_children, ← hb.sequenceOf_children, hachildren, hbchildren]
    exact ⟨rfl, rfl⟩

theorem MergeStep.mergesTidy (ha : a.Tidy done) (hb : b.Tidy done)
    (h : MergeStep R r (Node.MergesTidy done) a b c n) : Node.MergesTidy done a b c n := by
  cases h with
  | same h => exact ⟨ha, fun he => ⟨he, h ▸ he⟩⟩
  | merged h => exact h.mergesTidy ha hb
  | alternate h => exact h.mergesTidy ha hb

theorem TryMerged.mergesTidy {existing tree : Node}
    (h : TryMerged R r (Node.MergesTidy done) existing tree n) (he : existing.Tidy done)
    (ht : tree.Tidy done) : Node.MergesTidy done existing tree Context.whole n := by
  cases h with
  | same h => exact ⟨he, fun hempty => ⟨hempty, h ▸ hempty⟩⟩
  | merged h _ => exact h.mergesTidy he ht

/-- **Shape of the root.** Merging a tree into a tidy root gives a tidy root. -/
theorem RootMerged.tidy {root tree : Node} (h : RootMerged R r (Node.MergesTidy done) root tree n)
    (hroot : root.Tidy done) (ht : tree.Tidy done) : n.Tidy done := by
  have hbranches := hroot.branches
  cases h with
  | @merged before after o k options h =>
    rw [options] at hbranches
    obtain ⟨hk, hempty⟩ := h.mergesTidy (hbranches o (by simp)) ht
    refine Node.tidy_ofOptions (by simp) (fun hlen => ?_) fun p hp => ?_
    · -- An option that is not empty stays, or is merged into one that is not empty.
      obtain ⟨p, hp, hne⟩ := hroot.exists_branch (by rw [options]; simpa using hlen)
      rw [options, List.mem_append, List.mem_cons] at hp
      rcases hp with hp | rfl | hp
      · exact ⟨p, by simp [hp], hne⟩
      · exact ⟨k, by simp, fun he => hne (hempty he).1⟩
      · exact ⟨p, by simp [hp], hne⟩
    · rw [List.mem_append, List.mem_cons] at hp
      rcases hp with hp | rfl | hp
      · exact hbranches p (by simp [hp])
      · exact hk
      · exact hbranches p (by simp [hp])
  | known mem =>
    rw [hroot.ofOptions_branches]
    exact hroot
  | added new =>
    refine Node.tidy_ofOptions (by simp) (fun _ => ?_) fun p hp => ?_
    · by_cases he : root = Node.empty
      · subst he
        refine ⟨tree, by simp, ?_⟩
        rintro rfl
        exact new (List.mem_singleton_self _)
      · obtain ⟨p, hp, hne⟩ := Node.Part.exists_branch ⟨he, hroot⟩
        exact ⟨p, by simp [hp], hne⟩
    · rcases List.mem_append.mp hp with hp | hp
      · exact hbranches p hp
      · rw [List.mem_singleton.mp hp]
        exact ht

end Shape

end GrammarInference
