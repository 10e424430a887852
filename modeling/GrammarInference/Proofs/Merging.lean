import GrammarInference.Learn.Merge
import GrammarInference.Proofs.Outcomes
import GrammarInference.Proofs.Restructuring

/-!
# What merging two nodes can lead to

Merging leaves the memory as it is, so that its outcome is described for one rule table. What one
step of a merge can lead to is `MergeStep`, over a relation for the merges inside it. A relation
that holds of every outcome of a step if it holds of the merges inside holds of all merges
(`Learner.merge_induction`): this is the only induction over merges, and everything that merging
keeps is proved by it.

Which nodes are merged is a parameter: `P` is a condition that holds throughout both, and with them
throughout the parts of them that are merged. The shape of learned nodes is one such condition, but
nothing here depends on it.
-/

namespace GrammarInference

/-- The options of `b` that `a` does not have yet are accepted in a context. -/
structure Alternated (R : Replies) (r : Rules) (a b : Node) (c : Context)
    (extra : List Node) : Prop where
  /-- They are options of `b`. -/
  mem : ∀ o ∈ extra, o ∈ b.branches
  /-- They are new. -/
  new : ∀ o ∈ extra, o ∉ a.branches
  /-- No option is left out. -/
  all : ∀ o ∈ b.branches, o ∈ a.branches ++ extra
  /-- They are accepted. -/
  accepted : ∀ o ∈ extra, R.Accepts (c.fill (r.text o))

section Lists

variable (M : Node → Node → Context → Node → Prop) (R : Replies) (r : Rules) (c : Context)

/-- Nodes of two lists are merged pairwise; `done` precedes them and `rest` follows. -/
inductive PairsMerged (rest : List Node) :
    List Node → List Node → List Node → List Node → Prop
  /-- No pair is left. -/
  | nil (done : List Node) : PairsMerged rest [] [] done done
  /-- A pair is merged where it stands. -/
  | cons {a b n : Node} {as bs done out : List Node}
    (merged : M a b (c.narrow (r.texts done) (r.texts (as ++ rest))) n)
    (more : PairsMerged rest as bs (done ++ [n]) out) : PairsMerged rest (a :: as) (b :: bs) done out

/-- The blocks of an alignment are merged one after another. -/
inductive BlocksMerged : List (Block Node) → List Node → List Node → Prop
  /-- No block is left. -/
  | nil (done : List Node) : BlocksMerged [] done done
  /-- A block is merged pairwise. -/
  | pairs {b : Block Node} {blocks : List (Block Node)} {done done' out : List Node}
    (merged : PairsMerged M r c (blocks.flatMap Block.left) b.left b.right done done')
    (more : BlocksMerged blocks done' out) : BlocksMerged (b :: blocks) done out
  /-- The sides of a block become alternatives. -/
  | alternatives {b : Block Node} {blocks : List (Block Node)} {done extra out : List Node}
    (added : Alternated R r (Node.sequenceOf b.left) (Node.sequenceOf b.right)
      (c.narrow (r.texts done) (r.texts (blocks.flatMap Block.left))) extra)
    (more : BlocksMerged blocks
      (done ++ [Node.ofOptions ((Node.sequenceOf b.left).branches ++ extra)]) out) :
    BlocksMerged (b :: blocks) done out

end Lists

/-- Two names stand for the same rule, up to the name itself. -/
def Rules.Same (r : Rules) (s t : Text) : Prop :=
  s = t ∨ ∃ rule, r.get? t = some rule ∧ r.get? s = some (rule.rename t s)

/-- What merging two nodes by their structure can lead to. -/
inductive StructureMerged (R : Replies) (r : Rules) (M : Node → Node → Context → Node → Prop) :
    Node → Node → Context → Node → Prop
  /-- Characters with one class. -/
  | character (x y : Char) (k : CharClass) (c : Context) :
    StructureMerged R r M (.literal (.single x k)) (.literal (.single y k)) c
      (.literal (.single x k))
  /-- The classes of two characters are united. -/
  | union {x y : Char} {ka kb : CharClass} {c : Context} (maxChecks : Int)
    (overlap : ka.overlaps kb = true)
    (accepted : ∀ s, s ∈ kb.checks ∨ s = Symbol.ofChar y → s ∉ ka.characters →
      R.Accepts (c.fill s.toText)) :
    StructureMerged R r M (.literal (.single x ka)) (.literal (.single y kb)) c
      (.literal (.single x (ka.union kb maxChecks)))
  /-- The same character, one of them without a class. -/
  | unclassed {a b : Literal} (text : a.text = b.text) (class? : none ∈ a.positions ++ b.positions)
    (c : Context) : StructureMerged R r M (.literal a) (.literal b) c (.literal a)
  /-- The bodies of repetitions are merged, and the range covers both. -/
  | repetition {a b body : Node} {c : Context} (either : a.IsRepetition ∨ b.IsRepetition)
    (merged : M (Learner.asRepetition a).1 (Learner.asRepetition b).1
      (c.narrow [] (Text.times (r.text (Learner.asRepetition a).1)
        (max (Learner.asRepetition a).2.min 1 - 1))) body)
    (accepted : ∀ k ∈ Learner.trialCounts ((Learner.asRepetition a).2.hull
        (Learner.asRepetition b).2).min, R.Accepts (c.fill (Text.times (r.text body) k))) :
    StructureMerged R r M a b c
      (.repetition body ((Learner.asRepetition a).2.hull (Learner.asRepetition b).2))
  /-- A node that is an option already. -/
  | option {os : List Node} {b : Node} (mem : b ∈ os) (c : Context) :
    StructureMerged R r M (.alternation os) b c (.alternation os)
  /-- References to the same rule. -/
  | reference {s t : Text} (same : r.Same s t) (c : Context) :
    StructureMerged R r M (.recursive s) (.recursive t) c (.recursive s)
  /-- Sequences are aligned. -/
  | blocks {a b : Node} {c : Context} {merged : List Node} (either : a.IsSequence ∨ b.IsSequence)
    (other : ¬ a.IsAlternation)
    (blocks : BlocksMerged M R r c (Align.blocks Node.key a.children b.children) [] merged) :
    StructureMerged R r M a b c (Node.sequenceOf merged)

/-- What one step of a merge can lead to. -/
inductive MergeStep (R : Replies) (r : Rules) (M : Node → Node → Context → Node → Prop)
    (a b : Node) (c : Context) : Node → Prop
  /-- Equal nodes. -/
  | same (h : a = b) : MergeStep R r M a b c a
  /-- By their structure. -/
  | merged {n : Node} (h : StructureMerged R r M a b c n) : MergeStep R r M a b c n
  /-- As alternatives. -/
  | alternate {extra : List Node} (h : Alternated R r a b c extra) :
    MergeStep R r M a b c (Node.ofOptions (a.branches ++ extra))

/-- The nodes in the blocks of an alignment are parts of the aligned nodes. -/
theorem Align.forall_mem_blocks {κ : Type} [DecidableEq κ] (key : Node → κ) {P : Node → Prop}
    {as bs : List Node} (has : ∀ a ∈ as, P a) (hbs : ∀ b ∈ bs, P b) :
    (∀ d ∈ Align.blocks key as bs, ∀ n ∈ d.left, P n) ∧
      ∀ d ∈ Align.blocks key as bs, ∀ n ∈ d.right, P n := by
  refine ⟨fun d hd n hn => has n ?_, fun d hd n hn => hbs n ?_⟩
  · rw [← Align.flatMap_left_blocks key as bs]
    exact List.mem_flatMap.mpr ⟨d, hd, hn⟩
  · rw [← Align.flatMap_right_blocks key as bs]
    exact List.mem_flatMap.mpr ⟨d, hd, hn⟩

/-- The nodes in the blocks of an alignment of tidy nodes are parts. -/
theorem Node.Tidy.parts_of_blocks {done : List Text} {a b : Node} (ha : a.Tidy done)
    (hb : b.Tidy done) :
    (∀ d ∈ Align.blocks Node.key a.children b.children, ∀ n ∈ d.left, n.Part done) ∧
      ∀ d ∈ Align.blocks Node.key a.children b.children, ∀ n ∈ d.right, n.Part done :=
  Align.forall_mem_blocks Node.key ha.children hb.children

/-- A literal of one character that has a class is given by the two. -/
theorem Literal.eq_single {l : Literal} {x : Char} {k : CharClass} (htext : l.text = [x])
    (hpositions : l.positions = [some k]) : l = .single x k := by
  obtain ⟨text, classes, _⟩ := l
  unfold positions at hpositions
  split at hpositions
  · next hnone =>
    rw [htext] at hpositions
    cases hpositions
  · simp only [single, Literal.mk.injEq]
    exact ⟨htext, hpositions⟩

namespace Learner

variable {R : Replies} {m m' : Memory} {c : Context} {P : Node → Prop}

/-! ### Results without a question -/

theorem of_returns_merged {Q : Node → Prop} {outcome : MergeOutcome} {a : Node} (ha : Q a)
    (h : (pure (.merged a) : Learner MergeOutcome).Returns R m outcome m') :
    m' = m ∧ ∀ n, outcome = .merged n → Q n := by
  obtain ⟨rfl, rfl⟩ := returns_pure.mp h
  refine ⟨rfl, fun n hn => ?_⟩
  cases hn
  exact ha

/-- Nodes that do not correspond, or whose merge is rejected, have no merged node. -/
theorem of_returns_unmerged {Q : Node → Prop} {outcome o : MergeOutcome}
    (h : (pure o : Learner MergeOutcome).Returns R m outcome m') (ho : ∀ n, o ≠ .merged n) :
    m' = m ∧ ∀ n, outcome = .merged n → Q n := by
  obtain ⟨rfl, rfl⟩ := returns_pure.mp h
  exact ⟨rfl, fun n hn => absurd hn (ho n)⟩

/-! ### Alternatives -/

theorem of_returns_addOptions {os options : List Node} {res : Option (List Node)}
    (h : (addOptions c os options).Returns R m res m') :
    m' = m ∧ ∀ out, res = some out → ∃ extra, out = options ++ extra ∧
      (∀ o ∈ extra, o ∈ os) ∧ (∀ o ∈ extra, o ∉ options) ∧ (∀ o ∈ os, o ∈ out) ∧
      ∀ o ∈ extra, R.Accepts (c.fill (m.rules.text o)) := by
  induction os generalizing options with
  | nil =>
    obtain ⟨rfl, rfl⟩ := returns_pure.mp h
    refine ⟨rfl, fun out hout => ⟨[], ?_, by simp⟩⟩
    cases hout
    exact (List.append_nil _).symm
  | cons o rest ih =>
    simp only [addOptions] at h
    split at h
    · next hmem =>
      -- The option is there already, and nothing is asked.
      obtain ⟨rfl, ih⟩ := ih h
      refine ⟨rfl, fun out hout => ?_⟩
      obtain ⟨extra, rfl, hsub, hnew, hall, hacc⟩ := ih out hout
      refine ⟨extra, rfl, fun p hp => .tail _ (hsub p hp), hnew, ?_, hacc⟩
      exact List.forall_mem_cons.mpr ⟨List.mem_append_left _ hmem, hall⟩
    · next hmem =>
      simp only [returns_bind] at h
      obtain ⟨t, _, ht, b, _, hb, h⟩ := h
      obtain ⟨rfl, rfl⟩ := text_of_returns_render ht
      obtain ⟨hb, rfl⟩ := returns_accepts.mp hb
      split at h
      · next htrue =>
        rw [htrue] at hb
        obtain ⟨rfl, ih⟩ := ih h
        refine ⟨rfl, fun out hout => ?_⟩
        obtain ⟨extra, rfl, hsub, hnew, hall, hacc⟩ := ih out hout
        -- The option is new and accepted.
        refine ⟨o :: extra, by simp, ?_, ?_, ?_, List.forall_mem_cons.mpr ⟨hb, hacc⟩⟩
        · exact List.forall_mem_cons.mpr ⟨.head _, fun p hp => .tail _ (hsub p hp)⟩
        · refine List.forall_mem_cons.mpr ⟨hmem, fun p hp hp' => ?_⟩
          exact hnew p hp (List.mem_append_left _ hp')
        · exact List.forall_mem_cons.mpr ⟨by simp, hall⟩
      · simp only [returns_bind, returns_note, returns_shownNode, returns_pure] at h
        obtain ⟨_, _, ⟨_, rfl⟩, _, _, rfl, rfl, rfl⟩ := h
        exact ⟨rfl, fun out hout => by cases hout⟩

theorem of_returns_alternate {a b : Node} {res : Option Node}
    (h : (alternate a b c).Returns R m res m') :
    m' = m ∧ ∀ n, res = some n → ∃ extra, Alternated R m.rules a b c extra ∧
      n = Node.ofOptions (a.branches ++ extra) := by
  simp only [alternate, returns_bind] at h
  obtain ⟨added, m₁, hadded, h⟩ := h
  obtain ⟨rfl, hadded⟩ := of_returns_addOptions hadded
  cases added with
  | none =>
    exact of_returns_none h
  | some options =>
    obtain ⟨extra, rfl, hsub, hnew, hall, hacc⟩ := hadded _ rfl
    have halt : Alternated R m₁.rules a b c extra := ⟨hsub, hnew, hall, hacc⟩
    -- With a single option no alternation is reported, but the result is the same.
    have key : m' = m₁ ∧ res = some (Node.ofOptions (a.branches ++ extra)) := by
      generalize a.branches ++ extra = options at h ⊢
      rcases options with _ | ⟨o, _ | ⟨p, ps⟩⟩
      · simp only [returns_bind, returns_note, returns_shownNode, returns_pure] at h
        obtain ⟨_, _, ⟨_, rfl⟩, _, _, rfl, rfl, rfl⟩ := h
        exact ⟨rfl, rfl⟩
      · exact (returns_pure.mp h).symm
      · simp only [returns_bind, returns_note, returns_shownNode, returns_pure] at h
        obtain ⟨_, _, ⟨_, rfl⟩, _, _, rfl, rfl, rfl⟩ := h
        exact ⟨rfl, rfl⟩
    obtain ⟨rfl, rfl⟩ := key
    refine ⟨rfl, fun n hn => ⟨extra, halt, ?_⟩⟩
    cases hn
    rfl

/-! ### Literals -/

theorem of_returns_acceptsSymbols {ss : List Symbol} {b : Bool}
    (h : (acceptsSymbols c ss).Returns R m b m') :
    m' = m ∧ (b = true → ∀ s ∈ ss, R.Accepts (c.fill s.toText)) := by
  induction ss with
  | nil =>
    obtain ⟨rfl, rfl⟩ := returns_pure.mp h
    exact ⟨rfl, fun _ => by simp⟩
  | cons s rest ih =>
    cases s with
    | text t =>
      simp only [acceptsSymbols, returns_bind] at h
      obtain ⟨ok, _, hok, h⟩ := h
      obtain ⟨hacc, rfl⟩ := returns_accepts.mp hok
      split at h
      · next htrue =>
        rw [htrue] at hacc
        obtain ⟨rfl, hall⟩ := ih h
        exact ⟨rfl, fun hb => List.forall_mem_cons.mpr ⟨hacc, hall hb⟩⟩
      · obtain ⟨rfl, rfl⟩ := returns_pure.mp h
        exact ⟨rfl, fun hb => by cases hb⟩
    | _ => exact absurd h (by simp [acceptsSymbols])

theorem of_returns_uniteClasses {limits : Limits} {x y : Char} {ka kb : CharClass}
    {res : MergeOutcome} (h : (uniteClasses limits x ka y kb c).Returns R m res m')
    (M : Node → Node → Context → Node → Prop) :
    m' = m ∧ ∀ n, res = .merged n →
      StructureMerged R m.rules M (.literal (.single x ka)) (.literal (.single y kb)) c n := by
  unfold uniteClasses at h
  split at h
  · exact of_returns_unmerged h nofun
  · next hover =>
    have hover : ka.overlaps kb = true := by simpa using hover
    by_cases hatoms : (!kb.checks.all Symbol.isAtom) = true
    · rw [if_pos hatoms] at h
      simp [returns_bind] at h
    · rw [if_neg hatoms] at h
      simp only [returns_bind] at h
      obtain ⟨ok, _, hok, h⟩ := h
      obtain ⟨rfl, hall⟩ := of_returns_acceptsSymbols hok
      split at h
      · next htrue =>
        split at h
        · simp at h
        · next union hunion =>
          simp only [returns_bind, returns_note, returns_shownClass, returns_pure] at h
          obtain ⟨_, _, ⟨_, rfl⟩, _, _, ⟨_, rfl⟩, _, _, ⟨_, rfl⟩, _, _, rfl, rfl, rfl⟩ := h
          refine ⟨rfl, fun n hn => ?_⟩
          cases hn
          obtain rfl : union = ka.union kb limits.maxChecks := by
            unfold CharClass.union? at hunion
            split at hunion
            · exact (Except.ok.inj hunion).symm
            · cases hunion
          -- All symbols that the second class adds have been asked about.
          refine .union _ hover fun s hs hnew => hall htrue s ?_
          rw [List.mem_filter, Text.mem_distinct, List.mem_append, List.mem_singleton]
          exact ⟨hs, by simp [CharClass.contains, hnew]⟩
      · simp only [returns_bind, returns_note, returns_shownClass, returns_pure] at h
        obtain ⟨_, _, ⟨_, rfl⟩, _, _, ⟨_, rfl⟩, _, _, rfl, rfl, rfl⟩ := h
        exact ⟨rfl, fun n hn => by cases hn⟩

theorem mergeLiterals_single (limits : Limits) (x y : Char) (ka kb : CharClass) (c : Context) :
    mergeLiterals limits (.single x ka) (.single y kb) c =
      if ka = kb then pure (.merged (.literal (.single x ka)))
      else uniteClasses limits x ka y kb c := rfl

theorem of_returns_mergeLiterals {limits : Limits} {a b : Literal} {res : MergeOutcome}
    (h : (mergeLiterals limits a b c).Returns R m res m')
    (M : Node → Node → Context → Node → Prop) :
    m' = m ∧ ∀ n, res = .merged n → StructureMerged R m.rules M (.literal a) (.literal b) c n := by
  unfold mergeLiterals at h
  split at h
  · next x y ka kb hx hy hka hkb =>
    split at h
    · next ka kb =>
      -- Both are single characters with their classes.
      obtain rfl := Literal.eq_single hx hka
      obtain rfl := Literal.eq_single hy hkb
      split at h
      · next hk =>
        subst hk
        exact of_returns_merged (.character x y ka c) h
      · exact of_returns_uniteClasses h M
    · next hnone =>
      split at h
      · next hxy =>
        refine of_returns_merged (.unclassed (by rw [hx, hy, hxy]) ?_ c) h
        rw [hka, hkb]
        rcases ka with _ | ka
        · exact List.mem_cons_self
        · rcases kb with _ | kb
          · simp
          · exact absurd rfl (hnone ka kb rfl)
      · exact of_returns_unmerged h nofun
  · exact of_returns_unmerged h nofun

/-! ### Steps over the merges inside -/

/-- The merges inside leave the memory, and what they merge nodes into that meet a condition is
related to them. -/
def MergesInto (R : Replies) (m : Memory) (P : Node → Prop)
    (inner : Node → Node → Context → Learner (Option Node))
    (M : Node → Node → Context → Node → Prop) : Prop :=
  ∀ ⦃a b : Node⦄ ⦃c : Context⦄ ⦃res : Option Node⦄ ⦃m' : Memory⦄, a.Throughout P → b.Throughout P →
    (inner a b c).Returns R m res m' → m' = m ∧ ∀ n, res = some n → M a b c n

section Steps

variable {limits : Limits} {inner : Node → Node → Context → Learner (Option Node)}
  {M : Node → Node → Context → Node → Prop}

theorem of_returns_countsAccepted {body : Text} {counts : List Nat} {b : Bool}
    (h : (countsAccepted c body counts).Returns R m b m') :
    m' = m ∧ (b = true → ∀ k ∈ counts, R.Accepts (c.fill (Text.times body k))) := by
  induction counts with
  | nil =>
    obtain ⟨rfl, rfl⟩ := returns_pure.mp h
    exact ⟨rfl, fun _ => by simp⟩
  | cons count rest ih =>
    simp only [countsAccepted, returns_bind] at h
    obtain ⟨ok, _, hok, h⟩ := h
    obtain ⟨hacc, rfl⟩ := returns_accepts.mp hok
    split at h
    · next htrue =>
      rw [htrue] at hacc
      obtain ⟨rfl, hall⟩ := ih h
      exact ⟨rfl, fun hb => List.forall_mem_cons.mpr ⟨hacc, hall hb⟩⟩
    · simp only [returns_bind, returns_note, returns_pure] at h
      obtain ⟨_, _, rfl, rfl, rfl⟩ := h
      exact ⟨rfl, fun hb => by cases hb⟩

theorem throughout_asRepetition {n : Node} (h : n.Throughout P) :
    (asRepetition n).1.Throughout P := by
  cases n with
  | repetition b x => exact (Node.throughout_repetition.mp h).2
  | _ => exact h

theorem of_returns_mergeRepetitions (hinner : MergesInto R m P inner M) {a b : Node}
    (ha : a.Throughout P) (hb : b.Throughout P) (either : a.IsRepetition ∨ b.IsRepetition)
    {res : MergeOutcome} (h : (mergeRepetitions inner a b c).Returns R m res m') :
    m' = m ∧ ∀ n, res = .merged n → StructureMerged R m.rules M a b c n := by
  simp only [mergeRepetitions, returns_bind] at h
  obtain ⟨t, _, ht, body, m₁, hbody, h⟩ := h
  obtain ⟨rfl, rfl⟩ := text_of_returns_render ht
  obtain ⟨rfl, hbody⟩ := hinner (throughout_asRepetition ha) (throughout_asRepetition hb) hbody
  cases body with
  | none =>
    exact of_returns_unmerged h nofun
  | some body =>
    simp only [returns_bind] at h
    obtain ⟨u, _, hu, ok, _, hok, h⟩ := h
    obtain ⟨rfl, rfl⟩ := text_of_returns_render hu
    obtain ⟨rfl, hall⟩ := of_returns_countsAccepted hok
    split at h
    · next htrue =>
      exact of_returns_merged (.repetition either (hbody body rfl) (hall htrue)) h
    · exact of_returns_unmerged h nofun

theorem of_returns_mergePairs (hinner : MergesInto R m P inner M) {rest as bs acc : List Node}
    (hlen : as.length = bs.length) (has : ∀ a ∈ as, a.Throughout P) (hbs : ∀ b ∈ bs, b.Throughout P)
    {res : Option (List Node)} (h : (mergePairs inner c rest as bs acc).Returns R m res m') :
    m' = m ∧ ∀ out, res = some out → PairsMerged M m.rules c rest as bs acc out := by
  induction as generalizing bs acc with
  | nil =>
    obtain rfl := List.length_eq_zero_iff.mp hlen.symm
    exact of_returns_some (.nil _) h
  | cons a as ih =>
    cases bs with
    | nil => cases hlen
    | cons b bs =>
      simp only [mergePairs, returns_bind] at h
      obtain ⟨_, _, hbefore, _, _, hafter, n, _, hn, h⟩ := h
      obtain ⟨rfl, rfl⟩ := texts_of_returns_renderAll hbefore
      obtain ⟨rfl, rfl⟩ := texts_of_returns_renderAll hafter
      obtain ⟨rfl, hmerged⟩ := hinner (has a (.head _)) (hbs b (.head _)) hn
      cases n with
      | none =>
        exact of_returns_none h
      | some n =>
        obtain ⟨rfl, ih⟩ := ih (Nat.succ.inj hlen) (fun a ha => has a (.tail _ ha))
          (fun b hb => hbs b (.tail _ hb)) h
        exact ⟨rfl, fun out hout => .cons (hmerged n rfl) (ih out hout)⟩

theorem of_returns_mergeSides (hinner : MergesInto R m P inner M) {rest acc : List Node}
    {b : Block Node} (hleft : ∀ n ∈ b.left, n.Throughout P) (hright : ∀ n ∈ b.right, n.Throughout P)
    {res : Option (List Node)} (h : (mergeSides inner c rest b acc).Returns R m res m') :
    m' = m ∧ ∀ out, res = some out → PairsMerged M m.rules c rest b.left b.right acc out := by
  unfold mergeSides at h
  split at h
  · next hlen => exact of_returns_mergePairs hinner hlen hleft hright h
  · exact of_returns_none h

theorem of_returns_mergeBlocks (hinner : MergesInto R m P inner M)
    {blocks : List (Block Node)} {acc : List Node}
    (hleft : ∀ b ∈ blocks, ∀ n ∈ b.left, n.Throughout P)
    (hright : ∀ b ∈ blocks, ∀ n ∈ b.right, n.Throughout P)
    {res : Option (List Node)} (h : (mergeBlocks inner c blocks acc).Returns R m res m') :
    m' = m ∧ ∀ out, res = some out → BlocksMerged M R m.rules c blocks acc out := by
  induction blocks generalizing acc with
  | nil =>
    exact of_returns_some (.nil _) h
  | cons b blocks ih =>
    have hleft' := fun d hd => hleft d (.tail _ hd)
    have hright' := fun d hd => hright d (.tail _ hd)
    simp only [mergeBlocks, returns_bind] at h
    obtain ⟨paired, _, hpaired, h⟩ := h
    obtain ⟨rfl, hpaired⟩ :=
      of_returns_mergeSides hinner (hleft b (.head _)) (hright b (.head _)) hpaired
    cases paired with
    | some merged =>
      obtain ⟨rfl, ih⟩ := ih hleft' hright' h
      exact ⟨rfl, fun out hout => .pairs (hpaired merged rfl) (ih out hout)⟩
    | none =>
      simp only [returns_bind] at h
      obtain ⟨_, _, hbefore, _, _, hafter, n, _, hn, h⟩ := h
      obtain ⟨rfl, rfl⟩ := texts_of_returns_renderAll hbefore
      obtain ⟨rfl, rfl⟩ := texts_of_returns_renderAll hafter
      obtain ⟨rfl, hn⟩ := of_returns_alternate hn
      cases n with
      | none =>
        exact of_returns_none h
      | some n =>
        obtain ⟨extra, hadded, rfl⟩ := hn n rfl
        obtain ⟨rfl, ih⟩ := ih hleft' hright' h
        exact ⟨rfl, fun out hout => .alternatives hadded (ih out hout)⟩

theorem of_returns_mergeSequences (hinner : MergesInto R m P inner M) {a b : Node}
    (ha : a.Throughout P) (hb : b.Throughout P) (either : a.IsSequence ∨ b.IsSequence)
    (other : ¬ a.IsAlternation) {res : MergeOutcome}
    (h : (mergeSequences inner a b c).Returns R m res m') :
    m' = m ∧ ∀ n, res = .merged n → StructureMerged R m.rules M a b c n := by
  obtain ⟨hleft, hright⟩ := Align.forall_mem_blocks Node.key ha.children hb.children
  unfold mergeSequences at h
  split at h
  · simp [returns_bind] at h
  · simp only [returns_bind] at h
    obtain ⟨merged, _, hmerged, h⟩ := h
    obtain ⟨rfl, hmerged⟩ := of_returns_mergeBlocks hinner hleft hright hmerged
    cases merged with
    | none =>
      exact of_returns_unmerged h nofun
    | some merged =>
      exact of_returns_merged (.blocks either other (hmerged merged rfl)) h

theorem of_returns_sameRule {s t : Text} {b : Bool} (h : (sameRule s t).Returns R m b m') :
    m' = m ∧ (b = true → m.rules.Same s t) := by
  unfold sameRule at h
  split at h
  · next heq => exact ⟨(returns_pure.mp h).2, fun _ => .inl heq⟩
  · simp only [returns_bind, returns_rules] at h
    obtain ⟨r, _, ⟨rfl, rfl⟩, h⟩ := h
    split at h
    · simp at h
    · next ruleB hB =>
      split at h
      · simp at h
      · next ruleA hA =>
        obtain ⟨rfl, rfl⟩ := returns_pure.mp h
        refine ⟨rfl, fun hb => .inr ⟨ruleB, hB, ?_⟩⟩
        rw [hA, of_decide_eq_true hb]

theorem of_returns_mergeStructure (hinner : MergesInto R m P inner M) {a b : Node}
    (ha : a.Throughout P) (hb : b.Throughout P) {res : MergeOutcome}
    (h : (mergeStructure inner limits a b c).Returns R m res m') :
    m' = m ∧ ∀ n, res = .merged n → StructureMerged R m.rules M a b c n := by
  unfold mergeStructure at h
  split at h
  · exact of_returns_mergeLiterals h M
  · exact of_returns_mergeRepetitions hinner ha hb (.inl ⟨_, _, rfl⟩) h
  · exact of_returns_mergeRepetitions hinner ha hb (.inr ⟨_, _, rfl⟩) h
  · split at h
    · next hmem =>
      exact of_returns_merged (.option hmem c) h
    · exact of_returns_unmerged h nofun
  · simp only [returns_bind] at h
    obtain ⟨same, _, hsame, h⟩ := h
    obtain ⟨rfl, hsame⟩ := of_returns_sameRule hsame
    split at h
    · next htrue =>
      exact of_returns_merged (.reference (hsame htrue) c) h
    · exact of_returns_unmerged h nofun
  · exact of_returns_mergeSequences hinner ha hb (.inl ⟨_, rfl⟩) (by simp [Node.IsAlternation]) h
  · next halt _ =>
    refine of_returns_mergeSequences hinner ha hb (.inr ⟨_, rfl⟩) ?_ h
    rintro ⟨os, rfl⟩
    exact halt os rfl
  · exact of_returns_unmerged h nofun

theorem of_returns_mergeStep (hinner : MergesInto R m P inner M) {a b : Node}
    (ha : a.Throughout P) (hb : b.Throughout P) {res : Option Node}
    (h : (mergeStep inner limits a b c).Returns R m res m') :
    m' = m ∧ ∀ n, res = some n → MergeStep R m.rules M a b c n := by
  unfold mergeStep at h
  split at h
  · next heq =>
    exact of_returns_some (.same heq) h
  · simp only [returns_bind] at h
    obtain ⟨outcome, _, houtcome, h⟩ := h
    obtain ⟨rfl, houtcome⟩ := of_returns_mergeStructure hinner ha hb houtcome
    split at h
    · exact of_returns_some (.merged (houtcome _ rfl)) h
    · obtain ⟨rfl, halt⟩ := of_returns_alternate h
      refine ⟨rfl, fun n hn => ?_⟩
      obtain ⟨extra, hadded, rfl⟩ := halt n hn
      exact .alternate hadded

end Steps

/-- **Induction over merges.** What holds of every outcome of a step, if it holds of the merges
inside, holds of all merges. -/
theorem merge_induction {Q : Node → Node → Context → Node → Prop}
    (step : ∀ {a b : Node} {c : Context} {n : Node}, a.Throughout P → b.Throughout P →
      MergeStep R m.rules Q a b c n → Q a b c n) (limits : Limits) (depth : Nat) :
    MergesInto R m P (mergeWithin limits depth) Q := by
  induction depth with
  | zero =>
    intro a b c res m' ha hb h
    obtain ⟨rfl, halt⟩ := of_returns_alternate h
    refine ⟨rfl, fun n hn => ?_⟩
    obtain ⟨extra, hadded, rfl⟩ := halt n hn
    exact step ha hb (.alternate hadded)
  | succ depth ih =>
    intro a b c res m' ha hb h
    obtain ⟨rfl, hstep⟩ := of_returns_mergeStep ih ha hb h
    exact ⟨rfl, fun n hn => step ha hb (hstep n hn)⟩

/-! ### The root -/

end Learner

/-- What merging a tree into an existing option can lead to. -/
inductive TryMerged (R : Replies) (r : Rules) (M : Node → Node → Context → Node → Prop)
    (existing tree : Node) : Node → Prop
  /-- They are equal. -/
  | same (h : existing = tree) : TryMerged R r M existing tree existing
  /-- They are merged by their structure; a new default text is accepted. -/
  | merged {n : Node} (h : StructureMerged R r M existing tree Context.whole n)
    (accepted : r.text n = r.text existing ∨ R.Accepts (r.text n)) :
    TryMerged R r M existing tree n

/-- What merging a tree into a root can lead to. -/
inductive RootMerged (R : Replies) (r : Rules) (M : Node → Node → Context → Node → Prop)
    (root tree : Node) : Node → Prop
  /-- The tree is merged into an option. -/
  | merged {before after : List Node} {o n : Node} (options : root.branches = before ++ o :: after)
    (h : TryMerged R r M o tree n) :
    RootMerged R r M root tree (Node.ofOptions (before ++ n :: after))
  /-- The tree is an option already. -/
  | known (mem : tree ∈ root.branches) :
    RootMerged R r M root tree (Node.ofOptions root.branches)
  /-- The tree becomes another option. -/
  | added (new : tree ∉ root.branches) :
    RootMerged R r M root tree (Node.ofOptions (root.branches ++ [tree]))

namespace Learner

variable {R : Replies} {m m' : Memory} {P : Node → Prop} {limits : Limits}
  {Q : Node → Node → Context → Node → Prop}

theorem of_returns_tryMerge
    (hmerge : ∀ depth, MergesInto R m P (mergeWithin limits depth) Q) {existing tree : Node}
    (he : existing.Throughout P) (ht : tree.Throughout P) {res : Option Node}
    (h : (tryMerge limits existing tree).Returns R m res m') :
    m' = m ∧ ∀ n, res = some n → TryMerged R m.rules Q existing tree n := by
  unfold tryMerge at h
  split at h
  · next heq =>
    exact of_returns_some (.same heq) h
  · simp only [returns_bind] at h
    obtain ⟨outcome, _, houtcome, h⟩ := h
    obtain ⟨rfl, houtcome⟩ := of_returns_mergeStructure (hmerge _) he ht houtcome
    split at h
    · simp only [returns_bind] at h
      obtain ⟨_, _, htext, _, _, hbefore, h⟩ := h
      obtain ⟨rfl, rfl⟩ := text_of_returns_render htext
      obtain ⟨rfl, rfl⟩ := text_of_returns_render hbefore
      split at h
      · next heq =>
        -- The default text is the one before, so that it is not asked about.
        exact of_returns_some (.merged (houtcome _ rfl) (.inl heq)) h
      · simp only [returns_bind] at h
        obtain ⟨ok, _, hok, h⟩ := h
        obtain ⟨hacc, rfl⟩ := returns_accepts.mp hok
        split at h
        · next htrue =>
          rw [htrue] at hacc
          exact of_returns_some (.merged (houtcome _ rfl) (.inr hacc)) h
        · exact of_returns_none h
    · exact of_returns_none h

theorem of_returns_mergeIntoFirst
    (hmerge : ∀ depth, MergesInto R m P (mergeWithin limits depth) Q) {tree : Node}
    {options : List Node} (ht : tree.Throughout P) (hos : ∀ o ∈ options, o.Throughout P)
    {res : Option (List Node)} (h : (mergeIntoFirst limits tree options).Returns R m res m') :
    m' = m ∧ ∀ out, res = some out → ∃ before o after n, options = before ++ o :: after ∧
      out = before ++ n :: after ∧ TryMerged R m.rules Q o tree n := by
  induction options generalizing res m' with
  | nil =>
    exact of_returns_none h
  | cons o rest ih =>
    simp only [mergeIntoFirst, returns_bind] at h
    obtain ⟨first, _, hfirst, h⟩ := h
    obtain ⟨rfl, hfirst⟩ := of_returns_tryMerge hmerge (hos o (.head _)) ht hfirst
    cases first with
    | some n =>
      -- The tree is merged into the first option.
      exact of_returns_some ⟨[], o, rest, n, rfl, rfl, hfirst n rfl⟩ h
    | none =>
      simp only [returns_bind] at h
      obtain ⟨others, _, hothers, h⟩ := h
      obtain ⟨rfl, ih⟩ := ih (fun p hp => hos p (.tail _ hp)) hothers
      cases others with
      | none =>
        exact of_returns_none h
      | some merged =>
        obtain ⟨before, p, after, n, rfl, rfl, hn⟩ := ih merged rfl
        exact of_returns_some ⟨o :: before, p, after, n, rfl, rfl, hn⟩ h

theorem of_returns_mergeRoot
    (hmerge : ∀ depth, MergesInto R m P (mergeWithin limits depth) Q) {root tree n : Node}
    (hroot : root.Throughout P) (ht : tree.Throughout P)
    (h : (mergeRoot limits root tree).Returns R m n m') :
    m' = m ∧ RootMerged R m.rules Q root tree n := by
  simp only [mergeRoot, returns_bind] at h
  obtain ⟨first, _, hfirst, h⟩ := h
  obtain ⟨rfl, hfirst⟩ := of_returns_mergeIntoFirst hmerge ht hroot.branches hfirst
  cases first with
  | some merged =>
    obtain ⟨rfl, rfl⟩ := returns_pure.mp h
    obtain ⟨before, o, after, k, hoptions, rfl, hk⟩ := hfirst merged rfl
    exact ⟨rfl, .merged hoptions hk⟩
  | none =>
    dsimp only at h
    split at h
    · next hmem =>
      obtain ⟨rfl, rfl⟩ := returns_pure.mp h
      exact ⟨rfl, .known hmem⟩
    · next hmem =>
      simp only [returns_bind, returns_note, returns_pure] at h
      obtain ⟨_, _, rfl, rfl, rfl⟩ := h
      exact ⟨rfl, .added hmem⟩

end Learner

end GrammarInference
