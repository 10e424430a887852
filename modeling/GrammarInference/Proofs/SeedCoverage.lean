import GrammarInference.Proofs.ClassLanguage
import GrammarInference.Proofs.MergeCoverage
import GrammarInference.Proofs.Outcome

/-!
# Seeds that a learned grammar derives

The tree of a seed derives the seed, merging loses no text, and the finished grammar derives what
its root derived before. Texts can be lost only by a pass that refines the root: it gives structure
to nodes that are repetitions already, and takes two of them for copies of each other although
their ranges differ. `Node.Spanned` says that a root leaves no room for this, and
`Session.derives_of_synthesize` that every accepted seed is derived if each pass that changes the
root starts from such a root.

The condition cannot be left out: `Session.synthesize_loses_seed` is a seed that the grammar
learned from it does not derive.
-/

namespace GrammarInference

/-! ### Refining -/

namespace Node

/-- Nodes side by side that refining a node gives structure to: the parts of a sequence, in the
node itself, in options, and in bodies of repetitions. -/
inductive Region : Node → List Node → Prop
  /-- The parts of the node itself. -/
  | here (cs : List Node) : Region (.sequence cs) cs
  /-- Parts in an option. -/
  | option {os : List Node} {o : Node} {cs : List Node} (ho : o ∈ os) (h : Region o cs) :
    Region (.alternation os) cs
  /-- Parts in the body of a repetition. -/
  | body {b : Node} {x : Bounds} {cs : List Node} (h : Region b cs) : Region (.repetition b x) cs

/-- In every run of copies that refining a node may fold, the first copy spans the others. -/
def Spanned (n : Node) : Prop := ∀ cs, n.Region cs → RunsSpanned cs

theorem Spanned.option {os : List Node} (h : (alternation os).Spanned) : ∀ o ∈ os, o.Spanned :=
  fun _ ho cs hcs => h cs (.option ho hcs)

theorem Spanned.body {b : Node} {x : Bounds} (h : (repetition b x).Spanned) : b.Spanned :=
  fun cs hcs => h cs (.body hcs)

end Node

section Refining

variable {R : Replies}

mutual

/-- **Coverage.** Refining a node loses none of its texts, if in every run that may be folded the
first copy spans the others. -/
theorem Refined.covers : ∀ {n n' : Node} {c : Context} {m m' : Memory} {done : List Text},
    Refined R n c m n' m' → m.rules.Ordered done → n.Tidy done → n.Spanned → ∀ {t : Text},
      Derives m.rules n t → Derives m'.rules n' t
  | _, _, _, _, _, _, .same _ _ _, _, _, _, _, ht => ht
  | _, _, _, _, _, _, .sequence h, ho, hn, hspan, _, ht => by
    rw [derives_sequenceOf]
    have hparts := (Node.tidy_sequence.mp hn).2
    exact h.covers ho.founded (fun n hn => (hparts n hn).tidy.targets_subset)
      ((hspan _ (.here _)).runsCovered fun n hn => (hparts n hn).tidy) (derives_sequence.mp ht)
  | _, _, _, _, _, _, .alternation h hs, ho, hn, hspan, t, ht => by
    obtain ⟨hfirst, hrest⟩ := List.forall_mem_cons.mp (Node.tidy_alternation.mp hn).2.2
    obtain ⟨hspan, hspans⟩ := List.forall_mem_cons.mp hspan.option
    obtain ⟨done₁, hg₁, -⟩ := h.grows ho hfirst
    -- The other options are refined after the first one has added its rules.
    have hrest₁ := fun o ho => (hrest o ho).mono hg₁.subset
    obtain ⟨done₂, hg₂, -⟩ := hs.grows hg₁.ordered hrest₁
    rcases derives_alternation.mp ht with ⟨hnil, -⟩ | ⟨o, hmem, hot⟩
    · cases hnil
    · rcases List.mem_cons.mp hmem with rfl | hmem
      · exact .alternation (.head _) (hg₂.derives (h.covers ho hfirst hspan hot))
      · obtain ⟨o', ho', hot'⟩ := hs.covers hg₁.ordered hrest₁ hspans hmem (hg₁.derives hot)
        exact .alternation (.tail _ ho') hot'
  | _, _, _, _, _, _, .repetition h _, ho, hn, hspan, t, ht => by
    obtain ⟨n, hcount, hcopies⟩ := derives_repetition.mp ht
    refine .repetition hcount (hcopies.replicate fun u hu => ?_)
    exact h.covers ho (Node.tidy_repetition.mp hn).2 hspan.body hu
  | _, _, _, _, _, _, .body h, ho, hn, _, _, ht => by
    obtain ⟨done', hg, -⟩ := h.grows ho (Node.tidy_repetition.mp hn).2
    exact hg.derives ht

theorem RefinedOptions.covers : ∀ {os os' : List Node} {c : Context} {m m' : Memory}
    {done : List Text}, RefinedOptions R os c m os' m' → m.rules.Ordered done →
      (∀ o ∈ os, o.Tidy done) → (∀ o ∈ os, o.Spanned) → ∀ {o : Node} {t : Text}, o ∈ os →
        Derives m.rules o t → ∃ o' ∈ os', Derives m'.rules o' t
  | _, _, _, _, _, _, .nil _ _, _, _, _, _, _, hmem, _ => by cases hmem
  | _, _, _, _, _, _, .cons h hkept hs, ho, hos, hspans, _, t, hmem, ht => by
    obtain ⟨hfirst, hrest⟩ := List.forall_mem_cons.mp hos
    obtain ⟨hspan, hspans⟩ := List.forall_mem_cons.mp hspans
    obtain ⟨done₁, hg₁, -⟩ := h.grows ho hfirst
    have hrest₁ := fun o ho => (hrest o ho).mono hg₁.subset
    obtain ⟨done₂, hg₂, -⟩ := hs.grows hg₁.ordered hrest₁
    rcases List.mem_cons.mp hmem with rfl | hmem
    · refine ⟨_, .head _, ?_⟩
      rcases hkept with rfl | ⟨rfl, -⟩
      · exact (hg₁.trans hg₂).derives ht
      · exact hg₂.derives (h.covers ho hfirst hspan ht)
    · obtain ⟨o', ho', hot'⟩ := hs.covers hg₁.ordered hrest₁ hspans hmem (hg₁.derives ht)
      exact ⟨o', .tail _ ho', hot'⟩

end

end Refining

/-! ### Trees and merged roots -/

namespace Learner

variable {R : Replies} {limits : Limits} {m m' : Memory} {done : List Text}

/-- What learning has found out about a root: the memory is in order, and the root derives some
texts. -/
def CoveringRoot (seeds : List Text) (m : Memory) (root : Node) : Prop :=
  ∃ done, m.InOrder done root ∧ ∀ seed ∈ seeds, Derives m.rules root seed

/-- The tree of a seed derives the seed. -/
theorem seedTree_derives {seed : Text} {tree : Node} (ho : m.rules.Ordered done)
    (hm : m.HasRegularClasses) (h : (seedTree limits seed).Returns R m tree m') :
    Derives m'.rules tree seed := by
  obtain ⟨ks, out, m₁, hr, _, hcover, hs, rfl⟩ := of_returns_seedTree hm h
  rw [← hr] at ho
  exact hcover.matches.derives_of_restructured ho.founded hs hcover.matches

theorem CoveringRoot.mergeRoot {taken : List Text} {seed : Text} {root tree out : Node}
    {m₁ m₂ : Memory} (h : CoveringRoot taken m root)
    (htree : (seedTree limits seed).Returns R m tree m₁)
    (hmerged : (mergeRoot limits root tree).Returns R m₁ out m₂) :
    CoveringRoot (taken ++ [seed]) m₂ out := by
  obtain ⟨done, hroot, hall⟩ := h
  obtain ⟨done', hg, ht, _⟩ := seedTree_grows hroot.ordered hroot.regular htree
  have hseed := seedTree_derives hroot.ordered hroot.regular htree
  have htidy := hroot.tidy.mono hg.subset
  obtain ⟨rfl, hout⟩ := mergeRoot_inOrder ⟨ht.ordered, ht.regular, htidy⟩ ht.tidy hmerged
  obtain ⟨_, hm⟩ :=
    of_returns_mergeRoot (merges_covering R m₂ limits) htidy.classed ht.tidy.classed hmerged
  obtain ⟨hcroot, hctree⟩ := hm.covers htidy.classed ht.tidy.classed
  refine ⟨done', hout, fun s hs => ?_⟩
  rcases List.mem_append.mp hs with hs | hs
  · exact hcroot s (hg.derives (hall s hs))
  · rw [List.mem_singleton.mp hs]
    exact hctree seed hseed

/-- The root that the trees of all seeds are merged into. -/
def mergedRoot (limits : Limits) : List Text → Learner Node
  | [] => fail .noSeeds
  | seed :: rest => do
    checkSeeds limits (seed :: rest)
    let tree ← seedTree limits seed
    mergeSeeds limits rest tree

/-- **Merged roots.** The merged root derives all seeds. -/
theorem coveringRoot_of_mergedRoot {seeds : List Text} {root : Node}
    (h : (mergedRoot limits seeds).Returns R Memory.empty root m) : CoveringRoot seeds m root := by
  cases seeds with
  | nil => exact (returns_fail.mp h).elim
  | cons seed rest =>
    simp only [mergedRoot, returns_bind] at h
    obtain ⟨_, _, hcheck, tree, m₁, htree, hroot⟩ := h
    obtain ⟨rfl, -⟩ := of_returns_checkSeeds hcheck
    have hregular : Memory.empty.HasRegularClasses := fun k hk => by cases hk
    have hseed := seedTree_derives Rules.ordered_empty hregular htree
    obtain ⟨done, htree⟩ := inOrder_of_firstTree htree
    have hfirst : CoveringRoot [seed] m₁ tree := by
      refine ⟨done, htree, fun s hs => ?_⟩
      rw [List.mem_singleton.mp hs]
      exact hseed
    exact mergeSeeds_induction (I := CoveringRoot)
      (fun _ _ _ _ _ _ _ _ _ hI => hI.mergeRoot) [seed] hfirst hroot

end Learner

/-! ### The finished grammar -/

/-- The compact root derives, under the compact rules it reaches, what the root derives. -/
theorem Rules.Layered.derives_compactOn {r : Rules} {done : List Text} (h : r.Layered done)
    {root : Node} (hroot : root.targets ⊆ done) {t : Text} (ht : Derives r root t) :
    Derives (r.compactOn (r.reachable root)) root.compact t := by
  have hclosed := h.closed_reachable hroot
  refine Node.derives_compact (fun name hname rule hrule => ?_) ht
    (r.targets_subset_reachable root)
  obtain ⟨_, _, base, nested, _, hl⟩ := h.layer (h.reachable_subset hroot hname)
  have hget := Rules.get?_compactOn (r := r) hname
  rw [hrule, Option.map_some] at hget
  obtain rfl : _ = rule := Option.some.inj (hl.get.symm.trans hrule)
  refine ⟨hget, ?_, fun b hb => ?_⟩
  · simp only [Node.compact, Node.compactAll, Node.branches, List.map_cons, List.map_nil]
  · exact List.Subset.trans (Node.targets_subset_of_mem_branches hb) (hclosed name hname _ hrule)

/-! ### Passes in a session -/

namespace Session

variable {σ : Type} {f : Text → Bool} {o : Oracle σ} {limits : Limits} {s s' : Session σ}
  {m m' : Memory}

/-- The root after some passes over it. -/
def rootPassed (o : Oracle σ) (limits : Limits) (s : Session σ) (m : Memory) (root : Node)
    (passes : Nat) : Option Node :=
  (s.learn o (Learner.refinePasses limits passes root) m).1.1.toOption

@[simp] theorem rootPassed_zero (root : Node) : s.rootPassed o limits m root 0 = some root := rfl

/-- A pass that is accepted hands the passes left over to the root it has made. -/
theorem rootPassed_succ {root refined : Node} {m₁ : Memory} {s₁ s₂ s₃ : Session σ} {t : Text}
    (hrefine : Learns o s (Learner.refine limits root Context.whole) m refined m₁ s₁)
    (hne : refined ≠ root) (htext : Learns o s₁ (Learner.render refined) m₁ t m₁ s₂)
    (hok : Learns o s₂ (Learner.accepts t) m₁ true m₁ s₃) (passes : Nat) :
    s.rootPassed o limits m root (passes + 1) = s₃.rootPassed o limits m₁ refined passes := by
  unfold rootPassed
  rw [Learner.refinePasses, learn_bind hrefine, if_neg hne, learn_bind htext, learn_bind hok,
    if_pos rfl]

/-- **Passes.** Passes lose no text of a root, if every pass that changes the root starts from one
in which the first copies span the others. -/
theorem derives_of_passes (ho : o.Answers f) {passes : Nat} {root out : Node} {done : List Text}
    (hs : s.Consistent f) (hm : m.rules.Ordered done) (hroot : root.Tidy done)
    (hspan : ∀ k < passes, ∀ n, s.rootPassed o limits m root k = some n →
      s.rootPassed o limits m root (k + 1) ≠ some n → n.Spanned)
    (h : Learns o s (Learner.refinePasses limits passes root) m out m' s') {t : Text}
    (ht : Derives m.rules root t) : Derives m'.rules out t := by
  induction passes generalizing root m s done with
  | zero =>
    obtain ⟨rfl, rfl, rfl⟩ := learns_pure.mp h
    exact ht
  | succ passes ih =>
    rw [Learner.refinePasses, learns_bind] at h
    obtain ⟨refined, m₁, s₁, hrefine, h⟩ := h
    obtain ⟨hs₁, hret⟩ := hrefine.returns ho hs
    have hrefined := Learner.refined_of_refine hret
    obtain ⟨done₁, hg, htidy, -⟩ := hrefined.grows hm hroot
    -- A root that stays derives what it derived, whatever rules the pass has left behind.
    have hstays : Derives m₁.rules root t := hg.derives ht
    split at h
    · obtain ⟨rfl, rfl, -⟩ := learns_pure.mp h
      exact hstays
    · next hne =>
      rw [learns_bind] at h
      obtain ⟨u, m₂, s₂, htext, h⟩ := h
      obtain ⟨hs₂, hret⟩ := htext.returns ho hs₁
      obtain ⟨-, rfl⟩ := Learner.returns_render.mp hret
      rw [learns_bind] at h
      obtain ⟨ok, m₃, s₃, hok, h⟩ := h
      obtain ⟨hs₃, hret⟩ := hok.returns ho hs₂
      obtain ⟨-, rfl⟩ := Learner.returns_accepts.mp hret
      split at h
      · next htrue =>
        subst htrue
        have hnext := rootPassed_succ hrefine hne htext hok
        have hspanned : root.Spanned := by
          refine hspan 0 (Nat.succ_pos _) root (rootPassed_zero root) ?_
          rw [hnext, rootPassed_zero]
          exact fun heq => hne (Option.some.inj heq)
        refine ih hs₃ hg.ordered htidy (fun k hk n hn hn' => ?_) h
          (hrefined.covers hm hroot hspanned ht)
        rw [← hnext] at hn hn'
        exact hspan (k + 1) (Nat.succ_lt_succ hk) n hn hn'
      · obtain ⟨rfl, rfl, -⟩ := learns_pure.mp h
        exact hstays

/-! ### Synthesis -/

/-- The merged root of some seeds after some passes over it. -/
def rootAfter (o : Oracle σ) (limits : Limits) (seeds : List Text) (s : Session σ)
    (passes : Nat) : Option Node :=
  (s.learn o (do
    let root ← Learner.mergedRoot limits seeds
    Learner.refinePasses limits passes root) Memory.empty).1.1.toOption

/-- Every pass that changes the root starts from one in which the first copy of every run spans the
others. -/
def SpannedPasses (o : Oracle σ) (limits : Limits) (seeds : List Text) (s : Session σ) : Prop :=
  ∀ k < limits.maxRefinePasses, ∀ root, s.rootAfter o limits seeds k = some root →
    s.rootAfter o limits seeds (k + 1) ≠ some root → root.Spanned

/-- Synthesis merges the trees, refines the root and finishes it. -/
theorem learns_synthesize {seeds : List Text} {g : Grammar}
    (h : Learns o s (Learner.synthesize limits seeds) Memory.empty g m' s') :
    ∃ root m₁ s₁ refined m₂ s₂,
      Learns o s (Learner.mergedRoot limits seeds) Memory.empty root m₁ s₁ ∧
      Learns o s₁ (Learner.refineAll limits root) m₁ refined m₂ s₂ ∧
      Learns o s₂ (Learner.finalize refined) m₂ g m' s' := by
  cases seeds with
  | nil => cases h
  | cons seed rest =>
    simp only [Learner.synthesize, learns_bind] at h
    obtain ⟨_, _, _, hcheck, tree, _, _, htree, root, m₁, s₁, hroot, refined, m₂, s₂, hrefined,
      hfinal⟩ := h
    refine ⟨root, m₁, s₁, refined, m₂, s₂, ?_, hrefined, hfinal⟩
    simp only [Learner.mergedRoot, learns_bind]
    exact ⟨_, _, _, hcheck, tree, _, _, htree, hroot⟩

/-- Synthesis from accepted seeds returns a grammar. -/
theorem exists_synthesize (ho : o.Answers f) (limits : Limits) (hs : s.Consistent f)
    {seeds : List Text} (hne : seeds ≠ []) (hseeds : ∀ seed ∈ seeds, f seed = true) :
    ∃ g s', s.synthesize o limits seeds = (.ok g, s') := by
  have key := outcome_of_consistent ho limits hs seeds
  rcases hrun : s.synthesize o limits seeds with ⟨r, s'⟩
  rw [hrun] at key
  cases key with
  | noSeeds h => exact absurd h hne
  | @rejected seed h =>
    have hfalse := List.find?_some h
    rw [hseeds seed (List.mem_of_find?_eq_some h)] at hfalse
    cases hfalse
  | learned => exact ⟨_, _, rfl⟩

/-- A grammar returned by synthesis is what a run of the learner ends with. -/
theorem learns_of_synthesize {seeds : List Text} {g : Grammar}
    (h : s.synthesize o limits seeds = (.ok g, s')) :
    ∃ m s₁, Learns o s (Learner.synthesize limits seeds) Memory.empty g m s₁ := by
  unfold synthesize at h
  split at h
  · next g' m s₁ hrun =>
    cases h
    exact ⟨m, s₁, hrun⟩
  · cases h

/-- **Coverage of seeds.** From accepted seeds a grammar is learned that derives all of them, if
every pass that changes the root starts from one in which the first copies span the others. -/
theorem derives_of_synthesize (ho : o.Answers f) {budget : Option Int} {world : σ}
    {seeds : List Text} (hne : seeds ≠ []) (hseeds : ∀ seed ∈ seeds, f seed = true)
    (hspan : (start budget world).SpannedPasses o limits seeds) :
    ∃ g s, (start budget world).synthesize o limits seeds = (.ok g, s) ∧
      ∀ seed ∈ seeds, Derives g.rules g.root seed := by
  have hstart := consistent_start f budget world
  obtain ⟨g, s, hrun⟩ := exists_synthesize ho limits hstart hne hseeds
  refine ⟨g, s, hrun, fun seed hseed => ?_⟩
  obtain ⟨m, s₁, hlearns⟩ := learns_of_synthesize hrun
  obtain ⟨root, m₁, s₁, refined, m₂, s₂, hroot, hrefined, hfinal⟩ := learns_synthesize hlearns
  obtain ⟨hs₁, hret⟩ := hroot.returns ho hstart
  obtain ⟨done, hin, hderives⟩ := Learner.coveringRoot_of_mergedRoot hret
  have hpassed : ∀ k, (start budget world).rootAfter o limits seeds k =
      s₁.rootPassed o limits m₁ root k := by
    intro k
    rw [rootAfter, learn_bind hroot, rootPassed]
  have hpasses : ∀ k < limits.maxRefinePasses, ∀ n, s₁.rootPassed o limits m₁ root k = some n →
      s₁.rootPassed o limits m₁ root (k + 1) ≠ some n → n.Spanned := by
    intro k hk n hn hn'
    rw [← hpassed] at hn hn'
    exact hspan k hk n hn hn'
  have hseed := derives_of_passes ho hs₁ hin.ordered hin.tidy hpasses hrefined
    (hderives seed hseed)
  obtain ⟨hs₂, hret⟩ := hrefined.returns ho hs₁
  obtain ⟨done₂, hin₂⟩ := Learner.inOrder_of_refineAll hin hret
  obtain ⟨rfl, rfl⟩ := Learner.of_returns_finalize (hfinal.returns ho hs₂).2
  exact hin₂.ordered.layered.derives_compactOn hin₂.tidy.targets_subset hseed

/-- Whether a text goes on with at least `letters` times `a` and after them at least `entries` more
entries, each a comma and one `a` or more. -/
def continuesList : Nat → Nat → Text → Bool
  | letters, entries, [] => letters = 0 && entries = 0
  | letters, entries, c :: t =>
    if c = 'a' then continuesList (letters - 1) entries t
    else if c = ',' && letters = 0 then continuesList 1 (entries - 1) t
    else false

/-- Whether a text is a list of two entries or more, the first with `first` letters at least. -/
def isList (first : Nat) (t : Text) : Bool := t.take 1 = [','] && continuesList first 1 (t.drop 1)

/-- An entry with at least `letters` times `a`, as it is learned. -/
def entry (letters : Nat) : List Node :=
  [.literal (.single ',' (.singleton ',')),
    .repetition (.literal (.single 'a' (.singleton 'a'))) (.atLeast letters)]

/-- Where all entries of a list are alike, a pass folds them, and the list is still derived. -/
theorem derives_of_synthesize_list : ∃ g s, (start (some 5000) ()).synthesize
      (Oracle.ofPredicate (isList 1)) Limits.strict [",aaa,aa".toList] = (.ok g, s) ∧
    g.root = .repetition (.sequence (entry 1)) (.atLeast 2) ∧
    Derives g.rules g.root ",aaa,aa".toList := by
  have hspan : (start (some 5000) ()).SpannedPasses (Oracle.ofPredicate (isList 1)) Limits.strict
      [",aaa,aa".toList] := by
    intro k hk root hroot _
    obtain rfl : k = 0 := Nat.lt_one_iff.mp hk
    obtain rfl : Node.sequence (entry 1 ++ entry 1) = root := Option.some.inj hroot
    intro cs hcs
    cases hcs
    exact Node.runsSpanned_of_pairwise (by decide)
  obtain ⟨g, s, hrun, hseeds⟩ := derives_of_synthesize
    (Oracle.answers_ofPredicate (isList 1)) (by decide) (by decide) hspan
  refine ⟨g, s, hrun, ?_, hseeds _ (.head _)⟩
  cases hrun
  rfl

/-- Copies of a node have at least the length of as many of its shortest texts. -/
theorem le_length_of_copies {r : Rules} {n : Node} {least : Nat}
    (h : ∀ t, Derives r n t → least ≤ t.length) {k : Nat} {t : Text}
    (ht : DerivesAll r (List.replicate k n) t) : k * least ≤ t.length := by
  induction k generalizing t with
  | zero => simp
  | succ k ih =>
    obtain ⟨u, v, rfl, hu, hv⟩ := derivesAll_cons.mp ht
    have hu := h u hu
    have hv := ih hv
    rw [List.length_append, Nat.succ_mul]
    omega

theorem le_length_of_repetition {r : Rules} {n : Node} {least : Nat}
    (h : ∀ t, Derives r n t → least ≤ t.length) {min : Nat} {t : Text}
    (ht : Derives r (.repetition n (.atLeast min)) t) : min * least ≤ t.length := by
  obtain ⟨k, hk, hcopies⟩ := derives_repetition.mp ht
  have hmin : min ≤ k := of_decide_eq_true (Bool.and_eq_true_iff.mp hk).1
  calc min * least ≤ k * least := Nat.mul_le_mul_right least hmin
    _ ≤ t.length := le_length_of_copies h hcopies

/-- A text of an entry has a comma and all its letters. -/
theorem le_length_of_entry {r : Rules} {letters : Nat} {t : Text}
    (ht : Derives r (.sequence (entry letters)) t) : letters + 1 ≤ t.length := by
  have single : ∀ (x : Char) (t : Text), Derives r (.literal (.single x (.singleton x))) t →
      1 ≤ t.length := by
    intro x t ht
    obtain ⟨d, rfl, _⟩ := (derives_single (by simp [CharClass.singleton, CharClass.ofChars,
      CharClass.ofSymbols])).mp ht
    exact Nat.le_refl _
  obtain ⟨u, v, rfl, hu, hv⟩ := derivesAll_cons.mp (derives_sequence.mp ht)
  have hu := single ',' u hu
  have hv := le_length_of_repetition (single 'a') (derivesAll_singleton.mp hv)
  rw [List.length_append]
  omega

/-- **A seed that is lost.** Where the first entry has to be longer, the pass folds both entries
into copies of the first one, and the seed with its shorter second entry is derived no more. -/
theorem synthesize_loses_seed : isList 3 ",aaa,aa".toList = true ∧
    ∃ g s, (start (some 5000) ()).synthesize (Oracle.ofPredicate (isList 3)) Limits.strict
        [",aaa,aa".toList] = (.ok g, s) ∧
      g.root = .repetition (.sequence (entry 3)) (.atLeast 2) ∧
      ¬ Derives g.rules g.root ",aaa,aa".toList := by
  refine ⟨by decide, _, _, rfl, rfl, fun h => ?_⟩
  have hentry : ∀ t, Derives Rules.empty (.sequence (entry 3)) t → 4 ≤ t.length :=
    fun t ht => le_length_of_entry ht
  exact absurd (le_length_of_repetition hentry h) (by decide)

end Session

end GrammarInference
