import GrammarInference.Proofs.SafeMerging
import GrammarInference.Proofs.Soundness

/-!
# The outcome of synthesis

With an oracle that answers every query by a function of the text there are three outcomes, each
in its own case: without seeds that there are none, with a rejected seed that the first such seed
was rejected, and otherwise a grammar that is in order. This needs that nothing between checking
the seeds and finishing the grammar fails: the tree of a seed, the merged root and the refined root
keep the memory in order, and a root with a memory in order can be finished.
-/

namespace GrammarInference

namespace Learner

variable {R : Replies} {limits : Limits} {m m' : Memory} {done : List Text} {root : Node}

/-! ### Finishing -/

/-- What is found among the compact rules was tidy and can be printed. -/
theorem isPrintable_of_mem_compactOn (ho : m.rules.Ordered done) {reached : List Text}
    (hsub : reached ⊆ done) {name : Text} {rule : Node}
    (h : (name, rule) ∈ (m.rules.compactOn reached).entries) : rule.isPrintable = true := by
  have hget := Rules.get?_of_mem_entries h
  have hname := Rules.mem_of_mem_names_compactOn (Rules.mem_names_of_get? hget)
  rw [Rules.get?_compactOn hname, Option.map_eq_some_iff] at hget
  obtain ⟨n, hn, rfl⟩ := hget
  exact Node.isPrintable_compact (ho.tidy name (hsub hname) n hn).mergeable.isPrintable

/-- The finished grammar can be printed. -/
theorem isSome_format?_of_inOrder (h : m.InOrder done root) : (Grammar.mk root.compact
    (m.rules.compactOn (m.rules.reachable root))).format?.isSome = true := by
  have hreached := h.ordered.layered.reachable_subset h.tidy.targets_subset
  unfold Grammar.format?
  rw [if_pos]
  · rfl
  · rw [Bool.and_eq_true, List.all_eq_true]
    exact ⟨Node.isPrintable_compact h.tidy.mergeable.isPrintable,
      fun _ he => isPrintable_of_mem_compactOn h.ordered hreached he⟩

/-- **Finishing cannot fail** where the memory is in order, and the finished grammar is in order
too. -/
theorem safe_finalize (h : m.InOrder done root) : (finalize root).Safe R m := by
  have htargets := h.tidy.targets_subset
  have hknown : (m.rules.reachable root).find? (fun name => !m.rules.contains name) = none := by
    refine List.find?_eq_none.mpr fun name hname => ?_
    have hreached := h.ordered.layered.reachable_subset htargets hname
    simpa [Rules.contains] using h.ordered.layered.subset_names hreached
  have hvalid := h.ordered.layered.validate_compactOn htargets
  obtain ⟨shown, hshown⟩ := Option.isSome_iff_exists.mp (isSome_format?_of_inOrder h)
  unfold Rules.compactOn at hvalid hshown
  refine safe_rules.bind fun _ _ hret => ?_
  obtain ⟨rfl, rfl⟩ := returns_rules.mp hret
  dsimp only
  rw [hknown]
  dsimp only
  rw [hvalid]
  dsimp only
  rw [hshown]
  exact (safe_note _).bind fun _ _ _ => safe_pure _

/-! ### From seeds to the root -/

theorem safe_seedTree (hR : R.Answered) (ho : m.rules.Ordered done) (hm : m.HasRegularClasses)
    (seed : Text) : (seedTree limits seed).Safe R m := by
  refine (safe_generalizeFrom hR hm [] seed).bind fun ks m₁ hks => ?_
  obtain ⟨hrules, hm₁, hcover⟩ := of_returns_generalizeFrom hm hks
  rw [← hrules] at ho
  have hparts := CharClass.Cover.part_literals hcover done
  refine (safe_structureRegion hR ho.founded fun n hn => (hparts n hn).displayable).bind
    fun out m₂ hout => ?_
  obtain ⟨done', _, hout, _⟩ := (restructured_of_structureRegion hout).grows ho hparts
  refine (safe_shownNode_compact
    (Node.tidy_sequenceOf hout).mergeable.isPrintable).bind fun _ _ _ => ?_
  exact (safe_note _).bind fun _ _ _ => safe_pure _

/-- Merging the tree of a seed into the root, with the memory in order again. -/
theorem inOrder_of_seed {seed : Text} {tree out : Node} {m₁ m₂ : Memory}
    (h : m.InOrder done root) (htree : (seedTree limits seed).Returns R m tree m₁)
    (hout : (mergeRoot limits root tree).Returns R m₁ out m₂) :
    ∃ done', m₂.InOrder done' out := by
  obtain ⟨done', hg, ht, _⟩ := seedTree_grows h.ordered h.regular htree
  obtain ⟨rfl, hin⟩ :=
    mergeRoot_inOrder ⟨ht.ordered, ht.regular, h.tidy.mono hg.subset⟩ ht.tidy hout
  exact ⟨done', hin⟩

theorem safe_mergeSeeds (hR : R.Answered) (seeds : List Text) (h : m.InOrder done root) :
    (mergeSeeds limits seeds root).Safe R m := by
  induction seeds generalizing m done root with
  | nil => exact safe_pure _
  | cons seed rest ih =>
    refine (safe_seedTree hR h.ordered h.regular seed).bind fun tree m₁ htree => ?_
    obtain ⟨done', hg, ht, _⟩ := seedTree_grows h.ordered h.regular htree
    refine (safe_mergeRoot hR ht.ordered.layered.grounded (h.tidy.mono hg.subset).mergeable
      ht.tidy.mergeable).bind
      fun out m₂ hout => ?_
    obtain ⟨_, hin⟩ := inOrder_of_seed h htree hout
    exact ih hin

theorem inOrder_of_mergeSeeds {seeds : List Text} {out : Node} (h : m.InOrder done root)
    (hret : (mergeSeeds limits seeds root).Returns R m out m') : ∃ done', m'.InOrder done' out :=
  mergeSeeds_induction (I := fun _ m root => ∃ done, m.InOrder done root)
    (fun _ _ _ _ _ _ _ _ _ ⟨_, h⟩ => inOrder_of_seed h) [] ⟨done, h⟩ hret

theorem inOrder_of_refineAll {out : Node} (h : m.InOrder done root)
    (hret : (refineAll limits root).Returns R m out m') : ∃ done', m'.InOrder done' out := by
  obtain ⟨done', hg, htidy, hclasses⟩ :=
    (refined_of_refinePasses _ hret).grows h.ordered h.tidy
  refine ⟨done', hg.ordered, ?_, htidy⟩
  unfold Memory.HasRegularClasses
  rw [hclasses]
  exact h.regular

theorem inOrder_of_firstTree {seed : Text} {tree : Node}
    (h : (seedTree limits seed).Returns R Memory.empty tree m) : ∃ done, m.InOrder done tree := by
  obtain ⟨done, _, hin, _⟩ :=
    seedTree_grows Rules.ordered_empty (fun k hk => by cases hk) h
  exact ⟨done, hin⟩

/-! ### Failures -/

/-- Checking seeds fails at the first one that is rejected. -/
theorem of_fails_checkSeeds (hR : R.Answered) {seeds : List Text} {e : Failure}
    (h : (checkSeeds limits seeds).Fails R m e) :
    ∃ before seed after, seeds = before ++ seed :: after ∧
      (∀ t ∈ before, R.seed t (.ok true)) ∧ R.seed seed (.ok false) ∧
      e = .seedRejected (showQuery (some limits.alphabet) seed) seed := by
  induction seeds with
  | nil => exact absurd h (safe_pure _ e)
  | cons seed rest ih =>
    simp only [checkSeeds] at h
    rcases fails_bind.mp h with hvouch | ⟨ok, m₁, hvouch, hnext⟩
    · exact absurd hvouch (safe_vouch hR seed e)
    · obtain ⟨hok, rfl⟩ := returns_vouch.mp hvouch
      split at hnext
      · next htrue =>
        rw [htrue] at hok
        rcases fails_bind.mp hnext with hnote | ⟨_, _, hnote, hrest⟩
        · exact absurd hnote (safe_note _ e)
        · obtain rfl := returns_note.mp hnote
          obtain ⟨before, s, after, rfl, hall, hs, he⟩ := ih hrest
          exact ⟨seed :: before, s, after, rfl, List.forall_mem_cons.mpr ⟨hok, hall⟩, hs, he⟩
      · next hfalse =>
        rw [Bool.not_eq_true] at hfalse
        rw [hfalse] at hok
        exact ⟨[], seed, rest, rfl, by simp, hok, fails_fail.mp hnext⟩

/-- **After the seeds.** Once the seeds have been checked, nothing fails. -/
theorem safe_learnFrom (hR : R.Answered) (seed : Text) (rest : List Text) :
    (do
      let tree ← seedTree limits seed
      let root ← mergeSeeds limits rest tree
      finalize (← refineAll limits root) : Learner Grammar).Safe R Memory.empty := by
  have hregular : Memory.empty.HasRegularClasses := fun k hk => by cases hk
  refine (safe_seedTree hR Rules.ordered_empty hregular seed).bind fun tree m₁ htree => ?_
  obtain ⟨_, htree⟩ := inOrder_of_firstTree htree
  refine (safe_mergeSeeds hR rest htree).bind fun root m₂ hroot => ?_
  obtain ⟨_, hroot⟩ := inOrder_of_mergeSeeds htree hroot
  refine (safe_refinePasses hR _ hroot.ordered hroot.tidy).bind fun refined m₃ href => ?_
  obtain ⟨_, href⟩ := inOrder_of_refineAll hroot href
  exact safe_finalize href

/-- Learning fails where there are no seeds, or at the check of the seeds. -/
theorem of_fails_synthesize (hR : R.Answered) {seeds : List Text} {e : Failure}
    (h : (synthesize limits seeds).Fails R Memory.empty e) :
    (seeds = [] ∧ e = .noSeeds) ∨ (checkSeeds limits seeds).Fails R Memory.empty e := by
  cases seeds with
  | nil => exact .inl ⟨rfl, fails_fail.mp h⟩
  | cons seed rest =>
    refine .inr ?_
    simp only [synthesize] at h
    rcases fails_bind.mp h with h | ⟨_, m₁, hcheck, h⟩
    · exact h
    · obtain ⟨rfl, _⟩ := of_returns_checkSeeds hcheck
      exact absurd h (safe_learnFrom hR seed rest e)

/-- A grammar that is returned is a compact root with the compact rules that it reaches, taken from
a memory in order, and all seeds were accepted. -/
theorem inOrder_of_returns_synthesize {seeds : List Text} {g : Grammar}
    (h : (synthesize limits seeds).Returns R Memory.empty g m') :
    seeds ≠ [] ∧ (∀ seed ∈ seeds, R.seed seed (.ok true)) ∧
      ∃ done root, m'.InOrder done root ∧
        g = ⟨root.compact, m'.rules.compactOn (m'.rules.reachable root)⟩ := by
  cases seeds with
  | nil => exact (returns_fail.mp h).elim
  | cons seed rest =>
    simp only [synthesize, returns_bind] at h
    obtain ⟨_, _, hcheck, tree, m₁, htree, root, m₂, hroot, refined, m₃, hrefined, hfinal⟩ := h
    obtain ⟨rfl, hseeds⟩ := of_returns_checkSeeds hcheck
    obtain ⟨_, htree⟩ := inOrder_of_firstTree htree
    obtain ⟨_, hroot⟩ := inOrder_of_mergeSeeds htree hroot
    obtain ⟨_, hrefined⟩ := inOrder_of_refineAll hroot hrefined
    obtain ⟨rfl, rfl⟩ := of_returns_finalize hfinal
    exact ⟨by simp, hseeds, _, refined, hrefined, rfl⟩

/-- A grammar that is returned is in order, and all seeds were accepted. -/
theorem validate_of_returns_synthesize {seeds : List Text} {g : Grammar}
    (h : (synthesize limits seeds).Returns R Memory.empty g m') :
    seeds ≠ [] ∧ (∀ seed ∈ seeds, R.seed seed (.ok true)) ∧ g.validate = .ok () := by
  obtain ⟨hne, hseeds, done, root, hroot, rfl⟩ := inOrder_of_returns_synthesize h
  exact ⟨hne, hseeds, hroot.ordered.layered.validate_compactOn hroot.tidy.targets_subset⟩

end Learner

namespace Session

variable {σ : Type} {f : Text → Bool} {o : Oracle σ}

/-- The first seed that a function rejects. -/
def firstRejected (f : Text → Bool) (seeds : List Text) : Option Text :=
  seeds.find? fun t => !f t

/-- The three outcomes of synthesis, with the cases they belong to. -/
inductive Outcome (f : Text → Bool) (limits : Limits) (seeds : List Text) :
    Except Failure Grammar → Prop
  /-- There are no seeds. -/
  | noSeeds (h : seeds = []) : Outcome f limits seeds (.error .noSeeds)
  /-- A seed is rejected; the first one is reported. -/
  | rejected {seed : Text} (h : firstRejected f seeds = some seed) :
    Outcome f limits seeds (.error (.seedRejected (showQuery (some limits.alphabet) seed) seed))
  /-- All seeds are accepted, and the learned grammar is in order. -/
  | learned {g : Grammar} (hne : seeds ≠ []) (hseeds : ∀ seed ∈ seeds, f seed = true)
    (hg : g.validate = .ok ()) : Outcome f limits seeds (.ok g)

/-- Synthesis has one of the three outcomes. -/
theorem outcome_of_consistent (ho : o.Answers f) (limits : Limits) {s : Session σ}
    (hs : s.Consistent f) (seeds : List Text) :
    Outcome f limits seeds (s.synthesize o limits seeds).1 := by
  have hreach := reaches_learn ho (Learner.synthesize limits seeds) Memory.empty hs
  unfold synthesize
  split
  · next g m s₁ hrun =>
    rw [hrun] at hreach
    obtain ⟨hne, hseeds, hg⟩ := Learner.validate_of_returns_synthesize hreach
    refine .learned hne (fun seed hseed => ?_) hg
    exact (Except.ok.inj (hseeds seed hseed).1).symm
  · next e m s₁ hrun =>
    rw [hrun] at hreach
    have hR := answered_replies f s₁
    rcases Learner.of_fails_synthesize hR ⟨m, hreach⟩ with ⟨hnil, rfl⟩ | hcheck
    · exact .noSeeds hnil
    · obtain ⟨before, seed, after, rfl, hall, hseed, rfl⟩ := Learner.of_fails_checkSeeds hR hcheck
      refine .rejected ?_
      have hbefore : before.find? (fun t => !f t) = none := by
        refine List.find?_eq_none.mpr fun t ht => ?_
        rw [← Except.ok.inj (hall t ht).1]
        decide
      have hfalse : f seed = false := (Except.ok.inj hseed.1).symm
      rw [firstRejected, List.find?_append, hbefore, Option.none_or, List.find?_cons, hfalse]
      rfl

/-- **Outcome of synthesis.** Synthesis reports that there are no seeds exactly if there are none,
and a rejected seed exactly if it is the first one that is rejected. If there are seeds and all are
accepted, it returns a grammar that is in order; there is no other failure. -/
theorem synthesize_outcome (ho : o.Answers f) (limits : Limits) (budget : Option Int) (world : σ)
    (seeds : List Text) :
    (((start budget world).synthesize o limits seeds).1 = .error .noSeeds ↔ seeds = []) ∧
    (∀ seed, ((start budget world).synthesize o limits seeds).1 =
        .error (.seedRejected (showQuery (some limits.alphabet) seed) seed) ↔
      seeds.find? (fun t => !f t) = some seed) ∧
    (seeds ≠ [] → (∀ seed ∈ seeds, f seed = true) →
      ∃ g, ((start budget world).synthesize o limits seeds).1 = .ok g ∧ g.validate = .ok ()) ∧
    ∀ e, ((start budget world).synthesize o limits seeds).1 = .error e →
      e = .noSeeds ∨ ∃ seed, e = .seedRejected (showQuery (some limits.alphabet) seed) seed := by
  have key := outcome_of_consistent ho limits (consistent_start f budget world) seeds
  generalize ((start budget world).synthesize o limits seeds).1 = r at key
  cases key with
  | noSeeds h =>
    subst h
    simp
  | @rejected seed h =>
    have hmem := List.mem_of_find?_eq_some h
    have hfalse := List.find?_some h
    unfold firstRejected at h
    refine ⟨⟨fun he => by simp at he, ?_⟩, fun t => ⟨fun ht => ?_, fun ht => ?_⟩, ?_, ?_⟩
    · rintro rfl
      cases hmem
    · obtain ⟨_, rfl⟩ := Failure.seedRejected.inj (Except.error.inj ht)
      exact h
    · rw [h] at ht
      cases ht
      rfl
    · intro _ hall
      rw [hall seed hmem] at hfalse
      cases hfalse
    · rintro e he
      cases he
      exact .inr ⟨seed, rfl⟩
  | @learned g hne hseeds hg =>
    refine ⟨⟨fun he => by simp at he, fun he => absurd he hne⟩, fun t => ⟨fun ht => by simp at ht,
      fun ht => ?_⟩, fun _ _ => ⟨g, rfl, hg⟩, fun e he => by simp at he⟩
    -- No seed is rejected here.
    have hfalse := List.find?_some ht
    rw [hseeds t (List.mem_of_find?_eq_some ht)] at hfalse
    cases hfalse

/-- Without any budget, a rejected second seed is reported, and accepted seeds give a grammar. -/
theorem synthesize_outcome_without_budget :
    ((start (some 0) ()).synthesize (Oracle.ofPredicate fun t => t = ['a']) Limits.strict
        [['a'], ['b'], ['c']]).1 =
      .error (.seedRejected (showQuery (some Limits.strict.alphabet) ['b']) ['b']) ∧
    ∃ g, ((start (some 0) ()).synthesize (Oracle.ofPredicate fun t => t = ['a']) Limits.strict
        [['a'], ['a']]).1 = .ok g ∧ g.validate = .ok () := by
  obtain ⟨-, hrejected, -⟩ := synthesize_outcome
    (Oracle.answers_ofPredicate fun t => t = ['a']) Limits.strict (some 0) () [['a'], ['b'], ['c']]
  obtain ⟨-, -, hlearned, -⟩ := synthesize_outcome
    (Oracle.answers_ofPredicate fun t => t = ['a']) Limits.strict (some 0) () [['a'], ['a']]
  exact ⟨(hrejected ['b']).mpr (by decide), hlearned (by decide) (by decide)⟩

end Session

end GrammarInference
