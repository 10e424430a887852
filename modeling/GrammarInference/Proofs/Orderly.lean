import GrammarInference.Learn.Synthesis
import GrammarInference.Proofs.OracleFaults
import GrammarInference.Proofs.Outcomes

/-!
# Learning ends at the first question without an answer

A tree of questions may go on in any way after a reply, also after the reply that there is no
answer. Learners do not: a question without an answer ends them with the failure of the oracle, and
nothing more is asked. Once the seeds have been checked, they ask within the budget only.
`Query.Orderly` says both of a tree, and `Learner.Orderly` of a learner on every memory.

The primitive learners are orderly and so are two orderly steps one after the other
(`Learner.Orderly.bind`); every other learner is put together from these.
-/

namespace GrammarInference

/-- A computation that asks no question outside the budget and ends with the failure of the oracle
where a question has no answer. -/
inductive Query.Orderly {α : Type} : Query (Except Failure α × Memory) → Prop
  /-- The result. -/
  | done (r : Except Failure α × Memory) : Orderly (.done r)
  /-- A query; it goes on after an answer only. -/
  | ask {t : Text} {next : Except OracleFault Bool → Query (Except Failure α × Memory)}
    (answered : ∀ b, Orderly (next (.ok b)))
    (failed : ∀ f, ∃ m, next (.error f) = .done (.error (.oracle f), m)) : Orderly (.ask t next)
  /-- Several queries; it goes on after answers only. -/
  | askMany {ts : List Text}
    {next : Except OracleFault (List Bool) → Query (Except Failure α × Memory)}
    (answered : ∀ bs, Orderly (next (.ok bs)))
    (failed : ∀ f, ∃ m, next (.error f) = .done (.error (.oracle f), m)) :
    Orderly (.askMany ts next)
  /-- A note is no question. -/
  | note {n : Note} {next : Query (Except Failure α × Memory)} (h : Orderly next) :
    Orderly (.note n next)

/-- Answers to all questions. -/
def Replies.answers : Replies where
  single _ r := ∃ b, r = .ok b
  batch _ r := ∃ bs, r = .ok bs
  seed _ r := ∃ b, r = .ok b

theorem Replies.answered_answers : Replies.answers.Answered where
  single t f h := by
    obtain ⟨b, hb⟩ := h
    cases hb
  batch ts f h := by
    obtain ⟨bs, hbs⟩ := h
    cases hbs
  seed t f h := by
    obtain ⟨b, hb⟩ := h
    cases hb

/-- **Ends.** In any session an orderly computation ends with a fault that the oracle reports, or as
if every question had been answered. -/
theorem Query.Orderly.ends {σ α : Type} {q : Query (Except Failure α × Memory)} (hq : q.Orderly)
    (o : Oracle σ) (s : Session σ) :
    q.Reaches .answers (q.run o s).1 ∨
      ∃ f m, (q.run o s).1 = (.error (.oracle f), m) ∧ o.Faults f := by
  induction hq generalizing s with
  | done r => exact .inl (.done r)
  | @ask t next _ failed ih =>
    rw [Query.run]
    rcases hr : s.tryQuery o t with ⟨f | b, s₁⟩
    · obtain ⟨m, hm⟩ := failed f
      dsimp only
      rw [hm]
      exact .inr ⟨f, m, rfl, Session.faults_of_tryQuery hr⟩
    · exact (ih b s₁).imp_left fun h => .ask ⟨b, rfl⟩ h
  | @askMany ts next _ failed ih =>
    rw [Query.run]
    rcases hr : s.tryQueryMany o ts with ⟨f | bs, s₁⟩
    · obtain ⟨m, hm⟩ := failed f
      dsimp only
      rw [hm]
      exact .inr ⟨f, m, rfl, Session.faults_of_tryQueryMany hr⟩
    · exact (ih bs s₁).imp_left fun h => .askMany ⟨bs, rfl⟩ h
  | note _ ih => exact (ih _).imp_left .note

/-- A learner whose questions are orderly on every memory. -/
def Learner.Orderly {α : Type} (l : Learner α) : Prop := ∀ m, (l.tree m).Orderly

namespace Learner

variable {α β : Type}

/-- **Two steps.** If the first step is orderly, and the second after every result, both are. -/
theorem Orderly.bind {l : Learner α} {f : α → Learner β} (hl : l.Orderly)
    (hf : ∀ a, (f a).Orderly) : (l >>= f : Learner β).Orderly := by
  -- By induction on the tree of the first step: the second one replaces its results.
  intro m
  rw [tree_bind]
  have hfirst := hl m
  generalize l.tree m = q at hfirst
  induction hfirst with
  | done r =>
    obtain ⟨e | a, m₁⟩ := r
    · exact .done _
    · exact hf a m₁
  | @ask t next _ failed ih =>
    refine .ask ih fun e => ?_
    obtain ⟨m₁, hm₁⟩ := failed e
    exact ⟨m₁, by rw [hm₁]; rfl⟩
  | @askMany ts next _ failed ih =>
    refine .askMany ih fun e => ?_
    obtain ⟨m₁, hm₁⟩ := failed e
    exact ⟨m₁, by rw [hm₁]; rfl⟩
  | note _ ih => exact .note ih

/-! ### Primitive learners -/

theorem orderly_pure (a : α) : (pure a : Learner α).Orderly := fun _ => .done _

theorem orderly_fail (f : Failure) : (fail f : Learner α).Orderly := fun _ => .done _

theorem orderly_accepts (t : Text) : (accepts t).Orderly := fun m =>
  .ask (fun _ => .done _) fun _ => ⟨m, rfl⟩

theorem orderly_acceptsEach (ts : List Text) : (acceptsEach ts).Orderly := fun m =>
  .askMany (fun _ => .done _) fun _ => ⟨m, rfl⟩

theorem orderly_note (n : Note) : (note n).Orderly := fun _ => .note (.done _)

theorem orderly_rules : rules.Orderly := fun _ => .done _

theorem orderly_setRule (name : Text) (rule : Node) : (setRule name rule).Orderly :=
  fun _ => .done _

theorem orderly_classes : classes.Orderly := fun _ => .done _

theorem orderly_learnClass (k : CharClass) : (learnClass k).Orderly := fun _ => .done _

/-- A choice between orderly learners is orderly. -/
theorem Orderly.ite {c : Prop} [Decidable c] {l l' : Learner α} (h : l.Orderly)
    (h' : l'.Orderly) : (if c then l else l').Orderly := by
  split
  · exact h
  · exact h'

theorem orderly_shownClass (k : CharClass) : (shownClass k).Orderly := by
  unfold shownClass
  split
  · exact orderly_pure _
  · exact orderly_fail _

theorem orderly_shownNode (n : Node) : (shownNode n).Orderly := by
  unfold shownNode
  split
  · exact orderly_pure _
  · exact orderly_fail _

private theorem orderly_ofRender (r : Except RenderFault Text) : (ofRender r).Orderly := by
  cases r with
  | ok t => exact orderly_pure t
  | error e => exact orderly_fail _

theorem orderly_render (n : Node) : (render n).Orderly :=
  orderly_rules.bind fun _ => orderly_ofRender _

theorem orderly_renderAll (ns : List Node) : (renderAll ns).Orderly :=
  orderly_rules.bind fun _ => orderly_ofRender _

theorem orderly_acceptsAll (ts : List Text) : (acceptsAll ts).Orderly := by
  induction ts with
  | nil => exact orderly_pure _
  | cons t rest ih => exact (orderly_accepts t).bind fun _ => ih.ite (orderly_pure _)

/-! ### Generalizing characters -/

section Generalizing

variable {limits : Limits} {c : Context}

private theorem orderly_firstConfirmed (ks : List CharClass) : (firstConfirmed c ks).Orderly := by
  induction ks with
  | nil => exact orderly_pure _
  | cons k rest ih => exact (orderly_acceptsAll _).bind fun _ => (orderly_pure _).ite ih

private theorem orderly_scan (candidates known : List Symbol) :
    (scan c candidates known).Orderly :=
  (orderly_acceptsEach _).bind fun _ => orderly_pure _

private theorem orderly_scanPredefined (observed : Symbol) (ks : List CharClass)
    (known : List Symbol) : (scanPredefined c observed ks known).Orderly := by
  induction ks generalizing known with
  | nil => exact orderly_pure _
  | cons k rest ih =>
    refine Orderly.ite ?_ (ih known)
    refine (orderly_acceptsAll _).bind fun _ => Orderly.ite ?_ (ih known)
    exact (orderly_scan _ _).bind fun more => ih more

private theorem orderly_scanAlphabet (known : List Symbol) :
    (scanAlphabet limits c known).Orderly :=
  (orderly_scan _ _).ite (orderly_pure _)

private theorem orderly_newClass (observed : Text) (known : List Symbol) :
    (newClass limits observed known).Orderly := by
  have hlearn : ∀ k, (do learnClass k; pure k : Learner CharClass).Orderly := fun k =>
    (orderly_learnClass k).bind fun _ => orderly_pure k
  refine Orderly.ite ?_ (hlearn _)
  refine (orderly_shownClass _).bind fun _ => ?_
  exact (orderly_note _).bind fun _ => hlearn _

theorem orderly_generalize (observed : Text) : (generalize limits c observed).Orderly := by
  refine orderly_classes.bind fun _ => (orderly_firstConfirmed _).bind fun first => ?_
  cases first with
  | some k =>
    refine (orderly_shownClass k).bind fun _ => ?_
    exact (orderly_note _).bind fun _ => orderly_pure k
  | none =>
    refine (orderly_scanPredefined _ _ _).bind fun _ => ?_
    exact (orderly_scanAlphabet _).bind fun _ => orderly_newClass _ _

theorem orderly_generalizeFrom (done rest : Text) : (generalizeFrom limits done rest).Orderly := by
  induction rest generalizing done with
  | nil => exact orderly_pure _
  | cons x rest ih =>
    exact (orderly_generalize _).bind fun _ => (ih _).bind fun _ => orderly_pure _

end Generalizing

/-! ### Giving structure -/

section Structure

variable {limits : Limits} {c : Context} {nodes : List Node}
  {inner : List Node → Context → Learner (List Node)}

private theorem orderly_lowerCount (body : Text) (probes count : Nat) :
    (lowerCount c body probes count).Orderly := by
  induction probes generalizing count with
  | zero => exact orderly_pure _
  | succ probes ih =>
    cases count with
    | zero => exact orderly_pure _
    | succ fewer => exact (orderly_accepts _).bind fun _ => (ih fewer).ite (orderly_pure _)

private theorem orderly_copiesKept (raw body : Text) (count : Nat) :
    (copiesKept c raw body count).Orderly :=
  (orderly_pure _).ite (orderly_accepts _)

theorem orderly_repetitionOf (hinner : ∀ ns c, (inner ns c).Orderly)
    (run : Run nodes.length) : (repetitionOf inner limits nodes c run).Orderly := by
  refine (orderly_renderAll _).bind fun _ => (orderly_renderAll _).bind fun _ => ?_
  refine (orderly_renderAll _).bind fun _ => (orderly_renderAll _).bind fun _ => ?_
  refine (orderly_accepts _).bind fun _ => Orderly.ite ?_ ?_
  · -- Copies are accepted: the body is learned, the least count, and then both sides.
    refine (hinner _ _).bind fun _ => (orderly_render _).bind fun _ => ?_
    refine (orderly_copiesKept _ _ _).bind fun _ => Orderly.ite (orderly_pure _) ?_
    refine (orderly_accepts _).bind fun _ => Orderly.ite (orderly_pure _) ?_
    refine (orderly_lowerCount _ _ _).bind fun _ => (orderly_shownNode _).bind fun _ => ?_
    refine (orderly_note _).bind fun _ => (hinner _ _).bind fun _ => ?_
    exact (orderly_renderAll _).bind fun _ => (hinner _ _).bind fun _ => orderly_pure _
  · exact (orderly_note _).bind fun _ => orderly_pure _

private theorem orderly_firstRepetition (hinner : ∀ ns c, (inner ns c).Orderly)
    (runs : List (Run nodes.length)) : (firstRepetition inner limits nodes c runs).Orderly := by
  induction runs with
  | nil => exact orderly_pure _
  | cons run rest ih =>
    refine (orderly_repetitionOf hinner run).bind fun first => ?_
    cases first with
    | some out => exact orderly_pure _
    | none => exact ih

private theorem orderly_nestingOf (hinner : ∀ ns c, (inner ns c).Orderly) (texts : List Text)
    (split : Split) : (nestingOf inner nodes c texts split).Orderly := by
  obtain ⟨i, j⟩ := split
  refine (orderly_accepts _).bind fun _ => Orderly.ite (orderly_pure _) ?_
  refine (orderly_accepts _).bind fun _ => Orderly.ite (orderly_pure _) ?_
  refine orderly_rules.bind fun _ => (orderly_setRule _ _).bind fun _ => ?_
  refine (hinner _ _).bind fun _ => (orderly_setRule _ _).bind fun _ => ?_
  exact (orderly_shownNode _).bind fun _ => (orderly_note _).bind fun _ => orderly_pure _

theorem orderly_firstNesting (hinner : ∀ ns c, (inner ns c).Orderly) (texts : List Text)
    (splits : List Split) : (firstNesting inner nodes c texts splits).Orderly := by
  induction splits with
  | nil => exact orderly_pure _
  | cons split rest ih =>
    refine (orderly_nestingOf hinner texts split).bind fun first => ?_
    cases first with
    | some out => exact orderly_pure _
    | none => exact ih

theorem orderly_renderEach (ns : List Node) : (renderEach ns).Orderly := by
  induction ns with
  | nil => exact orderly_pure _
  | cons n rest ih => exact (orderly_render n).bind fun _ => ih.bind fun _ => orderly_pure _

private theorem orderly_structureStep (hinner : ∀ ns c, (inner ns c).Orderly) :
    (structureStep inner limits nodes c).Orderly := by
  refine Orderly.ite (orderly_pure _) ?_
  refine (orderly_firstRepetition hinner _).bind fun repeated => ?_
  cases repeated with
  | some out => exact orderly_pure _
  | none =>
    refine Orderly.ite (orderly_pure _) ((orderly_renderEach _).bind fun _ => ?_)
    refine (orderly_firstNesting hinner _ _).bind fun nested => ?_
    cases nested with
    | some out => exact orderly_pure _
    | none => exact orderly_pure _

private theorem orderly_structureWithin (depth : Nat) (nodes : List Node) (c : Context) :
    (structureWithin limits depth nodes c).Orderly := by
  induction depth generalizing nodes c with
  | zero => exact orderly_pure _
  | succ depth ih => exact orderly_structureStep ih

theorem orderly_structureRegion (nodes : List Node) (c : Context) :
    (structureRegion limits nodes c).Orderly :=
  orderly_structureWithin _ _ _

end Structure

/-! ### Refining -/

section Refining

variable {limits : Limits}

mutual

theorem orderly_refine : ∀ (n : Node) (c : Context), (refine limits n c).Orderly
  | .sequence cs, c => by
    rw [refine]
    exact (orderly_structureRegion cs c).bind fun _ => orderly_pure _
  | .alternation [], c => by
    rw [refine]
    exact orderly_pure _
  | .alternation (o :: rest), c => by
    rw [refine]
    exact (orderly_refine o c).bind fun _ => (orderly_refineOptions rest c).bind fun _ =>
      orderly_pure _
  | .repetition b x, c => by
    rw [refine]
    refine (orderly_render b).bind fun _ => (orderly_refine b _).bind fun _ => ?_
    refine (orderly_render _).bind fun _ => Orderly.ite (orderly_pure _) ?_
    exact (orderly_accepts _).bind fun _ => (orderly_pure _).ite (orderly_pure _)
  | .literal l, c => by
    rw [refine]
    exact orderly_pure _
  | .recursive t, c => by
    rw [refine]
    exact orderly_pure _

theorem orderly_refineOptions : ∀ (os : List Node) (c : Context),
    (refineOptions limits os c).Orderly
  | [], c => by
    rw [refineOptions]
    exact orderly_pure _
  | o :: rest, c => by
    have hothers : ∀ kept, (do return kept :: (← refineOptions limits rest c) :
        Learner (List Node)).Orderly := fun _ =>
      (orderly_refineOptions rest c).bind fun _ => orderly_pure _
    have hkept : ∀ kept, (do
        let kept ← pure kept
        return kept :: (← refineOptions limits rest c) : Learner (List Node)).Orderly :=
      fun kept => (orderly_pure kept).bind hothers
    rw [refineOptions]
    refine (orderly_refine o c).bind fun refined => Orderly.ite (hkept o) ?_
    refine (orderly_render refined).bind fun _ => (orderly_accepts _).bind fun _ => ?_
    exact (hkept refined).ite (hkept o)

end

theorem orderly_refinePasses (passes : Nat) (root : Node) :
    (refinePasses limits passes root).Orderly := by
  induction passes generalizing root with
  | zero => exact orderly_pure _
  | succ passes ih =>
    refine (orderly_refine root _).bind fun _ => Orderly.ite (orderly_pure _) ?_
    refine (orderly_render _).bind fun _ => (orderly_accepts _).bind fun _ => ?_
    exact (ih _).ite (orderly_pure _)

end Refining

/-! ### Merging -/

section Merging

variable {limits : Limits} {c : Context} {a b : Node}
  {inner : Node → Node → Context → Learner (Option Node)}

private theorem orderly_addOptions (os options : List Node) :
    (addOptions c os options).Orderly := by
  induction os generalizing options with
  | nil => exact orderly_pure _
  | cons o rest ih =>
    refine (ih options).ite ((orderly_render o).bind fun _ => (orderly_accepts _).bind fun _ => ?_)
    refine (ih _).ite ((orderly_shownNode _).bind fun _ => ?_)
    exact (orderly_note _).bind fun _ => orderly_pure _

private theorem orderly_alternate : (alternate a b c).Orderly := by
  refine (orderly_addOptions _ _).bind fun options => ?_
  split
  · exact orderly_pure _
  · exact orderly_pure _
  · refine (orderly_shownNode _).bind fun _ => ?_
    exact (orderly_note _).bind fun _ => orderly_pure _

private theorem orderly_acceptsSymbols (ss : List Symbol) : (acceptsSymbols c ss).Orderly := by
  induction ss with
  | nil => exact orderly_pure _
  | cons s rest ih =>
    cases s with
    | text t => exact (orderly_accepts _).bind fun _ => ih.ite (orderly_pure _)
    | _ => exact orderly_fail _

private theorem orderly_uniteClasses (x y : Char) (ka kb : CharClass) :
    (uniteClasses limits x ka y kb c).Orderly := by
  have hrejected : (do
      note (Note.rejected "class union".toList
        ((← shownClass ka) ++ " | ".toList ++ (← shownClass kb)))
      return MergeOutcome.rejected : Learner MergeOutcome).Orderly :=
    (orderly_shownClass ka).bind fun _ => (orderly_shownClass kb).bind fun _ =>
      (orderly_note _).bind fun _ => orderly_pure _
  refine Orderly.ite (orderly_pure _) (Orderly.ite ((orderly_fail _).bind fun _ => ?_) ?_)
  all_goals
    refine (orderly_acceptsSymbols _).bind fun _ => Orderly.ite ?_ hrejected
    split
    · exact orderly_fail _
    · refine (orderly_shownClass ka).bind fun _ => (orderly_shownClass kb).bind fun _ => ?_
      refine (orderly_shownClass _).bind fun _ => ?_
      exact (orderly_note _).bind fun _ => orderly_pure _

private theorem orderly_mergeLiterals (l l' : Literal) : (mergeLiterals limits l l' c).Orderly := by
  unfold mergeLiterals
  split
  · split
    · exact (orderly_pure _).ite (orderly_uniteClasses _ _ _ _)
    · exact (orderly_pure _).ite (orderly_pure _)
  · exact orderly_pure _

private theorem orderly_countsAccepted (body : Text) (counts : List Nat) :
    (countsAccepted c body counts).Orderly := by
  induction counts with
  | nil => exact orderly_pure _
  | cons count rest ih =>
    refine (orderly_accepts _).bind fun _ => ih.ite ?_
    exact (orderly_note _).bind fun _ => orderly_pure _

private theorem orderly_mergeRepetitions (hinner : ∀ a b c, (inner a b c).Orderly) :
    (mergeRepetitions inner a b c).Orderly := by
  refine (orderly_render _).bind fun _ => (hinner _ _ _).bind fun body => ?_
  cases body with
  | none => exact orderly_pure _
  | some body =>
    refine (orderly_render body).bind fun _ => (orderly_countsAccepted _ _).bind fun _ => ?_
    exact (orderly_pure _).ite (orderly_pure _)

private theorem orderly_mergePairs (hinner : ∀ a b c, (inner a b c).Orderly)
    (rest as bs done : List Node) : (mergePairs inner c rest as bs done).Orderly := by
  induction as generalizing bs done with
  | nil => exact orderly_pure _
  | cons a as ih =>
    cases bs with
    | nil => exact orderly_pure _
    | cons b bs =>
      refine (orderly_renderAll _).bind fun _ => (orderly_renderAll _).bind fun _ => ?_
      refine (hinner _ _ _).bind fun merged => ?_
      cases merged with
      | none => exact orderly_pure _
      | some m => exact ih bs _

private theorem orderly_mergeBlocks (hinner : ∀ a b c, (inner a b c).Orderly)
    (blocks : List (Block Node)) (done : List Node) :
    (mergeBlocks inner c blocks done).Orderly := by
  induction blocks generalizing done with
  | nil => exact orderly_pure _
  | cons block blocks ih =>
    have hsides : (mergeSides inner c (blocks.flatMap Block.left) block done).Orderly :=
      (orderly_mergePairs hinner _ _ _ _).ite (orderly_pure _)
    refine hsides.bind fun merged => ?_
    cases merged with
    | some done => exact ih done
    | none =>
      refine (orderly_renderAll _).bind fun _ => (orderly_renderAll _).bind fun _ => ?_
      refine orderly_alternate.bind fun alternatives => ?_
      cases alternatives with
      | none => exact orderly_pure _
      | some m => exact ih _

private theorem orderly_mergeSequences (hinner : ∀ a b c, (inner a b c).Orderly) :
    (mergeSequences inner a b c).Orderly := by
  refine Orderly.ite ((orderly_fail _).bind fun _ => ?_) ?_
  all_goals
    refine (orderly_mergeBlocks hinner _ _).bind fun merged => ?_
    cases merged with
    | none => exact orderly_pure _
    | some merged => exact orderly_pure _

private theorem orderly_sameRule (s t : Text) : (sameRule s t).Orderly := by
  refine Orderly.ite (orderly_pure _) (orderly_rules.bind fun r => ?_)
  split
  · exact orderly_fail _
  · split
    · exact orderly_fail _
    · exact orderly_pure _

private theorem orderly_mergeStructure (hinner : ∀ a b c, (inner a b c).Orderly) :
    (mergeStructure inner limits a b c).Orderly := by
  unfold mergeStructure
  split
  · exact orderly_mergeLiterals _ _
  · exact orderly_mergeRepetitions hinner
  · exact orderly_mergeRepetitions hinner
  · exact (orderly_pure _).ite (orderly_pure _)
  · exact (orderly_sameRule _ _).bind fun _ => (orderly_pure _).ite (orderly_pure _)
  · exact orderly_mergeSequences hinner
  · exact orderly_mergeSequences hinner
  · exact orderly_pure _

private theorem orderly_mergeWithin (depth : Nat) (a b : Node) (c : Context) :
    (mergeWithin limits depth a b c).Orderly := by
  induction depth generalizing a b c with
  | zero => exact orderly_alternate
  | succ depth ih =>
    refine Orderly.ite (orderly_pure _) ((orderly_mergeStructure ih).bind fun outcome => ?_)
    cases outcome with
    | merged m => exact orderly_pure _
    | unrelated => exact orderly_alternate
    | rejected => exact orderly_alternate

theorem orderly_merge (a b : Node) (c : Context) : (merge limits a b c).Orderly :=
  orderly_mergeWithin _ a b c

theorem orderly_mergeByStructure (a b : Node) (c : Context) :
    (mergeByStructure limits a b c).Orderly :=
  orderly_mergeStructure (orderly_mergeWithin _)

private theorem orderly_tryMerge (existing tree : Node) :
    (tryMerge limits existing tree).Orderly := by
  refine Orderly.ite (orderly_pure _) ?_
  refine (orderly_mergeByStructure existing tree _).bind fun outcome => ?_
  cases outcome with
  | merged m =>
    refine (orderly_render m).bind fun _ => (orderly_render existing).bind fun _ => ?_
    refine Orderly.ite (orderly_pure _) ((orderly_accepts _).bind fun _ => ?_)
    exact (orderly_pure _).ite (orderly_pure _)
  | unrelated => exact orderly_pure _
  | rejected => exact orderly_pure _

private theorem orderly_mergeIntoFirst (tree : Node) (os : List Node) :
    (mergeIntoFirst limits tree os).Orderly := by
  induction os with
  | nil => exact orderly_pure _
  | cons o rest ih =>
    refine (orderly_tryMerge o tree).bind fun merged => ?_
    cases merged with
    | some m => exact orderly_pure _
    | none =>
      refine ih.bind fun others => ?_
      cases others with
      | some merged => exact orderly_pure _
      | none => exact orderly_pure _

theorem orderly_mergeRoot (root tree : Node) : (mergeRoot limits root tree).Orderly := by
  refine (orderly_mergeIntoFirst tree _).bind fun merged => ?_
  cases merged with
  | some merged => exact orderly_pure _
  | none => exact (orderly_pure _).ite ((orderly_note _).bind fun _ => orderly_pure _)

end Merging

/-! ### Learning from seeds -/

variable {limits : Limits}

theorem orderly_seedTree (seed : Text) : (seedTree limits seed).Orderly := by
  refine (orderly_generalizeFrom _ _).bind fun _ => (orderly_structureRegion _ _).bind fun _ => ?_
  refine (orderly_shownNode _).bind fun _ => ?_
  exact (orderly_note _).bind fun _ => orderly_pure _

theorem orderly_mergeSeeds (seeds : List Text) (root : Node) :
    (mergeSeeds limits seeds root).Orderly := by
  induction seeds generalizing root with
  | nil => exact orderly_pure _
  | cons seed rest ih =>
    exact (orderly_seedTree seed).bind fun _ => (orderly_mergeRoot _ _).bind fun _ => ih _

theorem orderly_finalize (root : Node) : (finalize root).Orderly := by
  refine orderly_rules.bind fun r => ?_
  dsimp only
  split
  · exact orderly_fail _
  · split
    · exact orderly_fail _
    · split
      · exact orderly_fail _
      · exact (orderly_note _).bind fun _ => orderly_pure _

/-- **After the seeds.** All that follows the check of the seeds is orderly. -/
theorem orderly_learnFrom (limits : Limits) (seed : Text) (rest : List Text) :
    (do
      let tree ← seedTree limits seed
      let root ← mergeSeeds limits rest tree
      finalize (← refineAll limits root) : Learner Grammar).Orderly := by
  refine (orderly_seedTree seed).bind fun _ => (orderly_mergeSeeds rest _).bind fun _ => ?_
  exact (orderly_refinePasses _ _).bind fun _ => orderly_finalize _

end Learner

end GrammarInference
