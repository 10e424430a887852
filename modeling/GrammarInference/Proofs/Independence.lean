import GrammarInference.Proofs.Batches
import GrammarInference.Proofs.Bookkeeping

/-!
# Learning without memory of earlier answers

A session remembers answers, so that two runs of the same learner may put quite different texts to
the oracle. Without a budget this never shows in what is learned. A computation is a tree of
questions; `Query.answeredBy f` is its result when the function `f` answers all of them. Running the
tree in a session whose remembered answers are those of `f` gives this result
(`Session.run_of_unlimited`), and so does putting every question to the oracle, with no session at
all (`Query.runDirectly_fst`).

A session stays of this kind whatever is learned in it, also where learning fails, so that what is
learned from some seeds does not depend on what was learned before
(`Session.synthesize_independent`).
-/

namespace GrammarInference

variable {σ : Type} {o : Oracle σ} {f : Text → Bool}

namespace Oracle.Answers

theorem neverFails (ho : o.Answers f) : o.NeverFails := fun t world => ⟨f t, ho t world⟩

theorem decides (ho : o.Answers f) : o.Decides fun t => .ok (f t) := ho

end Oracle.Answers

namespace Query

variable {α : Type}

/-- The result of a computation when a function answers its questions. -/
def answeredBy (f : Text → Bool) : Query α → α
  | .done a => a
  | .ask t next => (next (.ok (f t))).answeredBy f
  | .askMany ts next => (next (.ok (ts.map f))).answeredBy f
  | .vouch t next => (next (.ok (f t))).answeredBy f
  | .note _ next => next.answeredBy f

/-- Answers the questions of a computation by putting every single one to an oracle. Nothing is
remembered, and nothing is counted. -/
def runDirectly (o : Oracle σ) : Query α → σ → α × σ
  | .done a, world => (a, world)
  | .ask t next, world =>
    let (r, world) := o.reply t world
    (next r.verdict).runDirectly o world
  | .askMany ts next, world =>
    let (batch, world) := o.askAll ts world
    (next batch.verdicts).runDirectly o world
  | .vouch t next, world =>
    let (r, world) := o.reply t world
    (next r.verdict).runDirectly o world
  | .note _ next, world => next.runDirectly o world

/-- The result of putting every question to an oracle that a function answers. -/
theorem runDirectly_fst (ho : o.Answers f) (q : Query α) (world : σ) :
    (q.runDirectly o world).1 = q.answeredBy f := by
  induction q generalizing world with
  | done a => rfl
  | ask t next ih =>
    rw [answeredBy, ← ho t world]
    exact ih _ _
  | askMany ts next ih =>
    rw [answeredBy, ← (ho.askAll ts world).1]
    exact ih _ _
  | vouch t next ih =>
    rw [answeredBy, ← ho t world]
    exact ih _ _
  | note n next ih => exact ih world

end Query

/-- What a learner ends with when it starts without rules and classes and puts every question to an
oracle. -/
def Learner.directly {α : Type} (l : Learner α) (o : Oracle σ) (world : σ) : Except Failure α :=
  ((l.tree Memory.empty).runDirectly o world).1.1

namespace Session

variable {s : Session σ}

/-- A session without a budget, whose remembered answers are those of a function. -/
structure Unlimited (f : Text → Bool) (s : Session σ) : Prop where
  /-- The remembered answers are those of the function. -/
  consistent : s.Consistent f
  /-- Any number of queries may be charged. -/
  budget : s.budget = none

namespace Unlimited

/-- A careful query gets the answer of the function, from memory or from the oracle. -/
theorem tryQuery (ho : o.Answers f) (hs : s.Unlimited f) (t : Text) :
    (s.tryQuery o t).1 = .ok (f t) ∧ (s.tryQuery o t).2.Unlimited f := by
  have hconsistent := (tryQuery_spec ho hs.consistent t).1.consistent
  obtain ⟨new, hexchange⟩ := handled_tryQuery ho.decides s t
  have hbudget : (s.tryQuery o t).2.budget = none := hexchange.budget.trans hs.budget
  refine ⟨?_, hconsistent, hbudget⟩
  -- What is remembered is right; what is not may be asked, since no budget can run out.
  cases hanswer : s.answer? t with
  | some b =>
    have hb : f t = b := (hs.consistent t b hanswer).1
    rw [tryQuery_of_query (query_of_isCached hanswer), hb]
  | none =>
    have hallowed : ∀ r ∈ s.remaining, 0 < r := by
      intro r hr
      rw [remaining, hs.budget] at hr
      cases hr
    obtain ⟨b, hquery, hafter⟩ :=
      query_of_allowed ho.neverFails (isCached_eq_false_iff.mpr hanswer) hallowed
    have htry := tryQuery_of_query hquery
    rw [htry] at hconsistent ⊢
    rw [(hconsistent t b hafter).1]

/-- Careful queries one after another get the answers of the function. -/
theorem oneByOne (ho : o.Answers f) (hs : s.Unlimited f) (ts : List Text) :
    (s.oneByOne (·.tryQuery o) ts).1 = .ok (ts.map f) ∧
      (s.oneByOne (·.tryQuery o) ts).2.Unlimited f := by
  induction ts generalizing s with
  | nil => exact ⟨rfl, hs⟩
  | cons t rest ih =>
    obtain ⟨hanswer, hs₁⟩ := hs.tryQuery ho t
    rcases hfirst : s.tryQuery o t with ⟨r, s₁⟩
    rw [hfirst] at hanswer hs₁
    dsimp only at hanswer
    subst hanswer
    obtain ⟨hanswers, hs₂⟩ := ih hs₁
    rcases hrest : s₁.oneByOne (·.tryQuery o) rest with ⟨rs, s₂⟩
    rw [hrest] at hanswers hs₂
    dsimp only at hanswers
    subst hanswers
    rw [oneByOne_cons hfirst hrest]
    exact ⟨rfl, hs₂⟩

/-- Careful queries at once are careful queries one after another. -/
theorem tryQueryMany (ho : o.Answers f) (hs : s.Unlimited f) (ts : List Text) :
    (s.tryQueryMany o ts).1 = .ok (ts.map f) ∧ (s.tryQueryMany o ts).2.Unlimited f := by
  rw [tryQueryMany_eq ho.neverFails, ← oneByOne_tryQuery ho.neverFails]
  exact hs.oneByOne ho ts

theorem vouch (ho : o.Answers f) (hs : s.Unlimited f) (t : Text) :
    (s.vouch o t).1 = .ok (f t) ∧ (s.vouch o t).2.Unlimited f := by
  obtain ⟨hfollows, hanswer, -⟩ := vouch_spec ho hs.consistent t
  have hbudget : (s.vouch o t).2.budget = s.budget := by
    rw [Session.vouch]
    split
    · rfl
    · rcases hc : s.consult o t with ⟨f | b, s₁⟩
      all_goals
        obtain rfl : s₁ = (s.consult o t).2 := by rw [hc]
        rfl
  exact ⟨hanswer, hfollows.consistent, hbudget.trans hs.budget⟩

theorem addNote (hs : s.Unlimited f) (n : Note) : (s.addNote n).Unlimited f :=
  ⟨hs.consistent, hs.budget⟩

end Unlimited

/-- **Run**: in a session without a budget a computation gets the result that the function gives,
whatever is remembered, and the session stays of this kind. -/
theorem run_of_unlimited (ho : o.Answers f) {α : Type} (q : Query α) (hs : s.Unlimited f) :
    (q.run o s).1 = q.answeredBy f ∧ (q.run o s).2.Unlimited f := by
  induction q generalizing s with
  | done a => exact ⟨rfl, hs⟩
  | ask t next ih =>
    obtain ⟨hanswer, hnext⟩ := hs.tryQuery ho t
    rw [Query.run, Query.answeredBy, ← hanswer]
    exact ih _ hnext
  | askMany ts next ih =>
    obtain ⟨hanswers, hnext⟩ := hs.tryQueryMany ho ts
    rw [Query.run, Query.answeredBy, ← hanswers]
    exact ih _ hnext
  | vouch t next ih =>
    obtain ⟨hanswer, hnext⟩ := hs.vouch ho t
    rw [Query.run, Query.answeredBy, ← hanswer]
    exact ih _ hnext
  | note n next ih =>
    rw [Query.run, Query.answeredBy]
    exact ih (hs.addNote n)

/-- What is learned in a session without a budget is what is learned with no session. -/
theorem synthesize_of_unlimited (ho : o.Answers f) (hs : s.Unlimited f) (limits : Limits)
    (seeds : List Text) (world : σ) :
    (s.synthesize o limits seeds).1 = (Learner.synthesize limits seeds).directly o world ∧
      (s.synthesize o limits seeds).2.Unlimited f := by
  obtain ⟨hresult, hs₁⟩ :=
    run_of_unlimited ho ((Learner.synthesize limits seeds).tree Memory.empty) hs
  rw [← Query.runDirectly_fst ho _ world] at hresult
  rw [Learner.directly, ← hresult, synthesize, learn]
  generalize ((Learner.synthesize limits seeds).tree Memory.empty).run o s = r at hs₁
  rcases r with ⟨⟨e | g, m⟩, s₁⟩
  · exact ⟨rfl, hs₁⟩
  · exact ⟨rfl, hs₁.addNote s₁.finishedNote⟩

/-- The session after learning from several lists of seeds, one after another. -/
def afterLearning (s : Session σ) (o : Oracle σ) (limits : Limits) (history : List (List Text)) :
    Session σ :=
  history.foldl (fun s seeds => (s.synthesize o limits seeds).2) s

/-- **Run**: learning keeps a session without a budget of its kind, also where it fails. -/
theorem Unlimited.afterLearning (ho : o.Answers f) (hs : s.Unlimited f) (limits : Limits)
    (history : List (List Text)) : (s.afterLearning o limits history).Unlimited f := by
  induction history generalizing s with
  | nil => exact hs
  | cons seeds rest ih =>
    have hnext := (synthesize_of_unlimited ho hs limits seeds s.world).2
    exact ih hnext

variable {limits : Limits}

/-- **Independence.** For an oracle that always answers, and limits without a budget, learning from
seeds ends in the same way after whatever has been learned before as in a fresh session, and as
with every question put to the oracle and no session at all. -/
theorem synthesize_independent (ho : o.Answers f) (hlimits : limits.maxQueries = none)
    (history : List (List Text)) (seeds : List Text) (world world' : σ) :
    let fresh := start (limits.maxQueries.map Int.ofNat)
    (((fresh world).afterLearning o limits history).synthesize o limits seeds).1 =
        ((fresh world').synthesize o limits seeds).1 ∧
      (((fresh world).afterLearning o limits history).synthesize o limits seeds).1 =
        (Learner.synthesize limits seeds).directly o world' := by
  intro fresh
  have hfresh : ∀ world, (fresh world).Unlimited f := fun world => by
    have hbudget : limits.maxQueries.map Int.ofNat = none := by rw [hlimits]; rfl
    exact ⟨consistent_start f _ world, hbudget⟩
  have hlater := (hfresh world).afterLearning ho limits history
  have hdirectly := (synthesize_of_unlimited ho hlater limits seeds world').1
  refine ⟨?_, hdirectly⟩
  rw [hdirectly]
  exact (synthesize_of_unlimited ho (hfresh world') limits seeds world').1.symm

/-- A session that has learned from one list of seeds, rejected another and refused an empty one
has put several texts already, and still learns the same as a fresh one. -/
theorem synthesize_independent_letters :
    let o := Oracle.ofPredicate fun t => t.all (· = 'a')
    let limits : Limits := { Limits.strict with maxQueries := none }
    let later := (start none ()).afterLearning o limits [[['a', 'a']], [['a'], ['b'], ['c']], []]
    limits.maxQueries = none ∧
      later.put = [['a', 'a'], ['m', 'a'], ['a', 'a', 'a'], ['a'], [], ['b']] ∧
      (later.synthesize o limits [['a', 'a', 'a']]).1 =
        ((start none ()).synthesize o limits [['a', 'a', 'a']]).1 ∧
      (later.synthesize o limits [['a', 'a', 'a']]).1 =
        (Learner.synthesize limits [['a', 'a', 'a']]).directly o () ∧
      ((later.synthesize o limits [['a', 'a', 'a']]).1.toOption.bind Grammar.format?) =
        some ['(', 'a', ')', '*'] := by
  intro o limits later
  obtain ⟨hfresh, hdirectly⟩ :=
    synthesize_independent (Oracle.answers_ofPredicate fun t => t.all (· = 'a'))
      (show limits.maxQueries = none from rfl) [[['a', 'a']], [['a'], ['b'], ['c']], []]
      [['a', 'a', 'a']] () ()
  exact ⟨rfl, by decide +kernel, hfresh, hdirectly, by decide +kernel⟩

end Session

end GrammarInference
