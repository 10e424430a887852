import GrammarInference.Oracle.Session

/-!
# Computations that ask

Learning is written as a tree of questions: at each inner node a query is asked, and the answer
decides how to go on. What the tree does is fixed without any oracle; a session with an oracle is
one way of answering its questions.

The main statements are the monad laws and that running a tree in a session goes step by step.
-/

namespace GrammarInference

/-- A computation that asks queries on its way to a result. -/
inductive Query (α : Type) where
  /-- The result. -/
  | done (result : α)
  /-- Asks whether a text is accepted; a query that the budget refuses counts as rejected. -/
  | ask (t : Text) (next : Except OracleFault Bool → Query α)
  /-- Asks about several texts at once. -/
  | askMany (ts : List Text) (next : Except OracleFault (List Bool) → Query α)
  /-- Asks about a seed, outside the budget. -/
  | vouch (t : Text) (next : Except OracleFault Bool → Query α)
  /-- Leaves a note in the log. -/
  | note (n : Note) (next : Query α)

namespace Query

/-- Goes on with the result of a computation. -/
def bind {α β : Type} : Query α → (α → Query β) → Query β
  | .done a, f => f a
  | .ask t next, f => .ask t fun r => (next r).bind f
  | .askMany ts next, f => .askMany ts fun r => (next r).bind f
  | .vouch t next, f => .vouch t fun r => (next r).bind f
  | .note n next, f => .note n (next.bind f)

instance : Monad Query where
  pure := .done
  bind := bind

theorem bind_done {α : Type} (q : Query α) : q.bind .done = q := by
  induction q with
  | done a => rfl
  | ask t next ih => simp only [bind]; congr; funext r; exact ih r
  | askMany ts next ih => simp only [bind]; congr; funext r; exact ih r
  | vouch t next ih => simp only [bind]; congr; funext r; exact ih r
  | note n next ih => simp only [bind]; congr

theorem bind_assoc {α β γ : Type} (q : Query α) (f : α → Query β) (g : β → Query γ) :
    (q.bind f).bind g = q.bind fun a => (f a).bind g := by
  induction q with
  | done a => rfl
  | ask t next ih => simp only [bind]; congr; funext r; exact ih r
  | askMany ts next ih => simp only [bind]; congr; funext r; exact ih r
  | vouch t next ih => simp only [bind]; congr; funext r; exact ih r
  | note n next ih => simp only [bind]; congr

instance : LawfulMonad Query :=
  LawfulMonad.mk' Query bind_done (fun _ _ => rfl) bind_assoc

/-- Answers the questions of a computation in a session with an oracle. -/
def run {σ α : Type} (o : Oracle σ) : Query α → Session σ → α × Session σ
  | .done a, s => (a, s)
  | .ask t next, s => let (r, s) := s.tryQuery o t; (next r).run o s
  | .askMany ts next, s => let (r, s) := s.tryQueryMany o ts; (next r).run o s
  | .vouch t next, s => let (r, s) := s.vouch o t; (next r).run o s
  | .note n next, s => next.run o (s.addNote n)

/-- Running one computation after another hands the session on. -/
theorem run_bind {σ α β : Type} (o : Oracle σ) (q : Query α) (f : α → Query β)
    (s : Session σ) :
    (q.bind f).run o s = (f (q.run o s).1).run o (q.run o s).2 := by
  induction q generalizing s with
  | done a => rfl
  | ask t next ih => simp only [bind, run]; exact ih _ _
  | askMany ts next ih => simp only [bind, run]; exact ih _ _
  | vouch t next ih => simp only [bind, run]; exact ih _ _
  | note n next ih => simp only [bind, run]; exact ih _

end Query

end GrammarInference
