import GrammarInference.Oracle.Basic

/-!
# Sessions with an oracle

A session remembers the answers an oracle has given, so that no query is put twice, and counts the
queries against a budget. Once the budget is used up, further new queries are refused; the careful
forms `tryQuery`, `tryQueryMany` and `tryQueryAll` take a refusal for a rejection.

Several queries at once are charged before any of them is put. When the oracle fails in between,
the charge stands and no answer is remembered.
-/

namespace GrammarInference

/-- A session: what is left of asking an oracle in a world `σ`. -/
structure Session (σ : Type) where
  /-- The number of queries allowed, if there is a limit. -/
  budget : Option Int
  /-- The number of queries charged. -/
  queries : Nat
  /-- The number of queries answered from memory. -/
  hits : Nat
  /-- The remembered answers, the latest first. -/
  cache : List (Text × Bool)
  /-- Whether the end of the budget has been noted. -/
  exhaustedNoted : Bool
  /-- The texts put to the oracle, in order. -/
  put : List Text
  /-- The notes for the log, in order. -/
  notes : List Note
  /-- The world around the oracle. -/
  world : σ

/-- Why a session gave no answer. -/
inductive QueryError
  /-- The budget is used up. -/
  | budgetExceeded (limit : Int)
  /-- The oracle gave no answer. -/
  | oracle (fault : OracleFault)
  deriving Repr, DecidableEq

/-- The wording for a budget that is used up. -/
def budgetExceededMessage (limit : Int) : Text :=
  "Query budget of ".toList ++ Number.showInt limit ++ " exhausted".toList

namespace Session

variable {σ : Type}

/-- A session at its beginning. -/
def start (budget : Option Int) (world : σ) : Session σ := ⟨budget, 0, 0, [], false, [], [], world⟩

/-- How many more queries may be charged. -/
def remaining (s : Session σ) : Option Nat := s.budget.map fun b : Int => (b - s.queries).toNat

/-- The remembered answer to a query. -/
def answer? (s : Session σ) (t : Text) : Option Bool := s.cache.lookup t

/-- Whether the answer to a query is remembered. -/
def isCached (s : Session σ) (t : Text) : Bool := (s.answer? t).isSome

/-- Remembers an answer that was obtained in some other way. -/
def remember (s : Session σ) (t : Text) (accepted : Bool) : Session σ :=
  { s with cache := (t, accepted) :: s.cache }

/-- Adds a note to the log. -/
def addNote (s : Session σ) (n : Note) : Session σ := { s with notes := s.notes ++ [n] }

/-- Notes, once, that the budget is used up. -/
def noteExhausted (s : Session σ) (limit : Int) : Session σ :=
  if s.exhaustedNoted then s
  else { s with
    exhaustedNoted := true
    notes := s.notes ++ [Note.budgetExhausted (Number.showInt limit)] }

/-- Charges `count` queries, unless that exceeds the budget. -/
def charge (s : Session σ) (count : Nat) : Except QueryError Unit × Session σ :=
  match s.budget with
  | none => (.ok (), { s with queries := s.queries + count })
  | some limit =>
    if (limit - s.queries).toNat < count then
      (.error (.budgetExceeded limit), s.noteExhausted limit)
    else (.ok (), { s with queries := s.queries + count })

/-- Puts a query to the oracle, outside any budget. -/
def consult (s : Session σ) (o : Oracle σ) (t : Text) : Except OracleFault Bool × Session σ :=
  let (r, world) := o.reply t s.world
  (r.verdict, { s with put := s.put ++ [t], notes := s.notes ++ r.notes, world })

/-- Answers a query from memory, or puts it to the oracle. -/
def query (s : Session σ) (o : Oracle σ) (t : Text) : Except QueryError Bool × Session σ :=
  match s.answer? t with
  | some b => (.ok b, { s with hits := s.hits + 1 })
  | none =>
    match s.charge 1 with
    | (.error e, s) => (.error e, s)
    | (.ok (), s) =>
      match s.consult o t with
      | (.error f, s) => (.error (.oracle f), s)
      | (.ok b, s) => (.ok b, s.remember t b)

/-- The distinct queries without a remembered answer, in order. -/
def pending (s : Session σ) (ts : List Text) : List Text :=
  (Text.distinct ts).filter fun t => !s.isCached t

/-- Remembers several answers, in order. -/
def rememberAll (s : Session σ) : List (Text × Bool) → Session σ
  | [] => s
  | (t, b) :: rest => (s.remember t b).rememberAll rest

/-- Answers several queries; those without a remembered answer are charged and put together. -/
def queryMany (s : Session σ) (o : Oracle σ) (ts : List Text) :
    Except QueryError (List Bool) × Session σ :=
  let pending := s.pending ts
  match s.charge pending.length with
  | (.error e, s) => (.error e, s)
  | (.ok (), s) =>
    let (batch, world) := o.askAll pending s.world
    let s := { s with put := s.put ++ batch.put, notes := s.notes ++ batch.notes, world }
    match batch.verdicts with
    | .error f => (.error (.oracle f), s)
    | .ok bs =>
      let s := s.rememberAll (pending.zip bs)
      (.ok (ts.map fun t => (s.answer? t).getD false),
        { s with hits := s.hits + (ts.length - pending.length) })

/-- Answers a query; a query that the budget refuses counts as rejected. -/
def tryQuery (s : Session σ) (o : Oracle σ) (t : Text) : Except OracleFault Bool × Session σ :=
  match s.query o t with
  | (.ok b, s) => (.ok b, s)
  | (.error (.budgetExceeded _), s) => (.ok false, s)
  | (.error (.oracle f), s) => (.error f, s)

/-- Whether all queries are accepted; stops at the first one that is not. -/
def tryQueryAll (s : Session σ) (o : Oracle σ) : List Text → Except OracleFault Bool × Session σ
  | [] => (.ok true, s)
  | t :: rest =>
    match s.tryQuery o t with
    | (.error f, s) => (.error f, s)
    | (.ok false, s) => (.ok false, s)
    | (.ok true, s) => s.tryQueryAll o rest

/-- Answers of several queries as a batch: a query that the budget refuses counts as rejected. -/
def answersOrRejected (r : Except QueryError (List Bool) × Session σ) (ts : List Text) :
    Except OracleFault (List Bool) × Session σ :=
  match r with
  | (.ok bs, s) => (.ok bs, s)
  | (.error (.budgetExceeded _), s) => (.ok (ts.map fun _ => false), s)
  | (.error (.oracle f), s) => (.error f, s)

/-- Answers as many of several queries as the budget allows; the others count as rejected. -/
def tryQueryMany (s : Session σ) (o : Oracle σ) (ts : List Text) :
    Except OracleFault (List Bool) × Session σ :=
  let pending := s.pending ts
  match s.budget with
  | none => answersOrRejected (s.queryMany o ts) ts
  | some limit =>
    let remaining := (limit - s.queries).toNat
    if remaining < pending.length then
      let allowed := pending.take remaining
      let answerable := ts.filter fun t => s.isCached t || t ∈ allowed
      match answersOrRejected (s.queryMany o answerable) answerable with
      | (.error f, s) => (.error f, s)
      | (.ok bs, s) =>
        (.ok (ts.map fun t => ((answerable.zip bs).lookup t).getD false), s.noteExhausted limit)
    else answersOrRejected (s.queryMany o ts) ts

/-- Checks a seed: the answer is taken from memory, or asked for outside the budget and
remembered. -/
def vouch (s : Session σ) (o : Oracle σ) (t : Text) : Except OracleFault Bool × Session σ :=
  match s.answer? t with
  | some b => (.ok b, { s with hits := s.hits + 1 })
  | none =>
    match s.consult o t with
    | (.error f, s) => (.error f, s)
    | (.ok b, s) => (.ok b, s.remember t b)

end Session

end GrammarInference
