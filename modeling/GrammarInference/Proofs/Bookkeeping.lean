import GrammarInference.Proofs.Batches
import Mathlib.Data.List.Induction

/-!
# The books of a session

A session keeps two counters, a budget and the remembered answers while queries of every kind are
asked in any order and other answers are handed to it. `Session.sound_after` states what its books
say after any list of calls to an oracle whose answers are fixed by the text: an oracle that
accepts, rejects or fails.

What one call may do is said once, by `Session.Exchange`: some new texts are put, they are charged
for within the budget, and the answers gained are those of the oracle to these texts. All kinds of
queries come down to `Session.queryMany`; a query about one text is one about a list of length one
(`Session.queryMany_singleton`).
-/

namespace GrammarInference

variable {σ : Type}

/-- What an oracle says to a query is fixed by its text, whether it is an answer or a failure. -/
def Oracle.Decides (o : Oracle σ) (v : Text → Except OracleFault Bool) : Prop :=
  ∀ t world, (o.reply t world).1.verdict = v t

namespace Oracle.Decides

variable {o : Oracle σ} {v : Text → Except OracleFault Bool}

/-- Of several queries, those up to the first failure are put. -/
theorem askAll (ho : o.Decides v) (ts : List Text) (world : σ) :
    (o.askAll ts world).1.put <+: ts ∧
      (∀ bs, (o.askAll ts world).1.verdicts = .ok bs →
        (o.askAll ts world).1.put = ts ∧ List.Forall₂ (fun t b => v t = .ok b) ts bs) ∧
      ∀ f, (o.askAll ts world).1.verdicts = .error f →
        ∃ t ∈ (o.askAll ts world).1.put, v t = .error f := by
  induction ts generalizing world with
  | nil =>
    refine ⟨List.prefix_rfl, fun bs h => ?_, fun f h => by cases h⟩
    cases h
    exact ⟨rfl, .nil⟩
  | cons t rest ih =>
    have hv := ho t world
    obtain ⟨hinitial, hok, herror⟩ := ih (o.reply t world).2
    simp only [Oracle.askAll]
    rw [hv]
    cases hvt : v t with
    | error f =>
      refine ⟨by simp, fun bs h => (by cases h), fun f' h => ?_⟩
      cases h
      exact ⟨t, List.mem_singleton_self t, hvt⟩
    | ok b =>
      refine ⟨by simpa using hinitial, fun bs h => ?_, fun f h => ?_⟩
      · -- The other texts have verdicts if all of them have; then all of them have been put.
        obtain ⟨bs', hbs', rfl⟩ : ∃ bs', (o.askAll rest (o.reply t world).2).1.verdicts = .ok bs' ∧
            b :: bs' = bs := by
          dsimp only at h
          cases hrest : (o.askAll rest (o.reply t world).2).1.verdicts with
          | error f => rw [hrest] at h; cases h
          | ok bs' => rw [hrest] at h; exact ⟨bs', rfl, Except.ok.inj h⟩
        obtain ⟨hput, hall⟩ := hok bs' hbs'
        exact ⟨by rw [hput], .cons hvt hall⟩
      · have hrest : (o.askAll rest (o.reply t world).2).1.verdicts = .error f := by
          dsimp only at h
          cases hrest : (o.askAll rest (o.reply t world).2).1.verdicts with
          | error f' => rw [hrest] at h; cases h; rfl
          | ok bs' => rw [hrest] at h; cases h
        obtain ⟨u, hu, hvu⟩ := herror f hrest
        exact ⟨u, List.mem_cons_of_mem t hu, hvu⟩

end Oracle.Decides

namespace Session

/-! ### Calls -/

/-- A call to a session. -/
inductive Call
  | query (t : Text)
  | queryMany (ts : List Text)
  | tryQuery (t : Text)
  | tryQueryMany (ts : List Text)
  | tryQueryAll (ts : List Text)
  | remember (t : Text) (accepted : Bool)

/-- A result of careful queries, in the form that plain queries have. -/
def ofCareful {α : Type} (r : Except OracleFault α × Session σ) : Except QueryError α × Session σ :=
  (r.1.mapError .oracle, r.2)

/-- Carries out a call. A single answer is a list with one entry, and remembering gives none. -/
def perform (s : Session σ) (o : Oracle σ) : Call → Except QueryError (List Bool) × Session σ
  | .query t => ((s.query o t).1.map ([·]), (s.query o t).2)
  | .queryMany ts => s.queryMany o ts
  | .tryQuery t => ofCareful ((s.tryQuery o t).1.map ([·]), (s.tryQuery o t).2)
  | .tryQueryMany ts => ofCareful (s.tryQueryMany o ts)
  | .tryQueryAll ts => ofCareful ((s.tryQueryAll o ts).1.map ([·]), (s.tryQueryAll o ts).2)
  | .remember t b => (.ok [], s.remember t b)

/-- The session after some calls, whatever came of them. -/
def after (s : Session σ) (o : Oracle σ) (calls : List Call) : Session σ :=
  calls.foldl (fun s c => (s.perform o c).2) s

/-- The texts that a call asks about. -/
def Call.texts : Call → List Text
  | .query t | .tryQuery t => [t]
  | .queryMany ts | .tryQueryMany ts | .tryQueryAll ts => ts
  | .remember _ _ => []

/-- The answers to a call say that a text is accepted. -/
def Call.Grants (c : Call) (bs : List Bool) (t : Text) : Prop :=
  match c with
  | .tryQueryAll ts => bs = [true] ∧ t ∈ ts
  | c => (t, true) ∈ c.texts.zip bs

/-- A call raises what goes wrong, instead of taking a refusal for a rejection. -/
def Call.IsPlain : Call → Prop
  | .query _ | .queryMany _ => True
  | _ => False

variable {o : Oracle σ} {v : Text → Except OracleFault Bool} {s s₁ s' : Session σ}

/-! ### What a call may do -/

/-- New texts are put to an oracle, and what it answers is remembered. -/
structure Exchange (v : Text → Except OracleFault Bool) (s s' : Session σ) (new : List Text) :
    Prop where
  /-- The budget stays. -/
  budget : s'.budget = s.budget
  /-- The new texts are put after the others. -/
  put : s'.put = s.put ++ new
  /-- No text is put twice. -/
  nodup : new.Nodup
  /-- No text is put that has a remembered answer. -/
  fresh : ∀ t ∈ new, s.isCached t = false
  /-- What is put is charged. -/
  charged : s.queries + new.length ≤ s'.queries
  /-- Nothing is charged beyond the budget. -/
  within : ∀ limit ∈ s.budget, (s'.queries : Int) ≤ max (s.queries : Int) limit
  /-- An answer that is remembered now was remembered before or is that of the oracle. -/
  gained : ∀ t b, s'.answer? t = some b → s.answer? t = some b ∨ t ∈ new ∧ v t = .ok b
  /-- Remembered answers stay. -/
  kept : ∀ t b, s.answer? t = some b → s'.answer? t = some b

/-- The new texts are all that has been charged, and all of them have answers. -/
structure Settled (s s' : Session σ) (new : List Text) : Prop where
  queries : s'.queries = s.queries + new.length
  cached : ∀ t ∈ new, s'.isCached t = true

theorem isCached_of_answer? {t : Text} {b : Bool} (h : s.answer? t = some b) :
    s.isCached t = true := by
  rw [isCached, h]
  rfl

theorem isCached_iff {t : Text} : s.isCached t = true ↔ ∃ b, s.answer? t = some b :=
  Option.isSome_iff_exists

namespace Exchange

variable {new new₁ new₂ : List Text}

theorem refl (v : Text → Except OracleFault Bool) (s : Session σ) : Exchange v s s [] where
  budget := rfl
  put := (List.append_nil _).symm
  nodup := List.nodup_nil
  fresh := by simp
  charged := Nat.le_refl _
  within _ _ := Int.le_max_left _ _
  gained _ _ h := .inl h
  kept _ _ h := h

/-- A note about the end of the budget changes nothing else. -/
theorem noteExhausted (h : Exchange v s s' new) (limit : Int) :
    Exchange v s (s'.noteExhausted limit) new := by
  have hput : (s'.noteExhausted limit).put = s'.put := by
    unfold Session.noteExhausted
    split <;> rfl
  refine ⟨?_, ?_, h.nodup, h.fresh, ?_, ?_, ?_, ?_⟩
  · rw [budget_noteExhausted, h.budget]
  · rw [hput, h.put]
  · rw [queries_noteExhausted]
    exact h.charged
  · rw [queries_noteExhausted]
    exact h.within
  · intro t b
    rw [answer?_noteExhausted]
    exact h.gained t b
  · intro t b
    rw [answer?_noteExhausted]
    exact h.kept t b

theorem isCached (h : Exchange v s s' new) {t : Text} (ht : s.isCached t = true) :
    s'.isCached t = true := by
  obtain ⟨b, hb⟩ := isCached_iff.mp ht
  exact isCached_of_answer? (h.kept t b hb)

/-- Two exchanges are one, if the first one left no text without an answer. -/
theorem trans (h : Exchange v s s₁ new₁) (hs : Settled s s₁ new₁) (h' : Exchange v s₁ s' new₂) :
    Exchange v s s' (new₁ ++ new₂) where
  budget := h'.budget.trans h.budget
  put := by rw [h'.put, h.put, List.append_assoc]
  nodup := by
    refine List.nodup_append'.mpr ⟨h.nodup, h'.nodup, fun t ht ht' => ?_⟩
    have hcached := hs.cached t ht
    rw [h'.fresh t ht'] at hcached
    cases hcached
  fresh := by
    intro t ht
    rcases List.mem_append.mp ht with ht | ht
    · exact h.fresh t ht
    · cases hcached : s.isCached t with
      | false => rfl
      | true => exact (h.isCached hcached).symm.trans (h'.fresh t ht)
  charged := by
    have hfirst := h.charged
    have hsecond := h'.charged
    rw [List.length_append]
    omega
  within := by
    intro limit hlimit
    have hfirst := h.within limit hlimit
    have hsecond := h'.within limit (by rwa [h.budget])
    omega
  gained := by
    intro t b hb
    rcases h'.gained t b hb with hb | ⟨ht, hv⟩
    · rcases h.gained t b hb with hb | ⟨ht, hv⟩
      · exact .inl hb
      · exact .inr ⟨List.mem_append_left _ ht, hv⟩
    · exact .inr ⟨List.mem_append_right _ ht, hv⟩
  kept t b hb := h'.kept t b (h.kept t b hb)

end Exchange

theorem Settled.refl (s : Session σ) : Settled s s [] := ⟨rfl, by simp⟩

theorem Settled.noteExhausted {new : List Text} (h : Settled s s' new) (limit : Int) :
    Settled s (s'.noteExhausted limit) new := by
  refine ⟨?_, fun t ht => ?_⟩
  · rw [queries_noteExhausted, h.queries]
  · rw [isCached, answer?_noteExhausted]
    exact h.cached t ht

theorem Settled.trans {new₁ new₂ : List Text} (h : Settled s s₁ new₁)
    (hx : Exchange v s₁ s' new₂) (h' : Settled s₁ s' new₂) : Settled s s' (new₁ ++ new₂) := by
  refine ⟨?_, fun t ht => ?_⟩
  · rw [h'.queries, h.queries, List.length_append, Nat.add_assoc]
  · rcases List.mem_append.mp ht with ht | ht
    · exact hx.isCached (h.cached t ht)
    · exact h'.cached t ht

/-! ### Queries about several texts -/

/-- Either the budget refuses a charge, or it is made. -/
theorem charge_cases (s : Session σ) (count : Nat) :
    (∃ limit, s.charge count = (.error (.budgetExceeded limit), s.noteExhausted limit)) ∨
      (∀ limit ∈ s.budget, ((s.queries + count : Nat) : Int) ≤ max (s.queries : Int) limit) ∧
        s.charge count = (.ok (), { s with queries := s.queries + count }) := by
  unfold charge
  split
  · next hbudget => exact .inr ⟨by simp [hbudget], rfl⟩
  · next limit hbudget =>
    split
    · exact .inl ⟨limit, rfl⟩
    · next hleft =>
      refine .inr ⟨fun limit' hlimit' => ?_, rfl⟩
      obtain rfl : limit = limit' := Option.some.inj (hbudget.symm.trans hlimit')
      omega

/-- Each of several entries that have been answered has an answer. -/
theorem exists_of_answered {α β : Type} {P : α → β → Prop} {ts : List α} {bs : List β}
    (h : List.Forall₂ P ts bs) {t : α} (ht : t ∈ ts) : ∃ b, P t b := by
  induction h with
  | nil => cases ht
  | @cons u b ts bs hu hrest ih =>
    rcases List.mem_cons.mp ht with rfl | ht
    · exact ⟨b, hu⟩
    · exact ih ht

/-- Once the oracle's answers to some texts are remembered, these texts have its answers. -/
theorem answer?_rememberAll {ts : List Text} {bs : List Bool}
    (h : List.Forall₂ (fun t b => v t = .ok b) ts bs) (s : Session σ) (t : Text) :
    (s.rememberAll (ts.zip bs)).answer? t =
      if t ∈ ts then (v t).toOption else s.answer? t := by
  induction h generalizing s with
  | nil => rfl
  | @cons u b ts bs hu hrest ih =>
    rw [List.zip_cons_cons, rememberAll, ih, answer?_remember]
    by_cases hts : t ∈ ts
    · simp [hts]
    · by_cases htu : t = u
      · subst htu
        simp [hts, hu, Except.toOption]
      · simp [hts, htu]

/-- **Queries about several texts** end in one of three ways: all that were pending have answers,
the budget refuses them and no more is done, or the oracle fails and nothing is remembered. -/
theorem queryMany_cases (ho : o.Decides v) (s : Session σ) (ts : List Text) :
    ∃ new, Exchange v s (s.queryMany o ts).2 new ∧
      (((s.queryMany o ts).1 = .ok (ts.map fun t => ((s.queryMany o ts).2.answer? t).getD false) ∧
          Settled s (s.queryMany o ts).2 new ∧ new = s.pending ts) ∨
        (∃ limit, s.queryMany o ts = (.error (.budgetExceeded limit), s.noteExhausted limit) ∧
          new = []) ∨
        ∃ f, (s.queryMany o ts).1 = .error (.oracle f) ∧ (∃ t ∈ new, v t = .error f) ∧
          (s.queryMany o ts).2.cache = s.cache ∧ (s.queryMany o ts).2.hits = s.hits) := by
  obtain ⟨hinitial, hok, herror⟩ := ho.askAll (s.pending ts) s.world
  have hsublist := hinitial.sublist
  have hnodup := hsublist.nodup (nodup_pending s ts)
  have hfresh : ∀ t ∈ (o.askAll (s.pending ts) s.world).1.put, s.isCached t = false :=
    fun t ht => (mem_pending.mp (hsublist.subset ht)).2
  rcases charge_cases s (s.pending ts).length with ⟨limit, hcharge⟩ | ⟨hwithin, hcharge⟩
  · -- The budget refuses the charge, and nothing has been asked.
    have hquery : s.queryMany o ts = (.error (.budgetExceeded limit), s.noteExhausted limit) := by
      unfold queryMany
      dsimp only
      rw [hcharge]
    rw [hquery]
    exact ⟨[], (Exchange.refl v s).noteExhausted limit, .inr (.inl ⟨limit, rfl, rfl⟩)⟩
  · unfold queryMany
    dsimp only
    rw [hcharge]
    dsimp only
    cases hverdicts : (o.askAll (s.pending ts) s.world).1.verdicts with
    | error f =>
      -- Texts have been put up to the one that failed, but all pending texts have been charged for.
      refine ⟨_, ⟨rfl, rfl, hnodup, hfresh, ?_, hwithin, fun t b h => .inl h, fun t b h => h⟩,
        .inr (.inr ⟨f, rfl, herror f hverdicts, rfl, rfl⟩)⟩
      exact Nat.add_le_add_left hsublist.length_le _
    | ok bs =>
      obtain ⟨hput, hall⟩ := hok bs hverdicts
      rw [hput] at hnodup hfresh
      -- The new answers stand in front of the remembered ones, and are about other texts.
      have hanswer : ∀ u, (((s.pending ts).zip bs).reverse ++ s.cache).lookup u =
          if u ∈ s.pending ts then (v u).toOption else s.answer? u := by
        intro u
        rw [← answer?_rememberAll hall s u, rememberAll_eq, answer?]
      dsimp only
      rw [hput, rememberAll_eq]
      refine ⟨s.pending ts, ⟨rfl, rfl, hnodup, hfresh, Nat.le_refl _, hwithin, ?_, ?_⟩,
        .inl ⟨rfl, ⟨rfl, ?_⟩, rfl⟩⟩
      · intro t b hb
        rw [answer?, hanswer] at hb
        split at hb
        · next ht =>
          obtain ⟨c, hc⟩ := exists_of_answered hall ht
          rw [hc] at hb
          exact .inr ⟨ht, hc.trans (congrArg Except.ok (Option.some.inj hb))⟩
        · exact .inl hb
      · intro t b hb
        have ht : t ∉ s.pending ts := fun ht => by
          have hcached := hfresh t ht
          rw [isCached_of_answer? hb] at hcached
          cases hcached
        rw [answer?, hanswer, if_neg ht, hb]
      · intro t ht
        obtain ⟨c, hc⟩ := exists_of_answered hall ht
        rw [isCached, answer?, hanswer, if_pos ht, hc]
        rfl

/-- A query or several queries at once that raise something leave the cache and the count of answers
from memory, and the count of queries too where the budget refused them. -/
theorem queryMany_raises (ho : o.Decides v) {ts : List Text} {e : QueryError}
    (h : (s.queryMany o ts).1 = .error e) :
    (s.queryMany o ts).2.cache = s.cache ∧ (s.queryMany o ts).2.hits = s.hits ∧
      ∀ limit, e = .budgetExceeded limit → (s.queryMany o ts).2.queries = s.queries := by
  obtain ⟨new, -, ⟨hok, -⟩ | ⟨limit, hrefused, -⟩ | ⟨f, hfailed, -, hcache, hhits⟩⟩ :=
    queryMany_cases ho s ts
  · rw [hok] at h
    cases h
  · rw [hrefused]
    refine ⟨?_, ?_, fun _ _ => queries_noteExhausted s limit⟩
    · unfold noteExhausted
      split <;> rfl
    · unfold noteExhausted
      split <;> rfl
  · refine ⟨hcache, hhits, fun limit he => ?_⟩
    rw [hfailed, he] at h
    cases h

/-! ### Calls of every kind -/

/-- What a call may do that ends with the result and the session `r`; a result may say of some texts
that they are accepted. -/
structure Handled {α : Type} (v : Text → Except OracleFault Bool) (grants : α → Text → Prop)
    (s : Session σ) (r : Except QueryError α × Session σ) (new : List Text) : Prop
    extends Exchange v s r.2 new where
  /-- Unless the oracle fails, all new texts have answers. -/
  settled : (∀ f, r.1 ≠ .error (.oracle f)) → Settled s r.2 new
  /-- A failure is that of the oracle at one of the new texts. -/
  failed : ∀ f, r.1 = .error (.oracle f) → ∃ t ∈ new, v t = .error f
  /-- A text that is said to be accepted is remembered as accepted. -/
  granted : ∀ a, r.1 = .ok a → ∀ t, grants a t → r.2.answer? t = some true

/-- A text and its value among texts and the values of a function. -/
theorem mem_zip_map {α : Type} {g : Text → α} {ts : List Text} {t : Text} {a : α}
    (h : (t, a) ∈ ts.zip (ts.map g)) : t ∈ ts ∧ g t = a := by
  have hall : List.Forall₂ (fun t a => g t = a) ts (ts.map g) :=
    List.forall₂_map_right_iff.mpr (List.forall₂_same.mpr fun _ _ => rfl)
  exact ⟨(List.of_mem_zip h).1, List.forall₂_zip hall h⟩

theorem handled_queryMany (ho : o.Decides v) (s : Session σ) (ts : List Text) :
    ∃ new, Handled v (fun bs t => (t, true) ∈ ts.zip bs) s (s.queryMany o ts) new := by
  obtain ⟨new, hx, ⟨hok, hs, -⟩ | ⟨limit, hrefused, rfl⟩ | ⟨f, hfailed, hnew, -, -⟩⟩ :=
    queryMany_cases ho s ts
  · refine ⟨new, hx, fun _ => hs, fun f h => ?_, fun bs h t ht => ?_⟩
    · rw [hok] at h
      cases h
    · rw [hok] at h
      cases h
      -- An answer that accepts has been remembered, for what is not counts as rejected.
      have hanswer := (mem_zip_map ht).2
      cases ha : (s.queryMany o ts).2.answer? t with
      | none => rw [ha] at hanswer; cases hanswer
      | some b => rw [ha] at hanswer; exact congrArg some hanswer
  · refine ⟨[], hx, fun _ => ?_, fun f h => ?_, fun bs h => ?_⟩
    · rw [hrefused]
      exact (Settled.refl s).noteExhausted limit
    · rw [hrefused] at h
      cases h
    · rw [hrefused] at h
      cases h
  · refine ⟨new, hx, fun h => absurd hfailed (h f), fun f' h => ?_, fun bs h => ?_⟩
    · rw [hfailed] at h
      cases h
      exact hnew
    · rw [hfailed] at h
      cases h

/-- Taking a refusal for a rejection says of no other text that it is accepted. -/
theorem Handled.answersOrRejected {ts new : List Text}
    {r : Except QueryError (List Bool) × Session σ}
    (h : Handled v (fun bs t => (t, true) ∈ ts.zip bs) s r new) :
    Handled v (fun bs t => (t, true) ∈ ts.zip bs) s
      (ofCareful (Session.answersOrRejected r ts)) new := by
  obtain ⟨result, s'⟩ := r
  rcases result with (limit | f) | bs
  · refine ⟨h.toExchange, fun _ => ?_, fun f hf => (by cases hf), fun bs hbs t ht => ?_⟩
    · exact h.settled (by simp)
    · cases hbs
      cases (mem_zip_map ht).2
  · exact h
  · exact h

/-- Answers for a list of texts from those to the texts `us`; the others count as rejected. -/
def rejectOthers (r : Except OracleFault (List Bool) × Session σ) (us ts : List Text)
    (limit : Int) : Except OracleFault (List Bool) × Session σ :=
  match r with
  | (.error f, s) => (.error f, s)
  | (.ok bs, s) => (.ok (ts.map fun t => ((us.zip bs).lookup t).getD false), s.noteExhausted limit)

/-- The answers to some texts serve for others, if those without an answer count as rejected. -/
theorem Handled.rejectOthers {us new : List Text} {r : Except OracleFault (List Bool) × Session σ}
    (h : Handled v (fun bs t => (t, true) ∈ us.zip bs) s (ofCareful r) new) (ts : List Text)
    (limit : Int) :
    Handled v (fun bs t => (t, true) ∈ ts.zip bs) s (ofCareful (Session.rejectOthers r us ts limit))
      new := by
  obtain ⟨f | bs, s'⟩ := r
  · exact ⟨h.toExchange, h.settled, h.failed, fun _ h => by cases h⟩
  · refine ⟨h.toExchange.noteExhausted limit, fun _ => ?_, fun f hf => (by cases hf),
      fun bs' hbs t ht => ?_⟩
    · exact (h.settled fun f hf => by cases hf).noteExhausted limit
    · cases hbs
      have hanswer := (mem_zip_map ht).2
      have hlookup : (us.zip bs).lookup t = some true := by
        cases ha : (us.zip bs).lookup t with
        | none => rw [ha] at hanswer; cases hanswer
        | some b => rw [ha] at hanswer; exact congrArg some hanswer
      obtain ⟨_, _, heq, -⟩ := List.lookup_eq_some_iff.mp hlookup
      have hmem : (t, true) ∈ us.zip bs := by
        rw [heq]
        exact List.mem_append_right _ List.mem_cons_self
      exact (answer?_noteExhausted s' limit).trans (h.granted bs rfl t hmem)

theorem handled_tryQueryMany (ho : o.Decides v) (s : Session σ) (ts : List Text) :
    ∃ new, Handled v (fun bs t => (t, true) ∈ ts.zip bs) s (ofCareful (s.tryQueryMany o ts))
      new := by
  unfold tryQueryMany
  dsimp only
  split
  · obtain ⟨new, h⟩ := handled_queryMany ho s ts
    exact ⟨new, h.answersOrRejected⟩
  · next limit hlimit =>
    split
    · obtain ⟨new, h⟩ := handled_queryMany ho s (ts.filter fun t =>
        s.isCached t || decide (t ∈ (s.pending ts).take (limit - s.queries).toNat))
      exact ⟨new, h.answersOrRejected.rejectOthers ts limit⟩
    · obtain ⟨new, h⟩ := handled_queryMany ho s ts
      exact ⟨new, h.answersOrRejected⟩

/-- A query is one about a list with a single text. -/
theorem queryMany_singleton (s : Session σ) (o : Oracle σ) (t : Text) :
    s.queryMany o [t] = ((s.query o t).1.map ([·]), (s.query o t).2) := by
  unfold queryMany query
  dsimp only
  cases hanswer : s.answer? t with
  | some b =>
    have hpending : s.pending [t] = [] := pending_cons_of_isCached (isCached_of_answer? hanswer)
    have hcharge : s.charge 0 = (.ok (), s) := charge_of_fits (by simp)
    rw [hpending, List.length_nil, hcharge]
    simp [Oracle.askAll, rememberAll, hanswer, Except.map]
  | none =>
    have hpending : s.pending [t] = [t] := by
      have hcached := isCached_eq_false_iff.mpr hanswer
      simp [pending, Text.distinct_cons, hcached]
    rw [hpending, List.length_singleton]
    rcases s.charge 1 with ⟨e | u, s₁⟩
    · rfl
    · dsimp only [Oracle.askAll, consult]
      cases (o.reply t s₁.world).1.verdict with
      | error f => rfl
      | ok b => simp [rememberAll, Except.map, answer?_remember]

theorem tryQuery_eq_answersOrRejected (s : Session σ) (o : Oracle σ) (t : Text) :
    ((s.tryQuery o t).1.map ([·]), (s.tryQuery o t).2) =
      answersOrRejected (s.queryMany o [t]) [t] := by
  rw [queryMany_singleton, tryQuery]
  rcases s.query o t with ⟨(limit | f) | b, s'⟩ <;> rfl

theorem handled_tryQuery (ho : o.Decides v) (s : Session σ) (t : Text) :
    ∃ new, Handled v (fun b u => b = true ∧ u = t) s (ofCareful (s.tryQuery o t)) new := by
  obtain ⟨new, h⟩ := handled_queryMany ho s [t]
  have h := h.answersOrRejected
  rw [← tryQuery_eq_answersOrRejected] at h
  generalize s.tryQuery o t = r at h ⊢
  obtain ⟨f | b, s'⟩ := r
  · refine ⟨new, h.toExchange, fun hr => absurd rfl (hr f), fun f' hf => ?_, fun _ h => by cases h⟩
    cases hf
    exact h.failed f rfl
  · refine ⟨new, h.toExchange, fun _ => h.settled fun f hf => (by cases hf),
      fun f hf => (by cases hf), fun b' hb u hu => ?_⟩
    obtain ⟨rfl, rfl⟩ := hu
    cases hb
    exact h.granted [true] rfl u (by simp)

/-- **Queries about all of several texts**, one after another, add up to one exchange. -/
theorem handled_tryQueryAll (ho : o.Decides v) (s : Session σ) (ts : List Text) :
    ∃ new, Handled v (fun b u => b = true ∧ u ∈ ts) s (ofCareful (s.tryQueryAll o ts)) new := by
  induction ts generalizing s with
  | nil =>
    refine ⟨[], .refl v s, fun _ => .refl s, fun f hf => (by cases hf), fun b hb u hu => ?_⟩
    cases hu.2
  | cons t rest ih =>
    obtain ⟨new₁, h₁⟩ := handled_tryQuery ho s t
    unfold tryQueryAll
    generalize s.tryQuery o t = r at h₁ ⊢
    obtain ⟨f | b, s₁⟩ := r
    · exact ⟨new₁, h₁.toExchange, h₁.settled, h₁.failed, fun _ h => by cases h⟩
    · have hs₁ : Settled s s₁ new₁ := h₁.settled fun f hf => by cases hf
      cases b with
      -- The first rejected text ends the queries, and nothing is granted.
      | false =>
        refine ⟨new₁, h₁.toExchange, fun _ => hs₁, fun f hf => (by cases hf), fun b hb u hu => ?_⟩
        cases hb
        cases hu.1
      | true =>
        obtain ⟨new₂, h₂⟩ := ih s₁
        refine ⟨new₁ ++ new₂, h₁.toExchange.trans hs₁ h₂.toExchange, fun hr => ?_, fun f hf => ?_,
          fun b hb u hu => ?_⟩
        · exact hs₁.trans h₂.toExchange (h₂.settled hr)
        · obtain ⟨u, hu, hv⟩ := h₂.failed f hf
          exact ⟨u, List.mem_append_right _ hu, hv⟩
        · obtain ⟨hb', hu⟩ := hu
          rcases List.mem_cons.mp hu with rfl | hu
          · -- The first text was granted before, and its answer is kept.
            exact h₂.kept u true (h₁.granted true rfl u ⟨rfl, rfl⟩)
          · exact h₂.granted b hb u ⟨hb', hu⟩

/-- **Every call but that of remembering** is an exchange with the oracle. -/
theorem handled_perform (ho : o.Decides v) (s : Session σ) (c : Call)
    (hc : ∀ t b, c ≠ .remember t b) : ∃ new, Handled v c.Grants s (s.perform o c) new := by
  cases c with
  | query t =>
    rw [perform, ← queryMany_singleton]
    exact handled_queryMany ho s [t]
  | queryMany ts => exact handled_queryMany ho s ts
  | tryQuery t =>
    obtain ⟨new, h⟩ := handled_queryMany ho s [t]
    have h := h.answersOrRejected
    rw [← tryQuery_eq_answersOrRejected] at h
    exact ⟨new, h⟩
  | tryQueryMany ts => exact handled_tryQueryMany ho s ts
  | tryQueryAll ts =>
    obtain ⟨new, h⟩ := handled_tryQueryAll ho s ts
    rw [perform]
    generalize s.tryQueryAll o ts = r at h ⊢
    obtain ⟨f | b, s'⟩ := r
    · refine ⟨new, h.toExchange, fun hr => absurd rfl (hr f), fun f' hf => ?_,
        fun _ h => by cases h⟩
      cases hf
      exact h.failed f rfl
    · refine ⟨new, h.toExchange, fun _ => h.settled fun f hf => (by cases hf),
        fun f hf => (by cases hf), fun bs hbs u hu => ?_⟩
      cases hbs
      obtain ⟨hb, hu⟩ := hu
      cases hb
      exact h.granted true rfl u ⟨rfl, hu⟩
  | remember t b => exact absurd rfl (hc t b)

/-! ### Runs -/

/-- What the books of a session say after some calls. -/
structure Accounted (v : Text → Except OracleFault Bool) (budget : Option Int) (calls : List Call)
    (s : Session σ) : Prop where
  /-- The budget is the one that the session began with. -/
  budget_eq : s.budget = budget
  /-- Every text that was put has been charged. -/
  put_le : s.put.length ≤ s.queries
  /-- The budget is never exceeded. -/
  queries_le : ∀ limit ∈ budget, (s.queries : Int) ≤ max limit 0
  /-- Every remembered answer is that of the oracle to a text that was put, or was handed over. -/
  answers : ∀ t b, s.answer? t = some b → t ∈ s.put ∧ v t = .ok b ∨ .remember t b ∈ calls

/-- What the next call after some calls does, ending with the result and the session `r`. -/
structure Recorded (v : Text → Except OracleFault Bool) (calls : List Call) (c : Call)
    (s : Session σ) (r : Except QueryError (List Bool) × Session σ) : Prop where
  /-- The call puts texts without an answer, none of them twice, and no answers to other texts are
  gained on the way: no text is put while it has an answer. -/
  put : ∃ new, r.2.put = s.put ++ new ∧ new.Nodup ∧ (∀ t ∈ new, s.isCached t = false) ∧
    ∀ t, r.2.isCached t = true → s.isCached t = true ∨ t ∈ new ∨ ∃ b, c = .remember t b
  /-- Acceptance is reported only of texts that the oracle accepted or that were handed over as
  accepted. -/
  granted : ∀ bs, r.1 = .ok bs → ∀ t, c.Grants bs t →
    t ∈ r.2.put ∧ v t = .ok true ∨ .remember t true ∈ calls
  /-- What a plain call raises leaves the remembered answers and their count, and a refusal also the
  number of queries. -/
  raised : c.IsPlain → ∀ e, r.1 = .error e → r.2.cache = s.cache ∧ r.2.hits = s.hits ∧
    ∀ limit, e = .budgetExceeded limit → r.2.queries = s.queries

/-- With an oracle that never failed, every text that was put has been charged once and has an
answer. -/
structure Exact (s : Session σ) : Prop where
  nodup : s.put.Nodup
  queries : s.queries = s.put.length
  cached : ∀ t ∈ s.put, s.isCached t = true

/-- The books stay in order through an exchange. -/
theorem Accounted.exchange {budget : Option Int} {calls : List Call} {c : Call} {new : List Text}
    (hs : Accounted v budget calls s) (h : Exchange v s s' new) :
    Accounted v budget (calls ++ [c]) s' where
  budget_eq := h.budget.trans hs.budget_eq
  put_le := by
    have hput := hs.put_le
    have hcharged := h.charged
    rw [h.put, List.length_append]
    omega
  queries_le := by
    intro limit hlimit
    have hqueries := hs.queries_le limit hlimit
    have hwithin := h.within limit (by rwa [hs.budget_eq])
    omega
  answers := by
    intro t b hb
    rcases h.gained t b hb with hb | ⟨ht, hv⟩
    · rcases hs.answers t b hb with ⟨ht, hv⟩ | hcall
      · exact .inl ⟨by rw [h.put]; exact List.mem_append_left _ ht, hv⟩
      · exact .inr (List.mem_append_left _ hcall)
    · exact .inl ⟨by rw [h.put]; exact List.mem_append_right _ ht, hv⟩

/-- The books stay in order when an answer is handed over. -/
theorem Accounted.remember {budget : Option Int} {calls : List Call} (t : Text) (b : Bool)
    (hs : Accounted v budget calls s) :
    Accounted v budget (calls ++ [.remember t b]) (s.remember t b) where
  budget_eq := hs.budget_eq
  put_le := hs.put_le
  queries_le := hs.queries_le
  answers := by
    intro u b' hb
    rw [answer?_remember] at hb
    split at hb
    · next hu =>
      cases hb
      rw [hu]
      exact .inr (by simp)
    · rcases hs.answers u b' hb with hput | hcall
      · exact .inl hput
      · exact .inr (List.mem_append_left _ hcall)

/-- **Step**: every call keeps the books in order. -/
theorem Accounted.perform (ho : o.Decides v) {budget : Option Int} {calls : List Call}
    (hs : Accounted v budget calls s) (c : Call) :
    Accounted v budget (calls ++ [c]) (s.perform o c).2 := by
  by_cases hc : ∃ t b, c = .remember t b
  · obtain ⟨t, b, rfl⟩ := hc
    exact hs.remember t b
  · obtain ⟨new, h⟩ := handled_perform ho s c fun t b h => hc ⟨t, b, h⟩
    exact hs.exchange h.toExchange

/-- **Step**: with an oracle that never fails, every call keeps the count exact. -/
theorem Exact.perform (ho : o.Decides v) (hv : ∀ t, ∃ b, v t = .ok b) (hs : s.Exact) (c : Call) :
    (s.perform o c).2.Exact := by
  by_cases hc : ∃ t b, c = .remember t b
  · obtain ⟨t, b, rfl⟩ := hc
    refine ⟨hs.nodup, hs.queries, fun u hu => ?_⟩
    have hcached := hs.cached u hu
    rw [Session.perform, isCached, answer?_remember]
    split
    · rfl
    · exact hcached
  · obtain ⟨new, h⟩ := handled_perform ho s c fun t b h => hc ⟨t, b, h⟩
    have hsettled : Settled s (s.perform o c).2 new := by
      refine h.settled fun f hf => ?_
      obtain ⟨t, -, hvt⟩ := h.failed f hf
      obtain ⟨b, hb⟩ := hv t
      rw [hb] at hvt
      cases hvt
    refine ⟨?_, ?_, fun t ht => ?_⟩
    · rw [h.put]
      -- All texts put so far have answers, and only texts without one are put.
      refine List.nodup_append'.mpr ⟨hs.nodup, h.nodup, fun t ht ht' => ?_⟩
      have hcached := hs.cached t ht
      rw [h.fresh t ht'] at hcached
      cases hcached
    · rw [hsettled.queries, hs.queries, h.put, List.length_append]
    · rw [h.put] at ht
      rcases List.mem_append.mp ht with ht | ht
      · exact h.toExchange.isCached (hs.cached t ht)
      · exact hsettled.cached t ht

/-- **Run**: after any calls the books are in order. -/
theorem accounted_after (ho : o.Decides v) (budget : Option Int) (world : σ) (calls : List Call) :
    Accounted v budget calls ((start budget world).after o calls) := by
  induction calls using List.reverseRecOn with
  | nil =>
    refine ⟨rfl, Nat.le_refl _, fun limit _ => Int.le_max_right _ _, fun t b h => ?_⟩
    cases h
  | append_singleton calls c ih =>
    rw [after, List.foldl_concat]
    exact ih.perform ho c

/-- **Run**: with an oracle that never fails, the count is exact after any calls. -/
theorem exact_after (ho : o.Decides v) (hv : ∀ t, ∃ b, v t = .ok b) (budget : Option Int)
    (world : σ) (calls : List Call) : ((start budget world).after o calls).Exact := by
  induction calls using List.reverseRecOn with
  | nil => exact ⟨List.nodup_nil, rfl, fun t h => by cases h⟩
  | append_singleton calls c ih =>
    rw [after, List.foldl_concat]
    exact ih.perform ho hv c

/-- What a plain call raises leaves the remembered answers and their count. -/
theorem perform_raises (ho : o.Decides v) {c : Call} (hc : c.IsPlain) {e : QueryError}
    (h : (s.perform o c).1 = .error e) :
    (s.perform o c).2.cache = s.cache ∧ (s.perform o c).2.hits = s.hits ∧
      ∀ limit, e = .budgetExceeded limit → (s.perform o c).2.queries = s.queries := by
  cases c with
  | query t =>
    rw [perform, ← queryMany_singleton] at h ⊢
    exact queryMany_raises ho h
  | queryMany ts => exact queryMany_raises ho h
  | _ => cases hc

/-- In a session whose books are in order every call is recorded properly. -/
theorem Accounted.recorded (ho : o.Decides v) {budget : Option Int} {calls : List Call}
    (hs : Accounted v budget calls s) (c : Call) : Recorded v calls c s (s.perform o c) := by
  by_cases hc : ∃ t b, c = .remember t b
  · obtain ⟨t, b, rfl⟩ := hc
    refine ⟨⟨[], (List.append_nil _).symm, List.nodup_nil, by simp, fun u hu => ?_⟩,
      fun bs _ u hu => (by cases hu), fun hc => (by cases hc)⟩
    rw [Session.perform, isCached, answer?_remember] at hu
    split at hu
    · next htu => exact .inr (.inr ⟨b, by rw [htu]⟩)
    · exact .inl hu
  · obtain ⟨new, h⟩ := handled_perform ho s c fun t b h => hc ⟨t, b, h⟩
    refine ⟨⟨new, h.put, h.nodup, h.fresh, fun t ht => ?_⟩, fun bs hbs t ht => ?_,
      fun hplain e he => perform_raises ho hplain he⟩
    · obtain ⟨b, hb⟩ := isCached_iff.mp ht
      rcases h.gained t b hb with hb | ⟨hnew, -⟩
      · exact .inl (isCached_of_answer? hb)
      · exact .inr (.inl hnew)
    · have haccounted := hs.exchange h.toExchange (c := c)
      rcases haccounted.answers t true (h.granted bs hbs t ht) with hput | hcall
      · exact .inl hput
      · rcases List.mem_append.mp hcall with hcall | hcall
        · exact .inr hcall
        · exact absurd ⟨t, true, (List.mem_singleton.mp hcall).symm⟩ hc

/-- **The books of a session.** For an oracle whose answers are fixed by the text, and after any
calls to a new session with any budget:
* no more texts have been put than charged, no more charged than the budget allows, and every
  remembered answer is that of the oracle or was handed over;
* whatever the next call is, it puts no text with a remembered answer, reports acceptance only of
  texts that the oracle accepted or that were handed over as accepted, and what a plain call raises
  leaves the remembered answers, their count, and after a refusal the number of queries;
* if the oracle never fails, no text has been put twice and the texts put are all that was
  charged. -/
theorem sound_after (ho : o.Decides v) (budget : Option Int) (world : σ) (calls : List Call) :
    Accounted v budget calls ((start budget world).after o calls) ∧
      (∀ c, Recorded v calls c ((start budget world).after o calls)
        (((start budget world).after o calls).perform o c)) ∧
      ((∀ t, ∃ b, v t = .ok b) → ((start budget world).after o calls).put.Nodup ∧
        ((start budget world).after o calls).queries =
          ((start budget world).after o calls).put.length) := by
  have haccounted := accounted_after ho budget world calls
  refine ⟨haccounted, haccounted.recorded ho, fun hv => ?_⟩
  have hexact := exact_after ho hv budget world calls
  exact ⟨hexact.nodup, hexact.queries⟩

/-- An oracle that fails at texts with a question mark and accepts the others up to two symbols. -/
def hesitant (t : Text) : Except OracleFault Bool :=
  if t.contains '?' then .error (.failed "no answer".toList) else .ok (t.length ≤ 2)

/-- With a budget of four queries a careful batch puts two texts, one is handed over, a batch fails
in the middle, and the last query is refused: four queries are charged and three texts put. -/
theorem sound_after_hesitant :
    let o := Oracle.fixed fun t => ⟨hesitant t, []⟩
    let calls := [.tryQueryMany ["a".toList, "abc".toList, "a".toList],
      .remember "xyz".toList true, .queryMany ["?".toList, "b".toList]]
    let s := (start (some 4) ()).after o calls
    Accounted hesitant (some 4) calls s ∧
      Recorded hesitant calls (.query "c".toList) s (s.perform o (.query "c".toList)) ∧
      s.queries = 4 ∧ s.put = ["a".toList, "abc".toList, "?".toList] ∧
      (s.perform o (.query "c".toList)).1 = .error (.budgetExceeded 4) ∧
      (s.perform o (.tryQueryAll ["a".toList, "xyz".toList])).1 = .ok [true] := by
  intro o calls s
  have hsound := sound_after (o := o) (v := hesitant) (fun _ _ => rfl) (some 4) () calls
  exact ⟨hsound.1, hsound.2.1 _, by decide, by decide, by decide, by decide⟩

end Session

end GrammarInference
