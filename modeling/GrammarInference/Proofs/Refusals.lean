import GrammarInference.Proofs.TextsPut

/-!
# What is refused

A question of learning is answered from what the session remembers, or put to the oracle and then
remembered, or refused when the budget is used up. A refusal is taken for a rejection, and stays
one: the text has no answer and nothing is left of the budget (`Session.Refused`), whatever is asked
later. So every reply that a run has had is explained by the session it ends in
(`Session.Explains`): it is the remembered answer, or the rejection of a text that is refused.

A fact about a run is then one about arbitrary replies that say of texts only what is known of them
at its end (`Session.Learns.returns_saying`). Without a budget nothing is refused.
-/

namespace GrammarInference

/-- What is reached with some replies is reached with more. -/
theorem Query.Reaches.mono {R R' : Replies} {α : Type} {q : Query α} {a : α}
    (hsingle : ∀ t r, R.single t r → R'.single t r) (hbatch : ∀ ts r, R.batch ts r → R'.batch ts r)
    (hseed : ∀ t r, R.seed t r → R'.seed t r) (h : q.Reaches R a) : q.Reaches R' a := by
  induction h with
  | done a => exact .done a
  | ask hr _ ih => exact .ask (hsingle _ _ hr) ih
  | askMany hr _ ih => exact .askMany (hbatch _ _ hr) ih
  | vouch hr _ ih => exact .vouch (hseed _ _ hr) ih
  | note _ ih => exact .note ih

/-- Replies that say of texts only what holds of them. -/
def Replies.saying (P : Text → Bool → Prop) : Replies where
  single t r := ∀ b, r = .ok b → P t b
  batch ts r := ∀ bs, r = .ok bs → List.Forall₂ P ts bs
  seed _ _ := True

theorem Replies.accepts_saying {P : Text → Bool → Prop} {t : Text} :
    (Replies.saying P).Accepts t ↔ P t true :=
  ⟨fun h => h true rfl, fun h _ hb => Except.ok.inj hb ▸ h⟩

namespace Session

variable {σ : Type} {o : Oracle σ} {v : Text → Except OracleFault Bool} {s s' : Session σ}

/-- A query that is refused: it has no answer, and nothing is left of the budget. -/
structure Refused (s : Session σ) (t : Text) : Prop where
  /-- The text has no remembered answer. -/
  unanswered : s.answer? t = none
  /-- The budget is used up. -/
  spent : s.remaining = some 0

/-- An answer is remembered, or it is the rejection of a query that is refused. -/
def Explains (s : Session σ) (t : Text) (b : Bool) : Prop :=
  s.answer? t = some b ∨ b = false ∧ s.Refused t

theorem explains_true {t : Text} : s.Explains t true ↔ s.answer? t = some true :=
  ⟨fun h => h.resolve_right fun h => (by cases h.1), .inl⟩

/-! ### Later sessions -/

theorem remaining_eq_zero_iff {limit : Int} (h : s.budget = some limit) :
    s.remaining = some 0 ↔ limit ≤ s.queries := by
  rw [remaining, h, Option.map_some, Option.some_inj]
  omega

/-- Once the budget is used up, nothing more is put. -/
theorem Exchange.eq_nil_of_spent {new : List Text} (h : Exchange v s s' new)
    (hspent : s.remaining = some 0) : new = [] ∧ s'.remaining = some 0 := by
  obtain ⟨limit, hlimit⟩ : ∃ limit, s.budget = some limit := by
    cases hb : s.budget with
    | none => rw [remaining, hb] at hspent; cases hspent
    | some limit => exact ⟨limit, rfl⟩
  have hle := (remaining_eq_zero_iff hlimit).mp hspent
  have hcharged := h.charged
  have hwithin := h.within limit hlimit
  have hbudget := h.budget.trans hlimit
  exact ⟨List.length_eq_zero_iff.mp (by omega), (remaining_eq_zero_iff hbudget).mpr (by omega)⟩

/-- What is refused stays refused. -/
theorem Exchange.refused {new : List Text} (h : Exchange v s s' new) {t : Text}
    (ht : s.Refused t) : s'.Refused t := by
  obtain ⟨rfl, hspent⟩ := h.eq_nil_of_spent ht.spent
  refine ⟨Option.eq_none_iff_forall_ne_some.mpr fun b hb => ?_, hspent⟩
  rcases h.gained t b hb with hb | ⟨hmem, -⟩
  · rw [ht.unanswered] at hb
    cases hb
  · cases hmem

theorem Exchange.explains {new : List Text} (h : Exchange v s s' new) {t : Text} {b : Bool}
    (ht : s.Explains t b) : s'.Explains t b :=
  ht.imp (h.kept t b) (And.imp_right h.refused)

theorem refused_noteExhausted {t : Text} {limit : Int} (h : s.Refused t) :
    (s.noteExhausted limit).Refused t :=
  ((Exchange.refl (fun _ => .ok false) s).noteExhausted limit).refused h

/-! ### Single queries -/

/-- The budget refuses only what does not fit. -/
theorem not_fits_of_refused {ts : List Text} {limit : Int}
    (h : (s.queryMany o ts).1 = .error (.budgetExceeded limit)) : ¬ s.Fits ts := by
  intro hfits
  unfold queryMany at h
  dsimp only at h
  rw [charge_of_fits hfits] at h
  dsimp only at h
  split at h <;> cases h

/-- Answers to several queries are remembered. -/
theorem answer?_of_queryMany (ho : o.Decides v) {ts : List Text} {bs : List Bool}
    (h : (s.queryMany o ts).1 = .ok bs) :
    List.Forall₂ (fun t b => (s.queryMany o ts).2.answer? t = some b) ts bs := by
  obtain ⟨new, hx, ⟨hok, hs, rfl⟩ | ⟨limit, hrefused, -⟩ | ⟨f, hfailed, -⟩⟩ :=
    queryMany_cases ho s ts
  · obtain rfl := Except.ok.inj (hok.symm.trans h)
    refine List.forall₂_map_right_iff.mpr (List.forall₂_same.mpr fun t ht => ?_)
    have hcached : (s.queryMany o ts).2.isCached t = true := by
      cases hold : s.isCached t with
      | true => exact hx.isCached hold
      | false => exact hs.cached t (mem_pending.mpr ⟨ht, hold⟩)
    obtain ⟨b, hb⟩ := isCached_iff.mp hcached
    rw [hb, Option.getD_some]
  · rw [hrefused] at h
    cases h
  · rw [hfailed] at h
    cases h

/-- A single query that does not fit is refused. -/
theorem refused_of_not_fits {t : Text} (h : ¬ s.Fits [t]) : s.Refused t := by
  obtain ⟨r, hr, hlt⟩ : ∃ r ∈ s.remaining, r < (s.pending [t]).length := by
    simpa [Fits] using h
  have hcached : s.isCached t = false := by
    cases hcached : s.isCached t with
    | false => rfl
    | true =>
      rw [pending_cons_of_isCached hcached] at hlt
      exact absurd hlt (Nat.not_lt_zero r)
  refine ⟨isCached_eq_false_iff.mp hcached, ?_⟩
  have hle : (s.pending [t]).length ≤ 1 := List.length_filter_le _ _
  rw [hr]
  exact congrArg some (by omega)

theorem explains_of_tryQuery (ho : o.Decides v) {t : Text} {b : Bool}
    (h : (s.tryQuery o t).1 = .ok b) : (s.tryQuery o t).2.Explains t b := by
  have hquery := queryMany_singleton s o t
  unfold tryQuery at h ⊢
  rcases hr : s.query o t with ⟨(limit | f) | b', s'⟩
  · -- The budget refuses the query, and the session is left but for a note.
    rw [hr] at h hquery
    obtain rfl := Except.ok.inj h
    have hrefused : (s.queryMany o [t]).1 = .error (.budgetExceeded limit) := by
      rw [hquery]
      rfl
    have hfits := not_fits_of_refused hrefused
    obtain ⟨new, hx⟩ := handled_queryMany ho s [t]
    rw [hquery] at hx
    exact .inr ⟨rfl, hx.toExchange.refused (refused_of_not_fits hfits)⟩
  · rw [hr] at h
    cases h
  · rw [hr] at h hquery
    obtain rfl := Except.ok.inj h
    have hok : (s.queryMany o [t]).1 = .ok [b'] := by
      rw [hquery]
      rfl
    have hanswers := answer?_of_queryMany ho hok
    rw [hquery] at hanswers
    exact .inl (List.forall₂_cons.mp hanswers).1

/-! ### Several queries at once -/

/-- Several careful queries are either asked together, if the budget suffices, or those that it
suffices for are asked and the others rejected. -/
theorem tryQueryMany_cases (s : Session σ) (o : Oracle σ) (ts : List Text) :
    (s.Fits ts ∧ s.tryQueryMany o ts = answersOrRejected (s.queryMany o ts) ts) ∨
      ∃ limit, s.budget = some limit ∧ (s.affordable ts).length < (s.pending ts).length ∧
        s.tryQueryMany o ts =
          rejectOthers (answersOrRejected (s.queryMany o (s.answerable ts)) (s.answerable ts))
            (s.answerable ts) ts limit := by
  unfold tryQueryMany
  cases hlimit : s.budget with
  | none => exact .inl ⟨fun r hr => (by rw [remaining, hlimit] at hr; cases hr), rfl⟩
  | some limit =>
    have hremaining : s.remaining = some (limit - s.queries).toNat := by rw [remaining, hlimit]; rfl
    have haffordable : (s.pending ts).take (limit - s.queries).toNat = s.affordable ts := by
      rw [affordable, hremaining]
    dsimp only
    split
    · next hless =>
      refine .inr ⟨limit, rfl, ?_, ?_⟩
      · rw [← haffordable, List.length_take]
        omega
      · rw [haffordable]
        rfl
    · next hless =>
      refine .inl ⟨fun r hr => ?_, rfl⟩
      obtain rfl : (limit - s.queries).toNat = r := Option.some.inj (hremaining.symm.trans hr)
      exact Nat.le_of_not_lt hless

/-- Queries that fit are not refused, so that careful answers to them are plain ones. -/
theorem queryMany_of_answersOrRejected {ts us : List Text} {bs : List Bool} (hfits : s.Fits ts)
    (h : answersOrRejected (s.queryMany o ts) us = (.ok bs, s')) :
    s.queryMany o ts = (.ok bs, s') := by
  rcases hr : s.queryMany o ts with ⟨(limit | f) | bs', s₁⟩
  · exact absurd hfits (not_fits_of_refused (congrArg Prod.fst hr))
  · rw [hr] at h
    cases h
  · rw [hr] at h
    obtain ⟨hbs, rfl⟩ := Prod.mk.inj h
    rw [Except.ok.inj hbs]

/-- Looking up among answers finds those to the texts asked about. -/
theorem lookup_zip {g : Text → Option Bool} {us : List Text} {bs : List Bool}
    (h : List.Forall₂ (fun t b => g t = some b) us bs) (t : Text) :
    (us.zip bs).lookup t = if t ∈ us then g t else none := by
  induction h with
  | nil => rfl
  | @cons u b us bs hu _ ih =>
    rw [List.zip_cons_cons, List.lookup_cons, ih]
    by_cases htu : t = u
    · simp [htu, hu]
    · simp [htu, beq_eq_false_iff_ne.mpr htu]

/-- Where the budget does not suffice, it is used up, and the texts left out are refused. -/
theorem refused_of_short (ho : o.Decides v) {ts : List Text} {bs : List Bool}
    (hshort : (s.affordable ts).length < (s.pending ts).length)
    (h : s.queryMany o (s.answerable ts) = (.ok bs, s')) {t : Text} (ht : t ∈ ts)
    (hother : t ∉ s.answerable ts) : s'.Refused t := by
  obtain ⟨new, hx, ⟨-, hs, rfl⟩ | ⟨limit, hrefused, -⟩ | ⟨f, hfailed, -⟩⟩ :=
    queryMany_cases ho s (s.answerable ts)
  · rw [h] at hx hs
    constructor
    · refine Option.eq_none_iff_forall_ne_some.mpr fun b hb => hother ?_
      refine List.mem_filter.mpr ⟨ht, ?_⟩
      rcases hx.gained t b hb with hold | ⟨hnew, -⟩
      · rw [isCached_of_answer? hold, Bool.true_or]
      · rw [pending_answerable] at hnew
        rw [decide_eq_true hnew, Bool.or_true]
    · -- All that was left of the budget has been charged for the affordable texts.
      have hqueries : s'.queries = s.queries + (s.pending (s.answerable ts)).length := hs.queries
      rw [pending_answerable] at hqueries
      unfold affordable at hshort hqueries
      cases hr : s.remaining with
      | none =>
        rw [hr] at hshort
        exact absurd hshort (Nat.lt_irrefl _)
      | some r =>
        simp only [hr, List.length_take] at hshort hqueries
        obtain ⟨limit, hlimit, rfl⟩ := Option.map_eq_some_iff.mp hr
        have hspent : limit ≤ (s'.queries : Int) := by omega
        exact (remaining_eq_zero_iff (hx.budget.trans hlimit)).mpr hspent
  · rw [hrefused] at h
    cases h
  · rw [h] at hfailed
    cases hfailed

theorem explains_of_tryQueryMany (ho : o.Decides v) {ts : List Text} {bs : List Bool}
    (h : (s.tryQueryMany o ts).1 = .ok bs) :
    List.Forall₂ (s.tryQueryMany o ts).2.Explains ts bs := by
  rcases hr : s.tryQueryMany o ts with ⟨r, s'⟩
  rw [hr] at h
  obtain rfl : r = .ok bs := h
  rcases tryQueryMany_cases s o ts with ⟨hfits, heq⟩ | ⟨limit, -, hshort, heq⟩
  · have hquery := queryMany_of_answersOrRejected hfits (heq.symm.trans hr)
    have hanswers := answer?_of_queryMany ho (congrArg Prod.fst hquery)
    rw [hquery] at hanswers
    exact hanswers.imp fun _ _ => .inl
  · have h := heq.symm.trans hr
    unfold rejectOthers at h
    split at h
    · cases h
    · next bs' s₁ hfirst =>
      obtain ⟨hbs, rfl⟩ := Prod.mk.inj h
      obtain rfl := Except.ok.inj hbs
      have hquery := queryMany_of_answersOrRejected (fits_answerable s ts) hfirst
      have hanswers := answer?_of_queryMany ho (congrArg Prod.fst hquery)
      rw [hquery] at hanswers
      -- A text that is left out has been refused; all others have answers.
      refine List.forall₂_map_right_iff.mpr (List.forall₂_same.mpr fun t ht => ?_)
      rw [lookup_zip hanswers]
      split
      · next hmem =>
        obtain ⟨b, hb⟩ := exists_of_answered hanswers hmem
        rw [hb, Option.getD_some]
        exact .inl (by rw [answer?_noteExhausted, hb])
      · next hother =>
        exact .inr ⟨rfl, refused_noteExhausted (refused_of_short ho hshort hquery ht hother)⟩

/-! ### Runs -/

/-- **Replies.** What an orderly computation ends with is reached with replies that the session
explains at its end. -/
theorem reaches_saying (ho : o.Decides v) {α : Type} {q : Query (Except Failure α × Memory)}
    (hq : q.Orderly) (s : Session σ) {P : Text → Bool → Prop}
    (hP : ∀ t b, (q.run o s).2.Explains t b → P t b) :
    q.Reaches (.saying P) (q.run o s).1 := by
  induction hq generalizing s with
  | done r => exact .done r
  | @ask t next answered failed ih =>
    have hexplains := fun b => explains_of_tryQuery ho (s := s) (t := t) (b := b)
    rw [Query.run] at hP ⊢
    rcases hr : s.tryQuery o t with ⟨f | b, s₁⟩
    · have hend : (next (.error f)).Reaches (.saying P) ((next (.error f)).run o s₁).1 := by
        obtain ⟨m₁, hm₁⟩ := failed f
        rw [hm₁]
        exact .done _
      exact .ask (fun b h => by cases h) hend
    · rw [hr] at hP hexplains
      refine .ask (fun b' hb => hP t b' ?_) (ih b s₁ hP)
      obtain rfl := Except.ok.inj hb
      -- The answer is explained, and nothing that follows changes that.
      obtain ⟨_, hx⟩ := exists_exchange_of_orderly ho (answered b) s₁
      exact hx.explains (hexplains b rfl)
  | @askMany ts next answered failed ih =>
    have hexplains : ∀ bs, (s.tryQueryMany o ts).1 = .ok bs →
        List.Forall₂ (s.tryQueryMany o ts).2.Explains ts bs :=
      fun bs => explains_of_tryQueryMany ho
    rw [Query.run] at hP ⊢
    rcases hr : s.tryQueryMany o ts with ⟨f | bs, s₁⟩
    · have hend : (next (.error f)).Reaches (.saying P) ((next (.error f)).run o s₁).1 := by
        obtain ⟨m₁, hm₁⟩ := failed f
        rw [hm₁]
        exact .done _
      exact .askMany (fun bs h => by cases h) hend
    · rw [hr] at hP hexplains
      refine .askMany (fun bs' hbs => ?_) (ih bs s₁ hP)
      obtain rfl := Except.ok.inj hbs
      obtain ⟨_, hx⟩ := exists_exchange_of_orderly ho (answered bs) s₁
      exact (hexplains bs rfl).imp fun t b h => hP t b (hx.explains h)
  | note _ ih => exact .note (ih _ hP)

/-- What a run of an orderly learner ends with is returned with replies that the session explains at
its end. -/
theorem Learns.returns_saying (ho : o.Decides v) {α : Type} {l : Learner α} (hl : l.Orderly)
    {m m' : Memory} {x : α} (h : Learns o s l m x m' s') {P : Text → Bool → Prop}
    (hP : ∀ t b, s'.Explains t b → P t b) : l.Returns (.saying P) m x m' := by
  have hreach := reaches_saying ho (hl m) s (P := P)
  unfold Learns learn at h
  rw [h] at hreach
  exact hreach hP

/-- The remembered answers are those of the oracle. -/
def Faithful (v : Text → Except OracleFault Bool) (s : Session σ) : Prop :=
  ∀ t b, s.answer? t = some b → v t = .ok b

/-- A run of an orderly learner is an exchange with the oracle. -/
theorem Learns.exchange (ho : o.Decides v) {α : Type} {l : Learner α} (hl : l.Orderly)
    {m m' : Memory} {x : α} (h : Learns o s l m x m' s') : ∃ new, Exchange v s s' new := by
  have hx := exists_exchange_of_orderly ho (hl m) s
  unfold Learns learn at h
  rwa [h] at hx

/-- A run of an orderly learner leaves a faithful session faithful. -/
theorem Learns.faithful (ho : o.Decides v) (hs : s.Faithful v) {α : Type} {l : Learner α}
    (hl : l.Orderly) {m m' : Memory} {x : α} (h : Learns o s l m x m' s') : s'.Faithful v := by
  obtain ⟨new, hx⟩ := h.exchange ho hl
  intro t b hb
  rcases hx.gained t b hb with hb | ⟨-, hv⟩
  · exact hs t b hb
  · exact hv

/-! ### What is said of texts at the end of a run -/

/-- An answer is that of the oracle, or it is the rejection of a query that is refused. -/
def Judges (v : Text → Except OracleFault Bool) (s : Session σ) (t : Text) (b : Bool) : Prop :=
  v t = .ok b ∨ b = false ∧ s.Refused t

theorem judges_true {t : Text} : s.Judges v t true ↔ v t = .ok true :=
  ⟨fun h => h.resolve_right fun h => (by cases h.1), .inl⟩

/-- Replies that say what is known at the end of a run accept only what the oracle does. -/
theorem accepts_judged {t : Text} :
    (Replies.saying (s.Judges v)).Accepts t ↔ v t = .ok true :=
  Replies.accepts_saying.trans judges_true

/-- Without a budget every answer is that of the oracle. -/
theorem judges_of_unlimited (h : s.budget = none) {t : Text} {b : Bool} :
    s.Judges v t b ↔ v t = .ok b := by
  refine ⟨fun hj => hj.resolve_right fun hr => ?_, .inl⟩
  have hspent := hr.2.spent
  rw [remaining, h] at hspent
  cases hspent

/-- **Answers.** What a run of an orderly learner ends with in a faithful session is returned with
answers of the oracle and rejections of what has been refused. -/
theorem Learns.returns_judged (ho : o.Decides v) (hs : s.Faithful v) {α : Type} {l : Learner α}
    (hl : l.Orderly) {m m' : Memory} {x : α} (h : Learns o s l m x m' s') :
    l.Returns (.saying (s'.Judges v)) m x m' :=
  h.returns_saying ho hl fun t b => Or.imp_left (h.faithful ho hs hl t b)

end Session

end GrammarInference
