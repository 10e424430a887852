import GrammarInference.Learn.Synthesis
import GrammarInference.Proofs.Outcomes
import Mathlib.Data.List.Forall2

/-!
# Runs with an oracle that always answers

An oracle may answer every query by a fixed function of the text. In a session with such an oracle
the cache agrees with the function and holds only texts that were put; this is kept by every
operation of the session, and no answer is ever forgotten.

From this a run of a learner gets its possible replies: `Session.replies f s` are the replies that
a run ending in the session `s` can have had. A reply to a query is never a failure, and a reply
that accepts is an answer that the cache of `s` still holds. `Session.reaches_run` says that what
a computation ends with is reached with these replies, so that facts about what a learner can lead
to are facts about the run.
-/

namespace GrammarInference

variable {σ : Type}

/-- A function answers every query that is put to an oracle. -/
def Oracle.Answers (o : Oracle σ) (f : Text → Bool) : Prop :=
  ∀ t world, (o.reply t world).1.verdict = .ok (f t)

/-- The oracle that a function answers. -/
def Oracle.ofPredicate (f : Text → Bool) : Oracle Unit := fixed fun t => ⟨.ok (f t), []⟩

theorem Oracle.answers_ofPredicate (f : Text → Bool) : (ofPredicate f).Answers f := fun _ _ => rfl

/-- An oracle answered by a function puts all of several queries. -/
theorem Oracle.Answers.askAll {o : Oracle σ} {f : Text → Bool} (ho : o.Answers f)
    (ts : List Text) (world : σ) :
    (o.askAll ts world).1.verdicts = .ok (ts.map f) ∧ (o.askAll ts world).1.put = ts := by
  induction ts generalizing world with
  | nil => exact ⟨rfl, rfl⟩
  | cons t rest ih =>
    have hv := ho t world
    obtain ⟨hvs, hput⟩ := ih (o.reply t world).2
    simp only [Oracle.askAll]
    rw [hv]
    simp [hvs, hput, Except.map]

/-- Replies of any kind. -/
def Replies.any : Replies := ⟨fun _ _ => True, fun _ _ => True, fun _ _ => True⟩

/-- What a computation ends with in a session is reached with some replies. -/
theorem Query.reaches_any {α : Type} (q : Query α) (o : Oracle σ) (s : Session σ) :
    q.Reaches .any (q.run o s).1 := by
  induction q generalizing s with
  | done a => exact .done a
  | ask t next ih => exact .ask trivial (ih _ _)
  | askMany ts next ih => exact .askMany trivial (ih _ _)
  | vouch t next ih => exact .vouch trivial (ih _ _)
  | note n next ih => exact .note (ih _)

namespace Session

variable {f : Text → Bool} {o : Oracle σ}

/-- The remembered answers are those of a function, and were given by the oracle. -/
def Consistent (f : Text → Bool) (s : Session σ) : Prop :=
  ∀ t b, s.answer? t = some b → f t = b ∧ t ∈ s.put

/-- A session after another one: it is consistent, and no answer has been forgotten. -/
structure Follows (f : Text → Bool) (s s' : Session σ) : Prop where
  /-- The remembered answers are those of the function. -/
  consistent : s'.Consistent f
  /-- Remembered answers stay. -/
  kept : ∀ t b, s.answer? t = some b → s'.answer? t = some b

namespace Follows

theorem refl {s : Session σ} (hs : s.Consistent f) : s.Follows f s := ⟨hs, fun _ _ h => h⟩

theorem trans {s s₁ s₂ : Session σ} (h : s.Follows f s₁) (h' : s₁.Follows f s₂) :
    s.Follows f s₂ :=
  ⟨h'.consistent, fun t b ht => h'.kept t b (h.kept t b ht)⟩

/-- A session that differs in neither the cache nor the texts put follows. -/
theorem of_eq {s s' : Session σ} (hs : s.Consistent f) (hc : s'.cache = s.cache)
    (hp : s'.put = s.put) : s.Follows f s' := by
  refine ⟨fun t b h => ?_, fun t b h => ?_⟩
  · rw [hp]
    exact hs t b (by rwa [answer?, ← hc])
  · rwa [answer?, hc]

end Follows

theorem consistent_start (f : Text → Bool) (budget : Option Int) (world : σ) :
    (start budget world).Consistent f := by
  intro t b h
  simp [start, answer?] at h

theorem answer?_remember (s : Session σ) (t u : Text) (b : Bool) :
    (s.remember t b).answer? u = if u = t then some b else s.answer? u := by
  unfold answer? remember
  rw [List.lookup_cons]
  by_cases h : u = t
  · simp [h]
  · simp [h, beq_eq_false_iff_ne.mpr h]

/-- Remembering a new answer of the oracle is a step forward. -/
theorem follows_remember {s s' : Session σ} (hs : s.Consistent f) {t : Text}
    (hc : s'.cache = s.cache) (hsub : s.put ⊆ s'.put) (hput : t ∈ s'.put)
    (hnew : s.answer? t = none) : s.Follows f (s'.remember t (f t)) := by
  have hans : ∀ u, s'.answer? u = s.answer? u := fun u => by rw [answer?, hc, answer?]
  refine ⟨fun u b h => ?_, fun u b h => ?_⟩
  · rw [answer?_remember] at h
    split at h
    · next hu =>
      cases h
      exact ⟨by rw [hu], by rw [hu]; exact hput⟩
    · rw [hans] at h
      exact ⟨(hs u b h).1, hsub (hs u b h).2⟩
  · rw [answer?_remember]
    split
    · next hu => rw [hu, hnew] at h; cases h
    · rwa [hans]

/-! ### Single queries -/

/-- Charging changes neither the cache nor the texts put. -/
theorem charge_keeps (s : Session σ) (count : Nat) :
    (s.charge count).2.cache = s.cache ∧ (s.charge count).2.put = s.put := by
  unfold charge noteExhausted
  split
  · exact ⟨rfl, rfl⟩
  · split
    · dsimp only
      split <;> exact ⟨rfl, rfl⟩
    · exact ⟨rfl, rfl⟩

/-- A charge is refused by the budget, and by nothing else. -/
theorem exists_limit_of_charge {s s' : Session σ} {count : Nat} {e : QueryError}
    (h : s.charge count = (.error e, s')) : ∃ limit, e = .budgetExceeded limit := by
  unfold charge at h
  split at h
  · cases h
  · split at h
    · cases h
      exact ⟨_, rfl⟩
    · cases h

/-- To put a text that has no answer yet, and to remember the answer, is a step forward. -/
theorem consult_spec (ho : o.Answers f) {s s₁ : Session σ} (hs : s.Consistent f) {t : Text}
    (hcache : s₁.cache = s.cache) (hput : s₁.put = s.put) (hnew : s.answer? t = none) :
    ∃ s₂, s₁.consult o t = (.ok (f t), s₂) ∧ s.Follows f (s₂.remember t (f t)) := by
  refine ⟨(s₁.consult o t).2, Prod.ext (ho t s₁.world) rfl, ?_⟩
  refine follows_remember hs hcache ?_ (List.mem_append_right _ (List.mem_singleton_self t)) hnew
  rw [← hput]
  exact List.subset_append_left _ _

/-- The outcome of one query: no failure of the oracle, and what is answered is remembered. -/
theorem query_spec (ho : o.Answers f) {s : Session σ} (hs : s.Consistent f) (t : Text) :
    s.Follows f (s.query o t).2 ∧
      ((∃ limit, (s.query o t).1 = .error (.budgetExceeded limit)) ∨
        ((s.query o t).1 = .ok (f t) ∧ (s.query o t).2.answer? t = some (f t))) := by
  unfold query
  split
  · next b hb =>
    obtain ⟨rfl, _⟩ := hs t b hb
    exact ⟨.of_eq hs rfl rfl, .inr ⟨rfl, hb⟩⟩
  · next hb =>
    obtain ⟨hcache, hput⟩ := charge_keeps s 1
    split
    · next e s₁ hc =>
      rw [hc] at hcache hput
      obtain ⟨limit, rfl⟩ := exists_limit_of_charge hc
      exact ⟨.of_eq hs hcache hput, .inl ⟨limit, rfl⟩⟩
    · next s₁ hc =>
      rw [hc] at hcache hput
      obtain ⟨s₂, hconsult, hfollows⟩ := consult_spec ho hs hcache hput hb
      rw [hconsult]
      exact ⟨hfollows, .inr ⟨rfl, by rw [answer?_remember, if_pos rfl]⟩⟩

/-- A careful query has an answer, and one that accepts is remembered. -/
theorem tryQuery_spec (ho : o.Answers f) {s : Session σ} (hs : s.Consistent f) (t : Text) :
    s.Follows f (s.tryQuery o t).2 ∧ ∃ b, (s.tryQuery o t).1 = .ok b ∧
      (b = true → (s.tryQuery o t).2.answer? t = some true) := by
  obtain ⟨hf, hq⟩ := query_spec ho hs t
  unfold tryQuery
  split
  · next b s' h =>
    rw [h] at hf hq
    refine ⟨hf, b, rfl, fun hb => ?_⟩
    obtain ⟨limit, hq⟩ | ⟨hq, ha⟩ := hq
    · cases hq
    · cases hq
      rwa [hb] at ha
  · next limit s' h =>
    rw [h] at hf
    exact ⟨hf, false, rfl, fun hb => by cases hb⟩
  · next g s' h =>
    rw [h] at hq
    obtain ⟨limit, hq⟩ | ⟨hq, _⟩ := hq <;> cases hq

/-- A seed is answered by the function, and the answer is remembered. -/
theorem vouch_spec (ho : o.Answers f) {s : Session σ} (hs : s.Consistent f) (t : Text) :
    s.Follows f (s.vouch o t).2 ∧ (s.vouch o t).1 = .ok (f t) ∧
      (s.vouch o t).2.answer? t = some (f t) := by
  unfold vouch
  split
  · next b hb =>
    obtain ⟨rfl, _⟩ := hs t b hb
    exact ⟨.of_eq hs rfl rfl, rfl, hb⟩
  · next hb =>
    obtain ⟨s₂, hconsult, hfollows⟩ := consult_spec ho hs rfl rfl hb
    rw [hconsult]
    exact ⟨hfollows, rfl, by rw [answer?_remember, if_pos rfl]⟩

/-! ### Several queries at once -/

/-- Remembering answers of the oracle to texts put and not remembered before is a step forward. -/
theorem follows_rememberAll {s₀ s : Session σ} (h : s₀.Follows f s) (ts : List Text)
    (hput : ∀ t ∈ ts, t ∈ s.put) : s₀.Follows f (s.rememberAll (ts.zip (ts.map f))) := by
  induction ts generalizing s with
  | nil => exact h
  | cons t rest ih =>
    refine ih ⟨fun u b hu => ?_, fun u b hu => ?_⟩ fun u hu => hput u (.tail _ hu)
    · rw [answer?_remember] at hu
      split at hu
      · next hut =>
        cases hu
        rw [hut]
        exact ⟨rfl, hput t (.head _)⟩
      · exact h.consistent u b hu
    · rw [answer?_remember]
      split
      · next hut =>
        rw [← (h.consistent u b (h.kept u b hu)).1, hut]
      · exact h.kept u b hu

/-- The outcome of several queries: no failure of the oracle, and every text that is accepted is
remembered. -/
theorem queryMany_spec (ho : o.Answers f) {s : Session σ} (hs : s.Consistent f)
    (ts : List Text) :
    s.Follows f (s.queryMany o ts).2 ∧
      ((∃ limit, (s.queryMany o ts).1 = .error (.budgetExceeded limit)) ∨
        (s.queryMany o ts).1 =
          .ok (ts.map fun t => ((s.queryMany o ts).2.answer? t).getD false)) := by
  unfold queryMany
  obtain ⟨hcache, hput⟩ := charge_keeps s (s.pending ts).length
  dsimp only
  split
  · next e s₁ hc =>
    rw [hc] at hcache hput
    obtain ⟨limit, rfl⟩ := exists_limit_of_charge hc
    exact ⟨.of_eq hs hcache hput, .inl ⟨limit, rfl⟩⟩
  · next s₁ hc =>
    rw [hc] at hcache hput
    obtain ⟨hvs, hps⟩ := ho.askAll (s.pending ts) s₁.world
    split
    · next g hg => rw [hvs] at hg; cases hg
    · next bs hbs =>
      rw [hvs] at hbs
      cases hbs
      refine ⟨?_, .inr rfl⟩
      have hasked : s.Follows f { s₁ with
          put := s₁.put ++ (o.askAll (s.pending ts) s₁.world).1.put
          notes := s₁.notes ++ (o.askAll (s.pending ts) s₁.world).1.notes
          world := (o.askAll (s.pending ts) s₁.world).2 } := by
        refine ⟨fun t b h => ?_, fun t b h => ?_⟩
        · obtain ⟨h₁, h₂⟩ := hs t b (by rwa [answer?, ← hcache])
          exact ⟨h₁, List.mem_append_left _ (by rwa [hput])⟩
        · rwa [answer?, hcache]
      have key := follows_rememberAll hasked (s.pending ts) ?_
      · exact key.trans (.of_eq key.consistent rfl rfl)
      · intro t ht
        rw [hps]
        exact List.mem_append_right _ ht

/-- Several answers, each of which is remembered if it accepts. -/
def Remembers (s : Session σ) (ts : List Text) (bs : List Bool) : Prop :=
  List.Forall₂ (fun t b => b = true → s.answer? t = some true) ts bs

theorem remembers_map {s : Session σ} {ts : List Text} {g : Text → Bool}
    (h : ∀ t ∈ ts, g t = true → s.answer? t = some true) : s.Remembers ts (ts.map g) := by
  induction ts with
  | nil => exact List.Forall₂.nil
  | cons t rest ih =>
    exact List.Forall₂.cons (h t (.head _)) (ih fun u hu => h u (.tail _ hu))

theorem getD_answer? {s : Session σ} {t : Text} (h : (s.answer? t).getD false = true) :
    s.answer? t = some true := by
  cases hb : s.answer? t with
  | none => rw [hb] at h; cases h
  | some b => rw [hb] at h; exact congrArg some h

/-- Careful answers to several queries follow from the outcome of asking them. -/
theorem answersOrRejected_spec (ho : o.Answers f) {s : Session σ} (hs : s.Consistent f)
    (ts : List Text) :
    s.Follows f (answersOrRejected (s.queryMany o ts) ts).2 ∧
      ∃ bs, (answersOrRejected (s.queryMany o ts) ts).1 = .ok bs ∧
        (answersOrRejected (s.queryMany o ts) ts).2.Remembers ts bs := by
  obtain ⟨hf, hq⟩ := queryMany_spec ho hs ts
  unfold answersOrRejected
  split
  · next bs s' h =>
    rw [h] at hf hq
    obtain ⟨limit, hq⟩ | hq := hq
    · cases hq
    · refine ⟨hf, bs, rfl, ?_⟩
      rw [Except.ok.inj hq]
      exact remembers_map fun t _ ht => getD_answer? ht
  · next limit s' h =>
    rw [h] at hf
    exact ⟨hf, _, rfl, remembers_map fun t _ ht => by cases ht⟩
  · next g s' h =>
    rw [h] at hq
    obtain ⟨limit, hq⟩ | hq := hq <;> cases hq

/-- Looking up among remembered answers finds an accepted text only if it is remembered. -/
theorem Remembers.lookup {s : Session σ} {ts : List Text} {bs : List Bool}
    (h : s.Remembers ts bs) {t : Text} (ht : ((ts.zip bs).lookup t).getD false = true) :
    s.answer? t = some true := by
  induction h with
  | nil => cases ht
  | @cons u b us bs hb _ ih =>
    rw [List.zip_cons_cons, List.lookup_cons] at ht
    split at ht
    · next hut => rw [eq_of_beq hut]; exact hb ht
    · exact ih ht

/-- Careful queries have answers, and every text that is accepted is remembered. -/
theorem tryQueryMany_spec (ho : o.Answers f) {s : Session σ} (hs : s.Consistent f)
    (ts : List Text) :
    s.Follows f (s.tryQueryMany o ts).2 ∧ ∃ bs, (s.tryQueryMany o ts).1 = .ok bs ∧
      (s.tryQueryMany o ts).2.Remembers ts bs := by
  unfold tryQueryMany
  dsimp only
  split
  · exact answersOrRejected_spec ho hs ts
  · next limit _ =>
    split
    · generalize ts.filter _ = answerable
      obtain ⟨hf, bs, hbs, hr⟩ := answersOrRejected_spec ho hs answerable
      split
      · next g s' h => rw [h] at hbs; cases hbs
      · next bs' s' h =>
        rw [h] at hf hbs hr
        cases hbs
        have hnote : s'.Follows f (s'.noteExhausted limit) := by
          refine .of_eq hf.consistent ?_ ?_ <;>
            · unfold noteExhausted
              split <;> rfl
        refine ⟨hf.trans hnote, _, rfl, remembers_map fun t _ ht => ?_⟩
        exact hnote.kept t true (hr.lookup ht)
    · exact answersOrRejected_spec ho hs ts

/-! ### The replies of a run -/

/-- The replies that a run ending in a session can have had: no failures, seeds answered by the
function, and whatever was accepted is remembered. -/
def replies (f : Text → Bool) (s : Session σ) : Replies where
  single t r := ∃ b, r = .ok b ∧ (b = true → s.answer? t = some true)
  batch ts r := ∃ bs, r = .ok bs ∧ s.Remembers ts bs
  seed t r := r = .ok (f t) ∧ s.answer? t = some (f t)

theorem answered_replies (f : Text → Bool) (s : Session σ) : (s.replies f).Answered where
  single := by
    rintro t g ⟨b, hb, _⟩
    cases hb
  batch := by
    rintro ts g ⟨bs, hbs, _⟩
    cases hbs
  seed := by
    rintro t g ⟨h, _⟩
    cases h

theorem Remembers.mono {s s' : Session σ} (h : s.Follows f s') {ts : List Text}
    {bs : List Bool} (hr : s.Remembers ts bs) : s'.Remembers ts bs :=
  List.Forall₂.imp (fun t b (ht : b = true → s.answer? t = some true) hb =>
    h.kept t true (ht hb)) hr

/-- A run in a consistent session leads forward, and ends with a result that is reached with the
replies of any session that follows. -/
theorem follows_run (ho : o.Answers f) {α : Type} (q : Query α) {s : Session σ}
    (hs : s.Consistent f) :
    s.Follows f (q.run o s).2 ∧
      ∀ s', (q.run o s).2.Follows f s' → q.Reaches (s'.replies f) (q.run o s).1 := by
  induction q generalizing s with
  | done a => exact ⟨.refl hs, fun s' _ => .done a⟩
  | ask t next ih =>
    obtain ⟨hf, b, hb, ha⟩ := tryQuery_spec ho hs t
    obtain ⟨hf', hr⟩ := ih (s.tryQuery o t).1 hf.consistent
    refine ⟨hf.trans hf', fun s' hs' => .ask ⟨b, hb, fun h => ?_⟩ (hr s' hs')⟩
    exact (hf'.trans hs').kept t true (ha h)
  | askMany ts next ih =>
    obtain ⟨hf, bs, hbs, ha⟩ := tryQueryMany_spec ho hs ts
    obtain ⟨hf', hr⟩ := ih (s.tryQueryMany o ts).1 hf.consistent
    exact ⟨hf.trans hf', fun s' hs' => .askMany ⟨bs, hbs, ha.mono (hf'.trans hs')⟩ (hr s' hs')⟩
  | vouch t next ih =>
    obtain ⟨hf, hv, ha⟩ := vouch_spec ho hs t
    obtain ⟨hf', hr⟩ := ih (s.vouch o t).1 hf.consistent
    exact ⟨hf.trans hf', fun s' hs' =>
      .vouch ⟨hv, (hf'.trans hs').kept t _ ha⟩ (hr s' hs')⟩
  | note n next ih =>
    have hn : s.Follows f (s.addNote n) := .of_eq hs rfl rfl
    obtain ⟨hf', hr⟩ := ih hn.consistent
    exact ⟨hn.trans hf', fun s' hs' => .note (hr s' hs')⟩

/-- **Runs.** What a learner ends with in a consistent session is reached with the replies of the
session it ends in. -/
theorem reaches_learn (ho : o.Answers f) {α : Type} (l : Learner α) (m : Memory)
    {s : Session σ} (hs : s.Consistent f) :
    (l.tree m).Reaches ((s.learn o l m).2.replies f) (s.learn o l m).1 := by
  obtain ⟨hf, hr⟩ := follows_run ho (l.tree m) hs
  exact hr _ (.refl hf.consistent)

/-! ### Runs of learners -/

/-- A learner on a memory ends with a result, and leaves a memory and a session. -/
def Learns (o : Oracle σ) (s : Session σ) {α : Type} (l : Learner α) (m : Memory) (a : α)
    (m' : Memory) (s' : Session σ) : Prop :=
  s.learn o l m = ((.ok a, m'), s')

section Learns

variable {α β : Type} {s s' : Session σ} {m m' : Memory}

/-- Once the first step has ended with a result, the second one makes the run. -/
theorem learn_bind {l : Learner α} {g : α → Learner β} {a : α} {m₁ : Memory} {s₁ : Session σ}
    (h : Learns o s l m a m₁ s₁) : s.learn o (l >>= g) m = s₁.learn o (g a) m₁ := by
  unfold Learns learn at h
  unfold learn
  rw [Learner.tree_bind, Query.run_bind, h]

theorem learns_bind {l : Learner α} {g : α → Learner β} {b : β} :
    Learns o s (l >>= g) m b m' s' ↔
      ∃ a m₁ s₁, Learns o s l m a m₁ s₁ ∧ Learns o s₁ (g a) m₁ b m' s' := by
  constructor
  · intro h
    rcases hl : s.learn o l m with ⟨⟨e | a, m₁⟩, s₁⟩
    · unfold Learns learn at h
      unfold learn at hl
      rw [Learner.tree_bind, Query.run_bind, hl] at h
      cases h
    · refine ⟨a, m₁, s₁, hl, ?_⟩
      unfold Learns at h ⊢
      rwa [learn_bind hl] at h
  · rintro ⟨a, m₁, s₁, hl, h⟩
    unfold Learns at h ⊢
    rwa [learn_bind hl]

@[simp] theorem learns_pure {a b : α} :
    Learns o s (pure a) m b m' s' ↔ b = a ∧ m' = m ∧ s' = s := by
  change ((Except.ok a, m), s) = ((Except.ok b, m'), s') ↔ _
  simp [eq_comm, and_assoc]

/-- What a run ends with is returned with some replies. -/
theorem Learns.returns_any {l : Learner α} {a : α} (h : Learns o s l m a m' s') :
    l.Returns .any m a m' := by
  have hreach := (l.tree m).reaches_any o s
  unfold Learns learn at h
  rw [h] at hreach
  exact hreach

/-- What a run ends with is returned with the replies of the session it ends in. -/
theorem Learns.returns (ho : o.Answers f) (hs : s.Consistent f) {l : Learner α} {a : α}
    (h : Learns o s l m a m' s') : s'.Consistent f ∧ l.Returns (s'.replies f) m a m' := by
  have hf := (follows_run ho (l.tree m) hs).1.consistent
  have hreach := reaches_learn ho l m hs
  unfold Learns at h
  unfold learn at h hreach
  rw [h] at hf hreach
  exact ⟨hf, hreach⟩

end Learns

end Session

end GrammarInference
