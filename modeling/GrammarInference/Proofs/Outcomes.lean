import GrammarInference.Learn.Learner

/-!
# What learning can lead to

A learner is a tree of questions, and what it ends with depends on the replies. `Replies` says
which replies are possible; `Learner.Returns` relates a learner and a memory to every result it can
have with possible replies and the memory it leaves, `Learner.Fails` to every failure. A learner is
`Safe` on a memory if no possible replies make it fail.

Which replies are possible is a parameter, so that a fact about every run in some session, under
some budget and with some oracle becomes a fact about the replies of that run. The three relations
are computed step by step along the monad operations and the primitive learners. So is
`Learner.Reads`, which says that a learner leaves the memory as it is, however it ends.
-/

namespace GrammarInference

/-- The replies that the questions of a run may get. -/
structure Replies where
  /-- The replies to one query. -/
  single : Text → Except OracleFault Bool → Prop
  /-- The replies to several queries at once. -/
  batch : List Text → Except OracleFault (List Bool) → Prop
  /-- The replies to a seed. -/
  seed : Text → Except OracleFault Bool → Prop

namespace Replies

/-- A query may be accepted. -/
def Accepts (R : Replies) (t : Text) : Prop := R.single t (.ok true)

/-- No question is left without an answer. -/
structure Answered (R : Replies) : Prop where
  /-- One query has an answer. -/
  single : ∀ t f, ¬ R.single t (.error f)
  /-- Several queries have answers. -/
  batch : ∀ ts f, ¬ R.batch ts (.error f)
  /-- A seed has an answer. -/
  seed : ∀ t f, ¬ R.seed t (.error f)

end Replies

/-- A result that a computation has with possible replies to its questions. -/
inductive Query.Reaches (R : Replies) {α : Type} : Query α → α → Prop
  /-- The result itself. -/
  | done (a : α) : Reaches R (.done a) a
  /-- After a possible reply to a query. -/
  | ask {t : Text} {next : Except OracleFault Bool → Query α} {reply : Except OracleFault Bool}
    {a : α} (hr : R.single t reply) (h : Reaches R (next reply) a) : Reaches R (.ask t next) a
  /-- After a possible reply to several queries. -/
  | askMany {ts : List Text} {next : Except OracleFault (List Bool) → Query α}
    {reply : Except OracleFault (List Bool)} {a : α} (hr : R.batch ts reply)
    (h : Reaches R (next reply) a) : Reaches R (.askMany ts next) a
  /-- After a possible reply to a seed. -/
  | vouch {t : Text} {next : Except OracleFault Bool → Query α} {reply : Except OracleFault Bool}
    {a : α} (hr : R.seed t reply) (h : Reaches R (next reply) a) : Reaches R (.vouch t next) a
  /-- A note changes nothing. -/
  | note {n : Note} {next : Query α} {a : α} (h : Reaches R next a) : Reaches R (.note n next) a

namespace Query

variable {R : Replies} {α β : Type}

@[simp] theorem reaches_done {a b : α} : (Query.done a).Reaches R b ↔ b = a :=
  ⟨fun h => by cases h; rfl, fun h => h ▸ .done _⟩

@[simp] theorem reaches_ask {t : Text} {next : Except OracleFault Bool → Query α} {a : α} :
    (Query.ask t next).Reaches R a ↔ ∃ reply, R.single t reply ∧ (next reply).Reaches R a := by
  constructor
  · intro h
    cases h with
    | ask hr h => exact ⟨_, hr, h⟩
  · rintro ⟨reply, hr, h⟩
    exact .ask hr h

@[simp] theorem reaches_askMany {ts : List Text}
    {next : Except OracleFault (List Bool) → Query α} {a : α} :
    (Query.askMany ts next).Reaches R a ↔
      ∃ reply, R.batch ts reply ∧ (next reply).Reaches R a := by
  constructor
  · intro h
    cases h with
    | askMany hr h => exact ⟨_, hr, h⟩
  · rintro ⟨reply, hr, h⟩
    exact .askMany hr h

@[simp] theorem reaches_vouch {t : Text} {next : Except OracleFault Bool → Query α} {a : α} :
    (Query.vouch t next).Reaches R a ↔ ∃ reply, R.seed t reply ∧ (next reply).Reaches R a := by
  constructor
  · intro h
    cases h with
    | vouch hr h => exact ⟨_, hr, h⟩
  · rintro ⟨reply, hr, h⟩
    exact .vouch hr h

@[simp] theorem reaches_note {n : Note} {next : Query α} {a : α} :
    (Query.note n next).Reaches R a ↔ next.Reaches R a :=
  ⟨fun h => by cases h; assumption, .note⟩

/-- A reply, and after it a result, are a result after a reply. -/
theorem exists_reply_and_result {γ : Type} (possible : γ → Prop) (reached : γ → α → Prop)
    (goal : α → Prop) :
    (∃ reply, possible reply ∧ ∃ a, reached reply a ∧ goal a) ↔
      ∃ a, (∃ reply, possible reply ∧ reached reply a) ∧ goal a := by
  constructor
  · rintro ⟨reply, hr, a, ha, hb⟩
    exact ⟨a, ⟨reply, hr, ha⟩, hb⟩
  · rintro ⟨a, ⟨reply, hr, ha⟩, hb⟩
    exact ⟨reply, hr, a, ha, hb⟩

/-- A computation in two steps reaches what the second reaches from a result of the first. -/
theorem reaches_bind {q : Query α} {f : α → Query β} {b : β} :
    (q.bind f).Reaches R b ↔ ∃ a, q.Reaches R a ∧ (f a).Reaches R b := by
  induction q with
  | done a => simp [bind]
  | ask t next ih =>
    simp only [bind, reaches_ask, ih]
    exact exists_reply_and_result _ _ _
  | askMany ts next ih =>
    simp only [bind, reaches_askMany, ih]
    exact exists_reply_and_result _ _ _
  | vouch t next ih =>
    simp only [bind, reaches_vouch, ih]
    exact exists_reply_and_result _ _ _
  | note n next ih => simpa [bind] using ih

end Query

/-- The memory after a rule has been set. -/
def Memory.setRule (m : Memory) (name : Text) (rule : Node) : Memory :=
  { m with rules := m.rules.set name rule }

namespace Learner

variable {R : Replies} {α β : Type} {m m' : Memory}

/-- A learner on a memory may end with a result, and leaves a memory. -/
def Returns (R : Replies) (l : Learner α) (m : Memory) (a : α) (m' : Memory) : Prop :=
  (l.tree m).Reaches R (.ok a, m')

/-- A learner on a memory may end with a failure. -/
def Fails (R : Replies) (l : Learner α) (m : Memory) (f : Failure) : Prop :=
  ∃ m', (l.tree m).Reaches R (.error f, m')

/-- A learner on a memory cannot fail. -/
def Safe (R : Replies) (l : Learner α) (m : Memory) : Prop := ∀ f, ¬ l.Fails R m f

/-- The tree of two steps goes on where the first one ends with a result. -/
theorem tree_bind (l : Learner α) (f : α → Learner β) (m : Memory) :
    (l >>= f : Learner β).tree m = (l.tree m).bind fun r => match r with
      | (.ok a, m') => (f a).tree m'
      | (.error e, m') => .done (.error e, m') := by
  change Query.bind (l m) _ = Query.bind (l m) _
  congr 1
  funext r
  obtain ⟨a | a, m'⟩ := r <;> rfl

theorem returns_bind {l : Learner α} {f : α → Learner β} {b : β} :
    (l >>= f).Returns R m b m' ↔ ∃ a m₁, l.Returns R m a m₁ ∧ (f a).Returns R m₁ b m' := by
  unfold Returns
  rw [tree_bind, Query.reaches_bind]
  constructor
  · rintro ⟨⟨a | a, m₁⟩, ha, hb⟩
    · exact absurd (Query.reaches_done.mp hb) (by simp)
    · exact ⟨a, m₁, ha, hb⟩
  · rintro ⟨a, m₁, ha, hb⟩
    exact ⟨(.ok a, m₁), ha, hb⟩

theorem fails_bind {l : Learner α} {f : α → Learner β} {e : Failure} :
    (l >>= f).Fails R m e ↔ l.Fails R m e ∨ ∃ a m₁, l.Returns R m a m₁ ∧ (f a).Fails R m₁ e := by
  unfold Fails Returns
  constructor
  · rintro ⟨m', h⟩
    rw [tree_bind, Query.reaches_bind] at h
    obtain ⟨⟨a | a, m₁⟩, ha, hb⟩ := h
    · have heq := Query.reaches_done.mp hb
      simp only [Prod.mk.injEq, Except.error.injEq] at heq
      obtain ⟨rfl, rfl⟩ := heq
      exact .inl ⟨_, ha⟩
    · exact .inr ⟨a, m₁, ha, m', hb⟩
  · rintro (⟨m', h⟩ | ⟨a, m₁, ha, m', hb⟩)
    · refine ⟨m', ?_⟩
      rw [tree_bind, Query.reaches_bind]
      exact ⟨_, h, .done _⟩
    · refine ⟨m', ?_⟩
      rw [tree_bind, Query.reaches_bind]
      exact ⟨_, ha, hb⟩

/-- Two steps are safe if the first is, and the second wherever the first leads. -/
theorem Safe.bind {l : Learner α} {f : α → Learner β} (hl : l.Safe R m)
    (hf : ∀ a m₁, l.Returns R m a m₁ → (f a).Safe R m₁) : (l >>= f).Safe R m := by
  intro e h
  rcases fails_bind.mp h with h | ⟨a, m₁, ha, h⟩
  · exact hl e h
  · exact hf a m₁ ha e h

/-! ### Primitive learners -/

@[simp] theorem returns_pure {a b : α} :
    (pure a : Learner α).Returns R m b m' ↔ b = a ∧ m' = m := by
  change (Query.done (Except.ok a, m)).Reaches R (.ok b, m') ↔ _
  simp

/-- A result without a question leaves the memory, and what holds of it holds of every result. -/
theorem of_returns_some {Q : α → Prop} {res : Option α} {a : α} (ha : Q a)
    (h : (pure (some a) : Learner (Option α)).Returns R m res m') :
    m' = m ∧ ∀ b, res = some b → Q b := by
  obtain ⟨rfl, rfl⟩ := returns_pure.mp h
  refine ⟨rfl, fun b hb => ?_⟩
  cases hb
  exact ha

theorem of_returns_none {Q : α → Prop} {res : Option α}
    (h : (pure none : Learner (Option α)).Returns R m res m') :
    m' = m ∧ ∀ a, res = some a → Q a := by
  obtain ⟨rfl, rfl⟩ := returns_pure.mp h
  exact ⟨rfl, nofun⟩

@[simp] theorem safe_pure (a : α) : (pure a : Learner α).Safe R m := by
  rintro f ⟨m', h⟩
  change (Query.done (Except.ok a, m)).Reaches R (.error f, m') at h
  simp at h

@[simp] theorem returns_fail {f : Failure} {a : α} :
    (fail f : Learner α).Returns R m a m' ↔ False := by
  change (Query.done (Except.error f, m)).Reaches R (.ok a, m') ↔ _
  simp

@[simp] theorem fails_fail {e f : Failure} : (fail f : Learner α).Fails R m e ↔ e = f := by
  change (∃ m', (Query.done (Except.error f, m)).Reaches R (.error e, m')) ↔ _
  simp

section Reply

/-! What a learner makes of the reply to a question: an answer is its result, and a fault its
failure. -/

variable {possible : Except OracleFault α → Prop}
  {pass : Except OracleFault α → Except Failure α}

theorem returns_reply (hok : ∀ a, pass (.ok a) = .ok a)
    (herror : ∀ f, pass (.error f) = .error (.oracle f)) {a : α} :
    (∃ reply, possible reply ∧ (Query.done (pass reply, m)).Reaches R (.ok a, m')) ↔
      possible (.ok a) ∧ m' = m := by
  constructor
  · rintro ⟨f | b, hr, h⟩
    · simp [herror] at h
    · simp only [hok, Query.reaches_done, Prod.mk.injEq, Except.ok.injEq] at h
      obtain ⟨rfl, rfl⟩ := h
      exact ⟨hr, rfl⟩
  · rintro ⟨hr, rfl⟩
    exact ⟨_, hr, by simp [hok]⟩

theorem not_fails_reply (hok : ∀ a, pass (.ok a) = .ok a)
    (answered : ∀ f, ¬ possible (.error f)) {e : Failure} :
    ¬ ∃ reply, possible reply ∧ (Query.done (pass reply, m)).Reaches R (.error e, m') := by
  rintro ⟨f | b, hr, h⟩
  · exact answered f hr
  · simp [hok] at h

end Reply

@[simp] theorem returns_accepts {t : Text} {b : Bool} :
    (accepts t).Returns R m b m' ↔ R.single t (.ok b) ∧ m' = m := by
  unfold Returns tree accepts
  rw [Query.reaches_ask]
  exact returns_reply (fun _ => rfl) (fun _ => rfl)

theorem safe_accepts (hR : R.Answered) (t : Text) : (accepts t).Safe R m := by
  rintro f ⟨m', h⟩
  unfold tree accepts at h
  rw [Query.reaches_ask] at h
  exact not_fails_reply (fun _ => rfl) (hR.single _) h

@[simp] theorem returns_acceptsEach {ts : List Text} {bs : List Bool} :
    (acceptsEach ts).Returns R m bs m' ↔ R.batch ts (.ok bs) ∧ m' = m := by
  unfold Returns tree acceptsEach
  rw [Query.reaches_askMany]
  exact returns_reply (fun _ => rfl) (fun _ => rfl)

theorem safe_acceptsEach (hR : R.Answered) (ts : List Text) : (acceptsEach ts).Safe R m := by
  rintro f ⟨m', h⟩
  unfold tree acceptsEach at h
  rw [Query.reaches_askMany] at h
  exact not_fails_reply (fun _ => rfl) (hR.batch _) h

@[simp] theorem returns_vouch {t : Text} {b : Bool} :
    (vouch t).Returns R m b m' ↔ R.seed t (.ok b) ∧ m' = m := by
  unfold Returns tree vouch
  rw [Query.reaches_vouch]
  exact returns_reply (fun _ => rfl) (fun _ => rfl)

theorem safe_vouch (hR : R.Answered) (t : Text) : (vouch t).Safe R m := by
  rintro f ⟨m', h⟩
  unfold tree vouch at h
  rw [Query.reaches_vouch] at h
  exact not_fails_reply (fun _ => rfl) (hR.seed _) h

@[simp] theorem returns_note {n : Note} {u : Unit} : (note n).Returns R m u m' ↔ m' = m := by
  unfold Returns tree note
  simp

@[simp] theorem safe_note (n : Note) : (note n).Safe R m := by
  rintro f ⟨m', h⟩
  unfold tree note at h
  simp at h

@[simp] theorem returns_rules {r : Rules} : rules.Returns R m r m' ↔ r = m.rules ∧ m' = m := by
  unfold Returns tree rules
  simp

@[simp] theorem safe_rules : rules.Safe R m := by
  rintro f ⟨m', h⟩
  unfold tree rules at h
  simp at h

@[simp] theorem returns_setRule {name : Text} {rule : Node} {u : Unit} :
    (setRule name rule).Returns R m u m' ↔ m' = m.setRule name rule := by
  unfold Returns tree setRule Memory.setRule
  simp

@[simp] theorem safe_setRule (name : Text) (rule : Node) : (setRule name rule).Safe R m := by
  rintro f ⟨m', h⟩
  unfold tree setRule at h
  simp at h

@[simp] theorem returns_classes {ks : List CharClass} :
    classes.Returns R m ks m' ↔ ks = m.classes ∧ m' = m := by
  unfold Returns tree classes
  simp

@[simp] theorem safe_classes : classes.Safe R m := by
  rintro f ⟨m', h⟩
  unfold tree classes at h
  simp at h

@[simp] theorem returns_learnClass {k : CharClass} {u : Unit} :
    (learnClass k).Returns R m u m' ↔
      m' = if k ∈ m.classes then m else { m with classes := m.classes ++ [k] } := by
  unfold Returns tree learnClass
  simp

@[simp] theorem safe_learnClass (k : CharClass) : (learnClass k).Safe R m := by
  rintro f ⟨m', h⟩
  unfold tree learnClass at h
  simp at h

/-! ### Texts and printed forms -/

@[simp] theorem returns_shownNode {n : Node} {t : Text} :
    (shownNode n).Returns R m t m' ↔ n.format? = some t ∧ m' = m := by
  unfold shownNode
  cases h : n.format? <;> simp [eq_comm]

theorem safe_shownNode {n : Node} (hn : n.isPrintable = true) : (shownNode n).Safe R m := by
  unfold shownNode Node.format?
  simp [hn]

@[simp] theorem returns_shownClass {k : CharClass} {t : Text} :
    (shownClass k).Returns R m t m' ↔ k.format? = .ok t ∧ m' = m := by
  unfold shownClass
  cases h : k.format? <;> simp [eq_comm]

theorem safe_shownClass {k : CharClass} {t : Text} (hk : k.format? = .ok t) :
    (shownClass k).Safe R m := by
  unfold shownClass
  simp [hk]

private theorem returns_ofRender {r : Except RenderFault Text} {t : Text} :
    (ofRender r).Returns R m t m' ↔ r = .ok t ∧ m' = m := by
  unfold ofRender
  cases r <;> simp [eq_comm]

private theorem safe_ofRender {r : Except RenderFault Text} {t : Text} (h : r = .ok t) :
    (ofRender r).Safe R m := by
  subst h
  exact safe_pure t

@[simp] theorem returns_render {n : Node} {t : Text} :
    (render n).Returns R m t m' ↔ m.rules.defaultText n = .ok t ∧ m' = m := by
  unfold render
  rw [returns_bind]
  constructor
  · rintro ⟨r, m₁, hr, h⟩
    obtain ⟨rfl, rfl⟩ := returns_rules.mp hr
    exact returns_ofRender.mp h
  · intro h
    exact ⟨m.rules, m, returns_rules.mpr ⟨rfl, rfl⟩, returns_ofRender.mpr h⟩

theorem safe_render {n : Node} {t : Text} (h : m.rules.defaultText n = .ok t) :
    (render n).Safe R m := by
  refine safe_rules.bind fun r m₁ hr => ?_
  obtain ⟨rfl, rfl⟩ := returns_rules.mp hr
  exact safe_ofRender h

@[simp] theorem returns_renderAll {ns : List Node} {t : Text} :
    (renderAll ns).Returns R m t m' ↔ m.rules.defaultTexts ns = .ok t ∧ m' = m := by
  unfold renderAll
  rw [returns_bind]
  constructor
  · rintro ⟨r, m₁, hr, h⟩
    obtain ⟨rfl, rfl⟩ := returns_rules.mp hr
    exact returns_ofRender.mp h
  · intro h
    exact ⟨m.rules, m, returns_rules.mpr ⟨rfl, rfl⟩, returns_ofRender.mpr h⟩

theorem safe_renderAll {ns : List Node} {t : Text} (h : m.rules.defaultTexts ns = .ok t) :
    (renderAll ns).Safe R m := by
  refine safe_rules.bind fun r m₁ hr => ?_
  obtain ⟨rfl, rfl⟩ := returns_rules.mp hr
  exact safe_ofRender h

/-! ### Learners that leave the memory as it is -/

/-- A learner leaves the memory as it is, however it ends. -/
def Reads (l : Learner α) : Prop :=
  ∀ ⦃R : Replies⦄ ⦃m m' : Memory⦄ ⦃r : Except Failure α⦄, (l.tree m).Reaches R (r, m') → m' = m

/-- A learner leaves the memory as it is if it fails. -/
def ReadsToFailure (l : Learner α) : Prop :=
  ∀ ⦃R : Replies⦄ ⦃m m' : Memory⦄ ⦃e : Failure⦄, (l.tree m).Reaches R (.error e, m') → m' = m

theorem Reads.bind {l : Learner α} {f : α → Learner β} (hl : l.Reads) (hf : ∀ a, (f a).Reads) :
    (l >>= f).Reads := by
  intro R m m' r h
  rw [tree_bind, Query.reaches_bind] at h
  obtain ⟨⟨e | a, m₁⟩, ha, h⟩ := h
  · obtain ⟨rfl, rfl⟩ := Prod.mk.inj (Query.reaches_done.mp h)
    exact hl ha
  · exact (hf a h).trans (hl ha)

theorem ReadsToFailure.bind {l : Learner α} {f : α → Learner β} (hl : l.Reads)
    (hf : ∀ a, (f a).ReadsToFailure) : (l >>= f).ReadsToFailure := by
  intro R m m' e h
  rw [tree_bind, Query.reaches_bind] at h
  obtain ⟨⟨e' | a, m₁⟩, ha, h⟩ := h
  · obtain ⟨-, rfl⟩ := Prod.mk.inj (Query.reaches_done.mp h)
    exact hl ha
  · exact (hf a h).trans (hl ha)

theorem Reads.ite {p : Prop} [Decidable p] {l l' : Learner α} (h : l.Reads) (h' : l'.Reads) :
    (if p then l else l').Reads := by
  split
  · exact h
  · exact h'

theorem reads_done {l : Learner α} {r : Memory → Except Failure α}
    (h : ∀ m, l.tree m = .done (r m, m)) : l.Reads := by
  intro R m m' r' hr
  rw [h, Query.reaches_done] at hr
  exact congrArg Prod.snd hr

theorem reads_pure (a : α) : (pure a : Learner α).Reads := reads_done fun _ => rfl

theorem reads_fail (f : Failure) : (fail f : Learner α).Reads := reads_done fun _ => rfl

theorem reads_classes : classes.Reads := reads_done fun _ => rfl

theorem reads_accepts (t : Text) : (accepts t).Reads := by
  intro R m m' r h
  obtain ⟨reply, -, h⟩ := Query.reaches_ask.mp h
  exact congrArg Prod.snd (Query.reaches_done.mp h)

theorem reads_acceptsEach (ts : List Text) : (acceptsEach ts).Reads := by
  intro R m m' r h
  obtain ⟨reply, -, h⟩ := Query.reaches_askMany.mp h
  exact congrArg Prod.snd (Query.reaches_done.mp h)

theorem reads_note (n : Note) : (note n).Reads := by
  intro R m m' r h
  exact congrArg Prod.snd (Query.reaches_done.mp (Query.reaches_note.mp h))

theorem reads_shownClass (k : CharClass) : (shownClass k).Reads := by
  unfold shownClass
  split
  · exact reads_pure _
  · exact reads_fail _

end Learner

end GrammarInference
