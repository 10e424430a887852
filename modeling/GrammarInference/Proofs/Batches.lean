import GrammarInference.Proofs.Answers
import Mathlib.Data.List.Nodup
import Mathlib.Data.List.Perm.Subperm

/-!
# Several queries at once

Asking about several texts at once charges for all of them before the first one is put, and decides
beforehand which of them the budget still allows. Asking about the same texts one after another
decides this text by text. With an oracle that always answers there is no difference: the answers
are the same, and so is the session that is left, down to its log
(`Session.tryQueryMany_eq_oneByOne`).

Both ways are compared with one description of what happens. The texts that are put are the
`Session.affordable` ones, the distinct texts without a remembered answer as far as the budget
allows; `Session.afterAsking` is the session after they have been put and answered.
-/

namespace GrammarInference

variable {σ : Type}

/-- An oracle answers every query, in every world. -/
def Oracle.NeverFails (o : Oracle σ) : Prop :=
  ∀ t world, ∃ b, (o.reply t world).1.verdict = .ok b

/-- Answers to several queries that an oracle has given, none if it failed. -/
def Batch.answers (batch : Batch) : List Bool := batch.verdicts.toOption.getD []

namespace Text

section Distinct

variable {α : Type} [DecidableEq α]

private theorem distinct_go_eq (seen xs : List α) :
    distinct.go seen xs = (distinct xs).filter fun x => x ∉ seen := by
  induction xs generalizing seen with
  | nil => rfl
  | cons x rest ih =>
    rw [distinct, distinct.go, distinct.go, if_neg List.not_mem_nil, ih [x], ih (x :: seen),
      ih seen]
    split
    · next hx =>
      rw [List.filter_cons_of_neg (by simpa using hx), List.filter_filter]
      refine List.filter_congr fun y _ => ?_
      by_cases hy : y = x
      · simp [hy, hx]
      · simp [hy]
    · next hx =>
      rw [List.filter_cons_of_pos (by simpa using hx), List.filter_filter]
      simp [Bool.and_comm]

/-- The first entry stays, and those equal to it are left out further on. -/
theorem distinct_cons (x : α) (xs : List α) :
    distinct (x :: xs) = x :: (distinct xs).filter fun y => y ≠ x := by
  rw [distinct, distinct.go, if_neg List.not_mem_nil, distinct_go_eq]
  simp

/-- Leaving out repetitions and selecting entries may be done in either order. -/
theorem distinct_filter (p : α → Bool) (xs : List α) :
    distinct (xs.filter p) = (distinct xs).filter p := by
  induction xs with
  | nil => rfl
  | cons x rest ih =>
    rw [distinct_cons]
    by_cases hx : p x = true
    · rw [List.filter_cons_of_pos hx, List.filter_cons_of_pos hx, distinct_cons, ih,
        List.filter_filter, List.filter_filter]
      simp [Bool.and_comm]
    · rw [List.filter_cons_of_neg hx, List.filter_cons_of_neg hx, ih, List.filter_filter]
      refine List.filter_congr fun y _ => ?_
      by_cases hy : y = x
      · simp [hy, hx]
      · simp [hy]

end Distinct

/-- The entries at the front of a list without repetitions are those that occur there. -/
theorem filter_mem_take {α : Type} [BEq α] [LawfulBEq α] {xs : List α}
    (h : xs.Nodup) (n : Nat) :
    (xs.filter fun x => x ∈ xs.take n) = xs.take n := by
  have hd : (xs.take n).Disjoint (xs.drop n) := by
    rw [← List.take_append_drop n xs] at h
    exact (List.nodup_append'.mp h).2.2
  conv_lhs => rw [← List.take_append_drop n xs]
  rw [List.filter_append, List.take_append_drop, List.filter_eq_self.mpr (by simp),
    List.filter_eq_nil_iff.mpr, List.append_nil]
  intro x hx hmem
  exact hd (by simpa using hmem) hx

end Text

namespace Oracle.NeverFails

variable {o : Oracle σ}

/-- All of several queries are put and answered. -/
theorem askAll (ho : o.NeverFails) (ts : List Text) (world : σ) :
    (o.askAll ts world).1.verdicts = .ok (o.askAll ts world).1.answers ∧
      (o.askAll ts world).1.put = ts ∧ (o.askAll ts world).1.answers.length = ts.length := by
  induction ts generalizing world with
  | nil => exact ⟨rfl, rfl, rfl⟩
  | cons t rest ih =>
    obtain ⟨b, hb⟩ := ho t world
    obtain ⟨hv, hput, hlength⟩ := ih (o.reply t world).2
    simp only [Oracle.askAll, Batch.answers, hb]
    rw [hv, hput]
    simp [Except.map, Except.toOption, hlength]

/-- After the first query the others are put in the world that it left. -/
theorem askAll_cons (ho : o.NeverFails) (t : Text) (rest : List Text) (world : σ) :
    ∃ b, (o.reply t world).1.verdict = .ok b ∧
      (o.askAll (t :: rest) world).1.answers =
        b :: (o.askAll rest (o.reply t world).2).1.answers ∧
      (o.askAll (t :: rest) world).1.notes =
        (o.reply t world).1.notes ++ (o.askAll rest (o.reply t world).2).1.notes ∧
      (o.askAll (t :: rest) world).2 = (o.askAll rest (o.reply t world).2).2 := by
  obtain ⟨b, hb⟩ := ho t world
  obtain ⟨hv, -, -⟩ := ho.askAll rest (o.reply t world).2
  refine ⟨b, hb, ?_, ?_, ?_⟩
  · simp only [Oracle.askAll, Batch.answers, hb]
    rw [hv]
    rfl
  · simp only [Oracle.askAll, hb]
  · simp only [Oracle.askAll, hb]

end Oracle.NeverFails

namespace Session

variable {o : Oracle σ} {s : Session σ} {t : Text} {ts : List Text}

/-- Several texts asked about one after another, up to the first one without an answer. -/
def oneByOne {ε : Type} (ask : Session σ → Text → Except ε Bool × Session σ) (s : Session σ) :
    List Text → Except ε (List Bool) × Session σ
  | [] => (.ok [], s)
  | t :: rest =>
    match ask s t with
    | (.error e, s) => (.error e, s)
    | (.ok b, s) =>
      match oneByOne ask s rest with
      | (.error e, s) => (.error e, s)
      | (.ok bs, s) => (.ok (b :: bs), s)

/-- A list of texts goes on with its rest where the first text has an answer. -/
theorem oneByOne_cons {ε : Type} {ask : Session σ → Text → Except ε Bool × Session σ}
    {s₁ s₂ : Session σ} {b : Bool} {bs : List Bool} {rest : List Text}
    (h : ask s t = (.ok b, s₁)) (hrest : oneByOne ask s₁ rest = (.ok bs, s₂)) :
    oneByOne ask s (t :: rest) = (.ok (b :: bs), s₂) := by
  rw [oneByOne, h]
  dsimp only
  rw [hrest]

/-! ### What is asked -/

/-- The texts of a list of queries that are put to the oracle: those that are pending, as many as
the budget allows. -/
def affordable (s : Session σ) (ts : List Text) : List Text :=
  match s.remaining with
  | none => s.pending ts
  | some r => (s.pending ts).take r

/-- The session after texts have been charged, put and answered. -/
def afterAsking (s : Session σ) (o : Oracle σ) (asked : List Text) : Session σ :=
  { s with
    queries := s.queries + asked.length
    cache := (asked.zip (o.askAll asked s.world).1.answers).reverse ++ s.cache
    put := s.put ++ asked
    notes := s.notes ++ (o.askAll asked s.world).1.notes
    world := (o.askAll asked s.world).2 }

/-- How many texts of a list have an answer once some texts have been put. -/
def answered (s : Session σ) (asked ts : List Text) : Nat :=
  ts.countP fun t => s.isCached t || decide (t ∈ asked)

theorem isCached_eq_false_iff : s.isCached t = false ↔ s.answer? t = none := by
  simp [isCached]

@[simp] theorem afterAsking_nil : s.afterAsking o [] = s := by
  simp [afterAsking, Oracle.askAll]

/-- What has been put is taken off the budget. -/
theorem remaining_afterAsking (s : Session σ) (o : Oracle σ) (asked : List Text) :
    (s.afterAsking o asked).remaining = s.remaining.map fun r => r - asked.length := by
  unfold remaining afterAsking
  cases s.budget with
  | none => rfl
  | some limit =>
    simp only [Option.map_some, Option.some.injEq]
    omega

theorem rememberAll_eq (s : Session σ) (xs : List (Text × Bool)) :
    s.rememberAll xs = { s with cache := xs.reverse ++ s.cache } := by
  induction xs generalizing s with
  | nil => rfl
  | cons x rest ih =>
    obtain ⟨t, b⟩ := x
    rw [rememberAll, ih]
    simp [remember]

/-- Texts are asked about one by one as well as together. -/
theorem afterAsking_cons (ho : o.NeverFails) (s : Session σ) (t : Text) (rest : List Text) :
    s.afterAsking o (t :: rest) = (s.afterAsking o [t]).afterAsking o rest := by
  obtain ⟨b, hb, hanswers, hnotes, hworld⟩ := ho.askAll_cons t rest s.world
  obtain ⟨b', hb', hanswers', hnotes', hworld'⟩ := ho.askAll_cons t [] s.world
  obtain rfl : b = b' := Except.ok.inj (hb.symm.trans hb')
  have hone : o.askAll [] (o.reply t s.world).2 = (⟨.ok [], [], []⟩, (o.reply t s.world).2) := rfl
  rw [hone] at hanswers' hnotes' hworld'
  unfold afterAsking
  rw [hworld', hanswers', hnotes', hanswers, hnotes, hworld]
  simp [Nat.add_comm, Nat.add_left_comm, Batch.answers, Except.toOption]

/-- Answers to other texts stay what they were. -/
theorem answer?_afterAsking_of_not_mem {asked : List Text} (h : t ∉ asked) :
    (s.afterAsking o asked).answer? t = s.answer? t := by
  have hnone : ((asked.zip (o.askAll asked s.world).1.answers).reverse).lookup t = none := by
    rw [List.lookup_eq_none_iff]
    rintro ⟨u, b⟩ hu
    have hmem := (List.of_mem_zip (List.mem_reverse.mp hu)).1
    simp only [ne_eq, bne_iff_ne]
    rintro rfl
    exact h hmem
  rw [answer?, afterAsking, List.lookup_append, hnone]
  rfl

/-- A text that has been put has the answer of the oracle. -/
theorem answer?_afterAsking_singleton (ho : o.NeverFails) (s : Session σ) (t : Text) :
    ∃ b, (o.reply t s.world).1.verdict = .ok b ∧ (s.afterAsking o [t]).answer? t = some b := by
  obtain ⟨b, hb, hanswers, -, -⟩ := ho.askAll_cons t [] s.world
  refine ⟨b, hb, ?_⟩
  rw [answer?, afterAsking, hanswers]
  simp

/-! ### Pending texts -/

theorem pending_cons_of_isCached {rest : List Text} (h : s.isCached t = true) :
    s.pending (t :: rest) = s.pending rest := by
  unfold pending
  rw [Text.distinct_cons, List.filter_cons_of_neg (by simp [h]), List.filter_filter]
  refine List.filter_congr fun u _ => ?_
  by_cases hu : u = t
  · simp [hu, h]
  · simp [hu]

/-- A text is cached after it has been put if it was before or is that text. -/
theorem isCached_afterAsking_singleton (ho : o.NeverFails) (s : Session σ) (t u : Text) :
    (s.afterAsking o [t]).isCached u = (s.isCached u || decide (u = t)) := by
  by_cases hu : u = t
  · obtain ⟨b, -, hb⟩ := answer?_afterAsking_singleton ho s t
    simp [isCached, hu, hb]
  · rw [isCached, answer?_afterAsking_of_not_mem (by simpa using hu)]
    simp [isCached, hu]

/-- A text without an answer is put first; the others are then pending. -/
theorem pending_cons_of_not_isCached (ho : o.NeverFails) (rest : List Text)
    (h : s.isCached t = false) :
    s.pending (t :: rest) = t :: (s.afterAsking o [t]).pending rest := by
  unfold pending
  rw [Text.distinct_cons, List.filter_cons_of_pos (by simp [h]), List.filter_filter]
  congr 1
  refine List.filter_congr fun u _ => ?_
  rw [isCached_afterAsking_singleton ho]
  simp

theorem nodup_pending (s : Session σ) (ts : List Text) : (s.pending ts).Nodup :=
  (Text.nodup_distinct ts).filter _

theorem mem_pending : t ∈ s.pending ts ↔ t ∈ ts ∧ s.isCached t = false := by
  simp [pending]

theorem affordable_sublist (s : Session σ) (ts : List Text) :
    (s.affordable ts).Sublist (s.pending ts) := by
  unfold affordable
  split
  · exact List.Sublist.refl _
  · exact List.take_sublist _ _

/-- What is put is among the texts that then have answers. -/
theorem length_affordable_le (s : Session σ) (ts : List Text) :
    (s.affordable ts).length ≤ s.answered (s.affordable ts) ts := by
  rw [answered, List.countP_eq_length_filter]
  have hnodup := (affordable_sublist s ts).nodup (nodup_pending s ts)
  refine (List.subperm_of_subset hnodup fun u hu => ?_).length_le
  have hmem := (mem_pending.mp ((affordable_sublist s ts).subset hu)).1
  exact List.mem_filter.mpr ⟨hmem, by simp [hu]⟩

/-! ### The common outcome -/

/-- The session after answers from memory. -/
def recalling (s : Session σ) (count : Nat) : Session σ := { s with hits := s.hits + count }

/-- Notes, once, that the budget is used up, if it fell short. -/
def noteShort (s : Session σ) (short : Bool) : Session σ :=
  match s.budget with
  | none => s
  | some limit => if short then s.noteExhausted limit else s

/-- The session that careful queries about several texts leave. -/
def careful (s : Session σ) (o : Oracle σ) (ts : List Text) : Session σ :=
  let asked := s.affordable ts
  ((s.afterAsking o asked).recalling (s.answered asked ts - asked.length)).noteShort
    (asked.length < (s.pending ts).length)

/-- The remembered answers to several texts; a text without one counts as rejected. -/
def answersTo (s : Session σ) (ts : List Text) : List Bool :=
  ts.map fun t => (s.answer? t).getD false

theorem recalling_recalling (s : Session σ) (m n : Nat) :
    (s.recalling m).recalling n = s.recalling (m + n) := by
  simp [recalling, Nat.add_assoc]

@[simp] theorem answer?_noteExhausted (s : Session σ) (limit : Int) :
    (s.noteExhausted limit).answer? t = s.answer? t := by
  unfold noteExhausted
  split <;> rfl

@[simp] theorem answer?_noteShort (s : Session σ) (short : Bool) :
    (s.noteShort short).answer? t = s.answer? t := by
  unfold noteShort
  split
  · rfl
  · split
    · exact answer?_noteExhausted s _
    · rfl

theorem answer?_careful (s : Session σ) (o : Oracle σ) (ts : List Text) :
    (s.careful o ts).answer? t = (s.afterAsking o (s.affordable ts)).answer? t := by
  rw [careful, answer?_noteShort]
  rfl

/-- An answer from memory is given and counted. -/
theorem careful_cons_of_isCached {rest : List Text} (h : s.isCached t = true) :
    s.careful o (t :: rest) = (s.recalling 1).careful o rest := by
  have hpending : (s.recalling 1).pending rest = s.pending (t :: rest) :=
    (pending_cons_of_isCached h).symm
  have haffordable : (s.recalling 1).affordable rest = s.affordable (t :: rest) := by
    rw [affordable, affordable, hpending]
    rfl
  have hanswered : s.answered (s.affordable (t :: rest)) (t :: rest) =
      s.answered (s.affordable (t :: rest)) rest + 1 :=
    List.countP_cons_of_pos (by simp [h])
  have hle : (s.affordable (t :: rest)).length ≤ s.answered (s.affordable (t :: rest)) rest := by
    rw [← haffordable]
    exact length_affordable_le _ rest
  have hhits : s.answered (s.affordable (t :: rest)) (t :: rest) -
      (s.affordable (t :: rest)).length = 1 +
        (s.answered (s.affordable (t :: rest)) rest - (s.affordable (t :: rest)).length) := by
    omega
  unfold careful
  dsimp only
  rw [hpending, haffordable, hhits, ← recalling_recalling]
  rfl

/-- A text that the budget allows is put, and the others follow. -/
theorem careful_cons_of_allowed (ho : o.NeverFails) {rest : List Text} (h : s.isCached t = false)
    (hallowed : ∀ r ∈ s.remaining, 0 < r) :
    s.careful o (t :: rest) = (s.afterAsking o [t]).careful o rest := by
  have hpending := pending_cons_of_not_isCached ho rest h
  have haffordable : s.affordable (t :: rest) =
      t :: (s.afterAsking o [t]).affordable rest := by
    unfold affordable
    rw [remaining_afterAsking]
    cases hr : s.remaining with
    | none => exact hpending
    | some r =>
      rw [Option.map_some, List.length_singleton]
      dsimp only
      rw [hpending, ← List.take_succ_cons, Nat.sub_add_cancel (hallowed r hr)]
  -- The first text counts as answered, and what has been put for it does not count again.
  have hanswered : s.answered (t :: (s.afterAsking o [t]).affordable rest) (t :: rest) =
      (s.afterAsking o [t]).answered ((s.afterAsking o [t]).affordable rest) rest + 1 := by
    rw [answered, List.countP_cons_of_pos (by simp), answered]
    congr 1
    refine List.countP_congr fun u _ => ?_
    rw [isCached_afterAsking_singleton ho]
    simp [or_assoc]
  unfold careful
  dsimp only
  rw [haffordable, hanswered, hpending, afterAsking_cons ho, List.length_cons, List.length_cons,
    Nat.add_sub_add_right]
  simp

/-- The end of the budget is noted once only. -/
theorem noteExhausted_noteExhausted (s : Session σ) (limit limit' : Int) :
    (s.noteExhausted limit).noteExhausted limit' = s.noteExhausted limit := by
  by_cases h : s.exhaustedNoted = true <;> simp [noteExhausted, h]

theorem recalling_noteExhausted (s : Session σ) (limit : Int) (count : Nat) :
    (s.noteExhausted limit).recalling count = (s.recalling count).noteExhausted limit := by
  by_cases h : s.exhaustedNoted = true <;> simp [noteExhausted, recalling, h]

theorem budget_noteExhausted (s : Session σ) (limit : Int) :
    (s.noteExhausted limit).budget = s.budget := by
  unfold noteExhausted
  split <;> rfl

theorem queries_noteExhausted (s : Session σ) (limit : Int) :
    (s.noteExhausted limit).queries = s.queries := by
  unfold noteExhausted
  split <;> rfl

/-- Where nothing is left of the budget, nothing is put. -/
theorem careful_of_spent (h : s.remaining = some 0) :
    s.careful o ts = (s.recalling (s.answered [] ts)).noteShort (0 < (s.pending ts).length) := by
  have haffordable : s.affordable ts = [] := by
    rw [affordable, h]
    exact List.take_zero
  rw [careful, haffordable, afterAsking_nil]
  rfl

/-- A text that the budget refuses is noted and passed over. -/
theorem careful_cons_of_refused (rest : List Text) {limit : Int} (h : s.isCached t = false)
    (hlimit : s.budget = some limit) (hspent : s.remaining = some 0) :
    s.careful o (t :: rest) = (s.noteExhausted limit).careful o rest := by
  have hcached : ∀ u, (s.noteExhausted limit).isCached u = s.isCached u := by
    intro u
    rw [isCached, answer?_noteExhausted, isCached]
  have hspent' : (s.noteExhausted limit).remaining = some 0 := by
    rw [remaining, budget_noteExhausted, queries_noteExhausted]
    exact hspent
  have hpending : 0 < (s.pending (t :: rest)).length :=
    List.length_pos_of_mem (mem_pending.mpr ⟨List.mem_cons_self, h⟩)
  have hanswered : s.answered [] (t :: rest) = (s.noteExhausted limit).answered [] rest := by
    rw [answered, List.countP_cons_of_neg (by simp [h]), answered]
    simp only [hcached]
  -- Once the exhausted budget has been noted, it is not noted again.
  have hshort : ∀ short, ((s.noteExhausted limit).recalling
      ((s.noteExhausted limit).answered [] rest)).noteShort short =
        (s.noteExhausted limit).recalling ((s.noteExhausted limit).answered [] rest) := by
    intro short
    have hbudget : ((s.noteExhausted limit).recalling
        ((s.noteExhausted limit).answered [] rest)).budget = some limit :=
      (budget_noteExhausted s limit).trans hlimit
    rw [noteShort, hbudget]
    dsimp only
    split
    · rw [recalling_noteExhausted, noteExhausted_noteExhausted]
    · rfl
  have hbudget : (s.recalling (s.answered [] (t :: rest))).budget = some limit := hlimit
  rw [careful_of_spent hspent, careful_of_spent hspent', hshort, noteShort, hbudget,
    decide_eq_true hpending, hanswered, recalling_noteExhausted]
  rfl

/-! ### One query after another -/

/-- What the budget suffices for is charged. -/
theorem charge_of_fits {count : Nat} (h : ∀ r ∈ s.remaining, count ≤ r) :
    s.charge count = (.ok (), { s with queries := s.queries + count }) := by
  unfold charge
  cases hbudget : s.budget with
  | none => rfl
  | some limit =>
    have hle := h (limit - s.queries).toNat (by simp [remaining, hbudget])
    dsimp only
    rw [if_neg (by omega)]

/-- What a query does when its text has no answer and the budget allows it. -/
theorem query_of_allowed (ho : o.NeverFails) (h : s.isCached t = false)
    (hallowed : ∀ r ∈ s.remaining, 0 < r) :
    ∃ b, s.query o t = (.ok b, s.afterAsking o [t]) ∧
      (s.afterAsking o [t]).answer? t = some b := by
  obtain ⟨b, hb, hanswer⟩ := answer?_afterAsking_singleton ho s t
  refine ⟨b, ?_, hanswer⟩
  obtain ⟨b', hb', hanswers, hnotes, hworld⟩ := ho.askAll_cons t [] s.world
  obtain rfl : b = b' := Except.ok.inj (hb.symm.trans hb')
  unfold query
  rw [isCached_eq_false_iff.mp h]
  dsimp only
  rw [charge_of_fits hallowed]
  dsimp only
  rw [consult, afterAsking, hanswers, hnotes, hworld]
  dsimp only
  rw [hb]
  simp [remember, Oracle.askAll, Batch.answers, Except.toOption]

theorem query_of_isCached {b : Bool} (h : s.answer? t = some b) :
    s.query o t = (.ok b, s.recalling 1) := by
  rw [query, h]
  rfl

theorem tryQuery_of_query {s' : Session σ} {b : Bool} (h : s.query o t = (.ok b, s')) :
    s.tryQuery o t = (.ok b, s') := by
  rw [tryQuery, h]

theorem tryQuery_of_refused {limit : Int} (h : s.isCached t = false)
    (hlimit : s.budget = some limit) (hspent : s.remaining = some 0) :
    s.tryQuery o t = (.ok false, s.noteExhausted limit) := by
  have hleft : (limit - s.queries).toNat < 1 := by
    have hzero : (limit - s.queries).toNat = 0 := by simpa [remaining, hlimit] using hspent
    omega
  have hquery : s.query o t = (.error (.budgetExceeded limit), s.noteExhausted limit) := by
    unfold query charge
    rw [isCached_eq_false_iff.mp h, hlimit]
    dsimp only
    rw [if_pos hleft]
  rw [tryQuery, hquery]

@[simp] theorem careful_nil (s : Session σ) : s.careful o [] = s := by
  have haffordable : s.affordable [] = [] := by
    unfold affordable
    split
    · rfl
    · exact List.take_nil
  have hpending : s.pending [] = [] := rfl
  rw [careful, haffordable, hpending, afterAsking_nil, noteShort]
  split <;> rfl

/-- An answer that is remembered stays the same. -/
theorem answer?_careful_of_isCached {b : Bool} (h : s.answer? t = some b) :
    (s.careful o ts).answer? t = some b := by
  rw [answer?_careful, answer?_afterAsking_of_not_mem, h]
  intro hmem
  have hcached := (mem_pending.mp ((affordable_sublist s ts).subset hmem)).2
  rw [isCached, h] at hcached
  cases hcached

/-- Either some of the budget is left, or none. -/
theorem allowed_or_spent (s : Session σ) : (∀ r ∈ s.remaining, 0 < r) ∨
    ∃ limit, s.budget = some limit ∧ s.remaining = some 0 := by
  unfold remaining
  cases s.budget with
  | none => exact .inl (by simp)
  | some limit =>
    rcases Nat.eq_zero_or_pos (limit - s.queries).toNat with h | h
    · exact .inr ⟨limit, rfl, congrArg some h⟩
    · exact .inl (by simpa using h)

/-- A first text with an answer, and then the rest of the list. -/
theorem oneByOne_cons_careful {ε : Type} {ask : Session σ → Text → Except ε Bool × Session σ}
    {rest : List Text} {b : Bool} {s₁ : Session σ} (hask : ask s t = (.ok b, s₁))
    (hcareful : s.careful o (t :: rest) = s₁.careful o rest)
    (hrest : s₁.oneByOne ask rest = (.ok ((s₁.careful o rest).answersTo rest), s₁.careful o rest))
    (hanswer : ((s₁.careful o rest).answer? t).getD false = b) :
    s.oneByOne ask (t :: rest) =
      (.ok ((s.careful o (t :: rest)).answersTo (t :: rest)), s.careful o (t :: rest)) := by
  have hanswers : (s₁.careful o rest).answersTo (t :: rest) =
      b :: (s₁.careful o rest).answersTo rest := by
    rw [answersTo, List.map_cons, hanswer, answersTo]
  rw [oneByOne_cons hask hrest, hcareful, hanswers]

/-- **Careful queries one by one** leave the session `careful`, and its answers are given. -/
theorem oneByOne_tryQuery (ho : o.NeverFails) (s : Session σ) (ts : List Text) :
    s.oneByOne (·.tryQuery o) ts = (.ok ((s.careful o ts).answersTo ts), s.careful o ts) := by
  induction ts generalizing s with
  | nil => rw [careful_nil]; rfl
  | cons t rest ih =>
    cases hanswer : s.answer? t with
    | some b =>
      have hcached : s.isCached t = true := by rw [isCached, hanswer]; rfl
      have hrecall : (s.recalling 1).answer? t = some b := hanswer
      refine oneByOne_cons_careful (tryQuery_of_query (query_of_isCached hanswer))
        (careful_cons_of_isCached hcached) (ih _) ?_
      rw [answer?_careful_of_isCached hrecall, Option.getD_some]
    | none =>
      have hcached := isCached_eq_false_iff.mpr hanswer
      rcases allowed_or_spent s with hallowed | ⟨limit, hlimit, hspent⟩
      · obtain ⟨b, hquery, hb⟩ := query_of_allowed ho hcached hallowed
        refine oneByOne_cons_careful (tryQuery_of_query hquery)
          (careful_cons_of_allowed ho hcached hallowed) (ih _) ?_
        rw [answer?_careful_of_isCached hb, Option.getD_some]
      · have hrefused := careful_cons_of_refused (o := o) rest hcached hlimit hspent
        refine oneByOne_cons_careful (tryQuery_of_refused hcached hlimit hspent) hrefused (ih _) ?_
        have hrecall : (s.recalling (s.answered [] (t :: rest))).answer? t = none := hanswer
        rw [← hrefused, careful_of_spent hspent, answer?_noteShort, hrecall, Option.getD_none]

/-- The budget suffices for all texts that are pending. -/
def Fits (s : Session σ) (ts : List Text) : Prop :=
  ∀ r ∈ s.remaining, (s.pending ts).length ≤ r

/-- **Queries one by one** leave the same session and give the same answers, where the budget
suffices. -/
theorem oneByOne_query (ho : o.NeverFails) {s : Session σ} {ts : List Text} (h : s.Fits ts) :
    s.oneByOne (·.query o) ts = (.ok ((s.careful o ts).answersTo ts), s.careful o ts) := by
  induction ts generalizing s with
  | nil => rw [careful_nil]; rfl
  | cons t rest ih =>
    cases hanswer : s.answer? t with
    | some b =>
      have hcached : s.isCached t = true := by rw [isCached, hanswer]; rfl
      have hrecall : (s.recalling 1).answer? t = some b := hanswer
      have hfits : (s.recalling 1).Fits rest := by
        intro r hr
        have hle := h r hr
        rwa [pending_cons_of_isCached hcached] at hle
      refine oneByOne_cons_careful (query_of_isCached hanswer)
        (careful_cons_of_isCached hcached) (ih hfits) ?_
      rw [answer?_careful_of_isCached hrecall, Option.getD_some]
    | none =>
      have hcached := isCached_eq_false_iff.mpr hanswer
      have hpending := pending_cons_of_not_isCached ho rest hcached
      have hallowed : ∀ r ∈ s.remaining, 0 < r := by
        intro r hr
        have hle := h r hr
        rw [hpending, List.length_cons] at hle
        omega
      -- The first text has used up one query, and one text less is pending.
      have hfits : (s.afterAsking o [t]).Fits rest := by
        intro r hr
        rw [remaining_afterAsking, List.length_singleton] at hr
        obtain ⟨r', hr', rfl⟩ := Option.map_eq_some_iff.mp hr
        have hle := h r' hr'
        rw [hpending, List.length_cons] at hle
        exact Nat.le_sub_one_of_lt hle
      obtain ⟨b, hquery, hb⟩ := query_of_allowed ho hcached hallowed
      refine oneByOne_cons_careful hquery (careful_cons_of_allowed ho hcached hallowed)
        (ih hfits) ?_
      rw [answer?_careful_of_isCached hb, Option.getD_some]

/-! ### All queries at once -/

theorem affordable_of_fits (h : s.Fits ts) : s.affordable ts = s.pending ts := by
  unfold affordable
  cases hr : s.remaining with
  | none => rfl
  | some r => exact List.take_of_length_le (h r hr)

/-- **Queries at once** leave the same session and give the same answers, where the budget
suffices. -/
theorem queryMany_of_fits (ho : o.NeverFails) (h : s.Fits ts) :
    s.queryMany o ts = (.ok ((s.careful o ts).answersTo ts), s.careful o ts) := by
  have haffordable := affordable_of_fits h
  obtain ⟨hverdicts, hput, -⟩ := ho.askAll (s.pending ts) s.world
  have hanswered : s.answered (s.pending ts) ts = ts.length := by
    rw [answered, List.countP_eq_length]
    intro t ht
    cases hcached : s.isCached t with
    | true => rfl
    | false => simpa using mem_pending.mpr ⟨ht, hcached⟩
  have hcareful : s.careful o ts =
      (s.afterAsking o (s.pending ts)).recalling (ts.length - (s.pending ts).length) := by
    rw [careful, haffordable, hanswered, noteShort]
    split
    · rfl
    · simp
  unfold queryMany
  dsimp only
  rw [charge_of_fits h]
  dsimp only
  rw [hverdicts, hcareful, hput]
  dsimp only
  rw [rememberAll_eq]
  rfl

/-- What can be answered once the affordable texts have been put. -/
def answerable (s : Session σ) (ts : List Text) : List Text :=
  ts.filter fun t => s.isCached t || decide (t ∈ s.affordable ts)

theorem pending_answerable (s : Session σ) (ts : List Text) :
    s.pending (s.answerable ts) = s.affordable ts := by
  have hfilter : s.pending (s.answerable ts) =
      (s.pending ts).filter fun t => t ∈ s.affordable ts := by
    unfold answerable pending
    rw [Text.distinct_filter, List.filter_filter, List.filter_filter]
    refine List.filter_congr fun t _ => ?_
    cases s.isCached t <;> simp
  rw [hfilter]
  unfold affordable
  cases s.remaining with
  | none => exact List.filter_eq_self.mpr fun t ht => by simpa using ht
  | some r => exact Text.filter_mem_take (nodup_pending s ts) r

theorem fits_answerable (s : Session σ) (ts : List Text) : s.Fits (s.answerable ts) := by
  intro r hr
  rw [pending_answerable, affordable, hr]
  exact List.length_take_le _ _

/-- Looking up among answers of a function finds those of the texts asked about. -/
theorem lookup_zip_map (g : Text → Bool) (t : Text) (ts : List Text) :
    (ts.zip (ts.map g)).lookup t = if t ∈ ts then some (g t) else none := by
  induction ts with
  | nil => rfl
  | cons u rest ih =>
    rw [List.map_cons, List.zip_cons_cons, List.lookup_cons, ih]
    by_cases htu : t = u
    · simp [htu]
    · simp [htu, beq_eq_false_iff_ne.mpr htu]

/-- Short of budget, the affordable texts are put, and the end of the budget is noted. -/
theorem careful_of_short {limit : Int} (hlimit : s.budget = some limit)
    (hshort : (s.affordable ts).length < (s.pending ts).length) :
    s.careful o ts = (s.careful o (s.answerable ts)).noteExhausted limit := by
  have haffordable : s.affordable (s.answerable ts) = s.affordable ts := by
    rw [affordable_of_fits (fits_answerable s ts), pending_answerable]
  have hanswered : s.answered (s.affordable ts) (s.answerable ts) =
      s.answered (s.affordable ts) ts := by
    rw [answered, answered, answerable, List.countP_filter]
    simp
  have hbudget : ∀ count, ((s.afterAsking o (s.affordable ts)).recalling count).budget =
      some limit := fun _ => hlimit
  unfold careful
  dsimp only
  rw [haffordable, hanswered, pending_answerable, noteShort, noteShort, hbudget,
    decide_eq_true hshort, decide_eq_false (Nat.lt_irrefl _)]
  rfl

/-- **Careful queries at once** leave the session `careful`, and its answers are given. -/
theorem tryQueryMany_eq (ho : o.NeverFails) (s : Session σ) (ts : List Text) :
    s.tryQueryMany o ts = (.ok ((s.careful o ts).answersTo ts), s.careful o ts) := by
  unfold tryQueryMany
  cases hlimit : s.budget with
  | none =>
    have hfits : s.Fits ts := by
      intro r hr
      rw [remaining, hlimit] at hr
      cases hr
    dsimp only
    rw [queryMany_of_fits ho hfits]
    rfl
  | some limit =>
    have hremaining : s.remaining = some (limit - s.queries).toNat := by rw [remaining, hlimit]; rfl
    have haffordable : (s.pending ts).take (limit - s.queries).toNat = s.affordable ts := by
      rw [affordable, hremaining]
    dsimp only
    split
    · next hless =>
      -- Not all pending texts can be put: what can be answered is asked, and the rest rejected.
      have hshort : (s.affordable ts).length < (s.pending ts).length := by
        rw [← haffordable, List.length_take]
        omega
      have hanswerable : (ts.filter fun t => s.isCached t || decide (t ∈ s.affordable ts)) =
          s.answerable ts := rfl
      rw [haffordable, hanswerable, queryMany_of_fits ho (fits_answerable s ts), answersOrRejected]
      dsimp only
      rw [← careful_of_short hlimit hshort]
      congr 2
      refine List.map_congr_left fun t ht => ?_
      rw [answersTo, lookup_zip_map, answer?_careful, answer?_careful,
        affordable_of_fits (fits_answerable s ts), pending_answerable]
      split
      · rfl
      · next hmem =>
        -- The text has neither an answer in memory nor been put.
        have hnone : (s.isCached t || decide (t ∈ s.affordable ts)) = false := by
          simpa [answerable, ht] using hmem
        rw [Bool.or_eq_false_iff, decide_eq_false_iff_not] at hnone
        rw [answer?_afterAsking_of_not_mem hnone.2, isCached_eq_false_iff.mp hnone.1]
    · next hless =>
      have hfits : s.Fits ts := by
        intro r hr
        obtain rfl : (limit - s.queries).toNat = r := Option.some.inj (hremaining.symm.trans hr)
        exact Nat.le_of_not_lt hless
      rw [queryMany_of_fits ho hfits]
      rfl

/-- **Batches agree with single queries.** For an oracle that always answers and in every session,
careful queries at once give the answers of careful queries one after another and leave the same
session, and so do plain queries wherever the budget suffices for the distinct texts that have no
remembered answer. -/
theorem tryQueryMany_eq_oneByOne (ho : o.NeverFails) (s : Session σ) (ts : List Text) :
    s.tryQueryMany o ts = s.oneByOne (·.tryQuery o) ts ∧
      (s.Fits ts → s.queryMany o ts = s.oneByOne (·.query o) ts) := by
  refine ⟨?_, fun hfits => ?_⟩
  · rw [tryQueryMany_eq ho, oneByOne_tryQuery ho]
  · rw [queryMany_of_fits ho hfits, oneByOne_query ho hfits]

/-- A session with two queries left, in which one text has been remembered as rejected. -/
def spelling : Session Unit := (start (some 2) ()).remember "no".toList false

/-- Of a list with a remembered text and three new ones, the first two new ones are put, and the
third one counts as rejected wherever it occurs. Without it the budget suffices. -/
theorem tryQueryMany_spelling :
    let o := Oracle.ofPredicate fun t => t.length ≤ 2
    let short := ["no".toList, "a".toList, "abc".toList, "a".toList]
    let long := short ++ ["b".toList, "abc".toList, "b".toList]
    spelling.tryQueryMany o long = spelling.oneByOne (·.tryQuery o) long ∧
      (spelling.tryQueryMany o long).1 = .ok [false, true, false, true, false, false, false] ∧
      (spelling.tryQueryMany o long).2.put = ["a".toList, "abc".toList] ∧
      spelling.Fits short ∧ spelling.queryMany o short = spelling.oneByOne (·.query o) short := by
  intro o short long
  have ho : o.NeverFails := fun _ _ => ⟨_, rfl⟩
  have hfits : spelling.Fits short := by
    intro r hr
    cases hr
    decide
  exact ⟨(tryQueryMany_eq_oneByOne ho spelling long).1, by decide, by decide, hfits,
    (tryQueryMany_eq_oneByOne ho spelling short).2 hfits⟩

end Session

end GrammarInference
