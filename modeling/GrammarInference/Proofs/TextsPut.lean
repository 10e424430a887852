import GrammarInference.Proofs.Bookkeeping
import GrammarInference.Proofs.Orderly

/-!
# The texts that learning puts

Learning checks the seeds first, outside the budget, and asks everything else within it. The texts
that are put to the oracle are therefore the distinct seeds in their order, up to the first one that
is not accepted, and after accepted seeds further texts, no more than the budget allows. No text is
put twice, however the run ends (`Session.put_of_synthesize`).

The check of the seeds is a loop with the invariant `Session.Checked`: the seeds taken so far are
all that the session knows. What follows the check is orderly, and running an orderly computation is
one exchange with the oracle (`Session.exists_exchange_of_orderly`).
-/

namespace GrammarInference

namespace Text

/-- Appending an entry that occurs already changes nothing; a new entry comes last. -/
theorem distinct_concat {α : Type} [DecidableEq α] (xs : List α) (x : α) :
    distinct (xs ++ [x]) = if x ∈ xs then distinct xs else distinct xs ++ [x] := by
  induction xs with
  | nil => rfl
  | cons y rest ih =>
    rw [List.cons_append, distinct_cons, ih, distinct_cons]
    by_cases hrest : x ∈ rest
    · rw [if_pos hrest, if_pos (List.mem_cons_of_mem y hrest)]
    · rw [if_neg hrest, List.filter_append]
      by_cases hxy : x = y
      · simp [hxy]
      · simp [hxy, hrest]

end Text

namespace Session

variable {σ : Type} {o : Oracle σ} {v : Text → Except OracleFault Bool} {s s' : Session σ}
  {m : Memory}

/-! ### Steps of a run -/

/-- A first step that fails is the whole run. -/
theorem learn_bind_of_fails {α β : Type} {l : Learner α} {g : α → Learner β} {e : Failure}
    {m₁ : Memory} {s₁ : Session σ} (h : s.learn o l m = ((.error e, m₁), s₁)) :
    s.learn o (l >>= g) m = ((.error e, m₁), s₁) := by
  unfold learn at h ⊢
  rw [Learner.tree_bind, Query.run_bind, h]
  rfl

theorem learns_vouch {t : Text} {b : Bool} (h : (s.vouch o t).1 = .ok b) :
    Learns o s (Learner.vouch t) m b m (s.vouch o t).2 := by
  simp only [Learns, learn, Learner.tree, Learner.vouch, Query.run, h]

theorem learn_vouch_of_error {t : Text} {f : OracleFault} (h : (s.vouch o t).1 = .error f) :
    s.learn o (Learner.vouch t) m = ((.error (.oracle f), m), (s.vouch o t).2) := by
  simp only [learn, Learner.tree, Learner.vouch, Query.run, h]

/-- A note is no exchange with the oracle. -/
theorem Exchange.of_addNote {n : Note} {new : List Text} (h : Exchange v (s.addNote n) s' new) :
    Exchange v s s' new :=
  ⟨h.budget, h.put, h.nodup, h.fresh, h.charged, h.within, h.gained, h.kept⟩

/-- **Run**: an orderly computation puts new texts only, none of them twice, and is charged for
them within the budget. -/
theorem exists_exchange_of_orderly (ho : o.Decides v) {α : Type}
    {q : Query (Except Failure α × Memory)} (hq : q.Orderly) (s : Session σ) :
    ∃ new, Exchange v s (q.run o s).2 new := by
  induction hq generalizing s with
  | done r => exact ⟨[], .refl v s⟩
  | @ask t next _ failed ih =>
    obtain ⟨new, h⟩ := handled_tryQuery ho s t
    rw [Query.run]
    rcases hr : s.tryQuery o t with ⟨f | b, s₁⟩
    · -- Without an answer the computation is over, so that the exchange ends here.
      obtain ⟨m₁, hend⟩ := failed f
      rw [hr] at h
      dsimp only
      rw [hend]
      exact ⟨new, h.toExchange⟩
    · rw [hr] at h
      have hsettled := h.settled fun f hf => by cases hf
      obtain ⟨new', h'⟩ := ih b s₁
      exact ⟨new ++ new', h.toExchange.trans hsettled h'⟩
  | @askMany ts next _ failed ih =>
    obtain ⟨new, h⟩ := handled_tryQueryMany ho s ts
    rw [Query.run]
    rcases hr : s.tryQueryMany o ts with ⟨f | bs, s₁⟩
    · obtain ⟨m₁, hend⟩ := failed f
      rw [hr] at h
      dsimp only
      rw [hend]
      exact ⟨new, h.toExchange⟩
    · rw [hr] at h
      have hsettled := h.settled fun f hf => by cases hf
      obtain ⟨new', h'⟩ := ih bs s₁
      exact ⟨new ++ new', h.toExchange.trans hsettled h'⟩
  | @note n next _ ih =>
    obtain ⟨new, h⟩ := ih (s.addNote n)
    exact ⟨new, h.of_addNote⟩

/-! ### Checking the seeds -/

/-- The seeds that are asked about when they are checked in their order: all up to the first one
that is not accepted. -/
def seedsAsked (v : Text → Except OracleFault Bool) : List Text → List Text
  | [] => []
  | t :: rest =>
    match v t with
    | .ok true => t :: seedsAsked v rest
    | _ => [t]

theorem seedsAsked_cons_of_accepted {t : Text} (h : v t = .ok true) (rest : List Text) :
    seedsAsked v (t :: rest) = t :: seedsAsked v rest := by
  rw [seedsAsked, h]

theorem seedsAsked_cons_of_not_accepted {t : Text} (h : v t ≠ .ok true) (rest : List Text) :
    seedsAsked v (t :: rest) = [t] := by
  rw [seedsAsked]
  split
  · next hv => exact absurd hv h
  · rfl

/-- All seeds are asked about if all are accepted. -/
theorem seedsAsked_of_accepted {seeds : List Text} (h : ∀ t ∈ seeds, v t = .ok true) :
    seedsAsked v seeds = seeds := by
  induction seeds with
  | nil => rfl
  | cons t rest ih =>
    obtain ⟨ht, hrest⟩ := List.forall_mem_cons.mp h
    rw [seedsAsked_cons_of_accepted ht, ih hrest]

/-- The accepted seeds `taken` are all that a session has put and remembers, and nothing has been
charged. -/
structure Checked (v : Text → Except OracleFault Bool) (budget : Option Int) (taken : List Text)
    (s : Session σ) : Prop where
  /-- The distinct seeds have been put, in their order. -/
  put : s.put = Text.distinct taken
  /-- The seeds are what is remembered. -/
  cached : ∀ t, s.isCached t = true ↔ t ∈ taken
  /-- The seeds were accepted. -/
  accepted : ∀ t b, s.answer? t = some b → b = true
  /-- Nothing is charged for seeds. -/
  queries : s.queries = 0
  /-- The budget stays. -/
  budget_eq : s.budget = budget

variable {budget : Option Int} {taken : List Text}

/-- **Step**: checking a seed that has been taken or is accepted. -/
theorem Checked.vouch (ho : o.Decides v) (hs : Checked v budget taken s) {t : Text}
    (ht : v t = .ok true) :
    (s.vouch o t).1 = .ok true ∧ Checked v budget (taken ++ [t]) (s.vouch o t).2 := by
  unfold Session.vouch
  cases hanswer : s.answer? t with
  | some b =>
    -- The seed has been taken before: it has an answer, and is not put again.
    have hmem : t ∈ taken := (hs.cached t).mp (isCached_of_answer? hanswer)
    refine ⟨congrArg _ (hs.accepted t b hanswer), ⟨?_, fun u => ?_, hs.accepted, hs.queries,
      hs.budget_eq⟩⟩
    · rw [Text.distinct_concat, if_pos hmem]
      exact hs.put
    · rw [List.mem_append, List.mem_singleton]
      constructor
      · exact fun hu => .inl ((hs.cached u).mp hu)
      · rintro (hu | rfl)
        · exact (hs.cached u).mpr hu
        · exact (hs.cached u).mpr hmem
  | none =>
    -- The seed is new: it is put, and joins the ones that have been taken.
    have hnew : t ∉ taken := fun hmem => by
      obtain ⟨b, hb⟩ := isCached_iff.mp ((hs.cached t).mpr hmem)
      rw [hanswer] at hb
      cases hb
    have hv : (s.consult o t).1 = .ok true := (ho t s.world).trans ht
    rcases hc : s.consult o t with ⟨r, s₁⟩
    rw [hc] at hv
    obtain rfl : s₁ = (s.consult o t).2 := by rw [hc]
    dsimp only at hv
    subst hv
    refine ⟨rfl, ⟨?_, fun u => ?_, fun u b hb => ?_, hs.queries, hs.budget_eq⟩⟩
    · rw [Text.distinct_concat, if_neg hnew, ← hs.put]
      rfl
    · have hu : ((s.consult o t).2.remember t true).isCached u = true ↔
          u = t ∨ s.isCached u = true := by
        rw [isCached, answer?_remember]
        by_cases hut : u = t
        · simp [hut]
        · rw [if_neg hut]
          exact (or_iff_right hut).symm
      rw [hu, hs.cached, List.mem_append, List.mem_singleton, or_comm]
    · rw [answer?_remember] at hb
      split at hb
      · exact (Option.some.inj hb).symm
      · exact hs.accepted u b hb

/-- A seed that is not accepted is new; it is put, and the answer is that of the oracle. -/
theorem Checked.vouch_of_not_accepted (ho : o.Decides v) (hs : Checked v budget taken s)
    (htaken : ∀ u ∈ taken, v u = .ok true) {t : Text} (ht : v t ≠ .ok true) :
    (s.vouch o t).1 = v t ∧ (s.vouch o t).2.put = Text.distinct (taken ++ [t]) := by
  have hnew : t ∉ taken := fun hmem => ht (htaken t hmem)
  have hanswer : s.answer? t = none := by
    refine isCached_eq_false_iff.mp (Bool.eq_false_iff.mpr fun hcached => ?_)
    exact hnew ((hs.cached t).mp hcached)
  have hput : (s.consult o t).2.put = Text.distinct (taken ++ [t]) := by
    rw [Text.distinct_concat, if_neg hnew, ← hs.put]
    rfl
  have hv : (s.consult o t).1 = v t := ho t s.world
  unfold Session.vouch
  rw [hanswer]
  rcases hc : s.consult o t with ⟨f | b, s₁⟩
  · rw [hc] at hv hput
    exact ⟨hv, hput⟩
  · rw [hc] at hv hput
    exact ⟨hv, hput⟩

/-- How the check of seeds ends: all are accepted and are all that the session knows then, or one is
not, and those up to it have been put. -/
inductive SeedCheck (v : Text → Except OracleFault Bool) (budget : Option Int)
    (taken seeds : List Text) (m : Memory) : (Except Failure Unit × Memory) × Session σ → Prop
  /-- All seeds are accepted. -/
  | accepted {s : Session σ} (hall : ∀ t ∈ seeds, v t = .ok true)
    (hs : Checked v budget (taken ++ seeds) s) : SeedCheck v budget taken seeds m ((.ok (), m), s)
  /-- A seed is not accepted. -/
  | refused {s : Session σ} {e : Failure} {m' : Memory} {t : Text} (hmem : t ∈ seeds)
    (ht : v t ≠ .ok true) (hput : s.put = Text.distinct (taken ++ seedsAsked v seeds)) :
    SeedCheck v budget taken seeds m ((.error e, m'), s)

/-- **Run**: checking seeds after accepted ones. -/
theorem seedCheck_of_checked (ho : o.Decides v) (limits : Limits) (m : Memory)
    (seeds : List Text) (htaken : ∀ t ∈ taken, v t = .ok true) (hs : Checked v budget taken s) :
    SeedCheck v budget taken seeds m (s.learn o (Learner.checkSeeds limits seeds) m) := by
  induction seeds generalizing taken s with
  | nil =>
    refine .accepted (by simp) ?_
    rwa [List.append_nil]
  | cons t rest ih =>
    rw [Learner.checkSeeds]
    by_cases ht : v t = .ok true
    · obtain ⟨hanswer, hnext⟩ := hs.vouch ho ht
      have htaken' : ∀ u ∈ taken ++ [t], v u = .ok true :=
        List.forall_mem_append.mpr ⟨htaken, List.forall_mem_singleton.mpr ht⟩
      let n := Note.seedAdded (showQuery (some limits.alphabet) t)
      have hnoted : Checked v budget (taken ++ [t]) ((s.vouch o t).2.addNote n) :=
        ⟨hnext.put, hnext.cached, hnext.accepted, hnext.queries, hnext.budget_eq⟩
      have key := ih htaken' hnoted
      rw [learn_bind (learns_vouch hanswer), if_pos rfl]
      have hnote : Learns o (s.vouch o t).2 (Learner.note n) m () m
          ((s.vouch o t).2.addNote n) := rfl
      rw [learn_bind hnote]
      generalize ((s.vouch o t).2.addNote n).learn o (Learner.checkSeeds limits rest) m = r at key ⊢
      cases key with
      | accepted hall hs' =>
        refine .accepted (List.forall_mem_cons.mpr ⟨ht, hall⟩) ?_
        rwa [← List.append_cons] at hs'
      | refused hmem hu hput =>
        refine .refused (List.mem_cons_of_mem t hmem) hu ?_
        rw [hput, seedsAsked_cons_of_accepted ht, ← List.append_cons]
    · obtain ⟨hanswer, hput⟩ := hs.vouch_of_not_accepted ho htaken ht
      rw [← seedsAsked_cons_of_not_accepted ht rest] at hput
      rcases hv : v t with f | b
      · rw [learn_bind_of_fails (learn_vouch_of_error (hanswer.trans hv))]
        exact .refused List.mem_cons_self ht hput
      · -- The answer is a rejection, and checking ends with that.
        have hb : b = false := Bool.eq_false_iff.mpr fun hb => ht (hv.trans (congrArg _ hb))
        rw [hv, hb] at hanswer
        rw [learn_bind (learns_vouch hanswer)]
        exact .refused List.mem_cons_self ht hput

theorem checked_start (v : Text → Except OracleFault Bool) (budget : Option Int) (world : σ) :
    Checked v budget [] (start budget world) where
  put := rfl
  cached t := by simp [isCached, answer?, start]
  accepted t b h := by cases h
  queries := rfl
  budget_eq := rfl

/-! ### Whole runs -/

/-- The note at the end puts no text. -/
theorem put_synthesize (s : Session σ) (o : Oracle σ) (limits : Limits) (seeds : List Text) :
    (s.synthesize o limits seeds).2.put =
      (s.learn o (Learner.synthesize limits seeds) Memory.empty).2.put := by
  unfold synthesize
  split
  · next h => rw [h]; rfl
  · next h => rw [h]

/-- **The texts put.** Learning from seeds with an oracle that accepts, rejects or fails by the text
puts no text twice. It begins with the distinct seeds in the order in which they come first, up to
the first one that is not accepted. If there is such a seed, nothing more is put; otherwise further
texts follow, no more of them than the budget. -/
theorem put_of_synthesize (ho : o.Decides v) (limits : Limits) (world : σ) (seeds : List Text) :
    ∃ further,
      ((start (limits.maxQueries.map Int.ofNat) world).synthesize o limits seeds).2.put =
        Text.distinct (seedsAsked v seeds) ++ further ∧
      (Text.distinct (seedsAsked v seeds) ++ further).Nodup ∧
      ((∃ t ∈ seeds, v t ≠ .ok true) → further = []) ∧
      ∀ n ∈ limits.maxQueries, further.length ≤ n := by
  rw [put_synthesize]
  have hnodup := Text.nodup_distinct (seedsAsked v seeds)
  have nothing_further : ∀ s : Session σ, s.put = Text.distinct (seedsAsked v seeds) →
      ∃ further, s.put = Text.distinct (seedsAsked v seeds) ++ further ∧
        (Text.distinct (seedsAsked v seeds) ++ further).Nodup ∧
        ((∃ t ∈ seeds, v t ≠ .ok true) → further = []) ∧
        ∀ n ∈ limits.maxQueries, further.length ≤ n := fun s hs =>
    ⟨[], by rw [hs, List.append_nil], by rwa [List.append_nil], fun _ => rfl, fun n _ => n.zero_le⟩
  cases seeds with
  | nil => exact nothing_further _ rfl
  | cons seed rest =>
    have hcheck := seedCheck_of_checked ho limits Memory.empty (seed :: rest) (by simp)
      (checked_start v (limits.maxQueries.map Int.ofNat) world)
    rw [Learner.synthesize]
    generalize hrun : (start (limits.maxQueries.map Int.ofNat) world).learn o
      (Learner.checkSeeds limits (seed :: rest)) Memory.empty = r at hcheck
    cases hcheck with
    | refused hmem ht hput =>
      rw [learn_bind_of_fails hrun]
      exact nothing_further _ hput
    | @accepted s₁ hall hs₁ =>
      rw [learn_bind hrun]
      -- After the seeds the learner only asks, so that the rest is one exchange with the oracle.
      obtain ⟨new, hx⟩ := exists_exchange_of_orderly ho
        (Learner.orderly_learnFrom limits seed rest Memory.empty) s₁
      have hput := hs₁.put
      rw [List.nil_append] at hput
      rw [seedsAsked_of_accepted hall] at hnodup ⊢
      refine ⟨new, ?_, ?_, fun ⟨t, hmem, ht⟩ => absurd (hall t hmem) ht, fun n hn => ?_⟩
      · rw [← hput]
        exact hx.put
      · -- A further text has no remembered answer, but all seeds have one.
        refine List.nodup_append'.mpr ⟨hnodup, hx.nodup, fun t ht hnew => ?_⟩
        have hcached := (hs₁.cached t).mpr (Text.mem_distinct.mp ht)
        rw [hx.fresh t hnew] at hcached
        cases hcached
      · have hlimit : (n : Int) ∈ s₁.budget := by
          rw [hs₁.budget_eq]
          exact Option.mem_map_of_mem Int.ofNat hn
        have hwithin := hx.within n hlimit
        have hcharged := hx.charged
        rw [hs₁.queries] at hwithin hcharged
        omega

/-- Accepts single letters, but has no answer for one of them. -/
def undecidedOnD (t : Text) : Except OracleFault Bool :=
  if t = ['d'] then .error (.failed "no answer".toList) else .ok (t.length ≤ 1)

/-- With a budget of three queries, three further texts follow two distinct seeds; with a larger one
the run is aborted by the first text that has no answer. After a seed that is rejected or has no
answer nothing is put. -/
theorem put_of_synthesize_letters :
    let o := Oracle.fixed fun t => ⟨undecidedOnD t, []⟩
    let limits (n : Nat) : Limits := { Limits.strict with maxQueries := some n }
    let put (n : Nat) (seeds : List Text) :=
      ((start ((limits n).maxQueries.map Int.ofNat) ()).synthesize o (limits n) seeds).2.put
    let seeds := [['a'], ['b'], ['a']]
    (∃ further : List Text, put 3 seeds = [['a'], ['b']] ++ further ∧ further.length ≤ 3) ∧
      put 3 seeds = [['a'], ['b'], ['m'], ['z'], ['c']] ∧
      put 9 seeds = [['a'], ['b'], ['m'], ['z'], ['c'], ['d']] ∧
      put 9 (seeds ++ [['d'], ['e']]) = [['a'], ['b'], ['d']] ∧
      put 9 (seeds ++ [['e', 'e'], ['e']]) = [['a'], ['b'], ['e', 'e']] := by
  intro o limits put seeds
  have ho : o.Decides undecidedOnD := fun _ _ => rfl
  refine ⟨?_, by decide +kernel, by decide +kernel, ?_, ?_⟩
  · have hasked : Text.distinct (seedsAsked undecidedOnD seeds) = [['a'], ['b']] := by decide
    obtain ⟨further, hput, -, -, hlength⟩ := put_of_synthesize ho (limits 3) () seeds
    rw [hasked] at hput
    exact ⟨further, hput, hlength 3 rfl⟩
  · obtain ⟨further, hput, -, hnone, -⟩ :=
      put_of_synthesize ho (limits 9) () (seeds ++ [['d'], ['e']])
    rw [hnone ⟨['d'], by decide, by decide⟩, List.append_nil] at hput
    exact hput.trans (by decide)
  · obtain ⟨further, hput, -, hnone, -⟩ :=
      put_of_synthesize ho (limits 9) () (seeds ++ [['e', 'e'], ['e']])
    rw [hnone ⟨['e', 'e'], by decide, by decide⟩, List.append_nil] at hput
    exact hput.trans (by decide)

end Session

end GrammarInference
