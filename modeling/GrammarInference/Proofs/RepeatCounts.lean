import GrammarInference.Proofs.Sampling

/-!
# How many copies samples have

A repetition in a default derivation has its least number of copies. One that is expanded at random
gets a count that is drawn, and then moved into the range that both the parameters and the
repetition allow (`Parameters.Allows`); a sampler is made only if that range has a count for every
repetition of the grammar. Expansions have the counts that may be chosen for them
(`Derivation.Expansion.copiesBy`), so every repetition that sampling comes to has either its least
count or an allowed one (`Sampler.copies_of_make`).

A count takes one draw for the weight, and further ones only as long as the last weight lets the
count grow. What is drawn is counted by the source (`Source.counted`); a computation that makes at
most so many draws on all its ways (`Draw.AtMost`) makes at most so many on each run.
-/

namespace GrammarInference

/-! ### Counting draws -/

/-- A source that also counts how often something is drawn from it. -/
def Source.counted {σ : Type} (source : Source σ) : Source (σ × Nat) where
  choose others state :=
    let (i, rest) := source.choose others state.1
    (i, rest, state.2 + 1)
  unit state :=
    let (x, rest) := source.unit state.1
    (x, rest, state.2 + 1)

/-- A computation that makes at most so many draws, whatever is drawn. -/
inductive Draw.AtMost {α : Type} : Nat → Draw α → Prop
  /-- A result takes no draws. -/
  | done {n : Nat} (a : α) : AtMost n (.done a)
  /-- One draw, and those that follow. -/
  | choose {n others : Nat} {next : Fin (others + 1) → Draw α} (h : ∀ i, AtMost n (next i)) :
    AtMost (n + 1) (.choose others next)
  /-- One draw, and those that follow. -/
  | unit {n : Nat} {next : Float → Draw α} (h : ∀ x, AtMost n (next x)) :
    AtMost (n + 1) (.unit next)
  /-- A note takes no draws. -/
  | note {n : Nat} {m : Note} {next : Draw α} (h : AtMost n next) : AtMost n (.note m next)

namespace Draw

variable {α β σ : Type} {d : Draw α} {m n : Nat}

theorem AtMost.mono (h : AtMost m d) (hle : m ≤ n) : AtMost n d := by
  induction h generalizing n with
  | done a => exact .done a
  | choose _ ih =>
    cases n with
    | zero => cases hle
    | succ n => exact .choose fun i => ih i (Nat.le_of_succ_le_succ hle)
  | unit _ ih =>
    cases n with
    | zero => cases hle
    | succ n => exact .unit fun x => ih x (Nat.le_of_succ_le_succ hle)
  | note _ ih => exact .note (ih hle)

/-- One computation after another makes the draws of both. -/
theorem AtMost.bind {f : α → Draw β} (hd : AtMost m d) (hf : ∀ a, AtMost n (f a)) :
    AtMost (n + m) (d.bind f) := by
  induction hd with
  | done a => exact (hf a).mono (Nat.le_add_right _ _)
  | choose _ ih => exact .choose ih
  | unit _ ih => exact .unit ih
  | note _ ih => exact .note ih

/-- Counting changes nothing about a run. -/
theorem run_counted (source : Source σ) (d : Draw α) (state : σ) (count : Nat) :
    (d.run source.counted (state, count)).1 = (d.run source state).1 := by
  induction d generalizing state count with
  | done a => rfl
  | choose others next ih => exact ih _ _ _
  | unit next ih => exact ih _ _ _
  | note m next ih => exact ih state count

/-- **Every run.** The source counts at most as many draws as the computation can make. -/
theorem AtMost.run_counted_le (h : AtMost n d) (source : Source σ) (state : σ) (count : Nat) :
    (d.run source.counted (state, count)).2.1.2 ≤ count + n := by
  induction h generalizing state count with
  | done a => exact Nat.le_add_right _ _
  | choose _ ih => exact (ih _ _ (count + 1)).trans (by omega)
  | unit _ ih => exact (ih _ _ (count + 1)).trans (by omega)
  | note _ ih => exact ih state count

end Draw

/-- To return takes no draws. -/
theorem Drawing.atMost_pure {α : Type} (a : α) : Draw.AtMost 0 (pure a : Drawing α) := .done _

theorem Drawing.atMost_bind {α β : Type} {d : Drawing α} {f : α → Drawing β} {m n : Nat}
    (hd : Draw.AtMost m d) (hf : ∀ a, Draw.AtMost n (f a)) :
    Draw.AtMost (n + m) (d >>= f : Drawing β) := by
  refine Draw.AtMost.bind hd fun result => ?_
  cases result with
  | error fault => exact .done _
  | ok a => exact hf a

/-! ### Drawing a count -/

namespace Parameters

variable {p : Parameters} {x : Bounds} {n : Nat}

/-- A count is allowed at all exactly if the bounds are in order. -/
theorem exists_allows_iff : (∃ n, p.Allows x n) ↔ (p.countBounds x).1 ≤ (p.countBounds x).2 := by
  simp only [allows_iff]
  exact ⟨fun ⟨_, hlow, hhigh⟩ => hlow.trans hhigh, fun h => ⟨_, le_rfl, h⟩⟩

/-- A count that may grow `left` times takes a draw each time. -/
theorem atMost_growCount (weight : Float) (left count : Nat) :
    Draw.AtMost left (growCount weight left count) := by
  induction left generalizing count with
  | zero => exact Drawing.atMost_pure count
  | succ left ih =>
    refine Drawing.atMost_bind (.unit fun x => .done _) fun x => ?_
    split
    · exact ih (count + 1)
    · exact .done _

/-- **Draws.** A count takes one draw, and at most one more for each step from the smallest count to
the greatest. -/
theorem atMost_repeatCount (p : Parameters) (x : Bounds) :
    Draw.AtMost (p.maxRepeat - p.minRepeat + 1) (p.repeatCount x) := by
  refine Drawing.atMost_bind (.unit fun draw => .done _) fun draw => ?_
  dsimp only
  split
  · have hgrow := atMost_growCount (p.distribution.getLast p.nonempty)
    refine (Drawing.atMost_bind (hgrow _ _) fun count => Drawing.atMost_pure _).mono ?_
    omega
  · exact .done _

end Parameters

/-! ### Counts in derivations -/

namespace Derivation

/-- Every repetition in a derivation has derivations of its body as parts, in a number that is
allowed for its range. -/
def CopiesBy (allowed : Bounds → Nat → Prop) (d : Derivation) : Prop :=
  ∀ (e : Derivation) (b : Node) (x : Bounds), e.IsPartOf d → e.node = .repetition b x →
    allowed x e.parts.length ∧ ∀ q ∈ e.parts, q.node = b

/-- **Expansions have the counts that may be chosen.** -/
theorem Expansion.copiesBy {c : Choices} {d : Derivation} (h : Expansion c d) :
    d.CopiesBy c.count := by
  intro e b x he hnode
  cases h.of_isPartOf he with
  | literal => cases hnode
  | @ofParts n depth below ps hn =>
    obtain rfl : n = .repetition b x := hnode
    -- What stands for the repetition are copies of its body, so that the parts are that many.
    generalize hnodes : ps.map node = ns at hn
    cases hn with
    | copies b hcount =>
      obtain ⟨hlength, hbodies⟩ := List.eq_replicate_iff.mp hnodes
      rw [List.length_map] at hlength
      exact ⟨hlength ▸ hcount, List.forall_mem_map.mp hbodies⟩

/-- The least count of a range. -/
def Least (x : Bounds) (n : Nat) : Prop := n = x.min

end Derivation

namespace Sampler

open GrammarInference.Derivation

variable {g : Grammar} {p : Parameters} {s : Sampler} {d : Derivation}

/-- **Counts of copies.** For every repetition of the grammar of a made sampler there is an allowed
count. A repetition has its least count in the derivations that sampling starts from, an allowed one
where a node of the grammar is expanded at random, and one of these in every derivation that any
number of mutations leads to, whatever is drawn. To draw a count takes at most one draw more than
the smallest count and the greatest are apart. -/
theorem copies_of_make {request : SamplerRequest} (hs : make g p request = .ok s) :
    (∀ b x, .repetition b x ∈ g.walk → ∃ n, p.Allows x n) ∧
      (∀ base ∈ s.bases, base.CopiesBy Least) ∧
      (∀ (n : Node) (depth : Nat), g.Contains n →
        ∀ {σ : Type} (source : Source σ) (state : σ) (d : Derivation),
          (Draw.run source (s.derive n depth).run state).1 = .ok d → d.CopiesBy p.Allows) ∧
      (∀ base ∈ s.bases, ∀ (times : Nat) {σ : Type} (source : Source σ) (state : σ)
        (d : Derivation), (Draw.run source (s.mutateTimes times base).run state).1 = .ok d →
          d.CopiesBy p.Samples) ∧
      (∀ {σ : Type} (source : Source σ) (state : σ) (d : Derivation),
        (Draw.run source s.sampleDerivation.run state).1 = .ok d → d.CopiesBy p.Samples) ∧
      ∀ (x : Bounds) {σ : Type} (source : Source σ) (state : σ),
        (Draw.run source.counted (p.repeatCount x).run (state, 0)).1 =
            (Draw.run source (p.repeatCount x).run state).1 ∧
          (Draw.run source.counted (p.repeatCount x).run (state, 0)).2.1.2 ≤
            p.maxRepeat - p.minRepeat + 1 := by
  obtain ⟨rfl, rfl, -, -, hp⟩ := of_make hs
  refine ⟨fun b x hwalk => Parameters.exists_allows_iff.mpr (hp b x hwalk), fun base hbase => ?_,
    fun n depth hn σ source state d hd => ?_, fun base hbase times σ source state d hd => ?_,
    fun source state d hd => ?_, fun x σ source state => ?_⟩
  · obtain ⟨n, -, hderive⟩ := derive_of_mem_bases hs hbase
    exact (Rules.expansionAt_of_derive hderive).expansion.copiesBy
  · exact (expansionAt_of_derive hp hn (Drawing.returns_of_run hd)).expansion.copiesBy
  · obtain ⟨n, -, hexpansion, -, -⟩ :=
      expansionAt_of_mutateTimes hs hbase times (Drawing.returns_of_run hd)
    exact hexpansion.copiesBy
  · obtain ⟨n, -, hexpansion, -, -⟩ :=
      expansionAt_of_sampleDerivation hs (Drawing.returns_of_run hd)
    exact hexpansion.copiesBy
  · have hcount := (s.parameters.atMost_repeatCount x).run_counted_le source state 0
    rw [Nat.zero_add] at hcount
    exact ⟨Draw.run_counted source _ state 0, hcount⟩

/-- Three copies are the greatest count here: the last weight is drawn, and the count grows once. -/
theorem copies_of_make_bits : ∃ s d,
    make bits ⟨[0.5, 0.5], 0.2, 1, 3, by simp, by decide⟩ ⟨none, 1, 100⟩ = .ok s ∧
      (Draw.run Draw.scripted s.sampleDerivation.run
        [(1, 0.0), (1, 0.0), (0, 0.75), (0, 0.25)]).1 = .ok d ∧
      d.text = ['0', '0', '0', '0'] ∧
      d.CopiesBy (Parameters.Samples ⟨[0.5, 0.5], 0.2, 1, 3, by simp, by decide⟩) := by
  obtain ⟨s, d, hs, hd, htext⟩ : ∃ s d,
      make bits ⟨[0.5, 0.5], 0.2, 1, 3, by simp, by decide⟩ ⟨none, 1, 100⟩ = .ok s ∧
        (Draw.run Draw.scripted s.sampleDerivation.run
          [(1, 0.0), (1, 0.0), (0, 0.75), (0, 0.25)]).1 = .ok d ∧
        d.text = ['0', '0', '0', '0'] := ⟨_, _, rfl, rfl, rfl⟩
  obtain ⟨-, -, -, -, hsample, -⟩ := copies_of_make hs
  exact ⟨s, d, hs, hd, htext, hsample _ _ d hd⟩

end Sampler

end GrammarInference
