import GrammarInference.Proofs.Failures
import Mathlib.Data.Finset.Card
import Mathlib.Logic.Relation

/-!
# The depth guard

A base branch does not refer back to its own rule, but nothing keeps base branches of different
rules from referring to each other: the check of a grammar looks at the first base branch of each
rule only, while sampling chooses among all of them. That derivations keep to the guard
(`Derivation.Guarded`) bounds nothing by itself (`Sampler.mutual_exceeds_depth`). Where no circle
leads through base branches, every chain of them visits a rule at most once, and no part of a
sampled derivation lies deeper than the greatest depth and the number of rules together
(`Sampler.depth_le_of_sample`).

The chains are measured by `Rules.rank`, the number of rules that can be reached from a rule through
base branches. The invariant along a derivation is `Rules.Within`: below a node there is room for
the ranks of all references in it.
-/

namespace GrammarInference

/-! ### Guarded derivations -/

/-- A part of a derivation: the node at a depth that may stand below a node at another depth. From
the depth `limit` on, a reference stands for a base branch. -/
inductive Rules.Unfolds (r : Rules) (limit : Nat) : Node → Nat → Node → Nat → Prop
  /-- A sequence stands for its children. -/
  | child {cs : List Node} {c : Node} {depth : Nat} (hc : c ∈ cs) :
    Unfolds r limit (.sequence cs) depth c depth
  /-- An alternation stands for an option. -/
  | option {os : List Node} {o : Node} {depth : Nat} (ho : o ∈ os) :
    Unfolds r limit (.alternation os) depth o depth
  /-- A repetition stands for copies of its body. -/
  | copy (b : Node) (x : Bounds) (depth : Nat) : Unfolds r limit (.repetition b x) depth b depth
  /-- A reference stands for a branch of its rule, one level deeper. -/
  | branch {name : Text} {rule b : Node} {depth : Nat} (hr : r.get? name = some rule)
    (hb : b ∈ rule.branches) (hbase : limit ≤ depth → b.refersTo name = false) :
    Unfolds r limit (.recursive name) depth b (depth + 1)

/-- Below a node stands what may be chosen for it, if the choices keep to the guard. -/
theorem Choices.Expands.unfolds {c : Choices} {r : Rules} {limit depth below : Nat} {n m : Node}
    {ns : List Node} (h : c.Expands n depth ns below)
    (hbranch : ∀ name depth b, c.branch name depth b → ∃ rule, r.get? name = some rule ∧
      b ∈ rule.branches ∧ (limit ≤ depth → b.refersTo name = false))
    (hm : m ∈ ns) : r.Unfolds limit n depth m below := by
  cases h with
  | sequence => exact .child hm
  | nothing => cases hm
  | option ho =>
    obtain rfl := List.mem_singleton.mp hm
    exact .option ho
  | copies b =>
    obtain rfl := (List.mem_replicate.mp hm).2
    exact .copy _ _ _
  | branch hb =>
    obtain rfl := List.mem_singleton.mp hm
    obtain ⟨rule, hrule, hmem, hbase⟩ := hbranch _ _ _ hb
    exact .branch hrule hmem hbase

namespace Derivation

/-- A derivation that keeps to the guard: below every node stands what may stand there. -/
inductive Guarded (r : Rules) (limit : Nat) : Derivation → Prop
  /-- Guarded parts that may stand below the node. -/
  | make {n : Node} {t : Text} {ps : List Derivation} {depth : Nat}
    (hunfolds : ∀ p ∈ ps, r.Unfolds limit n depth p.node p.depth)
    (hps : ∀ p ∈ ps, Guarded r limit p) : Guarded r limit (.make n t ps depth)

variable {r : Rules} {limit : Nat} {d e : Derivation}

/-- **Expansions are guarded** if the choices keep to the guard. -/
theorem Expansion.guarded {c : Choices} (h : Expansion c d)
    (hbranch : ∀ name depth b, c.branch name depth b → ∃ rule, r.get? name = some rule ∧
      b ∈ rule.branches ∧ (limit ≤ depth → b.refersTo name = false)) : Guarded r limit d := by
  induction h with
  | literal => exact .make (by simp) (by simp)
  | ofParts hn hdepth _ ih =>
    refine .make (fun p hp => ?_) ih
    rw [hdepth p hp]
    exact hn.unfolds hbranch (List.mem_map_of_mem hp)

/-- Below a reference at the limit or deeper, every part of a guarded derivation has a base
branch. -/
theorem Guarded.base_of_isPartOf (hd : Guarded r limit d) (he : e.IsPartOf d) {name : Text}
    (hname : e.node = .recursive name) (hdepth : limit ≤ e.depth) :
    ∀ p ∈ e.parts, ∃ rule, r.get? name = some rule ∧ p.node ∈ rule.branches ∧
      p.node.refersTo name = false := by
  induction he with
  | refl =>
    cases hd with
    | @make n t ps depth hunfolds hps =>
      intro p hp
      obtain rfl : n = .recursive name := hname
      have hunfold := hunfolds p hp
      generalize p.node = b, p.depth = depth' at hunfold
      cases hunfold with
      | branch hr hb hbase => exact ⟨_, hr, hb, hbase hdepth⟩
  | @part q d hq he ih =>
    cases hd with
    | make hunfolds hps => exact ih (hps q hq)

end Derivation

/-- **The guard holds.** Every derivation that sampling comes to is guarded. -/
theorem Sampler.guarded_of_choices {s : Sampler} {d : Derivation}
    (h : d.Expansion s.choices) : d.Guarded s.grammar.rules s.maxDepth :=
  h.guarded fun _ _ _ hb => hb

/-! ### Chains of base branches -/

namespace Rules

/-- A base branch of the rule `a` refers to `b`. -/
def BaseRefers (r : Rules) (a b : Text) : Prop :=
  ∃ rule, r.get? a = some rule ∧ ∃ branch ∈ rule.branches,
    branch.refersTo a = false ∧ b ∈ branch.targets

/-- No circle leads through base branches. -/
def BaseAcyclic (r : Rules) : Prop := ∀ a, ¬ Relation.TransGen r.BaseRefers a a

open Classical in
/-- How many rules can be reached from a rule through base branches. -/
noncomputable def rank (r : Rules) (a : Text) : Nat :=
  (r.names.toFinset.filter fun b => Relation.TransGen r.BaseRefers a b).card

variable {r : Rules} {a b : Text}

/-- **Each base branch leads down in rank.** -/
theorem BaseAcyclic.rank_lt (h : r.BaseAcyclic) (hab : r.BaseRefers a b) (hb : b ∈ r.names) :
    r.rank b < r.rank a := by
  classical
  refine Finset.card_lt_card (Finset.ssubset_iff_of_subset ?_ |>.mpr ⟨b, ?_, ?_⟩)
  · intro c hc
    obtain ⟨hc, hbc⟩ := Finset.mem_filter.mp hc
    exact Finset.mem_filter.mpr ⟨hc, .head hab hbc⟩
  · exact Finset.mem_filter.mpr ⟨List.mem_toFinset.mpr hb, .single hab⟩
  · intro hmem
    exact h b (Finset.mem_filter.mp hmem).2

/-- A rule does not reach itself, so that fewer rules than there are can be reached from it. -/
theorem BaseAcyclic.rank_lt_size (h : r.BaseAcyclic) (ha : a ∈ r.names) : r.rank a < r.size := by
  classical
  have hsize : r.names.toFinset.card ≤ r.size := by
    refine (List.toFinset_card_le _).trans ?_
    rw [names, size, List.length_map]
  refine Nat.lt_of_lt_of_le (Finset.card_lt_card ?_) hsize
  refine Finset.ssubset_iff_of_subset (Finset.filter_subset _ _) |>.mpr ⟨a, ?_, ?_⟩
  · exact List.mem_toFinset.mpr ha
  · intro hmem
    exact h a (Finset.mem_filter.mp hmem).2

/-! ### Room below a node -/

variable {limit depth depth' : Nat} {n m : Node}

/-- A node lies high enough for all rules that can be reached from it to fit below. -/
structure Within (r : Rules) (limit : Nat) (n : Node) (depth : Nat) : Prop where
  depth_le : depth ≤ limit + r.size
  targets : ∀ t ∈ n.targets, t ∈ r.names → depth + r.rank t < limit + r.size

/-- Above the limit there is room for all rules. -/
theorem BaseAcyclic.within (h : r.BaseAcyclic) (hdepth : depth ≤ limit) (n : Node) :
    r.Within limit n depth := by
  refine ⟨by omega, fun t _ ht => ?_⟩
  have hrank := h.rank_lt_size ht
  omega

/-- **Step**: what stands below a node lies high enough if the node does. -/
theorem Within.unfolds (hr : r.BaseAcyclic) (hn : r.Within limit n depth)
    (h : r.Unfolds limit n depth m depth') : r.Within limit m depth' := by
  cases h with
  | child hc =>
    refine ⟨hn.depth_le, fun t ht => hn.targets t ?_⟩
    rw [Node.targets_sequence]
    exact List.mem_flatMap.mpr ⟨m, hc, ht⟩
  | option ho =>
    refine ⟨hn.depth_le, fun t ht => hn.targets t ?_⟩
    rw [Node.targets_alternation]
    exact List.mem_flatMap.mpr ⟨m, ho, ht⟩
  | copy b x => exact ⟨hn.depth_le, fun t ht => hn.targets t (by rwa [Node.targets_repetition])⟩
  | @branch name rule b _ hrule hb hbase =>
    have hroom := hn.targets name (by simp) (mem_names_of_get? hrule)
    rcases Nat.lt_or_ge depth limit with hlt | hge
    · exact hr.within hlt m
    · refine ⟨by omega, fun t ht hname => ?_⟩
      have hrank := hr.rank_lt ⟨rule, hrule, m, hb, hbase hge, ht⟩ hname
      omega

end Rules

/-- **Run**: all parts of a guarded derivation lie high enough if the whole does. -/
theorem Derivation.Guarded.within_of_isPartOf {r : Rules} {limit : Nat} {d e : Derivation}
    (hr : r.BaseAcyclic) (hd : Guarded r limit d) (hwithin : r.Within limit d.node d.depth)
    (he : e.IsPartOf d) : r.Within limit e.node e.depth := by
  induction he with
  | refl => exact hwithin
  | @part q d hq he ih =>
    cases hd with
    | make hunfolds hps => exact ih (hps q hq) (hwithin.unfolds hr (hunfolds q hq))

namespace Sampler

open GrammarInference.Derivation

variable {g : Grammar} {p : Parameters} {s : Sampler} {d e : Derivation}

/-! ### Running out of references -/

/-- **The expansion ends.** Where a reference lies high enough and sufficiently many steps are
left, following references does not run out of them. -/
theorem not_tooDeep_deriveReference (hr : s.grammar.rules.BaseAcyclic) (steps : Nat) {name : Text}
    {depth : Nat} (hwithin : s.grammar.rules.Within s.maxDepth (.recursive name) depth)
    (hsteps : s.maxDepth + s.grammar.rules.size < depth + steps) :
    ¬ (s.deriveReference steps name depth).Fails .tooDeep := by
  induction steps generalizing name depth with
  | zero =>
    have hle := hwithin.depth_le
    omega
  | succ steps ih =>
    intro h
    rw [deriveReference] at h
    rcases Drawing.fails_bind.mp h with h | ⟨branch, hbranch, h⟩
    · rcases fails_chooseBranch h with ⟨hf, -⟩ | ⟨hf, -⟩ <;> cases hf
    · obtain ⟨rule, hrule, hb, hbase⟩ := base_of_returns_chooseBranch hbranch
      have hbelow := hwithin.unfolds hr (.branch hrule hb hbase)
      obtain ⟨child, hchild, h⟩ := fails_deriveWith branch h
      refine ih ⟨hbelow.depth_le, fun t ht => ?_⟩ (by omega) h
      obtain rfl : t = child := by simpa using ht
      exact hbelow.targets t hchild

theorem not_tooDeep_derive (hr : s.grammar.rules.BaseAcyclic) {n : Node} {depth : Nat}
    (hwithin : s.grammar.rules.Within s.maxDepth n depth) :
    ¬ (s.derive n depth).Fails .tooDeep := by
  intro h
  obtain ⟨name, hname, h⟩ := fails_deriveWith n h
  refine not_tooDeep_deriveReference hr _ ⟨hwithin.depth_le, fun t ht => ?_⟩ ?_ h
  · obtain rfl : t = name := by simpa using ht
    exact hwithin.targets t hname
  · unfold referenceLimit
    omega

/-- **A mutation ends.** No mutation of a part of a derivation that lies high enough runs out of
steps: it expands the part anew, and all parts lie high enough. -/
theorem not_tooDeep_mutateHere (hr : s.grammar.rules.BaseAcyclic) (hd : Expansion s.choices d)
    (hwithin : s.grammar.rules.Within s.maxDepth d.node d.depth) (he : e.IsPartOf d)
    (hmutable : e.isMutable = true) : ¬ (s.mutateHere e).Fails .tooDeep := by
  intro h
  rcases fails_mutateHere hmutable h with ⟨hf, -⟩ | h
  · cases hf
  · exact not_tooDeep_derive hr ((guarded_of_choices hd).within_of_isPartOf hr hwithin he) h

/-! ### Samples -/

/-- **Depth.** Whatever is drawn, every reference of a sampled derivation that lies at the greatest
depth or deeper is expanded to a base branch of its rule. Where no circle leads through base
branches, following references comes to an end, and no part of the derivation lies deeper than the
greatest depth and the number of rules together. -/
theorem depth_le_of_sample {σ : Type} (source : Source σ) (state : σ) {request : SamplerRequest}
    (hs : make g p request = .ok s) :
    (∀ d, (Draw.run source s.sampleDerivation.run state).1 = .ok d → ∀ e : Derivation,
      e.IsPartOf d → ∀ name, e.node = .recursive name → request.maxDepth ≤ e.depth → ∀ q ∈ e.parts,
        ∃ rule, g.rules.get? name = some rule ∧ q.node ∈ rule.branches ∧
          q.node.refersTo name = false) ∧
      (g.rules.BaseAcyclic →
        (Draw.run source s.sampleDerivation.run state).1 ≠ .error .tooDeep ∧
          ∀ d, (Draw.run source s.sampleDerivation.run state).1 = .ok d → ∀ e : Derivation,
            e.IsPartOf d → (e.depth : Int) ≤ request.maxDepth + g.rules.size) := by
  obtain ⟨rfl, -, -, hmax, -⟩ := of_make hs
  refine ⟨fun d hd e he name hname hdepth => ?_, fun hr => ⟨fun hdeep => ?_, fun d hd e he => ?_⟩⟩
  · obtain ⟨n, -, hexpansion, -, -⟩ :=
      expansionAt_of_sampleDerivation hs (Drawing.returns_of_run hd)
    exact (guarded_of_choices hexpansion).base_of_isPartOf he hname (by omega)
  · -- Sampling would fail in a part of a derivation that mutations have led to.
    rcases fails_sampleDerivation hs (Drawing.fails_of_run hdeep) with
      ⟨hf, -⟩ | ⟨n, -, d, ⟨hexpansion, -, hzero⟩, e, he, hmutable, hfails⟩
    · cases hf
    · exact not_tooDeep_mutateHere hr hexpansion (hr.within (by omega) _) he hmutable hfails
  · obtain ⟨n, -, hexpansion, -, hzero⟩ :=
      expansionAt_of_sampleDerivation hs (Drawing.returns_of_run hd)
    have hwithin :=
      (guarded_of_choices hexpansion).within_of_isPartOf hr (hr.within (by omega) _) he
    have hle := hwithin.depth_le
    omega

/-- Two rules whose second branches refer to the other rule and to the rule `back`. -/
def chained (back : Text) : Grammar where
  root := .recursive "A".toList
  rules := {
    entries := [
      ("A".toList, .alternation [.literal (.plain "a".toList),
        .sequence [.literal (.plain "x".toList), .recursive "B".toList]]),
      ("B".toList, .alternation [.literal (.plain "b".toList),
        .sequence [.literal (.plain "y".toList), .recursive back]])]
    distinct := by
      change ["A".toList, "B".toList].Nodup
      decide }

/-- A source that chooses the last alternative four times, and from then on the first. -/
def lastFour : Source Nat :=
  ⟨fun others n => (if n < 4 then Fin.last others else ⟨0, others.succ_pos⟩, n + 1),
    fun n => (0.0, n)⟩

/-- Where the second rule refers to itself, base branches lead from the first rule to the second
and no further. -/
theorem baseAcyclic_chained : (chained "B".toList).rules.BaseAcyclic := by
  have hstep : ∀ a b, (chained "B".toList).rules.BaseRefers a b →
      a = "A".toList ∧ b = "B".toList := by
    rintro a b ⟨rule, hrule, branch, hbranch, hbase, htarget⟩
    simp only [chained, Rules.get?, Rules.find?] at hrule
    split at hrule
    · next ha =>
      cases hrule
      refine ⟨ha.symm, ?_⟩
      simp only [Node.branches, List.mem_cons, List.not_mem_nil, or_false] at hbranch
      rcases hbranch with rfl | rfl
      · simp at htarget
      · simpa using htarget
    · split at hrule
      · next hb =>
        cases hrule
        simp only [Node.branches, List.mem_cons, List.not_mem_nil, or_false] at hbranch
        rcases hbranch with rfl | rfl
        · simp at htarget
        · simp [Node.refersTo, ← hb] at hbase
      · cases hrule
  have hpath : ∀ a b, Relation.TransGen (chained "B".toList).rules.BaseRefers a b →
      a = "A".toList ∧ b = "B".toList := by
    intro a b h
    induction h with
    | single h => exact hstep _ _ h
    | tail _ h ih => exact ⟨ih.1, (hstep _ _ h).2⟩
  intro a h
  obtain ⟨rfl, hab⟩ := hpath a a h
  exact absurd hab (by decide)

/-- The bound is reached: with the greatest depth zero, a chain of base branches visits both
rules. -/
theorem depth_le_of_sample_chained :
    ∃ s d, ∃ e : Derivation, make (chained "B".toList)
        ⟨[0.5, 0.5], 0.2, 1, 200, by simp, by decide⟩ ⟨none, 1, 0⟩ = .ok s ∧
      (Draw.run lastFour s.sampleDerivation.run 0).1 = .ok d ∧ e.IsPartOf d ∧ e.depth = 2 ∧
      (e.depth : Int) ≤ 0 + (chained "B".toList).rules.size := by
  have hrun : ∃ s d, ∃ e : Derivation, make (chained "B".toList)
        ⟨[0.5, 0.5], 0.2, 1, 200, by simp, by decide⟩ ⟨none, 1, 0⟩ = .ok s ∧
      (Draw.run lastFour s.sampleDerivation.run 0).1 = .ok d ∧ e.IsPartOf d ∧ e.depth = 2 := by
    refine ⟨_, _, leaf (.literal (.plain "b".toList)) "b".toList 2, rfl, rfl, ?_, rfl⟩
    exact .part List.mem_cons_self (.part (.tail _ List.mem_cons_self)
      (.part List.mem_cons_self .refl))
  obtain ⟨s, d, e, hs, hd, he, hdepth⟩ := hrun
  have hbound := (depth_le_of_sample lastFour 0 hs).2 baseAcyclic_chained
  exact ⟨s, d, e, hs, hd, he, hdepth, hbound.2 d hd e he⟩

/-- **The guard bounds nothing by itself.** The grammar is in order and the greatest depth is zero,
but base branches of the two rules follow each other to the depth three. -/
theorem mutual_exceeds_depth :
    ∃ s d, ∃ e : Derivation, make (chained "A".toList)
        ⟨[0.5, 0.5], 0.2, 1, 200, by simp, by decide⟩ ⟨none, 1, 0⟩ = .ok s ∧
      (Draw.run lastFour s.sampleDerivation.run 0).1 = .ok d ∧ e.IsPartOf d ∧
      ¬ (e.depth : Int) ≤ 0 + (chained "A".toList).rules.size := by
  refine ⟨_, _, leaf (.literal (.plain "a".toList)) "a".toList 3, rfl, rfl, ?_, by decide⟩
  exact .part List.mem_cons_self (.part (.tail _ List.mem_cons_self) (.part List.mem_cons_self
    (.part (.tail _ List.mem_cons_self) (.part List.mem_cons_self .refl))))

end Sampler

end GrammarInference
