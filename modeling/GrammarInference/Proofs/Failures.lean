import GrammarInference.Proofs.Sampling
import GrammarInference.Proofs.Shape

/-!
# Where sampling fails

A drawing fails at one of its steps. Drawing a count never fails, expanding a node fails only at a
reference in it, and a branch cannot be chosen only where a rule is missing or has no base branch. A
mutation goes to a place that can be mutated; it fails there because a member of a class is no text,
or because the node at that place cannot be expanded anew (`Sampler.fails_mutateHere`).

So a sample fails at the start, where there is no derivation to start from, or in one such place of
a derivation that the mutations have led to (`Sampler.fails_sampleDerivation`).
-/

namespace GrammarInference

namespace Parameters

/-- Drawing a count never fails. -/
theorem not_fails_growCount (weight : Float) (left count : Nat) (f : DeriveFault) :
    ¬ (growCount weight left count).Fails f := by
  induction left generalizing count with
  | zero => simp [growCount]
  | succ left ih =>
    intro h
    rw [growCount] at h
    rcases Drawing.fails_bind.mp h with h | ⟨x, -, h⟩
    · simp at h
    · split at h
      · exact ih _ h
      · simp at h

theorem not_fails_repeatCount (p : Parameters) (x : Bounds) (f : DeriveFault) :
    ¬ (p.repeatCount x).Fails f := by
  intro h
  unfold repeatCount at h
  rcases Drawing.fails_bind.mp h with h | ⟨draw, -, h⟩
  · simp at h
  · dsimp only at h
    split at h
    · rcases Drawing.fails_bind.mp h with h | ⟨count, -, h⟩
      · exact not_fails_growCount _ _ _ _ h
      · simp at h
    · simp [Drawing.fails_bind] at h

end Parameters

/-! ### Places -/

namespace Derivation

variable {d : Derivation} {path : List Nat}

theorem mem_mutablePathsFrom {i : Nat} {ps : List Derivation} :
    path ∈ mutablePathsFrom i ps ↔
      ∃ j part rest, ps[j]? = some part ∧ rest ∈ part.mutablePaths ∧ path = (i + j) :: rest := by
  induction ps generalizing i with
  | nil => simp [mutablePathsFrom]
  | cons p ps ih =>
    rw [mutablePathsFrom, List.mem_append, List.mem_map, ih]
    constructor
    · rintro (⟨rest, hrest, rfl⟩ | ⟨j, part, rest, hpart, hrest, rfl⟩)
      · exact ⟨0, p, rest, rfl, hrest, rfl⟩
      · exact ⟨j + 1, part, rest, hpart, hrest, by rw [Nat.add_right_comm, Nat.add_assoc]⟩
    · rintro ⟨j, part, rest, hpart, hrest, rfl⟩
      cases j with
      | zero =>
        obtain rfl : p = part := Option.some.inj hpart
        exact .inl ⟨rest, hrest, rfl⟩
      | succ j =>
        exact .inr ⟨j, part, rest, hpart, hrest, by rw [Nat.add_right_comm, Nat.add_assoc]⟩

/-- The derivation itself is one of the places if it can be mutated. -/
theorem nil_mem_mutablePaths : [] ∈ d.mutablePaths ↔ d.isMutable = true := by
  cases d with
  | make n t ps depth =>
    rw [mutablePaths, List.mem_append, mem_mutablePathsFrom]
    split <;> simp_all

/-- The other places lie in the parts. -/
theorem cons_mem_mutablePaths {i : Nat} :
    i :: path ∈ d.mutablePaths ↔ ∃ part, d.parts[i]? = some part ∧ path ∈ part.mutablePaths := by
  cases d with
  | make n t ps depth =>
    have hnil : i :: path ∉ if (make n t ps depth).isMutable then [[]] else [] := by
      split <;> simp
    rw [mutablePaths, List.mem_append, or_iff_right hnil, mem_mutablePathsFrom]
    constructor
    · rintro ⟨j, part, rest, hpart, hrest, heq⟩
      obtain ⟨rfl, rfl⟩ := List.cons.inj heq
      exact ⟨part, by rwa [Nat.zero_add], hrest⟩
    · rintro ⟨part, hpart, hrest⟩
      exact ⟨i, part, path, hpart, hrest, by rw [Nat.zero_add]⟩

end Derivation

namespace Sampler

open GrammarInference.Derivation

variable {g : Grammar} {p : Parameters} {s : Sampler} {d : Derivation} {f : DeriveFault}

/-! ### Expanding a node -/

section Derive

variable {reference : Text → Nat → Drawing Derivation}

theorem fails_of_fails_several {d : Drawing Derivation} {count : Nat}
    (h : (several d count).Fails f) : d.Fails f := by
  induction count with
  | zero => simp [several] at h
  | succ count ih =>
    rw [several] at h
    rcases Drawing.fails_bind.mp h with h | ⟨first, -, h⟩
    · exact h
    · rcases Drawing.fails_bind.mp h with h | ⟨rest, -, h⟩
      · exact ih h
      · simp at h

mutual

/-- A random derivation of a node fails where a reference in it does. -/
theorem fails_deriveWith :
    ∀ (n : Node) {depth : Nat}, (deriveWith p reference depth n).Fails f →
      ∃ name ∈ n.targets, (reference name depth).Fails f
  | .literal l, depth, h => by simp [deriveWith] at h
  | .sequence cs, depth, h => by
    rw [deriveWith] at h
    rcases Drawing.fails_bind.mp h with h | ⟨ds, -, h⟩
    · rw [Node.targets_sequence]
      exact fails_deriveAllWith cs h
    · simp at h
  | .alternation [], depth, h => by simp [deriveWith] at h
  | .alternation (o :: rest), depth, h => by
    rw [deriveWith] at h
    rcases Drawing.fails_bind.mp h with h | ⟨i, hi, h⟩
    · simp at h
    · rcases Drawing.fails_bind.mp h with h | ⟨e, -, h⟩
      · rw [Node.targets_alternation]
        rw [Drawing.returns_position] at hi
        exact fails_optionWith (o :: rest) (Nat.lt_succ_of_le hi) h
      · simp at h
  | .repetition b x, depth, h => by
    rw [deriveWith] at h
    rcases Drawing.fails_bind.mp h with h | ⟨count, -, h⟩
    · exact (p.not_fails_repeatCount x f h).elim
    · rcases Drawing.fails_bind.mp h with h | ⟨ds, -, h⟩
      · rw [Node.targets_repetition]
        exact fails_deriveWith b (fails_of_fails_several h)
      · simp at h
  | .recursive name, depth, h => by
    rw [deriveWith] at h
    rcases Drawing.fails_bind.mp h with h | ⟨e, -, h⟩
    · exact ⟨name, by simp, h⟩
    · simp at h

theorem fails_deriveAllWith :
    ∀ (ns : List Node) {depth : Nat}, (deriveAllWith p reference depth ns).Fails f →
      ∃ name ∈ ns.flatMap Node.targets, (reference name depth).Fails f
  | [], depth, h => by simp [deriveAllWith] at h
  | n :: rest, depth, h => by
    rw [deriveAllWith] at h
    rw [List.flatMap_cons]
    rcases Drawing.fails_bind.mp h with h | ⟨d, -, h⟩
    · obtain ⟨name, hname, h⟩ := fails_deriveWith n h
      exact ⟨name, List.mem_append_left _ hname, h⟩
    · rcases Drawing.fails_bind.mp h with h | ⟨ds, -, h⟩
      · obtain ⟨name, hname, h⟩ := fails_deriveAllWith rest h
        exact ⟨name, List.mem_append_right _ hname, h⟩
      · simp at h

theorem fails_optionWith :
    ∀ (os : List Node) {depth i : Nat}, i < os.length →
      (optionWith p reference depth i os).Fails f →
        ∃ name ∈ os.flatMap Node.targets, (reference name depth).Fails f
  | [], depth, i, hi, h => absurd hi (Nat.not_lt_zero i)
  | o :: rest, depth, 0, _, h => by
    rw [optionWith] at h
    rw [List.flatMap_cons]
    obtain ⟨name, hname, h⟩ := fails_deriveWith o h
    exact ⟨name, List.mem_append_left _ hname, h⟩
  | o :: rest, depth, i + 1, hi, h => by
    rw [optionWith] at h
    rw [List.flatMap_cons]
    obtain ⟨name, hname, h⟩ := fails_optionWith rest (Nat.lt_of_succ_lt_succ hi) h
    exact ⟨name, List.mem_append_right _ hname, h⟩

end

end Derive

/-- A branch cannot be chosen where the rule is missing or has no base branch. -/
theorem fails_chooseBranch {name : Text} {depth : Nat} (h : (s.chooseBranch name depth).Fails f) :
    (f = .unknownRule name ∧ s.grammar.rules.get? name = none) ∨
      (f = .nothingToChoose ∧ ∃ rule, s.grammar.rules.get? name = some rule ∧
        rule.firstBase? name = none) := by
  unfold chooseBranch at h
  split at h
  · next hnone => exact .inl ⟨Drawing.fails_fail.mp h, hnone⟩
  · next rule hrule =>
    have hbase : (Drawing.oneOf (rule.branches.filter fun b => !b.refersTo name)).Fails f →
        f = .nothingToChoose ∧ ∃ rule, s.grammar.rules.get? name = some rule ∧
          rule.firstBase? name = none := by
      intro h
      obtain ⟨hempty, hf⟩ := Drawing.fails_oneOf.mp h
      refine ⟨hf, rule, hrule, List.find?_eq_none.mpr fun b hb => ?_⟩
      exact List.filter_eq_nil_iff.mp hempty b hb
    refine .inr ?_
    dsimp only at h
    split at h
    · exact hbase h
    -- A recursive branch is only asked for where there is one.
    · next hrecursive =>
      split at h
      · rcases Drawing.fails_bind.mp h with h | ⟨x, -, h⟩
        · simp at h
        · split at h
          · obtain ⟨hempty, -⟩ := Drawing.fails_oneOf.mp h
            rw [hempty] at hrecursive
            exact absurd rfl hrecursive
          · exact hbase h
      · rcases Drawing.fails_bind.mp h with h | ⟨x, -, h⟩
        · simp at h
        · exact hbase h

/-! ### Mutations -/

/-- Swapping a character fails where a class with several members has one that is no text. -/
theorem fails_mutateHere (hd : d.isMutable = true) (h : (s.mutateHere d).Fails f) :
    (f = .notText ∧ ∃ l k m, d.node = .literal l ∧ some k ∈ l.classes ∧ 1 < k.size ∧
      m ∈ k.characters ∧ m.text? = none) ∨ (s.derive d.node d.depth).Fails f := by
  unfold mutateHere at h
  split at h
  · next l hl =>
    -- There is a position to choose, and a member to choose there; but it may be no text.
    refine .inl ?_
    have hfree : freePositions l ≠ [] := by
      unfold isMutable at hd
      rw [hl] at hd
      simpa using hd
    rcases Drawing.fails_bind.mp h with h | ⟨i, hi, h⟩
    · exact absurd (Drawing.fails_oneOf.mp h).1 hfree
    · obtain ⟨k, hk, hsize⟩ := mem_freePositions.mp (Drawing.returns_oneOf.mp hi)
      have hmembers :
          (((l.classes[i]?).getD none).map CharClass.characters).getD [] = k.characters := by
        rw [hk]
        rfl
      rw [hmembers] at h
      rcases Drawing.fails_bind.mp h with h | ⟨m, hm, h⟩
      · rw [CharClass.size, (Drawing.fails_oneOf.mp h).1] at hsize
        cases hsize
      · rw [Drawing.returns_oneOf] at hm
        have hresult : f = .notText ∧ m.text? = none := by
          cases m with
          | text t => simp at h
          | _ => exact ⟨Drawing.fails_fail.mp h, rfl⟩
        exact ⟨hresult.1, l, k, m, hl, List.mem_of_getElem? hk, hsize, hm, hresult.2⟩
  · exact .inr h

/-- A mutation at one of the places fails in the part at that place. -/
theorem fails_mutateAt (path : List Nat) (hpath : path ∈ d.mutablePaths)
    (h : (s.mutateAt path d).Fails f) :
    ∃ e : Derivation, e.IsPartOf d ∧ e.isMutable = true ∧ (s.mutateHere e).Fails f := by
  induction path generalizing d with
  | nil => exact ⟨d, .refl, nil_mem_mutablePaths.mp hpath, h⟩
  | cons i path ih =>
    obtain ⟨part, hpart, hrest⟩ := cons_mem_mutablePaths.mp hpath
    rw [mutateAt, hpart] at h
    rcases Drawing.fails_bind.mp h with h | ⟨new, -, h⟩
    · obtain ⟨e, he, hmutable, hfails⟩ := ih hrest h
      exact ⟨e, .part (List.mem_of_getElem? hpart) he, hmutable, hfails⟩
    · simp at h

/-- **One mutation** fails in a part that can be mutated. -/
theorem fails_mutate (h : (s.mutate d).Fails f) :
    ∃ e : Derivation, e.IsPartOf d ∧ e.isMutable = true ∧ (s.mutateHere e).Fails f := by
  unfold mutate at h
  dsimp only at h
  split at h
  · simp at h
  · next hsome =>
    rcases Drawing.fails_bind.mp h with h | ⟨path, hpath, h⟩
    · rw [(Drawing.fails_oneOf.mp h).1] at hsome
      exact absurd rfl hsome
    · exact fails_mutateAt path (Drawing.returns_oneOf.mp hpath) h

/-- **A run of mutations** fails in a part of a derivation that earlier mutations have led to. -/
theorem fails_mutateTimes (hp : s.grammar.SuitsParameters s.parameters) (times : Nat)
    (hd : Expansion s.choices d) (hn : s.grammar.Contains d.node)
    (h : (s.mutateTimes times d).Fails f) :
    ∃ d' : Derivation, ExpansionAt s.choices d.node d.depth d' ∧
      ∃ e : Derivation, e.IsPartOf d' ∧ e.isMutable = true ∧ (s.mutateHere e).Fails f := by
  induction times generalizing d with
  | zero => simp [mutateTimes] at h
  | succ times ih =>
    rw [mutateTimes] at h
    rcases Drawing.fails_bind.mp h with h | ⟨d₁, hd₁, h⟩
    · exact ⟨d, hd.at_self, fails_mutate h⟩
    · obtain ⟨hexpansion, hnode, hdepth⟩ := expansionAt_mutate hp hd hn hd₁
      rw [← hnode, ← hdepth]
      exact ih hexpansion (hnode ▸ hn) h

/-- **A sample** fails where there is no derivation to start from, or in a part of a derivation that
mutations of one of these have led to. -/
theorem fails_sampleDerivation {request : SamplerRequest} (hs : make g p request = .ok s)
    (h : s.sampleDerivation.Fails f) :
    (f = .nothingToChoose ∧ s.bases = []) ∨
      ∃ n ∈ g.root.branches, ∃ d : Derivation, ExpansionAt s.choices n 0 d ∧
        ∃ e : Derivation, e.IsPartOf d ∧ e.isMutable = true ∧ (s.mutateHere e).Fails f := by
  rw [sampleDerivation] at h
  rcases Drawing.fails_bind.mp h with h | ⟨base, hbase, h⟩
  · obtain ⟨hempty, hf⟩ := Drawing.fails_oneOf.mp h
    exact .inl ⟨hf, hempty⟩
  · obtain ⟨n, hn, hexpansion, rfl, hzero⟩ :=
      expansionAt_of_mem_bases hs (Drawing.returns_oneOf.mp hbase)
    obtain ⟨rfl, rfl, -, -, hp⟩ := of_make hs
    have hfails := fails_mutateTimes hp _ hexpansion (Grammar.contains_root.branch hn) h
    rw [hzero] at hfails
    exact .inr ⟨base.node, hn, hfails⟩

end Sampler

end GrammarInference
