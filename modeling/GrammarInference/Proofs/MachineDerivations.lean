import GrammarInference.Proofs.LoadedGrammars

/-!
# What a machine lacks for a default derivation

What it takes to make a default derivation is read off the derivation itself
(`Derivation.shortage?`): calls for every node on the way, memory for every tree on the way up, with
a derivation for each copy of a repeated part, and a text put together in each of them. A machine
makes the default derivation that there is without limits, or fails for the first of these that it
lacks (`Rules.deriveOn_eq_madeOn`).

So a sampler that a machine makes is the one that there is without limits
(`Sampler.make_of_makeOn`), and all that is said about samplers is true of it.
-/

namespace GrammarInference

namespace Derivation

mutual

/-- What a machine lacks for a derivation while so many calls are left: the first thing, if the
parts are made before the derivation itself. -/
def shortage? (m : Machine) (left : Nat) : Derivation → Option Shortage
  | .make n _ ps _ =>
    if left < n.deriveCalls then some .tooDeep
    else match n with
      | .literal _ => none
      | _ => (shortageOfAll? m (left - n.deriveCalls) ps).or <|
        (m.lacks? (.tree (sizes ps + 1))).or (m.lacks? (.joined (ps.map text)))

/-- What a machine lacks for several derivations. -/
def shortageOfAll? (m : Machine) (left : Nat) : List Derivation → Option Shortage
  | [] => none
  | d :: rest => (shortage? m left d).or (shortageOfAll? m left rest)

end

/-- A derivation, or what a machine lacks for it while so many calls are left. -/
def madeOn (m : Machine) (left : Nat) (d : Derivation) : Except DeriveFault Derivation :=
  match d.shortage? m left with
  | none => .ok d
  | some s => .error (.exhausted s)

variable {m : Machine} {left depth : Nat} {n : Node} {d : Derivation} {ds : List Derivation}

theorem madeOn_eq_ok_iff {d' : Derivation} :
    d.madeOn m left = .ok d' ↔ d' = d ∧ d.shortage? m left = none := by
  unfold madeOn
  cases d.shortage? m left with
  | none => simp [eq_comm]
  | some s => simp

@[simp] theorem sizes_singleton (d : Derivation) : sizes [d] = d.size := rfl

/-- Every copy of a derivation is as large as the derivation. -/
@[simp] theorem sizes_replicate (count : Nat) (d : Derivation) :
    sizes (List.replicate count d) = count * d.size := by
  induction count with
  | zero => rw [List.replicate_zero, sizes, Nat.zero_mul]
  | succ count ih => rw [List.replicate_succ, sizes, ih, Nat.succ_mul, Nat.add_comm]

@[simp] theorem shortageOfAll?_singleton (d : Derivation) :
    shortageOfAll? m left [d] = d.shortage? m left := Option.or_none

/-- For copies of a derivation there is lacked what is lacked for the first one. -/
theorem shortageOfAll?_replicate {count : Nat} (hcount : count ≠ 0) (d : Derivation) :
    shortageOfAll? m left (List.replicate count d) = d.shortage? m left := by
  induction count with
  | zero => exact absurd rfl hcount
  | succ count ih =>
    rw [List.replicate_succ, shortageOfAll?]
    cases count with
    | zero => exact Option.or_none
    | succ count =>
      rw [ih (Nat.succ_ne_zero count)]
      cases d.shortage? m left <;> rfl

/-- A literal takes nothing but its call. -/
theorem madeOn_leaf {l : Literal} {t : Text} (hcalls : ¬ left < (Node.literal l).deriveCalls) :
    (leaf (.literal l) t depth).madeOn m left = .ok (leaf (.literal l) t depth) := by
  rw [madeOn, leaf, shortage?, if_neg hcalls]

/-- No derivation is made without calls for its node. -/
theorem madeOn_of_lt (hcalls : left < d.node.deriveCalls) :
    d.madeOn m left = .error (.exhausted .tooDeep) := by
  cases d with
  | make n t ps depth =>
    rw [node] at hcalls
    rw [madeOn, shortage?.eq_def]
    dsimp only
    rw [if_pos hcalls]

/-- **Parts.** Where there are calls for a node, its derivation is made once its parts are. -/
theorem madeOn_ofParts (hcalls : ¬ left < n.deriveCalls) (hn : ∀ l, n ≠ .literal l) :
    (ofParts n depth ds).madeOn m left =
      match shortageOfAll? m (left - n.deriveCalls) ds with
      | some s => .error (.exhausted s)
      | none => grow m (sizes ds + 1) (ofPartsOn m n depth ds) := by
  have hshortage : (ofParts n depth ds).shortage? m left =
      (shortageOfAll? m (left - n.deriveCalls) ds).or
        ((m.lacks? (.tree (sizes ds + 1))).or (m.lacks? (.joined (ds.map text)))) := by
    rw [ofParts, shortage?.eq_def]
    dsimp only
    rw [if_neg hcalls]
    cases n with
    | literal l => exact absurd rfl (hn l)
    | _ => rfl
  rw [madeOn, hshortage, grow, ofPartsOn]
  cases shortageOfAll? m (left - n.deriveCalls) ds with
  | some s => rfl
  | none =>
    cases m.lacks? (.tree (sizes ds + 1)) with
    | some s => rfl
    | none => cases m.lacks? (.joined (ds.map text)) <;> rfl

/-- What is made of a node where there are calls for it, and not otherwise, is its derivation. -/
theorem eq_madeOn_of_calls {made : Except DeriveFault Derivation} (hn : d.node = n)
    (h : ¬ left < n.deriveCalls → made = d.madeOn m left) :
    (if left < n.deriveCalls then .error (.exhausted .tooDeep) else made) = d.madeOn m left := by
  subst hn
  split
  · next hcalls => rw [madeOn_of_lt hcalls]
  · next hcalls => exact h hcalls

section Agreement

variable {fuel : Nat} {rule : Text → Nat → Except DeriveFault Derivation}
  {ruleOn : Nat → Text → Nat → Except DeriveFault Derivation}

mutual

/-- **Step**: a machine makes the default derivation of a node if it does so for the rules that the
node refers to. -/
theorem defaultOn_eq_madeOn
    (hrule : ∀ left name depth d, left + 1 < fuel → rule name depth = .ok d →
      ruleOn left name depth = d.madeOn m left) :
    ∀ (n : Node) {left depth : Nat} {d : Derivation}, left < fuel →
      defaultWith rule depth n = .ok d → defaultOn m ruleOn left depth n = d.madeOn m left
  | .literal l, left, depth, d, _, h => by
    obtain rfl : leaf (.literal l) l.text depth = d := by simpa [defaultWith] using h
    rw [defaultOn]
    exact eq_madeOn_of_calls rfl fun hcalls => (madeOn_leaf hcalls).symm
  | .sequence cs, left, depth, d, hleft, h => by
    rw [defaultWith] at h
    split at h
    · cases h
    · next ds hds =>
      cases h
      rw [defaultOn]
      refine eq_madeOn_of_calls rfl fun hcalls => ?_
      have hbelow : left - 2 < fuel := Nat.lt_of_le_of_lt (Nat.sub_le left 2) hleft
      rw [madeOn_ofParts hcalls nofun, defaultEachOn_eq hrule cs hbelow hds]
      dsimp only [Node.deriveCalls]
      cases shortageOfAll? m (left - 2) ds <;> rfl
  | .alternation [], left, depth, d, _, h => by
    obtain rfl : ofParts (.alternation []) depth [] = d := by simpa [defaultWith] using h
    rw [defaultOn]
    refine eq_madeOn_of_calls rfl fun hcalls => ?_
    rw [madeOn_ofParts hcalls nofun, shortageOfAll?, sizes]
  | .alternation (o :: rest), left, depth, d, hleft, h => by
    rw [defaultWith] at h
    split at h
    · cases h
    · next e he =>
      cases h
      rw [defaultOn]
      refine eq_madeOn_of_calls rfl fun hcalls => ?_
      have hbelow : left - 1 < fuel := Nat.lt_of_le_of_lt (Nat.sub_le left 1) hleft
      rw [madeOn_ofParts hcalls nofun, defaultOn_eq_madeOn hrule o hbelow he,
        shortageOfAll?_singleton, sizes_singleton, madeOn]
      dsimp only [Node.deriveCalls]
      cases e.shortage? m (left - 1) <;> rfl
  | .repetition b x, left, depth, d, hleft, h => by
    rw [defaultWith] at h
    rw [defaultOn]
    split at h
    · next hzero =>
      cases h
      refine eq_madeOn_of_calls rfl fun hcalls => ?_
      rw [if_pos hzero, madeOn_ofParts hcalls nofun, shortageOfAll?, sizes]
    · next hzero =>
      split at h
      · cases h
      · next e he =>
        cases h
        refine eq_madeOn_of_calls rfl fun hcalls => ?_
        have hbelow : left - 2 < fuel := Nat.lt_of_le_of_lt (Nat.sub_le left 2) hleft
        rw [if_neg hzero, madeOn_ofParts hcalls nofun, defaultOn_eq_madeOn hrule b hbelow he,
          shortageOfAll?_replicate hzero, sizes_replicate, madeOn]
        dsimp only [Node.deriveCalls]
        cases e.shortage? m (left - 2) <;> rfl
  | .recursive name, left, depth, d, hleft, h => by
    rw [defaultWith] at h
    split at h
    · cases h
    · next e he =>
      cases h
      rw [defaultOn]
      refine eq_madeOn_of_calls rfl fun hcalls => ?_
      have hcall : 1 ≤ left := Nat.not_lt.mp hcalls
      have hbelow : left - 1 + 1 < fuel := by omega
      rw [madeOn_ofParts hcalls nofun, hrule _ _ _ _ hbelow he, shortageOfAll?_singleton,
        sizes_singleton, madeOn]
      dsimp only [Node.deriveCalls]
      cases e.shortage? m (left - 1) <;> rfl

theorem defaultEachOn_eq
    (hrule : ∀ left name depth d, left + 1 < fuel → rule name depth = .ok d →
      ruleOn left name depth = d.madeOn m left) :
    ∀ (ns : List Node) {left depth : Nat} {ds : List Derivation}, left < fuel →
      defaultAllWith rule depth ns = .ok ds →
      defaultEachOn m ruleOn left depth ns =
        match shortageOfAll? m left ds with
        | none => .ok ds
        | some s => .error (.exhausted s)
  | [], _, _, _, _, h => by
    cases h
    rfl
  | n :: rest, left, depth, _, hleft, h => by
    rw [defaultAllWith] at h
    split at h
    · cases h
    · next d hd =>
      split at h
      · cases h
      · next es hes =>
        cases h
        rw [defaultEachOn, defaultOn_eq_madeOn hrule n hleft hd,
          defaultEachOn_eq hrule rest hleft hes, madeOn, shortageOfAll?]
        cases d.shortage? m left with
        | some s => rfl
        | none => cases shortageOfAll? m left es <;> rfl

end

end Agreement

end Derivation

namespace Rules

variable {r : Rules} {m : Machine}

/-- **Run**: a machine makes the default derivations of references, however many of them it
takes. -/
theorem deriveRuleOn_eq_madeOn (steps : Nat) {fuel left : Nat} {name : Text} {depth : Nat}
    {d : Derivation} (hleft : left + 1 < fuel) (h : r.deriveRule steps name depth = .ok d) :
    r.deriveRuleOn m fuel left name depth = d.madeOn m left := by
  induction steps generalizing fuel left name depth d with
  | zero => cases h
  | succ steps ih =>
    obtain ⟨fuel, rfl⟩ := Nat.exists_eq_add_of_le' (Nat.one_le_of_lt hleft)
    rw [deriveRule] at h
    rw [deriveRuleOn]
    split at h
    · cases h
    · split at h
      · cases h
      · next branch _ =>
        exact Derivation.defaultOn_eq_madeOn (fun _ _ _ _ => ih) branch
          (Nat.lt_of_succ_lt_succ hleft) h

/-- **Default derivations on a machine.** A machine makes the default derivation that a node has, or
fails for what it lacks for it. -/
theorem deriveOn_eq_madeOn {n : Node} {depth : Nat} {d : Derivation}
    (h : r.derive n depth = .ok d) (m : Machine) :
    r.deriveOn m n depth = d.madeOn m m.calls :=
  Derivation.defaultOn_eq_madeOn (fun _ _ _ _ => deriveRuleOn_eq_madeOn _) n
    (Nat.lt_succ_self _) h

end Rules

namespace Sampler

variable {g : Grammar} {p : Parameters} {s : Sampler} {request : SamplerRequest} {m : Machine}

/-- The bases that a machine makes are those that there are without limits, if there are any. -/
theorem basesOn_eq {r : Rules} {ns : List Node} {ds : List Derivation}
    (h : basesOf r ns = .ok ds) : basesOn m r ns =
      match Derivation.shortageOfAll? m m.calls ds with
      | none => .ok ds
      | some s => .error (.exhausted s) := by
  induction ns generalizing ds with
  | nil =>
    cases h
    rfl
  | cons n rest ih =>
    rw [basesOf] at h
    split at h
    · cases h
    · next d hd =>
      split at h
      · cases h
      · next es hes =>
        cases h
        rw [basesOn, Rules.deriveOn_eq_madeOn hd, ih hes, Derivation.madeOn,
          Derivation.shortageOfAll?]
        cases d.shortage? m m.calls with
        | some s => rfl
        | none => cases Derivation.shortageOfAll? m m.calls es <;> rfl

/-- **Samplers on a machine.** What a machine makes of a request is what there is without limits,
unless it lacks something for the bases. -/
theorem makeOn_eq (m : Machine) (g : Grammar) (p : Parameters) (request : SamplerRequest) :
    makeOn m g p request =
      match make g p request with
      | .ok s =>
        match Derivation.shortageOfAll? m m.calls s.bases with
        | none => .ok s
        | some lack => .error (.derive (.exhausted lack))
      | .error e => .error e := by
  unfold makeOn make makeWith
  split_ifs
  · rfl
  · rfl
  · rfl
  · cases hvalid : g.validate with
    | error e => rfl
    | ok u =>
      dsimp only
      cases unsuitable? g p with
      | some n =>
        dsimp only
        cases n.format? <;> rfl
      | none =>
        -- once the grammar has been checked, every branch of its root has a default derivation
        obtain ⟨ds, hds⟩ := exists_bases (Grammar.resolves_of_validate hvalid)
        dsimp only
        rw [hds, basesOn_eq hds]
        dsimp only
        cases Derivation.shortageOfAll? m m.calls ds <;> rfl

/-- The sampler that a machine makes is the one that there is without limits. -/
theorem make_of_makeOn (h : makeOn m g p request = .ok s) : make g p request = .ok s := by
  rw [makeOn_eq] at h
  split at h
  · next s' hmake =>
    split at h
    · cases h
      exact hmake
    · cases h
  · cases h

end Sampler

end GrammarInference
