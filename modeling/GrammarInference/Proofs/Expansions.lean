import GrammarInference.Proofs.Draws
import GrammarInference.Proofs.Tables
import Mathlib.Order.MinMax

/-!
# Expansions of a node

Default derivations and random ones are made by recursions that differ only in the choices they
make: which text a literal produces, how many copies a repetition gets, and which branch stands for
a reference. `Choices` says which ones may be made, and `Derivation.Expansion` what derivations of
a node they lead to. Each of the two recursions is taken apart once, into an expansion by its own
choices (`Rules.expansionAt_of_derive`, `Sampler.expansionAt_of_derive`); what holds of default and
random derivations is then proved by induction on expansions.

Expansions are closed under what a mutation does: a part may be exchanged for another expansion of
the same node at the same depth (`Derivation.Expansion.set`).

A random expansion makes choices that suit the grammar only for nodes that are parts of the
grammar, which `Grammar.Contains` keeps track of.
-/

namespace GrammarInference

/-! ### Parts of a grammar -/

/-- A node all of whose parts are parts of a grammar. -/
def Grammar.Contains (g : Grammar) (n : Node) : Prop := n.walk ⊆ g.walk

namespace Node

theorem walk_subset_walkAll {n : Node} {ns : List Node} (h : n ∈ ns) : n.walk ⊆ walkAll ns := by
  induction ns with
  | nil => cases h
  | cons a rest ih =>
    rw [walkAll]
    rcases List.mem_cons.mp h with rfl | h
    · exact List.subset_append_left _ _
    · exact List.Subset.trans (ih h) (List.subset_append_right _ _)

/-- The parts of a branch are parts of the rule. -/
theorem walk_subset_of_mem_branches {b rule : Node} (h : b ∈ rule.branches) :
    b.walk ⊆ rule.walk := by
  unfold branches at h
  split at h
  · rw [walk]
    exact List.Subset.trans (walk_subset_walkAll h) (List.subset_cons_self _ _)
  · rw [List.mem_singleton.mp h]
    exact fun _ hm => hm

end Node

namespace Grammar

variable {g : Grammar}

theorem contains_root : g.Contains g.root := List.subset_append_left _ _

theorem contains_rule {name : Text} {rule : Node} (h : g.rules.get? name = some rule) :
    g.Contains rule := fun _ hm =>
  List.mem_append_right _ (List.mem_flatMap.mpr ⟨_, Rules.mem_entries_of_get? h, hm⟩)

theorem Contains.child {cs : List Node} {c : Node} (h : g.Contains (.sequence cs)) (hc : c ∈ cs) :
    g.Contains c := by
  refine List.Subset.trans ?_ h
  rw [Node.walk]
  exact List.Subset.trans (Node.walk_subset_walkAll hc) (List.subset_cons_self _ _)

/-- The branches of a part are parts. -/
theorem Contains.branch {n b : Node} (h : g.Contains n) (hb : b ∈ n.branches) : g.Contains b :=
  List.Subset.trans (Node.walk_subset_of_mem_branches hb) h

theorem Contains.body {b : Node} {x : Bounds} (h : g.Contains (.repetition b x)) :
    g.Contains b := by
  refine List.Subset.trans ?_ h
  rw [Node.walk]
  exact List.subset_cons_self _ _

/-- All members of all classes are single characters. -/
def HasCharacterClasses (g : Grammar) : Prop :=
  ∀ l : Literal, .literal l ∈ g.walk → ∀ k : CharClass, some k ∈ l.classes →
    ∀ s ∈ k.characters, ∃ c, s = Symbol.ofChar c

/-- Every repetition has a count that the parameters allow. -/
def SuitsParameters (g : Grammar) (p : Parameters) : Prop :=
  ∀ (b : Node) (x : Bounds), .repetition b x ∈ g.walk → (p.countBounds x).1 ≤ (p.countBounds x).2

end Grammar

/-! ### Expansions -/

/-- What may be chosen where a node is expanded. -/
structure Choices where
  /-- The texts that a literal may produce. -/
  text : Literal → Text → Prop
  /-- How many copies there may be of the body of a repetition with a range. -/
  count : Bounds → Nat → Prop
  /-- The nodes that may stand for a reference to a rule at a depth. -/
  branch : Text → Nat → Node → Prop

/-- The nodes that may be put, side by side and at a depth, in the place of a node at a depth. -/
inductive Choices.Expands (c : Choices) : Node → Nat → List Node → Nat → Prop
  /-- A sequence stands for its children. -/
  | sequence (cs : List Node) (depth : Nat) : Expands c (.sequence cs) depth cs depth
  /-- An alternation without options stands for nothing. -/
  | nothing (depth : Nat) : Expands c (.alternation []) depth [] depth
  /-- An alternation stands for one of its options. -/
  | option {os : List Node} {o : Node} (ho : o ∈ os) (depth : Nat) :
    Expands c (.alternation os) depth [o] depth
  /-- A repetition stands for copies of its body. -/
  | copies (b : Node) {x : Bounds} {count : Nat} (hcount : c.count x count) (depth : Nat) :
    Expands c (.repetition b x) depth (List.replicate count b) depth
  /-- A reference stands for a node that is chosen for it, one level deeper. -/
  | branch {name : Text} {b : Node} {depth : Nat} (hb : c.branch name depth b) :
    Expands c (.recursive name) depth [b] (depth + 1)

theorem Choices.Expands.mono {c c' : Choices} {n : Node} {ns : List Node} {depth below : Nat}
    (h : c.Expands n depth ns below) (hcount : ∀ x k, c.count x k → c'.count x k)
    (hbranch : ∀ name depth b, c.branch name depth b → c'.branch name depth b) :
    c'.Expands n depth ns below := by
  cases h with
  | sequence => exact .sequence _ _
  | nothing => exact .nothing _
  | option ho => exact .option ho _
  | copies b hk => exact .copies b (hcount _ _ hk) _
  | branch hb => exact .branch (hbranch _ _ _ hb)

/-- What stands for a part of a grammar is a part of the grammar, if all branches that may be chosen
are. -/
theorem Grammar.Contains.expands {g : Grammar} {c : Choices} {n m : Node} {ns : List Node}
    {depth below : Nat} (hn : g.Contains n)
    (hbranch : ∀ name depth b, c.branch name depth b → g.Contains b)
    (h : c.Expands n depth ns below) (hm : m ∈ ns) : g.Contains m := by
  cases h with
  | sequence cs => exact hn.child hm
  | nothing => cases hm
  | option ho => exact List.mem_singleton.mp hm ▸ hn.branch ho
  | copies b => exact (List.mem_replicate.mp hm).2 ▸ hn.body
  | branch hb => exact List.mem_singleton.mp hm ▸ hbranch _ _ _ hb

namespace Derivation

/-- A derivation is a part of another one: the derivation itself, or a part of one of its parts. -/
inductive IsPartOf (e : Derivation) : Derivation → Prop
  /-- The derivation itself. -/
  | refl : IsPartOf e e
  /-- A part of a part. -/
  | part {p d : Derivation} (hp : p ∈ d.parts) (h : IsPartOf e p) : IsPartOf e d

/-- A derivation that is made by choices: a literal with one of its texts, or parts that may stand
for the node. -/
inductive Expansion (c : Choices) : Derivation → Prop
  /-- A literal with one of its texts. -/
  | literal {l : Literal} {t : Text} {depth : Nat} (ht : c.text l t) :
    Expansion c (leaf (.literal l) t depth)
  /-- Parts that may stand for the node, all at the same depth. -/
  | ofParts {n : Node} {depth below : Nat} {ps : List Derivation}
    (hn : c.Expands n depth (ps.map node) below) (hdepth : ∀ p ∈ ps, p.depth = below)
    (hps : ∀ p ∈ ps, Expansion c p) : Expansion c (ofParts n depth ps)

/-- A derivation of a node at a depth that is made by choices. -/
structure ExpansionAt (c : Choices) (n : Node) (depth : Nat) (d : Derivation) : Prop where
  expansion : Expansion c d
  node_eq : d.node = n
  depth_eq : d.depth = depth

variable {c c' : Choices} {n : Node} {depth below : Nat} {d e : Derivation}

theorem Expansion.at_self (h : Expansion c d) : ExpansionAt c d.node d.depth d := ⟨h, rfl, rfl⟩

theorem expansionAt_literal {l : Literal} {t : Text} (ht : c.text l t) (depth : Nat) :
    ExpansionAt c (.literal l) depth (leaf (.literal l) t depth) :=
  ⟨.literal ht, rfl, rfl⟩

/-- Expansions of nodes that may stand for a node are put together to an expansion of it. -/
theorem expansionAt_ofParts {ns : List Node} {ps : List Derivation}
    (hn : c.Expands n depth ns below) (hnodes : ps.map node = ns)
    (hps : ∀ p ∈ ps, Expansion c p ∧ p.depth = below) :
    ExpansionAt c n depth (ofParts n depth ps) :=
  ⟨.ofParts (hnodes ▸ hn) (fun p hp => (hps p hp).2) fun p hp => (hps p hp).1, rfl, rfl⟩

/-- An expansion of the one node that stands for a node. -/
theorem expansionAt_singleton {m : Node} (hn : c.Expands n depth [m] below)
    (hd : ExpansionAt c m below d) : ExpansionAt c n depth (ofParts n depth [d]) := by
  refine expansionAt_ofParts hn (by rw [List.map_singleton, hd.node_eq]) fun p hp => ?_
  rw [List.mem_singleton.mp hp]
  exact ⟨hd.expansion, hd.depth_eq⟩

/-- Expansions of the body, in a number that may be chosen. -/
theorem expansionAt_copies {b : Node} {x : Bounds} {ps : List Derivation}
    (hcount : c.count x ps.length) (hps : ∀ p ∈ ps, ExpansionAt c b depth p) :
    ExpansionAt c (.repetition b x) depth (ofParts (.repetition b x) depth ps) := by
  refine expansionAt_ofParts (.copies b hcount depth) ?_ fun p hp =>
    ⟨(hps p hp).expansion, (hps p hp).depth_eq⟩
  exact List.eq_replicate_iff.mpr
    ⟨List.length_map _, List.forall_mem_map.mpr fun p hp => (hps p hp).node_eq⟩

/-- What may be chosen may be chosen among more. -/
theorem Expansion.mono (h : Expansion c d) (htext : ∀ l t, c.text l t → c'.text l t)
    (hcount : ∀ x k, c.count x k → c'.count x k)
    (hbranch : ∀ name depth b, c.branch name depth b → c'.branch name depth b) :
    Expansion c' d := by
  induction h with
  | literal ht => exact .literal (htext _ _ ht)
  | ofParts hn hdepth _ ih => exact .ofParts (hn.mono hcount hbranch) hdepth ih

/-- All parts of an expansion are expansions. -/
theorem Expansion.of_isPartOf (hd : Expansion c d) (he : e.IsPartOf d) : Expansion c e := by
  induction he with
  | refl => exact hd
  | part hp _ ih =>
    cases hd with
    | literal => cases hp
    | ofParts _ _ hps => exact ih (hps _ hp)

/-- All parts of an expansion expand parts of a grammar if the whole does. -/
theorem Expansion.contains_of_isPartOf {g : Grammar} (hd : Expansion c d)
    (hn : g.Contains d.node) (hbranch : ∀ name depth b, c.branch name depth b → g.Contains b)
    (he : e.IsPartOf d) : g.Contains e.node := by
  induction he with
  | refl => exact hn
  | part hp _ ih =>
    cases hd with
    | literal => cases hp
    | ofParts hexpands _ hps =>
      exact ih (hps _ hp) (hn.expands hbranch hexpands (List.mem_map_of_mem hp))

/-- **Exchange.** A part may be exchanged for another expansion of its node at its depth. -/
theorem Expansion.set (h : Expansion c d) {i : Nat} {old new : Derivation}
    (hold : d.parts[i]? = some old) (hnew : ExpansionAt c old.node old.depth new) :
    ExpansionAt c d.node d.depth (d.withParts (d.parts.set i new)) := by
  cases h with
  | literal => simp [leaf, parts] at hold
  | @ofParts n depth below ps hn hdepth hps =>
    have hmem : old ∈ ps := List.mem_of_getElem? hold
    -- The new part stands for the same node, so the parts stand for the same nodes.
    have hsame : (ps.set i new).map node = ps.map node := by
      obtain ⟨hi, rfl⟩ := List.getElem?_eq_some_iff.mp hold
      rw [List.map_set, hnew.node_eq, ← List.getElem_map node (h := by simpa using hi)]
      exact List.set_getElem_self _
    refine expansionAt_ofParts hn hsame fun p hp => ?_
    rcases List.mem_or_eq_of_mem_set hp with hp | rfl
    · exact ⟨hps p hp, hdepth p hp⟩
    · exact ⟨hnew.expansion, hnew.depth_eq.trans (hdepth old hmem)⟩

/-- A literal that has been expanded produces one of its texts. -/
theorem Expansion.text_of_literal (h : Expansion c d) {l : Literal} (hl : d.node = .literal l) :
    c.text l d.text := by
  cases h with
  | literal ht =>
    cases hl
    exact ht
  | ofParts hn =>
    obtain rfl := hl
    cases hn

end Derivation

/-! ### Default derivations -/

/-- The choices of default derivations: the text of a literal, the least count of a repetition, and
the first base branch of a rule. -/
def Rules.defaults (r : Rules) : Choices where
  text l t := t = l.text
  count x n := n = x.min
  branch name _ b := ∃ rule, r.get? name = some rule ∧ rule.firstBase? name = some b

namespace Derivation

section Default

variable {r : Rules} {rule : Text → Nat → Except DeriveFault Derivation}

mutual

private theorem expansionAt_of_defaultWith (hrule : ∀ name depth d, rule name (depth + 1) = .ok d →
    ∃ b, r.defaults.branch name depth b ∧ ExpansionAt r.defaults b (depth + 1) d) :
    ∀ (n : Node) {depth : Nat} {d : Derivation}, defaultWith rule depth n = .ok d →
      ExpansionAt r.defaults n depth d
  | .literal l, depth, d, h => by
    obtain rfl : leaf (.literal l) l.text depth = d := by simpa [defaultWith] using h
    exact expansionAt_literal rfl depth
  | .sequence cs, depth, d, h => by
    rw [defaultWith] at h
    split at h
    · cases h
    · next ds hds =>
      cases h
      obtain ⟨hnodes, hparts⟩ := expansions_of_defaultAllWith hrule cs hds
      exact expansionAt_ofParts (.sequence cs depth) hnodes hparts
  | .alternation [], depth, d, h => by
    obtain rfl : ofParts (.alternation []) depth [] = d := by simpa [defaultWith] using h
    exact expansionAt_ofParts (.nothing depth) rfl fun p hp => (List.not_mem_nil hp).elim
  | .alternation (o :: rest), depth, d, h => by
    rw [defaultWith] at h
    split at h
    · cases h
    · next e he =>
      cases h
      exact expansionAt_singleton (.option List.mem_cons_self depth)
        (expansionAt_of_defaultWith hrule o he)
  | .repetition b x, depth, d, h => by
    rw [defaultWith] at h
    split at h
    · next hzero =>
      -- The body is not expanded where no copy of it has to stand.
      cases h
      exact expansionAt_copies hzero.symm fun p hp => (List.not_mem_nil hp).elim
    · split at h
      · cases h
      · next e he =>
        cases h
        have hbody := expansionAt_of_defaultWith hrule b he
        exact expansionAt_copies List.length_replicate fun p hp =>
          (List.mem_replicate.mp hp).2 ▸ hbody
  | .recursive name, depth, d, h => by
    rw [defaultWith] at h
    split at h
    · cases h
    · next e he =>
      cases h
      obtain ⟨b, hb, hbranch⟩ := hrule _ _ _ he
      exact expansionAt_singleton (.branch hb) hbranch

private theorem expansions_of_defaultAllWith
    (hrule : ∀ name depth d, rule name (depth + 1) = .ok d →
      ∃ b, r.defaults.branch name depth b ∧ ExpansionAt r.defaults b (depth + 1) d) :
    ∀ (ns : List Node) {depth : Nat} {ds : List Derivation}, defaultAllWith rule depth ns = .ok ds →
      ds.map node = ns ∧ ∀ d ∈ ds, Expansion r.defaults d ∧ d.depth = depth
  | [], _, ds, h => by
    obtain rfl : [] = ds := by simpa [defaultAllWith] using h
    exact ⟨rfl, fun d hd => (List.not_mem_nil hd).elim⟩
  | n :: rest, depth, ds, h => by
    rw [defaultAllWith] at h
    split at h
    · cases h
    · next d hd =>
      split at h
      · cases h
      · next es hes =>
        cases h
        have hfirst := expansionAt_of_defaultWith hrule n hd
        obtain ⟨hnodes, hparts⟩ := expansions_of_defaultAllWith hrule rest hes
        exact ⟨by rw [List.map_cons, hfirst.node_eq, hnodes],
          List.forall_mem_cons.mpr ⟨⟨hfirst.expansion, hfirst.depth_eq⟩, hparts⟩⟩

end

end Default

end Derivation

namespace Rules

open GrammarInference.Derivation

variable {r : Rules}

private theorem expansionAt_of_deriveRule (steps : Nat) {name : Text} {depth : Nat} {d : Derivation}
    (h : r.deriveRule steps name (depth + 1) = .ok d) :
    ∃ b, r.defaults.branch name depth b ∧ ExpansionAt r.defaults b (depth + 1) d := by
  induction steps generalizing name depth d with
  | zero => cases h
  | succ steps ih =>
    rw [deriveRule] at h
    split at h
    · cases h
    · next rule hrule =>
      split at h
      · cases h
      · next b hb =>
        exact ⟨b, ⟨rule, hrule, hb⟩, expansionAt_of_defaultWith (fun _ _ _ h => ih h) b h⟩

/-- A default derivation is an expansion by default choices. -/
theorem expansionAt_of_derive {n : Node} {depth : Nat} {d : Derivation}
    (h : r.derive n depth = .ok d) : ExpansionAt r.defaults n depth d :=
  expansionAt_of_defaultWith (fun _ _ _ h => expansionAt_of_deriveRule _ h) n h

end Rules

/-! ### Counts of copies -/

namespace Parameters

variable {p : Parameters} {x : Bounds} {n : Nat}

/-- A count that both the parameters and the range of a repetition allow. -/
structure Allows (p : Parameters) (x : Bounds) (n : Nat) : Prop where
  minRepeat_le : p.minRepeat ≤ n
  min_le : x.min ≤ n
  le_maxRepeat : n ≤ p.maxRepeat
  le_max : ∀ m ∈ x.max, n ≤ m

/-- The counts that sampling comes to: the least one as long as a repetition has not been expanded
anew, and allowed ones afterwards. -/
def Samples (p : Parameters) (x : Bounds) (n : Nat) : Prop := n = x.min ∨ p.Allows x n

/-- The allowed counts are those between the two bounds that a count is moved into. -/
theorem allows_iff : p.Allows x n ↔ (p.countBounds x).1 ≤ n ∧ n ≤ (p.countBounds x).2 := by
  unfold countBounds
  constructor
  · rintro ⟨hlow, hmin, hhigh, hmax⟩
    cases hm : x.max with
    | none => exact ⟨max_le hlow hmin, hhigh⟩
    | some m => exact ⟨max_le hlow hmin, le_min hhigh (hmax m hm)⟩
  · rintro ⟨hlow, hhigh⟩
    obtain ⟨hlow, hmin⟩ := max_le_iff.mp hlow
    cases hm : x.max with
    | none =>
      rw [hm] at hhigh
      exact ⟨hlow, hmin, hhigh, by simp [hm]⟩
    | some m =>
      rw [hm] at hhigh
      obtain ⟨hhigh, hmax⟩ := le_min_iff.mp hhigh
      exact ⟨hlow, hmin, hhigh, by simpa [hm] using hmax⟩

/-- A drawn count has been moved between the bounds. -/
theorem clamped_of_returns_repeatCount (h : (p.repeatCount x).Returns n) :
    ∃ count, n = min (max count (p.countBounds x).1) (p.countBounds x).2 := by
  unfold repeatCount at h
  obtain ⟨draw, -, h⟩ := Drawing.returns_bind.mp h
  dsimp only at h
  split at h <;> obtain ⟨count, -, h⟩ := Drawing.returns_bind.mp h <;>
    exact ⟨count, Drawing.returns_pure.mp h⟩

/-- **Counts are allowed.** A drawn count is moved between the bounds, whatever the weights are. -/
theorem allows_of_returns_repeatCount (hx : (p.countBounds x).1 ≤ (p.countBounds x).2)
    (h : (p.repeatCount x).Returns n) : p.Allows x n := by
  obtain ⟨count, rfl⟩ := clamped_of_returns_repeatCount h
  exact allows_iff.mpr ⟨le_min (le_max_right _ _) hx, min_le_right _ _⟩

end Parameters

/-- The least count of a range lies in it. -/
theorem Bounds.has_min (x : Bounds) : x.has x.min = true := by
  have h := x.ordered
  unfold has
  cases hm : x.max with
  | none => simp
  | some m => simpa [hm] using h m hm

/-- An allowed count lies in the range. -/
theorem Parameters.Allows.has {p : Parameters} {x : Bounds} {n : Nat} (h : p.Allows x n) :
    x.has n = true := by
  have hmax := h.le_max
  unfold Bounds.has
  cases hm : x.max with
  | none => simpa using h.min_le
  | some m => simpa [hm] using ⟨h.min_le, hmax m hm⟩

/-! ### Random derivations -/

namespace Sampler

open GrammarInference.Derivation

variable {s : Sampler} {d e : Derivation}

/-- The choices of random derivations: the text of a literal, the allowed counts of a repetition,
and the branches of a rule, from the greatest depth on only its base branches. -/
def fresh (s : Sampler) : Choices where
  text l t := t = l.text
  count := s.parameters.Allows
  branch name depth b := ∃ rule, s.grammar.rules.get? name = some rule ∧ b ∈ rule.branches ∧
    (s.maxDepth ≤ depth → b.refersTo name = false)

theorem returns_several {d : Drawing Derivation} {P : Derivation → Prop}
    (hd : ∀ e, d.Returns e → P e) {count : Nat} {ds : List Derivation}
    (h : (several d count).Returns ds) : ds.length = count ∧ ∀ e ∈ ds, P e := by
  induction count generalizing ds with
  | zero =>
    rw [several, Drawing.returns_pure] at h
    exact h ▸ ⟨rfl, fun e he => (List.not_mem_nil he).elim⟩
  | succ count ih =>
    rw [several] at h
    obtain ⟨first, hfirst, h⟩ := Drawing.returns_bind.mp h
    obtain ⟨rest, hrest, h⟩ := Drawing.returns_bind.mp h
    obtain ⟨hlen, hall⟩ := ih hrest
    rw [Drawing.returns_pure] at h
    subst h
    exact ⟨by rw [List.length_cons, hlen], List.forall_mem_cons.mpr ⟨hd _ hfirst, hall⟩⟩

section Derive

variable {reference : Text → Nat → Drawing Derivation}

mutual

private theorem expansionAt_of_deriveWith (hp : s.grammar.SuitsParameters s.parameters)
    (href : ∀ name depth d, (reference name depth).Returns d →
      ∃ b, s.fresh.branch name depth b ∧ ExpansionAt s.fresh b (depth + 1) d) :
    ∀ (n : Node) {depth : Nat} {d : Derivation}, s.grammar.Contains n →
      (deriveWith s.parameters reference depth n).Returns d → ExpansionAt s.fresh n depth d
  | .literal l, depth, d, _, h => by
    rw [deriveWith, Drawing.returns_pure] at h
    exact h ▸ expansionAt_literal rfl depth
  | .sequence cs, depth, d, hn, h => by
    rw [deriveWith] at h
    obtain ⟨ds, hds, h⟩ := Drawing.returns_bind.mp h
    obtain ⟨hnodes, hparts⟩ := expansions_of_deriveAllWith hp href cs (fun m hm => hn.child hm) hds
    rw [Drawing.returns_pure] at h
    exact h ▸ expansionAt_ofParts (.sequence cs depth) hnodes hparts
  | .alternation [], depth, d, _, h => by
    rw [deriveWith, Drawing.returns_pure] at h
    exact h ▸ expansionAt_ofParts (.nothing depth) rfl fun p hp => (List.not_mem_nil hp).elim
  | .alternation (o :: rest), depth, d, hn, h => by
    rw [deriveWith] at h
    obtain ⟨i, -, h⟩ := Drawing.returns_bind.mp h
    obtain ⟨e, he, h⟩ := Drawing.returns_bind.mp h
    obtain ⟨o', ho', hoption⟩ :=
      exists_expansionAt_of_optionWith hp href (o :: rest) (fun m hm => hn.branch hm) he
    rw [Drawing.returns_pure] at h
    exact h ▸ expansionAt_singleton (.option ho' depth) hoption
  | .repetition b x, depth, d, hn, h => by
    rw [deriveWith] at h
    obtain ⟨count, hdrawn, h⟩ := Drawing.returns_bind.mp h
    obtain ⟨ds, hds, h⟩ := Drawing.returns_bind.mp h
    obtain ⟨hlength, hbodies⟩ :=
      returns_several (fun e he => expansionAt_of_deriveWith hp href b hn.body he) hds
    -- The repetition is a part of the grammar, and so has an allowed count.
    have hallowed :=
      Parameters.allows_of_returns_repeatCount (hp b x (hn (Node.mem_walk_self _))) hdrawn
    rw [Drawing.returns_pure] at h
    exact h ▸ expansionAt_copies (hlength ▸ hallowed) hbodies
  | .recursive name, depth, d, _, h => by
    rw [deriveWith] at h
    obtain ⟨e, he, h⟩ := Drawing.returns_bind.mp h
    obtain ⟨b, hb, hbranch⟩ := href _ _ _ he
    rw [Drawing.returns_pure] at h
    exact h ▸ expansionAt_singleton (.branch hb) hbranch

private theorem expansions_of_deriveAllWith (hp : s.grammar.SuitsParameters s.parameters)
    (href : ∀ name depth d, (reference name depth).Returns d →
      ∃ b, s.fresh.branch name depth b ∧ ExpansionAt s.fresh b (depth + 1) d) :
    ∀ (ns : List Node) {depth : Nat} {ds : List Derivation}, (∀ n ∈ ns, s.grammar.Contains n) →
      (deriveAllWith s.parameters reference depth ns).Returns ds →
        ds.map node = ns ∧ ∀ d ∈ ds, Expansion s.fresh d ∧ d.depth = depth
  | [], _, ds, _, h => by
    rw [deriveAllWith, Drawing.returns_pure] at h
    exact h ▸ ⟨rfl, fun d hd => (List.not_mem_nil hd).elim⟩
  | n :: rest, depth, ds, hns, h => by
    rw [deriveAllWith] at h
    obtain ⟨d, hd, h⟩ := Drawing.returns_bind.mp h
    obtain ⟨es, hes, h⟩ := Drawing.returns_bind.mp h
    obtain ⟨hn, hrest⟩ := List.forall_mem_cons.mp hns
    have hfirst := expansionAt_of_deriveWith hp href n hn hd
    obtain ⟨hnodes, hparts⟩ := expansions_of_deriveAllWith hp href rest hrest hes
    rw [Drawing.returns_pure] at h
    exact h ▸ ⟨by rw [List.map_cons, hfirst.node_eq, hnodes],
      List.forall_mem_cons.mpr ⟨⟨hfirst.expansion, hfirst.depth_eq⟩, hparts⟩⟩

private theorem exists_expansionAt_of_optionWith (hp : s.grammar.SuitsParameters s.parameters)
    (href : ∀ name depth d, (reference name depth).Returns d →
      ∃ b, s.fresh.branch name depth b ∧ ExpansionAt s.fresh b (depth + 1) d) :
    ∀ (os : List Node) {depth i : Nat} {d : Derivation}, (∀ o ∈ os, s.grammar.Contains o) →
      (optionWith s.parameters reference depth i os).Returns d →
        ∃ o ∈ os, ExpansionAt s.fresh o depth d
  | [], _, i, d, _, h => by
    cases i <;> simp [optionWith] at h
  | o :: rest, depth, 0, d, hos, h => by
    rw [optionWith] at h
    exact ⟨o, List.mem_cons_self, expansionAt_of_deriveWith hp href o (hos o List.mem_cons_self) h⟩
  | o :: rest, depth, i + 1, d, hos, h => by
    rw [optionWith] at h
    obtain ⟨o', ho', hoption⟩ :=
      exists_expansionAt_of_optionWith hp href rest (List.forall_mem_cons.mp hos).2 h
    exact ⟨o', List.mem_cons_of_mem _ ho', hoption⟩

end

end Derive

/-- A branch that is chosen for a reference is a branch of its rule, and a base branch from the
greatest depth on. -/
theorem base_of_returns_chooseBranch {name : Text} {depth : Nat} {b : Node}
    (h : (s.chooseBranch name depth).Returns b) :
    ∃ rule, s.grammar.rules.get? name = some rule ∧ b ∈ rule.branches ∧
      (s.maxDepth ≤ depth → b.refersTo name = false) := by
  unfold chooseBranch at h
  split at h
  · exact (Drawing.returns_fail.mp h).elim
  · next rule hr =>
    have hbase : (Drawing.oneOf (rule.branches.filter fun b => !b.refersTo name)).Returns b →
        b ∈ rule.branches ∧ (s.maxDepth ≤ depth → b.refersTo name = false) := by
      intro h
      obtain ⟨hmem, hrefers⟩ := List.mem_filter.mp (Drawing.returns_oneOf.mp h)
      exact ⟨hmem, fun _ => by simpa using hrefers⟩
    refine ⟨rule, hr, ?_⟩
    dsimp only at h
    split at h
    · exact hbase h
    · split at h
      · next hdepth =>
        obtain ⟨x, -, h⟩ := Drawing.returns_bind.mp h
        split at h
        · have hmem := List.mem_of_mem_filter (Drawing.returns_oneOf.mp h)
          exact ⟨hmem, fun hle => absurd hdepth (Nat.not_lt.mpr hle)⟩
        · exact hbase h
      · obtain ⟨-, -, h⟩ := Drawing.returns_bind.mp h
        exact hbase h

variable (hp : s.grammar.SuitsParameters s.parameters)

include hp

private theorem expansionAt_of_deriveReference (steps : Nat) {name : Text} {depth : Nat}
    (h : (s.deriveReference steps name depth).Returns d) :
    ∃ b, s.fresh.branch name depth b ∧ ExpansionAt s.fresh b (depth + 1) d := by
  induction steps generalizing name depth d with
  | zero => exact (Drawing.returns_fail.mp h).elim
  | succ steps ih =>
    rw [deriveReference] at h
    obtain ⟨branch, hbranch, h⟩ := Drawing.returns_bind.mp h
    obtain ⟨rule, hrule, hb, hbase⟩ := base_of_returns_chooseBranch hbranch
    have hcontains := (Grammar.contains_rule hrule).branch hb
    exact ⟨branch, ⟨rule, hrule, hb, hbase⟩,
      expansionAt_of_deriveWith hp (fun _ _ _ h => ih h) branch hcontains h⟩

/-- A part of the grammar that is expanded at random is an expansion by random choices. -/
theorem expansionAt_of_derive {n : Node} {depth : Nat} (hn : s.grammar.Contains n)
    (h : (s.derive n depth).Returns d) : ExpansionAt s.fresh n depth d :=
  expansionAt_of_deriveWith hp (fun _ _ _ h => expansionAt_of_deriveReference hp _ h) n hn h

end Sampler

end GrammarInference
