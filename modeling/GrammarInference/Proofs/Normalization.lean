import GrammarInference.Grammar.Render
import GrammarInference.Grammar.Validate
import GrammarInference.Proofs.Compaction
import GrammarInference.Proofs.Positions
import GrammarInference.Proofs.Tables
import Mathlib.Data.List.Chain

/-!
# Compact nodes are normal forms

Making a node compact changes none of what can be asked of it: its default text or the fault
instead of one, the cells that it yields, the rules that it refers to. What it changes is the form:
the sequences in a compact node are in order (`Node.InOrder`), and a node whose sequences are in
order is compact already, so that making it compact a second time changes nothing.

For each of these, joining parts is looked at one part at a time (`Node.consPart`): what holds for
a part in front of others holds for any number of parts, and from there for nodes and lists of
nodes by recursion.

When the rules are made compact as well, a rule may lose its branch: a sequence around an
alternation without options becomes that alternation. Nothing is derived that was not derived
before; a table that keeps its branches derives all of it (`Node.compact_meaning`).
-/

namespace GrammarInference

namespace Node

/-! ### Default texts and faults -/

section Rendering

variable {copier : Copier} {rule : Text → Except RenderFault Text}

/-- Two texts one after the other. The first fault counts. -/
def inTurn (a b : Except RenderFault Text) : Except RenderFault Text := do
  let t ← a
  let u ← b
  return t ++ u

@[simp] theorem inTurn_nil_left (b : Except RenderFault Text) : inTurn (.ok []) b = b := by
  cases b <;> rfl

@[simp] theorem inTurn_nil_right (a : Except RenderFault Text) : inTurn a (.ok []) = a := by
  cases a with
  | error e => rfl
  | ok t => exact congrArg Except.ok (List.append_nil t)

theorem inTurn_assoc (a b c : Except RenderFault Text) :
    inTurn (inTurn a b) c = inTurn a (inTurn b c) := by
  cases a with
  | error e => rfl
  | ok t =>
    cases b with
    | error e => rfl
    | ok u =>
      cases c with
      | error e => rfl
      | ok v => exact congrArg Except.ok (List.append_assoc t u v)

theorem renderAllWith_cons (n : Node) (rest : List Node) :
    renderAllWith copier rule (n :: rest) =
      inTurn (renderWith copier rule n) (renderAllWith copier rule rest) := by
  rw [renderAllWith]
  cases renderWith copier rule n with
  | error e => rfl
  | ok t => cases renderAllWith copier rule rest <;> rfl

theorem renderAllWith_singleton (n : Node) :
    renderAllWith copier rule [n] = renderWith copier rule n := by
  rw [renderAllWith_cons, renderAllWith, inTurn_nil_right]

theorem renderAllWith_append (as bs : List Node) :
    renderAllWith copier rule (as ++ bs) =
      inTurn (renderAllWith copier rule as) (renderAllWith copier rule bs) := by
  induction as with
  | nil => rw [List.nil_append, renderAllWith, inTurn_nil_left]
  | cons a as ih => rw [List.cons_append, renderAllWith_cons, renderAllWith_cons, ih, inTurn_assoc]

theorem renderWith_sequenceOf (ns : List Node) :
    (sequenceOf ns).renderWith copier rule = renderAllWith copier rule ns := by
  unfold sequenceOf
  split
  · rw [renderAllWith_singleton]
  · rw [renderWith]

theorem renderAllWith_children (n : Node) :
    renderAllWith copier rule n.children = n.renderWith copier rule := by
  unfold children
  split
  · rw [renderWith]
  · exact renderAllWith_singleton _

theorem renderAllWith_consPart (part : Node) (rest : List Node) :
    renderAllWith copier rule (consPart part rest) = renderAllWith copier rule (part :: rest) := by
  unfold consPart
  split
  · next a =>
    split
    · next h =>
      rw [renderAllWith_cons, renderWith, List.isEmpty_iff.mp h, inTurn_nil_left]
    · split
      · next b more =>
        simp only [renderAllWith_cons, renderWith, ← inTurn_assoc, Literal.text_append]
        rfl
      · rfl
  · rfl

theorem renderAllWith_joinParts (parts : List Node) :
    renderAllWith copier rule (joinParts parts) = renderAllWith copier rule parts := by
  induction parts with
  | nil => rfl
  | cons part parts ih =>
    rw [joinParts_cons, renderAllWith_consPart, renderAllWith_cons, ih, renderAllWith_cons]

mutual

/-- A compact node has the same default text, or the same fault. -/
theorem renderWith_compact : ∀ n : Node,
    n.compact.renderWith copier rule = n.renderWith copier rule
  | .literal _ => by simp only [compact]
  | .sequence cs => by
    simp only [compact]
    rw [renderWith_sequenceOf, renderAllWith_joinParts, renderAllWith_compactParts cs, renderWith]
  | .alternation [] => by simp only [compact, compactAll]
  | .alternation (o :: _) => by
    simp only [compact, compactAll, renderWith]
    exact renderWith_compact o
  | .repetition b _ => by
    simp only [compact, renderWith]
    rw [renderWith_compact b]
  | .recursive _ => by simp only [compact]

theorem renderAllWith_compactParts : ∀ ns : List Node,
    renderAllWith copier rule (compactParts ns) = renderAllWith copier rule ns
  | [] => by simp only [compactParts]
  | n :: rest => by
    simp only [compactParts]
    rw [renderAllWith_append, renderAllWith_children, renderWith_compact n,
      renderAllWith_compactParts rest, renderAllWith_cons]

end

end Rendering

/-! ### Cells -/

section Cells

variable {r : Rules}

theorem yieldsAll_consPart {part : Node} {rest : List Node} {xs : List Cell} :
    YieldsAll r (consPart part rest) xs ↔ YieldsAll r (part :: rest) xs := by
  unfold consPart
  split
  · next a =>
    split
    · next hnil =>
      have hcells : a.cells = [] := by
        rw [Literal.cells, List.isEmpty_iff.mp hnil, List.zip_nil_left]
      simp [yieldsAll_cons, yields_literal, hcells]
    · split
      · next b more =>
        simp only [yieldsAll_cons, yields_literal, Literal.cells_append]
        constructor
        · rintro ⟨_, zs, rfl, rfl, hzs⟩
          exact ⟨_, _, List.append_assoc _ _ _, rfl, _, zs, rfl, rfl, hzs⟩
        · rintro ⟨_, _, rfl, rfl, _, zs, rfl, rfl, hzs⟩
          exact ⟨_, zs, (List.append_assoc _ _ _).symm, rfl, hzs⟩
      · rfl
  · rfl

theorem yieldsAll_joinParts {parts : List Node} {xs : List Cell} :
    YieldsAll r (joinParts parts) xs ↔ YieldsAll r parts xs := by
  induction parts generalizing xs with
  | nil => rfl
  | cons part parts ih =>
    rw [joinParts_cons]
    simp only [yieldsAll_consPart, yieldsAll_cons, ih]

mutual

/-- A compact node yields the same cells: each class is still at its own position. -/
theorem yields_compact : ∀ (n : Node) (xs : List Cell), Yields r n.compact xs ↔ Yields r n xs
  | .literal _, _ => by simp only [compact]
  | .sequence cs, xs => by
    simp only [compact]
    rw [yields_sequenceOf, yieldsAll_joinParts, yieldsAll_compactParts cs, yields_sequence]
  | .alternation os, xs => by
    simp only [compact]
    rw [yields_alternation, yields_alternation, exists_yields_compactAll os,
      compactAll_eq_map, List.map_eq_nil_iff]
  | .repetition b x, xs => by
    simp only [compact]
    rw [yields_repetition, yields_repetition]
    exact exists_congr fun k =>
      and_congr_right fun _ => yieldsAll_replicate_congr (yields_compact b) k xs
  | .recursive _, _ => by simp only [compact]

theorem exists_yields_compactAll : ∀ (ns : List Node) (xs : List Cell),
    (∃ n ∈ compactAll ns, Yields r n xs) ↔ ∃ n ∈ ns, Yields r n xs
  | [], _ => by simp only [compactAll]
  | n :: rest, xs => by
    simp only [compactAll, List.exists_mem_cons_iff]
    rw [yields_compact n xs, exists_yields_compactAll rest xs]

theorem yieldsAll_compactParts : ∀ (ns : List Node) (xs : List Cell),
    YieldsAll r (compactParts ns) xs ↔ YieldsAll r ns xs
  | [], _ => by simp only [compactParts]
  | n :: rest, xs => by
    simp only [compactParts]
    rw [yieldsAll_append, yieldsAll_cons]
    refine exists_congr fun ys => exists_congr fun zs => and_congr_right fun _ => ?_
    rw [yieldsAll_children, yields_compact n ys, yieldsAll_compactParts rest zs]

end

example (k : CharClass) :
    compact (.sequence [.literal (.plain ['a']), .sequence [.literal (.single 'b' k)]]) =
      .literal ⟨['a', 'b'], [none, some k], .inr rfl⟩ := rfl

end Cells

/-! ### Sequences in order -/

/-- A node is a literal. -/
def IsLiteral (n : Node) : Prop := ∃ l, n = .literal l

/-- Parts side by side that cannot be joined any further. -/
structure Apart (ps : List Node) : Prop where
  /-- No part is a sequence or an empty literal. -/
  flat : ∀ p ∈ ps, p.Flat
  /-- Of two neighbours, one is not a literal. -/
  neighbours : ps.IsChain fun a b => ¬ (a.IsLiteral ∧ b.IsLiteral)

/-- Whether a node is in order, the nodes below it aside: the parts of a sequence cannot be joined,
and there is not just one of them. -/
def OrderHere : Node → Prop
  | .sequence cs => cs.length ≠ 1 ∧ Apart cs
  | _ => True

/-- A node all of whose sequences are in order. -/
def InOrder (n : Node) : Prop := n.Throughout OrderHere

theorem apart_nil : Apart [] := ⟨by simp, .nil⟩

theorem Apart.tail {p : Node} {ps : List Node} (h : Apart (p :: ps)) : Apart ps :=
  ⟨(List.forall_mem_cons.mp h.flat).2, h.neighbours.tail⟩

/-- A part in front of others keeps them apart. -/
theorem Apart.consPart {part : Node} {rest : List Node} (h : Apart rest)
    (hpart : ¬ part.IsSequence) : Apart (consPart part rest) := by
  unfold Node.consPart
  split
  · next a =>
    split
    · exact h
    · next hne =>
      have htext : a.text ≠ [] := by simpa using hne
      split
      · next b more =>
        -- The joined literal stands where the first of the others stood.
        have hjoined : (a.append b).text ≠ [] := by simp [htext]
        refine ⟨List.forall_mem_cons.mpr ⟨flat_literal hjoined, h.tail.flat⟩, ?_⟩
        have hchain := List.isChain_cons.mp h.neighbours
        refine List.isChain_cons.mpr ⟨fun c hc hboth => hchain.1 c hc ?_, hchain.2⟩
        exact ⟨⟨b, rfl⟩, hboth.2⟩
      · next rest' hrest =>
        refine ⟨List.forall_mem_cons.mpr ⟨flat_literal htext, h.flat⟩, ?_⟩
        refine List.isChain_cons.mpr ⟨fun c hc hboth => ?_, h.neighbours⟩
        obtain ⟨b, rfl⟩ := hboth.2
        obtain ⟨more, rfl⟩ := List.head?_eq_some_iff.mp hc
        exact hrest b more rfl
  · next hlit =>
    have hflat : part.Flat := ⟨hpart, fun l hl => absurd hl (hlit l)⟩
    refine ⟨List.forall_mem_cons.mpr ⟨hflat, h.flat⟩, ?_⟩
    refine List.isChain_cons.mpr ⟨fun c _ hboth => ?_, h.neighbours⟩
    obtain ⟨l, hl⟩ := hboth.1
    exact hlit l hl

theorem apart_joinParts {parts : List Node} (h : ∀ p ∈ parts, ¬ p.IsSequence) :
    Apart (joinParts parts) := by
  induction parts with
  | nil => exact apart_nil
  | cons part parts ih =>
    obtain ⟨hpart, hparts⟩ := List.forall_mem_cons.mp h
    exact (ih hparts).consPart hpart

/-- Parts that are apart are not joined. -/
theorem Apart.consPart_eq {part : Node} {rest : List Node} (h : Apart (part :: rest)) :
    Node.consPart part rest = part :: rest := by
  unfold Node.consPart
  split
  · next a =>
    have htext := (h.flat _ (.head _)).text_ne_nil a rfl
    rw [if_neg (by simpa using htext)]
    split
    · next b more =>
      exact absurd ⟨⟨a, rfl⟩, ⟨b, rfl⟩⟩ (List.isChain_cons_cons.mp h.neighbours).1
    · rfl
  · rfl

theorem Apart.joinParts_eq {parts : List Node} (h : Apart parts) : joinParts parts = parts := by
  induction parts with
  | nil => rfl
  | cons part parts ih => rw [joinParts_cons, ih h.tail, h.consPart_eq]

/-- Joining makes no new parts but literals. -/
theorem mem_consPart {m part : Node} {rest : List Node} (h : m ∈ consPart part rest) :
    m ∈ part :: rest ∨ m.IsLiteral := by
  unfold consPart at h
  split at h
  · split at h
    · exact .inl (.tail _ h)
    · split at h
      · rcases List.mem_cons.mp h with rfl | h
        · exact .inr ⟨_, rfl⟩
        · exact .inl (.tail _ (.tail _ h))
      · exact .inl h
  · exact .inl h

theorem mem_joinParts {m : Node} {parts : List Node} (h : m ∈ joinParts parts) :
    m ∈ parts ∨ m.IsLiteral := by
  induction parts with
  | nil => exact .inl h
  | cons part parts ih =>
    rcases mem_consPart h with h | h
    · rcases List.mem_cons.mp h with rfl | h
      · exact .inl (.head _)
      · exact (ih h).imp_left (.tail _)
    · exact .inr h

theorem inOrder_sequence {cs : List Node} :
    (sequence cs).InOrder ↔ (cs.length ≠ 1 ∧ Apart cs) ∧ ∀ c ∈ cs, c.InOrder :=
  throughout_sequence

theorem inOrder_alternation {os : List Node} :
    (alternation os).InOrder ↔ ∀ o ∈ os, o.InOrder :=
  throughout_alternation.trans (and_iff_right trivial)

theorem inOrder_repetition {b : Node} {x : Bounds} : (repetition b x).InOrder ↔ b.InOrder :=
  throughout_repetition.trans (and_iff_right trivial)

theorem IsLiteral.inOrder {n : Node} (h : n.IsLiteral) : n.InOrder := by
  obtain ⟨l, rfl⟩ := h
  exact throughout_literal.mpr trivial

/-- The parts of a node in order are not sequences. -/
theorem InOrder.children_not_sequence {n : Node} (h : n.InOrder) :
    ∀ c ∈ n.children, ¬ c.IsSequence := by
  cases n with
  | sequence cs => exact fun c hc => ((inOrder_sequence.mp h).1.2.flat c hc).not_sequence
  | _ =>
    refine List.forall_mem_singleton.mpr ?_
    rintro ⟨cs, hcs⟩
    cases hcs

/-- Parts that are apart, put into one node. -/
theorem Apart.inOrder_sequenceOf {ns : List Node} (h : Apart ns) (hns : ∀ n ∈ ns, n.InOrder) :
    (sequenceOf ns).InOrder := by
  unfold sequenceOf
  split
  · exact hns _ (.head _)
  · next hne =>
    refine inOrder_sequence.mpr ⟨⟨fun hone => ?_, h⟩, hns⟩
    obtain ⟨n, rfl⟩ := List.length_eq_one_iff.mp hone
    exact hne n rfl

mutual

/-- A compact node is in order. -/
theorem inOrder_compact : ∀ n : Node, n.compact.InOrder
  | .literal l => by
    simp only [compact]
    exact IsLiteral.inOrder ⟨l, rfl⟩
  | .sequence cs => by
    simp only [compact]
    have hparts := inOrder_compactParts cs
    -- What stands in the new sequence is a part of a compact child, or a literal made by joining.
    refine (apart_joinParts fun p hp => (hparts p hp).2).inOrder_sequenceOf fun p hp => ?_
    rcases mem_joinParts hp with hp | hp
    · exact (hparts p hp).1
    · exact hp.inOrder
  | .alternation os => by
    simp only [compact]
    exact inOrder_alternation.mpr (inOrder_compactAll os)
  | .repetition b _ => by
    simp only [compact]
    exact inOrder_repetition.mpr (inOrder_compact b)
  | .recursive _ => by
    simp only [compact]
    exact throughout_recursive.mpr trivial

theorem inOrder_compactAll : ∀ ns : List Node, ∀ n ∈ compactAll ns, n.InOrder
  | [] => by simp [compactAll]
  | n :: rest => by
    simp only [compactAll]
    exact List.forall_mem_cons.mpr ⟨inOrder_compact n, inOrder_compactAll rest⟩

theorem inOrder_compactParts : ∀ ns : List Node, ∀ p ∈ compactParts ns,
    p.InOrder ∧ ¬ p.IsSequence
  | [] => by simp [compactParts]
  | n :: rest => by
    simp only [compactParts]
    have hn := inOrder_compact n
    refine List.forall_mem_append.mpr ⟨fun p hp => ?_, inOrder_compactParts rest⟩
    exact ⟨Throughout.children hn p hp, hn.children_not_sequence p hp⟩

end

mutual

/-- A node in order is compact. -/
theorem InOrder.compact_eq : ∀ {n : Node}, n.InOrder → n.compact = n
  | .literal _, _ => by simp only [compact]
  | .sequence cs, h => by
    obtain ⟨⟨hlen, hapart⟩, hcs⟩ := inOrder_sequence.mp h
    simp only [compact]
    -- No child is a sequence, so that the parts are the children themselves.
    rw [compactParts_eq hcs fun c hc => (hapart.flat c hc).children, hapart.joinParts_eq]
    unfold sequenceOf
    split
    · exact absurd rfl hlen
    · rfl
  | .alternation os, h => by
    simp only [compact]
    rw [compactAll_eq (inOrder_alternation.mp h)]
  | .repetition b _, h => by
    simp only [compact]
    rw [(inOrder_repetition.mp h).compact_eq]
  | .recursive _, _ => by simp only [compact]

theorem compactAll_eq : ∀ {ns : List Node}, (∀ n ∈ ns, n.InOrder) → compactAll ns = ns
  | [], _ => by simp only [compactAll]
  | n :: rest, h => by
    obtain ⟨hn, hrest⟩ := List.forall_mem_cons.mp h
    simp only [compactAll]
    rw [hn.compact_eq, compactAll_eq hrest]

theorem compactParts_eq : ∀ {ns : List Node}, (∀ n ∈ ns, n.InOrder) →
    (∀ n ∈ ns, n.children = [n]) → compactParts ns = ns
  | [], _, _ => by simp only [compactParts]
  | n :: rest, h, hone => by
    obtain ⟨hn, hrest⟩ := List.forall_mem_cons.mp h
    obtain ⟨hchildren, hones⟩ := List.forall_mem_cons.mp hone
    simp only [compactParts]
    rw [hn.compact_eq, hchildren, compactParts_eq hrest hones, List.singleton_append]

end

end Node

/-! ### Compact tables -/

namespace Rules

variable {r : Rules} {name : Text} {rule : Node}

/-- The table with every rule made compact. -/
def compact (r : Rules) : Rules := r.filterMap (fun _ => true) Node.compact

/-- No rule loses its branches when it is made compact. -/
def KeepsBranches (r : Rules) : Prop :=
  ∀ name rule, r.get? name = some rule → rule.compact.branches = [] → rule.branches = []

/-- What the branches of a compact rule yield is yielded by branches of the rule. -/
theorem exists_branch_of_compact {xs : List Cell} (h : ∃ b ∈ rule.compact.branches, Yields r b xs) :
    ∃ b ∈ rule.branches, Yields r b xs := by
  have hcompact : rule.compact.branches ≠ [] := by
    obtain ⟨b, hb, -⟩ := h
    exact List.ne_nil_of_mem hb
  rw [← yields_iff_branches hcompact, Node.yields_compact] at h
  rw [← yields_iff_branches]
  · exact h
  · intro hnil
    -- An alternation without options is compact.
    rw [Node.branches_eq_nil_iff] at hnil
    simp [hnil, Node.compact, Node.compactAll, Node.branches] at hcompact

/-- What the branches of a rule yield is yielded by branches of the compact rule, if there are any
left. -/
theorem exists_branch_compact {xs : List Cell}
    (hkeep : rule.compact.branches = [] → rule.branches = [])
    (h : ∃ b ∈ rule.branches, Yields r b xs) : ∃ b ∈ rule.compact.branches, Yields r b xs := by
  have hrule : rule.branches ≠ [] := by
    obtain ⟨b, hb, -⟩ := h
    exact List.ne_nil_of_mem hb
  rw [← yields_iff_branches hrule, ← Node.yields_compact] at h
  rw [← yields_iff_branches]
  · exact h
  · exact fun hnil => hrule (hkeep hnil)

/-- Compact rules derive nothing new, however many of the rules are kept. -/
theorem replacedBy_of_compact (p : Text → Bool) (r : Rules) :
    ReplacedBy Set.univ (r.filterMap p Node.compact) r := by
  intro name _ rule' hrule'
  rw [get?_filterMap] at hrule'
  split at hrule'
  · obtain ⟨rule, hrule, rfl⟩ := Option.map_eq_some_iff.mp hrule'
    exact ⟨fun _ _ => trivial, rule, hrule, fun _ => exists_branch_of_compact⟩
  · cases hrule'

/-- The compact rules that are kept derive no less, if rules that are kept refer only to such rules
and do not lose their branches. -/
theorem replacedBy_compact {p : Text → Bool} {keep : Set Text} (hp : ∀ name ∈ keep, p name = true)
    (hclosed : ∀ name ∈ keep, ∀ rule, r.get? name = some rule → ∀ k ∈ rule.targets, k ∈ keep)
    (hkeep : ∀ name ∈ keep, ∀ rule, r.get? name = some rule →
      rule.compact.branches = [] → rule.branches = []) :
    ReplacedBy keep r (r.filterMap p Node.compact) := by
  intro name hname rule hrule
  refine ⟨hclosed name hname rule hrule, rule.compact, ?_,
    fun _ => exists_branch_compact (hkeep name hname rule hrule)⟩
  rw [get?_filterMap, if_pos (hp name hname), hrule, Option.map_some]

end Rules

namespace Node

/-- **Compaction.** A compact node has the same default text or fault, yields the same cells and so
derives the same texts, refers to the same rules, is not changed by compaction, and all sequences in
it are in order. Under the compact rules it derives nothing new, and no less if no rule loses its
branches. -/
theorem compact_meaning (r : Rules) (n : Node) :
    (∀ copier, r.renderBy copier n.compact = r.renderBy copier n) ∧
      (∀ xs, Yields r n.compact xs ↔ Yields r n xs) ∧
      (∀ t, Derives r n.compact t ↔ Derives r n t) ∧
      n.compact.targets = n.targets ∧
      n.compact.compact = n.compact ∧
      n.compact.InOrder ∧
      (∀ t, Derives r.compact n.compact t → Derives r n t) ∧
      (r.KeepsBranches → ∀ t, Derives r n t → Derives r.compact n.compact t) := by
  have hsame : ∀ t, Derives r n.compact t ↔ Derives r n t := fun t =>
    ⟨Derives.of_yields fun xs => (yields_compact n xs).mp,
      Derives.of_yields fun xs => (yields_compact n xs).mpr⟩
  refine ⟨fun _ => renderWith_compact n, yields_compact n, hsame, targets_compact n,
    (inOrder_compact n).compact_eq, inOrder_compact n, fun t h => ?_, fun hkeep t h => ?_⟩
  -- Under either table the compact node is looked at; the rules are replaced for it as a whole.
  · refine (hsame t).mp (h.of_yields fun xs hxs => ?_)
    exact hxs.of_replacedBy (r.replacedBy_of_compact _) fun _ _ => trivial
  · refine ((hsame t).mpr h).of_yields fun xs hxs => ?_
    have hreplaced : Rules.ReplacedBy Set.univ r r.compact :=
      Rules.replacedBy_compact (fun _ _ => rfl) (fun _ _ _ _ _ _ => trivial)
        fun name _ rule => hkeep name rule
    exact hxs.of_replacedBy hreplaced fun _ _ => trivial

/-- A rule of two literals, one inside a further sequence. -/
def nestedPair : Rules :=
  ⟨[("r0".toList, .sequence [.literal (.plain ['a']), .sequence [.literal (.plain ['b'])]])],
    by simp⟩

/-- A rule that keeps its branch derives what it derived before. -/
theorem compact_meaning_nestedPair :
    nestedPair.KeepsBranches ∧
      Derives nestedPair.compact (recursive "r0".toList).compact ['a', 'b'] := by
  have hkeep : nestedPair.KeepsBranches := by
    intro name rule hrule hnil
    have hmem := Rules.mem_entries_of_get? hrule
    simp only [nestedPair, List.mem_singleton, Prod.mk.injEq] at hmem
    obtain ⟨-, rfl⟩ := hmem
    cases hnil
  obtain ⟨-, -, -, -, -, -, -, hderives⟩ := compact_meaning nestedPair (recursive "r0".toList)
  refine ⟨hkeep, hderives hkeep _ (.recursive rfl (.head _) (.sequence ?_))⟩
  have hb : Derives nestedPair (.sequence [.literal (.plain ['b'])]) ['b'] := by
    refine derives_sequence.mpr (derivesAll_singleton.mpr (.literal ?_))
    exact .cons (.inl rfl) .nil
  exact .cons (t := ['a']) (.literal (.cons (.inl rfl) .nil)) (derivesAll_singleton.mpr hb)

/-- A rule that is a sequence around an alternation without options. -/
def wrappedNothing : Rules := ⟨[("r0".toList, .sequence [.alternation []])], by simp⟩

/-- **A branch is lost.** The sequence is the branch of its rule and derives the empty text. The
compact rule is the alternation without options, which has no branch. -/
theorem compact_loses_branch :
    Grammar.validate ⟨recursive "r0".toList, wrappedNothing⟩ = .ok () ∧
      Derives wrappedNothing (recursive "r0".toList) [] ∧
      ¬ Derives wrappedNothing.compact (recursive "r0".toList).compact [] ∧
      Grammar.validate ⟨(recursive "r0".toList).compact, wrappedNothing.compact⟩ =
        .error (.noBaseCase "r0".toList) := by
  refine ⟨rfl, ?_, fun h => ?_, rfl⟩
  · exact .recursive rfl (.head _) (derives_sequence.mpr (derivesAll_singleton.mpr .nothing))
  · simp only [compact] at h
    obtain ⟨rule, hrule, b, hb, -⟩ := derives_recursive.mp h
    obtain rfl : Node.alternation [] = rule := Option.some.inj hrule
    cases hb

end Node

end GrammarInference
