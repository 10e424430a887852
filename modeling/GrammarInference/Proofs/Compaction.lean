import GrammarInference.Grammar.Compact
import GrammarInference.Grammar.Format
import GrammarInference.Proofs.Language
import GrammarInference.Proofs.MergeShape
import GrammarInference.Proofs.Texts

/-!
# Compact nodes mean the same

Making a node compact changes neither its text nor the rules it refers to, nor what it derives, and
a condition on single nodes that joining parts cannot break holds throughout the compact node where
it held before (`Node.Joins.compact`); one such condition is that a node can be printed. Each of
these is shown for joining the parts of a sequence first, and then for nodes and lists of nodes by
recursion.

A tidy node that is not an alternation does not become one, so that the branches of a compact node
are the compact branches (`Node.Tidy.branches_compact`).
-/

namespace GrammarInference

/-! ### Literals side by side -/

namespace Literal

theorem positions_of_ne_nil {l : Literal} (h : l.classes ≠ []) : l.positions = l.classes :=
  if_neg h

/-- The positions of two literals side by side. -/
theorem positions_append (a b : Literal) :
    (a.append b).positions = a.positions ++ b.positions := by
  unfold append
  split
  · next h =>
    simp only [positions, h.1, h.2, if_true, List.length_append, List.replicate_append_replicate]
  · next h =>
    by_cases hnil : a.positions ++ b.positions = []
    · have ha : a.text.length = 0 := by
        rw [← length_positions, (List.append_eq_nil_iff.mp hnil).1, List.length_nil]
      have hb : b.text.length = 0 := by
        rw [← length_positions, (List.append_eq_nil_iff.mp hnil).2, List.length_nil]
      simp [positions, List.length_eq_zero_iff.mp ha, List.length_eq_zero_iff.mp hb]
    · rw [positions_of_ne_nil hnil]

theorem cells_append (a b : Literal) : (a.append b).cells = a.cells ++ b.cells := by
  unfold cells
  rw [positions_append, text_append, List.zip_append (by rw [length_positions])]

/-- Side by side, literals spell what they spell one after the other. -/
theorem Spells.append {a b : Literal} {t u : Text} (ht : a.Spells t) (hu : b.Spells u) :
    (a.append b).Spells (t ++ u) := by
  unfold Spells
  rw [cells_append]
  exact List.rel_append ht hu

theorem Spells.eq_nil {a : Literal} {t : Text} (h : a.text = []) (ht : a.Spells t) : t = [] := by
  unfold Spells cells at ht
  rw [h, List.zip_nil_left] at ht
  exact List.forall₂_nil_left_iff.mp ht

/-- A single character can be printed if the members of its class are characters. -/
theorem isPrintable_single (x : Char) {k : CharClass} (hk : Symbol.AllChars k.characters) :
    (single x k).isPrintable = true := by
  simp only [isPrintable, single, List.all_cons, Option.all_some, List.all_nil,
    Bool.and_true, Bool.or_eq_true, List.all_eq_true]
  refine .inr fun s hs => ?_
  obtain ⟨c, rfl⟩ := hk s hs
  rfl

theorem isPrintable_append {a b : Literal} (ha : a.isPrintable = true)
    (hb : b.isPrintable = true) : (a.append b).isPrintable = true := by
  have positions : ∀ {l : Literal}, l.isPrintable = true →
      l.positions.all (fun k => k.all fun k => k.size ≤ 1 || k.characters.all fun s =>
        s.char?.isSome) = true := by
    intro l hl
    unfold Literal.positions
    split
    · simp
    · exact hl
  unfold append
  split
  · rfl
  · simp only [isPrintable, List.all_append, Bool.and_eq_true]
    exact ⟨positions ha, positions hb⟩

end Literal

namespace Node

/-! ### Texts -/

section Texts

variable (rule : Text → Text)

theorem textsWith_append (as bs : List Node) :
    textsWith rule (as ++ bs) = textsWith rule as ++ textsWith rule bs := by
  induction as with
  | nil => rfl
  | cons a as ih => simp only [List.cons_append, textsWith, ih, List.append_assoc]

theorem textsWith_consPart (part : Node) (rest : List Node) :
    textsWith rule (consPart part rest) = part.textWith rule ++ textsWith rule rest := by
  unfold consPart
  split
  · next a =>
    split
    · next h => simp [textWith, List.isEmpty_iff.mp h]
    · split
      · next b more => simp only [textsWith, textWith, Literal.text_append, List.append_assoc]
      · rfl
  · rfl

theorem textsWith_joinParts (parts : List Node) :
    textsWith rule (joinParts parts) = textsWith rule parts := by
  induction parts with
  | nil => rfl
  | cons part parts ih => rw [joinParts_cons, textsWith_consPart, ih, textsWith]

theorem textWith_sequenceOf (ns : List Node) :
    (sequenceOf ns).textWith rule = textsWith rule ns := by
  unfold sequenceOf
  split
  · simp only [textsWith, List.append_nil]
  · rw [textWith]

theorem textsWith_children (n : Node) : textsWith rule n.children = n.textWith rule := by
  cases n <;> simp only [children, textsWith, textWith, List.append_nil]

mutual

/-- A compact node has the same text. -/
theorem textWith_compact : ∀ n : Node, n.compact.textWith rule = n.textWith rule
  | .literal _ => by simp only [compact]
  | .sequence cs => by
    simp only [compact]
    rw [textWith_sequenceOf, textsWith_joinParts, textsWith_compactParts cs, textWith]
  | .alternation [] => by simp only [compact, compactAll]
  | .alternation (o :: _) => by
    simp only [compact, compactAll, textWith]
    exact textWith_compact o
  | .repetition b _ => by
    simp only [compact, textWith]
    rw [textWith_compact b]
  | .recursive _ => by simp only [compact]

theorem textsWith_compactParts : ∀ ns : List Node,
    textsWith rule (compactParts ns) = textsWith rule ns
  | [] => by simp only [compactParts]
  | n :: rest => by
    simp only [compactParts]
    rw [textsWith_append, textsWith_children, textWith_compact n, textsWith_compactParts rest,
      textsWith]

end

end Texts

/-! ### References -/

theorem targets_consPart (part : Node) (rest : List Node) :
    (consPart part rest).flatMap targets = part.targets ++ rest.flatMap targets := by
  unfold consPart
  split
  · split
    · simp
    · split <;> simp
  · simp

theorem targets_joinParts (parts : List Node) :
    (joinParts parts).flatMap targets = parts.flatMap targets := by
  induction parts with
  | nil => rfl
  | cons part parts ih => rw [joinParts_cons, targets_consPart, ih, List.flatMap_cons]

theorem targets_children (n : Node) : n.children.flatMap targets = n.targets := by
  cases n <;> simp [children]

mutual

/-- A compact node refers to the same rules. -/
theorem targets_compact : ∀ n : Node, n.compact.targets = n.targets
  | .literal _ => by simp only [compact]
  | .sequence cs => by
    simp only [compact]
    rw [targets_sequenceOf, targets_joinParts, targets_compactParts cs, targets_sequence]
  | .alternation os => by
    simp only [compact]
    rw [targets_alternation, targets_compactAll os, targets_alternation]
  | .repetition b _ => by
    simp only [compact]
    rw [targets_repetition, targets_compact b, targets_repetition]
  | .recursive _ => by simp only [compact]

theorem targets_compactAll : ∀ ns : List Node,
    (compactAll ns).flatMap targets = ns.flatMap targets
  | [] => by simp only [compactAll]
  | n :: rest => by
    simp only [compactAll, List.flatMap_cons]
    rw [targets_compact n, targets_compactAll rest]

theorem targets_compactParts : ∀ ns : List Node,
    (compactParts ns).flatMap targets = ns.flatMap targets
  | [] => by simp only [compactParts]
  | n :: rest => by
    simp only [compactParts, List.flatMap_append, List.flatMap_cons]
    rw [targets_children, targets_compact n, targets_compactParts rest]

end

/-! ### Derivations -/

theorem compactAll_eq_map (ns : List Node) : compactAll ns = ns.map compact := by
  induction ns with
  | nil => simp only [compactAll, List.map_nil]
  | cons n rest ih => simp only [compactAll, ih, List.map_cons]

section Derivations

variable {r : Rules}

theorem derivesAll_consPart {part : Node} {rest : List Node} {t : Text}
    (h : DerivesAll r (part :: rest) t) : DerivesAll r (consPart part rest) t := by
  obtain ⟨u, v, rfl, hu, hv⟩ := derivesAll_cons.mp h
  unfold consPart
  split
  · next a =>
    have hu := derives_literal.mp hu
    split
    · next hnil =>
      rw [hu.eq_nil (List.isEmpty_iff.mp hnil), List.nil_append]
      exact hv
    · split
      · next b more =>
        obtain ⟨v, w, rfl, hv, hw⟩ := derivesAll_cons.mp hv
        rw [← List.append_assoc]
        exact .cons (.literal (hu.append (derives_literal.mp hv))) hw
      · exact .cons (.literal hu) hv
  · exact .cons hu hv

theorem derivesAll_joinParts {parts : List Node} {t : Text} (h : DerivesAll r parts t) :
    DerivesAll r (joinParts parts) t := by
  induction parts generalizing t with
  | nil => exact h
  | cons part parts ih =>
    obtain ⟨u, v, rfl, hu, hv⟩ := derivesAll_cons.mp h
    exact derivesAll_consPart (.cons hu (ih hv))

theorem derivesAll_compactParts {ns : List Node} {t : Text}
    (h : DerivesAll r (ns.map compact) t) : DerivesAll r (compactParts ns) t := by
  induction ns generalizing t with
  | nil =>
    simp only [compactParts]
    exact h
  | cons n rest ih =>
    obtain ⟨u, v, rfl, hu, hv⟩ := derivesAll_cons.mp h
    simp only [compactParts]
    exact (derivesAll_children.mpr hu).append (ih hv)

variable {r' : Rules} {keep : List Text}

mutual

/-- A compact node derives no less, under a table whose rules are those of the first one, compact,
as far as they are referred to. -/
theorem derives_compact
    (hr : ∀ name ∈ keep, ∀ rule, r.get? name = some rule → r'.get? name = some rule.compact ∧
      rule.compact.branches = rule.branches.map compact ∧
      ∀ b ∈ rule.branches, b.targets ⊆ keep) :
    ∀ {n : Node} {t : Text}, Derives r n t → n.targets ⊆ keep → Derives r' n.compact t
  | _, _, .literal h, _ => by
    simp only [compact]
    exact .literal h
  | _, _, .sequence h, hn => by
    simp only [compact]
    rw [derives_sequenceOf]
    refine derivesAll_joinParts (derivesAll_compactParts (derivesAll_compact hr h ?_))
    intro c hc name hname
    exact hn (by rw [targets_sequence]; exact List.mem_flatMap.mpr ⟨c, hc, hname⟩)
  | _, _, .nothing, _ => by
    simp only [compact, compactAll]
    exact .nothing
  | _, _, .alternation (o := o) ho h, hn => by
    simp only [compact, compactAll_eq_map]
    refine .alternation (List.mem_map_of_mem ho) (derives_compact hr h ?_)
    intro name hname
    exact hn (by rw [targets_alternation]; exact List.mem_flatMap.mpr ⟨o, ho, hname⟩)
  | _, _, .repetition (n := k) hk h, hn => by
    simp only [compact]
    refine .repetition hk ?_
    rw [← List.map_replicate]
    refine derivesAll_compact hr h fun c hc => ?_
    rw [(List.mem_replicate.mp hc).2]
    rwa [targets_repetition] at hn
  -- The table has the compact rule, and with it the compact branch.
  | _, _, .recursive hget hb h, hn => by
    simp only [compact]
    obtain ⟨hget', hbranches, hsub⟩ := hr _ (hn (by simp)) _ hget
    refine .recursive hget' ?_ (derives_compact hr h (hsub _ hb))
    rw [hbranches]
    exact List.mem_map_of_mem hb

theorem derivesAll_compact
    (hr : ∀ name ∈ keep, ∀ rule, r.get? name = some rule → r'.get? name = some rule.compact ∧
      rule.compact.branches = rule.branches.map compact ∧
      ∀ b ∈ rule.branches, b.targets ⊆ keep) :
    ∀ {ns : List Node} {t : Text}, DerivesAll r ns t → (∀ n ∈ ns, n.targets ⊆ keep) →
      DerivesAll r' (ns.map compact) t
  | _, _, .nil, _ => .nil
  | _, _, .cons h hs, hns =>
    .cons (derives_compact hr h (hns _ (.head _)))
      (derivesAll_compact hr hs fun n hn => hns n (.tail _ hn))

end

end Derivations

/-! ### Conditions on every node -/

/-- A condition on single nodes that joining parts cannot break: every sequence and every
alternation meets it, a repetition meets it by its bounds, and literals side by side meet it where
both do. -/
structure Joins (P : Node → Prop) : Prop where
  /-- Sequences meet the condition. -/
  sequence : ∀ cs, P (sequence cs)
  /-- Alternations meet the condition. -/
  alternation : ∀ os, P (alternation os)
  /-- The body of a repetition does not matter. -/
  repetition : ∀ {b x}, P (repetition b x) → ∀ b', P (repetition b' x)
  /-- Literals may be joined. -/
  append : ∀ {a b : Literal}, P (literal a) → P (literal b) → P (literal (a.append b))

section Throughout

variable {P : Node → Prop}

namespace Joins

theorem throughout_sequence (hP : Joins P) {cs : List Node} :
    (Node.sequence cs).Throughout P ↔ ∀ c ∈ cs, c.Throughout P :=
  Node.throughout_sequence.trans (and_iff_right (hP.sequence cs))

theorem throughout_alternation (hP : Joins P) {os : List Node} :
    (Node.alternation os).Throughout P ↔ ∀ o ∈ os, o.Throughout P :=
  Node.throughout_alternation.trans (and_iff_right (hP.alternation os))

theorem throughout_sequenceOf (hP : Joins P) {ns : List Node} (h : ∀ n ∈ ns, n.Throughout P) :
    (sequenceOf ns).Throughout P := by
  unfold sequenceOf
  split
  · exact h _ (.head _)
  · exact hP.throughout_sequence.mpr h

theorem throughout_consPart (hP : Joins P) {part : Node} {rest : List Node}
    (hpart : part.Throughout P) (hrest : ∀ n ∈ rest, n.Throughout P) :
    ∀ n ∈ consPart part rest, n.Throughout P := by
  unfold consPart
  split
  · split
    · exact hrest
    · split
      · next b more =>
        obtain ⟨hb, hmore⟩ := List.forall_mem_cons.mp hrest
        have hjoined := hP.append (throughout_literal.mp hpart) (throughout_literal.mp hb)
        exact List.forall_mem_cons.mpr ⟨throughout_literal.mpr hjoined, hmore⟩
      · exact List.forall_mem_cons.mpr ⟨hpart, hrest⟩
  · exact List.forall_mem_cons.mpr ⟨hpart, hrest⟩

theorem throughout_joinParts (hP : Joins P) {parts : List Node} (h : ∀ n ∈ parts, n.Throughout P) :
    ∀ n ∈ joinParts parts, n.Throughout P := by
  induction parts with
  | nil => exact h
  | cons part parts ih =>
    obtain ⟨hpart, hparts⟩ := List.forall_mem_cons.mp h
    exact hP.throughout_consPart hpart (ih hparts)

mutual

/-- A condition that joining cannot break holds throughout a compact node where it holds throughout
the node. -/
theorem compact (hP : Joins P) : ∀ {n : Node}, n.Throughout P → n.compact.Throughout P
  | .literal _, h => by
    simp only [Node.compact]
    exact h
  | .sequence cs, h => by
    simp only [Node.compact]
    exact hP.throughout_sequenceOf
      (hP.throughout_joinParts (hP.compactParts (hP.throughout_sequence.mp h)))
  | .alternation os, h => by
    simp only [Node.compact]
    exact hP.throughout_alternation.mpr (hP.compactAll (hP.throughout_alternation.mp h))
  | .repetition b x, h => by
    simp only [Node.compact]
    obtain ⟨hx, hb⟩ := throughout_repetition.mp h
    exact throughout_repetition.mpr ⟨hP.repetition hx _, hP.compact hb⟩
  | .recursive _, h => by
    simp only [Node.compact]
    exact h

theorem compactAll (hP : Joins P) : ∀ {ns : List Node}, (∀ n ∈ ns, n.Throughout P) →
    ∀ n ∈ Node.compactAll ns, n.Throughout P
  | [], h => by
    simp only [Node.compactAll]
    exact h
  | n :: rest, h => by
    simp only [Node.compactAll]
    obtain ⟨hn, hrest⟩ := List.forall_mem_cons.mp h
    exact List.forall_mem_cons.mpr ⟨hP.compact hn, hP.compactAll hrest⟩

theorem compactParts (hP : Joins P) : ∀ {ns : List Node}, (∀ n ∈ ns, n.Throughout P) →
    ∀ n ∈ Node.compactParts ns, n.Throughout P
  | [], h => by
    simp only [Node.compactParts]
    exact h
  | n :: rest, h => by
    simp only [Node.compactParts]
    obtain ⟨hn, hrest⟩ := List.forall_mem_cons.mp h
    refine List.forall_mem_append.mpr ⟨?_, hP.compactParts hrest⟩
    exact (hP.compact hn).children

end

end Joins

end Throughout

/-! ### Printed forms -/

/-- Whether a node can be printed, the nodes below it aside. -/
def PrintableHere : Node → Prop
  | .literal l => l.isPrintable = true
  | _ => True

theorem isPrintable_iff {n : Node} : n.isPrintable = true ↔ n.Throughout PrintableHere := by
  rw [isPrintable, List.all_eq_true]
  refine forall₂_congr fun m _ => ?_
  cases m <;> simp [PrintableHere]

theorem joins_printableHere : Joins PrintableHere where
  sequence _ := trivial
  alternation _ := trivial
  repetition _ _ := trivial
  append := Literal.isPrintable_append

theorem isPrintable_alternation {os : List Node} :
    (alternation os).isPrintable = true ↔ ∀ o ∈ os, o.isPrintable = true := by
  simp only [isPrintable_iff]
  exact joins_printableHere.throughout_alternation

/-- A node that can be printed can be printed when it is compact. -/
theorem isPrintable_compact {n : Node} (h : n.isPrintable = true) : n.compact.isPrintable = true :=
  isPrintable_iff.mpr (joins_printableHere.compact (isPrintable_iff.mp h))

/-- Mergeable nodes can be printed. -/
theorem Mergeable.isPrintable {names : List Text} {n : Node} (h : n.Mergeable names) :
    n.isPrintable = true := by
  refine isPrintable_iff.mpr fun m hm => ?_
  have hm := h m hm
  cases m with
  | literal l =>
    obtain ⟨x, k, rfl, hk, _⟩ := hm
    exact Literal.isPrintable_single x hk.characters
  | _ => trivial

/-! ### Branches -/

/-- A part as it stands in a compact sequence: not a sequence itself, and not an empty literal. -/
structure Flat (n : Node) : Prop where
  /-- The part is not a sequence. -/
  not_sequence : ¬ n.IsSequence
  /-- The part is not an empty literal. -/
  text_ne_nil : ∀ l, n = literal l → l.text ≠ []

theorem flat_literal {l : Literal} (h : l.text ≠ []) : (literal l).Flat :=
  ⟨fun ⟨_, hcs⟩ => (by cases hcs), fun _ hl => by cases hl; exact h⟩

theorem flat_alternation (os : List Node) : (alternation os).Flat :=
  ⟨fun ⟨_, hcs⟩ => (by cases hcs), fun _ hl => by cases hl⟩

theorem flat_repetition (b : Node) (x : Bounds) : (repetition b x).Flat :=
  ⟨fun ⟨_, hcs⟩ => (by cases hcs), fun _ hl => by cases hl⟩

theorem flat_recursive (name : Text) : (recursive name).Flat :=
  ⟨fun ⟨_, hcs⟩ => (by cases hcs), fun _ hl => by cases hl⟩

theorem Flat.children {n : Node} (h : n.Flat) : n.children = [n] := by
  cases n with
  | sequence cs => exact absurd ⟨cs, rfl⟩ h.not_sequence
  | _ => rfl

theorem children_sequenceOf {ns : List Node} (h : ∀ n ∈ ns, n.Flat) :
    (sequenceOf ns).children = ns := by
  unfold sequenceOf
  split
  · exact (h _ (.head _)).children
  · rfl

/-- A flat part is not lost when it is put in front of others. -/
theorem flat_consPart {part : Node} {rest : List Node} (hp : part.Flat)
    (hrest : ∀ n ∈ rest, n.Flat) :
    (∀ n ∈ consPart part rest, n.Flat) ∧ consPart part rest ≠ [] ∧
      ∀ os, consPart part rest = [alternation os] → part = alternation os ∧ rest = [] := by
  have kept : (∀ n ∈ part :: rest, n.Flat) := List.forall_mem_cons.mpr ⟨hp, hrest⟩
  unfold consPart
  split
  · next a =>
    rw [if_neg (by simpa using hp.text_ne_nil a rfl)]
    split
    · next b more =>
      obtain ⟨_, hmore⟩ := List.forall_mem_cons.mp hrest
      refine ⟨List.forall_mem_cons.mpr ⟨flat_literal ?_, hmore⟩, by simp,
        fun os hos => by simp at hos⟩
      rw [Literal.text_append]
      exact fun hnil => hp.text_ne_nil a rfl (List.append_eq_nil_iff.mp hnil).1
    · exact ⟨kept, by simp, fun os hos => by simp at hos⟩
  · exact ⟨kept, by simp, fun os hos => List.cons.inj hos⟩

theorem flat_joinParts {parts : List Node} (h : ∀ n ∈ parts, n.Flat) :
    (∀ n ∈ joinParts parts, n.Flat) ∧ (joinParts parts = [] → parts = []) ∧
      ∀ os, joinParts parts = [alternation os] → parts = [alternation os] := by
  induction parts with
  | nil => exact ⟨h, id, fun os hos => hos⟩
  | cons part parts ih =>
    obtain ⟨hp, hparts⟩ := List.forall_mem_cons.mp h
    obtain ⟨hflat, hnil, _⟩ := ih hparts
    obtain ⟨hflat', hne, halt⟩ := flat_consPart hp hflat
    refine ⟨hflat', fun hnil' => absurd hnil' hne, fun os hos => ?_⟩
    obtain ⟨rfl, hrest⟩ := halt os hos
    rw [hnil hrest]

variable {done : List Text}

mutual

/-- The parts of a compact tidy node are flat, and there are some unless the node is empty. -/
theorem Tidy.flat_compact : ∀ {n : Node}, n.Tidy done →
    (∀ p ∈ n.compact.children, p.Flat) ∧ (n ≠ empty → n.compact.children ≠ [])
  | .literal l, h => by
    obtain ⟨c, k, rfl, _⟩ := tidy_literal.mp h
    simp only [compact, children, List.forall_mem_singleton]
    exact ⟨flat_literal (by simp [Literal.single]), fun _ => by simp⟩
  | .sequence cs, h => by
    obtain ⟨hflat, hlen⟩ := flat_compactParts (tidy_sequence.mp h).2
    obtain ⟨hflat', hnil, _⟩ := flat_joinParts hflat
    simp only [compact]
    rw [children_sequenceOf hflat']
    refine ⟨hflat', fun hne hjoin => hne ?_⟩
    rw [hnil hjoin, List.length_nil] at hlen
    rw [List.length_eq_zero_iff.mp (Nat.le_zero.mp hlen), empty]
  | .alternation os, _ => by
    simp only [compact, children, List.forall_mem_singleton]
    exact ⟨flat_alternation _, fun _ => by simp⟩
  | .repetition b x, _ => by
    simp only [compact, children, List.forall_mem_singleton]
    exact ⟨flat_repetition _ _, fun _ => by simp⟩
  | .recursive name, _ => by
    simp only [compact, children, List.forall_mem_singleton]
    exact ⟨flat_recursive _, fun _ => by simp⟩

theorem flat_compactParts : ∀ {cs : List Node}, (∀ c ∈ cs, c.Part done) →
    (∀ p ∈ compactParts cs, p.Flat) ∧ cs.length ≤ (compactParts cs).length
  | [], _ => by simp [compactParts]
  | c :: rest, h => by
    obtain ⟨hc, hrest⟩ := List.forall_mem_cons.mp h
    obtain ⟨hflat, hne⟩ := hc.tidy.flat_compact
    obtain ⟨hflat', hlen⟩ := flat_compactParts hrest
    simp only [compactParts]
    refine ⟨List.forall_mem_append.mpr ⟨hflat, hflat'⟩, ?_⟩
    have := List.length_pos_iff.mpr (hne hc.ne_empty)
    rw [List.length_append, List.length_cons]
    omega

end

/-- A tidy sequence does not become an alternation when it is made compact. -/
theorem Tidy.not_alternation_compact {n : Node} (h : n.Tidy done) (hna : ¬ n.IsAlternation) :
    ¬ n.compact.IsAlternation := by
  cases n with
  | sequence cs =>
    intro halt
    simp only [compact] at halt
    obtain ⟨hlen, hparts⟩ := tidy_sequence.mp h
    obtain ⟨hflat, hle⟩ := flat_compactParts hparts
    obtain ⟨os, hos⟩ := eq_of_isAlternation_sequenceOf halt
    have hone := (flat_joinParts hflat).2.2 os hos
    rw [hone, List.length_singleton] at hle
    have hzero : cs = [] := List.length_eq_zero_iff.mp (by omega)
    rw [hzero] at hone
    simp [compactParts] at hone
  | alternation os => exact absurd ⟨os, rfl⟩ hna
  | _ =>
    rintro ⟨os, hos⟩
    simp only [compact] at hos
    cases hos

/-- **Branches.** The branches of a compact node are the compact branches of the node. -/
theorem Tidy.branches_compact {n : Node} (h : n.Tidy done) :
    n.compact.branches = n.branches.map compact := by
  by_cases halt : n.IsAlternation
  · obtain ⟨os, rfl⟩ := halt
    simp only [compact, compactAll_eq_map]
    rfl
  · rw [branches_of_not_alternation halt,
      branches_of_not_alternation (h.not_alternation_compact halt), List.map_singleton]

end Node

end GrammarInference
