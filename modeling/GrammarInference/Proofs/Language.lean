import GrammarInference.Grammar.Rules
import Mathlib.Data.List.Forall2

/-!
# The language of a node

`Derives r n t` says that a node derives a text under a rule table, with every choice left open:
each character of a literal may be exchanged for a member of its class, an alternation takes any
option, a repetition any count of its range, and a reference any branch of its rule. An
alternation without options derives the empty text alone.

The relation is given by two inductive families, one for a node and one for nodes side by side, so
that the copies of a repetition and the children of a sequence are treated alike. Each family is
inverted once, by an equivalence per constructor; later proofs cite these equivalences.
-/

namespace GrammarInference

/-- A text that a literal may stand for: as long as the literal, and at every position the
literal's own character or a member of the class there. -/
def Literal.Spells (l : Literal) (t : Text) : Prop :=
  List.Forall₂ (fun cell d => d = cell.1 ∨ ∃ k, cell.2 = some k ∧ Symbol.ofChar d ∈ k.characters)
    l.cells t

mutual

/-- A node derives a text under a rule table. -/
inductive Derives (r : Rules) : Node → Text → Prop
  /-- A literal derives the texts it spells. -/
  | literal {l : Literal} {t : Text} (h : l.Spells t) : Derives r (.literal l) t
  /-- A sequence derives what its children derive side by side. -/
  | sequence {cs : List Node} {t : Text} (h : DerivesAll r cs t) : Derives r (.sequence cs) t
  /-- An alternation without options derives the empty text. -/
  | nothing : Derives r (.alternation []) []
  /-- An alternation derives what one of its options derives. -/
  | alternation {os : List Node} {o : Node} {t : Text} (ho : o ∈ os) (h : Derives r o t) :
    Derives r (.alternation os) t
  /-- A repetition derives what copies of its body derive side by side. -/
  | repetition {b : Node} {x : Bounds} {n : Nat} {t : Text} (hn : x.has n = true)
    (h : DerivesAll r (List.replicate n b) t) : Derives r (.repetition b x) t
  /-- A reference derives what a branch of its rule derives. -/
  | recursive {name : Text} {rule b : Node} {t : Text} (hr : r.get? name = some rule)
    (hb : b ∈ rule.branches) (h : Derives r b t) : Derives r (.recursive name) t

/-- Nodes side by side derive a text under a rule table. -/
inductive DerivesAll (r : Rules) : List Node → Text → Prop
  /-- No nodes derive the empty text. -/
  | nil : DerivesAll r [] []
  /-- The first node derives a beginning, the others the rest. -/
  | cons {n : Node} {ns : List Node} {t u : Text} (h : Derives r n t) (hs : DerivesAll r ns u) :
    DerivesAll r (n :: ns) (t ++ u)

end

variable {r : Rules}

/-! ### Inversion, one equivalence per form -/

theorem derives_literal {l : Literal} {t : Text} : Derives r (.literal l) t ↔ l.Spells t :=
  ⟨fun h => by cases h; assumption, .literal⟩

theorem derives_sequence {cs : List Node} {t : Text} :
    Derives r (.sequence cs) t ↔ DerivesAll r cs t :=
  ⟨fun h => by cases h; assumption, .sequence⟩

theorem derives_alternation {os : List Node} {t : Text} :
    Derives r (.alternation os) t ↔ (os = [] ∧ t = []) ∨ ∃ o ∈ os, Derives r o t := by
  constructor
  · intro h
    cases h with
    | nothing => exact .inl ⟨rfl, rfl⟩
    | alternation ho h => exact .inr ⟨_, ho, h⟩
  · rintro (⟨rfl, rfl⟩ | ⟨o, ho, h⟩)
    · exact .nothing
    · exact .alternation ho h

theorem derives_repetition {b : Node} {x : Bounds} {t : Text} :
    Derives r (.repetition b x) t ↔ ∃ n, x.has n = true ∧ DerivesAll r (List.replicate n b) t := by
  constructor
  · intro h
    cases h with
    | repetition hn h => exact ⟨_, hn, h⟩
  · rintro ⟨n, hn, h⟩
    exact .repetition hn h

theorem derives_recursive {name : Text} {t : Text} :
    Derives r (.recursive name) t ↔
      ∃ rule, r.get? name = some rule ∧ ∃ b ∈ rule.branches, Derives r b t := by
  constructor
  · intro h
    cases h with
    | recursive hr hb h => exact ⟨_, hr, _, hb, h⟩
  · rintro ⟨rule, hr, b, hb, h⟩
    exact .recursive hr hb h

@[simp] theorem derivesAll_nil {t : Text} : DerivesAll r [] t ↔ t = [] :=
  ⟨fun h => by cases h; rfl, fun h => h ▸ .nil⟩

theorem derivesAll_cons {n : Node} {ns : List Node} {t : Text} :
    DerivesAll r (n :: ns) t ↔ ∃ u v, t = u ++ v ∧ Derives r n u ∧ DerivesAll r ns v := by
  constructor
  · intro h
    cases h with
    | cons h hs => exact ⟨_, _, rfl, h, hs⟩
  · rintro ⟨u, v, rfl, h, hs⟩
    exact .cons h hs

@[simp] theorem derivesAll_singleton {n : Node} {t : Text} :
    DerivesAll r [n] t ↔ Derives r n t := by
  rw [derivesAll_cons]
  constructor
  · rintro ⟨u, v, rfl, h, hs⟩
    rw [derivesAll_nil.mp hs, List.append_nil]
    exact h
  · intro h
    exact ⟨t, [], by simp, h, .nil⟩

/-- Two stretches of nodes derive a text that splits between them. -/
theorem derivesAll_append {as bs : List Node} {t : Text} :
    DerivesAll r (as ++ bs) t ↔ ∃ u v, t = u ++ v ∧ DerivesAll r as u ∧ DerivesAll r bs v := by
  induction as generalizing t with
  | nil =>
    constructor
    · intro h
      exact ⟨[], t, rfl, .nil, h⟩
    · rintro ⟨u, v, rfl, hu, hv⟩
      rw [derivesAll_nil.mp hu]
      exact hv
  | cons a as ih =>
    simp only [List.cons_append, derivesAll_cons, ih]
    constructor
    · rintro ⟨u, _, rfl, hu, v, w, rfl, hv, hw⟩
      exact ⟨u ++ v, w, by simp, ⟨u, v, rfl, hu, hv⟩, hw⟩
    · rintro ⟨_, w, rfl, ⟨u, v, rfl, hu, hv⟩, hw⟩
      exact ⟨u, v ++ w, by simp, hu, v, w, rfl, hv, hw⟩

theorem DerivesAll.append {as bs : List Node} {t u : Text} (hs : DerivesAll r as t)
    (hu : DerivesAll r bs u) : DerivesAll r (as ++ bs) (t ++ u) :=
  derivesAll_append.mpr ⟨t, u, rfl, hs, hu⟩

/-- A list of nodes and the single node it collapses to derive the same texts. -/
theorem derives_sequenceOf {ns : List Node} {t : Text} :
    Derives r (Node.sequenceOf ns) t ↔ DerivesAll r ns t := by
  unfold Node.sequenceOf
  split
  · rw [derivesAll_singleton]
  · exact derives_sequence

/-- The parts of a node derive, side by side, what the node derives. -/
theorem derivesAll_children {n : Node} {t : Text} : DerivesAll r n.children t ↔ Derives r n t := by
  unfold Node.children
  split
  · exact derives_sequence.symm
  · exact derivesAll_singleton

/-! ### Larger tables and larger nodes -/

mutual

/-- A table that keeps all rules of another one derives no less. -/
theorem Derives.mono {r' : Rules}
    (hr : ∀ name rule, r.get? name = some rule → r'.get? name = some rule) :
    ∀ {n : Node} {t : Text}, Derives r n t → Derives r' n t
  | _, _, .literal h => .literal h
  | _, _, .sequence h => .sequence (DerivesAll.mono hr h)
  | _, _, .nothing => .nothing
  | _, _, .alternation ho h => .alternation ho (Derives.mono hr h)
  | _, _, .repetition hn h => .repetition hn (DerivesAll.mono hr h)
  | _, _, .recursive hget hb h => .recursive (hr _ _ hget) hb (Derives.mono hr h)

theorem DerivesAll.mono {r' : Rules}
    (hr : ∀ name rule, r.get? name = some rule → r'.get? name = some rule) :
    ∀ {ns : List Node} {t : Text}, DerivesAll r ns t → DerivesAll r' ns t
  | _, _, .nil => .nil
  | _, _, .cons h hs => .cons (Derives.mono hr h) (DerivesAll.mono hr hs)

end

end GrammarInference
