import GrammarInference.Proofs.Language
import GrammarInference.Proofs.Shape
import Mathlib.Data.Set.Defs

/-!
# The positions that a node yields

A derived text forgets which of its characters may be exchanged. `Yields r n xs` keeps it: with
every other choice left open, the literals of the node stand side by side as they are, each
character with the class of its position. A node derives the texts that spell what it yields
(`derives_iff_yields`), so that nodes that yield the same positions derive the same texts.

A rule yields what its branches yield, unless it is an alternation without options: that one yields
no cells, but has no branch. So rules may be replaced by others that have branches for what was
yielded before (`Yields.of_replacedBy`).
-/

namespace GrammarInference

/-- A character with the class of its position, if there is one. -/
abbrev Cell := Char × Option CharClass

/-- A text has the characters of the cells or members of their classes. -/
def Spelled (xs : List Cell) (t : Text) : Prop :=
  List.Forall₂ (fun cell d => d = cell.1 ∨ ∃ k, cell.2 = some k ∧ Symbol.ofChar d ∈ k.characters)
    xs t

mutual

/-- A node yields cells under a rule table. -/
inductive Yields (r : Rules) : Node → List Cell → Prop
  /-- A literal yields its own cells. -/
  | literal {l : Literal} : Yields r (.literal l) l.cells
  /-- A sequence yields what its children yield side by side. -/
  | sequence {cs : List Node} {xs : List Cell} (h : YieldsAll r cs xs) : Yields r (.sequence cs) xs
  /-- An alternation without options yields no cells. -/
  | nothing : Yields r (.alternation []) []
  /-- An alternation yields what one of its options yields. -/
  | alternation {os : List Node} {o : Node} {xs : List Cell} (ho : o ∈ os) (h : Yields r o xs) :
    Yields r (.alternation os) xs
  /-- A repetition yields what copies of its body yield side by side. -/
  | repetition {b : Node} {x : Bounds} {n : Nat} {xs : List Cell} (hn : x.has n = true)
    (h : YieldsAll r (List.replicate n b) xs) : Yields r (.repetition b x) xs
  /-- A reference yields what a branch of its rule yields. -/
  | recursive {name : Text} {rule b : Node} {xs : List Cell} (hr : r.get? name = some rule)
    (hb : b ∈ rule.branches) (h : Yields r b xs) : Yields r (.recursive name) xs

/-- Nodes side by side yield cells under a rule table. -/
inductive YieldsAll (r : Rules) : List Node → List Cell → Prop
  /-- No nodes yield no cells. -/
  | nil : YieldsAll r [] []
  /-- The first node yields a beginning, the others the rest. -/
  | cons {n : Node} {ns : List Node} {xs ys : List Cell} (h : Yields r n xs)
    (hs : YieldsAll r ns ys) : YieldsAll r (n :: ns) (xs ++ ys)

end

variable {r r' : Rules}

/-! ### Inversion, one equivalence per form -/

theorem yields_literal {l : Literal} {xs : List Cell} : Yields r (.literal l) xs ↔ xs = l.cells :=
  ⟨fun h => by cases h; rfl, fun h => h ▸ .literal⟩

theorem yields_sequence {cs : List Node} {xs : List Cell} :
    Yields r (.sequence cs) xs ↔ YieldsAll r cs xs :=
  ⟨fun h => by cases h; assumption, .sequence⟩

theorem yields_alternation {os : List Node} {xs : List Cell} :
    Yields r (.alternation os) xs ↔ (os = [] ∧ xs = []) ∨ ∃ o ∈ os, Yields r o xs := by
  constructor
  · intro h
    cases h with
    | nothing => exact .inl ⟨rfl, rfl⟩
    | alternation ho h => exact .inr ⟨_, ho, h⟩
  · rintro (⟨rfl, rfl⟩ | ⟨o, ho, h⟩)
    · exact .nothing
    · exact .alternation ho h

theorem yields_repetition {b : Node} {x : Bounds} {xs : List Cell} :
    Yields r (.repetition b x) xs ↔ ∃ n, x.has n = true ∧ YieldsAll r (List.replicate n b) xs := by
  constructor
  · intro h
    cases h with
    | repetition hn h => exact ⟨_, hn, h⟩
  · rintro ⟨n, hn, h⟩
    exact .repetition hn h

@[simp] theorem yieldsAll_nil {xs : List Cell} : YieldsAll r [] xs ↔ xs = [] :=
  ⟨fun h => by cases h; rfl, fun h => h ▸ .nil⟩

theorem yieldsAll_cons {n : Node} {ns : List Node} {xs : List Cell} :
    YieldsAll r (n :: ns) xs ↔ ∃ ys zs, xs = ys ++ zs ∧ Yields r n ys ∧ YieldsAll r ns zs := by
  constructor
  · intro h
    cases h with
    | cons h hs => exact ⟨_, _, rfl, h, hs⟩
  · rintro ⟨ys, zs, rfl, h, hs⟩
    exact .cons h hs

@[simp] theorem yieldsAll_singleton {n : Node} {xs : List Cell} :
    YieldsAll r [n] xs ↔ Yields r n xs := by
  rw [yieldsAll_cons]
  constructor
  · rintro ⟨ys, zs, rfl, h, hs⟩
    rw [yieldsAll_nil.mp hs, List.append_nil]
    exact h
  · intro h
    exact ⟨xs, [], by simp, h, .nil⟩

/-- Two stretches of nodes yield cells that split between them. -/
theorem yieldsAll_append {as bs : List Node} {xs : List Cell} :
    YieldsAll r (as ++ bs) xs ↔ ∃ ys zs, xs = ys ++ zs ∧ YieldsAll r as ys ∧ YieldsAll r bs zs := by
  induction as generalizing xs with
  | nil =>
    constructor
    · intro h
      exact ⟨[], xs, rfl, .nil, h⟩
    · rintro ⟨ys, zs, rfl, hy, hz⟩
      rw [yieldsAll_nil.mp hy]
      exact hz
  | cons a as ih =>
    simp only [List.cons_append, yieldsAll_cons, ih]
    constructor
    · rintro ⟨u, _, rfl, hu, v, w, rfl, hv, hw⟩
      exact ⟨u ++ v, w, by simp, ⟨u, v, rfl, hu, hv⟩, hw⟩
    · rintro ⟨_, w, rfl, ⟨u, v, rfl, hu, hv⟩, hw⟩
      exact ⟨u, v ++ w, by simp, hu, v, w, rfl, hv, hw⟩

/-- A list of nodes and the single node it collapses to yield the same cells. -/
theorem yields_sequenceOf {ns : List Node} {xs : List Cell} :
    Yields r (Node.sequenceOf ns) xs ↔ YieldsAll r ns xs := by
  unfold Node.sequenceOf
  split
  · rw [yieldsAll_singleton]
  · exact yields_sequence

/-- The parts of a node yield, side by side, what the node yields. -/
theorem yieldsAll_children {n : Node} {xs : List Cell} :
    YieldsAll r n.children xs ↔ Yields r n xs := by
  unfold Node.children
  split
  · exact yields_sequence.symm
  · exact yieldsAll_singleton

/-- Copies of nodes that yield the same cells yield the same cells. -/
theorem yieldsAll_replicate_congr {b b' : Node} (h : ∀ xs, Yields r b xs ↔ Yields r b' xs)
    (n : Nat) (xs : List Cell) :
    YieldsAll r (List.replicate n b) xs ↔ YieldsAll r (List.replicate n b') xs := by
  induction n generalizing xs with
  | zero => rfl
  | succ n ih => simp only [List.replicate_succ, yieldsAll_cons, h, ih]

/-! ### Texts -/

theorem spelled_append {xs ys : List Cell} {t : Text} :
    Spelled (xs ++ ys) t ↔ ∃ u v, t = u ++ v ∧ Spelled xs u ∧ Spelled ys v := by
  constructor
  · intro h
    have htake := List.forall₂_take xs.length h
    have hdrop := List.forall₂_drop xs.length h
    rw [List.take_left] at htake
    rw [List.drop_left] at hdrop
    exact ⟨_, _, (List.take_append_drop xs.length t).symm, htake, hdrop⟩
  · rintro ⟨u, v, rfl, hu, hv⟩
    exact List.rel_append hu hv

mutual

theorem Derives.exists_yields : ∀ {n : Node} {t : Text}, Derives r n t →
    ∃ xs, Yields r n xs ∧ Spelled xs t
  | _, _, .literal h => ⟨_, .literal, h⟩
  | _, _, .sequence h => by
    obtain ⟨xs, hxs, hs⟩ := h.exists_yieldsAll
    exact ⟨xs, .sequence hxs, hs⟩
  | _, _, .nothing => ⟨[], .nothing, .nil⟩
  | _, _, .alternation ho h => by
    obtain ⟨xs, hxs, hs⟩ := h.exists_yields
    exact ⟨xs, .alternation ho hxs, hs⟩
  | _, _, .repetition hn h => by
    obtain ⟨xs, hxs, hs⟩ := h.exists_yieldsAll
    exact ⟨xs, .repetition hn hxs, hs⟩
  | _, _, .recursive hget hb h => by
    obtain ⟨xs, hxs, hs⟩ := h.exists_yields
    exact ⟨xs, .recursive hget hb hxs, hs⟩

theorem DerivesAll.exists_yieldsAll : ∀ {ns : List Node} {t : Text}, DerivesAll r ns t →
    ∃ xs, YieldsAll r ns xs ∧ Spelled xs t
  | _, _, .nil => ⟨[], .nil, .nil⟩
  | _, _, .cons h hs => by
    obtain ⟨xs, hxs, hx⟩ := h.exists_yields
    obtain ⟨ys, hys, hy⟩ := hs.exists_yieldsAll
    exact ⟨xs ++ ys, .cons hxs hys, spelled_append.mpr ⟨_, _, rfl, hx, hy⟩⟩

end

mutual

theorem Yields.derives : ∀ {n : Node} {xs : List Cell} {t : Text}, Yields r n xs → Spelled xs t →
    Derives r n t
  | _, _, _, .literal, hs => .literal hs
  | _, _, _, .sequence h, hs => .sequence (h.derivesAll hs)
  | _, _, _, .nothing, hs => by
    rw [List.forall₂_nil_left_iff.mp hs]
    exact .nothing
  | _, _, _, .alternation ho h, hs => .alternation ho (h.derives hs)
  | _, _, _, .repetition hn h, hs => .repetition hn (h.derivesAll hs)
  | _, _, _, .recursive hget hb h, hs => .recursive hget hb (h.derives hs)

theorem YieldsAll.derivesAll : ∀ {ns : List Node} {xs : List Cell} {t : Text}, YieldsAll r ns xs →
    Spelled xs t → DerivesAll r ns t
  | _, _, _, .nil, hs => by
    rw [List.forall₂_nil_left_iff.mp hs]
    exact .nil
  | _, _, _, .cons h hns, hs => by
    obtain ⟨u, v, rfl, hu, hv⟩ := spelled_append.mp hs
    exact .cons (h.derives hu) (hns.derivesAll hv)

end

/-- **Spelling.** A node derives the texts that spell the cells it yields. -/
theorem derives_iff_yields {n : Node} {t : Text} :
    Derives r n t ↔ ∃ xs, Yields r n xs ∧ Spelled xs t :=
  ⟨Derives.exists_yields, fun ⟨_, h, hs⟩ => h.derives hs⟩

/-- A node that yields no less derives no less. -/
theorem Derives.of_yields {n n' : Node} (h : ∀ xs, Yields r n xs → Yields r' n' xs) {t : Text}
    (ht : Derives r n t) : Derives r' n' t := by
  obtain ⟨xs, hxs, hs⟩ := ht.exists_yields
  exact (h xs hxs).derives hs

/-! ### Branches -/

/-- A node with a branch yields what its branches yield. -/
theorem yields_iff_branches {n : Node} (hne : n.branches ≠ []) {xs : List Cell} :
    Yields r n xs ↔ ∃ b ∈ n.branches, Yields r b xs := by
  cases n with
  | alternation os =>
    rw [yields_alternation, or_iff_right]
    · rfl
    · exact fun h => hne h.1
  | _ => simp [Node.branches]

/-- The rules of `r` that are named in `keep` have rules in `r'` with branches for all that their
own branches yield under `r'`, and refer only to rules that are named there as well. -/
def Rules.ReplacedBy (keep : Set Text) (r r' : Rules) : Prop :=
  ∀ name ∈ keep, ∀ rule, r.get? name = some rule → (∀ k ∈ rule.targets, k ∈ keep) ∧
    ∃ rule', r'.get? name = some rule' ∧
      ∀ xs, (∃ b ∈ rule.branches, Yields r' b xs) → ∃ b ∈ rule'.branches, Yields r' b xs

variable {keep : Set Text}

mutual

/-- **Replaced rules.** A node yields no less under rules that replace those it refers to. -/
theorem Yields.of_replacedBy (hr : Rules.ReplacedBy keep r r') :
    ∀ {n : Node} {xs : List Cell}, Yields r n xs → (∀ k ∈ n.targets, k ∈ keep) → Yields r' n xs
  | _, _, .literal, _ => .literal
  | _, _, .sequence h, hn => by
    rw [Node.targets_sequence] at hn
    exact .sequence (h.of_replacedBy hr fun c hc k hk => hn k (List.mem_flatMap_of_mem hc hk))
  | _, _, .nothing, _ => .nothing
  | _, _, .alternation ho h, hn => by
    rw [Node.targets_alternation] at hn
    exact .alternation ho (h.of_replacedBy hr fun k hk => hn k (List.mem_flatMap_of_mem ho hk))
  | _, _, .repetition hn h, hsub => by
    refine .repetition hn (h.of_replacedBy hr fun c hc => ?_)
    rw [(List.mem_replicate.mp hc).2]
    rwa [Node.targets_repetition] at hsub
  | _, _, .recursive hget hb h, hn => by
    -- The branch yields the same under the new rules; the new rule has one for it.
    obtain ⟨hsub, rule', hget', hreplaced⟩ := hr _ (hn _ (by simp)) _ hget
    have hbranch := fun k hk => hsub k (Node.targets_subset_of_mem_branches hb hk)
    obtain ⟨b', hb', hyields⟩ := hreplaced _ ⟨_, hb, h.of_replacedBy hr hbranch⟩
    exact .recursive hget' hb' hyields

theorem YieldsAll.of_replacedBy (hr : Rules.ReplacedBy keep r r') :
    ∀ {ns : List Node} {xs : List Cell}, YieldsAll r ns xs →
      (∀ n ∈ ns, ∀ k ∈ n.targets, k ∈ keep) → YieldsAll r' ns xs
  | _, _, .nil, _ => .nil
  | _, _, .cons h hs, hns =>
    .cons (h.of_replacedBy hr (hns _ (.head _)))
      (hs.of_replacedBy hr fun n hn => hns n (.tail _ hn))

end

end GrammarInference
