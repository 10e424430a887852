import GrammarInference.Proofs.Coverage
import GrammarInference.Proofs.MergeShape

/-!
# Merging loses no text

A merged node covers both nodes that it was made from: united classes have the members of both, the
range of merged repetitions contains both ranges, an alignment tiles both sequences, alternatives
keep all options, and references are merged only where their rules are the same up to the name.
This needs no condition on ranges, since every merge asks for the hull of both; it takes a literal
to be a single character of its class, and an alternation to have an option (`Node.ClassedHere`).

A root that a tree is merged into covers the root before and the tree (`RootMerged.covers`).
-/

namespace GrammarInference

/-! ### Rules that are the same up to their names -/

namespace Node

theorem renameAll_eq_map (old new : Text) (ns : List Node) :
    renameAll old new ns = ns.map (rename old new) := by
  induction ns with
  | nil => rfl
  | cons n rest ih => rw [renameAll, ih, List.map_cons]

/-- Renaming a rule renames its branches. -/
theorem branches_rename (old new : Text) (n : Node) :
    (n.rename old new).branches = n.branches.map (rename old new) := by
  cases n with
  | alternation os =>
    simp only [rename, branches]
    exact renameAll_eq_map old new os
  | _ => simp only [rename, branches, List.map_singleton]

end Node

section Renaming

variable {r : Rules} {s t : Text} {rule : Node}

mutual

/-- A reference may be exchanged for one to a rule that is the same up to its name. -/
theorem Derives.rename (ht : r.get? t = some rule) (hs : r.get? s = some (rule.rename t s)) :
    ∀ {n : Node} {u : Text}, Derives r n u → Derives r (n.rename t s) u
  | _, _, .literal h => by
    rw [Node.rename]
    exact .literal h
  | _, _, .sequence h => by
    rw [Node.rename, Node.renameAll_eq_map]
    exact .sequence (DerivesAll.rename ht hs h)
  | _, _, .nothing => by
    rw [Node.rename, Node.renameAll]
    exact .nothing
  | _, _, .alternation ho h => by
    rw [Node.rename, Node.renameAll_eq_map]
    exact .alternation (List.mem_map_of_mem ho) (Derives.rename ht hs h)
  | _, _, .repetition hn h => by
    rw [Node.rename]
    refine .repetition hn ?_
    rw [← List.map_replicate]
    exact DerivesAll.rename ht hs h
  | _, _, @Derives.recursive _ name _ _ _ hget hb h => by
    rw [Node.rename]
    split
    · next heq =>
      -- The exchanged reference goes to the other rule, which has the same branch up to the name.
      rw [heq] at hget
      rw [Option.some.inj (hget.symm.trans ht)] at hb
      refine .recursive hs ?_ (Derives.rename ht hs h)
      rw [Node.branches_rename]
      exact List.mem_map_of_mem hb
    · exact .recursive hget hb h

theorem DerivesAll.rename (ht : r.get? t = some rule) (hs : r.get? s = some (rule.rename t s)) :
    ∀ {ns : List Node} {u : Text}, DerivesAll r ns u →
      DerivesAll r (ns.map (Node.rename t s)) u
  | _, _, .nil => .nil
  | _, _, .cons h hs' => .cons (Derives.rename ht hs h) (DerivesAll.rename ht hs hs')

end

/-- References to the same rule derive the same texts. -/
theorem Rules.Same.covers (h : r.Same s t) : r.Covers (.recursive s) (.recursive t) := by
  intro u hu
  rcases h with rfl | ⟨rule, ht, hs⟩
  · exact hu
  · have hrenamed := hu.rename ht hs
    rw [Node.rename, if_pos rfl] at hrenamed
    exact hrenamed

end Renaming

/-! ### Options, classes and ranges -/

namespace Node

/-- What coverage takes of a node, the nodes below it aside: a literal is a single character with a
class that it belongs to, and an alternation has an option. -/
def ClassedHere : Node → Prop
  | .literal l => ∃ x k, l = Literal.single x k ∧ Symbol.ofChar x ∈ k.characters
  | .alternation os => os ≠ []
  | _ => True

theorem classedHere_single {x : Char} {k : CharClass}
    (h : ClassedHere (.literal (.single x k))) : Symbol.ofChar x ∈ k.characters := by
  obtain ⟨y, k', heq, hy⟩ := h
  simp only [Literal.single, Literal.mk.injEq, List.cons.injEq, Option.some.injEq, and_true] at heq
  obtain ⟨rfl, rfl⟩ := heq
  exact hy

/-- Tidy nodes have what coverage takes. -/
theorem Tidy.classed {done : List Text} {n : Node} (h : n.Tidy done) :
    n.Throughout ClassedHere := by
  intro m hm
  have hm := h m hm
  cases m with
  | literal l =>
    obtain ⟨x, k, rfl, _, hx⟩ := hm
    exact ⟨x, k, rfl, hx⟩
  | alternation os =>
    rintro rfl
    exact absurd hm.1 (by decide)
  | _ => trivial

theorem ClassedHere.branches_ne_nil {n : Node} (h : n.ClassedHere) : n.branches ≠ [] := by
  intro hnil
  obtain rfl := branches_eq_nil_iff.mp hnil
  exact h rfl

end Node

section Parts

variable {r : Rules}

/-- Options as a single node derive what one of them derives. -/
theorem derives_ofOptions {os : List Node} (hne : os ≠ []) {t : Text} :
    Derives r (Node.ofOptions os) t ↔ ∃ o ∈ os, Derives r o t := by
  unfold Node.ofOptions
  split
  · simp
  · rw [derives_alternation]
    simp [hne]

/-- A node with branches derives what one of them derives. -/
theorem derives_branches {n : Node} (hne : n.branches ≠ []) {t : Text} :
    Derives r n t ↔ ∃ b ∈ n.branches, Derives r b t := by
  cases n with
  | alternation os =>
    rw [derives_alternation]
    exact or_iff_right fun h => hne h.1
  | _ => simp [Node.branches]

theorem branches_sequenceOf_ne_nil {ns : List Node} (h : ∀ n ∈ ns, n.branches ≠ []) :
    (Node.sequenceOf ns).branches ≠ [] := by
  unfold Node.sequenceOf
  split
  · exact h _ List.mem_cons_self
  · simp [Node.branches]

/-- The hull of two ranges contains both. -/
theorem Bounds.has_hull {x y : Bounds} {n : Nat} (h : x.has n = true ∨ y.has n = true) :
    (x.hull y).has n = true := by
  obtain ⟨xmin, xmax, _⟩ := x
  obtain ⟨ymin, ymax, _⟩ := y
  simp only [has, hull, Bool.and_eq_true, decide_eq_true_eq] at h ⊢
  refine ⟨decide_eq_true ?_, ?_⟩
  · rcases h with h | h
    · exact Nat.le_trans (Nat.min_le_left _ _) h.1
    · exact Nat.le_trans (Nat.min_le_right _ _) h.1
  · cases xmax with
    | none => rfl
    | some i =>
      cases ymax with
      | none => rfl
      | some j =>
        simp only [Option.all_some, decide_eq_true_eq] at h ⊢
        rcases h with h | h
        · exact Nat.le_trans h.2 (Nat.le_max_left _ _)
        · exact Nat.le_trans h.2 (Nat.le_max_right _ _)

/-- Any node derives copies of itself as a repetition, in number within its range. -/
theorem derives_asRepetition {n : Node} {t : Text} (h : Derives r n t) :
    ∃ k, (Learner.asRepetition n).2.has k = true ∧
      DerivesAll r (List.replicate k (Learner.asRepetition n).1) t := by
  cases n with
  | repetition b x => exact derives_repetition.mp h
  | _ => exact ⟨1, rfl, derivesAll_singleton.mpr h⟩

end Parts

/-! ### Merges -/

/-- A node that two nodes are merged into covers both. -/
def MergesCovering (r : Rules) (a b : Node) (_ : Context) (n : Node) : Prop :=
  r.Covers n a ∧ r.Covers n b

section Merging

variable {R : Replies} {r : Rules} {a b n : Node} {c : Context}

/-- Alternatives cover both nodes. -/
theorem Alternated.covers {extra : List Node} (h : Alternated R r a b c extra)
    (ha : a.branches ≠ []) (hb : b.branches ≠ []) :
    MergesCovering r a b c (Node.ofOptions (a.branches ++ extra)) := by
  have hne : a.branches ++ extra ≠ [] := by simp [ha]
  constructor
  · intro t ht
    obtain ⟨o, ho, hot⟩ := (derives_branches ha).mp ht
    exact (derives_ofOptions hne).mpr ⟨o, List.mem_append_left _ ho, hot⟩
  · intro t ht
    obtain ⟨o, ho, hot⟩ := (derives_branches hb).mp ht
    exact (derives_ofOptions hne).mpr ⟨o, h.all o ho, hot⟩

/-- A text of one of two lists splits where both lists are split. -/
theorem derivesAll_append_or {as as' bs bs' : List Node} {t : Text}
    (ht : DerivesAll r (as ++ as') t ∨ DerivesAll r (bs ++ bs') t) :
    ∃ v w, t = v ++ w ∧ (DerivesAll r as v ∨ DerivesAll r bs v) ∧
      (DerivesAll r as' w ∨ DerivesAll r bs' w) := by
  rcases ht with ht | ht
  · obtain ⟨v, w, rfl, hv, hw⟩ := derivesAll_append.mp ht
    exact ⟨v, w, rfl, .inl hv, .inl hw⟩
  · obtain ⟨v, w, rfl, hv, hw⟩ := derivesAll_append.mp ht
    exact ⟨v, w, rfl, .inr hv, .inr hw⟩

/-- Nodes merged pairwise derive, after what precedes them, what either list derives. -/
theorem PairsMerged.covers {rest as bs acc out : List Node}
    (h : PairsMerged (MergesCovering r) r c rest as bs acc out) {u t : Text}
    (hu : DerivesAll r acc u) (ht : DerivesAll r as t ∨ DerivesAll r bs t) :
    DerivesAll r out (u ++ t) := by
  induction h generalizing u t with
  | nil acc =>
    have hnil : t = [] := by simpa using ht
    rwa [hnil, List.append_nil]
  | @cons a b n as bs acc out merged _ ih =>
    obtain ⟨ha, hb⟩ := merged
    have hsplit : DerivesAll r ([a] ++ as) t ∨ DerivesAll r ([b] ++ bs) t := ht
    obtain ⟨v, w, rfl, hv, hw⟩ := derivesAll_append_or hsplit
    rw [derivesAll_singleton, derivesAll_singleton] at hv
    have hn : Derives r n v := hv.elim (ha v) (hb v)
    rw [← List.append_assoc]
    exact ih (hu.append (derivesAll_singleton.mpr hn)) hw

/-- Merged blocks derive, after what precedes them, what either list of sides derives. -/
theorem BlocksMerged.covers {blocks : List (Block Node)} {acc out : List Node}
    (h : BlocksMerged (MergesCovering r) R r c blocks acc out)
    (hleft : ∀ d ∈ blocks, ∀ n ∈ d.left, n.branches ≠ [])
    (hright : ∀ d ∈ blocks, ∀ n ∈ d.right, n.branches ≠ []) {u t : Text} (hu : DerivesAll r acc u)
    (ht : DerivesAll r (blocks.flatMap Block.left) t ∨
      DerivesAll r (blocks.flatMap Block.right) t) : DerivesAll r out (u ++ t) := by
  induction h generalizing u t with
  | nil acc =>
    have hnil : t = [] := by simpa using ht
    rwa [hnil, List.append_nil]
  | @pairs d blocks acc acc' out merged _ ih =>
    obtain ⟨_, hleft⟩ := List.forall_mem_cons.mp hleft
    obtain ⟨_, hright⟩ := List.forall_mem_cons.mp hright
    rw [List.flatMap_cons, List.flatMap_cons] at ht
    -- The text falls into what the first block derives and what the others do.
    obtain ⟨v, w, rfl, hv, hw⟩ := derivesAll_append_or ht
    rw [← List.append_assoc]
    exact ih hleft hright (merged.covers hu hv) hw
  | @alternatives d blocks acc extra out added _ ih =>
    obtain ⟨hd, hleft⟩ := List.forall_mem_cons.mp hleft
    obtain ⟨hd', hright⟩ := List.forall_mem_cons.mp hright
    rw [List.flatMap_cons, List.flatMap_cons] at ht
    obtain ⟨v, w, rfl, hv, hw⟩ := derivesAll_append_or ht
    obtain ⟨hl, hr⟩ := added.covers (branches_sequenceOf_ne_nil hd) (branches_sequenceOf_ne_nil hd')
    have hv' : Derives r (Node.ofOptions ((Node.sequenceOf d.left).branches ++ extra)) v :=
      hv.elim (fun hv => hl v (derives_sequenceOf.mpr hv))
        (fun hv => hr v (derives_sequenceOf.mpr hv))
    rw [← List.append_assoc]
    exact ih hleft hright (hu.append (derivesAll_singleton.mpr hv')) hw

/-- A node merged by structure covers both nodes. -/
theorem StructureMerged.covers (h : StructureMerged R r (MergesCovering r) a b c n)
    (ha : a.Throughout Node.ClassedHere) (hb : b.Throughout Node.ClassedHere) :
    MergesCovering r a b c n := by
  cases h with
  | character x y k =>
    have hx := Node.classedHere_single ha.here
    have hy := Node.classedHere_single hb.here
    refine ⟨.refl r _, fun t ht => ?_⟩
    rw [derives_single hx, ← derives_single hy]
    exact ht
  | @union x y ka kb _ maxChecks =>
    have hx := Node.classedHere_single ha.here
    have hy := Node.classedHere_single hb.here
    have hunion : Symbol.ofChar x ∈ (ka.union kb maxChecks).characters :=
      CharClass.mem_characters_union.mpr (.inl hx)
    constructor
    · intro t ht
      obtain ⟨d, rfl, hd⟩ := (derives_single hx).mp ht
      exact (derives_single hunion).mpr ⟨d, rfl, CharClass.mem_characters_union.mpr (.inl hd)⟩
    · intro t ht
      obtain ⟨d, rfl, hd⟩ := (derives_single hy).mp ht
      exact (derives_single hunion).mpr ⟨d, rfl, CharClass.mem_characters_union.mpr (.inr hd)⟩
  | unclassed _ class? =>
    -- Both characters have their classes.
    obtain ⟨x, ka, rfl, _⟩ := ha.here
    obtain ⟨y, kb, rfl, _⟩ := hb.here
    simp [Literal.positions, Literal.single] at class?
  | repetition _ merged =>
    obtain ⟨hbodyA, hbodyB⟩ := merged
    constructor
    · intro t ht
      obtain ⟨k, hk, hcopies⟩ := derives_asRepetition ht
      exact .repetition (Bounds.has_hull (.inl hk)) (hcopies.replicate hbodyA)
    · intro t ht
      obtain ⟨k, hk, hcopies⟩ := derives_asRepetition ht
      exact .repetition (Bounds.has_hull (.inr hk)) (hcopies.replicate hbodyB)
  | option mem => exact ⟨.refl r _, fun t ht => .alternation mem ht⟩
  | reference same => exact ⟨.refl r _, same.covers⟩
  | blocks either other blocks =>
    obtain ⟨hl, hr⟩ := Align.forall_mem_blocks Node.key
      (fun n hn => (ha.children n hn).here.branches_ne_nil)
      fun n hn => (hb.children n hn).here.branches_ne_nil
    constructor
    · intro t ht
      rw [derives_sequenceOf]
      refine blocks.covers hl hr .nil (.inl ?_)
      rw [Align.flatMap_left_blocks, derivesAll_children]
      exact ht
    · intro t ht
      rw [derives_sequenceOf]
      refine blocks.covers hl hr .nil (.inr ?_)
      rw [Align.flatMap_right_blocks, derivesAll_children]
      exact ht

theorem MergeStep.covers (ha : a.Throughout Node.ClassedHere)
    (hb : b.Throughout Node.ClassedHere) (h : MergeStep R r (MergesCovering r) a b c n) :
    MergesCovering r a b c n := by
  cases h with
  | same h =>
    subst h
    exact ⟨.refl r _, .refl r _⟩
  | merged h => exact h.covers ha hb
  | alternate h => exact h.covers ha.here.branches_ne_nil hb.here.branches_ne_nil

/-- **Coverage.** A node that two nodes are merged into covers both. -/
theorem Learner.merges_covering (R : Replies) (m : Memory) (limits : Limits) (depth : Nat) :
    MergesInto R m Node.ClassedHere (mergeWithin limits depth) (MergesCovering m.rules) :=
  merge_induction (fun ha hb h => h.covers ha hb) limits depth

/-! ### The root -/

theorem TryMerged.covers {existing tree : Node}
    (h : TryMerged R r (MergesCovering r) existing tree n)
    (he : existing.Throughout Node.ClassedHere) (ht : tree.Throughout Node.ClassedHere) :
    r.Covers n existing ∧ r.Covers n tree := by
  cases h with
  | same h =>
    subst h
    exact ⟨.refl r _, .refl r _⟩
  | merged h => exact h.covers he ht

/-- A root that a tree is merged into covers the root before and the tree. -/
theorem RootMerged.covers {root tree : Node} (h : RootMerged R r (MergesCovering r) root tree n)
    (hroot : root.Throughout Node.ClassedHere) (htree : tree.Throughout Node.ClassedHere) :
    r.Covers n root ∧ r.Covers n tree := by
  have hbranches := hroot.here.branches_ne_nil
  cases h with
  | @merged before after o n options h =>
    have hmem : o ∈ root.branches := by simp [options]
    obtain ⟨ho, ht⟩ := h.covers (hroot.branches o hmem) htree
    have hne : before ++ n :: after ≠ [] := by simp
    -- An option that was not merged derives what it did; the merged one covers both.
    refine ⟨fun t hrt => ?_, fun t htt => ?_⟩
    · obtain ⟨p, hp, hpt⟩ := (derives_branches hbranches).mp hrt
      rw [options] at hp
      rcases List.mem_append.mp hp with hp | hp
      · exact (derives_ofOptions hne).mpr ⟨p, by simp [hp], hpt⟩
      · rcases List.mem_cons.mp hp with rfl | hp
        · exact (derives_ofOptions hne).mpr ⟨n, by simp, ho t hpt⟩
        · exact (derives_ofOptions hne).mpr ⟨p, by simp [hp], hpt⟩
    · exact (derives_ofOptions hne).mpr ⟨n, by simp, ht t htt⟩
  | known mem =>
    refine ⟨fun t ht => ?_, fun t ht => (derives_ofOptions hbranches).mpr ⟨tree, mem, ht⟩⟩
    exact (derives_ofOptions hbranches).mpr ((derives_branches hbranches).mp ht)
  | added new =>
    have hne : root.branches ++ [tree] ≠ [] := by simp
    refine ⟨fun t ht => ?_, fun t ht => ?_⟩
    · obtain ⟨p, hp, hpt⟩ := (derives_branches hbranches).mp ht
      exact (derives_ofOptions hne).mpr ⟨p, List.mem_append_left _ hp, hpt⟩
    · exact (derives_ofOptions hne).mpr ⟨tree, by simp, ht⟩

end Merging

end GrammarInference
