import GrammarInference.Grammar.Node

/-!
# Aligning lists

Two lists are aligned along their longest common stretch, the leftmost one in the first list and
then in the second, and what lies to the left and to the right of it is aligned in the same way.
The result is a list of blocks, each with a part of either list, which are equal in some blocks;
neighbouring blocks are never both equal.

The main statement says that the blocks of an alignment tile both lists in order.
-/

namespace GrammarInference

/-- A part of one list beside a part of another. -/
structure Block (α : Type) where
  /-- Whether the parts agree. -/
  same : Bool
  /-- The part of the first list. -/
  left : List α
  /-- The part of the second list. -/
  right : List α

namespace Align

variable {α κ : Type} [DecidableEq κ]

/-- The length of the longest common beginning. -/
def common : List κ → List κ → Nat
  | x :: xs, y :: ys => if x = y then common xs ys + 1 else 0
  | _, _ => 0

/-- A common stretch: its start in both lists and its length. -/
structure Stretch where
  /-- Start in the first list. -/
  start : Nat
  /-- Start in the second list. -/
  other : Nat
  /-- Number of entries. -/
  length : Nat
  deriving Repr, DecidableEq

/-- The longest common stretch, leftmost in the first list and then in the second. -/
def longest (xs ys : List κ) : Stretch :=
  ((List.range xs.length).flatMap fun i => (List.range ys.length).map fun j =>
    (⟨i, j, common (xs.drop i) (ys.drop j)⟩ : Stretch)).foldl
    (fun best s => if best.length < s.length then s else best) ⟨0, 0, 0⟩

/-- Two parts that have nothing in common; no block if there is nothing in them. -/
def gap (xs ys : List α) : List (Block α) :=
  if xs.isEmpty && ys.isEmpty then [] else [⟨false, xs, ys⟩]

/-- The blocks of an alignment, with at most `depth` stretches inside each other. -/
def blocksWithin (key : α → κ) : Nat → List α → List α → List (Block α)
  | 0, xs, ys => gap xs ys
  | depth + 1, xs, ys =>
    let s := longest (xs.map key) (ys.map key)
    if s.length = 0 then gap xs ys
    else
      blocksWithin key depth (xs.take s.start) (ys.take s.other)
        ++ ⟨true, (xs.drop s.start).take s.length, (ys.drop s.other).take s.length⟩
        :: blocksWithin key depth (xs.drop (s.start + s.length)) (ys.drop (s.other + s.length))

/-- Puts a block in front, joining it with the first one if both are equal blocks. -/
def consBlock (b : Block α) : List (Block α) → List (Block α)
  | [] => [b]
  | d :: rest =>
    if b.same && d.same then ⟨true, b.left ++ d.left, b.right ++ d.right⟩ :: rest
    else b :: d :: rest

/-- The alignment of two lists by a key. Every stretch takes an entry of the first list away, so
that its length bounds the depth. -/
def blocks (key : α → κ) (xs ys : List α) : List (Block α) :=
  (blocksWithin key xs.length xs ys).foldr consBlock []

theorem flatMap_left_gap (xs ys : List α) : (gap xs ys).flatMap Block.left = xs := by
  unfold gap
  split
  · next h => simp at h; simp [h.1]
  · simp

theorem flatMap_right_gap (xs ys : List α) : (gap xs ys).flatMap Block.right = ys := by
  unfold gap
  split
  · next h => simp at h; simp [h.2]
  · simp

theorem flatMap_left_consBlock (b : Block α) (bs : List (Block α)) :
    (consBlock b bs).flatMap Block.left = b.left ++ bs.flatMap Block.left := by
  unfold consBlock
  split
  · simp
  · split <;> simp

theorem flatMap_right_consBlock (b : Block α) (bs : List (Block α)) :
    (consBlock b bs).flatMap Block.right = b.right ++ bs.flatMap Block.right := by
  unfold consBlock
  split
  · simp
  · split <;> simp

omit [DecidableEq κ] in
/-- A list is its beginning, a stretch and its end. -/
theorem take_append_stretch (xs : List α) (i k : Nat) :
    xs.take i ++ ((xs.drop i).take k ++ xs.drop (i + k)) = xs := by
  rw [← List.drop_drop, List.take_append_drop, List.take_append_drop]

theorem flatMap_left_blocksWithin (key : α → κ) (depth : Nat) (xs ys : List α) :
    (blocksWithin key depth xs ys).flatMap Block.left = xs := by
  induction depth generalizing xs ys with
  | zero => exact flatMap_left_gap xs ys
  | succ depth ih =>
    simp only [blocksWithin]
    split
    · exact flatMap_left_gap xs ys
    · rw [List.flatMap_append, List.flatMap_cons, ih, ih, take_append_stretch]

theorem flatMap_right_blocksWithin (key : α → κ) (depth : Nat) (xs ys : List α) :
    (blocksWithin key depth xs ys).flatMap Block.right = ys := by
  induction depth generalizing xs ys with
  | zero => exact flatMap_right_gap xs ys
  | succ depth ih =>
    simp only [blocksWithin]
    split
    · exact flatMap_right_gap xs ys
    · rw [List.flatMap_append, List.flatMap_cons, ih, ih, take_append_stretch]

/-- The left parts of an alignment, in order, are the first list. -/
theorem flatMap_left_blocks (key : α → κ) (xs ys : List α) :
    (blocks key xs ys).flatMap Block.left = xs := by
  have h : ∀ bs : List (Block α),
      (bs.foldr consBlock []).flatMap Block.left = bs.flatMap Block.left := by
    intro bs
    induction bs with
    | nil => rfl
    | cons b bs ih => rw [List.foldr_cons, flatMap_left_consBlock, ih, List.flatMap_cons]
  rw [blocks, h, flatMap_left_blocksWithin]

/-- The right parts of an alignment, in order, are the second list. -/
theorem flatMap_right_blocks (key : α → κ) (xs ys : List α) :
    (blocks key xs ys).flatMap Block.right = ys := by
  have h : ∀ bs : List (Block α),
      (bs.foldr consBlock []).flatMap Block.right = bs.flatMap Block.right := by
    intro bs
    induction bs with
    | nil => rfl
    | cons b bs ih => rw [List.foldr_cons, flatMap_right_consBlock, ih, List.flatMap_cons]
  rw [blocks, h, flatMap_right_blocksWithin]

end Align

end GrammarInference
