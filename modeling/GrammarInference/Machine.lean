import GrammarInference.Text.Basic

/-!
# The machine

A program is limited by the machine that it runs on. No text is longer than the largest integer of
64 bits; there is memory for some things and not for others; calls, and the brackets of a document,
lie within each other only up to a depth. What there is memory for and how deep calls may go is not
known, so that a `Machine` is a parameter of all that depends on it.

A call that ends without another call of the same recursion is not counted, since it adds no more
than a fixed number to the depth.

The main statements say that a machine which puts texts together gives the texts that there are
without limits, and that it fails only for what it lacks.
-/

namespace GrammarInference

/-- What a machine may lack. -/
inductive Shortage
  /-- A length or a count is beyond all lengths. -/
  | beyondLengths
  /-- There is no memory. -/
  | beyondMemory
  /-- Calls lie too deep within each other. -/
  | tooDeep
  deriving Repr, DecidableEq

/-- What there has to be memory for. -/
inductive Need
  /-- Texts, put one after another. -/
  | joined (parts : List Text)
  /-- Copies of a text. -/
  | copies (t : Text) (count : Nat)
  /-- A tree with so many nodes. -/
  | tree (size : Nat)
  /-- The parts of a document. -/
  | document (t : Text)
  deriving Repr, DecidableEq

/-- The greatest of the lengths and counts that are asked for. -/
def Need.extent : Need → Nat
  | .joined parts => (Text.concat parts).length
  | .copies t count => max count (t.length * count)
  | .tree _ => 0
  | .document t => t.length

/-- What a program runs on. -/
structure Machine where
  /-- Whether there is memory for something. -/
  holds : Need → Bool
  /-- How many calls may lie within each other. -/
  calls : Nat
  /-- How many brackets of a document may lie within each other. -/
  brackets : Nat

namespace Machine

variable {m : Machine}

/-- A machine that has memory for as many characters, or as many nodes of a tree, as are given. -/
def ofLimits (memory calls brackets : Nat) : Machine where
  holds
    | .joined parts => (Text.concat parts).length ≤ memory
    -- however many copies there are of the empty text
    | .copies t count => t.length * count ≤ memory
    | .tree size => size ≤ memory
    | .document t => t.length ≤ memory
  calls
  brackets

/-- What the machine lacks for a need, if anything. -/
def lacks? (m : Machine) (need : Need) : Option Shortage :=
  if Text.greatestLength < need.extent then some .beyondLengths
  else if m.holds need then none
  else some .beyondMemory

/-- Texts, put one after another. -/
def joined (m : Machine) (parts : List Text) : Except Shortage Text :=
  match m.lacks? (.joined parts) with
  | some s => .error s
  | none => .ok (Text.concat parts)

/-- Copies of a text, put one after another. -/
def copies (m : Machine) (t : Text) (count : Nat) : Except Shortage Text :=
  match m.lacks? (.copies t count) with
  | some s => .error s
  | none => .ok (if t.isEmpty then [] else Text.times t count)

/-- Copies are those that there are without limits. -/
theorem copies_of_lacks?_eq_none {t : Text} {count : Nat} (h : m.lacks? (.copies t count) = none) :
    m.copies t count = .ok (Text.times t count) := by
  rw [copies, h]
  dsimp only
  split
  · next hempty => simp [Text.times, List.isEmpty_iff.mp hempty]
  · rfl

/-- More than all lengths is always lacked. -/
theorem lacks?_of_extent {need : Need} (h : Text.greatestLength < need.extent) :
    m.lacks? need = some .beyondLengths := if_pos h

/-- What there is memory for is not lacked, unless it is beyond all lengths. -/
theorem lacks?_of_holds {need : Need} (hextent : need.extent ≤ Text.greatestLength)
    (h : m.holds need = true) : m.lacks? need = none := by
  rw [lacks?, if_neg (Nat.not_lt.mpr hextent), if_pos h]

end Machine

end GrammarInference
