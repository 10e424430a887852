import GrammarInference.Text.Basic
import GrammarInference.Number.Binary

/-!
# Choosing checks

From the members of a class a bounded number is chosen for checking: evenly spaced ones, the first
of which gives way to the observed character when that is not among them. When all members fit,
all are chosen.

`pickAt` chooses at given positions; `spacedPositions` are the positions that are used, rounded as
a quotient and a product of 53 bits round.
-/

namespace GrammarInference

namespace Checks

/-- The members at the given positions, with the observed one in place of the first if it is not
among them. -/
def pickAt {α : Type} [DecidableEq α] (positions : List Nat) (members : List α) (observed : α) :
    List α :=
  let picked := positions.filterMap fun i => members[i]?
  Text.distinct (if observed ∈ picked then picked else picked.set 0 observed)

/-- `count` evenly spaced positions in a list of `size` entries: the whole parts of the multiples
of `size / count`, each operation rounded. -/
def spacedPositions (size count : Nat) : List Nat :=
  (List.range count).map fun i => ((Number.Binary.nearest size count).scale i).floor

/-- At most `count` of the members, among them the observed one. -/
def pick {α : Type} [DecidableEq α] (members : List α) (observed : α) (count : Nat) : List α :=
  if members.length ≤ count then members
  else pickAt (spacedPositions members.length count) members observed

/-- Why no checks can be chosen. -/
inductive Fault
  /-- None may be chosen, but there are members. -/
  | noneAllowed
  /-- The number allowed is negative. -/
  | negative
  deriving Repr, DecidableEq

/-- The checks for any bound; a bound below one is an error unless all members fit. -/
def pick? {α : Type} [DecidableEq α] (members : List α) (observed : α) (count : Int) :
    Except Fault (List α) :=
  if (members.length : Int) ≤ count then .ok members
  else if count = 0 then .error .noneAllowed
  else if count < 0 then .error .negative
  else .ok (pick members observed count.toNat)

end Checks

end GrammarInference
