import GrammarInference.Grammar.Error

/-!
# Checking a grammar

A grammar is in order when every reference has a rule, every rule has a branch that does not refer
back to it, and the first such branches do not refer to each other in a circle. The first fault in
this order is reported; among circles, the one that a depth-first search meets first, starting
from the rules in their order and following references in the order of their names.
-/

namespace GrammarInference

namespace Text

/-- Adds a text to a strictly increasing list. -/
def insertSorted (a : Text) : List Text → List Text
  | [] => [a]
  | b :: rest => if a < b then a :: b :: rest else if a = b then b :: rest
    else b :: insertSorted a rest

/-- The texts of a list in strictly increasing order. -/
def sortedSet (ts : List Text) : List Text := ts.foldr insertSorted []

@[simp] theorem mem_insertSorted {a x : Text} {xs : List Text} :
    x ∈ insertSorted a xs ↔ x = a ∨ x ∈ xs := by
  induction xs with
  | nil => simp [insertSorted]
  | cons b rest ih =>
    simp only [insertSorted]
    split
    · simp
    · split
      · next h => subst h; simp
      · simp only [List.mem_cons, ih]; grind

@[simp] theorem mem_sortedSet {x : Text} {xs : List Text} : x ∈ sortedSet xs ↔ x ∈ xs := by
  induction xs with
  | nil => simp [sortedSet]
  | cons a rest ih =>
    simp only [sortedSet, List.foldr_cons, mem_insertSorted, List.mem_cons] at ih ⊢
    rw [ih]

end Text

namespace Rules

/-- The rules that the first base branch of a rule refers to, in the order of their names. -/
def needs (r : Rules) (name : Text) : List Text :=
  match (r.get? name).bind fun rule => rule.firstBase? name with
  | some branch => Text.sortedSet branch.targets
  | none => []

/-- Visits a rule and all rules that its base branch needs. `active` holds the rules on the way to
this one, `done` those already visited completely. The answer is the new list of visited rules, or
the circle that was met. Each step down makes one more rule active, so that `fuel` need not exceed
the number of rules. -/
def visit (r : Rules) : Nat → List Text → List Text → Text → Except (List Text) (List Text)
  | 0, _, done, _ => .ok done
  | fuel + 1, active, done, name => do
    let done ← (r.needs name).foldlM (fun done child =>
      if child ∈ active then .error (Text.sortedSet active)
      else if child ∈ done then .ok done
      else r.visit fuel (child :: active) done child) done
    .ok (name :: done)

/-- The first circle among the base branches, if there is one. -/
def baseCycle? (r : Rules) : Option (List Text) :=
  let visited := r.names.foldlM (fun done name =>
    if name ∈ done then .ok done else r.visit (r.size + 1) [name] done name) []
  match visited with
  | .ok _ => none
  | .error cycle => some cycle

end Rules

namespace Grammar

/-- The first reference without a rule. -/
def danglingReference? (g : Grammar) : Option Text :=
  (g.walk.filterMap Node.target?).find? fun t => !g.rules.contains t

/-- The first rule without a base branch. -/
def baseless? (g : Grammar) : Option Text :=
  (g.rules.entries.find? fun e => (e.2.firstBase? e.1).isNone).map Prod.fst

/-- Checks references, base branches and circles, in this order. -/
def validate (g : Grammar) : Except GrammarError Unit :=
  match g.danglingReference? with
  | some name => .error (.danglingReference name)
  | none =>
    match g.baseless? with
    | some name => .error (.noBaseCase name)
    | none =>
      match g.rules.baseCycle? with
      | some cycle => .error (.baseCycle cycle)
      | none => .ok ()

end Grammar

end GrammarInference
