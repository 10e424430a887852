import GrammarInference.Grammar.Error
import GrammarInference.Sample.Draw

/-!
# Derivations

A derivation is a node together with one text that it produces and the derivations of its parts.
The text of an inner derivation is that of its parts, one after another; a literal has a text of
its own. The depth of a derivation counts the references on the way to it.

A place in a derivation is a path: which part to go to at each step. `mutablePaths` lists the
places where another text can be produced.

`derive` is the default derivation as such, however large. `deriveOn` is what a machine makes of it:
every node takes a call, every copy of a repeated part is a derivation of its own, and the text of
an inner derivation has to be put together.

The main statements say how texts are put together.
-/

namespace GrammarInference

/-- One way in which a node produces a text. -/
inductive Derivation
  /-- A node, the text it produces, the derivations of its parts, and its depth. -/
  | make (node : Node) (text : Text) (parts : List Derivation) (depth : Nat)
  deriving Repr

namespace Derivation

instance : Inhabited Derivation := ⟨.make .empty [] [] 0⟩

/-- The node that is derived. -/
def node : Derivation → Node
  | .make n _ _ _ => n

/-- The text that is produced. -/
def text : Derivation → Text
  | .make _ t _ _ => t

/-- The derivations of the parts. -/
def parts : Derivation → List Derivation
  | .make _ _ ps _ => ps

/-- The number of references on the way. -/
def depth : Derivation → Nat
  | .make _ _ _ d => d

/-- A literal that produces a given text. -/
def leaf (n : Node) (t : Text) (depth : Nat) : Derivation := .make n t [] depth

/-- A node that produces the texts of its parts, one after another. -/
def ofParts (n : Node) (depth : Nat) (parts : List Derivation) : Derivation :=
  .make n (Text.concat (parts.map text)) parts depth

@[simp] theorem text_leaf (n : Node) (t : Text) (d : Nat) : (leaf n t d).text = t := rfl

@[simp] theorem text_ofParts (n : Node) (d : Nat) (ps : List Derivation) :
    (ofParts n d ps).text = Text.concat (ps.map text) := rfl

mutual

/-- The number of derivations in a derivation, itself included. -/
def size : Derivation → Nat
  | .make _ _ ps _ => sizes ps + 1

/-- The number of derivations in several ones. -/
def sizes : List Derivation → Nat
  | [] => 0
  | d :: rest => size d + sizes rest

end

/-- A derivation with other parts. -/
def withParts (d : Derivation) (parts : List Derivation) : Derivation :=
  ofParts d.node d.depth parts

/-- Where a literal has a choice: the positions with a class of more than one member. -/
def freePositions (l : Literal) : List Nat :=
  (List.range l.classes.length).filter fun i =>
    (l.classes[i]?).any fun k => k.any fun k => 1 < k.size

/-- The free positions of a literal are those with a class of several members. -/
theorem mem_freePositions {l : Literal} {i : Nat} :
    i ∈ freePositions l ↔ ∃ k, l.classes[i]? = some (some k) ∧ 1 < k.size := by
  rw [freePositions, List.mem_filter, List.mem_range]
  constructor
  · rintro ⟨-, hmany⟩
    obtain ⟨k?, hclass, hmany⟩ := (Option.any_eq_true _ _).mp hmany
    obtain ⟨k, rfl, hsize⟩ := (Option.any_eq_true _ _).mp hmany
    exact ⟨k, hclass, of_decide_eq_true hsize⟩
  · rintro ⟨k, hclass, hsize⟩
    obtain ⟨hi, -⟩ := List.getElem?_eq_some_iff.mp hclass
    exact ⟨hi, by simpa [hclass] using hsize⟩

/-- Whether a derivation can produce another text in its place. -/
def isMutable (d : Derivation) : Bool :=
  match d.node with
  | .literal l => !(freePositions l).isEmpty
  | .sequence _ => false
  | _ => true

mutual

/-- The paths to all places where another text can be produced, each before those below it. -/
def mutablePaths : Derivation → List (List Nat)
  | .make n t ps depth =>
    (if (Derivation.make n t ps depth).isMutable then [[]] else []) ++ mutablePathsFrom 0 ps

/-- The paths into the parts of a derivation, counted from position `i`. -/
def mutablePathsFrom (i : Nat) : List Derivation → List (List Nat)
  | [] => []
  | d :: rest => (mutablePaths d).map (i :: ·) ++ mutablePathsFrom (i + 1) rest

end

end Derivation

/-- Why a derivation cannot be made. -/
inductive DeriveFault
  /-- A rule does not exist. -/
  | unknownRule (name : Text)
  /-- A rule has no base branch. -/
  | noBase
  /-- There is nothing to choose from. -/
  | nothingToChoose
  /-- A member of a class is no text. -/
  | notText
  /-- References follow each other without end. -/
  | tooDeep
  /-- The machine lacks something. -/
  | exhausted (s : Shortage)
  deriving Repr, DecidableEq

namespace Derivation

/-! ### Default derivations -/

mutual

/-- The default derivation of a node, where `rule` derives the default branch of a rule one level
deeper. -/
def defaultWith (rule : Text → Nat → Except DeriveFault Derivation) (depth : Nat) :
    Node → Except DeriveFault Derivation
  | .literal l => .ok (leaf (.literal l) l.text depth)
  | .sequence cs =>
    match defaultAllWith rule depth cs with
    | .error e => .error e
    | .ok ds => .ok (ofParts (.sequence cs) depth ds)
  | .alternation [] => .ok (ofParts (.alternation []) depth [])
  | .alternation (o :: rest) =>
    match defaultWith rule depth o with
    | .error e => .error e
    | .ok d => .ok (ofParts (.alternation (o :: rest)) depth [d])
  | .repetition b x =>
    if x.min = 0 then .ok (ofParts (.repetition b x) depth [])
    else match defaultWith rule depth b with
      | .error e => .error e
      | .ok d => .ok (ofParts (.repetition b x) depth (List.replicate x.min d))
  | .recursive name =>
    match rule name (depth + 1) with
    | .error e => .error e
    | .ok d => .ok (ofParts (.recursive name) depth [d])

/-- The default derivations of several nodes. -/
def defaultAllWith (rule : Text → Nat → Except DeriveFault Derivation) (depth : Nat) :
    List Node → Except DeriveFault (List Derivation)
  | [] => .ok []
  | n :: rest =>
    match defaultWith rule depth n with
    | .error e => .error e
    | .ok d =>
      match defaultAllWith rule depth rest with
      | .error e => .error e
      | .ok ds => .ok (d :: ds)

end

end Derivation

namespace Rules

/-- The default derivation of a rule's first base branch, following at most `steps` references in
a row. -/
def deriveRule (r : Rules) : Nat → Text → Nat → Except DeriveFault Derivation
  | 0, _, _ => .error .tooDeep
  | steps + 1, name, depth =>
    match r.get? name with
    | none => .error (.unknownRule name)
    | some rule =>
      match rule.firstBase? name with
      | none => .error .noBase
      | some branch => Derivation.defaultWith (r.deriveRule steps) depth branch

/-- The default derivation of a node at a depth. -/
def derive (r : Rules) (n : Node) (depth : Nat) : Except DeriveFault Derivation :=
  Derivation.defaultWith (r.deriveRule (r.size + 1)) depth n

end Rules

/-! ### Default derivations on a machine -/

namespace Derivation

/-- A node that produces the texts of its parts, as a machine puts them together. -/
def ofPartsOn (m : Machine) (n : Node) (depth : Nat) (parts : List Derivation) :
    Except DeriveFault Derivation :=
  match m.lacks? (.joined (parts.map text)) with
  | some s => .error (.exhausted s)
  | none => .ok (ofParts n depth parts)

/-- Goes on where there is memory for a tree with so many derivations. -/
@[macro_inline]
def grow (m : Machine) (size : Nat) (next : Except DeriveFault Derivation) :
    Except DeriveFault Derivation :=
  match m.lacks? (.tree size) with
  | some s => .error (.exhausted s)
  | none => next

end Derivation

/-- How many calls it takes to derive a node, those for its parts aside. The parts of a sequence,
and the copies of a repeated part, are gone through by a call of its own. -/
def Node.deriveCalls : Node → Nat
  | .sequence _ => 2
  | .repetition _ _ => 2
  | _ => 1

namespace Derivation

mutual

/-- The default derivation of a node while so many calls are left, where `rule` derives the default
branch of a rule one level deeper. -/
def defaultOn (m : Machine) (rule : Nat → Text → Nat → Except DeriveFault Derivation)
    (left depth : Nat) (n : Node) : Except DeriveFault Derivation :=
  if left < n.deriveCalls then .error (.exhausted .tooDeep)
  else match n with
    | .literal l => .ok (leaf (.literal l) l.text depth)
    | .sequence cs =>
      match defaultEachOn m rule (left - 2) depth cs with
      | .error e => .error e
      | .ok ds => grow m (sizes ds + 1) (ofPartsOn m (.sequence cs) depth ds)
    | .alternation [] => grow m 1 (ofPartsOn m (.alternation []) depth [])
    | .alternation (o :: rest) =>
      match defaultOn m rule (left - 1) depth o with
      | .error e => .error e
      | .ok d => grow m (d.size + 1) (ofPartsOn m (.alternation (o :: rest)) depth [d])
    | .repetition b x =>
      if x.min = 0 then grow m 1 (ofPartsOn m (.repetition b x) depth [])
      else match defaultOn m rule (left - 2) depth b with
        | .error e => .error e
        -- the copies are made one by one, so that they have to find room before they are joined
        | .ok d => grow m (x.min * d.size + 1)
            (ofPartsOn m (.repetition b x) depth (List.replicate x.min d))
    | .recursive name =>
      match rule (left - 1) name (depth + 1) with
      | .error e => .error e
      | .ok d => grow m (d.size + 1) (ofPartsOn m (.recursive name) depth [d])

/-- The default derivations of several nodes. -/
def defaultEachOn (m : Machine) (rule : Nat → Text → Nat → Except DeriveFault Derivation)
    (left depth : Nat) : List Node → Except DeriveFault (List Derivation)
  | [] => .ok []
  | n :: rest =>
    match defaultOn m rule left depth n with
    | .error e => .error e
    | .ok d =>
      match defaultEachOn m rule left depth rest with
      | .error e => .error e
      | .ok ds => .ok (d :: ds)

end

end Derivation

namespace Rules

/-- The default derivation of a rule's first base branch while so many calls are left. Every
reference takes a call, so that `steps` need not exceed the calls that the machine allows. -/
def deriveRuleOn (m : Machine) (r : Rules) :
    Nat → Nat → Text → Nat → Except DeriveFault Derivation
  | 0, _, _, _ => .error (.exhausted .tooDeep)
  | steps + 1, left, name, depth =>
    match r.get? name with
    | none => .error (.unknownRule name)
    | some rule =>
      match rule.firstBase? name with
      | none => .error .noBase
      | some branch => Derivation.defaultOn m (r.deriveRuleOn m steps) left depth branch

/-- The default derivation of a node at a depth, as a machine makes it. -/
def deriveOn (m : Machine) (r : Rules) (n : Node) (depth : Nat) : Except DeriveFault Derivation :=
  Derivation.defaultOn m (r.deriveRuleOn m (m.calls + 1)) m.calls depth n

end Rules

end GrammarInference
