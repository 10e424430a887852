import GrammarInference.Learn.Query
import GrammarInference.Grammar.Validate
import GrammarInference.Grammar.Format
import GrammarInference.Grammar.Compact

/-!
# Learners

A learner asks queries, keeps rules and classes in its memory, and may fail. What it has put into
its memory before a failure stays there.
-/

namespace GrammarInference

/-- Why learning ends without a result. -/
inductive Failure
  /-- There are no seeds. -/
  | noSeeds
  /-- A seed is not accepted. -/
  | seedRejected (shown seed : Text)
  /-- The oracle gave no answer. -/
  | oracle (fault : OracleFault)
  /-- A node has no default text. -/
  | render (fault : RenderFault)
  /-- A class has a member that is not a single character where one is needed. -/
  | unsuitableMember
  /-- The grammar is not in order. -/
  | grammar (error : GrammarError)
  deriving Repr, DecidableEq

/-- What is said when there are no seeds. -/
def noSeedsMessage : Text := "No seed inputs supplied".toList

/-- What is said when a seed is not accepted. -/
def seedRejectedMessage (shown seed : Text) : Text :=
  "Seed input has been rejected by oracle: ".toList ++ shown ++ "\n  Seed: ".toList
    ++ Text.quoted seed

/-- What a learner remembers. -/
structure Memory where
  /-- The rules found so far. -/
  rules : Rules
  /-- The classes found so far, in the order in which they were found. -/
  classes : List CharClass

namespace Memory

/-- The memory without rules and classes. -/
def empty : Memory := ⟨.empty, []⟩

end Memory

/-- A computation that asks queries, works on a memory, and may fail. -/
abbrev Learner (α : Type) := ExceptT Failure (StateT Memory Query) α

/-- The texts on both sides of a region of an input. -/
structure Context where
  /-- What stands before the region. -/
  left : Text
  /-- What stands after the region. -/
  right : Text
  deriving Repr, DecidableEq

namespace Context

/-- The context of a whole input. -/
def whole : Context := ⟨[], []⟩

/-- The input with a text in the region. -/
def fill (c : Context) (t : Text) : Text := c.left ++ t ++ c.right

/-- The context of an inner region, with more text on both sides. -/
def narrow (c : Context) (left right : Text) : Context := ⟨c.left ++ left, right ++ c.right⟩

/-- Filling the inner region is filling the outer one with the text in between. -/
theorem fill_narrow (c : Context) (left right t : Text) :
    (c.narrow left right).fill t = c.fill (left ++ t ++ right) := by
  simp [fill, narrow]

@[simp] theorem fill_whole (t : Text) : whole.fill t = t := by simp [fill, whole]

end Context

namespace Learner

/-- Runs a learner on a memory, as a tree of questions. -/
def tree {α : Type} (l : Learner α) (m : Memory) : Query (Except Failure α × Memory) := l m

/-- Whether a text is accepted. -/
def accepts (t : Text) : Learner Bool :=
  fun m => .ask t fun r => .done (match r with
    | .ok b => .ok b
    | .error f => .error (.oracle f), m)

/-- Which of several texts are accepted. -/
def acceptsEach (ts : List Text) : Learner (List Bool) :=
  fun m => .askMany ts fun r => .done (match r with
    | .ok bs => .ok bs
    | .error f => .error (.oracle f), m)

/-- Whether all texts are accepted; stops at the first one that is not. -/
def acceptsAll : List Text → Learner Bool
  | [] => pure true
  | t :: rest => do
    if ← accepts t then acceptsAll rest else pure false

/-- Whether a seed is accepted, outside the budget. -/
def vouch (t : Text) : Learner Bool :=
  fun m => .vouch t fun r => .done (match r with
    | .ok b => .ok b
    | .error f => .error (.oracle f), m)

/-- Leaves a note in the log. -/
def note (n : Note) : Learner Unit := fun m => .note n (.done (.ok (), m))

/-- Ends with a failure. -/
def fail {α : Type} (f : Failure) : Learner α := fun m => .done (.error f, m)

/-- The rules in memory. -/
def rules : Learner Rules := fun m => .done (.ok m.rules, m)

/-- Sets a rule in memory. -/
def setRule (name : Text) (rule : Node) : Learner Unit :=
  fun m => .done (.ok (), { m with rules := m.rules.set name rule })

/-- The classes in memory. -/
def classes : Learner (List CharClass) := fun m => .done (.ok m.classes, m)

/-- Remembers a class, unless it is remembered already. -/
def learnClass (k : CharClass) : Learner Unit :=
  fun m => .done (.ok (), if k ∈ m.classes then m else { m with classes := m.classes ++ [k] })

/-- The result of a rendering, or its failure. -/
def ofRender (r : Except RenderFault Text) : Learner Text :=
  match r with
  | .ok t => pure t
  | .error f => fail (.render f)

/-- The printed form of a class. -/
def shownClass (k : CharClass) : Learner Text :=
  match k.format? with
  | .ok t => pure t
  | .error _ => fail .unsuitableMember

/-- The printed form of a node. -/
def shownNode (n : Node) : Learner Text :=
  match n.format? with
  | some t => pure t
  | none => fail .unsuitableMember

/-- The default text of a node under the rules in memory. -/
def render (n : Node) : Learner Text := do ofRender ((← rules).defaultText n)

/-- The default texts of nodes under the rules in memory, one after another. -/
def renderAll (ns : List Node) : Learner Text := do ofRender ((← rules).defaultTexts ns)

end Learner

end GrammarInference
