import GrammarInference.Grammar.Rules
import GrammarInference.Machine

/-!
# Default rendering

Every node has a default text: a literal stands for itself, an alternation takes its first option,
a repetition its least count, and a reference the first branch of its rule that does not refer
back to the rule.

Following references from base branch to base branch ends within as many steps as there are rules,
unless base branches refer to each other in a circle; that case has an outcome of its own.

`defaultText` is the text as such, of any length and however deep the grammar; it is written over a
way to put copies together, since what holds of rendering often holds whatever becomes of copies.
`render` is what a machine does: it goes into each node by a call, puts texts together where it has
room for them, and stops at the first thing that it lacks.

The main statements say how the rendering of a list of nodes splits.
-/

namespace GrammarInference

/-- Why a node has no default text. -/
inductive RenderFault
  /-- A reference goes to a rule that does not exist. -/
  | missingRule (name : Text)
  /-- All branches of a rule refer back to it. -/
  | noBaseCase (name : Text)
  /-- Base branches refer to each other in a circle. -/
  | circular
  /-- The machine lacks something. -/
  | shortage (s : Shortage)
  deriving Repr, DecidableEq

/-- What is said about a rule all of whose branches refer back to it. -/
def noBaseCaseMessage (name : Text) : Text := "Rule ".toList ++ name ++ " has no base case".toList

/-- A way to put copies of a text together. -/
abbrev Copier := Text → Nat → Except RenderFault Text

/-- Copies of any length. -/
def Copier.unbounded : Copier := fun t n => .ok (Text.times t n)

namespace Node

mutual

/-- The default text of a node, where `rule` gives the text of a reference. -/
def renderWith (copier : Copier) (rule : Text → Except RenderFault Text) :
    Node → Except RenderFault Text
  | .literal l => .ok l.text
  | .sequence cs => renderAllWith copier rule cs
  | .alternation [] => .ok []
  | .alternation (o :: _) => renderWith copier rule o
  | .repetition b x =>
    match renderWith copier rule b with
    | .ok t => copier t x.min
    | .error e => .error e
  | .recursive name => rule name

/-- The default texts of several nodes, one after another. -/
def renderAllWith (copier : Copier) (rule : Text → Except RenderFault Text) :
    List Node → Except RenderFault Text
  | [] => .ok []
  | n :: rest =>
    match renderWith copier rule n with
    | .error e => .error e
    | .ok t =>
      match renderAllWith copier rule rest with
      | .error e => .error e
      | .ok ts => .ok (t ++ ts)

end

end Node

namespace Rules

/-- The default text of a reference, following at most `steps` references in a row. -/
def renderRule (copier : Copier) (r : Rules) : Nat → Text → Except RenderFault Text
  | 0, _ => .error .circular
  | steps + 1, name =>
    match r.get? name with
    | none => .error (.missingRule name)
    | some rule =>
      match rule.firstBase? name with
      | none => .error (.noBaseCase name)
      | some branch => branch.renderWith copier (r.renderRule copier steps)

/-- The default text of a node, with copies put together by `copier`. -/
def renderBy (copier : Copier) (r : Rules) (n : Node) : Except RenderFault Text :=
  n.renderWith copier (r.renderRule copier (r.size + 1))

/-- The default texts of several nodes, one after another. -/
def renderAllBy (copier : Copier) (r : Rules) (ns : List Node) : Except RenderFault Text :=
  Node.renderAllWith copier (r.renderRule copier (r.size + 1)) ns

/-- The default text of a node, of any length. -/
def defaultText (r : Rules) (n : Node) : Except RenderFault Text := r.renderBy .unbounded n

/-- The default texts of several nodes, one after another, of any length. -/
def defaultTexts (r : Rules) (ns : List Node) : Except RenderFault Text :=
  r.renderAllBy .unbounded ns

@[simp] theorem renderAllBy_nil (copier : Copier) (r : Rules) :
    r.renderAllBy copier [] = .ok [] := rfl

theorem renderBy_sequence (copier : Copier) (r : Rules) (ns : List Node) :
    r.renderBy copier (.sequence ns) = r.renderAllBy copier ns := by
  simp [renderBy, renderAllBy, Node.renderWith]

theorem renderAllBy_singleton (copier : Copier) (r : Rules) (n : Node) :
    r.renderAllBy copier [n] = r.renderBy copier n := by
  simp only [renderAllBy, renderBy, Node.renderAllWith]
  split <;> simp_all

/-- A list of nodes and the single node it collapses to have the same default text. -/
theorem renderBy_sequenceOf (copier : Copier) (r : Rules) (ns : List Node) :
    r.renderBy copier (Node.sequenceOf ns) = r.renderAllBy copier ns := by
  unfold Node.sequenceOf
  split
  · rw [renderAllBy_singleton]
  · exact renderBy_sequence copier r ns

end Rules

/-! ### Rendering on a machine -/

namespace Node

/-- How many calls it takes to render a node, those for its parts aside. The parts of a sequence are
gone through by a call of its own. -/
def renderCalls : Node → Nat
  | .sequence _ => 2
  | _ => 1

mutual

/-- The default text of a node while so many calls are left, where `rule` gives the text of a
reference. -/
def renderOn (m : Machine) (rule : Nat → Text → Except RenderFault Text) (left : Nat) (n : Node) :
    Except RenderFault Text :=
  if left < n.renderCalls then .error (.shortage .tooDeep)
  else match n with
    | .literal l => .ok l.text
    | .sequence cs =>
      match renderEachOn m rule (left - 2) cs with
      | .error e => .error e
      | .ok ts => (m.joined ts).mapError .shortage
    | .alternation [] => .ok []
    | .alternation (o :: _) => renderOn m rule (left - 1) o
    | .repetition b x =>
      match renderOn m rule (left - 1) b with
      | .error e => .error e
      | .ok t => (m.copies t x.min).mapError .shortage
    | .recursive name => rule (left - 1) name

/-- The default texts of several nodes. -/
def renderEachOn (m : Machine) (rule : Nat → Text → Except RenderFault Text) (left : Nat) :
    List Node → Except RenderFault (List Text)
  | [] => .ok []
  | n :: rest =>
    match renderOn m rule left n with
    | .error e => .error e
    | .ok t =>
      match renderEachOn m rule left rest with
      | .error e => .error e
      | .ok ts => .ok (t :: ts)

end

end Node

namespace Rules

/-- The default text of a reference while so many calls are left. Every reference takes a call, so
that `steps` need not exceed the calls that the machine allows. -/
def renderRuleOn (m : Machine) (r : Rules) : Nat → Nat → Text → Except RenderFault Text
  | 0, _, _ => .error (.shortage .tooDeep)
  | steps + 1, left, name =>
    match r.get? name with
    | none => .error (.missingRule name)
    | some rule =>
      match rule.firstBase? name with
      | none => .error (.noBaseCase name)
      | some branch => branch.renderOn m (r.renderRuleOn m steps) left

/-- The default text of a node, as a machine renders it. -/
def render (m : Machine) (r : Rules) (n : Node) : Except RenderFault Text :=
  n.renderOn m (r.renderRuleOn m (m.calls + 1)) m.calls

end Rules

/-- The default text of a grammar, as a machine renders it: that of its root. -/
def Grammar.default (m : Machine) (g : Grammar) : Except RenderFault Text := g.rules.render m g.root

end GrammarInference
