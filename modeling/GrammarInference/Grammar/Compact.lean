import GrammarInference.Grammar.Node

/-!
# Compact nodes

A node is made compact by putting the parts of inner sequences into the outer one, leaving out
empty literals inside sequences and joining literals that have become neighbours. Each character
keeps its class.
-/

namespace GrammarInference

namespace Node

/-- Puts a part in front of the parts of a sequence: an empty literal disappears, and a literal
joins one that follows it. -/
def consPart (part : Node) (rest : List Node) : List Node :=
  match part with
  | .literal a =>
    if a.text.isEmpty then rest
    else match rest with
      | .literal b :: more => .literal (a.append b) :: more
      | rest => .literal a :: rest
  | part => part :: rest

/-- Joins neighbouring literals and leaves out empty ones. -/
def joinParts (parts : List Node) : List Node := parts.foldr consPart []

theorem joinParts_cons (part : Node) (parts : List Node) :
    joinParts (part :: parts) = consPart part (joinParts parts) := rfl

mutual

/-- A compact form of a node. -/
def compact : Node → Node
  | .literal l => .literal l
  | .sequence cs => sequenceOf (joinParts (compactParts cs))
  | .alternation os => .alternation (compactAll os)
  | .repetition b x => .repetition (compact b) x
  | .recursive t => .recursive t

/-- The compact forms of several nodes. -/
def compactAll : List Node → List Node
  | [] => []
  | n :: rest => compact n :: compactAll rest

/-- The parts of the compact forms of several nodes, in one list. -/
def compactParts : List Node → List Node
  | [] => []
  | n :: rest => (compact n).children ++ compactParts rest

end

end Node

end GrammarInference
