import GrammarInference.Learn.Learner
import GrammarInference.Learn.Runs
import GrammarInference.Learn.Align
import GrammarInference.Limits

/-!
# Merging nodes

Two nodes that derive accepted inputs at the same place are merged into one that derives what both
derive: classes are united, repetitions get a common body and range, sequences are aligned and
merged part by part. Whatever new default text or new member a merge brings in has to be accepted.
Where two nodes do not correspond, or their correspondence is not accepted, they become
alternatives, and where even that is not accepted the merge is rejected.

The steps are written over a function `inner` that merges smaller nodes.
-/

namespace GrammarInference

/-- How an attempt to merge two nodes by their structure ends. -/
inductive MergeOutcome
  /-- The nodes correspond; this is the merged node. -/
  | merged (n : Node)
  /-- The nodes do not correspond. -/
  | unrelated
  /-- The nodes correspond, but the merged node is not accepted. -/
  | rejected
  deriving DecidableEq

/-- Options as a single node: one option stands for itself. -/
def Node.ofOptions : List Node → Node
  | [n] => n
  | ns => .alternation ns

namespace Learner

/-- Adds options that are not there yet, as long as their default texts are accepted. -/
def addOptions (c : Context) : List Node → List Node → Learner (Option (List Node))
  | [], options => pure (some options)
  | o :: rest, options => do
    if o ∈ options then addOptions c rest options
    else if ← accepts (c.fill (← render o)) then addOptions c rest (options ++ [o])
    else
      note (Note.rejected "alternation".toList (← shownNode o.compact))
      return none

/-- Adds `b`, or its options, to the options of `a`. -/
def alternate (a b : Node) (c : Context) : Learner (Option Node) := do
  match ← addOptions c b.branches a.branches with
  | none => return none
  | some [o] => return some o
  | some options =>
    let alternation := Node.alternation options
    note (Note.generalized "alternation".toList (← shownNode alternation.compact))
    return some alternation

/-- Whether all symbols are texts that are accepted in a context; stops at the first one that is
not. -/
def acceptsSymbols (c : Context) : List Symbol → Learner Bool
  | [] => pure true
  | .text t :: rest => do
    if ← accepts (c.fill t) then acceptsSymbols c rest else pure false
  | _ :: _ => fail .unsuitableMember

/-- Unites the classes of the characters `x` and `y` if they overlap; the members of the second
class that are checked must be accepted too. -/
def uniteClasses (limits : Limits) (x : Char) (ka : CharClass) (y : Char) (kb : CharClass)
    (c : Context) : Learner MergeOutcome := do
  if !ka.overlaps kb then return .unrelated
  if !kb.checks.all Symbol.isAtom then fail .unsuitableMember
  -- Only members that the first class does not have are new at this place.
  let extra := (Text.distinct (kb.checks ++ [Symbol.ofChar y])).filter fun s => !ka.contains s
  if ← acceptsSymbols c extra then
    match ka.union? kb limits.maxChecks with
    | .error _ => fail .unsuitableMember
    | .ok union =>
      note (Note.generalized "class union".toList ((← shownClass ka) ++ " | ".toList
        ++ (← shownClass kb) ++ " -> ".toList ++ (← shownClass union)))
      return .merged (.literal (Literal.single x union))
  else
    note (Note.rejected "class union".toList
      ((← shownClass ka) ++ " | ".toList ++ (← shownClass kb)))
    return .rejected

/-- Merges two literals of a single character each. -/
def mergeLiterals (limits : Limits) (a b : Literal) (c : Context) : Learner MergeOutcome :=
  match a.text, b.text, a.positions, b.positions with
  | [x], [y], [ka], [kb] =>
    match ka, kb with
    | some ka, some kb =>
      if ka = kb then return .merged (.literal a) else uniteClasses limits x ka y kb c
    | _, _ => if x = y then return .merged (.literal a) else return .unrelated
  | _, _, _, _ => return .unrelated

/-- The body and range of a node as a repetition; any other node is one copy or more of itself. -/
def asRepetition : Node → Node × Bounds
  | .repetition b x => (b, x)
  | n => (n, Bounds.atLeast 1)

/-- The counts at which a merged repetition is tried: the least one, the least one above zero, and
the one after the least. -/
def trialCounts (least : Nat) : List Nat :=
  if least = 0 then [0, 1] else [least, least + 1]

/-- Whether all given counts of a body are accepted. -/
def countsAccepted (c : Context) (body : Text) : List Nat → Learner Bool
  | [] => pure true
  | count :: rest => do
    if ← accepts (c.fill (Text.times body count)) then countsAccepted c body rest
    else
      note (Note.rejected "repetition merge".toList
        (Number.decimal count ++ " x ".toList ++ showQuery none body))
      pure false

/-- Merges two repetitions: the bodies are merged, and the range covers both ranges. -/
def mergeRepetitions (inner : Node → Node → Context → Learner (Option Node)) (a b : Node)
    (c : Context) : Learner MergeOutcome := do
  let (bodyA, boundsA) := asRepetition a
  let (bodyB, boundsB) := asRepetition b
  let bodyText ← render bodyA
  -- The bodies are merged in the place of the first copy, with the others after it.
  let others := Text.times bodyText (max boundsA.min 1 - 1)
  match ← inner bodyA bodyB (c.narrow [] others) with
  | none => return .rejected
  | some body =>
    let bounds := boundsA.hull boundsB
    let mergedText ← render body
    if ← countsAccepted c mergedText (trialCounts bounds.min) then
      return .merged (.repetition body bounds)
    else return .rejected

/-- Merges the nodes of two lists of equal length pairwise. `done` precedes them, `rest` follows
the first list. -/
def mergePairs (inner : Node → Node → Context → Learner (Option Node)) (c : Context)
    (rest : List Node) : List Node → List Node → List Node → Learner (Option (List Node))
  | a :: as, b :: bs, done => do
    let before ← renderAll done
    let after ← renderAll (as ++ rest)
    match ← inner a b (c.narrow before after) with
    | none => return none
    | some m => mergePairs inner c rest as bs (done ++ [m])
  | _, _, done => pure (some done)

/-- Merges the sides of a block pairwise, if they have equally many nodes. -/
def mergeSides (inner : Node → Node → Context → Learner (Option Node)) (c : Context)
    (rest : List Node) (b : Block Node) (done : List Node) : Learner (Option (List Node)) :=
  if b.left.length = b.right.length then mergePairs inner c rest b.left b.right done
  else pure none

/-- Merges the blocks of an alignment one after another. A block with equally many nodes on both
sides is merged pairwise; any other block, or one whose pairs are rejected, becomes a pair of
alternatives. -/
def mergeBlocks (inner : Node → Node → Context → Learner (Option Node)) (c : Context) :
    List (Block Node) → List Node → Learner (Option (List Node))
  | [], done => pure (some done)
  | b :: blocks, done => do
    -- What is still to be merged stands there as in the first list.
    let rest := blocks.flatMap Block.left
    match ← mergeSides inner c rest b done with
    | some done => mergeBlocks inner c blocks done
    | none =>
      let before ← renderAll done
      let after ← renderAll rest
      match ← alternate (Node.sequenceOf b.left) (Node.sequenceOf b.right)
          (c.narrow before after) with
      | none => return none
      | some m => mergeBlocks inner c blocks (done ++ [m])

/-- Merges two nodes as sequences. They cannot be aligned where a check is a list or an object. -/
def mergeSequences (inner : Node → Node → Context → Learner (Option Node)) (a b : Node)
    (c : Context) : Learner MergeOutcome := do
  if !(a.children ++ b.children).all fun n => n.key.isIndexable then fail .unsuitableMember
  match ← mergeBlocks inner c (Align.blocks Node.key a.children b.children) [] with
  | none => return .rejected
  | some merged => return .merged (Node.sequenceOf merged)

/-- Whether two rules are the same up to their names. -/
def sameRule (a b : Text) : Learner Bool := do
  if a = b then return true
  let rules ← rules
  match rules.get? b with
  | none => fail (.render (.missingRule b))
  | some ruleB =>
    match rules.get? a with
    | none => fail (.render (.missingRule a))
    | some ruleA => return ruleB.rename b a = ruleA

/-- Merges two nodes by their structure. -/
def mergeStructure (inner : Node → Node → Context → Learner (Option Node)) (limits : Limits)
    (a b : Node) (c : Context) : Learner MergeOutcome := do
  match a, b with
  | .literal a, .literal b => mergeLiterals limits a b c
  | .repetition .., _ => mergeRepetitions inner a b c
  | _, .repetition .. => mergeRepetitions inner a b c
  | .alternation options, _ =>
    if b ∈ options then return .merged a else return .unrelated
  | .recursive s, .recursive t =>
    if ← sameRule s t then return .merged a else return .unrelated
  | .sequence _, _ => mergeSequences inner a b c
  | _, .sequence _ => mergeSequences inner a b c
  | _, _ => return .unrelated

/-- Merges two nodes, with alternatives in place of a merged structure if there is none. -/
def mergeStep (inner : Node → Node → Context → Learner (Option Node)) (limits : Limits)
    (a b : Node) (c : Context) : Learner (Option Node) := do
  if a = b then return some a
  match ← mergeStructure inner limits a b c with
  | .merged m => return some m
  | _ => alternate a b c

/-- Merges two nodes with at most `depth` merges inside each other. -/
def mergeWithin (limits : Limits) : Nat → Node → Node → Context → Learner (Option Node)
  | 0, a, b, c => alternate a b c
  | depth + 1, a, b, c => mergeStep (mergeWithin limits depth) limits a b c

/-- Merges two nodes. Merges inside are of smaller nodes, so that the sizes bound their depth. -/
def merge (limits : Limits) (a b : Node) (c : Context) : Learner (Option Node) :=
  mergeWithin limits (a.size + b.size) a b c

/-- Merges two nodes by their structure alone. -/
def mergeByStructure (limits : Limits) (a b : Node) (c : Context) : Learner MergeOutcome :=
  mergeStructure (mergeWithin limits (a.size + b.size)) limits a b c

/-- Merges a tree into an existing one, if they correspond and the merged default text is
accepted. -/
def tryMerge (limits : Limits) (existing tree : Node) : Learner (Option Node) := do
  if existing = tree then return some existing
  match ← mergeByStructure limits existing tree Context.whole with
  | .merged m =>
    let text ← render m
    let before ← render existing
    if text = before then return some m
    else if ← accepts text then return some m
    else return none
  | _ => return none

/-- Merges a tree into the first option that allows it. The options before it come first in the
result. -/
def mergeIntoFirst (limits : Limits) (tree : Node) : List Node → Learner (Option (List Node))
  | [] => pure none
  | o :: rest => do
    match ← tryMerge limits o tree with
    | some m => return some (m :: rest)
    | none =>
      match ← mergeIntoFirst limits tree rest with
      | some merged => return some (o :: merged)
      | none => return none

/-- Merges the tree of a seed into the grammar built so far, or keeps it as another option. -/
def mergeRoot (limits : Limits) (root tree : Node) : Learner Node := do
  let options := root.branches
  match ← mergeIntoFirst limits tree options with
  | some merged => return Node.ofOptions merged
  | none =>
    if tree ∈ options then return Node.ofOptions options
    else
      note ⟨.info, "Seed tree kept as alternative #".toList
        ++ Number.decimal (options.length + 1)⟩
      return Node.ofOptions (options ++ [tree])

end Learner

end GrammarInference
