import GrammarInference.Learn.Learner
import GrammarInference.Learn.Runs
import GrammarInference.Limits

/-!
# Finding structure

A region of nodes in an accepted input is given structure: a run of copies becomes a repetition,
and if there is none, a part of the region that can hold the whole region again becomes a
reference to a new rule. Every such step is kept only after the very texts it produces have been
accepted, and the parts that it leaves are given structure in turn.

The steps are written over a function `inner` that gives structure to smaller regions;
`structureWithin` ties the knot, one level deeper for every region inside another.
-/

namespace GrammarInference

namespace Learner

/-- Lowers a count as long as one copy less is accepted, at most `probes` times. -/
def lowerCount (c : Context) (body : Text) : Nat → Nat → Learner Nat
  | 0, count => pure count
  | probes + 1, count =>
    match count with
    | 0 => pure 0
    | fewer + 1 => do
      if ← accepts (c.fill (Text.times body fewer)) then lowerCount c body probes fewer
      else pure (fewer + 1)

/-- Whether copies of a text are accepted in a context where `raw` is. -/
def copiesKept (c : Context) (raw body : Text) (count : Nat) : Learner Bool :=
  if Text.times body count = raw then pure true else accepts (c.fill (Text.times body count))

/-- Turns a run into a repetition, if one more copy is accepted before and after the copy has been
given structure. The least count is lowered as far as the oracle agrees, and the nodes on both
sides are given structure around it. -/
def repetitionOf (inner : List Node → Context → Learner (List Node)) (limits : Limits)
    (nodes : List Node) (c : Context) (run : Run nodes.length) :
    Learner (Option (List Node)) := do
  let left := nodes.take run.start
  let first := (nodes.drop run.start).take run.unit
  let others := (nodes.drop (run.start + run.unit)).take (run.unit * (run.count - 1))
  let right := nodes.drop (run.start + run.unit * run.count)
  let leftText ← renderAll left
  let rightText ← renderAll right
  let here := c.narrow leftText rightText
  let firstText ← renderAll first
  let othersText ← renderAll others
  let raw := firstText ++ othersText
  if ← accepts (here.fill (raw ++ firstText)) then
    -- The other copies stay as they are while the first one is given structure.
    let body := Node.sequenceOf (← inner first (here.narrow [] othersText))
    let bodyText ← render body
    -- Structure may change the default text of the body; then as many copies have to pass again.
    if !(← copiesKept here raw bodyText run.count) then return none
    if !(← accepts (here.fill (Text.times bodyText (run.count + 1)))) then return none
    let least ← lowerCount here bodyText limits.maxMinProbes run.count
    let repetition := Node.repetition body (Bounds.atLeast least)
    note (Note.generalized "repetition".toList
      ((← shownNode repetition.compact) ++ " from ".toList ++ Number.decimal run.count
        ++ " copies".toList))
    -- Each side is given structure around what stands there from now on.
    let repeated := Text.times bodyText least
    let newLeft ← inner left (c.narrow [] (repeated ++ rightText))
    let newLeftText ← renderAll newLeft
    let newRight ← inner right (c.narrow (newLeftText ++ repeated) [])
    return some (newLeft ++ [repetition] ++ newRight)
  else
    note (Note.rejected "repetition".toList (showQuery none raw))
    return none

/-- Turns the first run that allows it into a repetition. -/
def firstRepetition (inner : List Node → Context → Learner (List Node)) (limits : Limits)
    (nodes : List Node) (c : Context) : List (Run nodes.length) → Learner (Option (List Node))
  | [] => pure none
  | run :: rest => do
    match ← repetitionOf inner limits nodes c run with
    | some result => pure (some result)
    | none => firstRepetition inner limits nodes c rest

/-- A way to split the region into an outer part on the left, an inner part and an outer part on
the right, by the two positions in between. -/
abbrev Split := Nat × Nat

/-- The splits of a region of `size` nodes with nodes on both sides of the inner part, those with
the longest inner part first, from left to right. -/
def splits (size : Nat) : List Split :=
  (List.range (size - 1)).reverse.flatMap fun middle =>
    (List.range' 1 (size - middle - 1)).map fun i => (i, i + middle)

/-- The splits that are tried: those with some text on both sides. -/
def nestingSplits (texts : List Text) (limit : Nat) : List Split :=
  ((splits texts.length).filter fun (i, j) =>
    !(Text.concat (texts.take i)).isEmpty && !(Text.concat (texts.drop j)).isEmpty).take limit

/-- Turns the region into a reference to a new rule, if the region may stand in place of the inner
part of a split, and once more within that. The rule's base is the region itself with the inner
part given structure; its other branch has a reference to the rule in place of the inner part. -/
def nestingOf (inner : List Node → Context → Learner (List Node)) (nodes : List Node)
    (c : Context) (texts : List Text) (split : Split) : Learner (Option (List Node)) := do
  let (i, j) := split
  let outerLeft := Text.concat (texts.take i)
  let outerRight := Text.concat (texts.drop j)
  let deeper := outerLeft ++ Text.concat texts ++ outerRight
  let deepest := outerLeft ++ deeper ++ outerRight
  if !(← accepts (c.fill deeper)) then return none
  if !(← accepts (c.fill deepest)) then return none
  let name := 'r' :: Number.decimal (← rules).size
  -- The name is taken at once, since structure in the inner part may add rules of its own.
  setRule name (Node.sequenceOf nodes)
  let middle ← inner ((nodes.drop i).take (j - i)) (c.narrow outerLeft outerRight)
  let base := Node.sequenceOf (nodes.take i ++ middle ++ nodes.drop j)
  let nested := Node.sequenceOf (nodes.take i ++ [Node.recursive name] ++ nodes.drop j)
  let rule := Node.alternation [base, nested]
  setRule name rule
  note (Note.generalized "recursion".toList
    (name ++ " ::= ".toList ++ (← shownNode rule.compact)))
  return some [Node.recursive name]

/-- Turns the region into a reference by the first split that allows it. -/
def firstNesting (inner : List Node → Context → Learner (List Node)) (nodes : List Node)
    (c : Context) (texts : List Text) : List Split → Learner (Option (List Node))
  | [] => pure none
  | split :: rest => do
    match ← nestingOf inner nodes c texts split with
    | some result => pure (some result)
    | none => firstNesting inner nodes c texts rest

/-- The default texts of nodes. -/
def renderEach : List Node → Learner (List Text)
  | [] => pure []
  | n :: rest => do
    let t ← render n
    let ts ← renderEach rest
    pure (t :: ts)

/-- Gives structure to a region, where `inner` does so for smaller ones. -/
def structureStep (inner : List Node → Context → Learner (List Node)) (limits : Limits)
    (nodes : List Node) (c : Context) : Learner (List Node) := do
  if nodes.isEmpty then return []
  let keys := nodes.map Node.key
  let runs := (Run.candidates keys limits.maxRepetitionCandidates).map fun r =>
    (⟨r.start, r.unit, r.count, r.one_le_unit, r.two_le_count, by simpa [keys] using r.fits⟩ :
      Run nodes.length)
  match ← firstRepetition inner limits nodes c runs with
  | some result => return result
  | none =>
    if nodes.length ≤ 1 then return nodes
    let texts ← renderEach nodes
    match ← firstNesting inner nodes c texts
        (nestingSplits texts limits.maxRecursionCandidates) with
    | some result => return result
    | none => return nodes

/-- Gives structure to a region with at most `depth` regions inside each other. -/
def structureWithin (limits : Limits) : Nat → List Node → Context → Learner (List Node)
  | 0, nodes, _ => pure nodes
  | depth + 1, nodes, c => structureStep (structureWithin limits depth) limits nodes c

/-- Gives structure to a region. Regions inside it are shorter, so that its length bounds how deep
they lie. -/
def structureRegion (limits : Limits) (nodes : List Node) (c : Context) : Learner (List Node) :=
  structureWithin limits nodes.length nodes c

end Learner

end GrammarInference
