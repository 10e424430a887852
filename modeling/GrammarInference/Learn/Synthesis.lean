import GrammarInference.Learn.Generalize
import GrammarInference.Learn.Merge
import GrammarInference.Learn.Refine

/-!
# Learning a grammar from seeds

Every seed has to be accepted. Each is turned into a tree: its characters are generalized and the
resulting literals given structure. The trees are merged one after another, the result is refined,
made compact, and stripped of rules that it does not reach.
-/

namespace GrammarInference

namespace Rules

/-- The names that the rules of `known` refer to, added to `known`. -/
def reachStep (r : Rules) (known : List Text) : List Text :=
  Text.distinct (known ++ known.flatMap fun name => ((r.get? name).map Node.targets).getD [])

/-- All names reached within a number of steps. -/
def reachWithin (r : Rules) : Nat → List Text → List Text
  | 0, known => known
  | steps + 1, known => r.reachWithin steps (r.reachStep known)

/-- The names that a node reaches through rules. Every step reaches a new rule or ends, so that
the number of rules bounds the steps. -/
def reachable (r : Rules) (root : Node) : List Text :=
  r.reachWithin (r.size + 1) (Text.distinct root.targets)

end Rules

namespace Learner

/-- Checks the seeds in order; the first one that is not accepted is reported. -/
def checkSeeds (limits : Limits) : List Text → Learner Unit
  | [] => pure ()
  | seed :: rest => do
    let shown := showQuery (some limits.alphabet) seed
    if ← vouch seed then
      note (Note.seedAdded shown)
      checkSeeds limits rest
    else fail (.seedRejected shown seed)

/-- The tree of a seed. -/
def seedTree (limits : Limits) (seed : Text) : Learner Node := do
  let classes ← generalizeText limits seed
  let nodes := (seed.zip classes).map fun (c, k) => Node.literal (Literal.single c k)
  let tree := Node.sequenceOf (← structureRegion limits nodes Context.whole)
  note ⟨.info, "Seed tree: ".toList ++ (← shownNode tree.compact)⟩
  return tree

/-- Merges the trees of further seeds into a root. -/
def mergeSeeds (limits : Limits) : List Text → Node → Learner Node
  | [], root => return root
  | seed :: rest, root => do
    let tree ← seedTree limits seed
    mergeSeeds limits rest (← mergeRoot limits root tree)

/-- Makes a root and the rules it reaches compact, and checks the resulting grammar. -/
def finalize (root : Node) : Learner Grammar := do
  let rules ← rules
  let reached := rules.reachable root
  match reached.find? fun name => !rules.contains name with
  | some name => fail (.render (.missingRule name))
  | none =>
    let g : Grammar := ⟨root.compact, rules.filterMap (· ∈ reached) Node.compact⟩
    match g.validate with
    | .error e => fail (.grammar e)
    | .ok () =>
      match g.format? with
      | none => fail .unsuitableMember
      | some shown =>
        note ⟨.info, "Synthesized grammar:\n".toList ++ shown⟩
        return g

/-- Learns a grammar from seeds. -/
def synthesize (limits : Limits) : List Text → Learner Grammar
  | [] => fail .noSeeds
  | seed :: rest => do
    checkSeeds limits (seed :: rest)
    let tree ← seedTree limits seed
    let root ← mergeSeeds limits rest tree
    finalize (← refineAll limits root)

end Learner

namespace Session

variable {σ : Type}

/-- Runs a learner on a memory, answering its questions in a session. -/
def learn {α : Type} (s : Session σ) (o : Oracle σ) (l : Learner α) (m : Memory) :
    (Except Failure α × Memory) × Session σ :=
  (l.tree m).run o s

/-- What is noted at the end of learning. -/
def finishedNote (s : Session σ) : Note :=
  ⟨.info, "Synthesis finished: ".toList ++ Number.decimal s.queries ++ " queries, ".toList
    ++ Number.decimal s.hits ++ " cache hits".toList⟩

/-- Learns a grammar from seeds with an empty memory. Answers remembered in the session are used
again. -/
def synthesize (s : Session σ) (o : Oracle σ) (limits : Limits) (seeds : List Text) :
    Except Failure Grammar × Session σ :=
  match s.learn o (Learner.synthesize limits seeds) Memory.empty with
  | ((.ok g, _), s) => (.ok g, s.addNote s.finishedNote)
  | ((.error f, _), s) => (.error f, s)

end Session

end GrammarInference
