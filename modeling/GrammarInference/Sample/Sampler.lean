import GrammarInference.Grammar.Validate
import GrammarInference.Grammar.Format
import GrammarInference.Sample.Derivation
import GrammarInference.Sample.Parameters
import GrammarInference.Sample.Twister

/-!
# Sampling inputs

A sample starts from the default derivation of one of the root's options and is changed by
mutations, one place at a time: a character of a literal is swapped for a member of its class, an
option is chosen anew, a repetition gets a new count, a reference is expanded anew. Once a
reference lies at the greatest depth, only base branches are chosen for it.
-/

namespace GrammarInference

/-- What is sampled from, and how. -/
structure Sampler where
  /-- The grammar. -/
  grammar : Grammar
  /-- How counts and branches are drawn. -/
  parameters : Parameters
  /-- Samples are cut to this length. -/
  maxLength : Option Nat
  /-- How many mutations a sample gets. -/
  mutations : Nat
  /-- The depth from which only base branches are chosen. -/
  maxDepth : Nat
  /-- The default derivations that samples start from. -/
  bases : List Derivation

/-- Why there is no sampler. -/
inductive SamplerError
  /-- A parameter makes no sense. -/
  | parameter (e : ParameterError)
  /-- The grammar is not in order. -/
  | grammar (e : GrammarError)
  /-- A repetition that has to be shown cannot be printed. -/
  | unprintable
  /-- An option of the root has no default derivation. -/
  | derive (f : DeriveFault)

/-- The settings of a sampler, apart from grammar and parameters. -/
structure SamplerRequest where
  /-- Samples are cut to this length. -/
  maxLength : Option Int := none
  /-- How many mutations a sample gets. -/
  mutations : Int := 1
  /-- The depth from which only base branches are chosen. -/
  maxDepth : Int := 100

/-- A computation that makes random choices and may fail. -/
abbrev Drawing (α : Type) := ExceptT DeriveFault Draw α

namespace Drawing

/-- Ends with a failure. -/
def fail {α : Type} (f : DeriveFault) : Drawing α := (.done (.error f) : Draw _)

/-- Chooses an entry of a list. -/
def oneOf {α : Type} (xs : List α) : Drawing α :=
  (Draw.oneOf xs).bind fun x => .done (match x with
    | some a => .ok a
    | none => .error .nothingToChoose)

/-- Chooses a position among `others + 1`. -/
def position (others : Nat) : Drawing Nat := (.choose others fun i => .done (.ok i.val) : Draw _)

/-- Draws a number from zero up to, and without, one. -/
def unit : Drawing Float := (.unit fun x => .done (.ok x) : Draw _)

/-- Leaves a note in the log. -/
def note (n : Note) : Drawing Unit := (.note n (.done (.ok ())) : Draw _)

end Drawing

namespace Parameters

/-- The counts that a resampled repetition may get: those that both the parameters and its own
range allow. -/
def countBounds (p : Parameters) (x : Bounds) : Nat × Nat :=
  (max p.minRepeat x.min, match x.max with
    | none => p.maxRepeat
    | some m => min p.maxRepeat m)

/-- The first weight whose sum with those before it exceeds a number, counted from `i`; the last
weight if there is none. -/
def bucket (draw : Float) : Float → Nat → List Float → Nat
  | _, i, [] => i - 1
  | total, i, w :: rest =>
    let total := total + w
    if draw < total then i else bucket draw total (i + 1) rest

/-- Lets a count grow as long as draws fall below a weight, at most `left` times. -/
def growCount (weight : Float) : Nat → Nat → Drawing Nat
  | 0, count => pure count
  | left + 1, count => do
    if (← Drawing.unit) < weight then growCount weight left (count + 1) else pure count

/-- Draws a count for a repetition. -/
def repeatCount (p : Parameters) (x : Bounds) : Drawing Nat := do
  let draw ← Drawing.unit
  let i := bucket draw 0.0 0 p.distribution
  let first := p.minRepeat + i
  -- The last weight stands for all greater counts as well.
  let count ← if i + 1 = p.distribution.length then
      growCount (p.distribution.getLast p.nonempty) (p.maxRepeat - first) first
    else pure first
  let (low, high) := p.countBounds x
  return min (max count low) high

end Parameters

namespace Sampler

/-- Chooses a branch for a reference at a depth. A branch that refers back to its rule is taken
with the chance of a recursive branch, and never from the greatest depth on. -/
def chooseBranch (s : Sampler) (name : Text) (depth : Nat) : Drawing Node := do
  match s.grammar.rules.get? name with
  | none => Drawing.fail (.unknownRule name)
  | some rule =>
    let base := rule.branches.filter fun b => !b.refersTo name
    let recursive := rule.branches.filter fun b => b.refersTo name
    if recursive.isEmpty then Drawing.oneOf base
    else if depth < s.maxDepth then
      if (← Drawing.unit) < s.parameters.recursionProbability then Drawing.oneOf recursive
      else Drawing.oneOf base
    else
      Drawing.note ⟨.debug, "Recursion depth limit ".toList ++ Number.decimal s.maxDepth
        ++ " reached in ".toList ++ name⟩
      Drawing.oneOf base

/-- `count` derivations, one after another. -/
def several (d : Drawing Derivation) : Nat → Drawing (List Derivation)
  | 0 => pure []
  | count + 1 => do
    let first ← d
    let rest ← several d count
    return first :: rest

mutual

/-- A random derivation of a node, where `reference` derives a branch of a rule that is referred
to at a depth. -/
def deriveWith (p : Parameters) (reference : Text → Nat → Drawing Derivation) (depth : Nat) :
    Node → Drawing Derivation
  | .literal l => return Derivation.leaf (.literal l) l.text depth
  | .sequence cs => do
    return Derivation.ofParts (.sequence cs) depth (← deriveAllWith p reference depth cs)
  | .alternation [] => return Derivation.ofParts (.alternation []) depth []
  | .alternation (o :: rest) => do
    let d ← optionWith p reference depth (← Drawing.position rest.length) (o :: rest)
    return Derivation.ofParts (.alternation (o :: rest)) depth [d]
  | .repetition b x => do
    let count ← p.repeatCount x
    return Derivation.ofParts (.repetition b x) depth
      (← several (deriveWith p reference depth b) count)
  | .recursive name => do
    return Derivation.ofParts (.recursive name) depth [← reference name depth]

/-- Random derivations of several nodes. -/
def deriveAllWith (p : Parameters) (reference : Text → Nat → Drawing Derivation) (depth : Nat) :
    List Node → Drawing (List Derivation)
  | [] => return []
  | n :: rest => do
    let d ← deriveWith p reference depth n
    return d :: (← deriveAllWith p reference depth rest)

/-- A random derivation of the option at a position. -/
def optionWith (p : Parameters) (reference : Text → Nat → Drawing Derivation) (depth : Nat) :
    Nat → List Node → Drawing Derivation
  | _, [] => Drawing.fail .nothingToChoose
  | 0, o :: _ => deriveWith p reference depth o
  | i + 1, _ :: rest => optionWith p reference depth i rest

end

/-- How many references may follow each other in a derivation beyond those that its grammar and the
greatest depth account for. The number does not matter where base branches do not refer to each
other in a circle: there no derivation follows as many references as that. Where they do, a
derivation may have no end, and every number has derivations beyond it; this one is no smaller than
the number of calls that the machine usually allows. -/
def referenceLimit : Nat := 1000

/-- A random derivation of a branch of a rule that is referred to at a depth, following at most
`steps` references in a row. The branch lies one level deeper. -/
def deriveReference (s : Sampler) : Nat → Text → Nat → Drawing Derivation
  | 0, _, _ => Drawing.fail .tooDeep
  | steps + 1, name, depth => do
    let branch ← s.chooseBranch name depth
    deriveWith s.parameters (s.deriveReference steps) (depth + 1) branch

/-- A random derivation of a node at a depth. -/
def derive (s : Sampler) (n : Node) (depth : Nat) : Drawing Derivation :=
  deriveWith s.parameters (s.deriveReference (s.maxDepth + s.grammar.rules.size + referenceLimit))
    depth n

/-- Swaps a character of a literal, or derives any other node anew. -/
def mutateHere (s : Sampler) (d : Derivation) : Drawing Derivation := do
  match d.node with
  | .literal l =>
    let i ← Drawing.oneOf (Derivation.freePositions l)
    let members := (((l.classes[i]?).getD none).map CharClass.characters).getD []
    match ← Drawing.oneOf members with
    | .text t =>
      return Derivation.leaf d.node (d.text.take i ++ t ++ d.text.drop (i + 1)) d.depth
    | _ => Drawing.fail .notText
  | n => s.derive n d.depth

/-- Mutates a derivation at the end of a path. -/
def mutateAt (s : Sampler) : List Nat → Derivation → Drawing Derivation
  | [], d => s.mutateHere d
  | i :: path, d =>
    match d.parts[i]? with
    | none => return d
    | some part => do
      let part ← s.mutateAt path part
      return d.withParts (d.parts.set i part)

/-- Mutates a derivation in one of its mutable places, if there is any. -/
def mutate (s : Sampler) (d : Derivation) : Drawing Derivation := do
  let paths := d.mutablePaths
  if paths.isEmpty then return d
  s.mutateAt (← Drawing.oneOf paths) d

/-- Mutates a derivation several times. -/
def mutateTimes (s : Sampler) : Nat → Derivation → Drawing Derivation
  | 0, d => return d
  | times + 1, d => do s.mutateTimes times (← s.mutate d)

/-- The derivation of a sample. -/
def sampleDerivation (s : Sampler) : Drawing Derivation := do
  s.mutateTimes s.mutations (← Drawing.oneOf s.bases)

/-- A text cut to the greatest length. -/
def cut (s : Sampler) (t : Text) : Text :=
  match s.maxLength with
  | none => t
  | some n => t.take n

/-- A sample. -/
def sample (s : Sampler) : Drawing Text := do return s.cut (← s.sampleDerivation).text

/-! ### Making a sampler -/

/-- The first repetition of the grammar that no count of the parameters suits. -/
def unsuitable? (g : Grammar) (p : Parameters) : Option Node :=
  g.walk.find? fun n => match n with
    | .repetition _ x => (p.countBounds x).2 < (p.countBounds x).1
    | _ => false

/-- The default derivations of several nodes. -/
def basesOf (r : Rules) : List Node → Except DeriveFault (List Derivation)
  | [] => .ok []
  | n :: rest =>
    match r.derive n 0 with
    | .error f => .error f
    | .ok d =>
      match basesOf r rest with
      | .error f => .error f
      | .ok ds => .ok (d :: ds)

/-- The default derivations of several nodes, as a machine makes them. -/
def basesOn (m : Machine) (r : Rules) : List Node → Except DeriveFault (List Derivation)
  | [] => .ok []
  | n :: rest =>
    match r.deriveOn m n 0 with
    | .error f => .error f
    | .ok d =>
      match basesOn m r rest with
      | .error f => .error f
      | .ok ds => .ok (d :: ds)

/-- A sampler for a grammar, if settings, grammar and parameters are in order, where `derive` gives
the derivations of the root's options. -/
def makeWith (derive : Rules → List Node → Except DeriveFault (List Derivation)) (g : Grammar)
    (p : Parameters) (r : SamplerRequest) : Except SamplerError Sampler :=
  if r.maxLength.any (· < 0) then .error (.parameter .negativeMaxLength)
  else if r.mutations < 0 then .error (.parameter .negativeMutations)
  else if r.maxDepth < 0 then .error (.parameter .negativeMaxDepth)
  else match g.validate with
    | .error e => .error (.grammar e)
    | .ok () =>
      match unsuitable? g p with
      | some n =>
        match n.format? with
        | none => .error .unprintable
        | some shown => .error (.parameter (.noCount shown p.minRepeat p.maxRepeat))
      | none =>
        match derive g.rules g.root.branches with
        | .error f => .error (.derive f)
        | .ok bases => .ok {
            grammar := g
            parameters := p
            maxLength := r.maxLength.map Int.toNat
            mutations := r.mutations.toNat
            maxDepth := r.maxDepth.toNat
            bases }

/-- A sampler for a grammar, with derivations of any size. -/
def make (g : Grammar) (p : Parameters) (r : SamplerRequest) : Except SamplerError Sampler :=
  makeWith basesOf g p r

/-- A sampler for a grammar, as a machine makes it. -/
def makeOn (m : Machine) (g : Grammar) (p : Parameters) (r : SamplerRequest) :
    Except SamplerError Sampler :=
  makeWith (basesOn m) g p r

end Sampler

end GrammarInference
