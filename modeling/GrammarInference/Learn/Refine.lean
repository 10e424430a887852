import GrammarInference.Learn.Structure

/-!
# Refining a merged grammar

After merging, sequences are given structure once more. Alternatives and bodies of repetitions are
refined in their place, and a refinement whose default text changed is kept only if the oracle
accepts it there.
-/

namespace GrammarInference

namespace Learner

mutual

/-- Refines a node in its context. -/
def refine (limits : Limits) : Node → Context → Learner Node
  | .sequence cs, c => do return Node.sequenceOf (← structureRegion limits cs c)
  | .alternation [], _ => return .alternation []
  | .alternation (o :: rest), c => do
    let first ← refine limits o c
    let others ← refineOptions limits rest c
    return .alternation (first :: others)
  | .repetition b x, c => do
    let count := max x.min 1
    let bodyText ← render b
    let body ← refine limits b (c.narrow [] (Text.times bodyText (count - 1)))
    let newText ← render body
    if newText = bodyText then return .repetition body x
    else if ← accepts (c.fill (Text.times newText count)) then return .repetition body x
    else return .repetition b x
  | .literal l, _ => return .literal l
  | .recursive t, _ => return .recursive t

/-- Refines the options after the first one; an option stays as it is if its refinement is not
accepted. -/
def refineOptions (limits : Limits) : List Node → Context → Learner (List Node)
  | [], _ => return []
  | o :: rest, c => do
    let refined ← refine limits o c
    let kept ← if refined = o then pure o
      else do
        if ← accepts (c.fill (← render refined)) then pure refined else pure o
    let others ← refineOptions limits rest c
    return kept :: others

end

/-- Refines a root in up to `passes` passes, as long as it changes and stays accepted. -/
def refinePasses (limits : Limits) : Nat → Node → Learner Node
  | 0, root => return root
  | passes + 1, root => do
    let refined ← refine limits root Context.whole
    if refined = root then return root
    else if ← accepts (← render refined) then refinePasses limits passes refined
    else return root

/-- Refines a root as often as the limits allow. -/
def refineAll (limits : Limits) (root : Node) : Learner Node :=
  refinePasses limits limits.maxRefinePasses root

end Learner

end GrammarInference
