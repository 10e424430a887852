import GrammarInference.Learn.Learner
import GrammarInference.CharClass.Checks
import GrammarInference.Limits

/-!
# Generalizing characters

For one character of an accepted input, the characters that may stand in its place. A class that
was learned for this character before is used again if all its checks are accepted here, the most
recent one first. Otherwise the members of predefined classes whose checks are accepted, and
perhaps the whole alphabet, are tried one by one, and those accepted make a new class.
-/

namespace GrammarInference

namespace Learner

/-- The queries with each symbol in the region. -/
def substitutes (c : Context) (ss : List Symbol) : List Text := ss.map fun s => c.fill s.toText

/-- The first class whose checks are all accepted. -/
def firstConfirmed (c : Context) : List CharClass → Learner (Option CharClass)
  | [] => pure none
  | k :: rest => do
    if ← acceptsAll (substitutes c k.checks) then pure (some k) else firstConfirmed c rest

/-- Adds to the symbols known to be accepted those of `candidates` that are accepted. -/
def scan (c : Context) (candidates known : List Symbol) : Learner (List Symbol) := do
  let fresh := candidates.filter fun s => s ∉ known
  let answers ← acceptsEach (substitutes c fresh)
  let accepted := (fresh.zip answers).filterMap fun (s, ok) => if ok then some s else none
  pure (known ++ accepted)

/-- Scans the predefined classes of the observed symbol whose checks are all accepted. -/
def scanPredefined (c : Context) (observed : Symbol) :
    List CharClass → List Symbol → Learner (List Symbol)
  | [], known => pure known
  | k :: rest, known => do
    if observed ∈ k.triggers then
      if ← acceptsAll (substitutes c k.checks) then
        scanPredefined c observed rest (← scan c k.characters known)
      else scanPredefined c observed rest known
    else scanPredefined c observed rest known

/-- Scans the whole alphabet, where the limits ask for it. -/
def scanAlphabet (limits : Limits) (c : Context) (known : List Symbol) : Learner (List Symbol) :=
  if limits.exhaustiveCharacters then scan c (limits.alphabet.characters.map Symbol.ofChar) known
  else pure known

/-- Remembers a new class with the given members for an observed text. -/
def newClass (limits : Limits) (observed : Text) (known : List Symbol) : Learner CharClass := do
  let members := Symbol.setOf known
  let checks := Checks.pick members (Symbol.text observed) limits.maxChecks
  let k := CharClass.ofSymbols members (some checks) none
  if 1 < members.length then
    note (Note.generalized "character".toList
      (Text.quoted observed ++ " -> ".toList ++ (← shownClass k)))
  learnClass k
  pure k

/-- The class of an observed text, usually a single character, in its context. The input with the
text in it has to be an accepted one. -/
def generalize (limits : Limits) (c : Context) (observed : Text) : Learner CharClass := do
  let symbol := Symbol.text observed
  let candidates := ((← classes).filter fun k => symbol ∈ k.triggers).reverse
  match ← firstConfirmed c candidates with
  | some k =>
    note ⟨.debug, "Reusing class ".toList ++ (← shownClass k) ++ " for ".toList
      ++ Text.quoted observed⟩
    pure k
  | none =>
    let known ← scanPredefined c symbol CharClass.predefined [symbol]
    newClass limits observed (← scanAlphabet limits c known)

/-- The classes of the characters `rest`, which `done` precedes in an accepted input. -/
def generalizeFrom (limits : Limits) (done : Text) : Text → Learner (List CharClass)
  | [] => pure []
  | c :: rest => do
    let k ← generalize limits ⟨done, rest⟩ [c]
    let ks ← generalizeFrom limits (done ++ [c]) rest
    pure (k :: ks)

/-- The classes of all characters of an accepted input. -/
def generalizeText (limits : Limits) (t : Text) : Learner (List CharClass) :=
  generalizeFrom limits [] t

end Learner

end GrammarInference
