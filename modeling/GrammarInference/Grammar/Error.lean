import GrammarInference.Grammar.Render
import GrammarInference.Json.Reader

/-!
# What can be wrong with a grammar

`NodeFault` is what can be wrong with a single saved node, `GrammarError` with a whole grammar:
its text, its saved form, or its rules.
-/

namespace GrammarInference

/-- What is wrong with a saved node. -/
inductive NodeFault
  /-- A value has the wrong type for its place. -/
  | wrongType
  /-- A field is missing. -/
  | missingField (name : Text)
  /-- The kind of node is not known. -/
  | unknownType (shown : Text)
  /-- The text of a literal is no string. -/
  | textNotString
  /-- The number of classes differs from the number of characters. -/
  | classCount (text : Text) (classes : Nat)
  /-- A bound of a repetition is no integer. -/
  | boundsNotIntegers
  /-- The target of a reference is no string. -/
  | targetNotString
  /-- The least count is negative. -/
  | negativeMin
  /-- The greatest count is below the least one. -/
  | maxBelowMin
  /-- The nodes lie too deep within each other. -/
  | tooDeep
  deriving Repr, DecidableEq

/-- The wording of a fault; a wrong type has none. -/
def NodeFault.message : NodeFault → Text
  | .wrongType => []
  | .missingField name => Text.quoted name
  | .unknownType shown => "Unknown node type: ".toList ++ shown
  | .textNotString => "Literal text must be a string".toList
  | .classCount text classes =>
    "Literal ".toList ++ Text.quoted text ++ " has ".toList ++ Number.decimal classes
      ++ " classes for ".toList ++ Number.decimal text.length ++ " characters".toList
  | .boundsNotIntegers => "Repetition bounds must be integers".toList
  | .targetNotString => "Recursive target must be a string".toList
  | .negativeMin => "Repetition min must be non-negative".toList
  | .maxBelowMin => "Repetition max must not be below min".toList
  | .tooDeep => Json.depthMessage

/-- What is wrong with a grammar. -/
inductive GrammarError
  /-- Its text is not JSON. -/
  | invalidJson (e : Json.ReadError)
  /-- Its text has an integer with too many digits. -/
  | tooManyDigits (count : Nat)
  /-- Its text spells a surrogate that stands by itself, which is no character. -/
  | loneSurrogate
  /-- The machine lacks something for reading it. -/
  | shortage (s : Shortage)
  /-- Its saved form is no object. -/
  | notObject
  /-- Its format version is not known. -/
  | unsupportedVersion (shown : Text)
  /-- Its saved form does not describe nodes and rules. -/
  | malformed (fault : NodeFault)
  /-- A rule that was asked for does not exist. -/
  | unknownRule (name : Text)
  /-- A reference goes to a rule that does not exist. -/
  | danglingReference (name : Text)
  /-- All branches of a rule refer back to it. -/
  | noBaseCase (name : Text)
  /-- Base branches of rules refer to each other in a circle. -/
  | baseCycle (names : List Text)
  deriving Repr, DecidableEq

/-- The wording of an error. -/
def GrammarError.message : GrammarError → Text
  | .invalidJson e => "Invalid grammar JSON: ".toList ++ e.message
  | .tooManyDigits count => Number.tooManyDigitsMessage count
  | .loneSurrogate => Json.Problem.loneSurrogate.name
  | .shortage _ => "the document cannot be read".toList
  | .notObject => "Grammar data must be a JSON object".toList
  | .unsupportedVersion shown => "Unsupported grammar version: ".toList ++ shown
  | .malformed .wrongType => "Malformed grammar".toList
  | .malformed fault => "Malformed grammar: ".toList ++ fault.message
  | .unknownRule name => "Unknown rule: ".toList ++ name
  | .danglingReference name => "Reference to unknown rule: ".toList ++ name
  | .noBaseCase name => noBaseCaseMessage name
  | .baseCycle names =>
    "Base cases of rules ".toList ++ Text.quotedList names ++ " refer to each other".toList

/-- The rule with a name, or the error that there is none. -/
def Grammar.resolve (g : Grammar) (name : Text) : Except GrammarError Node :=
  match g.rules.get? name with
  | some rule => .ok rule
  | none => .error (.unknownRule name)

end GrammarInference
