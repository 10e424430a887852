import GrammarInference.CharClass.Symbol

/-!
# Character classes

A character class says which symbols may stand in for an observed character. Its triggers are the
symbols whose appearance makes it worth trying, its checks are the members that are asked about
again before the class is reused elsewhere. Triggers and characters are sets, kept as increasing
lists; checks keep their order.

The main statements say that the union of two classes has the members of both and keeps its
characters strictly increasing.
-/

namespace GrammarInference

/-- The symbols that may stand at one position. -/
structure CharClass where
  /-- The symbols whose appearance makes the class worth trying. -/
  triggers : List Symbol
  /-- The members. -/
  characters : List Symbol
  /-- The members that are asked about again before the class is reused. -/
  checks : List Symbol
  deriving Repr, DecidableEq

namespace CharClass

/-- How many members a class has. -/
def size (k : CharClass) : Nat := k.characters.length

/-- Whether a symbol is a member. -/
def contains (k : CharClass) (s : Symbol) : Bool := s ∈ k.characters

/-- Whether two classes have a member in common. -/
def overlaps (a b : CharClass) : Bool := a.characters.any b.contains

/-- The class with the given members; triggers and checks are all members unless given. -/
def ofSymbols (characters : List Symbol) (checks triggers : Option (List Symbol)) : CharClass :=
  let members := Symbol.setOf characters
  ⟨(triggers.map Symbol.setOf).getD members, members, checks.getD members⟩

/-- The class with the given characters as members, triggers and checks. -/
def ofChars (characters : List Char) : CharClass :=
  ofSymbols (characters.map Symbol.ofChar) none none

/-- The class of a single character. -/
def singleton (c : Char) : CharClass := ofChars [c]

/-- The members of both classes. The checks of `a` come first, and at most `maxChecks` are kept; a
negative number leaves out that many at the end. -/
def union (a b : CharClass) (maxChecks : Int) : CharClass where
  triggers := Symbol.setOf (a.triggers ++ b.triggers)
  characters := Symbol.setOf (a.characters ++ b.characters)
  checks := Text.takeSigned maxChecks (Text.distinct (a.checks ++ b.checks))

/-- Whether the members of both classes can be put in order, and their checks compared. -/
def canUnite (a b : CharClass) : Bool :=
  Symbol.comparable (a.union b 0).characters && (a.checks ++ b.checks).all Symbol.isAtom

/-- Two classes cannot be united because of their members or checks. -/
structure IncomparableMembers where
  deriving Repr, DecidableEq

/-- The union of two classes, if they can be united. -/
def union? (a b : CharClass) (maxChecks : Int) : Except IncomparableMembers CharClass :=
  if a.canUnite b then .ok (a.union b maxChecks) else .error {}

theorem contains_union {a b : CharClass} {m : Int} {s : Symbol} :
    (a.union b m).contains s = (a.contains s || b.contains s) := by
  simp [contains, union]

theorem pairwise_characters_union (a b : CharClass) (m : Int) :
    (a.union b m).characters.Pairwise (· < ·) :=
  Symbol.pairwise_setOf _

/-- A class of characters given by a range, with the characters to check. -/
def ofRange (first last : Char) (checks : List Char) : CharClass :=
  ofSymbols ((List.range' first.toNat (last.toNat + 1 - first.toNat)).map
    fun n => Symbol.ofChar (Char.ofNat n)) (some (checks.map Symbol.ofChar)) none

/-- The classes that are tried first for a character they contain: digits, small letters, capital
letters, and space with tab. -/
def predefined : List CharClass :=
  [ofRange '0' '9' ['0', '5', '9'], ofRange 'a' 'z' ['a', 'm', 'z'],
    ofRange 'A' 'Z' ['A', 'M', 'Z'],
    ofSymbols [Symbol.ofChar ' ', Symbol.ofChar '\t']
      (some [Symbol.ofChar ' ', Symbol.ofChar '\t']) none]

end CharClass

end GrammarInference
