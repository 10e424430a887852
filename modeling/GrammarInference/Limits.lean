import GrammarInference.Alphabet

/-!
# Limits

The bounds of a learning run: the alphabet substitutes are drawn from, how many checks a class
keeps, how many queries may be asked, and how far the searches for structure go. A request is
checked once; the first bound that makes no sense is reported.
-/

namespace GrammarInference

/-- Bounds as they are asked for. -/
structure LimitsRequest where
  /-- The alphabet, if it is one. -/
  alphabet : Option Alphabet := some .ascii
  /-- Whether every character of the alphabet is tried at every position. -/
  exhaustiveCharacters : Bool := true
  /-- The most checks a class keeps. -/
  maxChecks : Int := 8
  /-- The most distinct queries, seeds not counted. -/
  maxQueries : Option Int := none
  /-- The most repeated runs tried per region. -/
  maxRepetitionCandidates : Int := 64
  /-- The most nesting splits tried per region. -/
  maxRecursionCandidates : Int := 64
  /-- The most shorter counts tried when the minimum of a repetition is lowered. -/
  maxMinProbes : Int := 32
  /-- The number of structural passes over the merged grammar. -/
  maxRefinePasses : Int := 2

/-- Bounds of a learning run. -/
structure Limits where
  /-- The alphabet substitutes are drawn from. -/
  alphabet : Alphabet
  /-- Whether every character of the alphabet is tried at every position. -/
  exhaustiveCharacters : Bool
  /-- The most checks a class keeps. -/
  maxChecks : Nat
  /-- The most distinct queries, seeds not counted. -/
  maxQueries : Option Nat
  /-- The most repeated runs tried per region. -/
  maxRepetitionCandidates : Nat
  /-- The most nesting splits tried per region. -/
  maxRecursionCandidates : Nat
  /-- The most shorter counts tried when the minimum of a repetition is lowered. -/
  maxMinProbes : Nat
  /-- The number of structural passes over the merged grammar. -/
  maxRefinePasses : Nat
  /-- A class keeps at least one check. -/
  one_le_maxChecks : 1 ≤ maxChecks := by decide
  deriving Repr

/-- The bound of a request that makes no sense. -/
inductive LimitsError
  /-- The alphabet is none of the known ones. -/
  | notAlphabet
  /-- A class would keep no check. -/
  | maxChecks
  /-- The query budget is negative. -/
  | maxQueries
  /-- The number of repeated runs is negative. -/
  | maxRepetitionCandidates
  /-- The number of nesting splits is negative. -/
  | maxRecursionCandidates
  /-- The number of shorter counts is negative. -/
  | maxMinProbes
  /-- The number of passes is negative. -/
  | maxRefinePasses
  deriving Repr, DecidableEq

/-- The wording of an error in a request. -/
def LimitsError.message : LimitsError → Text
  | .notAlphabet => "alphabet must be an InputAlphabet".toList
  | .maxChecks => "max_checks must be at least 1".toList
  | .maxQueries => "max_queries must be non-negative or None".toList
  | .maxRepetitionCandidates => "max_repetition_candidates must be non-negative".toList
  | .maxRecursionCandidates => "max_recursion_candidates must be non-negative".toList
  | .maxMinProbes => "max_min_probes must be non-negative".toList
  | .maxRefinePasses => "max_refine_passes must be non-negative".toList

namespace Limits

/-- The bounds of a request, or the first one that makes no sense. -/
def ofRequest (r : LimitsRequest) : Except LimitsError Limits :=
  match r.alphabet with
  | none => .error .notAlphabet
  | some alphabet =>
    if h : r.maxChecks < 1 then .error .maxChecks
    else if r.maxQueries.any (· < 0) then .error .maxQueries
    else if r.maxRepetitionCandidates < 0 then .error .maxRepetitionCandidates
    else if r.maxRecursionCandidates < 0 then .error .maxRecursionCandidates
    else if r.maxMinProbes < 0 then .error .maxMinProbes
    else if r.maxRefinePasses < 0 then .error .maxRefinePasses
    else .ok {
      alphabet
      exhaustiveCharacters := r.exhaustiveCharacters
      maxChecks := r.maxChecks.toNat
      maxQueries := r.maxQueries.map Int.toNat
      maxRepetitionCandidates := r.maxRepetitionCandidates.toNat
      maxRecursionCandidates := r.maxRecursionCandidates.toNat
      maxMinProbes := r.maxMinProbes.toNat
      maxRefinePasses := r.maxRefinePasses.toNat
      one_le_maxChecks := by omega }

/-- Exhaustive character search without a query budget. -/
def standard : Limits :=
  ⟨.ascii, true, 8, none, 64, 64, 32, 2, by decide⟩

/-- A cheap search for slow oracles. -/
def strict : Limits :=
  ⟨.ascii, false, 4, some 5000, 16, 16, 8, 1, by decide⟩

/-- A wider search for fast oracles. -/
def relaxed : Limits :=
  ⟨.ascii, true, 16, none, 256, 256, 128, 4, by decide⟩

end Limits

end GrammarInference
