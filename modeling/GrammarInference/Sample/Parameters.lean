import GrammarInference.Number.Decimal

/-!
# Sampling parameters

How often counts of a repetition are drawn, how likely a recursive branch is, and between which
counts resampled repetitions stay. Weights are floating-point numbers or integers; integers keep
their form in messages, and a sum is an integer as long as all its terms are.
-/

namespace GrammarInference

/-- A weight of a distribution. -/
inductive Weight
  /-- An integer. -/
  | whole (n : Int)
  /-- A floating-point number. -/
  | real (x : Float)

namespace Weight

/-- A weight as a floating-point number; infinity stands for an integer beyond all of them. -/
def toFloat : Weight → Float
  | .whole n => Number.ofInt n
  | .real x => x

/-- Whether a weight is an integer beyond all floating-point numbers. -/
def isHuge : Weight → Bool
  | .whole n => (Number.ofInt n).isInf
  | .real _ => false

/-- The sum of two weights, if integers fit among the floating-point numbers where they have to. -/
def add? : Weight → Weight → Option Weight
  | .whole m, .whole n => some (.whole (m + n))
  | a, b => if a.isHuge || b.isHuge then none else some (.real (a.toFloat + b.toFloat))

/-- The sum of a weight and several others, from left to right. -/
def sumFrom? (start : Weight) : List Weight → Option Weight
  | [] => some start
  | w :: rest => (start.add? w).bind fun s => s.sumFrom? rest

/-- The sum of several weights, as a number that can be compared with one. -/
def sum? (ws : List Weight) : Option Weight :=
  (sumFrom? (.whole 0) ws).filter fun s => !s.isHuge

/-- A weight in messages. -/
def shown : Weight → Text
  | .whole n => Number.showInt n
  | .real x => Number.showReal x

/-- Whether a weight is below zero. -/
def isNegative : Weight → Bool
  | .whole n => n < 0
  | .real x => x < 0

/-- Whether a weight is one up to a small error. -/
def isNearOne (w : Weight) : Bool :=
  let x := w.toFloat
  if x.isInf then false
  else
    let difference := (1.0 - x).abs
    difference ≤ 1e-9 || difference ≤ (1e-9 * x).abs || difference ≤ 1e-6

end Weight

/-- Parameters as they are asked for. -/
structure ParametersRequest where
  /-- Weights of the counts from `minRepeat` on; the last one stands for all further counts. -/
  distribution : List Weight := [.real 0.2, .real 0.2, .real 0.2, .real 0.4]
  /-- The chance of a recursive branch. -/
  recursionProbability : Float := 0.2
  /-- The smallest count. -/
  minRepeat : Int := 1
  /-- The greatest count. -/
  maxRepeat : Int := 200

/-- Parameters of sampling. -/
structure Parameters where
  /-- Weights of the counts from `minRepeat` on; the last one stands for all further counts. -/
  distribution : List Float
  /-- The chance of a recursive branch. -/
  recursionProbability : Float
  /-- The smallest count. -/
  minRepeat : Nat
  /-- The greatest count. -/
  maxRepeat : Nat
  /-- There is at least one weight. -/
  nonempty : distribution ≠ []
  /-- The counts make a range. -/
  ordered : minRepeat ≤ maxRepeat

/-- What is wrong with parameters. -/
inductive ParameterError
  /-- There are no weights. -/
  | emptyDistribution
  /-- A weight is negative. -/
  | negativeWeight
  /-- An integer among the weights, or their sum, is beyond all floating-point numbers. -/
  | hugeWeight
  /-- The weights do not sum to one. -/
  | badSum (sum : Text)
  /-- The chance of a recursive branch is no probability. -/
  | badProbability
  /-- The smallest count is negative. -/
  | negativeMinRepeat
  /-- The counts are no range. -/
  | reversedRepeat
  /-- The greatest length is negative. -/
  | negativeMaxLength
  /-- The number of mutations is negative. -/
  | negativeMutations
  /-- The greatest depth is negative. -/
  | negativeMaxDepth
  /-- A repetition of the grammar has no count in the range. -/
  | noCount (node : Text) (least greatest : Nat)
  deriving DecidableEq

/-- The wording of an error; an integer beyond all floating-point numbers has none. -/
def ParameterError.message : ParameterError → Text
  | .emptyDistribution => "distribution must not be empty".toList
  | .negativeWeight => "distribution must not contain negative values".toList
  | .hugeWeight => []
  | .badSum sum => "distribution must sum to 1, got ".toList ++ sum
  | .badProbability => "recursion_probability must be in [0, 1]".toList
  | .negativeMinRepeat => "min_repeat must be non-negative".toList
  | .reversedRepeat => "min_repeat must not exceed max_repeat".toList
  | .negativeMaxLength => "max_length must be non-negative".toList
  | .negativeMutations => "mutations must be non-negative".toList
  | .negativeMaxDepth => "max_depth must be non-negative".toList
  | .noCount node least greatest =>
    "Repetition ".toList ++ node ++ " allows no count in [".toList ++ Number.decimal least
      ++ ", ".toList ++ Number.decimal greatest ++ [']']

namespace Parameters

/-- The parameters of a request, or the first thing that is wrong with it. -/
def ofRequest (r : ParametersRequest) : Except ParameterError Parameters :=
  if hd : r.distribution = [] then .error .emptyDistribution
  else if r.distribution.any Weight.isNegative then .error .negativeWeight
  else match Weight.sum? r.distribution with
  | none => .error .hugeWeight
  | some sum =>
  if !sum.isNearOne then .error (.badSum sum.shown)
  else if !(0.0 ≤ r.recursionProbability && r.recursionProbability ≤ 1.0) then
    .error .badProbability
  else if hm : r.minRepeat < 0 then .error .negativeMinRepeat
  else if hr : r.maxRepeat < r.minRepeat then .error .reversedRepeat
  else .ok {
    distribution := r.distribution.map Weight.toFloat
    recursionProbability := r.recursionProbability
    minRepeat := r.minRepeat.toNat
    maxRepeat := r.maxRepeat.toNat
    nonempty := by simpa using hd
    ordered := by omega }

end Parameters

end GrammarInference
