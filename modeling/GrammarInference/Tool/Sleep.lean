import GrammarInference.Number.Measure
import GrammarInference.Tool.Options

/-!
# Waiting

The tool `sleep` waits for the sum of some times. A time is a number of seconds, minutes, hours or
days: decimal, hexadecimal with a power of two, or infinite.
-/

namespace GrammarInference

namespace Tool

namespace Sleep

/-- The seconds in the unit that a letter stands for. -/
def unit? : Text → Option Float
  | [] => some 1
  | ['s'] => some 1
  | ['m'] => some 60
  | ['h'] => some 3600
  | ['d'] => some 86400
  | _ => none

/-- The seconds that an argument denotes. They are not negative. -/
def duration? (a : Text) : Option Float := do
  let (negative, t) := Number.takeSign (a.dropWhile Text.isPlainBlank)
  let (x, rest) ← Number.Measure.number? t
  let scale ← unit? rest
  if (negative && x ≠ 0) || x.isNaN then none else some (x * scale)

/-- The options of `sleep`: to explain itself. -/
def table : OptionTable Unit where
  letters := []
  names := [("help".toList, (), .nothing), ("version".toList, (), .nothing)]

end Sleep

/-- The tool `sleep`. -/
def sleep : Tool := fun s =>
  let a := Sleep.table.read s.arguments
  if !a.options.isEmpty then .quiet 0
  else if a.mistaken || s.arguments.isEmpty then .quiet 1
  else match a.operands.mapM Sleep.duration? with
    | some ds => { status := 0, output := [], seconds := ds.foldl (· + ·) 0 }
    | none => .quiet 1

end Tool

end GrammarInference
