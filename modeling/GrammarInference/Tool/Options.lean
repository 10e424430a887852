import GrammarInference.Tool.Basic

/-!
# Options of tools

Tools share one way of reading their arguments. An option is a letter after a dash, and letters may
follow each other; or it is a name after two dashes, which may be cut short as long as it stays
clear. The value of an option is the rest of its letters, what follows an equals sign, or the next
argument. All other arguments are operands, and after `--` there are only operands.

The main statement says that arguments without a dash in front are all operands.
-/

namespace GrammarInference

namespace Tool

/-- Whether an option has a value. -/
inductive Takes
  /-- It has none. -/
  | nothing
  /-- It needs one. -/
  | value
  /-- It may have one, after an equals sign. -/
  | perhaps
  deriving Repr, DecidableEq

/-- The options of a tool, each of which stands for a `κ`. -/
structure OptionTable (κ : Type) where
  /-- The letters. -/
  letters : List (Char × κ × Takes)
  /-- The names. -/
  names : List (Text × κ × Takes)
  /-- Whether options may follow operands. -/
  anywhere : Bool := true
  /-- What stands after the letters of each argument, so that they can be told from the next. -/
  border : Option κ := none

/-- What stands in the arguments of a tool. -/
structure Arguments (κ : Type) where
  /-- The options in their order, with their values, up to a mistake. -/
  options : List (κ × Option Text)
  /-- The operands. -/
  operands : List Text
  /-- Whether there was a mistake. -/
  mistaken : Bool

namespace Arguments

variable {κ : Type}

/-- Arguments with a mistake at the front. -/
def mistake : Arguments κ := ⟨[], [], true⟩

/-- Puts an option in front. -/
def withOption (a : Arguments κ) (k : κ) (value : Option Text) : Arguments κ :=
  { a with options := (k, value) :: a.options }

/-- Puts an operand in front. -/
def withOperand (a : Arguments κ) (t : Text) : Arguments κ :=
  { a with operands := t :: a.operands }

end Arguments

namespace OptionTable

variable {κ : Type} [DecidableEq κ]

/-- The option with a name that may be cut short. -/
def named? (table : OptionTable κ) (name : Text) : Option (κ × Takes) :=
  match table.names.find? fun n => n.1 = name with
  | some n => some n.2
  | none =>
    match (table.names.filter fun n => name.isPrefixOf n.1).map Prod.snd with
    | [] => none
    | first :: others => if others.all (· = first) then some first else none

/-- Letters at the front of an argument: options with their values, whether the next argument is
one of these values, and whether there is a mistake. -/
def letterRun (table : OptionTable κ) (next : Option Text) :
    Text → List (κ × Option Text) × Bool × Bool
  | [] => ([], false, false)
  | c :: rest =>
    match table.letters.lookup c with
    | none => ([], false, true)
    | some (k, .value) =>
      match rest, next with
      | [], none => ([], false, true)
      | [], some value => ([(k, some value)], true, false)
      | value, _ => ([(k, some value)], false, false)
    | some (k, _) =>
      let (options, used, mistaken) := letterRun table next rest
      ((k, none) :: options, used, mistaken)

/-- A name with what follows it: the option with its value, and whether the next argument is that
value; nothing if there is a mistake. -/
def long? (table : OptionTable κ) (next : Option Text) (t : Text) :
    Option ((κ × Option Text) × Bool) :=
  let name := t.takeWhile (· ≠ '=')
  let attached := (t.dropWhile (· ≠ '=')).tail?
  match table.named? name, attached, next with
  | some (k, .nothing), none, _ => some ((k, none), false)
  | some (k, .perhaps), value, _ => some ((k, value), false)
  | some (k, .value), some value, _ => some ((k, some value), false)
  | some (k, .value), none, some value => some ((k, some value), true)
  | _, _, _ => none

/-- Whether an argument is an operand wherever it stands: it has no dash in front, or is one. -/
def isPlain (a : Text) : Bool := a.head? ≠ some '-' || a.length = 1

/-- Reads arguments. -/
def read (table : OptionTable κ) : List Text → Arguments κ
  | [] => ⟨[], [], false⟩
  | a :: rest =>
    if isPlain a then
      if table.anywhere then (read table rest).withOperand a else ⟨[], a :: rest, false⟩
    else if a = ['-', '-'] then ⟨[], rest, false⟩
    else match a with
      | '-' :: '-' :: t =>
        match table.long? rest.head? t with
        | none => .mistake
        | some ((k, value), used) =>
          match used, rest with
          | true, _ :: rest => (read table rest).withOption k value
          | _, rest => (read table rest).withOption k value
      | a =>
        let (options, used, mistaken) := table.letterRun rest.head? (a.drop 1)
        if mistaken then ⟨options, [], true⟩
        else
          let others := match used, rest with
            | true, _ :: rest => read table rest
            | _, rest => read table rest
          { others with
            options := options ++ table.border.toList.map (fun k => (k, none)) ++ others.options }

/-- Arguments that do not begin with a dash are operands. -/
theorem read_of_plain (table : OptionTable κ) {args : List Text}
    (h : ∀ a ∈ args, a.head? ≠ some '-') : table.read args = ⟨[], args, false⟩ := by
  induction args with
  | nil => rfl
  | cons a rest ih =>
    have ha : isPlain a = true := by simp [isPlain, h a (by simp)]
    have hrest := ih fun b hb => h b (by simp [hb])
    unfold read
    simp only [ha, if_true, hrest]
    split <;> rfl

end OptionTable

end Tool

end GrammarInference
