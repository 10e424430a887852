import GrammarInference.Tool.Shell.Expand

/-!
# Reading a line

The command of the shell that reads a line of its input into variables. A backslash takes the next
character out of the cutting, and joins two lines at a line end. The last variable gets what is
left of the line, without the separators that end it.

The main statement says that a line without separators is the value of its only variable.
-/

namespace GrammarInference

namespace Shell

namespace Builtin

/-- A line that is being cut. -/
structure LineCut where
  /-- The fields, the last one first. -/
  fields : List Text := []
  /-- The characters since the last field, the last one first. -/
  current : Text := []
  /-- How many more fields are cut off. -/
  left : Nat
  /-- Whether a blank has just ended a field. -/
  afterBlank : Bool := false
  /-- How many of the characters remain if only separators follow. -/
  kept : Option Nat := none

namespace LineCut

/-- Adds a character that is not cut at. -/
def keep (c : LineCut) (d : Char) : LineCut := { c with current := d :: c.current }

/-- Adds a character that is neither a separator nor quoted. -/
def plain (c : LineCut) (d : Char) : LineCut := { c.keep d with afterBlank := false }

/-- Adds a separator while fields are still cut off. -/
def separator (c : LineCut) (isBlank : Bool) (d : Char) : LineCut :=
  if isBlank && c.current.isEmpty then { c with afterBlank := false }
  else if c.left = 1 then
    { c.keep d with left := 0, afterBlank := isBlank, kept := some c.current.length }
  else
    { c with fields := c.current.reverse :: c.fields, current := [], left := c.left - 1,
             afterBlank := isBlank }

/-- Adds a character. -/
def add (separators : Text) (c : LineCut) (d : Char) : LineCut :=
  let ends := separators.contains d
  let isBlank := ends && (d = ' ' || d = '\t' || d = '\n')
  if c.left = 0 then
    if isBlank then { c.keep d with kept := some (c.kept.getD c.current.length) }
    else
      { c.keep d with kept := if ends && c.afterBlank then c.kept else none, afterBlank := false }
  else if c.afterBlank then
    -- One separator that is no blank still belongs to the end of the field.
    if isBlank then c else if ends then { c with afterBlank := false } else c.plain d
  else if ends then c.separator isBlank d
  else c.plain d

/-- Adds a character that may be quoted. -/
def step (separators : Text) (c : LineCut) (m : Char × Bool) : LineCut :=
  if m.2 then c.plain m.1 else c.add separators m.1

/-- The fields of a whole line. -/
def all (c : LineCut) : List Text :=
  let rest := match c.kept with
    | some n => c.current.drop (c.current.length - n)
    | none => c.current
  (if rest.isEmpty then c.fields else rest.reverse :: c.fields).reverse

/-- A character that is no separator is added to the characters before it. -/
theorem step_of_plain (separators : Text) {count : Nat} (front : Text) {d : Char}
    (hc : count ≠ 0) (hd : separators.contains d = false) :
    step separators { left := count, current := front } (d, false)
      = { left := count, current := d :: front } := by
  have hm : d ∉ separators := by simpa using hd
  simp [step, add, plain, keep, hc, hm]

end LineCut

/-- The fields of a line, whose quoted characters are marked, for a number of variables. -/
def lineFields (separators : Text) (count : Nat) (line : List (Char × Bool)) : List Text :=
  (line.foldl (LineCut.step separators) { left := count }).all

/-- A line without separators is one field. -/
theorem lineFields_of_plain (separators : Text) (count : Nat) (t : Text) (hc : count ≠ 0)
    (h : ∀ d ∈ t, separators.contains d = false) (ht : t ≠ []) :
    lineFields separators count (t.map fun d => (d, false)) = [t] := by
  have all : ∀ (t : Text) (front : Text), (∀ d ∈ t, separators.contains d = false) →
      (t.map fun d => (d, false)).foldl (LineCut.step separators)
        { left := count, current := front } = { left := count, current := t.reverse ++ front } := by
    intro t
    induction t with
    | nil => intro front _; rfl
    | cons d rest ih =>
      intro front hd
      rw [List.map_cons, List.foldl_cons, LineCut.step_of_plain separators front hc (hd d (by simp)),
        ih (d :: front) fun e he => hd e (List.mem_cons_of_mem _ he)]
      simp
  simp [lineFields, all t [] h, LineCut.all, ht]

/-- Takes a line from the input, up to its end; whether it is complete. -/
def inputLine : Act (Text × Bool) := do
  match ← Act.streamOf? 0 with
  | none => return ([], false)
  | some i =>
    let taken ← modifyGet fun ⟨world, self⟩ =>
      let (taken, world) := world.takeLine i
      (taken, ⟨world, self⟩)
    match taken with
    | none => return ([], false)
    | some taken =>
      Act.waitUntil taken.time
      let complete := taken.text.getLast? = some '\n'
      return (if complete then taken.text.dropLast else taken.text, complete)

/-- The characters of a line and which of them are quoted, and whether the next line belongs to
it. -/
def unescaped : Text → List (Char × Bool) × Bool
  | [] => ([], false)
  | '\\' :: [] => ([], true)
  | '\\' :: c :: rest =>
    let (cs, more) := unescaped rest
    ((c, true) :: cs, more)
  | c :: rest =>
    let (cs, more) := unescaped rest
    ((c, false) :: cs, more)

/-- Takes a line from the input together with the lines joined to it. Every line uses up a unit of
fuel. -/
def joinedLine (raw : Bool) : Nat → Act (List (Char × Bool) × Bool)
  | 0 => return ([], true)
  | fuel + 1 => do
    let (t, complete) ← inputLine
    let t := t.filter (· ≠ '\x00')
    if raw then return (t.map fun c => (c, false), complete)
    let (cs, more) := unescaped t
    if more && complete then
      let (next, complete) ← joinedLine raw fuel
      return (cs ++ next, complete)
    return (cs, complete)

/-- The greatest number of lines that are joined. -/
def mostLines : Nat := 100000

/-- The command that reads a line into variables. -/
def read (args : List Text) : Act Nat := do
  let (letters, names) ← options args
  if names.isEmpty then Act.fail "arg count".toList
  let (line, complete) ← joinedLine (letters.contains 'r') mostLines
  let p ← Act.self
  assignAll names (lineFields p.separators names.length line)
  return if complete then 0 else 1
where
  /-- The options: raw lines, and a text to ask with, which nobody sees. -/
  options : List Text → Act (Text × List Text)
    | ['-', 'p'] :: _ :: rest => options rest
    | a :: rest => do
      if a = ['-', 'r'] then
        let (letters, rest) ← options rest
        return ('r' :: letters, rest)
      return ([], ← Act.operands (a :: rest))
    | [] => return ([], [])
  /-- Sets variables to fields, and the ones left to nothing. -/
  assignAll : List Text → List Text → Act Unit
    | [], _ => return
    | name :: names, fields => do
      if !isName name then Act.fail (name ++ ": bad variable name".toList)
      Act.assign name (fields.head?.getD [])
      assignAll names fields.tail

end Builtin

end Shell

end GrammarInference
