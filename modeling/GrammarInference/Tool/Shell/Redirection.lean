import GrammarInference.Tool.Shell.Expand

/-!
# Turned inputs and outputs

The numbers of a command's inputs and outputs can be turned to files, to documents of the script
or to what other numbers stand for. First all words are expanded, then the files are opened one
after another; if one cannot be used, all is as it was before.
-/

namespace GrammarInference

namespace Shell

namespace Redirect

/-- A number whose meaning changes. -/
def number : Redirect → Nat
  | .turn stream _ _ => stream
  | .document stream _ => stream

/-- A redirection with its word expanded. -/
inductive Ready
  /-- To what a text names. -/
  | turn (stream : Nat) (direction : Direction) (target : Text)
  /-- To a document. -/
  | document (stream : Nat) (w : Word)

/-- Expands the word of a redirection. -/
def prepare (r : Runner) : Redirect → Act Ready
  | .turn stream direction w => do
    let t ← Expand.text r w
    if direction = .same then
      match t with
      | [c] => if !c.isDigit && c ≠ '-' then Act.fail "Syntax error: Bad fd number".toList
      | _ => Act.fail "Syntax error: Bad fd number".toList
    return .turn stream direction t
  | .document stream n => do
    return .document stream ((← Act.self).documents[n]?.getD [])

/-- Why a file cannot be read. -/
def readFault (f : FileFault) : Text :=
  match f with
  | .nameTooLong => "File name too long".toList
  | _ => "No such file".toList

/-- Why a file cannot be written. -/
def writeFault (f : FileFault) : Text :=
  match f with
  | .nameTooLong => "File name too long".toList
  | _ => "Directory nonexistent".toList

/-- The number that a path stands for, if it is one of the standard ones. -/
def standardNumber? (path : Text) : Option Nat :=
  if path = "/dev/stdin".toList ∨ path = "/dev/fd/0".toList then some 0
  else if path = "/dev/stdout".toList ∨ path = "/dev/fd/1".toList then some 1
  else if path = "/dev/stderr".toList ∨ path = "/dev/fd/2".toList then some 2
  else none

/-- The stream of a file that is opened, or why it cannot be. -/
def opened (around : Tool.Surroundings) (protectsFiles : Bool) (direction : Direction)
    (path : Text) : Except Text (Stream × Workspace) :=
  let w := around.workspace
  let located := w.locateFrom around.directory (Tool.gathered path)
  let reads := direction = .read
  let refuse (wording : Text) : Except Text (Stream × Workspace) :=
    .error ((if reads then "cannot open ".toList else "cannot create ".toList) ++ path
      ++ ": ".toList ++ wording)
  match located with
  | .error f => refuse (if reads then readFault f else writeFault f)
  | .ok p =>
    match w.holding? p with
    | some .nullDevice => .ok (⟨.null, direction = .read || direction = .update, !reads, 0⟩, w)
    | some .directory =>
      if reads then .ok (⟨.file p 0 false, true, false, 0⟩, w)
      else refuse "Is a directory".toList
    | held =>
      if reads then
        if held.isSome then .ok (⟨.file p 0 false, true, false, 0⟩, w)
        else refuse "No such file".toList
      else if path.getLast? = some '/' then refuse "Is a directory".toList
      else
        match direction with
        | .append =>
          .ok (⟨.file p 0 true, false, true, 0⟩, if held.isSome then w else w.put p [])
        | .update => .ok (⟨.file p 0 false, true, true, 0⟩, if held.isSome then w else w.put p [])
        | .write =>
          if protectsFiles && held.isSome then refuse "File exists".toList
          else .ok (⟨.file p 0 false, false, true, 0⟩, w.put p [])
        | _ => .ok (⟨.file p 0 false, false, true, 0⟩, w.put p [])

/-- Makes a number stand for a stream, or for nothing. -/
def connect (number : Nat) (i : Option Nat) : Act Unit :=
  Act.become fun p =>
    let others := p.streams.filter fun s => s.1 ≠ number
    { p with streams := match i with
      | some i => (number, i) :: others
      | none => others }

/-- Opens a new stream for a number. -/
def openFor (number : Nat) (s : Stream) : Act Unit := do
  let i ← modifyGet fun ⟨world, self⟩ =>
    let (i, world) := world.opened s
    (i, ⟨world, self⟩)
  connect number (some i)

/-- Turns a number to what another one stands for. Tells whether that is anything. -/
def duplicate (number other : Nat) : Act Bool := do
  match ← Act.streamOf? other with
  | some i =>
    connect number (some i)
    return true
  | none =>
    Act.complain (Number.decimal other ++ ": Bad file descriptor".toList)
    return false

/-- Carries a redirection out. Tells whether that is possible. -/
def apply (r : Runner) : Ready → Act Bool
  | .turn number .same target => do
    if target = ['-'] then
      connect number none
      return true
    duplicate number (Number.ofDigits target)
  | .turn number direction target => do
    match standardNumber? target with
    | some other => duplicate number other
    | none =>
      match opened (← Act.surroundings [] []) (← Act.hasOption 'C') direction target with
      | .ok (s, workspace) =>
        Act.affect fun w => { w with workspace }
        openFor number s
        return true
      | .error wording =>
        Act.complain wording
        return false
  | .document number w => do
    let t := Piece.joined (← Act.self).joint (← r.expand w)
    openFor number ⟨.holding t, true, false, 0⟩
    return true

/-- Makes numbers stand for what they stood for before. -/
def restore (before : List (Nat × Nat)) (numbers : List Nat) : Act Unit :=
  Act.become fun p => { p with
    streams := before.filter (fun s => s.1 ∈ numbers)
      ++ p.streams.filter fun s => s.1 ∉ numbers }

/-- Carries redirections out one after another. Tells whether that is possible. -/
def applyAll (r : Runner) : List Ready → Act Bool
  | [] => return true
  | ready :: rest => do
    if ← apply r ready then applyAll r rest else return false

/-- Carries redirections out for good; if that is impossible, nothing has changed. -/
def keep (r : Runner) (rs : List Redirect) : Act Bool := do
  if rs.isEmpty then return true
  let before := (← Act.self).streams
  let readies ← rs.mapM (prepare r)
  if ← applyAll r readies then return true
  restore before (rs.map number)
  return false

/-- Carries something out with inputs and outputs turned elsewhere; nothing if that is
impossible. -/
def during {α : Type} (r : Runner) (rs : List Redirect) (act : Act α) : Act (Option α) := do
  if rs.isEmpty then return some (← act)
  let before := (← Act.self).streams
  if !(← keep r rs) then return none
  try
    let a ← act
    restore before (rs.map number)
    return some a
  catch s =>
    restore before (rs.map number)
    throw s

end Redirect

end Shell

end GrammarInference
