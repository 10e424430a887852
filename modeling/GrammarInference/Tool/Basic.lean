import GrammarInference.Command.Launch
import GrammarInference.Number.Numeral
import GrammarInference.Workspace

/-!
# Tools

Small programs that the library brings along, for use as oracles. A tool is a function: of its
arguments, of what it reads and of the files it may look at. Its result says what it prints, how
it exits and how long it runs.

Arguments, input and output are texts with one character for each byte.
-/

namespace GrammarInference

namespace Tool

/-- What comes out of running a tool. -/
structure Result where
  /-- The exit status; negative if a signal ended the tool. -/
  status : Int
  /-- What it prints, one character for each byte. -/
  output : Text
  /-- How long it runs, in seconds. -/
  seconds : Float := 0
  /-- Whether it reads its input. -/
  reads : Bool := false
  /-- What it complains about, and how many characters it had printed before. -/
  complaints : List (Nat × Text) := []

namespace Result

/-- A result without output, at once. -/
def quiet (status : Int) : Result := { status, output := [] }

/-- A result with output, at once. -/
def printing (status : Int) (output : Text) : Result := { status, output }

/-- A result without output and with a complaint. -/
def complaining (status : Int) (complaint : Text) : Result :=
  { status, output := [], complaints := [(0, complaint)] }

/-- What is printed and what is complained about, in order; the first part of each pair tells
whether the text is printed. -/
def parts (r : Result) : List (Bool × Text) := go 0 r.output r.complaints
where
  /-- The parts from a position in the output on. -/
  go (position : Nat) (t : Text) : List (Nat × Text) → List (Bool × Text)
    | [] => [(true, t)]
    | (before, complaint) :: rest =>
      (true, t.take (before - position)) :: (false, complaint)
        :: go (max position before) (t.drop (before - position)) rest

end Result

/-- A complaint of a tool about a file. -/
def fileComplaint (tool name : Text) (wording : String) : Text :=
  tool ++ ": ".toList ++ name ++ ": ".toList ++ wording.toList ++ ['\n']

/-- What a tool can look at. -/
structure Surroundings where
  /-- Its arguments. -/
  arguments : List Text
  /-- Its standard input. -/
  input : Text
  /-- The files. -/
  workspace : Workspace
  /-- The directory that paths start from. -/
  directory : Place := .inside []
  /-- The file that the input comes from, if it comes from one. -/
  source : Option Place := none
  /-- The file that the output goes to, if it goes to one. -/
  target : Option Place := none
  /-- Why the input cannot be read, if it cannot. -/
  inputFault : Option String := none

end Tool

/-- A small program. -/
abbrev Tool := Tool.Surroundings → Tool.Result

namespace Tool

/-- The text with one character for each byte. -/
def ofBytes (bytes : Bytes) : Text := bytes.map fun b => Char.ofNat b.toNat

/-- The bytes that a text with one character for each byte stands for. -/
def toBytes (t : Text) : Bytes := t.map fun c => c.toNat.toUInt8

/-- A text in bytes, one character for each. -/
def spread (t : Text) : Text := ofBytes (t.flatMap Encoding.utf8Char)

/-- A text whose characters stand for bytes, with the characters that these bytes encode. -/
def gathered (t : Text) : Text := Encoding.decodeLossy .utf8 (toBytes t)

namespace Surroundings

/-- The place that a path leads to. The path is spread over bytes. -/
def locate? (s : Surroundings) (path : Text) : Option Place :=
  match s.workspace.locateFrom s.directory (gathered path) with
  | .ok p => some p
  | .error _ => none

/-- What a path names. The path is spread over bytes. -/
def held? (s : Surroundings) (path : Text) : Option Entry :=
  (s.locate? path).bind s.workspace.holding?

/-- The content of a file. The path is spread over bytes. -/
def contentOf? (s : Surroundings) (path : Text) : Option Text :=
  match s.held? path with
  | some (.file bytes) => some (ofBytes bytes)
  | some .nullDevice => some []
  | _ => none

/-- The paths that stand for the input. -/
def inputPaths : List Text := ["/dev/stdin".toList, "/dev/fd/0".toList]

/-- Whether a name stands for the input. -/
def isInput (name : Text) : Bool := name = ['-'] || inputPaths.contains name

/-- Why a file with a path cannot be read, if nothing has that path. The path is spread over
bytes. -/
def obstacle (s : Surroundings) (path : Text) : String :=
  match s.workspace.locateFrom s.directory (gathered path) with
  | .error .notDirectory => "Not a directory"
  | .error .nameTooLong => "File name too long"
  | .ok p => if s.workspace.holding? p = some .directory then "Is a directory"
    else "No such file or directory"
  | .error _ => "No such file or directory"

/-- Whether a path names the file that the output goes to. -/
def isTarget (s : Surroundings) (path : Text) : Bool :=
  match s.locate? path with
  | some p => s.target = some p && (s.workspace.holding? p).isSome
  | none => false

/-- Whether the input comes from the file that the output goes to. -/
def isCircular (s : Surroundings) : Bool := s.source.isSome && s.source = s.target

end Surroundings

/-- A whole number as the tools read it: blanks, a sign and ASCII digits. -/
def readWhole? (t : Text) : Option Int :=
  if t.all fun c => c.toNat < 128 && c ≠ '_' then Number.readInt? t else none

theorem toBytes_ofBytes (bytes : Bytes) : toBytes (ofBytes bytes) = bytes := by
  induction bytes with
  | nil => rfl
  | cons b rest ih =>
    have hv : (Char.ofNat b.toNat).toNat = b.toNat := by
      have h : b.toNat < 256 := b.toNat_lt
      have hvalid : b.toNat.isValidChar := Or.inl (by omega)
      rw [Char.ofNat, dif_pos hvalid]
      rfl
    simp only [ofBytes, toBytes, List.map_cons, List.map_map] at ih ⊢
    rw [hv, ih]
    simp

end Tool

end GrammarInference
