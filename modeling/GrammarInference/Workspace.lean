import GrammarInference.Command.Encoding
import GrammarInference.Text.Quoted

/-!
# Workspace

The directory that the program works in, and what else is known of the file system, as a value:
directories, and the bytes of files. Outside the working directory only a few standard directories
and the null device are always there.

A path is followed component by component; every component but the last has to name a directory.
Whatever is there, the operating system may refuse to use it, for want of a permission or for
another reason of its own; what it refuses is part of the workspace.

The main statements say that a file that was written is read back, and that writing one file
leaves the others as they were.
-/

namespace GrammarInference

/-- A place in the file system. -/
inductive Place
  /-- A place below the working directory, by its path from there. -/
  | inside (path : List Text)
  /-- A place elsewhere, by its path from the root. -/
  | outside (path : List Text)
  deriving Repr, DecidableEq

/-- A refusal of the operating system that does not come from what is at a path: its number, and its
wording. -/
structure Refusal where
  /-- The number of the error. -/
  number : Nat
  /-- Its wording. -/
  wording : Text
  /-- Nothing said about what is at the path. -/
  other : number ∉ [2, 20, 21, 36] := by decide
  deriving Repr, DecidableEq

/-- There is no permission. -/
def Refusal.permission : Refusal := ⟨13, "Permission denied".toList, by decide⟩

/-- How a place is used. -/
inductive Access
  /-- A path leads through the directory, or something in it is looked at. -/
  | search
  /-- The names in the directory are listed. -/
  | list
  /-- The file is read. -/
  | read
  /-- The file is opened to be written, and made if it is not there. -/
  | write
  /-- What is written to the file finds room. -/
  | fill
  deriving Repr, DecidableEq

/-- Why a file cannot be used. -/
inductive FileFault
  /-- Nothing has this path. -/
  | missing
  /-- The path leads through a file. -/
  | notDirectory
  /-- The path names a directory. -/
  | isDirectory
  /-- The path, or a component of it, is too long. -/
  | nameTooLong
  /-- The path contains a null character. -/
  | nullCharacter
  /-- The operating system refuses. -/
  | refused (r : Refusal)
  deriving Repr, DecidableEq

namespace FileFault

/-- The number of a fault in messages of the operating system, and its wording there. -/
def system? : FileFault → Option (Nat × Text)
  | .missing => some (2, "No such file or directory".toList)
  | .notDirectory => some (20, "Not a directory".toList)
  | .isDirectory => some (21, "Is a directory".toList)
  | .nameTooLong => some (36, "File name too long".toList)
  | .nullCharacter => none
  | .refused r => some (r.number, r.wording)

/-- A message of the operating system about a path. -/
def systemMessage (number : Nat) (wording path : Text) : Text :=
  "[Errno ".toList ++ Number.decimal number ++ [']', ' '] ++ wording ++ [':', ' ']
    ++ Text.quoted path

/-- The wording of a fault. -/
def message (path : Text) (f : FileFault) : Text :=
  match f.system? with
  | some (number, wording) => systemMessage number wording path
  | none => "embedded null byte".toList

end FileFault

/-- What a place holds. -/
inductive Entry
  /-- A directory. -/
  | directory
  /-- A file with its content. -/
  | file (content : Bytes)
  /-- The null device: always empty, whatever is written to it. -/
  | nullDevice
  deriving Repr, DecidableEq

namespace Place

/-- The place that one component of a path leads to. -/
def step (p : Place) (component : Text) : Place :=
  if component = [] ∨ component = ['.'] then p
  else if component = ['.', '.'] then
    match p with
    | .inside [] => .outside ["tmp".toList]
    | .inside path => .inside path.dropLast
    | .outside path => .outside path.dropLast
  else match p with
    | .inside path => .inside (path ++ [component])
    | .outside path => .outside (path ++ [component])

/-- The directory that a place lies in, and its name there; nothing for the two starting places. -/
def split? : Place → Option (Place × Text)
  | .inside path => path.getLast?.map fun name => (.inside path.dropLast, name)
  | .outside path => path.getLast?.map fun name => (.outside path.dropLast, name)

/-- The place with a given name in a directory. -/
def child (p : Place) (name : Text) : Place :=
  match p with
  | .inside path => .inside (path ++ [name])
  | .outside path => .outside (path ++ [name])

theorem split?_child (p : Place) (name : Text) : (p.child name).split? = some (p, name) := by
  cases p <;> simp [child, split?]

/-- The directories that are always there: the working directory and the standard ones. -/
def standardDirectories : List Place :=
  .inside [] :: .outside [] ::
    [["bin"], ["dev"], ["etc"], ["tmp"], ["usr"], ["usr", "bin"], ["usr", "local"],
      ["usr", "local", "bin"]].map fun path => .outside (path.map String.toList)

/-- The place of the null device. -/
def nullDevice : Place := .outside ["dev".toList, "null".toList]

end Place

/-- The working directory and what else is known of the file system. -/
structure Workspace where
  /-- The directories. -/
  directories : List Place
  /-- The files; the first entry for a place counts. -/
  files : List (Place × Bytes)
  /-- What the operating system refuses; the first entry for a use of a place counts. -/
  refusals : List ((Place × Access) × Refusal)
  deriving Repr, DecidableEq

namespace Workspace

/-- An empty working directory, where nothing is refused. -/
def empty : Workspace := ⟨Place.standardDirectories, [], []⟩

/-- What the operating system says against a use of a place, if anything. -/
def refusal? (w : Workspace) (p : Place) (a : Access) : Option Refusal := w.refusals.lookup (p, a)

/-- What a place holds, if anything. -/
def holding? (w : Workspace) (p : Place) : Option Entry :=
  if p ∈ w.directories then some .directory
  else if p = Place.nullDevice then some .nullDevice
  else (w.files.lookup p).map .file

/-- The greatest number of bytes in a component of a path. -/
def longestComponent : Nat := 255

/-- The greatest number of bytes in a path. -/
def longestPath : Nat := 4095

/-- How many bytes a path or a component of one has. -/
def byteLength (t : Text) : Nat := (t.map fun c => (Encoding.utf8Char c).length).foldl (· + ·) 0

/-- The place that a path leads to, from a given one on. -/
def walk (w : Workspace) (p : Place) : List Text → Except FileFault Place
  | [] => .ok p
  | component :: rest =>
    match w.holding? p with
    | some .directory =>
      match w.refusal? p .search with
      | some r => .error (.refused r)
      | none =>
        if longestComponent < byteLength component then .error .nameTooLong
        else w.walk (p.step component) rest
    | some _ => .error .notDirectory
    | none => .error .missing

/-- The place that a path leads to from a directory. Something need not be there. -/
def locateFrom (w : Workspace) (directory : Place) (path : Text) : Except FileFault Place :=
  if '\x00' ∈ path then .error .nullCharacter
  else if longestPath < byteLength path then .error .nameTooLong
  else match path with
    | [] => .error .missing
    | '/' :: rest => w.walk (.outside []) (Text.cutAt '/' rest)
    | _ => w.walk directory (Text.cutAt '/' path)

/-- The place that a path leads to from the working directory. -/
def locate (w : Workspace) (path : Text) : Except FileFault Place := w.locateFrom (.inside []) path

/-- What a path names, if anything. -/
def find? (w : Workspace) (path : Text) : Option Entry :=
  match w.locate path with
  | .ok p => w.holding? p
  | .error _ => none

/-- A path without the components that lead nowhere: single dots and empty ones. The empty path
becomes a dot. -/
def plainPath (path : Text) : Text :=
  let components := (Text.cutAt '/' path).filter fun c => c ≠ [] ∧ c ≠ ['.']
  let joined := ['/'].intercalate components
  if path.head? = some '/' then '/' :: joined
  else if joined.isEmpty then ['.']
  else joined

/-- The numbers of refusals that are taken to mean that nothing is there. -/
def ignoredNumbers : List Nat := [9, 40]

/-- Whether a path names a directory. The empty path names the working directory; a path that is
too long can name nothing, and what is refused is not ignored as a rule. -/
def namesDirectory (w : Workspace) (path : Text) : Except FileFault Bool :=
  match w.locate (plainPath path) with
  | .ok p => .ok (w.holding? p = some .directory)
  | .error .nameTooLong => .error .nameTooLong
  | .error (.refused r) => if r.number ∈ ignoredNumbers then .ok false else .error (.refused r)
  | .error _ => .ok false

/-- The bytes of what is at a place. -/
def readAt (w : Workspace) (p : Place) : Except FileFault Bytes :=
  match w.holding? p with
  | none => .error .missing
  | some entry =>
    match w.refusal? p .read with
    | some r => .error (.refused r)
    | none =>
      match entry with
      | .file content => .ok content
      | .nullDevice => .ok []
      | .directory => .error .isDirectory

/-- The bytes of the file with a given path. -/
def read (w : Workspace) (path : Text) : Except FileFault Bytes :=
  match w.locate path with
  | .error f => .error f
  | .ok p => w.readAt p

/-- A path without the slashes at its end. -/
def withoutSlashes (path : Text) : Text := (path.reverse.dropWhile (· = '/')).reverse

/-- A place, if a file may be made or written there. -/
def target (w : Workspace) (p : Place) : Except FileFault Place :=
  if w.holding? p = some .directory then .error .isDirectory
  else match w.refusal? p .write with
    | some r => .error (.refused r)
    | none => .ok p

/-- The place of a file that is to be written. A path with a slash at its end names no file. -/
def locateTarget (w : Workspace) (path : Text) : Except FileFault Place :=
  match w.locate (if path.all (· = '/') then path else withoutSlashes path) with
  | .error f => .error f
  | .ok p => if path.getLast? = some '/' then .error .isDirectory else w.target p

/-- Puts content at a place, unless that is the null device. -/
def put (w : Workspace) (p : Place) (content : Bytes) : Workspace :=
  if p = Place.nullDevice then w
  else { w with files := (p, content) :: w.files.filter fun f => f.1 ≠ p }

/-- The bytes at a place; none if there is no file. -/
def contentAt (w : Workspace) (p : Place) : Bytes :=
  match w.holding? p with
  | some (.file content) => content
  | _ => []

/-- Adds bytes at the end of the file at a place. -/
def append (w : Workspace) (p : Place) (more : Bytes) : Workspace :=
  w.put p (w.contentAt p ++ more)

/-! ### Directories -/

/-- The places that the components of a path lead to, without a look at what is there. -/
def route (path : Text) : List Place :=
  match path with
  | [] => []
  | '/' :: rest => (Text.cutAt '/' rest).scanl Place.step (.outside [])
  | _ => (Text.cutAt '/' path).scanl Place.step (.inside [])

/-- The place that a path leads to if each `..` in it takes back the component before it, whatever
that names. The directories on the way to the place have to be there. -/
def settle (w : Workspace) (path : Text) : Except FileFault Place :=
  if '\x00' ∈ path then .error .nullCharacter
  else
    let from? (start : Place) (components : List Text) : Except FileFault Place :=
      if longestPath < (components.map fun c => byteLength c + 1).foldl (· + ·) 0 then .error .nameTooLong
      else w.walk start components
    match (route path).getLast? with
    | some (.inside p) => from? (.inside []) p
    | some (.outside p) => from? (.outside []) p
    | none => .error .missing

/-- The place of a file that is to be written at the end of a path that is settled first. -/
def settleTarget (w : Workspace) (path : Text) : Except FileFault Place :=
  match w.settle path with
  | .error f => .error f
  | .ok p => w.target p

/-- Makes a directory and those above it. -/
def makeDirectory (w : Workspace) (path : Text) : Workspace :=
  { w with directories := route path ++ w.directories }

/-- Makes a file and the directories above it. -/
def makeFile (w : Workspace) (path : Text) (content : Bytes) : Workspace :=
  match (route path).getLast? with
  | some p => { w with directories := (route path).dropLast ++ w.directories }.put p content
  | none => w

/-- The names of the files in a directory. -/
def namesIn (w : Workspace) (directory : Place) : List Text :=
  Text.distinct <| w.files.filterMap fun f =>
    match f.1.split? with
    | some (parent, name) => if parent = directory then some name else none
    | none => none

/-- The names of what is in a directory, in their order. -/
def entriesIn (w : Workspace) (directory : Place) : List Text :=
  let below := w.directories.filterMap fun p =>
    match p.split? with
    | some (parent, name) => if parent = directory then some name else none
    | none => none
  (Text.distinct (w.namesIn directory ++ below)).mergeSort fun a b => !decide (b < a)

/-- The path to something in a directory. -/
def pathIn (directory name : Text) : Text :=
  if directory = ['.'] then name
  else if directory.getLast? = some '/' then directory ++ name
  else directory ++ ['/'] ++ name

/-- Whether a place holds a file. -/
def isFile (w : Workspace) (p : Place) : Bool :=
  match w.holding? p with
  | some (.file _) => true
  | _ => false

/-- The contents of the files in a directory, in the order of their names, or the first refusal with
the path that it is about. All that is in the directory is looked at before a file is read. -/
def contentsAt (w : Workspace) (directory : Place) (path : Text) :
    Except (Text × FileFault) (List Bytes) :=
  match w.refusal? directory .list with
  | some r => .error (path, .refused r)
  | none =>
    match w.entriesIn directory, w.refusal? directory .search with
    | name :: _, some r =>
      if r.number ∈ ignoredNumbers then .ok [] else .error (pathIn path name, .refused r)
    | _, _ =>
      let names := (w.namesIn directory).filter fun name => w.isFile (directory.child name)
      (names.mergeSort fun a b => !decide (b < a)).mapM fun name =>
        (w.readAt (directory.child name)).mapError fun f => (pathIn path name, f)

/-- The contents of the files in the directory with a path. The empty path names the working
directory. -/
def contentsIn (w : Workspace) (path : Text) : Except (Text × FileFault) (List Bytes) :=
  match w.locate (plainPath path) with
  | .ok directory => w.contentsAt directory (plainPath path)
  | .error f => .error (plainPath path, f)

/-! ### Text files -/

/-- Why a text file cannot be read. -/
inductive ReadFault
  /-- The file cannot be used. -/
  | file (fault : FileFault)
  /-- Its bytes are no UTF-8. -/
  | decode (fault : Encoding.DecodeFault)
  deriving Repr, DecidableEq

/-- The lines of a text may end in a line feed, a carriage return or both; each end becomes a
line feed. -/
def plainLineEnds : Text → Text
  | [] => []
  | '\r' :: '\n' :: rest => '\n' :: plainLineEnds rest
  | '\r' :: rest => '\n' :: plainLineEnds rest
  | c :: rest => c :: plainLineEnds rest

/-- The text of the file with a given path. -/
def readText (w : Workspace) (path : Text) : Except ReadFault Text :=
  match w.read path with
  | .error f => .error (.file f)
  | .ok bytes =>
    match Encoding.decodeUtf8 bytes with
    | .error f => .error (.decode f)
    | .ok t => .ok (plainLineEnds t)

/-! ### Writing and reading -/

/-- A place that is no directory holds what was put there. -/
theorem contentAt_put {w : Workspace} {p : Place} (content : Bytes) (hd : p ∉ w.directories)
    (hn : p ≠ Place.nullDevice) : (w.put p content).contentAt p = content := by
  simp [put, contentAt, holding?, hd, hn]

/-- A look-up of another key finds the same after the entries of a key were left out. -/
theorem lookup_filter_ne {p q : Place} (h : q ≠ p) (files : List (Place × Bytes)) :
    (files.filter fun f => f.1 ≠ p).lookup q = files.lookup q := by
  induction files with
  | nil => rfl
  | cons f rest ih =>
    obtain ⟨r, content⟩ := f
    by_cases hr : r = p
    · have hq : (q == r) = false := by simpa [hr] using h
      rw [List.lookup_cons, hq, ← ih]
      simp [hr]
    · simp only [hr, List.filter_cons, ne_eq, not_false_eq_true, decide_true, if_true,
        List.lookup_cons]
      rw [← ih]

/-- The other places hold what they held. -/
theorem holding?_put_of_ne (w : Workspace) {p q : Place} (content : Bytes) (h : q ≠ p) :
    (w.put p content).holding? q = w.holding? q := by
  have hne : (q == p) = false := by simpa using h
  unfold put
  split
  · rfl
  · simp only [holding?]
    rw [List.lookup_cons, hne]
    simp only [lookup_filter_ne h]

end Workspace

end GrammarInference
