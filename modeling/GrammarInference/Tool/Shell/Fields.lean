import GrammarInference.Tool.Shell.Pattern
import GrammarInference.Workspace
import GrammarInference.Tool.Basic

/-!
# Fields

A word whose values are known consists of pieces, and becomes fields: text that comes from an
unquoted value is cut at separators, all else stays together. A field that is a pattern then
becomes the paths of the files that it matches, if there are any.

Blanks among the separators count once, however many there are, and not at all in front; any other
separator ends a field, even an empty one.

The main statement says that quoted text is one field.
-/

namespace GrammarInference

namespace Shell

/-- A piece of a word after its values are known. -/
inductive Piece
  /-- Quoted text. -/
  | hard (t : Text)
  /-- Text of the script itself, outside quotes. -/
  | plain (t : Text)
  /-- An unquoted value. -/
  | soft (t : Text)
  /-- The border between two arguments. -/
  | border
  /-- The place of all arguments when there are none. -/
  | gone
  deriving Repr, DecidableEq

namespace Piece

/-- The text of a piece; a border becomes a given text. -/
def text (border : Text) : Piece → Text
  | .hard t => t
  | .plain t => t
  | .soft t => t
  | .border => border
  | .gone => []

/-- The text of a word without cutting it. -/
def joined (border : Text) (ps : List Piece) : Text := ps.flatMap (text border)

/-- The characters of a piece, and which of them are quoted. -/
def marked (border : Text) (p : Piece) : List Glob.Marked :=
  match p with
  | .hard t => t.map fun c => (c, true)
  | p => (p.text border).map fun c => (c, false)

/-- The pattern that a word denotes. -/
def pattern (border : Text) (ps : List Piece) : List Glob :=
  Glob.ofMarked (ps.flatMap (marked border))

/-- The pieces of a word that is itself part of an unquoted value. -/
def soften (ps : List Piece) : List Piece :=
  ps.map fun p => match p with
    | .plain t => .soft t
    | p => p

/-! ### Cutting -/

/-- What has been cut so far. -/
structure Cut where
  /-- The field that is open, the last character first, if one is. -/
  current : Option (List Glob.Marked) := none
  /-- The fields before it, the last one first. -/
  done : List (List Glob.Marked) := []

namespace Cut

/-- Adds characters to the open field. -/
def add (c : Cut) (ms : List Glob.Marked) : Cut :=
  { c with current := some (ms.reverse ++ c.current.getD []) }

/-- Ends the open field, if there is one. -/
def close (c : Cut) : Cut :=
  match c.current with
  | some ms => ⟨none, ms.reverse :: c.done⟩
  | none => c

/-- Where the cutting of a value is. -/
inductive Place
  /-- In a field or before one. -/
  | within
  /-- After a field; a separator that is no blank may still belong to its end. -/
  | after (open? : Bool)

/-- Cuts an unquoted value. -/
def value (separators : Text) : Place → Cut → Text → Cut
  | _, c, [] => c
  | place, c, d :: rest =>
    let isBlank := d = ' ' || d = '\t' || d = '\n'
    if !separators.contains d then
      value separators .within { c with current := some ((d, false) :: c.current.getD []) } rest
    else match place, isBlank with
      | .after more, true => value separators (.after more) c rest
      | .after true, false => value separators (.after false) c rest
      | _, true =>
        if c.current.isNone then value separators .within c rest
        else value separators (.after true) c.close rest
      | _, false => value separators (.after false) (c.add []).close rest

/-- Adds a piece. -/
def piece (separators : Text) (c : Cut) (p : Piece) : Cut :=
  match p with
  | .hard t => c.add (t.map fun d => (d, true))
  | .plain t => c.add (t.map fun d => (d, false))
  | .soft t => value separators .within c t
  | .border => c.close
  | .gone => c

/-- The fields. -/
def fields (c : Cut) : List (List Glob.Marked) := c.close.done.reverse

end Cut

/-- The fields of a word. -/
def fields (separators : Text) (ps : List Piece) : List (List Glob.Marked) :=
  let solid := ps.filter (· ≠ .hard [])
  if !solid.isEmpty && solid.all (· = .gone) then []
  else (ps.foldl (Cut.piece separators) {}).fields

/-- Quoted text is one field. -/
theorem fields_hard (separators t : Text) :
    fields separators [.hard t] = [t.map fun c => (c, true)] := by
  cases t <;> simp [fields, Cut.piece, Cut.add, Cut.fields, Cut.close]

end Piece

/-! ### Paths -/

namespace Glob

/-- The text of marked characters. -/
def plainText (ms : List Marked) : Text := ms.map Prod.fst

/-- Whether marked characters stand for more than themselves. -/
def isPattern (ms : List Marked) : Bool :=
  ms.any isActive && (ofMarked ms).any fun g => match g with
    | .char _ => false
    | _ => true

/-- Marked characters cut at slashes. -/
def components : List Marked → List (List Marked)
  | [] => [[]]
  | m :: rest =>
    match components rest with
    | [] => [[m]]
    | first :: more => if m.1 = '/' then [] :: first :: more else (m :: first) :: more

/-- The names in a directory that a component can stand for. Names that start with a dot are meant
only by patterns that do so too. -/
def namesFor (around : Tool.Surroundings) (path : Text) (component : List Marked) : List Text :=
  let names := match around.locate? (if path.isEmpty then ['.'] else path) with
    | some p =>
      if around.workspace.holding? p = some .directory then
        (around.workspace.entriesIn p).map Tool.spread
      else []
    | none => []
  let glob := ofMarked component
  let hidden := component.head?.any fun m => m.1 = '.'
  let names := if hidden then ['.'] :: ['.', '.'] :: names else names
  (names.filter fun n => (n.head? = some '.') = hidden && accepts glob n).mergeSort fun a b =>
    !decide (b < a)

/-- The paths that components of a pattern match after a path that is there. -/
def pathsFrom (around : Tool.Surroundings) : Text → List (List Marked) → List Text
  | path, [] => [path]
  | path, component :: rest =>
    if isPattern component then
      (namesFor around path component).flatMap fun name =>
        let next := path ++ name
        if rest.isEmpty then [next]
        else if around.held? next = some .directory then pathsFrom around (next ++ ['/']) rest
        else []
    else
      let next := path ++ plainText component
      if rest.isEmpty then
        if component.isEmpty || (around.held? next).isSome then [next] else []
      else pathsFrom around (next ++ ['/']) rest

/-- The paths that a field stands for: those it matches as a pattern, or else itself. -/
def paths (around : Tool.Surroundings) (ms : List Marked) : List Text :=
  if (components ms).any isPattern then
    match pathsFrom around [] (components ms) with
    | [] => [plainText ms]
    | found => found
  else [plainText ms]

end Glob

end Shell

end GrammarInference
