import GrammarInference.Tool.Regex.Kind

/-!
# Patterns of the shell

A pattern in which an asterisk stands for any text, a question mark for any character, and
brackets for a character of a set. Quoted characters stand for themselves.

The main statement says that a pattern of quoted characters has no other elements.
-/

namespace GrammarInference

namespace Shell

/-- An element of a pattern. -/
inductive Glob
  /-- Any text. -/
  | star
  /-- Any character. -/
  | any
  /-- A character. -/
  | char (c : Char)
  /-- A character of a set, or one outside of it. -/
  | set (negated : Bool) (items : List Regex.Item)
  deriving Repr

namespace Glob

/-- A character of a pattern, and whether it is quoted. -/
abbrev Marked := Char × Bool

/-- The kind that is named after an opening bracket, and what follows its end mark. -/
def kind? (ms : List Marked) : Option (Regex.Kind × List Marked) :=
  Regex.Kind.named.findSome? fun (name, k) =>
    let front := ':' :: name ++ [':', ']']
    if front.map (fun c => (c, false)) = ms.take front.length then
      some (k, ms.drop front.length)
    else none

/-- The members of a set up to its end, if it has one. Every member uses up a unit of fuel. -/
def members : Nat → Bool → List Marked → Option (List Regex.Item × List Marked)
  | 0, _, _ => none
  | _ + 1, _, [] => none
  | fuel + 1, first, (c, quoted) :: rest =>
    if c = ']' && !quoted && !first then some ([], rest)
    else match (if c = '[' && !quoted then kind? rest else none) with
      | some (k, more) => (members fuel false more).map fun (is, r) => (.plain k :: is, r)
      | none =>
        match rest with
        | ('-', false) :: (d, dq) :: more =>
          if d = ']' && !dq then (members fuel false rest).map fun (is, r) => (.range c c :: is, r)
          else (members fuel false more).map fun (is, r) => (.range c d :: is, r)
        | _ => (members fuel false rest).map fun (is, r) => (.range c c :: is, r)

/-- The elements of a pattern. A bracket without an end stands for itself. Every element uses up a
unit of fuel. -/
def read : Nat → List Marked → List Glob
  | 0, _ => []
  | _ + 1, [] => []
  | fuel + 1, (c, quoted) :: rest =>
    if quoted then .char c :: read fuel rest
    else if c = '*' then .star :: read fuel rest
    else if c = '?' then .any :: read fuel rest
    else if c = '[' then
      let (negated, inner) := match rest with
        | ('!', false) :: more => (true, more)
        | _ => (false, rest)
      match members (inner.length + 1) true inner with
      | some (items, more) => .set negated items :: read fuel more
      | none => .char c :: read fuel rest
    else .char c :: read fuel rest

/-- The pattern that marked characters form. -/
def ofMarked (ms : List Marked) : List Glob := read ms.length ms

/-- A text without its first characters: without none, one, two and so on. -/
def suffixes : Text → List Text
  | [] => [[]]
  | c :: rest => (c :: rest) :: suffixes rest

/-- What is left of texts after an element of a pattern. The texts are the ends of one text, the
longest one first, so that any text in front of the longest one leads to all others. -/
def step (ts : List Text) : Glob → List Text
  | .star => ts.head?.elim [] suffixes
  | .any => ts.filterMap List.tail?
  | .char d => ts.filterMap fun t =>
    match t with
    | c :: rest => if c = d then some rest else none
    | [] => none
  | .set negated items => ts.filterMap fun t =>
    match t with
    | c :: rest => if negated != items.any (Regex.Item.has c) then some rest else none
    | [] => none

/-- What is left of a text after the parts at its front that a pattern matches, the shortest part
first. -/
def remainders (glob : List Glob) (t : Text) : List Text := glob.foldl step [t]

/-- Whether a pattern matches the whole of a text. -/
def accepts (glob : List Glob) (t : Text) : Bool := (remainders glob t).any List.isEmpty

/-- A text without the shortest or the longest part at its front that a pattern matches. -/
def dropFront (glob : List Glob) (longest : Bool) (t : Text) : Text :=
  let left := remainders glob t
  ((if longest then left.getLast? else left.head?)).getD t

/-- A text without the shortest or the longest part at its end that a pattern matches. -/
def dropBack (glob : List Glob) (longest : Bool) (t : Text) : Text :=
  (dropFront glob.reverse longest t.reverse).reverse

/-- Whether a character of a pattern can stand for another text than itself. -/
def isActive (m : Marked) : Bool := !m.2 && (m.1 = '*' || m.1 = '?' || m.1 = '[')

/-- A pattern of quoted characters accepts only itself. -/
theorem read_of_quoted (t : Text) :
    ofMarked (t.map fun c => (c, true)) = t.map Glob.char := by
  have h : ∀ fuel, t.length ≤ fuel → read fuel (t.map fun c => (c, true)) = t.map Glob.char := by
    induction t with
    | nil => intro fuel _; cases fuel <;> rfl
    | cons c rest ih =>
      intro fuel hf
      cases fuel with
      | zero => simp at hf
      | succ fuel => simpa [read] using ih fuel (by simpa using hf)
  exact h _ (by simp)

end Glob

end Shell

end GrammarInference
