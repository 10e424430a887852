import GrammarInference.Tool.Basic

/-!
# The world of a script

What the shells of a script share: files, streams and the clock. A stream is what a number of an
input or output stands for. It leads to a file, to the null device, or through a pipe, in which
every piece of text bears the time at which it was written.

Processes that would run side by side are run one after another, each from its own time on; the
pieces that they write are put in the order of their times when they are read.

The main statement says that what is written into an empty pipe is what is read from it.
-/

namespace GrammarInference

namespace Shell

/-- A piece of text, and when it was written. -/
structure Chunk where
  /-- The time in seconds. -/
  time : Float
  /-- The text, one character for each byte. -/
  text : Text

/-- What a stream leads to. -/
inductive Channel
  /-- The null device. -/
  | null
  /-- A pipe: pieces that come next, and pieces that were written later, the last one first. -/
  | pipe (front back : List Chunk)
  /-- A file, from an offset on, or always at its end. -/
  | file (place : Place) (offset : Nat) (atEnd : Bool)

/-- What a number of an input or output stands for. -/
structure Stream where
  /-- What it leads to. -/
  channel : Channel
  /-- Whether it can be read. -/
  readable : Bool
  /-- Whether it can be written. -/
  writable : Bool
  /-- The time up to which something may still be written. -/
  busyUntil : Float := 0

/-- A signal that was sent to a shell. -/
structure Sent where
  /-- The number of the process. -/
  process : Nat
  /-- The signal. -/
  signal : Nat
  /-- When it was sent. -/
  time : Float

/-- What the shells of a script share. -/
structure World where
  /-- The files. -/
  workspace : Workspace
  /-- The streams. -/
  streams : Array Stream := #[]
  /-- The seconds that the current process has been running. -/
  clock : Float := 0
  /-- The time at which everything is stopped. -/
  deadline : Float
  /-- How many more commands are carried out. -/
  steps : Nat
  /-- The number of the next process. -/
  nextProcess : Nat
  /-- The signals that have been sent to shells and are not yet dealt with. -/
  sent : List Sent := []

namespace Channel

/-- An empty pipe. -/
def emptyPipe : Channel := .pipe [] []

/-- A pipe with a text that is there from the start. -/
def holding (t : Text) : Channel := if t.isEmpty then emptyPipe else .pipe [⟨0, t⟩] []

/-- The pieces of a pipe in the order in which they were written. -/
def pieces (front back : List Chunk) : List Chunk :=
  match back with
  | [] => front
  | back => (front ++ back.reverse).mergeSort fun a b => a.time ≤ b.time

/-- The text of a channel that is in pipes, as a whole. -/
def contents : Channel → Text
  | .pipe front back => (pieces front back).flatMap Chunk.text
  | _ => []

/-- A channel after a text was written. A file needs the workspace. -/
def written (c : Channel) (time : Float) (t : Text) : Channel :=
  match c with
  | .pipe front back => if t.isEmpty then c else .pipe front (⟨time, t⟩ :: back)
  | c => c

end Channel

namespace World

/-- The world with one more stream, and the place of that. -/
def opened (w : World) (s : Stream) : Nat × World :=
  (w.streams.size, { w with streams := w.streams.push s })

/-- The world with a stream changed. -/
def adjust (w : World) (i : Nat) (f : Stream → Stream) : World :=
  { w with streams := w.streams.modify i f }

/-- The content of a file. -/
def contentAt (w : World) (p : Place) : Text := Tool.ofBytes (w.workspace.contentAt p)

/-- The world with a text in a file from an offset on. -/
def writeAt (w : World) (p : Place) (offset : Nat) (t : Text) : World :=
  let old := w.workspace.contentAt p
  let gap := List.replicate (offset - old.length) 0
  let new := old.take offset ++ gap ++ Tool.toBytes t ++ old.drop (offset + t.length)
  { w with workspace := w.workspace.put p new }

/-- Writes a text to a stream. Tells whether that is possible. -/
def write (w : World) (i : Nat) (t : Text) : Bool × World :=
  match w.streams[i]? with
  | none => (false, w)
  | some s =>
    if !s.writable then (false, w)
    else match s.channel with
      | .null => (true, w)
      | .pipe _ _ =>
        let time := w.clock
        (true, w.adjust i fun s => { s with channel := s.channel.written time t })
      | .file p offset atEnd =>
        if t.isEmpty then (true, w)
        else
          let offset := if atEnd then (w.workspace.contentAt p).length else offset
          let w := w.writeAt p offset t
          (true, w.adjust i fun s => { s with channel := .file p (offset + t.length) atEnd })

/-- What is taken from a stream. -/
structure Taken where
  /-- The text. -/
  text : Text
  /-- When it was there. -/
  time : Float
  /-- Whether the end was seen. -/
  ended : Bool

/-- Takes the rest of a stream; nothing if that cannot be read. -/
def takeAll (w : World) (i : Nat) : Option Taken × World :=
  match w.streams[i]? with
  | none => (none, w)
  | some s =>
    if !s.readable then (none, w)
    else match s.channel with
      | .null => (some ⟨[], 0, true⟩, w)
      | .pipe front back =>
        let t := (Channel.pieces front back).flatMap Chunk.text
        (some ⟨t, s.busyUntil, true⟩, w.adjust i fun s => { s with channel := .emptyPipe })
      | .file p offset atEnd =>
        let t := (w.contentAt p).drop offset
        (some ⟨t, 0, true⟩,
          w.adjust i fun s => { s with channel := .file p (offset + t.length) atEnd })

/-- The pieces of a pipe up to a line end: the text, when it was there, and the pieces left. -/
def lineOf : List Chunk → Option (Text × Float × List Chunk)
  | [] => none
  | c :: rest =>
    let line := c.text.takeWhile (· ≠ '\n')
    match c.text.drop line.length with
    | _ :: more =>
      some (line ++ ['\n'], c.time, if more.isEmpty then rest else ⟨c.time, more⟩ :: rest)
    | [] => (lineOf rest).map fun (t, time, left) => (c.text ++ t, time, left)

/-- Takes a text up to a line end, or up to the end, from a stream; nothing if that cannot be
read. -/
def takeLine (w : World) (i : Nat) : Option Taken × World :=
  match w.streams[i]? with
  | none => (none, w)
  | some s =>
    if !s.readable then (none, w)
    else match s.channel with
      | .null => (some ⟨[], 0, true⟩, w)
      | .pipe front back =>
        match lineOf front with
        | some (t, time, left) =>
          (some ⟨t, time, false⟩, w.adjust i fun s => { s with channel := .pipe left back })
        | none =>
          match lineOf (Channel.pieces front back) with
          | some (t, time, left) =>
            (some ⟨t, time, false⟩, w.adjust i fun s => { s with channel := .pipe left [] })
          | none => w.takeAll i
      | .file p offset atEnd =>
        let rest := (w.contentAt p).drop offset
        let line := rest.takeWhile (· ≠ '\n')
        let ended := line.length = rest.length
        let t := if ended then line else line ++ ['\n']
        (some ⟨t, 0, ended⟩,
          w.adjust i fun s => { s with channel := .file p (offset + t.length) atEnd })

/-- The world with only the first streams. -/
def keepStreams (w : World) (count : Nat) : World :=
  { w with streams := w.streams.shrink count }

/-- The world when some streams may be written up to the current time. -/
def keepBusy (w : World) (is : List Nat) : World :=
  is.foldl (fun w i => w.adjust i fun s =>
    { s with busyUntil := if s.busyUntil < w.clock then w.clock else s.busyUntil }) w

/-- The place that a stream leads to, if that is a file. -/
def placeOf? (w : World) (i : Nat) : Option Place :=
  match w.streams[i]?.map Stream.channel with
  | some (.file p _ _) => some p
  | _ => none

end World

/-- What is written into an empty pipe is its content. -/
theorem contents_written_emptyPipe (time : Float) (t : Text) :
    (Channel.emptyPipe.written time t).contents = t := by
  cases t with
  | nil => rfl
  | cons c rest =>
    simp [Channel.emptyPipe, Channel.written, Channel.contents, Channel.pieces]

end Shell

end GrammarInference
