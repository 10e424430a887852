import GrammarInference.Sample.Draw
import GrammarInference.Number.Binary

/-!
# The Mersenne twister

The generator MT19937: 624 words of 32 bits that are regenerated together and tempered one by one.
It is seeded by a key of words, here the words of a number's absolute value, lowest first.

A choice among `n` takes as many high bits of an output as `n` has, and draws again until the
number is below `n`. A number between zero and one is made of 53 bits of two outputs.
-/

namespace GrammarInference

/-- The state of the generator: its words and the number of those already used. -/
structure Twister where
  /-- The words. -/
  words : Array UInt32
  /-- How many have been used. -/
  used : Nat

namespace Twister

/-- The number of words. -/
def size : Nat := 624

/-- How far ahead a word is taken when words are regenerated. -/
def shift : Nat := 397

/-- The word at a position. -/
def word (ws : Array UInt32) (i : Nat) : UInt32 := ws.getD i 0

/-- The words that a single word grows into. -/
def grow : Nat → UInt32 → Array UInt32 → Array UInt32
  | 0, _, ws => ws
  | left + 1, last, ws =>
    let next : UInt32 := (1812433253 : UInt32) * (last ^^^ (last >>> 30)) + UInt32.ofNat ws.size
    grow left next (ws.push next)

/-- The words before a key is mixed in. -/
def initial (seed : UInt32) : Array UInt32 := grow (size - 1) seed #[seed]

/-- The position after `i`, where the last word is carried over to the first place when the end is
reached. -/
def advance (ws : Array UInt32) (i : Nat) : Array UInt32 × Nat :=
  if size ≤ i + 1 then (ws.setIfInBounds 0 (word ws (size - 1)), 1) else (ws, i + 1)

/-- Mixes a key into the words, one step for each of `left`. -/
def mixKey (key : List Nat) : Nat → Nat → Nat → Array UInt32 → Array UInt32 × Nat
  | 0, i, _, ws => (ws, i)
  | left + 1, i, j, ws =>
    let last := word ws (i - 1)
    let mixed : UInt32 := (word ws i ^^^ ((last ^^^ (last >>> 30)) * 1664525))
      + UInt32.ofNat (key.getD j 0) + UInt32.ofNat j
    let (ws, i) := advance (ws.setIfInBounds i mixed) i
    mixKey key left i (if key.length ≤ j + 1 then 0 else j + 1) ws

/-- Stirs the words after a key has been mixed in. -/
def stir : Nat → Nat → Array UInt32 → Array UInt32
  | 0, _, ws => ws
  | left + 1, i, ws =>
    let last := word ws (i - 1)
    let mixed : UInt32 := (word ws i ^^^ ((last ^^^ (last >>> 30)) * 1566083941)) - UInt32.ofNat i
    let (ws, i) := advance (ws.setIfInBounds i mixed) i
    stir left i ws

/-- The generator for a key. -/
def ofKey (key : List Nat) : Twister :=
  let (ws, i) := mixKey key (max size key.length) 1 0 (initial 19650218)
  let ws := stir (size - 1) i ws
  ⟨ws.setIfInBounds 0 0x80000000, size⟩

/-- The words of 32 bits of a number, lowest first; zero has one word. -/
def keyOf (n : Nat) : List Nat :=
  go (n.log2 / 32 + 1) n
where
  /-- The lowest `count` words. -/
  go : Nat → Nat → List Nat
    | 0, _ => []
    | count + 1, n => n % Nat.pow 2 32 :: go count (n / Nat.pow 2 32)

/-- The generator for a seed; the sign of the seed does not count. -/
def ofSeed (seed : Int) : Twister := ofKey (keyOf seed.natAbs)

/-- Regenerates the words from position `i` on. -/
def regenerate : Nat → Nat → Array UInt32 → Array UInt32
  | 0, _, ws => ws
  | left + 1, i, ws =>
    let y := (word ws i &&& 0x80000000) ||| (word ws ((i + 1) % size) &&& 0x7fffffff)
    let next : UInt32 := word ws ((i + shift) % size) ^^^ (y >>> 1)
      ^^^ (if y &&& 1 = 0 then 0 else 0x9908b0df)
    regenerate left (i + 1) (ws.setIfInBounds i next)

/-- The tempered form of a word. -/
def temper (y : UInt32) : UInt32 :=
  let y := y ^^^ (y >>> 11)
  let y := y ^^^ ((y <<< 7) &&& 0x9d2c5680)
  let y := y ^^^ ((y <<< 15) &&& 0xefc60000)
  y ^^^ (y >>> 18)

/-- The next output. -/
def next (t : Twister) : UInt32 × Twister :=
  let t := if size ≤ t.used then ⟨regenerate size 0 t.words, 0⟩ else t
  (temper (word t.words t.used), ⟨t.words, t.used + 1⟩)

/-- The highest `bits` bits of the next output. -/
def nextBits (bits : Nat) (t : Twister) : Nat × Twister :=
  let (y, t) := t.next
  (y.toNat / Nat.pow 2 (32 - bits), t)

/-- How often a choice is drawn again before it is given up; a single draw fails with a chance of
at most one half. -/
def patience : Nat := 4096

/-- Draws until the number is at most `others`. -/
def chooseWithin (others : Nat) : Nat → Twister → Fin (others + 1) × Twister
  | 0, t => (0, t)
  | left + 1, t =>
    let (r, t) := t.nextBits ((others + 1).log2 + 1)
    if h : r < others + 1 then (⟨r, h⟩, t) else chooseWithin others left t

/-- Chooses one of `others + 1` alternatives. -/
def choose (others : Nat) (t : Twister) : Fin (others + 1) × Twister :=
  chooseWithin others patience t

/-- Draws a number of 53 bits from zero up to, and without, one. -/
def unit (t : Twister) : Float × Twister :=
  let (a, t) := t.nextBits 27
  let (b, t) := t.nextBits 26
  (Number.ofQuotient false (a * Nat.pow 2 26 + b) (Nat.pow 2 53), t)

/-- The generator as a source of randomness. -/
def source : Source Twister := ⟨choose, unit⟩

end Twister

end GrammarInference
