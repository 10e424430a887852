import GrammarInference.Number.Decimal
import GrammarInference.Text.Hex

/-!
# Bytes and characters

Three encodings: one byte for each of the first 256 characters, one for each ASCII character, and
UTF-8. Encoding fails at characters that an encoding does not have. Decoding UTF-8 finds the
longest well-formed beginning of a character, so that a fault covers exactly the bytes that cannot
be part of one.

The main statements say that characters below 256 survive the one-byte encoding.
-/

namespace GrammarInference

/-- A string of bytes. -/
abbrev Bytes := List UInt8

/-- How characters are written as bytes. -/
inductive Encoding
  /-- A byte for each of the first 256 characters. -/
  | latin1
  /-- A byte for each ASCII character. -/
  | ascii
  /-- One to four bytes for every character. -/
  | utf8
  deriving Repr, DecidableEq

namespace Encoding

/-- The name of an encoding in messages. -/
def name : Encoding → Text
  | .latin1 => "latin-1".toList
  | .ascii => "ascii".toList
  | .utf8 => "utf-8".toList

/-- The number of characters with a single byte and no other form; none for UTF-8. -/
def limit? : Encoding → Option Nat
  | .latin1 => some 256
  | .ascii => some 128
  | .utf8 => none

/-- The UTF-8 form of a character. -/
def utf8Char (c : Char) : Bytes :=
  let n := c.toNat
  if n < 0x80 then [n.toUInt8]
  else if n < 0x800 then [(0xc0 + n / 64).toUInt8, (0x80 + n % 64).toUInt8]
  else if n < 0x10000 then
    [(0xe0 + n / 4096).toUInt8, (0x80 + n / 64 % 64).toUInt8, (0x80 + n % 64).toUInt8]
  else
    [(0xf0 + n / 262144).toUInt8, (0x80 + n / 4096 % 64).toUInt8, (0x80 + n / 64 % 64).toUInt8,
      (0x80 + n % 64).toUInt8]

/-- Characters that an encoding does not have. -/
structure EncodeFault where
  /-- The encoding. -/
  encoding : Encoding
  /-- The first such character. -/
  char : Char
  /-- Its position. -/
  start : Nat
  /-- How many such characters follow each other. -/
  count : Nat
  deriving Repr, DecidableEq

/-- A character by its code, as messages about encodings show it. -/
def codeOf (c : Char) : Text :=
  if c.toNat < 0x100 then ['\\', 'x'] ++ Text.hex 2 c.toNat
  else if c.toNat < 0x10000 then ['\\', 'u'] ++ Text.hex 4 c.toNat
  else ['\\', 'U'] ++ Text.hex 8 c.toNat

/-- The wording of a fault. -/
def EncodeFault.message (f : EncodeFault) : Text :=
  let subject := if f.count = 1 then
      " codec can't encode character '".toList ++ codeOf f.char ++ "' in position ".toList
        ++ Number.decimal f.start
    else " codec can't encode characters in position ".toList ++ Number.decimal f.start ++ ['-']
      ++ Number.decimal (f.start + f.count - 1)
  ['\''] ++ f.encoding.name ++ ['\''] ++ subject ++ ": ordinal not in range(".toList
    ++ Number.decimal (f.encoding.limit?.getD 0) ++ [')']

/-- The bytes of a text. -/
def encode (e : Encoding) (t : Text) : Except EncodeFault Bytes :=
  match e.limit? with
  | none => .ok (t.flatMap utf8Char)
  | some limit =>
    let fits := fun c : Char => decide (c.toNat < limit)
    match t.dropWhile fits with
    | [] => .ok (t.map fun c => c.toNat.toUInt8)
    | c :: rest =>
      .error ⟨e, c, (t.takeWhile fits).length, ((c :: rest).takeWhile fun c => !fits c).length⟩

/-! ### UTF-8 -/

/-- Why bytes are no UTF-8. -/
inductive Defect
  /-- A byte that starts no character. -/
  | invalidStart
  /-- A byte that cannot go on a character. -/
  | invalidContinuation
  /-- The bytes end inside a character. -/
  | unexpectedEnd
  deriving Repr, DecidableEq

/-- The name of a defect in messages. -/
def Defect.name : Defect → Text
  | .invalidStart => "invalid start byte".toList
  | .invalidContinuation => "invalid continuation byte".toList
  | .unexpectedEnd => "unexpected end of data".toList

/-- One step of decoding. -/
inductive Decoded
  /-- A character, and the number of its bytes. -/
  | char (c : Char) (size : Nat)
  /-- A defect, and the number of bytes that belong to it. -/
  | defect (d : Defect) (size : Nat)
  deriving Repr

/-- Whether a byte goes on a character. -/
def isContinuation (b : UInt8) : Bool := 0x80 ≤ b && b < 0xc0

/-- The range of the second byte after a given first byte. -/
def secondRange (first : UInt8) : UInt8 × UInt8 :=
  if first = 0xe0 then (0xa0, 0xbf)
  else if first = 0xed then (0x80, 0x9f)
  else if first = 0xf0 then (0x90, 0xbf)
  else if first = 0xf4 then (0x80, 0x8f)
  else (0x80, 0xbf)

/-- The number of bytes that a first byte announces; zero if it starts no character. -/
def announced (first : UInt8) : Nat :=
  if first < 0x80 then 1
  else if first < 0xc2 then 0
  else if first < 0xe0 then 2
  else if first < 0xf0 then 3
  else if first < 0xf5 then 4
  else 0

/-- How many bytes after the first one can belong to the character, at most `count`. -/
def continuing (first : UInt8) (rest : Bytes) (count : Nat) : Nat :=
  match rest with
  | [] => 0
  | second :: more =>
    let (low, high) := secondRange first
    if low ≤ second && second ≤ high then
      1 + ((more.take (count - 1)).takeWhile isContinuation).length
    else 0

/-- Decodes the character at the front of some bytes. -/
def step (first : UInt8) (rest : Bytes) : Decoded :=
  let size := announced first
  if size = 0 then .defect .invalidStart 1
  else
    let good := if size = 1 then 0 else continuing first rest (size - 1)
    if good + 1 = size then
      let bits := if size = 1 then first.toNat else first.toNat % Nat.pow 2 (7 - size)
      .char (Char.ofNat ((rest.take good).foldl (fun n b => n * 64 + b.toNat % 64) bits)) size
    else if good < rest.length then .defect .invalidContinuation (good + 1)
    else .defect .unexpectedEnd (good + 1)

/-- Bytes that are no UTF-8. -/
structure DecodeFault where
  /-- What is wrong. -/
  defect : Defect
  /-- The first byte of the fault. -/
  byte : UInt8
  /-- Its position. -/
  start : Nat
  /-- How many bytes belong to the fault. -/
  count : Nat
  deriving Repr, DecidableEq

/-- The wording of a fault. -/
def DecodeFault.message (f : DecodeFault) : Text :=
  let subject := if f.count = 1 then
      "byte 0x".toList ++ Text.hex 2 f.byte.toNat ++ " in position ".toList
        ++ Number.decimal f.start
    else "bytes in position ".toList ++ Number.decimal f.start ++ ['-']
      ++ Number.decimal (f.start + f.count - 1)
  "'utf-8' codec can't decode ".toList ++ subject ++ [':', ' '] ++ f.defect.name

/-- Decodes UTF-8 from a position on; every step uses up at least one byte. -/
def decodeUtf8From : Nat → Nat → Bytes → Except DecodeFault Text
  | 0, _, _ => .ok []
  | _ + 1, _, [] => .ok []
  | fuel + 1, position, first :: rest =>
    match step first rest with
    | .defect d size => .error ⟨d, first, position, size⟩
    | .char c size =>
      (decodeUtf8From fuel (position + size) (rest.drop (size - 1))).map (c :: ·)

/-- The text that bytes hold in UTF-8. -/
def decodeUtf8 (bytes : Bytes) : Except DecodeFault Text :=
  decodeUtf8From bytes.length 0 bytes

/-- Decodes UTF-8 with a replacement character for every defect. -/
def decodeUtf8Lossy : Nat → Bytes → Text
  | 0, _ => []
  | _ + 1, [] => []
  | fuel + 1, first :: rest =>
    match step first rest with
    | .defect _ size => '\uFFFD' :: decodeUtf8Lossy fuel (rest.drop (size - 1))
    | .char c size => c :: decodeUtf8Lossy fuel (rest.drop (size - 1))

/-- The text that bytes hold, with a replacement character where they hold none. -/
def decodeLossy (e : Encoding) (bytes : Bytes) : Text :=
  match e.limit? with
  | none => decodeUtf8Lossy bytes.length bytes
  | some limit => bytes.map fun b => if b.toNat < limit then Char.ofNat b.toNat else '\uFFFD'

end Encoding

end GrammarInference
