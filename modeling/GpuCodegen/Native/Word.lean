import GpuCodegen.Text.Digits

/-!
The native instruction word. A word is 128 bits, held as two 64-bit halves because no bit field
crosses the middle. It is written as four dwords, least significant first, and stored as sixteen
bytes in little-endian order. `Word.ofBytes` and `Word.listOfBytes` read the stored form back.
-/

namespace GpuCodegen.Native

/-- One native instruction of 128 bits. -/
structure Word where
  /-- Bits 63 to 0: the header, the destination and the operand types. -/
  low : UInt64
  /-- Bits 127 to 64: the sources, an immediate or a message descriptor. -/
  high : UInt64
  deriving DecidableEq, Repr, Inhabited

/-- A stored program that is not made of whole words. -/
inductive StorageError where
  /-- Fewer bytes than one instruction takes. -/
  | short (size : Nat)
  /-- A program that ends inside an instruction. -/
  | ragged (size : Nat)
  deriving DecidableEq, Repr

/-- The size of one instruction in bytes. -/
def wordSize : Nat := 16

/-- What a storage error says. -/
def StorageError.message : StorageError → String
  | .short size => s!"instruction needs 16 bytes, got {size}"
  | .ragged size => s!"program size {size} is not a multiple of 16"

/-- The eight bytes of a 64-bit half, least significant first. -/
def halfBytes (h : UInt64) : List UInt8 :=
  (List.range 8).map fun i => (h >>> UInt64.ofNat (8 * i)).toUInt8

/-- The 64-bit half whose bytes, least significant first, are given. -/
def halfOfBytes (bytes : List UInt8) : UInt64 :=
  bytes.foldr (fun b rest => (rest <<< 8) ||| b.toUInt64) 0

namespace Word

/-- The word with every bit clear. -/
def zero : Word := ⟨0, 0⟩

/-- Builds a word from its four dwords, least significant first. -/
def ofDwords (d0 d1 d2 d3 : UInt32) : Word where
  low := d0.toUInt64 ||| (d1.toUInt64 <<< 32)
  high := d2.toUInt64 ||| (d3.toUInt64 <<< 32)

/-- The four dwords of a word, least significant first. -/
def dwords (w : Word) : List UInt32 :=
  [w.low.toUInt32, (w.low >>> 32).toUInt32, w.high.toUInt32, (w.high >>> 32).toUInt32]

/-- Four dwords of eight hexadecimal digits each, separated by blanks. -/
def text (w : Word) : String :=
  " ".intercalate (w.dwords.map fun d => Text.hexPadded 8 d.toNat)

/-- The sixteen bytes of a word as the device fetches them. -/
def bytes (w : Word) : List UInt8 :=
  halfBytes w.low ++ halfBytes w.high

/-- Reads one word from the first sixteen bytes, which have to be there. -/
def ofBytes (stored : List UInt8) : Except StorageError Word :=
  if stored.length < wordSize then
    .error (.short stored.length)
  else
    .ok ⟨halfOfBytes (stored.take 8), halfOfBytes ((stored.drop 8).take 8)⟩

/-- Reads `count` words one after another. -/
def takeWords : Nat → List UInt8 → List Word
  | 0, _ => []
  | count + 1, stored =>
    ⟨halfOfBytes (stored.take 8), halfOfBytes ((stored.drop 8).take 8)⟩ ::
      takeWords count (stored.drop wordSize)

/-- Reads a stored program, which has to consist of whole words. -/
def listOfBytes (stored : List UInt8) : Except StorageError (List Word) :=
  if stored.length % wordSize ≠ 0 then
    .error (.ragged stored.length)
  else
    .ok (takeWords (stored.length / wordSize) stored)

/-- The stored form of a program. -/
def listBytes (words : List Word) : List UInt8 :=
  words.flatMap bytes

end Word

end GpuCodegen.Native
