import GpuCodegen.Assembler.Basic

/-!
Compiled programs: their stored form, their listing and a line about them.
-/

namespace GpuCodegen

open Native

/-- A compiled kernel variant. -/
structure Program where
  kernel : String
  generation : Generation
  simdWidth : Int
  words : List Word
  /-- Scratch bytes per thread. -/
  scratchSize : UInt32
  /-- Stack bytes per lane. -/
  stackSize : UInt32
  deriving DecidableEq, Repr

namespace Program

/-- The instruction stream as the device fetches it. -/
def bytes (p : Program) : List UInt8 := Word.listBytes p.words

/-- One line of a listing. -/
def listingLine (l : Layout) (entry : Word × Nat) : String :=
  Text.listingIndex entry.2 ++ ": " ++
    match l.decode entry.1 with
    | .ok d => d.text ++ "\n"
    | .error e => entry.1.text ++ " (" ++ e.message ++ ")\n"

/-- The listing, one instruction per line. -/
def listing (p : Program) : String :=
  String.join (p.words.zipIdx.map (listingLine p.generation.layout))

/-- One line about the program. -/
def text (p : Program) : String :=
  s!"{p.kernel} for {p.generation.name}: {p.words.length} instructions, SIMD{p.simdWidth}, " ++
    s!"{Text.ByteSize.text p.scratchSize.toNat} scratch, " ++
    s!"{Text.ByteSize.text p.stackSize.toNat} stack per lane"

end Program

end GpuCodegen
