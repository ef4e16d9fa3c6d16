import GpuCodegen.Native.Decoded

/-!
Splitting a SIMD16 three-source word into two SIMD8 words. The second covers the upper eight lanes
and its registers, other than replicated ones, advance by one.
-/

namespace GpuCodegen.Native.Layout

/-- Whether a word is a SIMD16 three-source instruction. -/
def isWideTriple (l : Layout) (w : Word) : Bool :=
  (Opcode.ofCode (l.header.opcode.get w).toUInt8).isThreeSource &&
    execSizeOfCode (l.header.execSize.get w) == 16

/-- Advances a register number field by one. -/
def advance (f : Field) (w : Word) : Word := f.set (f.get w + 1) w

/-- Advances a source of a three-source word unless it is replicated. -/
def advanceSource (f : TripleSourceFields) (w : Word) : Word :=
  if f.replicate.get w = 0 then advance f.number w else w

/-- The lower half of a SIMD16 three-source word. -/
def lowerHalf (l : Layout) (w : Word) : Word :=
  l.header.quarterControl.set 0 (l.header.execSize.set (execSizeCode 8) w)

/-- The upper half of a SIMD16 three-source word. -/
def upperHalf (l : Layout) (w : Word) : Word :=
  let w := l.header.quarterControl.set 1 (l.lowerHalf w)
  l.triple.sources.foldl (fun w f => advanceSource f w) (advance l.triple.dstNumber w)

/-- The two halves of a SIMD16 three-source word; other words have none. -/
def split? (l : Layout) (w : Word) : Option (Word × Word) :=
  if l.isWideTriple w then some (l.lowerHalf w, l.upperHalf w) else none

end GpuCodegen.Native.Layout
