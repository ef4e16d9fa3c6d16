import GpuCodegen.Native.Word

/-!
Bit fields of an instruction word. A field is an inclusive bit range inside one half of the word;
a layout that lacks a field gives it an empty range, which reads as zero and ignores writes. A
split field stores the low and the top bits of one value in two fields.
-/

namespace GpuCodegen.Native

/-- The inclusive bit range from `lo` to `hi`, bits numbered 0 to 127 from the least significant.
A range with `hi < lo` is absent. -/
structure Field where
  hi : Nat
  lo : Nat
  deriving DecidableEq, Repr

/-- Moves a 32-bit value up by `n` bits; bits moved past the top are lost, for any `n`. -/
def shiftUp (v : UInt32) (n : Nat) : UInt32 :=
  if n < 32 then v <<< UInt32.ofNat n else 0

/-- Moves a 32-bit value down by `n` bits, for any `n`. -/
def shiftDown (v : UInt32) (n : Nat) : UInt32 :=
  if n < 32 then v >>> UInt32.ofNat n else 0

namespace Field

/-- The range of a field the layout does not have. -/
def absent : Field := ⟨0, 1⟩

/-- The one-bit field at `position`. -/
def bit (position : Nat) : Field := ⟨position, position⟩

/-- Whether the layout has the field. -/
def present (f : Field) : Bool := f.lo ≤ f.hi

/-- The number of bits. -/
def width (f : Field) : Nat :=
  if f.present then f.hi - f.lo + 1 else 0

/-- The largest value the field holds, in the 64 bits of one half. -/
def max (f : Field) : UInt64 :=
  if f.width < 64 then (1 <<< UInt64.ofNat f.width) - 1 else 0xffffffffffffffff

/-- The half of the word the field lies in. -/
def half (f : Field) (w : Word) : UInt64 :=
  if f.lo < 64 then w.low else w.high

/-- How far the field stands from the bottom of its half. -/
def shift (f : Field) : UInt64 := UInt64.ofNat (f.lo % 64)

/-- Reads the field. -/
def get (f : Field) (w : Word) : UInt32 :=
  if f.present then ((f.half w >>> f.shift) &&& f.max).toUInt32 else 0

/-- The bits of the half that the field covers. -/
def mask (f : Field) : UInt64 := f.max <<< f.shift

/-- Replaces the field's bits in its half by the low bits of `v`. -/
def setHalf (f : Field) (v : UInt32) (h : UInt64) : UInt64 :=
  (h &&& ~~~f.mask) ||| ((v.toUInt64 <<< f.shift) &&& f.mask)

/-- Stores `v`, cut to the field's width; every other bit stays. -/
def set (f : Field) (v : UInt32) (w : Word) : Word :=
  if f.present then
    if f.lo < 64 then { w with low := f.setHalf v w.low } else { w with high := f.setHalf v w.high }
  else
    w

/-- Stores a truth value as one or zero. -/
def setBool (f : Field) (v : Bool) (w : Word) : Word :=
  f.set (if v then 1 else 0) w

/-- Whether the field reads as one. -/
def isOne (f : Field) (w : Word) : Bool :=
  f.get w == 1

/-- Whether `v` survives being stored. -/
def fits (f : Field) (v : UInt32) : Bool :=
  v.toUInt64 ≤ f.max

end Field

/-- A value whose low bits and top bits live in two fields. -/
structure SplitField where
  low : Field
  high : Field
  deriving DecidableEq, Repr

namespace SplitField

/-- The number of bits of both parts. -/
def width (s : SplitField) : Nat := s.low.width + s.high.width

/-- Puts the two parts together. -/
def get (s : SplitField) (w : Word) : UInt32 :=
  s.low.get w ||| shiftUp (s.high.get w) s.low.width

/-- Distributes `v` over the two parts. -/
def set (s : SplitField) (v : UInt32) (w : Word) : Word :=
  s.high.set (shiftDown v s.low.width) (s.low.set v w)

/-- Reads a two's complement value. A combined width of none or of more than 32 bits reads as
zero. -/
def getSigned (s : SplitField) (w : Word) : Int32 :=
  let v : Int := (s.get w).toNat
  if 1 ≤ s.width ∧ s.width ≤ 32 then
    if v < (Nat.pow 2 (s.width - 1) : Nat) then Int32.ofInt v
    else Int32.ofInt (v - (Nat.pow 2 s.width : Nat))
  else
    0

/-- Stores a two's complement value. -/
def setSigned (s : SplitField) (v : Int32) (w : Word) : Word :=
  s.set v.toUInt32 w

/-- Whether a signed value is in the two's complement range of the combined width. -/
def fitsSigned (s : SplitField) (v : Int32) : Bool :=
  let bound : Int := (Nat.pow 2 (s.width - 1) : Nat)
  1 ≤ s.width && s.width ≤ 32 && -bound ≤ v.toInt && v.toInt < bound

end SplitField

end GpuCodegen.Native
