/-!
Regions describe how the lanes of an instruction walk through a register: rows of `width` elements,
`horizontal` elements apart, rows `vertical` elements apart. The fields hold hardware codes; the
functions here convert between element counts and codes.
-/

namespace GpuCodegen.Native

/-- Two to the power `n` in 64-bit two's complement: bit 63 is the sign and higher bits are
lost. -/
def signedPow2 (n : Nat) : Int :=
  if n < 63 then (Nat.pow 2 n : Nat) else if n = 63 then -0x8000000000000000 else 0

/-- The code of one of the counts 1, 2, 4, 8, 16 and 32. -/
def countCode? (n : Int) : Option UInt8 :=
  if n = 1 then some 0
  else if n = 2 then some 1
  else if n = 4 then some 2
  else if n = 8 then some 3
  else if n = 16 then some 4
  else if n = 32 then some 5
  else none

/-- The execution size code of a number of lanes, zero when there is none. -/
def execSizeCode (lanes : Int) : UInt32 := ((countCode? lanes).getD 0).toUInt32

/-- Whether a number of lanes has an execution size code. -/
def isExecSize (lanes : Int) : Bool := (countCode? lanes).isSome

/-- The number of lanes an execution size code stands for. -/
def execSizeOfCode (code : UInt32) : Int := signedPow2 code.toNat

/-- The region width code of an element count, zero when there is none. -/
def widthCode (n : Int) : UInt8 := (countCode? n).getD 0

/-- Whether an element count is a region width. -/
def isWidth (n : Int) : Bool := (countCode? n).isSome && n ≤ 16

/-- The vertical stride code of an element distance. A distance without a code gets the code of
distance one. -/
def verticalCode (n : Int) : UInt8 :=
  if n = 0 then 0 else (countCode? n).getD 0 + 1

/-- Whether an element distance is a vertical stride. -/
def isVertical (n : Int) : Bool := n == 0 || (countCode? n).isSome

/-- The horizontal stride code of an element distance, zero when there is none. -/
def horizontalCode (n : Int) : UInt8 :=
  if n = 1 then 1 else if n = 2 then 2 else if n = 4 then 3 else 0

/-- Whether an element distance is a horizontal stride. -/
def isHorizontal (n : Int) : Bool := n == 0 || n == 1 || n == 2 || n == 4

/-- The element distance of a stride code; zero stays zero. -/
def strideElems (code : UInt8) : Int :=
  if code = 0 then 0 else signedPow2 (code.toNat - 1)

/-- A region by its hardware codes. -/
structure Region where
  vertical : UInt8
  width : UInt8
  horizontal : UInt8
  deriving DecidableEq, Repr, Inhabited

namespace Region

/-- The vertical code of a region that takes every row from its own address register entry. -/
def perLane : UInt8 := 0xf

/-- The region `<0;1,0>`, in which every lane reads one element. -/
def scalar : Region := ⟨0, 0, 0⟩

/-- The region with given element counts. -/
def ofCounts (vertical width horizontal : Int) : Region :=
  ⟨verticalCode vertical, widthCode width, horizontalCode horizontal⟩

/-- A region as `<vertical;width,horizontal>` in element counts. -/
def text (r : Region) : String :=
  if r.vertical = perLane then
    "<VxH>"
  else
    s!"<{strideElems r.vertical};{signedPow2 r.width.toNat},{strideElems r.horizontal}>"

end Region

end GpuCodegen.Native
