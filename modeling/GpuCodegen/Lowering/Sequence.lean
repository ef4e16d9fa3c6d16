import GpuCodegen.Lowering.Flavor

/-!
Instruction sequences that emission expands single operations into. A sequence is a list of commands,
each with the state it is issued under, computed from the state around it.
-/

namespace GpuCodegen.Sequence

open Native

/-- Commands issued under one state. -/
def under (s : State) (commands : List Command) : List Issue := commands.map fun c => ⟨s, c⟩

/-! ## Address register setup -/

/-- The number of entries of the address register. -/
def addressEntries : Nat := 16

/-- The byte addresses that entries may hold end here. -/
def addressLimit : UInt16 := 4096

/-- Refuses entry lists of a wrong length and addresses outside the register file. -/
def checkAddresses (entries : List UInt16) : Except Diagnostic Unit :=
  if entries.length = 0 ∨ entries.length % 4 ≠ 0 ∨ addressEntries < entries.length then
    .error (.encoding (.addressCount entries.length))
  else
    match entries.zipIdx.find? fun e => addressLimit ≤ e.1 with
    | some (address, index) => .error (.encoding (.addressRange index address))
    | none => .ok ()

/-- Writes two entries per single-lane dword move, starting with entry `first`. -/
def addressPairs (first : UInt32) : List UInt16 → List Command
  | a :: b :: rest =>
    .mov ((Register.addr1 first).retype .ud)
        (.immUD ((b.toUInt32 <<< 16) ||| a.toUInt32)) ::
      addressPairs (first + 2) rest
  | _ => []

/-- Writes four entries per single-lane qword move, starting with entry `first`. -/
def addressQuads (first : UInt32) : List UInt16 → List Command
  | a :: b :: c :: d :: rest =>
    .mov ((Register.addr1 first).retype .ul)
        (.immUL ((d.toUInt64 <<< 48) ||| (c.toUInt64 <<< 32) ||| (b.toUInt64 <<< 16) |||
          a.toUInt64)) ::
      addressQuads (first + 4) rest
  | _ => []

/-- Loads the address register, two entries at a time. -/
def setAddressPairs (s : State) (entries : List UInt16) : Except Diagnostic (List Issue) := do
  checkAddresses entries
  return under (s.unmasked 1) (addressPairs 0 entries)

/-- Loads the address register, four entries at a time. -/
def setAddressQuads (s : State) (entries : List UInt16) : Except Diagnostic (List Issue) := do
  checkAddresses entries
  return under (s.unmasked 1) (addressQuads 0 entries)

/-- Loads the address register the way a flavor does. -/
def setAddresses (f : Flavor) (s : State) (entries : List UInt16) :
    Except Diagnostic (List Issue) :=
  if f.writesAddressQuads then setAddressQuads s entries else setAddressPairs s entries

/-! ## Scratch memory -/

/-- Cuts a run of registers into blocks of four, two and one, largest first. A block is its first
register, counted from the start of the run, and its length. -/
def blocks (first : Nat) : Nat → List (Nat × Nat)
  | 0 => []
  | 1 => [(first, 1)]
  | 2 => [(first, 2)]
  | 3 => [(first, 2), (first + 2, 1)]
  | n + 4 => (first, 4) :: blocks (first + 4) n

/-- Copies the thread header, which carries the scratch base, into the message header. -/
def scratchHeader (header : Register) : Command := .mov (.ud8 header.number 0) (.ud8 0 0)

/-- The scratch byte offset of a register of a run. -/
def blockOffset (offset : UInt32) (first : Nat) : UInt32 := offset + UInt32.ofNat first * grfSize

/-- Reads one block into its place. -/
def reloadBlock (header data : Register) (offset : UInt32) (block : Nat × Nat) : Command :=
  .scratchRead (data.offset (UInt32.ofNat block.1) 0) header (blockOffset offset block.1) block.2

/-- Reads registers from scratch memory. -/
def reload (s : State) (header data : Register) (registers : Nat) (offset : UInt32) : List Issue :=
  under (s.unmasked 8)
    (scratchHeader header :: (blocks 0 registers).map (reloadBlock header data offset))

/-- Copies registers to those right after the message header. -/
def stageBlock (header : Register) (first : UInt32) (count : Nat) : List Command :=
  (List.range count).map fun i =>
    .mov (.ud8 (header.number + 1 + UInt32.ofNat i) 0) (.ud8 (first + UInt32.ofNat i) 0)

/-- Writes one block. A message takes its data from the registers right after the header, so a block
that is elsewhere is copied there first. -/
def spillBlock (header data : Register) (offset : UInt32) (block : Nat × Nat) : List Command :=
  let first := data.number + UInt32.ofNat block.1
  (if first = header.number + 1 then [] else stageBlock header first block.2) ++
    [.scratchWrite header (blockOffset offset block.1) block.2]

/-- Writes registers to scratch memory. -/
def spill (s : State) (header data : Register) (registers : Nat) (offset : UInt32) : List Issue :=
  under (s.unmasked 8)
    (scratchHeader header :: (blocks 0 registers).flatMap (spillBlock header data offset))

/-! ## 64-bit products -/

/-- The low dwords of a qword register. -/
def low (r : Register) : Register := r.unpackedDwords 0

/-- The high dwords of a qword register. -/
def high (r : Register) : Register := r.unpackedDwords 1

/-- Computes the low half of a 64-bit product from dword products. With `a = ah * 2^32 + al` and
`b = bh * 2^32 + bl` only `al * bl`, `al * bh` and `ah * bl` reach it; `tmp` holds each cross product
in turn. -/
def multiply (s : State) (dst src0 src1 tmp : Register) : List Issue :=
  let dst := dst.retype .ul
  let tmp := tmp.retype .ul
  under s
    [.mul dst (low src0) (low src1),
      .mov (low tmp) (high src1),
      .mul tmp (low src0) (low tmp),
      .shl tmp tmp (.immUD 32),
      .add dst dst tmp,
      .mov (low tmp) (high src0),
      .mul tmp (low tmp) (low src1),
      .shl tmp tmp (.immUD 32),
      .add dst dst tmp]

/-- Computes both halves of a 64-bit product from the four dword products. The high halves of the
sources are staged in `t0` and `dstLow` while those are still free. -/
def fullMultiply (s : State) (src0 src1 dstHigh dstLow t0 t1 : Register) : List Issue :=
  let dstHigh := dstHigh.retype .ul
  let dstLow := dstLow.retype .ul
  let t0 := t0.retype .ul
  let t1 := t1.retype .ul
  under s
    [.mov (low t0) (high src0),
      .mov (low dstLow) (high src1),
      .mul dstHigh (low t0) (low dstLow),
      .mul t1 (low t0) (low src1),
      .mul t0 (low src0) (low dstLow),
      .mul dstLow (low src0) (low src1),
      .add t1 t1 (low t0),
      .shr t0 t0 (.immUD 32),
      .add dstHigh dstHigh (low t0),
      .mov (low t0) (high dstLow),
      .add t1 t1 (low t0),
      .shl t0 t1 (.immUD 32),
      .mov (high dstLow) (high t0),
      .shr t0 t1 (.immUD 32),
      .add dstHigh dstHigh t0]

/-! ## Stack pointers -/

/-- The dword of the thread header whose low nine bits number the hardware thread. -/
def threadId : Register := .ud1 0 20

/-- Loads the lane numbers into a dword vector. -/
def laneIds (s : State) (lane : Register) (simd : Int) : List Issue :=
  let lane := lane.retype .ud
  under (s.unmasked 8)
    (.mov lane (.immV 0x76543210) ::
      if simd = 16 then [.add (lane.offset 1 0) lane (.immUD 8)] else [])

/-- Computes the stack pointer of every lane, `(thread * simd + lane) * size`. `tmp` is a scalar dword
and `lane` a dword vector, both overwritten; qword pointers are widened last. -/
def stackPointer (s : State) (simd : Int) (size : UInt32) (sp tmp lane : Register) (qword : Bool) :
    List Issue :=
  let s := { s with noMask := true, predicate := 0 }
  let one := { s with execWidth := 1 }
  let all := { s with execWidth := simd }
  let tmp := tmp.toScalar.retype .ud
  let lane' := lane.retype .ud
  laneIds s lane simd ++
    [⟨one, .and tmp threadId (.immUD 0x1ff)⟩,
      ⟨one, .mul tmp tmp (.immUW (UInt16.ofInt simd))⟩,
      ⟨all, .add lane' lane' tmp⟩,
      ⟨one, .mov tmp (.immUD size)⟩] ++
    if qword then
      ⟨all, .mul lane' tmp lane'.unpackedWords⟩ ::
        (List.range (simd.tdiv 8).toNat).map fun q =>
          ⟨{ s with execWidth := 8, quarter := UInt32.ofNat q },
            .mov ((sp.retype .ul).quarter (UInt32.ofNat q)) (lane'.quarter (UInt32.ofNat q))⟩
    else
      [⟨all, .mul (sp.retype .ud) tmp lane'.unpackedWords⟩]

/-! ## Barriers -/

/-- The dword of the thread header that holds the barrier number. -/
def barrierId : Register := .ud1 0 8

/-- Orders memory and waits for the commit by reading it. -/
def fence (s : State) (dst : Register) (flushImages : Bool) : List Issue :=
  under (s.unmasked 8) [.fence dst dst flushImages, .mov dst dst]

/-- Signals the gateway with this thread's barrier number and waits for the other threads. -/
def barrierWait (s : State) (payload : Register) (mask : UInt32) : List Issue :=
  under (s.unmasked 8) [.and payload barrierId (.immUD mask), .barrier payload] ++
    under (s.unmasked 1) [.wait]

/-- Invalidates the sampler cache and waits for it. -/
def samplerFlush (s : State) (dst : Register) : List Issue :=
  under (s.unmasked 8) [.flushSampler dst dst, .mov dst dst]

/-- A barrier the way a flavor does it. Sandy Bridge has one fence for all memory. Up to Broadwell the
global fence also flushes images; Skylake fences them separately and has wider barrier numbers. -/
def barrier (f : Flavor) (s : State) (dst payload : Register) (fences : Fences) : List Issue :=
  match f with
  | .gen6 =>
    (if fences.global || fences.image then fence s dst false else []) ++
      barrierWait s payload 0x0f000000
  | .gen7 | .gen8 | .chv =>
    (if fences.global then fence s dst fences.image else []) ++
      barrierWait s payload 0x0f000000 ++ (if fences.image then samplerFlush s dst else [])
  | .gen9 | .bxt =>
    (if fences.global then fence s dst false else []) ++
      (if fences.image then fence s dst true else []) ++
      barrierWait s payload 0x8f000000 ++ (if fences.image then samplerFlush s dst else [])

end GpuCodegen.Sequence
