import GpuCodegen.Proofs.ArithmeticWords

/-! What words do to rows of qwords. A row is one qword for each lane, one after the other; a word
writes whole qwords of a row or one half of each, in the lanes its predicate lets through. Runs of such
words are followed lane by lane, as assignments to the rows. -/

namespace GpuCodegen.Memory

/-- A qword is its two dwords. -/
theorem load_qword (m : Memory) (address : Nat) :
    (m.load address 8).toNat = 2 ^ 32 * (m.load (address + 4) 4).toNat + (m.load address 4).toNat := by
  apply Nat.eq_of_testBit_eq
  intro i
  rw [Nat.testBit_two_pow_mul_add _ (load_dword_lt m address), testBit_load _ _ (by decide),
    testBit_load _ _ (by decide), testBit_load _ _ (by decide)]
  split
  · have first : i < 8 * 4 := by omega
    have inside : i < 8 * 8 := by omega
    simp [first, inside]
  · have byte : address + 4 + (i - 32) / 8 = address + i / 8 := by omega
    have bit : (i - 32) % 8 = i % 8 := by omega
    have inside : (i - 32 < 8 * 4) = (i < 8 * 8) := by
      apply propext
      omega
    simp only [byte, bit, inside]

end GpuCodegen.Memory

namespace GpuCodegen.Lanes
open Native Generation WordRoundTrip Outcome

/-! ## Parts of qwords -/

/-- The part of a qword that an operand takes. -/
inductive Part where
  | whole
  | low
  | high
  deriving DecidableEq

namespace Part

/-- The value of a part. -/
def get : Part → UInt64 → UInt64
  | whole, v => v
  | low, v => v % 0x100000000
  | high, v => v / 0x100000000

/-- A qword with a part replaced. -/
def set : Part → UInt64 → UInt64 → UInt64
  | whole, _, v => v
  | low, old, v => old / 0x100000000 * 0x100000000 + v % 0x100000000
  | high, old, v => old % 0x100000000 + v * 0x100000000

/-- The first byte of a part. -/
def offset : Part → Nat
  | high => 4
  | _ => 0

/-- The bytes of a part. -/
def size : Part → Nat
  | whole => 8
  | _ => 4

theorem load_part (p : Part) (m : Memory) (address : Nat) :
    m.load (address + p.offset) p.size = p.get (m.load address 8) := by
  have qword := m.load_qword address
  have first := m.load_dword_lt address
  rw [← UInt64.toNat_inj]
  cases p with
  | whole => rfl
  | low =>
    simp only [offset, size, get, UInt64.toNat_mod]
    change (m.load address 4).toNat = (m.load address 8).toNat % 4294967296
    omega
  | high =>
    simp only [offset, size, get, UInt64.toNat_div]
    change (m.load (address + 4) 4).toNat = (m.load address 8).toNat / 4294967296
    omega

theorem load_store_part (p : Part) (m : Memory) (address : Nat) (value : UInt64) :
    (m.store (address + p.offset) p.size value).load address 8 = p.set (m.load address 8) value := by
  cases p with
  | whole => exact m.load_store_qword address value
  | low =>
    have old := m.load_qword address
    have first := m.load_dword_lt address
    have bound := m.load_dword_lt (address + 4)
    rw [← UInt64.toNat_inj, Memory.load_qword]
    simp only [offset, size, set, Nat.add_zero]
    rw [Memory.load_store_dword, Memory.load_store_of_apart _ _ (by omega)]
    simp only [UInt32.toNat_toUInt64, UInt64.toNat_toUInt32, UInt64.toNat_add, UInt64.toNat_mul,
      UInt64.toNat_div, UInt64.toNat_mod]
    change _ = ((m.load address 8).toNat / 4294967296 * 4294967296 % 2 ^ 64 + value.toNat % 4294967296) % 2 ^ 64
    omega
  | high =>
    have old := m.load_qword address
    have first := m.load_dword_lt address
    rw [← UInt64.toNat_inj, Memory.load_qword]
    simp only [offset, size, set]
    rw [Memory.load_store_dword, Memory.load_store_of_apart _ _ (by omega)]
    simp only [UInt32.toNat_toUInt64, UInt64.toNat_toUInt32, UInt64.toNat_add, UInt64.toNat_mul,
      UInt64.toNat_mod]
    change _ = ((m.load address 8).toNat % 4294967296 + value.toNat * 4294967296 % 2 ^ 64) % 2 ^ 64
    omega

end Part

/-! ## Rows -/

/-- The qword of a lane in the row at a byte address. -/
def qword (m : Machine) (address lane : Nat) : UInt64 := m.registers.load (address + 8 * lane) 8

/-- An operand of a word that takes a part of each qword of a row, in the first lanes. -/
structure IsRow (r : Register) (address : Nat) (part : Part) (lanes : Nat) : Prop where
  file : r.file = .grf
  direct : r.indirect = none
  negate : r.negate = false
  absolute : r.absolute = false
  type : part = .whole ∧ (r.type = .ul ∨ r.type = .l) ∨ part ≠ .whole ∧ r.type = .ud
  base : r.byteOffset.toNat = address + part.offset
  region : r.region.width ≠ 0 ∨ r.region = .scalar
  element : ∀ lane < lanes, r.region.element lane * r.type.size = 8 * lane
  stride : ∀ lane < lanes, lane * (strideElems (destinationStride r)).toNat * r.type.size = 8 * lane
  vertical : r.region.vertical.toNat < 16
  width : r.region.width.toNat < 8
  horizontal : r.region.horizontal.toNat < 4

section
variable {r : Register} {address lanes : Nat} {part : Part}

theorem IsRow.fits (row : IsRow r address part lanes) (f : Field) : Fits f r := by
  refine ⟨?_, ?_, ?_, ?_, row.vertical, row.width, row.horizontal⟩
  · rw [row.file]
    decide
  · rw [row.file]
    decide
  · intro architecture
    rw [row.file] at architecture
    cases architecture
  · intro a indirect
    rw [row.direct] at indirect
    cases indirect

theorem IsRow.size (row : IsRow r address part lanes) : r.type.size = part.size := by
  rcases row.type with ⟨rfl, type | type⟩ | ⟨half, type⟩
  · rw [type]
    rfl
  · rw [type]
    rfl
  · rw [type]
    cases part with
    | whole => exact absurd rfl half
    | low => rfl
    | high => rfl

/-- A lane reads its part of the row. -/
theorem IsRow.source (row : IsRow r address part lanes) (m : Machine) (s : State) {lane : Nat}
    (inside : lane < lanes) : m.source (readSource s r) lane = part.get (qword m address lane) := by
  have region : sourceRegion s r = r.region := by
    unfold sourceRegion
    split
    · rename_i narrow
      rcases row.region with wide | scalar
      · exact absurd narrow.1 wide
      · exact scalar.symm
    · rfl
  have extends_ : r.type.extend (m.registers.load (address + part.offset + 8 * lane) r.type.size) =
      part.get (qword m address lane) := by
    have shifted : address + part.offset + 8 * lane = address + 8 * lane + part.offset := by omega
    rw [row.size, shifted, part.load_part]
    rcases row.type with ⟨rfl, type | type⟩ | ⟨half, type⟩
    · rw [type]
      rfl
    · rw [type]
      rfl
    · rw [type]
      have small : (part.get (qword m address lane)).toNat < 4294967296 := by
        cases part with
        | whole => exact absurd rfl half
        | low => exact Nat.mod_lt _ (by decide)
        | high =>
          have bound := (qword m address lane).toNat_lt
          change (qword m address lane).toNat / 4294967296 < 4294967296
          omega
      rw [← UInt64.toNat_inj]
      change (part.get (qword m address lane)).toUInt32.toUInt64.toNat = _
      rw [UInt32.toNat_toUInt64, UInt64.toNat_toUInt32]
      exact Nat.mod_eq_of_lt small
  rw [← extends_, ← row.base, ← row.element lane inside]
  simp only [readSource, row.file, reduceCtorEq, if_false, Machine.source, Machine.element,
    Machine.sourceAddress, row.direct, Option.isSome_none, Bool.false_eq_true, region, row.negate,
    row.absolute, Bool.false_and, Register.byteOffset]

theorem IsRow.put (row : IsRow r address part lanes) (m : Machine) {lane : Nat} (inside : lane < lanes)
    (v : UInt64) : m.put (readDestination r) lane v =
      { m with registers := m.registers.store (address + 8 * lane + part.offset) part.size v } := by
  have start : (r.number * grfSize + r.sub).toNat = address + part.offset := row.base
  have stride := row.stride lane inside
  rw [row.size] at stride
  have place : address + part.offset + 8 * lane = address + 8 * lane + part.offset := by omega
  simp only [Machine.put, readDestination, row.file, row.direct, Option.isSome_none, Bool.false_eq_true,
    if_false, if_true, Register.byteOffset, start, row.size, stride, place]

/-- Writing lanes of a row changes their parts of it and nothing else. -/
theorem IsRow.write (row : IsRow r address part lanes) (m : Machine) {d : Decoded}
    (dst : d.dst = readDestination r) (width : d.execSize.toNat = lanes) (chosen : Nat → Bool)
    (result : Nat → UInt64) :
    (m.write d chosen result).flag = m.flag ∧
      (∀ lane < lanes, qword (m.write d chosen result) address lane =
        if chosen lane then part.set (qword m address lane) (result lane) else qword m address lane) ∧
      ∀ a, a < address ∨ address + 8 * lanes ≤ a →
        (m.write d chosen result).registers a = m.registers a := by
  have bounds : part.offset + part.size ≤ 8 := by cases part <;> decide
  have along (ls : List Nat) (nodup : ls.Nodup) (small : ∀ lane ∈ ls, lane < lanes) (m : Machine) :
      (ls.foldl (fun acc lane => acc.put d.dst lane (result lane)) m).flag = m.flag ∧
        (∀ lane < lanes, qword (ls.foldl (fun acc lane => acc.put d.dst lane (result lane)) m) address lane =
          if lane ∈ ls then part.set (qword m address lane) (result lane) else qword m address lane) ∧
        ∀ a, a < address ∨ address + 8 * lanes ≤ a →
          (ls.foldl (fun acc lane => acc.put d.dst lane (result lane)) m).registers a = m.registers a := by
    induction ls generalizing m with
    | nil => simp
    | cons l rest ih =>
      obtain ⟨fresh, nodup⟩ := List.nodup_cons.mp nodup
      have here : l < lanes := small l List.mem_cons_self
      obtain ⟨flag, cells, around⟩ := ih nodup (fun lane member => small lane (List.mem_cons_of_mem _ member))
        (m.put d.dst l (result l))
      rw [List.foldl_cons]
      rw [dst, row.put m here] at flag cells around ⊢
      refine ⟨flag, ?_, ?_⟩
      · intro lane inside
        rw [cells lane inside]
        by_cases same : lane = l
        · subst same
          rw [if_neg fresh, if_pos List.mem_cons_self]
          exact part.load_store_part m.registers (address + 8 * lane) (result lane)
        · have untouched : (m.registers.store (address + 8 * l + part.offset) part.size (result l)).load
              (address + 8 * lane) 8 = m.registers.load (address + 8 * lane) 8 :=
            Memory.load_store_of_apart _ _ (by omega)
          simp only [qword, untouched, List.mem_cons, same, false_or]
      · intro a outside
        rw [around a outside]
        exact Memory.store_outside _ _ (by omega)
  have lanes_ : d.lanes.filter chosen = (List.range lanes).filter chosen := by
    rw [Decoded.lanes, width]
  obtain ⟨flag, cells, around⟩ := along ((List.range lanes).filter chosen)
    (List.nodup_range.filter _) (by simp +contextual) m
  unfold Machine.write
  rw [lanes_]
  refine ⟨flag, ?_, around⟩
  intro lane inside
  rw [cells lane inside]
  simp [inside]

end

/-! ## Words -/

/-- A source of a word and what its lanes read. -/
structure Reads (s : State) (r : Register) (lanes : Nat) (value : Machine → Nat → UInt64) : Prop where
  fits : ∀ f, Fits f r
  value : ∀ (m : Machine) (lane : Nat), lane < lanes → m.source (readSource s r) lane = value m lane

theorem IsRow.reads {r : Register} {address lanes : Nat} {part : Part} (row : IsRow r address part lanes)
    (s : State) : Reads s r lanes fun m lane => part.get (qword m address lane) :=
  ⟨row.fits, fun m _ inside => row.source m s inside⟩

theorem reads_immediate (s : State) {t : DataType} (qwords : t = .ul ∨ t = .l) (bits : UInt64) (lanes : Nat) :
    Reads s (.imm t bits) lanes fun _ _ => bits := by
  refine ⟨?_, ?_⟩
  · intro f
    constructor <;> simp [Register.imm] <;> decide
  · intro m lane _
    rcases qwords with rfl | rfl <;>
      simp [readSource, Register.imm, Machine.source, Machine.element, DataType.is64, DataType.size,
        DataType.extend]

theorem reads_shift (s : State) (lanes : Nat) : Reads s (.immUD 32) lanes fun _ _ => 32 := by
  refine ⟨?_, ?_⟩
  · intro f
    constructor <;> simp [Register.immUD, Register.imm] <;> decide
  · intro m lane _
    simp [readSource, Register.immUD, Register.imm, Machine.source, Machine.element, DataType.is64,
      DataType.size, DataType.extend]

/-- Whether a word issued under a state works on a lane. -/
def lets (s : State) (flag : UInt32) (lane : Nat) : Bool :=
  s.predicate == 0 || flag.toNat.testBit (8 * s.quarter.toNat + lane) != (s.predicate != 0 && s.inversePredicate)

theorem lets_always {s : State} (always : s.predicate = 0) (flag : UInt32) : lets s flag = fun _ => true := by
  funext lane
  simp [lets, always]

/-- A word that writes a part of a row, lane by lane. -/
def Assigns (l : Layout) (w : Word) (lanes : Nat) (on : UInt32 → Nat → Bool) (address : Nat) (part : Part)
    (value : Machine → Nat → UInt64) : Prop :=
  ∀ m : Machine, ∃ m', m.run l [w] = some m' ∧ m'.flag = m.flag ∧
    (∀ lane < lanes, qword m' address lane =
      if on m.flag lane then part.set (qword m address lane) (value m lane) else qword m address lane) ∧
    ∀ a, a < address ∨ address + 8 * lanes ≤ a → m'.registers a = m.registers a

/-- A word that computes runs in every lane it works on. -/
theorem decoded_run {l : Layout} {w : Word} {d : Decoded} {f : UInt64 → UInt64 → UInt64}
    (decodes : l.decode w = .ok d) (operation : Machine.arithmetic? d = some f) (m : Machine) :
    m.run l [w] = some (m.map d fun values => f (values.getD 0 0) (values.getD 1 0)) := by
  have step : m.step d = some (m.map d fun values => f (values.getD 0 0) (values.getD 1 0)) := by
    have computes (op : Native.Opcode) (same : d.opcode = op) :
        op ≠ .send ∧ op ≠ .wait ∧ op ≠ .nop ∧ op ≠ .jmpi ∧ op ≠ .cmp ∧ op ≠ .sel := by
      rw [Machine.arithmetic?, same] at operation
      refine ⟨?_, ?_, ?_, ?_, ?_, ?_⟩ <;> rintro rfl <;> cases operation
    obtain ⟨send, wait, nop, jmpi, cmp, sel⟩ := computes _ rfl
    unfold Machine.step
    split
    · exact absurd ‹_› send
    · exact absurd ‹_› wait
    · exact absurd ‹_› nop
    · exact absurd ‹_› jmpi
    · exact absurd ‹_› cmp
    · exact absurd ‹_› sel
    · rw [operation, Option.map_some]
  simp only [Machine.run, List.foldlM_cons, List.foldlM_nil, decodes]
  change ((m.step d).bind fun m => some m) = _
  rw [step]
  rfl

theorem decoded_assigns {l : Layout} {w : Word} {s : State} {op : Native.Opcode} {r : Register}
    {sources : List Register} {address lanes : Nat} {part : Part} {value : Machine → Nat → UInt64}
    {f : UInt64 → UInt64 → UInt64}
    (decodes : l.decode w = .ok { readHeader s op with dst := readDestination r, sources := sources })
    (operation : Machine.arithmetic? { readHeader s op with dst := readDestination r, sources := sources } =
      some f) (row : IsRow r address part lanes) (width : s.execWidth.toNat = lanes)
    (computes : ∀ (m : Machine) (lane : Nat), lane < lanes →
      f ((sources.map fun r => m.source r lane).getD 0 0) ((sources.map fun r => m.source r lane).getD 1 0) =
        value m lane) : Assigns l w lanes (lets s) address part value := by
  intro m
  have ran := decoded_run decodes operation m
  generalize decoded : ({ readHeader s op with dst := readDestination r, sources := sources } : Decoded) = d
    at ran
  have on : m.enabled d = lets s m.flag := by
    funext lane
    rw [← decoded]
    rfl
  obtain ⟨flag, cells, around⟩ := row.write m (show d.dst = readDestination r by rw [← decoded])
    (show d.execSize.toNat = lanes by rw [← decoded]; exact width) (m.enabled d)
    (fun lane => f ((m.inputs d lane).getD 0 0) ((m.inputs d lane).getD 1 0))
  refine ⟨_, ran, flag, ?_, around⟩
  intro lane inside
  change qword (m.write d (m.enabled d) fun lane => f ((m.inputs d lane).getD 0 0) ((m.inputs d lane).getD 1 0))
    address lane = _
  rw [cells lane inside, on, ← computes m lane inside]
  simp only [Machine.inputs, ← decoded]

/-- What a two-source operation makes of qwords. -/
def qwordResult : BinaryOp → UInt64 → UInt64 → UInt64
  | .add, a, b => a + b
  | .mul, a, b => a * b
  | .shl, a, b => a <<< (b &&& 63)
  | .shr, a, b => a >>> (b &&& 63)
  | _, _, _ => 0

section
variable {g : Generation} {s : State} {dst src src0 src1 : Register} {address lanes : Nat} {part : Part}
  {value value0 value1 : Machine → Nat → UInt64} {ws : List Word}

theorem mov_assigns (state : StateFits s) (row : IsRow dst address part lanes)
    (width : s.execWidth.toNat = lanes) (reads : Reads s src lanes value)
    (made : g.assemble s (.mov dst src) = .ok ws) :
    ∃ w, ws = [w] ∧ StraightLine.Steady g w ∧ Assigns g.layout w lanes (lets s) address part value := by
  obtain ⟨w, built, rfl⟩ := map_ok.mp made
  have decodes := unaryWord_decodes state (by decide) rfl rfl (row.fits _) (reads.fits _) built
  refine ⟨w, rfl, ⟨_, decodes, rfl, nofun⟩, decoded_assigns decodes rfl row width ?_⟩
  intro m lane inside
  exact reads.value m lane inside

/-- Sums and products take any parts of qwords, shifts whole ones. -/
theorem binary_assigns {op : BinaryOp} (state : StateFits s) (row : IsRow dst address .whole lanes)
    (width : s.execWidth.toNat = lanes) (reads0 : Reads s src0 lanes value0) (reads1 : Reads s src1 lanes value1)
    (kind : op = .add ∨ op = .mul ∨ (op = .shl ∨ op = .shr) ∧ ∃ first, IsRow src0 first .whole lanes)
    (made : g.assemble s (.binary op dst src0 src1) = .ok ws) :
    ∃ w, ws = [w] ∧ StraightLine.Steady g w ∧ Assigns g.layout w lanes (lets s) address .whole
      fun m lane => qwordResult op (value0 m lane) (value1 m lane) := by
  obtain ⟨w, built, rfl⟩ := map_ok.mp made
  have decodes := binaryWord_decodes state (by cases op <;> decide) (by cases op <;> rfl)
    (by cases op <;> rfl) (by cases op <;> decide) (row.fits _) (reads0.fits _) (reads1.fits _) built
  have qwords {r : Register} {a : Nat} (row : IsRow r a .whole lanes) : r.type = .ul ∨ r.type = .l := by
    rcases row.type with ⟨-, type⟩ | ⟨half, -⟩
    · exact type
    · exact absurd rfl half
  have mask : Decoded.shiftMask { readHeader s op.opcode with
      dst := readDestination dst, sources := [readSource s src0, readSource s src1] } = 63 := by
    have wide : dst.type.is64 = true := by
      rcases qwords row with type | type <;> rw [type] <;> rfl
    simp [Decoded.shiftMask, readDestination, wide]
  refine ⟨w, rfl, ⟨_, decodes, by cases op <;> rfl, by cases op <;> rintro ⟨⟩⟩, ?_⟩
  have operation : Machine.arithmetic? { readHeader s op.opcode with
      dst := readDestination dst, sources := [readSource s src0, readSource s src1] } =
        some (qwordResult op) := by
    rcases kind with rfl | rfl | ⟨rfl | rfl, first, whole⟩
    · rfl
    · rfl
    · simp only [Machine.arithmetic?, readHeader, BinaryOp.opcode] at mask ⊢
      rw [mask]
      rfl
    · have clipped (v : UInt64) : (readSource s src0).type.clip v = v := by
        have register : (readSource s src0).type = src0.type := by
          unfold readSource
          split <;> rfl
        rw [register]
        rcases qwords whole with type | type <;> rw [type] <;> rfl
      simp only [Machine.arithmetic?, readHeader, BinaryOp.opcode, Decoded.firstType, List.headD_cons,
        clipped] at mask ⊢
      rw [mask]
      rfl
  refine decoded_assigns decodes operation row width ?_
  intro m lane inside
  rw [← reads0.value m lane inside, ← reads1.value m lane inside]
  rfl

end

/-! ## Runs -/

/-- What a lane reads for an assignment: a part of its qword of a row, or a constant. -/
inductive Value where
  | row (address : Nat) (part : Part)
  | constant (v : UInt64)

/-- The value in a lane whose qwords are given by row. -/
def Value.of (cells : Nat → UInt64) : Value → UInt64
  | row address part => part.get (cells address)
  | constant v => v

/-- The rows a value is read from. -/
def Value.rows : Value → List Nat
  | row address _ => [address]
  | constant _ => []

/-- One word as it shows in a single lane. -/
structure Assignment where
  target : Nat
  part : Part
  op : UInt64 → UInt64 → UInt64
  first : Value
  second : Value

namespace Assignment

/-- The qwords of a lane after an assignment. -/
def apply (cells : Nat → UInt64) (x : Assignment) : Nat → UInt64 := fun address =>
  if address = x.target then x.part.set (cells address) (x.op (x.first.of cells) (x.second.of cells))
  else cells address

/-- The rows an assignment names. -/
def rows (x : Assignment) : List Nat := x.target :: (x.first.rows ++ x.second.rows)

theorem value_congr {cells cells' : Nat → UInt64} {v : Value} (same : ∀ a ∈ v.rows, cells a = cells' a) :
    v.of cells = v.of cells' := by
  cases v with
  | row address part => rw [Value.of, same address List.mem_cons_self, Value.of]
  | constant v => rfl

/-- Assignments depend only on the rows they name. -/
theorem foldl_congr {rows : List Nat} (xs : List Assignment) (named : ∀ x ∈ xs, ∀ a ∈ x.rows, a ∈ rows)
    {cells cells' : Nat → UInt64} (same : ∀ a ∈ rows, cells a = cells' a) :
    ∀ a ∈ rows, xs.foldl apply cells a = xs.foldl apply cells' a := by
  induction xs generalizing cells cells' with
  | nil => exact same
  | cons x rest ih =>
    have names := named x List.mem_cons_self
    refine ih (fun y member => named y (List.mem_cons_of_mem _ member)) ?_
    intro a member
    have first : x.first.of cells = x.first.of cells' :=
      value_congr fun a used => same a (names a (by simp [Assignment.rows, used]))
    have second : x.second.of cells = x.second.of cells' :=
      value_congr fun a used => same a (names a (by simp [Assignment.rows, used]))
    simp only [apply, same a member, first, second]

end Assignment

/-- A word that carries out an assignment in every lane it works on. -/
def Performs (l : Layout) (lanes : Nat) (on : UInt32 → Nat → Bool) (w : Word) (x : Assignment) : Prop :=
  Assigns l w lanes on x.target x.part fun m lane =>
    x.op (x.first.of fun a => qword m a lane) (x.second.of fun a => qword m a lane)

theorem run_cons (m : Machine) (l : Layout) (w : Word) (ws : List Word) :
    m.run l (w :: ws) = (m.run l [w]).bind fun m => m.run l ws := by
  simp [Machine.run]

section
variable {l : Layout} {lanes : Nat} {on : UInt32 → Nat → Bool} {rows : List Nat}
  (apart : ∀ a ∈ rows, ∀ b ∈ rows, a ≠ b → a + 8 * lanes ≤ b ∨ b + 8 * lanes ≤ a)
include apart

/-- What one word does to the qwords of every lane. -/
theorem performs_cells {w : Word} {x : Assignment} (performs : Performs l lanes on w x)
    (named : ∀ a ∈ x.rows, a ∈ rows) (m : Machine) :
    ∃ m', m.run l [w] = some m' ∧ m'.flag = m.flag ∧
      (∀ lane < lanes, ∀ a ∈ rows, qword m' a lane =
        if on m.flag lane then x.apply (fun a => qword m a lane) a else qword m a lane) ∧
      ∀ b, b < x.target ∨ x.target + 8 * lanes ≤ b → m'.registers b = m.registers b := by
  obtain ⟨m', ran, flag, cells, around⟩ := performs m
  refine ⟨m', ran, flag, ?_, around⟩
  intro lane inside a member
  by_cases same : a = x.target
  · rw [same, cells lane inside, Assignment.apply, if_pos rfl]
  · have away := apart a member x.target (named _ List.mem_cons_self) same
    have kept : qword m' a lane = qword m a lane :=
      Memory.load_congr fun c low high => around c (by omega)
    rw [kept, Assignment.apply, if_neg same, ite_self]

/-- Words that carry out assignments on rows that are apart or the same. They leave the lanes alone that
are not let through. -/
theorem run_lanes {ws : List Word} {xs : List Assignment} (performs : List.Forall₂ (Performs l lanes on) ws xs)
    (named : ∀ x ∈ xs, ∀ a ∈ x.rows, a ∈ rows) (m : Machine) :
    ∃ m', m.run l ws = some m' ∧ m'.flag = m.flag ∧
      (∀ lane < lanes, ∀ a ∈ rows, qword m' a lane =
        if on m.flag lane then xs.foldl Assignment.apply (fun a => qword m a lane) a else qword m a lane) ∧
      ∀ b, (∀ x ∈ xs, b < x.target ∨ x.target + 8 * lanes ≤ b) → m'.registers b = m.registers b := by
  induction performs generalizing m with
  | nil =>
    refine ⟨m, rfl, rfl, ?_, fun _ _ => rfl⟩
    intro lane _ a _
    rw [List.foldl_nil, ite_self]
  | @cons w x ws xs first rest ih =>
    obtain ⟨m₁, ran, flag, cells, around⟩ := performs_cells apart first (named x List.mem_cons_self) m
    obtain ⟨m', later, flag', cells', around'⟩ :=
      ih (fun y member => named y (List.mem_cons_of_mem _ member)) m₁
    refine ⟨m', by rw [run_cons, ran, Option.bind_some, later], flag'.trans flag, ?_, ?_⟩
    · intro lane inside a member
      rw [cells' lane inside a member, flag, List.foldl_cons]
      split
      · rename_i works
        refine Assignment.foldl_congr xs (fun y known => named y (List.mem_cons_of_mem _ known)) ?_ a member
        intro b known
        rw [cells lane inside b known, if_pos works]
      · rename_i off
        rw [cells lane inside a member, if_neg off]
    · intro b outside
      rw [around' b fun y member => outside y (List.mem_cons_of_mem _ member),
        around b (outside x List.mem_cons_self)]

end

end GpuCodegen.Lanes
