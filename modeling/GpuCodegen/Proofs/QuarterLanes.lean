import GpuCodegen.Lowering.Emission
import GpuCodegen.Proofs.Outcome
import GpuCodegen.Proofs.WordEffects

/-! Quarters of operands. In a vector whose rows continue one another, lane `i` of quarter `q` is at the byte of lane
`8 * q + i`. Moving an operand adds registers and bytes to where it begins, however the bytes carry into the register
number, so that a quarter of a quarter is a quarter too. The operands of kernels and their unpacked views have rows of
this kind, or a single element for all lanes. -/

namespace GpuCodegen.Native

/-! ## Regions -/

namespace Region

/-- Neighbouring lanes are equally far apart, also across the end of a row, and never in one place. -/
structure IsContiguous (r : Region) : Prop where
  rows : strideElems r.vertical = 2 ^ r.width.toNat * strideElems r.horizontal
  apart : 1 ≤ strideElems r.horizontal

instance (r : Region) : Decidable r.IsContiguous :=
  decidable_of_iff
    (strideElems r.vertical = 2 ^ r.width.toNat * strideElems r.horizontal ∧ 1 ≤ strideElems r.horizontal)
    ⟨fun h => ⟨h.1, h.2⟩, fun h => ⟨h.rows, h.apart⟩⟩

theorem IsContiguous.element {r : Region} (contiguous : r.IsContiguous) (lane : Nat) :
    r.element lane = lane * (strideElems r.horizontal).toNat := by
  obtain ⟨step, horizontal⟩ := Int.eq_ofNat_of_zero_le (Int.le_trans (by decide) contiguous.apart)
  have vertical : (strideElems r.vertical).toNat = 2 ^ r.width.toNat * step := by
    rw [contiguous.rows, horizontal]
    exact_mod_cast Int.toNat_natCast (2 ^ r.width.toNat * step)
  change lane / 2 ^ r.width.toNat * (strideElems r.vertical).toNat +
    lane % 2 ^ r.width.toNat * (strideElems r.horizontal).toNat = _
  rw [vertical, horizontal, Int.toNat_natCast]
  calc lane / 2 ^ r.width.toNat * (2 ^ r.width.toNat * step) + lane % 2 ^ r.width.toNat * step
      = (lane / 2 ^ r.width.toNat * 2 ^ r.width.toNat + lane % 2 ^ r.width.toNat) * step := by
        rw [Nat.add_mul, Nat.mul_assoc]
    _ = lane * step := by rw [Nat.div_add_mod']

/-- A row of any number of elements side by side. Where the number has no code, the rows have one element each. -/
theorem ofCounts_contiguous {n : Int} (nonempty : n ≠ 0) : (ofCounts n n 1).IsContiguous := by
  cases coded : countCode? n with
  | none =>
    have codes : ofCounts n n 1 = ⟨1, 0, 1⟩ := by
      simp [ofCounts, verticalCode, widthCode, horizontalCode, nonempty, coded]
    rw [codes]
    decide
  | some code =>
    have counts : n = 1 ∨ n = 2 ∨ n = 4 ∨ n = 8 ∨ n = 16 ∨ n = 32 := by
      unfold countCode? at coded
      split_ifs at coded <;> simp [*]
    rcases counts with rfl | rfl | rfl | rfl | rfl | rfl <;> decide

end Region

/-! ## Moved operands -/

namespace Register

theorem offset_sub_lt (r : Register) (registers bytes : UInt32) : (r.offset registers bytes).sub.toNat < 32 := by
  change ((r.sub + bytes) % grfSize).toNat < 32
  rw [UInt32.toNat_mod]
  exact Nat.mod_lt _ (show 0 < grfSize.toNat by decide)

/-- What the bytes carry into the register number is not lost. -/
theorem byteOffset_offset (r : Register) (registers bytes : UInt32) :
    (r.offset registers bytes).byteOffset = r.byteOffset + (32 * registers + bytes) := by
  have carried := Lanes.offset_split (r.sub + bytes)
  have size : grfSize = 32 := rfl
  change (r.number + (registers + (r.sub + bytes) / grfSize)) * grfSize + (r.sub + bytes) % grfSize =
    r.number * grfSize + r.sub + (32 * registers + bytes)
  generalize (r.sub + bytes) / grfSize = carry at carried ⊢
  generalize (r.sub + bytes) % grfSize = rest at carried ⊢
  rw [size] at carried ⊢
  grind

theorem toNat_byteOffset_offset (r : Register) (registers bytes : UInt32) :
    (r.offset registers bytes).byteOffset.toNat =
      (r.byteOffset.toNat + (32 * registers.toNat + bytes.toNat)) % 2 ^ 32 := by
  have size : (32 : UInt32).toNat = 32 := rfl
  rw [byteOffset_offset, UInt32.toNat_add, UInt32.toNat_add, UInt32.toNat_mul, size]
  omega

example : (ud8 3 24).offset 0 16 = ud8 4 8 := by decide

/-- Moving twice is moving by the sum, unless the bytes overflow on the way. -/
theorem offset_offset (r : Register) (registers bytes registers' bytes' : UInt32)
    (small : r.sub.toNat + bytes.toNat + bytes'.toNat < 2 ^ 32) :
    (r.offset registers bytes).offset registers' bytes' = r.offset (registers + registers') (bytes + bytes') := by
  have size : grfSize.toNat = 32 := rfl
  simp only [offset, mk.injEq, and_true, true_and]
  constructor
  · rw [← UInt32.toNat_inj]
    simp only [UInt32.toNat_add, UInt32.toNat_div, UInt32.toNat_mod, size]
    omega
  · rw [← UInt32.toNat_inj]
    simp only [UInt32.toNat_add, UInt32.toNat_mod, size]
    omega

theorem offset_zero {r : Register} (short : r.sub.toNat < 32) : r.offset 0 0 = r := by
  have size : grfSize.toNat = 32 := rfl
  have none : r.sub / grfSize = 0 := by
    rw [← UInt32.toNat_inj, UInt32.toNat_div, size]
    exact Nat.div_eq_of_lt short
  have same : r.sub % grfSize = r.sub := by
    rw [← UInt32.toNat_inj, UInt32.toNat_mod, size]
    exact Nat.mod_eq_of_lt short
  simp [offset, none, same]

/-! ## Quarters -/

theorem isScalar_of_apart {r : Register} (apart : 1 ≤ strideElems r.region.horizontal) : r.isScalar = false := by
  have other : r.region ≠ .scalar := by
    intro same
    rw [same] at apart
    exact absurd apart (by decide)
  simp [isScalar, other]

theorem quarter_of_scalar {r : Register} (scalar : r.isScalar = true) (q : UInt32) : r.quarter q = r :=
  if_pos scalar

theorem quarter_of_vector {r : Register} (vector : r.isScalar = false) (q : UInt32) :
    r.quarter q = r.offset 0 (8 * q * r.elementStep) := by
  simp [quarter, suboffset, vector]

/-- A quarter is the operand as it is or moved by some bytes. -/
theorem quarter_moved (r : Register) (q : UInt32) : r.quarter q = r ∨ ∃ bytes, r.quarter q = r.offset 0 bytes := by
  cases single : r.isScalar with
  | true => exact .inl (quarter_of_scalar single q)
  | false => exact .inr ⟨_, quarter_of_vector single q⟩

theorem quarter_shape (r : Register) (q : UInt32) : (r.quarter q).file = r.file ∧ (r.quarter q).type = r.type ∧
    (r.quarter q).region = r.region ∧ (r.quarter q).indirect = r.indirect := by
  obtain same | ⟨bytes, moved⟩ := r.quarter_moved q
  · rw [same]
    exact ⟨rfl, rfl, rfl, rfl⟩
  · rw [moved]
    exact ⟨rfl, rfl, rfl, rfl⟩

theorem quarter_zero {r : Register} (short : r.sub.toNat < 32) : r.quarter 0 = r := by
  cases single : r.isScalar with
  | true => exact quarter_of_scalar single 0
  | false =>
    have none : 8 * 0 * r.elementStep = 0 := UInt32.zero_mul
    rw [quarter_of_vector single, none, offset_zero short]

theorem byteOffset_quarter {r : Register} (vector : r.isScalar = false) (q : UInt32) :
    (r.quarter q).byteOffset = r.byteOffset + 8 * q * r.elementStep := by
  rw [quarter_of_vector vector, byteOffset_offset, UInt32.mul_zero, UInt32.zero_add]

/-- A quarter of a quarter of a vector is the vector moved twice. -/
theorem quarter_quarter_of_vector {r : Register} (vector : r.isScalar = false) (a b : UInt32) :
    (r.quarter a).quarter b = (r.offset 0 (8 * a * r.elementStep)).offset 0 (8 * b * r.elementStep) := by
  rw [quarter_of_vector vector a]
  exact quarter_of_vector (r := r.offset 0 (8 * a * r.elementStep)) vector b

/-- A quarter of a quarter begins where the quarter of both together does. -/
theorem byteOffset_quarter_quarter (r : Register) (a b : UInt32) :
    ((r.quarter a).quarter b).byteOffset = (r.quarter (a + b)).byteOffset := by
  cases single : r.isScalar with
  | true => rw [quarter_of_scalar single, quarter_of_scalar single, quarter_of_scalar single]
  | false =>
    rw [quarter_quarter_of_vector single, byteOffset_offset, byteOffset_offset, byteOffset_quarter single]
    grind

/-- The bytes to a quarter are those of its first lane, cut to a word. -/
theorem toNat_quarterBytes (q step : UInt32) : (8 * q * step).toNat = 8 * q.toNat * step.toNat % 2 ^ 32 := by
  have eight : (8 : UInt32).toNat = 8 := rfl
  rw [UInt32.toNat_mul, UInt32.toNat_mul, eight, Nat.mod_mul_mod]

theorem quarter_quarter {r : Register} {a b : UInt32}
    (small : r.sub.toNat + 8 * (a.toNat + b.toNat) * r.elementStep.toNat < 2 ^ 32) :
    (r.quarter a).quarter b = r.quarter (a + b) := by
  cases single : r.isScalar with
  | true => rw [quarter_of_scalar single, quarter_of_scalar single, quarter_of_scalar single]
  | false =>
    have sum : 8 * (a + b) * r.elementStep = 8 * a * r.elementStep + 8 * b * r.elementStep := by grind
    rw [quarter_quarter_of_vector single, quarter_of_vector single, sum]
    refine offset_offset r _ _ _ _ ?_
    -- Cut to words the bytes of both quarters are no more than before, so their sum stays small.
    rw [Nat.mul_add, Nat.add_mul] at small
    have first := Nat.mod_le (8 * a.toNat * r.elementStep.toNat) (2 ^ 32)
    have second := Nat.mod_le (8 * b.toNat * r.elementStep.toNat) (2 ^ 32)
    rw [toNat_quarterBytes, toNat_quarterBytes]
    omega

/-- The bytes between neighbouring lanes, cut to a word. -/
theorem toNat_elementStep {r : Register} (apart : 1 ≤ strideElems r.region.horizontal) :
    r.elementStep.toNat = r.type.size * (strideElems r.region.horizontal).toNat % 2 ^ 32 := by
  obtain ⟨step, horizontal⟩ := Int.eq_ofNat_of_zero_le (Int.le_trans (by decide) apart)
  have elements : UInt32.ofInt (step : Int) = UInt32.ofNat step := by
    change UInt32.ofNat ((step : Int) % 4294967296).toNat = _
    rw [← UInt32.toNat_inj, UInt32.toNat_ofNat', UInt32.toNat_ofNat']
    omega
  rw [elementStep, Int.max_eq_left apart, horizontal, elements, ← UInt32.ofNat_mul, UInt32.toNat_ofNat',
    Int.toNat_natCast]

section
variable {r : Register} {q : UInt32} {lane : Nat}

theorem toNat_byteOffset_quarter (contiguous : r.region.IsContiguous) (q : UInt32) :
    (r.quarter q).byteOffset.toNat =
      (r.byteOffset.toNat + 8 * q.toNat * (strideElems r.region.horizontal).toNat * r.type.size) % 2 ^ 32 := by
  have bytes : (8 * q * r.elementStep).toNat =
      8 * q.toNat * (strideElems r.region.horizontal).toNat * r.type.size % 2 ^ 32 := by
    rw [toNat_quarterBytes, toNat_elementStep contiguous.apart, Nat.mul_mod_mod, Nat.mul_comm r.type.size,
      ← Nat.mul_assoc]
  rw [byteOffset_quarter (isScalar_of_apart contiguous.apart), UInt32.toNat_add, bytes, Nat.add_mod_mod]

/-- Lane `lane` of a quarter is as far from where the vector begins as lane `8 * q + lane`, as long as the place of that
lane fits a word. -/
theorem quarter_lane (contiguous : r.region.IsContiguous)
    (small :
      r.byteOffset.toNat + (8 * q.toNat + lane) * (strideElems r.region.horizontal).toNat * r.type.size < 2 ^ 32) :
    (r.quarter q).byteOffset.toNat + lane * (strideElems r.region.horizontal).toNat * r.type.size =
      r.byteOffset.toNat + (8 * q.toNat + lane) * (strideElems r.region.horizontal).toNat * r.type.size := by
  -- Both ways from the first lane to this one are the bytes of the quarter and then those inside it.
  rw [Nat.add_mul, Nat.add_mul] at small ⊢
  rw [toNat_byteOffset_quarter contiguous, Nat.mod_eq_of_lt (by omega)]
  omega

end

end Register

end GpuCodegen.Native

namespace GpuCodegen.Quarters
open Native Outcome

/-! ## Lanes -/

section
variable {m : Machine} {r : Register} {q : UInt32} {lane : Nat}

theorem sourceAddress_eq (direct : r.indirect = none) (contiguous : r.region.IsContiguous) : m.sourceAddress r lane =
    r.byteOffset.toNat + lane * (strideElems r.region.horizontal).toNat * r.type.size := by
  rw [Machine.sourceAddress, direct, contiguous.element]

/-- A source reads in a lane of a quarter where the whole reads in the lane that many quarters later. -/
theorem sourceAddress_quarter (direct : r.indirect = none) (contiguous : r.region.IsContiguous)
    (small : m.sourceAddress r (8 * q.toNat + lane) < 2 ^ 32) :
    m.sourceAddress (r.quarter q) lane = m.sourceAddress r (8 * q.toNat + lane) := by
  obtain ⟨-, type, region, indirect⟩ := r.quarter_shape q
  rw [sourceAddress_eq direct contiguous] at small ⊢
  rw [sourceAddress_eq (indirect.trans direct) (region ▸ contiguous), type, region]
  exact Register.quarter_lane contiguous small

/-- A destination stores in a lane of a quarter where the whole stores in the lane that many quarters later. -/
theorem put_quarter (file : r.file = .grf) (direct : r.indirect = none) (contiguous : r.region.IsContiguous)
    (small : m.sourceAddress r (8 * q.toNat + lane) < 2 ^ 32) (value : UInt64) :
    m.put (r.quarter q) lane value = m.put r (8 * q.toNat + lane) value := by
  obtain ⟨file', type, region, -⟩ := r.quarter_shape q
  rw [sourceAddress_eq direct contiguous] at small
  rw [Machine.put, Machine.put, if_pos (file'.trans file), if_pos file, type, region,
    Register.quarter_lane contiguous small]

end

/-! ## Operands of kernels -/

section
variable {a : Allocation} {width : Int} {r : Register}

/-- A register operand is one element, or elements side by side in rows that continue one another. -/
theorem placed_region {x : RegisterOperand} (lanes : width ≠ 0) (placed : Emission.placed a x width = .ok r) :
    r.file = .grf ∧ r.indirect = none ∧ r.sub.toNat < 32 ∧
      if x.scalar = true ∨ width = 1 then r.isScalar = true else r.region.IsContiguous := by
  simp only [Emission.placed, bind_ok, pure_ok] at placed
  obtain ⟨offset, -, rfl⟩ := placed
  have short (place : UInt32) : (place % grfSize).toNat < 32 := by
    rw [UInt32.toNat_mod]
    exact Nat.mod_lt _ (show 0 < grfSize.toNat by decide)
  by_cases single : x.scalar = true ∨ width = 1
  · rw [if_pos (by simpa using single), if_pos single]
    exact ⟨rfl, rfl, short _, rfl⟩
  · rw [if_neg (by simpa using single), if_neg single]
    have row : min width ((32 / x.type.size : Nat) : Int) ≠ 0 := by
      have elements : 0 < 32 / x.type.size := by cases x.type <;> decide
      omega
    exact ⟨rfl, rfl, short _, Region.ofCounts_contiguous row⟩

theorem immediate_file {t : Element} {bits : UInt64} {negate : Bool}
    (made : Emission.immediate t bits negate = .ok r) : r.file = .imm := by
  cases t <;> first | cases made; rfl | cases made

/-- Emission takes the quarters of an operand in general registers, the first one as it is. -/
theorem quarter_emitted (file : r.file = .grf) (direct : r.indirect = none) (short : r.sub.toNat < 32) (q : Nat) :
    Emission.quarter r q = r.quarter (UInt32.ofNat q) := by
  unfold Emission.quarter
  split
  · rename_i whole
    obtain rfl | other | indirect := whole
    · exact (Register.quarter_zero short).symm
    · exact absurd file other
    · rw [direct] at indirect
      cases indirect
  · rfl

/-- What an operand that is no immediate becomes. -/
theorem operand_region {o : Operand} (lanes : width ≠ 0) (made : Emission.operand a width o = .ok r)
    (register : r.file ≠ .imm) : r.indirect = none ∧
      (r.isScalar = true ↔ ∃ x, o = .register x ∧ (x.scalar = true ∨ width = 1)) ∧
      (r.isScalar = false → r.region.IsContiguous) ∧
      (r.file = .grf → ∀ q : Nat, Emission.quarter r q = r.quarter (UInt32.ofNat q)) := by
  cases o with
  | immediate t bits negate absolute => exact absurd (immediate_file made) register
  | absent t =>
    cases made
    exact ⟨rfl, ⟨nofun, nofun⟩, fun _ => by decide, nofun⟩
  | register x =>
    obtain ⟨file, direct, short, region⟩ := placed_region lanes made
    refine ⟨direct, ?_, ?_, fun _ => quarter_emitted file direct short⟩
    · split at region
      · rename_i single
        exact ⟨fun _ => ⟨x, rfl, single⟩, fun _ => region⟩
      · rename_i several
        rw [Register.isScalar_of_apart region.apart]
        refine ⟨nofun, ?_⟩
        rintro ⟨y, same, single⟩
        cases same
        exact absurd single several
    · intro vector
      split at region
      · rw [vector] at region
        cases region
      · exact region

end

/-! ## Unpacked views -/

theorem unpacked_contiguous (r : Register) (t : DataType) : (r.unpacked t).region.IsContiguous :=
  show (Region.ofCounts 16 8 2).IsContiguous by decide

theorem unpacked_vector (r : Register) (t : DataType) : (r.unpacked t).isScalar = false :=
  Register.isScalar_of_apart (unpacked_contiguous r t).apart

/-- Two elements of a view are as far apart as two elements of twice their size that lie side by side. -/
theorem elementStep_unpacked {r : Register} {t : DataType} (beside : strideElems r.region.horizontal = 1)
    (half : r.type.size = 2 * t.size) : (r.unpacked t).elementStep = r.elementStep := by
  have two : strideElems (r.unpacked t).region.horizontal = 2 := by
    change strideElems (Region.ofCounts 16 8 2).horizontal = 2
    decide
  rw [← UInt32.toNat_inj, Register.toNat_elementStep (by omega), Register.toNat_elementStep (by omega), two, beside,
    half, Nat.mul_comm 2]
  change t.size * 2 % 2 ^ 32 = t.size * 2 * 1 % 2 ^ 32
  rw [Nat.mul_one]

/-- The quarters of a view begin where those of the wider elements do. -/
theorem quarter_unpacked {r : Register} {t : DataType} (beside : strideElems r.region.horizontal = 1)
    (half : r.type.size = 2 * t.size) (q : UInt32) : (r.unpacked t).quarter q = (r.quarter q).unpacked t := by
  have vector : r.isScalar = false := Register.isScalar_of_apart (Int.le_of_eq beside.symm)
  rw [Register.quarter_of_vector (unpacked_vector r t), Register.quarter_of_vector vector,
    elementStep_unpacked beside half]
  rfl

theorem byteOffset_unpackedDwords (r : Register) (part : UInt32) :
    (r.unpackedDwords part).byteOffset = r.byteOffset + 4 * part :=
  (UInt32.add_assoc _ _ _).symm

/-- The quarters of either half of qwords begin that half later than those of the qwords. -/
theorem byteOffset_quarter_unpackedDwords {r : Register} (beside : strideElems r.region.horizontal = 1)
    (qwords : r.type.size = 8) (part q : UInt32) :
    ((r.unpackedDwords part).quarter q).byteOffset = ((r.quarter q).unpackedDwords part).byteOffset := by
  have vector : r.isScalar = false := Register.isScalar_of_apart (Int.le_of_eq beside.symm)
  have view : (r.unpackedDwords part).isScalar = false := unpacked_vector r .ud
  have step : (r.unpackedDwords part).elementStep = r.elementStep := elementStep_unpacked (t := .ud) beside qwords
  rw [Register.byteOffset_quarter view, step, byteOffset_unpackedDwords, byteOffset_unpackedDwords,
    Register.byteOffset_quarter vector, UInt32.add_assoc, UInt32.add_comm (4 * part), ← UInt32.add_assoc]

/-! ## Main statement -/

/-- In a vector whose rows continue one another a lane of quarter `q` is at the byte of the lane `8 * q` later, to be
read and to be written, as long as that byte has an address. Quarters add up: taken twice, they begin where the quarter
of the sum does, and are that quarter unless the bytes overflow. Moving an operand leaves it inside its first register
and adds exactly the registers and bytes to where it begins. The operands of kernels, of any type and on any number of
lanes, are such vectors or a single element for all lanes; unpacked views are such vectors, and their quarters begin
where those of the wider elements do. -/
theorem quarter_lanes :
    (∀ r : Register, r.indirect = none → r.region.IsContiguous → ∀ (q : UInt32) (lane : Nat) (m : Machine),
      m.sourceAddress r (8 * q.toNat + lane) < 2 ^ 32 →
        m.sourceAddress (r.quarter q) lane = m.sourceAddress r (8 * q.toNat + lane) ∧
        (r.file = .grf → ∀ value, m.put (r.quarter q) lane value = m.put r (8 * q.toNat + lane) value)) ∧
    (∀ (r : Register) (a b : UInt32), ((r.quarter a).quarter b).byteOffset = (r.quarter (a + b)).byteOffset ∧
      (r.sub.toNat + 8 * (a.toNat + b.toNat) * r.elementStep.toNat < 2 ^ 32 →
        (r.quarter a).quarter b = r.quarter (a + b))) ∧
    (∀ (r : Register) (registers bytes : UInt32), (r.offset registers bytes).sub.toNat < 32 ∧
      (r.offset registers bytes).byteOffset.toNat =
        (r.byteOffset.toNat + (32 * registers.toNat + bytes.toNat)) % 2 ^ 32) ∧
    (∀ (a : Allocation) (width : Int) (o : Operand) (r : Register), width ≠ 0 →
      Emission.operand a width o = .ok r → r.file ≠ .imm → r.indirect = none ∧
        (r.isScalar = true ↔ ∃ x, o = .register x ∧ (x.scalar = true ∨ width = 1)) ∧
        (r.isScalar = false → r.region.IsContiguous) ∧
        (r.file = .grf → ∀ q : Nat, Emission.quarter r q = r.quarter (UInt32.ofNat q))) ∧
    (∀ (r : Register) (t : DataType) (part : UInt32), (r.unpacked t).region.IsContiguous ∧
      (r.unpackedDwords part).region.IsContiguous ∧ r.unpackedWords.region.IsContiguous) ∧
    ∀ r : Register, strideElems r.region.horizontal = 1 → ∀ q : UInt32,
      (∀ t : DataType, r.type.size = 2 * t.size → (r.unpacked t).quarter q = (r.quarter q).unpacked t) ∧
      (r.type.size = 8 → ∀ part : UInt32,
        ((r.unpackedDwords part).quarter q).byteOffset = ((r.quarter q).unpackedDwords part).byteOffset) := by
  refine ⟨fun r direct contiguous q lane m small => ?_, fun r a b => ?_, fun r registers bytes => ?_,
    fun a width o r lanes made register => operand_region lanes made register, fun r t part => ?_,
    fun r beside q => ?_⟩
  · exact ⟨sourceAddress_quarter direct contiguous small, fun file => put_quarter file direct contiguous small⟩
  · exact ⟨r.byteOffset_quarter_quarter a b, Register.quarter_quarter⟩
  · exact ⟨r.offset_sub_lt registers bytes, r.toNat_byteOffset_offset registers bytes⟩
  · exact ⟨unpacked_contiguous r t, unpacked_contiguous r .ud, unpacked_contiguous r .uw⟩
  · exact ⟨fun t half => quarter_unpacked beside half q,
      fun qwords part => byteOffset_quarter_unpackedDwords beside qwords part q⟩

/-- Eight qwords from register 4 on. -/
def eightQwords : Register := .vec8 4 0 .ul

/-- A kernel of sixteen lanes with one register. -/
def onePlaced : Allocation where
  kernel := { name := "placed", simdWidth := 16 }
  offsets := ⟨⟨[(0, 160)]⟩, 1, 1, none⟩

/-- The second quarter of the high dwords of qwords starts two registers later, at the high dword there; sixteen qwords
are placed in rows of four. -/
theorem quarter_lanes_highDwords :
    (eightQwords.unpackedDwords 1).indirect = none ∧ (eightQwords.unpackedDwords 1).region.IsContiguous ∧
      (∀ m : Machine, m.sourceAddress (eightQwords.unpackedDwords 1) 11 = 220 ∧
        m.sourceAddress ((eightQwords.unpackedDwords 1).quarter 1) 3 = 220 ∧
        ∀ value, m.put ((eightQwords.unpackedDwords 1).quarter 1) 3 value =
          m.put (eightQwords.unpackedDwords 1) 11 value) ∧
      (eightQwords.quarter 1).quarter 2 = eightQwords.quarter 3 ∧
      (∃ r, Emission.operand onePlaced 16 (.register { reg := ⟨0⟩, type := .ul }) = .ok r ∧ r.file = .grf ∧
        r.isScalar = false ∧ r.region.IsContiguous ∧ Emission.quarter r 1 = r.quarter 1) ∧
      strideElems eightQwords.region.horizontal = 1 ∧
      (eightQwords.unpacked .ud).quarter 1 = (eightQwords.quarter 1).unpacked .ud := by
  have direct : (eightQwords.unpackedDwords 1).indirect = none := rfl
  have contiguous : (eightQwords.unpackedDwords 1).region.IsContiguous := by decide
  have place (m : Machine) : m.sourceAddress (eightQwords.unpackedDwords 1) 11 = 220 := rfl
  have beside : strideElems eightQwords.region.horizontal = 1 := by decide
  have made : Emission.operand onePlaced 16 (.register { reg := ⟨0⟩, type := .ul }) = .ok (.vec 5 0 .ul 4 4 1) := rfl
  obtain ⟨lanes, sums, -, operands, -, views⟩ := quarter_lanes
  obtain ⟨-, -, region, quarters⟩ := operands onePlaced 16 _ _ (by decide) made (by decide)
  refine ⟨direct, contiguous, fun m => ?_, (sums eightQwords 1 2).2 (by decide),
    ⟨_, made, rfl, by decide, region (by decide), quarters rfl 1⟩, beside, (views eightQwords beside 1).1 .ud rfl⟩
  have small : m.sourceAddress (eightQwords.unpackedDwords 1) 11 < 2 ^ 32 := by
    rw [place]
    decide
  obtain ⟨read, written⟩ := lanes (eightQwords.unpackedDwords 1) direct contiguous 1 3 m small
  exact ⟨place m, read.trans (place m), written rfl⟩

end GpuCodegen.Quarters
