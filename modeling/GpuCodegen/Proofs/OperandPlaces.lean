import GpuCodegen.Proofs.Footprints
import GpuCodegen.Proofs.QuarterLanes

/-! Operands at their places. An operand covers the bytes of its register from one part to the next; a word
that writes an element for each of its lanes, or whole registers, stays inside as long as there is room. -/

namespace GpuCodegen.Footprints
open Native WordRoundTrip Generation Outcome

/-- The bytes of one part of a register, as an operand describes it. -/
def partBytes (x : RegisterOperand) (width : Int) : Int := x.type.size * x.lanes width

/-- The bytes from the part an operand selects to the end of its register. -/
def room (x : RegisterOperand) (width : Int) : Int := partBytes x width * (x.spans - x.part)

/-- An operand at its place: all that it describes lies inside, and whole registers of it begin where a general
register does. -/
structure Held (a : Allocation) (inside : Nat → Prop) (width : Int) (x : RegisterOperand) (offset : UInt32) : Prop where
  placed : a.offsets.lookup? x.reg = some offset
  part : 0 ≤ x.part ∧ x.part < x.spans
  ends : offset.toNat + partBytes x width * x.spans < 4294967296
  aligned : 32 ≤ partBytes x width * x.spans → offset.toNat % 32 = 0
  inside : ∀ b : Nat, offset.toNat ≤ b → (b : Int) < offset.toNat + partBytes x width * x.spans → inside b

/-- An operand that is held wherever its register is placed. -/
def Holds (a : Allocation) (inside : Nat → Prop) (width : Int) (x : RegisterOperand) : Prop :=
  ∀ offset, a.offsets.lookup? x.reg = some offset → Held a inside width x offset

/-- The first byte of the part an operand selects. -/
def base (x : RegisterOperand) (width : Int) (offset : UInt32) : Nat :=
  (offset.toNat + x.part * partBytes x width).toNat

theorem toNat_ofInt {n : Int} (nonneg : 0 ≤ n) (small : n < 4294967296) : (UInt32.ofInt n).toNat = n.toNat := by
  change (UInt32.ofNat (n % 4294967296).toNat).toNat = _
  rw [UInt32.toNat_ofNat']
  omega

/-- A direct operand of general registers and the byte it begins at. -/
structure At (r : Register) (first : Nat) : Prop where
  file : r.file = .grf
  direct : r.indirect = none
  sum : r.number.toNat * 32 + r.sub.toNat = first
  small : first < 4294967296

theorem At.byteOffset {r : Register} {first : Nat} (place : At r first) : r.byteOffset.toNat = first := by
  have sum := place.sum
  have small := place.small
  have grf : grfSize.toNat = 32 := rfl
  rw [Register.byteOffset, UInt32.toNat_add, UInt32.toNat_mul, grf]
  omega

theorem At.retype {r : Register} {first : Nat} (place : At r first) (t : DataType) : At (r.retype t) first :=
  ⟨place.file, place.direct, place.sum, place.small⟩

/-- Moving an operand by registers and bytes. -/
theorem At.offset {r : Register} {first : Nat} (place : At r first) (registers bytes : UInt32)
    (small : first + 32 * registers.toNat + bytes.toNat < 4294967296) :
    At (r.offset registers bytes) (first + 32 * registers.toNat + bytes.toNat) := by
  have sum := place.sum
  have grf : grfSize.toNat = 32 := rfl
  refine ⟨place.file, place.direct, ?_, small⟩
  simp only [Register.offset, UInt32.toNat_add, UInt32.toNat_mod, UInt32.toNat_div, grf]
  omega

/-- The quarter of elements side by side that starts with lane `8 * q`. -/
theorem At.quarter {r : Register} {first q : Nat} (place : At r first) (row : r.region.horizontal = 1)
    (small : first + 8 * q * r.type.size < 4294967296) :
    ∃ bytes, r.quarter (UInt32.ofNat q) = r.offset 0 bytes ∧
      At (r.quarter (UInt32.ofNat q)) (first + 8 * q * r.type.size) := by
  have vector : r.isScalar = false := by
    apply Register.isScalar_of_apart
    rw [row]
    decide
  have step : r.elementStep = UInt32.ofNat r.type.size := by
    rw [Register.elementStep, row]
    exact UInt32.mul_one _
  have moved : r.quarter (UInt32.ofNat q) = r.offset 0 (8 * UInt32.ofNat q * UInt32.ofNat r.type.size) := by
    rw [Register.quarter_of_vector vector, step]
  have bytes : (8 * UInt32.ofNat q * UInt32.ofNat r.type.size).toNat = 8 * q * r.type.size := by
    rw [Register.toNat_quarterBytes, UInt32.toNat_ofNat', UInt32.toNat_ofNat', Nat.mul_mod_mod, Nat.mul_right_comm,
      Nat.mul_mod_mod, Nat.mul_right_comm]
    exact Nat.mod_eq_of_lt (Nat.lt_of_le_of_lt (Nat.le_add_left _ first) small)
  have shifted := place.offset 0 (8 * UInt32.ofNat q * UInt32.ofNat r.type.size) (by rw [bytes]; exact small)
  rw [bytes] at shifted
  rw [moved]
  exact ⟨_, rfl, shifted⟩

theorem destinationStride_row {r : Register} (row : r.region.horizontal = 1) : destinationStride r = 1 := by
  rw [destinationStride, row]
  rfl

/-- Elements side by side, or a single one. -/
theorem At.lanes {r : Register} {first lanes b : Nat} (place : At r first) (row : destinationStride r = 1 ∨ lanes ≤ 1)
    (written : Lanes r (strideElems (destinationStride r)).toNat lanes b) :
    first ≤ b ∧ b < first + lanes * r.type.size := by
  obtain ⟨lane, few, low, high⟩ := written.2 place.direct
  rw [place.byteOffset] at low high
  have steps : (lane + 1) * r.type.size ≤ lanes * r.type.size := Nat.mul_le_mul_right _ few
  rw [Nat.succ_mul] at steps
  have step : lane * (strideElems (destinationStride r)).toNat = lane := by
    rcases row with one | single
    · have stride : (strideElems (destinationStride r)).toNat = 1 := by
        rw [one]
        rfl
      rw [stride, Nat.mul_one]
    · obtain rfl : lane = 0 := by omega
      rw [Nat.zero_mul]
  rw [step] at low high
  omega

theorem At.stretch {r : Register} {first bytes b : Nat} (place : At r first) (written : Stretch r bytes b) :
    first ≤ b ∧ b < first + bytes := by
  obtain ⟨low, high⟩ := written.2 place.direct
  rw [place.byteOffset] at low high
  exact ⟨low, high⟩

theorem At.rows {r : Register} {first rows b : Nat} (place : At r first) (sub : r.sub.toNat < 32)
    (written : Rows r rows b) : 32 * (first / 32) ≤ b ∧ b < 32 * (first / 32) + 32 * rows := by
  obtain ⟨low, high⟩ := written.2 place.direct
  have sum := place.sum
  omega

section
variable {a : Allocation} {inside : Nat → Prop} {width : Int} {x : RegisterOperand} {offset : UInt32}

theorem partBytes_nonneg (x : RegisterOperand) {width : Int} (lanes : 0 ≤ width) : 0 ≤ partBytes x width := by
  unfold partBytes RegisterOperand.lanes
  split
  · omega
  · exact Int.mul_nonneg (by omega) lanes

theorem room_add (x : RegisterOperand) (width : Int) (offset : UInt32) :
    offset.toNat + x.part * partBytes x width + room x width = offset.toNat + partBytes x width * x.spans := by
  unfold room
  rw [Int.mul_sub, Int.mul_comm x.part]
  omega

theorem Held.base_eq (held : Held a inside width x offset) (lanes : 0 ≤ width) :
    (base x width offset : Int) = offset.toNat + x.part * partBytes x width := by
  have nonneg := Int.mul_nonneg held.part.1 (partBytes_nonneg x lanes)
  unfold base
  omega

/-- One part is no longer than what is left of the register. -/
theorem Held.part_le_room (held : Held a inside width x offset) (lanes : 0 ≤ width) :
    partBytes x width ≤ room x width := by
  have one : 1 ≤ x.spans - x.part := by
    have := held.part
    omega
  have := Int.mul_le_mul_of_nonneg_left one (partBytes_nonneg x lanes)
  unfold room
  omega

/-- Bytes from the part on, while there is room. -/
theorem Held.from_base (held : Held a inside width x offset) (lanes : 0 ≤ width) {n b : Nat} (fits : n ≤ room x width)
    (low : base x width offset ≤ b) (high : b < base x width offset + n) : inside b := by
  have start := held.base_eq lanes
  have nonneg := Int.mul_nonneg held.part.1 (partBytes_nonneg x lanes)
  have whole := room_add x width offset
  exact held.inside b (by omega) (by omega)

/-- Whole registers from the one the part begins in, while there is room. -/
theorem Held.from_row (held : Held a inside width x offset) (lanes : 0 ≤ width) {n b : Nat} (some_ : 0 < n)
    (fits : 32 * n ≤ room x width) (low : 32 * (base x width offset / 32) ≤ b)
    (high : b < 32 * (base x width offset / 32) + 32 * n) : inside b := by
  have start := held.base_eq lanes
  have nonneg := Int.mul_nonneg held.part.1 (partBytes_nonneg x lanes)
  have whole := room_add x width offset
  have aligned := held.aligned (by omega)
  exact held.inside b (by omega) (by omega)

theorem dataType_size (t : Element) : t.dataType.size = t.size := by
  cases t <;> rfl

/-- The region of a placed operand. -/
def placedRegion (x : RegisterOperand) (width : Int) : Region :=
  if x.scalar || width == 1 then .scalar
  else .ofCounts (min width (32 / x.type.size : Nat)) (min width (32 / x.type.size : Nat)) 1

/-- The byte a placed operand begins at, counted in 32 bits. -/
theorem placed_start (found : a.offsets.lookup? x.reg = some offset) {r : Register}
    (placed : Emission.placed a x width = .ok r) :
    At r (offset + UInt32.ofInt (x.part * x.type.size * x.lanes width)).toNat ∧ r.sub.toNat < 32 ∧
      r.type = x.type.dataType ∧ r.region = placedRegion x width := by
  simp only [Emission.placed, Emission.placeOf, found, bind_ok, pure_ok] at placed
  obtain ⟨offset', found, rfl⟩ := placed
  cases found
  generalize offset + UInt32.ofInt (x.part * x.type.size * x.lanes width) = at_
  have grf : grfSize.toNat = 32 := rfl
  have small : at_.toNat < 4294967296 := at_.toNat_lt
  have sub : (at_ % grfSize).toNat < 32 := by
    rw [UInt32.toNat_mod, grf]
    omega
  have sum : (at_ / grfSize).toNat * 32 + (at_ % grfSize).toNat = at_.toNat := by
    rw [UInt32.toNat_mod, UInt32.toNat_div, grf]
    omega
  have scalar : Region.ofCounts 0 1 0 = .scalar := by decide
  unfold placedRegion
  split
  · exact ⟨⟨rfl, rfl, sum, small⟩, sub, rfl, scalar⟩
  · exact ⟨⟨rfl, rfl, sum, small⟩, sub, rfl, rfl⟩

/-- A placed operand begins where its part does, unless that is past the last address. -/
theorem placed_at (found : a.offsets.lookup? x.reg = some offset) (lanes : 0 ≤ width) (part : 0 ≤ x.part)
    (ends : offset.toNat + x.part * partBytes x width < 4294967296) {r : Register}
    (placed : Emission.placed a x width = .ok r) :
    At r (base x width offset) ∧ r.sub.toNat < 32 ∧ r.type = x.type.dataType ∧ r.region = placedRegion x width := by
  have nonneg := Int.mul_nonneg part (partBytes_nonneg x lanes)
  have start : (base x width offset : Int) = offset.toNat + x.part * partBytes x width := by
    unfold base
    omega
  have moved : (offset + UInt32.ofInt (x.part * x.type.size * x.lanes width)).toNat = base x width offset := by
    have same : x.part * x.type.size * x.lanes width = x.part * partBytes x width := by
      rw [partBytes, Int.mul_assoc]
    rw [same, UInt32.toNat_add, toNat_ofInt nonneg (by omega)]
    omega
  have place := placed_start found placed
  rwa [moved] at place

theorem placed_found {r : Register} (placed : Emission.placed a x width = .ok r) :
    (∃ offset, a.offsets.lookup? x.reg = some offset) ∧ r.type = x.type.dataType := by
  simp only [Emission.placed, Emission.placeOf, bind_ok, pure_ok] at placed
  obtain ⟨offset, found, rfl⟩ := placed
  refine ⟨?_, by dsimp only; split <;> rfl⟩
  split at found
  · exact ⟨_, ‹_›⟩
  · cases found

theorem Holds.held (holds : Holds a inside width x) {r : Register} (placed : Emission.placed a x width = .ok r) :
    ∃ offset, Held a inside width x offset := by
  obtain ⟨⟨offset, found⟩, -⟩ := placed_found placed
  exact ⟨offset, holds offset found⟩

theorem Held.placed_at (held : Held a inside width x offset) (lanes : 0 ≤ width) {r : Register}
    (placed : Emission.placed a x width = .ok r) :
    At r (base x width offset) ∧ r.sub.toNat < 32 ∧ r.type = x.type.dataType ∧ r.region = placedRegion x width := by
  have bound : x.part * partBytes x width ≤ partBytes x width * x.spans := by
    rw [Int.mul_comm x.part]
    exact Int.mul_le_mul_of_nonneg_left (Int.le_of_lt held.part.2) (partBytes_nonneg x lanes)
  have ends := held.ends
  exact Footprints.placed_at held.placed lanes held.part.1 (by omega) placed

theorem placedRegion_row (lone : x.scalar = true → width = 1) : (placedRegion x width).horizontal = 1 ∨ width = 1 := by
  unfold placedRegion
  split
  · rename_i single
    rw [Bool.or_eq_true, beq_iff_eq] at single
    exact .inr (single.elim lone id)
  · exact .inl rfl

/-- The elements of some lanes are no longer than one part. -/
theorem lanes_le_part (lone : x.scalar = true → width = 1) {lanes : Nat} (few : (lanes : Int) ≤ width) :
    ((lanes * x.type.size : Nat) : Int) ≤ partBytes x width := by
  rw [Nat.mul_comm, Int.natCast_mul]
  unfold partBytes RegisterOperand.lanes
  refine Int.mul_le_mul_of_nonneg_left ?_ (by omega)
  split
  · rename_i scalar
    have := lone scalar
    omega
  · exact few

/-- A vector moved by quarters. -/
theorem Held.moved_at (held : Held a inside width x offset) (lone : x.scalar = true → width = 1) {r : Register}
    (placed : Emission.placed a x width = .ok r) (row : r.region.horizontal = 1) {q : Nat}
    (fits : ((8 * q : Nat) : Int) ≤ width) :
    At (r.quarter (UInt32.ofNat q)) (base x width offset + 8 * q * x.type.size) ∧
      (r.quarter (UInt32.ofNat q)).type = x.type.dataType ∧ (r.quarter (UInt32.ofNat q)).region.horizontal = 1 := by
  obtain ⟨place, -, type, -⟩ := held.placed_at (by omega) placed
  have part := held.part_le_room (by omega)
  have whole := room_add x width offset
  have start := held.base_eq (by omega)
  have ends := held.ends
  have elements := lanes_le_part lone fits
  have size : r.type.size = x.type.size := by rw [type, dataType_size]
  obtain ⟨bytes, moved, shifted⟩ := place.quarter row (q := q) (by rw [size]; omega)
  rw [size] at shifted
  refine ⟨shifted, ?_⟩
  rw [moved]
  exact ⟨type, row⟩

/-- The quarter of a placed operand that starts with lane `8 * q`. -/
theorem Held.quarter_at (held : Held a inside width x offset) (lone : x.scalar = true → width = 1) {r : Register}
    (placed : Emission.placed a x width = .ok r) {q lanes : Nat} (fits : ((8 * q + lanes : Nat) : Int) ≤ width)
    (whole : q = 0 ∨ 8 < width) :
    At (Emission.quarter r q) (base x width offset + 8 * q * x.type.size) ∧
      (Emission.quarter r q).type = x.type.dataType ∧ ((Emission.quarter r q).region.horizontal = 1 ∨ lanes ≤ 1) := by
  obtain ⟨place, -, type, region⟩ := held.placed_at (by omega) placed
  have row : r.region.horizontal = 1 ∨ width = 1 := by
    rw [region]
    exact placedRegion_row lone
  by_cases zero : q = 0
  · subst zero
    have same : Emission.quarter r 0 = r := if_pos (.inl rfl)
    rw [same]
    exact ⟨by simpa using place, type, row.imp id fun one => by omega⟩
  · have wide := whole.resolve_left zero
    have moved : Emission.quarter r q = r.quarter (UInt32.ofNat q) := by
      unfold Emission.quarter
      rw [if_neg (by simp [zero, place.file, place.direct])]
    obtain ⟨shifted, type, one⟩ := held.moved_at lone placed (row.resolve_right (by omega)) (q := q) (by omega)
    rw [moved]
    exact ⟨shifted, type, .inl one⟩

/-- The first lanes of an operand. -/
theorem Held.from_lanes (held : Held a inside width x offset) (lone : x.scalar = true → width = 1) {lanes b : Nat}
    (few : (lanes : Int) ≤ width) (low : base x width offset ≤ b)
    (high : b < base x width offset + lanes * x.type.size) :
    inside b := by
  refine held.from_base (by omega) (n := lanes * x.type.size) ?_ low high
  exact Int.le_trans (lanes_le_part lone few) (held.part_le_room (by omega))

end

/-! ## Operands that fit -/

theorem tame_moved {r : Register} (tame : Tame r) (file : r.file = .grf) (number sub : UInt32) :
    Tame { r with number := number, sub := sub } := by
  intro f
  refine ⟨(tame f).file, (tame f).listed, fun arf => ?_, (tame f).address, (tame f).vertical, (tame f).width,
    (tame f).horizontal⟩
  change r.file = .arf at arf
  rw [file] at arf
  cases arf

theorem tame_modified {r : Register} (tame : Tame r) (negate absolute : Bool) :
    Tame { r with negate := negate, absolute := absolute } :=
  fun f => ⟨(tame f).file, (tame f).listed, (tame f).place, (tame f).address, (tame f).vertical, (tame f).width,
    (tame f).horizontal⟩

theorem tame_imm (t : DataType) (bits : UInt64) : Tame (.imm t bits) :=
  tame_direct (.inr (.inl rfl)) rfl (show (0 : UInt8).toNat < 16 by decide) (show (0 : UInt8).toNat < 8 by decide)
    (show (0 : UInt8).toNat < 4 by decide)

theorem tame_default : Tame default :=
  tame_direct (.inr (.inr ⟨rfl, by decide, by decide⟩)) rfl (by decide) (by decide) (by decide)

theorem tame_registerQuarter {r : Register} (tame : Tame r) (file : r.file = .grf) (q : UInt32) :
    Tame (r.quarter q) := by
  obtain same | ⟨bytes, moved⟩ := r.quarter_moved q
  · rw [same]
    exact tame
  · rw [moved]
    exact tame_moved tame file _ _

theorem tame_quarter {r : Register} (tame : Tame r) (q : Nat) : Tame (Emission.quarter r q) := by
  unfold Emission.quarter
  split
  · exact tame
  · rename_i moves
    have file : r.file = .grf := by
      by_contra other
      exact moves (.inr (.inl other))
    exact tame_registerQuarter tame file _

theorem tame_unpacked {r : Register} (file : r.file = .grf) (direct : r.indirect = none) (part : UInt32) :
    Tame (r.unpackedDwords part) :=
  tame_direct (.inl file) direct (show (verticalCode 16).toNat < 16 by decide) (show (widthCode 8).toNat < 8 by decide)
    (show (horizontalCode 2).toNat < 4 by decide)

section
variable {a : Allocation} {width : Int}

/-- A placed operand is a direct one in general registers. -/
theorem placed_tame {x : RegisterOperand} {r : Register} (placed : Emission.placed a x width = .ok r) :
    Tame r ∧ r.file = .grf ∧ r.indirect = none := by
  simp only [Emission.placed, bind_ok, pure_ok] at placed
  obtain ⟨offset, -, rfl⟩ := placed
  split
  · exact ⟨tame_modified (tame_vec _ _ _ _ _ _) _ _, rfl, rfl⟩
  · exact ⟨tame_modified (tame_vec _ _ _ _ _ _) _ _, rfl, rfl⟩

theorem operand_tame {o : Operand} {r : Register} (made : Emission.operand a width o = .ok r) : Tame r := by
  cases o with
  | absent t =>
    cases made
    exact tame_null
  | register x => exact (placed_tame made).1
  | immediate t bits negate absolute =>
    simp only [Emission.operand, Emission.immediate] at made
    cases t <;> first | cases made; exact tame_imm _ _ | cases made

theorem destination_tame {o : Operand} {t : Element} {r : Register}
    (made : Emission.destination a width t o = .ok r) : Tame r := by
  cases o with
  | absent t' =>
    cases made
    exact tame_retype tame_null _
  | register x => exact (placed_tame made).1
  | immediate t' bits negate absolute =>
    exact operand_tame (show Emission.operand a width (.immediate t' bits negate absolute) = .ok r from made)

/-- Operands that are placed one after the other. -/
theorem operands_tame {os : List Operand} {rs : List Register} (made : os.mapM (Emission.operand a width) = .ok rs) :
    ∀ r ∈ rs, Tame r := by
  intro r member
  obtain ⟨n, small, rfl⟩ := List.getElem_of_mem member
  obtain ⟨length, each⟩ := List.forall₂_iff_get.mp (mapM_forall made)
  exact operand_tame (each n (length ▸ small) small)

end

theorem getD_tame {rs : List Register} (tame : ∀ r ∈ rs, Tame r) (n : Nat) : Tame (rs.getD n default) := by
  rw [List.getD_eq_getElem?_getD]
  cases here : rs[n]? with
  | none => exact tame_default
  | some r => exact tame r (List.mem_of_getElem? here)

end GpuCodegen.Footprints
