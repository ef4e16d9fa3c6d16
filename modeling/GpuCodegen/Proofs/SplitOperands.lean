import GpuCodegen.Proofs.LaneHalves
import GpuCodegen.Proofs.OperandPlaces

/-! The operands of the halves of an instruction. A vector moves on by eight elements, as part of a kernel's
operand or as a register number in a word, and a scalar stays. -/

namespace GpuCodegen.SplitLanes
open Native WordRoundTrip Footprints

/-! ## Sources -/

/-- A region that runs through its elements in order. -/
def IsRows (region : Region) : Prop := ∃ n : Int, (n = 4 ∨ n = 8 ∨ n = 16) ∧ region = .ofCounts n n 1

theorem IsRows.element {region : Region} (rows : IsRows region) {lane : Nat} (inside : lane < 16) :
    region.element lane = lane := by
  obtain ⟨n, rfl | rfl | rfl, rfl⟩ := rows
  · revert lane
    decide
  · exact Lanes.element_rows lane
  · revert lane
    decide

theorem IsRows.horizontal {region : Region} (rows : IsRows region) : region.horizontal = 1 := by
  obtain ⟨n, -, rfl⟩ := rows
  rfl

theorem IsRows.vertical {region : Region} (rows : IsRows region) : region.vertical ≠ 0 := by
  obtain ⟨n, rfl | rfl | rfl, rfl⟩ := rows <;> decide

/-- An operand whose elements start at a byte and lie `step` bytes apart, one for each lane: side by side, or the
same one for all. -/
structure Row (r : Register) (first step : Nat) : Prop where
  place : At r first
  region : IsRows r.region ∧ step = r.type.size ∨ r.region = .scalar ∧ step = 0

/-- The value of an element with the modifiers of its operand applied. -/
def fetch (m : Machine) (t : DataType) (negate absolute : Bool) (address : Nat) : UInt64 :=
  let v := t.extend (m.registers.load address t.size)
  let v := if absolute && decide (v.toInt64 < 0) then -v else v
  if negate then -v else v

theorem fetch_congr {m m' : Machine} {t : DataType} {negate absolute : Bool} {address : Nat}
    (same : ∀ b, address ≤ b → b < address + t.size → m'.registers b = m.registers b) :
    fetch m' t negate absolute address = fetch m t negate absolute address := by
  unfold fetch
  rw [Memory.load_congr same]

theorem source_fetch (m : Machine) {x : Register} (file : x.file ≠ .imm) (direct : x.indirect = none) (lane : Nat) :
    m.source x lane =
      fetch m x.type x.negate x.absolute (x.byteOffset.toNat + x.region.element lane * x.type.size) := by
  simp [Machine.source, Machine.element, file, Machine.sourceAddress, direct, fetch]

/-- A decoded operand reads what an operand before encoding names. -/
def Follows (x r : Register) : Prop :=
  ∀ first step, Row r first step → ∀ (m : Machine) (lane : Nat), lane < 16 →
    m.source x lane = fetch m r.type r.negate r.absolute (first + lane * step)

theorem Row.element {r : Register} {first step lane : Nat} (row : Row r first step) (inside : lane < 16) :
    r.region.element lane * r.type.size = lane * step := by
  rcases row.region with ⟨rows, rfl⟩ | ⟨scalar, rfl⟩
  · rw [rows.element inside]
  · rw [scalar]
    simp [Region.element, Region.scalar, strideElems]

/-- Sources whose region is encoded as it is. -/
theorem follows_direct {s : State} {r : Register} (kept : Generation.sourceRegion s r = r.region) :
    Follows (readSource s r) r := by
  intro first step row m lane inside
  have file := row.place.file
  have direct := row.place.direct
  have read : readSource s r = { r with immediate := 0 } := by
    simp [readSource, file, direct, kept]
  rw [read, source_fetch m (x := { r with immediate := 0 }) (by simp [file]) direct]
  change fetch m r.type r.negate r.absolute (r.byteOffset.toNat + r.region.element lane * r.type.size) = _
  rw [row.place.byteOffset, row.element inside]

theorem follows_readSource {s : State} (wide : s.execWidth ≠ 1) (r : Register) : Follows (readSource s r) r :=
  follows_direct (by simp [Generation.sourceRegion, wide])

theorem follows_readTripleSource (r : Register) : Follows (readTripleSource r.type r) r := by
  intro first step row m lane inside
  have sum : (r.number * grfSize + r.sub).toNat = first := row.place.byteOffset
  rcases row.region with ⟨rows, rfl⟩ | ⟨scalar, rfl⟩
  · rw [readTripleSource, if_neg rows.vertical, source_fetch m (by simp [Register.vec8, Register.vec]) rfl]
    change fetch m r.type r.negate r.absolute
      ((r.number * grfSize + r.sub).toNat + (Region.ofCounts 8 8 1).element lane * r.type.size) = _
    rw [sum, Lanes.element_rows]
  · have zero : r.region.vertical = 0 := by rw [scalar]; rfl
    rw [readTripleSource, if_pos zero, source_fetch m (by simp [Register.vec8, Register.vec, Register.toScalar]) rfl]
    change fetch m r.type r.negate r.absolute
      ((r.number * grfSize + r.sub).toNat + Region.scalar.element lane * r.type.size) = _
    rw [sum]
    simp [Region.element, Region.scalar, strideElems]

theorem readSource_type (s : State) (r : Register) : (readSource s r).type = r.type := by
  unfold readSource
  split <;> rfl

theorem readTripleSource_type (type : DataType) (r : Register) : (readTripleSource type r).type = type := by
  unfold readTripleSource
  split <;> rfl

/-- An operand and the same for the upper eight lanes. -/
structure Advances (r r' : Register) (first step : Nat) : Prop where
  lower : Row r first step
  upper : Row r' (first + 8 * step) step
  type : r'.type = r.type
  negate : r'.negate = r.negate
  absolute : r'.absolute = r.absolute
  region : r'.region = r.region

theorem Row.quarter {r : Register} {first step : Nat} (row : Row r first step) (small : first + 8 * step < 4294967296) :
    Advances r (Emission.quarter r 1) first step := by
  have file := row.place.file
  have direct := row.place.direct
  have moves : Emission.quarter r 1 = r.quarter 1 := by
    unfold Emission.quarter
    rw [if_neg (by simp [file, direct])]
    rfl
  rw [moves]
  rcases row.region with ⟨rows, rfl⟩ | ⟨scalar, rfl⟩
  · obtain ⟨bytes, moved, shifted⟩ := row.place.quarter rows.horizontal (q := 1) small
    change r.quarter 1 = _ at moved
    change At (r.quarter 1) _ at shifted
    rw [moved] at shifted ⊢
    exact ⟨row, ⟨shifted, .inl ⟨rows, rfl⟩⟩, rfl, rfl, rfl, rfl⟩
  · have single : r.isScalar = true := by simp [Register.isScalar, file, direct, scalar]
    rw [Register.quarter_of_scalar single]
    exact ⟨row, by simpa using row, rfl, rfl, rfl, rfl⟩

/-- In a word, eight dwords on is the next register. -/
theorem Row.upper {r : Register} {first step : Nat} (row : Row r first step) (size : r.type.size = 4)
    (small : first + 8 * step < 4294967296) : Advances r (upperOperand r) first step := by
  have sum := row.place.sum
  rcases row.region with ⟨rows, rfl⟩ | ⟨scalar, rfl⟩
  · have next : (r.number + 1).toNat = r.number.toNat + 1 := by
      rw [UInt32.toNat_add]
      change (r.number.toNat + 1) % 4294967296 = _
      omega
    rw [upperOperand, if_neg rows.vertical]
    refine ⟨row, ⟨⟨row.place.file, row.place.direct, ?_, small⟩, .inl ⟨rows, rfl⟩⟩, rfl, rfl, rfl, rfl⟩
    change (r.number + 1).toNat * 32 + r.sub.toNat = first + 8 * r.type.size
    omega
  · have zero : r.region.vertical = 0 := by rw [scalar]; rfl
    rw [upperOperand, if_pos zero]
    exact ⟨row, by simpa using row, rfl, rfl, rfl, rfl⟩

/-- A source that may change in a set of bytes without its upper lanes noticing. -/
inductive Feed (low : Nat → Prop) (r : Register) : Prop where
  | immediate (file : r.file = .imm) (plain : r.type ≠ .v)
  | register (first step : Nat) (row : Row r first step) (small : first + 8 * step < 4294967296)
      (apart : ∀ lane < 8, ∀ b, first + (8 + lane) * step ≤ b → b < first + (8 + lane) * step + r.type.size → ¬ low b)

/-- The decoded forms of a source in an instruction and in its halves. -/
structure Feeds (low : Nat → Prop) (x x₀ x₁ : Register) : Prop where
  type : x₀.type = x.type ∧ x₁.type = x.type
  lower : ∀ (m : Machine) (lane : Nat), lane < 8 → m.source x₀ lane = m.source x lane
  upper : ∀ (m : Machine) (lane : Nat), lane < 8 → m.source x₁ lane = m.source x (8 + lane)
  kept : ∀ m m' : Machine, (∀ b, ¬ low b → m'.registers b = m.registers b) → ∀ lane < 8,
    m'.source x (8 + lane) = m.source x (8 + lane)

theorem feeds_register {low : Nat → Prop} {r r' x x₀ x₁ : Register} {first step : Nat}
    (advances : Advances r r' first step)
    (apart : ∀ lane < 8, ∀ b, first + (8 + lane) * step ≤ b → b < first + (8 + lane) * step + r.type.size → ¬ low b)
    (type : x₀.type = x.type ∧ x₁.type = x.type) (whole : Follows x r) (lower : Follows x₀ r)
    (upper : Follows x₁ r') : Feeds low x x₀ x₁ := by
  have row := advances.lower
  refine ⟨type, fun m lane inside => ?_, fun m lane inside => ?_, fun m m' same lane inside => ?_⟩
  · rw [lower first step row m lane (by omega), whole first step row m lane (by omega)]
  · rw [upper _ step advances.upper m lane (by omega), whole first step row m (8 + lane) (by omega), advances.type,
      advances.negate, advances.absolute, Nat.add_assoc, ← Nat.add_mul]
  · rw [whole first step row m' (8 + lane) (by omega), whole first step row m (8 + lane) (by omega)]
    exact fetch_congr fun b above below => same b (apart lane inside b above below)

/-- A source of a three-source word and the same for the upper lanes. -/
theorem feeds_triple {low : Nat → Prop} {r r' : Register} {first step : Nat} (advances : Advances r r' first step)
    (apart : ∀ lane < 8, ∀ b, first + (8 + lane) * step ≤ b → b < first + (8 + lane) * step + r.type.size → ¬ low b) :
    Feeds low (readTripleSource r.type r) (readTripleSource r.type r) (readTripleSource r.type r') := by
  have follows := follows_readTripleSource r'
  rw [advances.type] at follows
  exact feeds_register advances apart (by simp only [readTripleSource_type, and_self]) (follows_readTripleSource r)
    (follows_readTripleSource r) follows

section
variable {low : Nat → Prop} {r : Register}

theorem quarter_zero (r : Register) : Emission.quarter r 0 = r := if_pos (.inl rfl)

/-- A source of a word with up to two sources. -/
theorem Feed.plain (feed : Feed low r) {s s₀ s₁ : State} (whole : s.execWidth = 16) (lower : s₀.execWidth = 8)
    (upper : s₁.execWidth = 8) :
    Feeds low (readSource s r) (readSource s₀ (Emission.quarter r 0)) (readSource s₁ (Emission.quarter r 1)) := by
  rw [quarter_zero]
  cases feed with
  | immediate file plain =>
    have stays : Emission.quarter r 1 = r := by
      unfold Emission.quarter
      rw [if_pos (.inr (.inl (by rw [file]; decide)))]
    rw [stays]
    have same (s : State) (m : Machine) (lane : Nat) : m.source (readSource s r) lane =
        r.type.extend (if r.type.is64 then r.immediate else r.immediate.toUInt32.toUInt64) := by
      simp [readSource, file, Register.imm, Machine.source, Machine.element, plain]
    refine ⟨by simp only [readSource_type, and_self], fun m lane _ => ?_, fun m lane _ => ?_, fun m m' _ lane _ => ?_⟩
    all_goals rw [same, same]
  | register first step row small apart =>
    have advances := row.quarter small
    have type : (readSource s₀ r).type = (readSource s r).type ∧
        (readSource s₁ (Emission.quarter r 1)).type = (readSource s r).type := by
      simp only [readSource_type, advances.type, and_self]
    exact feeds_register advances apart type (follows_readSource (by rw [whole]; decide) r)
      (follows_readSource (by rw [lower]; decide) r) (follows_readSource (by rw [upper]; decide) _)

/-- A source of a three-source word, as part of a kernel's operand. -/
theorem Feed.triple (feed : Feed low r) (file : r.file = .grf) :
    Feeds low (readTripleSource r.type r) (readTripleSource r.type (Emission.quarter r 0))
      (readTripleSource r.type (Emission.quarter r 1)) := by
  rw [quarter_zero]
  cases feed with
  | immediate immediate =>
    rw [file] at immediate
    cases immediate
  | register first step row small apart => exact feeds_triple (row.quarter small) apart

/-- A source of a three-source word, as a register number of the word. -/
theorem Feed.upper (feed : Feed low r) (file : r.file = .grf) (size : r.type.size = 4) :
    Feeds low (readTripleSource r.type r) (readTripleSource r.type r) (readTripleSource r.type (upperOperand r)) := by
  cases feed with
  | immediate immediate =>
    rw [file] at immediate
    cases immediate
  | register first step row small apart => exact feeds_triple (row.upper size small) apart

end

/-! ## Destinations -/

/-- A destination whose lower lanes lie in a set of bytes: a vector, or one whose results are dropped. -/
inductive Target (low : Nat → Prop) (r : Register) : Prop where
  | register (first : Nat) (row : Row r first r.type.size) (vector : IsRows r.region)
      (small : first + 8 * r.type.size < 4294967296) (holds : ∀ b, first ≤ b → b < first + 8 * r.type.size → low b)
  | dropped (file : r.file ≠ .grf) (other : r.file = .arf → r.number ≠ Register.addressNumber)
      (direct : r.indirect = none)

/-- The decoded forms of a destination in an instruction and in its halves. -/
structure Targets (low : Nat → Prop) (x x₀ x₁ : Register) : Prop where
  type : x₀.type = x.type ∧ x₁.type = x.type
  puts : PutsHalves x x₀ x₁
  holds : ∀ b, Lanes x₀ (strideElems x₀.region.horizontal).toNat 8 b → low b

/-- A decoded destination whose elements lie side by side. -/
structure Aimed (x : Register) (t : DataType) (first : Nat) : Prop where
  file : x.file = .grf
  direct : x.indirect = none
  type : x.type = t
  place : x.byteOffset.toNat = first
  stride : (strideElems x.region.horizontal).toNat = 1

theorem Aimed.put {x : Register} {t : DataType} {first : Nat} (aimed : Aimed x t first) (m : Machine) (lane : Nat)
    (value : UInt64) :
    m.put x lane value = { m with registers := m.registers.store (first + lane * t.size) t.size value } := by
  simp only [Machine.put, aimed.file, if_true, aimed.place, aimed.stride, aimed.type, Nat.mul_one]

theorem targets_register {low : Nat → Prop} {x x₀ x₁ : Register} {t : DataType} {first : Nat} (whole : Aimed x t first)
    (lower : Aimed x₀ t first) (upper : Aimed x₁ t (first + 8 * t.size))
    (holds : ∀ b, first ≤ b → b < first + 8 * t.size → low b) : Targets low x x₀ x₁ := by
  refine ⟨by simp only [lower.type, upper.type, whole.type, and_self], fun m lane value _ => ⟨?_, ?_⟩,
    fun b written => ?_⟩
  · rw [lower.put, whole.put]
  · rw [upper.put, whole.put, Nat.add_mul, Nat.add_assoc]
  · obtain ⟨lane, inside, above, below⟩ := written.2 lower.direct
    rw [lower.place, lower.stride, lower.type, Nat.mul_one] at above below
    have room : (lane + 1) * t.size ≤ 8 * t.size := Nat.mul_le_mul_right _ inside
    rw [Nat.succ_mul] at room
    exact holds b (by omega) (by omega)

theorem aimed_readDestination {r : Register} {first : Nat} (row : Row r first r.type.size) (vector : IsRows r.region) :
    Aimed (readDestination r) r.type first := by
  have direct := row.place.direct
  refine ⟨row.place.file, direct, rfl, ?_, ?_⟩
  · rw [← row.place.byteOffset]
    simp [readDestination, Register.byteOffset, direct]
  · change (strideElems (Generation.destinationStride r)).toNat = 1
    rw [destinationStride_row vector.horizontal]
    rfl

theorem aimed_vec8 {r : Register} {first : Nat} (row : Row r first r.type.size) :
    Aimed (.vec8 r.number r.sub r.type) r.type first :=
  ⟨rfl, rfl, rfl, row.place.byteOffset, rfl⟩

section
variable {low : Nat → Prop} {r : Register}

theorem Target.plain (target : Target low r) : Targets low (readDestination r)
    (readDestination (Emission.quarter r 0)) (readDestination (Emission.quarter r 1)) := by
  rw [quarter_zero]
  cases target with
  | register first row vector small holds =>
    have advances := row.quarter small
    have aimed := advances.upper
    rw [← advances.type] at aimed
    have rows : IsRows (Emission.quarter r 1).region := by
      rw [advances.region]
      exact vector
    have upper := aimed_readDestination aimed rows
    rw [advances.type] at upper
    exact targets_register (aimed_readDestination row vector) (aimed_readDestination row vector) upper holds
  | dropped file other direct =>
    have stays : Emission.quarter r 1 = r := by
      unfold Emission.quarter
      rw [if_pos (.inr (.inl file))]
    have none (m : Machine) (lane : Nat) (value : UInt64) : m.put (readDestination r) lane value = m := by
      have number : ¬ (r.file = .arf ∧ (readDestination r).number = Register.addressNumber) := by
        rintro ⟨arf, number⟩
        simp only [readDestination, direct, Option.isSome_none, Bool.false_eq_true, if_false] at number
        exact other arf number
      have file' : (readDestination r).file = r.file := rfl
      unfold Machine.put
      rw [file', if_neg file, if_neg number]
    rw [stays]
    refine ⟨⟨rfl, rfl⟩, fun m lane value _ => ⟨rfl, by rw [none, none]⟩, fun b written => absurd written.1 file⟩

end

end GpuCodegen.SplitLanes
