import GpuCodegen.Proofs.ElementRows
import GpuCodegen.Proofs.EncodableWords
import GpuCodegen.Proofs.SplitOperands

/-! Operands without modifiers: vectors whose elements lie side by side in the register file, and single dwords. Words
can name them, and what they read and write are the places they are at. -/

namespace GpuCodegen.Vectors
open Native Generation WordRoundTrip Outcome Lanes
open Footprints (At Tame tame_direct tame_imm)
open SplitLanes (IsRows Row fetch follows_direct aimed_readDestination)

/-- A vector operand without modifiers, whose elements lie side by side in the register file. -/
structure IsVector (r : Register) (first bytes : Nat) : Prop where
  place : At r first
  sub : r.sub.toNat < 32
  rows : IsRows r.region
  plain : r.negate = false ∧ r.absolute = false
  inside : first + bytes ≤ 4096

/-- An operand without modifiers for one dword of the register file. -/
structure IsDword (r : Register) (first : Nat) : Prop where
  place : At r first
  sub : r.sub.toNat < 32
  plain : r.negate = false ∧ r.absolute = false
  inside : first + 4 ≤ 4096

section
variable {g : Generation} {s : State} {r : Register} {first step lanes : Nat}

theorem tame_rows (rows : IsRows r.region) (file : r.file = .grf) (direct : r.indirect = none) : Tame r := by
  obtain ⟨n, rfl | rfl | rfl, region⟩ := rows <;>
    exact tame_direct (.inl file) direct (by rw [region]; decide) (by rw [region]; decide) (by rw [region]; decide)

theorem tame_scalar (region : r.region = .scalar) (file : r.file = .grf) (direct : r.indirect = none) : Tame r :=
  tame_direct (.inl file) direct (by rw [region]; decide) (by rw [region]; decide) (by rw [region]; decide)

theorem nameable_at (place : At r first) (inside : first < 4096) (sub : r.sub.toNat < 32) (tame : Tame r)
    (coded : ∃ code, g.registerTypeCode r.type = .ok code) : Nameable g r := by
  have sum := place.sum
  exact ⟨place.file, place.direct, tame, by omega, sub, coded⟩

/-- Unsigned dwords of a row, as a source. -/
theorem dwords_read (row : Row r first step) (type : r.type = .ud) (plain : r.negate = false ∧ r.absolute = false)
    (tame : Tame r) (kept : sourceRegion s r = r.region) (few : lanes ≤ 16) :
    Reads s r lanes fun m lane => m.registers.load (first + lane * step) 4 := by
  refine ⟨tame, fun m lane inside => ?_⟩
  rw [follows_direct kept first step row m lane (by omega), fetch, type, plain.1, plain.2]
  exact m.registers.toUInt32_load _

/-- The low words of dwords side by side, as a source. -/
theorem words_read (place : At r first) (plain : r.negate = false ∧ r.absolute = false) (few : lanes ≤ 16) :
    Reads s r.unpackedWords lanes fun m lane => DataType.extend .uw (m.registers.load (first + lane * 4) 2) := by
  have kept : sourceRegion s r.unpackedWords = r.unpackedWords.region := by
    have code : (Region.ofCounts 16 8 2).width ≠ 0 := by decide
    simp [sourceRegion, Register.unpackedWords, Register.unpacked, code]
  have read : readSource s r.unpackedWords = { r.unpackedWords with immediate := 0 } := by
    have file : r.unpackedWords.file = .grf := place.file
    have direct : r.unpackedWords.indirect = none := place.direct
    simp [readSource, file, direct, kept]
  have element : ∀ lane < 16, (Region.ofCounts 16 8 2).element lane * 2 = lane * 4 := by decide
  refine ⟨tame_direct (.inl place.file) place.direct ?_ ?_ ?_, fun m lane inside => ?_⟩
  · exact show (Region.ofCounts 16 8 2).vertical.toNat < 16 by decide
  · exact show (Region.ofCounts 16 8 2).width.toNat < 8 by decide
  · exact show (Region.ofCounts 16 8 2).horizontal.toNat < 4 by decide
  rw [read, SplitLanes.source_fetch m (x := { r.unpackedWords with immediate := 0 })
    (by change r.file ≠ .imm; rw [place.file]; rintro ⟨⟩) place.direct]
  change fetch m .uw r.negate r.absolute (r.byteOffset.toNat + (Region.ofCounts 16 8 2).element lane * 2) = _
  rw [place.byteOffset, element lane (by omega), fetch, plain.1, plain.2]
  rfl

theorem immediate_reads (s : State) (v : UInt32) (lanes : Nat) : Reads s (.immUD v) lanes fun _ _ => v.toUInt64 := by
  refine ⟨tame_imm _ _, fun m lane _ => ?_⟩
  change DataType.extend .ud v.toUInt64.toUInt32.toUInt64 = v.toUInt64
  change v.toUInt64.toUInt32.toUInt64.toUInt32.toUInt64 = v.toUInt64
  rw [UInt32.toUInt32_toUInt64, UInt32.toUInt32_toUInt64]

theorem row_target (row : Row r first r.type.size) (rows : IsRows r.region) (short : r.type.size ≤ 8) (lanes : Nat) :
    Target r first r.type.size lanes :=
  ⟨tame_rows rows row.place.file row.place.direct, short, fun lane _ m value =>
    (aimed_readDestination row rows).put m lane value⟩

theorem lone_target (place : At r first) (tame : Tame r) (short : r.type.size ≤ 8) :
    Target r first r.type.size 1 := by
  refine ⟨tame, short, fun lane inside m value => ?_⟩
  obtain rfl : lane = 0 := by omega
  have file : (readDestination r).file = .grf := place.file
  have start : (readDestination r).byteOffset.toNat = first := by
    rw [← place.byteOffset]
    simp [readDestination, Register.byteOffset, place.direct]
  unfold Machine.put
  rw [if_pos file, start, Nat.zero_mul, Nat.zero_mul, Nat.zero_mul]
  rfl

end

/-! ## Vectors -/

section
variable {g : Generation} {r : Register} {first bytes : Nat}

/-- The elements of a vector. -/
theorem IsVector.row (vector : IsVector r first bytes) (t : DataType) :
    Row (r.retype t) first t.size :=
  ⟨vector.place.retype t, .inl ⟨vector.rows, rfl⟩⟩

theorem IsVector.kept (vector : IsVector r first bytes) (s : State) (t : DataType) :
    sourceRegion s (r.retype t) = (r.retype t).region := by
  have width : r.region.width ≠ 0 := by
    obtain ⟨n, rfl | rfl | rfl, region⟩ := vector.rows <;> rw [region] <;> decide
  simp [sourceRegion, Register.retype, width]

theorem IsVector.reads (vector : IsVector r first bytes) (s : State) {lanes : Nat}
    (few : lanes ≤ 16) : Reads s (r.retype .ud) lanes fun m lane => m.registers.load (first + lane * 4) 4 :=
  dwords_read (vector.row .ud) rfl vector.plain (tame_rows vector.rows vector.place.file vector.place.direct)
    (vector.kept s .ud) few

theorem IsVector.nameable (vector : IsVector r first bytes) (some_ : 0 < bytes)
    {t : DataType} (coded : ∃ code, g.registerTypeCode t = .ok code) : Nameable g (r.retype t) := by
  have inside := vector.inside
  exact nameable_at (vector.place.retype t) (by omega) vector.sub
    (tame_rows (r := r.retype t) vector.rows vector.place.file vector.place.direct) coded

theorem IsVector.target (vector : IsVector r first bytes) (t : DataType)
    (short : t.size ≤ 8) (lanes : Nat) : Target (r.retype t) first t.size lanes :=
  row_target (r := r.retype t) (vector.row t) vector.rows short lanes

/-- The vector that starts a whole register later. -/
theorem IsVector.next (vector : IsVector r first (32 + bytes)) :
    IsVector (r.offset 1 0) (first + 32) bytes := by
  have inside := vector.inside
  have one : (1 : UInt32).toNat = 1 := rfl
  have zero : (0 : UInt32).toNat = 0 := rfl
  have place := vector.place.offset 1 0 (by rw [one, zero]; omega)
  rw [one, zero] at place
  exact ⟨place, r.offset_sub_lt 1 0, vector.rows, vector.plain, by omega⟩

/-- A quarter of a vector. -/
theorem IsVector.quarter {q : Nat} {t : DataType}
    (vector : IsVector r first (8 * q * t.size + bytes)) :
    IsVector ((r.retype t).quarter (UInt32.ofNat q)) (first + 8 * q * t.size) bytes ∧
      (r.retype t).quarter (UInt32.ofNat q) = ((r.retype t).quarter (UInt32.ofNat q)).retype t := by
  have inside := vector.inside
  obtain ⟨start, moved, place⟩ := (vector.place.retype t).quarter vector.rows.horizontal (q := q) (by
    change first + 8 * q * t.size < 4294967296
    omega)
  change At _ (first + 8 * q * t.size) at place
  rw [moved] at place ⊢
  exact ⟨⟨place, Register.offset_sub_lt _ 0 start, vector.rows, vector.plain, by omega⟩, rfl⟩

/-! ## Single dwords -/

theorem IsDword.row (scalar : IsDword r first) :
    Row (r.toScalar.retype .ud) first 0 :=
  ⟨⟨scalar.place.file, scalar.place.direct, scalar.place.sum, scalar.place.small⟩, .inr ⟨rfl, rfl⟩⟩

theorem IsDword.tame (scalar : IsDword r first) : Tame (r.toScalar.retype .ud) :=
  tame_scalar rfl scalar.place.file scalar.place.direct

theorem IsDword.reads (scalar : IsDword r first) (s : State) {lanes : Nat}
    (few : lanes ≤ 16) : Reads s (r.toScalar.retype .ud) lanes fun m _ => m.registers.load first 4 := by
  have kept : sourceRegion s (r.toScalar.retype .ud) = (r.toScalar.retype .ud).region := by
    unfold sourceRegion
    split <;> rfl
  exact dwords_read scalar.row rfl scalar.plain scalar.tame kept few

theorem IsDword.nameable (scalar : IsDword r first) (g : Generation) :
    Nameable g (r.toScalar.retype .ud) := by
  have inside := scalar.inside
  exact nameable_at scalar.row.place (by omega) scalar.sub scalar.tame (registerTypeCode_exists g (.inl rfl))

theorem IsDword.target (scalar : IsDword r first) :
    Target (r.toScalar.retype .ud) first 4 1 :=
  lone_target scalar.row.place scalar.tame (show 4 ≤ 8 by decide)

end

end GpuCodegen.Vectors
