import GpuCodegen.Proofs.OperandPlaces
import GpuCodegen.Proofs.QwordInstructions

/-! What emission writes. The commands of an instruction reach its destination and the registers it works in, as
far as its operands describe them, the scratch header and nothing else. -/

namespace GpuCodegen.Footprints
open Native WordRoundTrip Generation Outcome

/-- A command that fits a word and reaches only bytes of a set. -/
structure Stays (inside : Nat → Prop) (x : Issue) : Prop where
  state : StateFits x.state
  encodable : Encodable x.command
  reached : ∀ b, Reached x b → inside b

/-- Commands under one state. -/
theorem stays_under {inside : Nat → Prop} {s : State} {commands : List Command} (state : StateFits s)
    (each : ∀ c ∈ commands, Encodable c ∧ ∀ b, Reached ⟨s, c⟩ b → inside b) :
    ∀ x ∈ Sequence.under s commands, Stays inside x := by
  intro x member
  obtain ⟨c, listed, rfl⟩ := List.mem_map.mp member
  exact ⟨state, (each c listed).1, (each c listed).2⟩

theorem unmasked_fits {s : State} (state : StateFits s) (width : Int) : StateFits (s.unmasked width) :=
  ⟨state.quarter, show (0 : UInt32).toNat < 16 by decide⟩

/-! ## Arithmetic -/

theorem aluCommand_encodable {j : Instruction} {dst : Register} {src : List Register} (target : Tame dst)
    (sources : ∀ r ∈ src, Tame r) : Encodable (Emission.aluCommand j dst src) := by
  have s0 := getD_tame sources 0
  have s1 := getD_tame sources 1
  have s2 := getD_tame sources 2
  unfold Emission.aluCommand
  dsimp only
  split <;> refine ⟨?_, trivial⟩ <;>
    simp only [operands, List.forall_mem_cons, List.not_mem_nil, false_implies, implies_true, and_true] <;> tauto

theorem aluCommand_reached {s : State} {j : Instruction} {dst : Register} {src : List Register} {b : Nat}
    (reached : Reached ⟨s, Emission.aluCommand j dst src⟩ b) :
    Lanes dst (strideElems (destinationStride dst)).toNat s.execWidth.toNat b ∨
      Stretch dst (s.execWidth.toNat * dst.type.size) b := by
  unfold Emission.aluCommand at reached
  dsimp only at reached
  split at reached <;> first | exact .inl reached | exact .inr reached | exact reached.elim

/-- The commands of an instruction that runs in quarters: each on lanes the instruction has. -/
theorem mem_quarters {s : State} {width : Int} {f : State → Nat → List Issue} {x : Issue} (state : StateFits s)
    (lanes : s.execWidth = width) (positive : 0 ≤ width) (few : width ≤ 16) (member : x ∈ Emission.quarters s width f) :
    ∃ q t n, x ∈ f t q ∧ StateFits t ∧ t.execWidth = (n : Nat) ∧ ((8 * q + n : Nat) : Int) ≤ width ∧
      (q = 0 ∨ 8 < width) := by
  unfold Emission.quarters at member
  split at member
  · exact ⟨0, s, width.toNat, member, state, by omega, by omega, .inl rfl⟩
  · obtain ⟨q, small, inside⟩ := List.mem_flatMap.mp member
    rw [List.mem_range] at small
    have whole : width.tdiv 8 = width / 8 := Int.tdiv_eq_ediv_of_nonneg positive
    refine ⟨q, _, 8, inside, ⟨?_, state.predicate⟩, rfl, by omega, .inr (by omega)⟩
    change (UInt32.ofNat q).toNat < 4
    rw [UInt32.toNat_ofNat']
    omega

section
variable {a : Allocation} {inside : Nat → Prop} {width : Int} {x : RegisterOperand} {offset : UInt32} {s : State}

/-- A quarter of the lanes of a destination. -/
theorem Held.quarter_inside (held : Held a inside width x offset) (lone : x.scalar = true → width = 1) {r : Register}
    (placed : Emission.placed a x width = .ok r) {q n b : Nat} (fits : ((8 * q + n : Nat) : Int) ≤ width)
    (whole : q = 0 ∨ 8 < width)
    (written : Lanes (Emission.quarter r q) (strideElems (destinationStride (Emission.quarter r q))).toNat n b ∨
      Stretch (Emission.quarter r q) (n * (Emission.quarter r q).type.size) b) : inside b := by
  obtain ⟨place, type, row⟩ := held.quarter_at lone placed fits whole
  have range : base x width offset + 8 * q * x.type.size ≤ b ∧
      b < base x width offset + 8 * q * x.type.size + n * x.type.size := by
    have size : (Emission.quarter r q).type.size = x.type.size := by rw [type, dataType_size]
    rcases written with lanes | stretch
    · have range := place.lanes (row.imp_left destinationStride_row) lanes
      rwa [size] at range
    · have range := place.stretch stretch
      rwa [size] at range
  refine held.from_lanes lone fits (by omega) ?_
  rw [Nat.add_mul]
  omega

theorem alu_stays {j : Instruction} {issues : List Issue} (state : StateFits s) (lanes : s.execWidth = width)
    (positive : 0 ≤ width) (few : width ≤ 16) (target : j.dst = .register x) (holds : Holds a inside width x)
    (lone : x.scalar = true → width = 1) (emitted : Emission.alu a s j width = .ok issues) :
    ∀ i ∈ issues, Stays inside i := by
  simp only [Emission.alu, Emission.checked, bind_ok, mapError_ok, target] at emitted
  obtain ⟨src, sources, dst, placed, emitted⟩ := emitted
  have tame := operands_tame sources
  change Emission.placed a x width = .ok dst at placed
  obtain ⟨offset, held⟩ := holds.held placed
  obtain ⟨fits, -, -⟩ := placed_tame placed
  split at emitted
  · rw [pure_ok] at emitted
    subst emitted
    intro i member
    obtain ⟨q, t, n, inside_, fitsT, wide, whole, start⟩ := mem_quarters state lanes positive few member
    obtain rfl := List.mem_singleton.mp inside_
    refine ⟨fitsT, aluCommand_encodable (tame_quarter fits q) ?_, fun b reached => ?_⟩
    · intro r listed
      obtain ⟨r', source, rfl⟩ := List.mem_map.mp listed
      exact tame_quarter (tame r' source) q
    · have written := aluCommand_reached reached
      rw [wide, Int.toNat_natCast] at written
      exact held.quarter_inside lone placed whole start written
  · rw [pure_ok] at emitted
    subst emitted
    intro i member
    obtain rfl := List.mem_singleton.mp member
    refine ⟨state, aluCommand_encodable fits tame, fun b reached => ?_⟩
    have written := aluCommand_reached reached
    rw [lanes] at written
    have same : Emission.quarter dst 0 = dst := if_pos (.inl rfl)
    rw [← same] at written
    exact held.quarter_inside lone placed (by omega) (.inl rfl) written

/-- All lanes of a destination. -/
theorem Held.lanes_inside (held : Held a inside width x offset) (lone : x.scalar = true → width = 1) {r : Register}
    (placed : Emission.placed a x width = .ok r) (positive : 0 ≤ width) {b : Nat}
    (written : Lanes r (strideElems (destinationStride r)).toNat width.toNat b) : inside b := by
  have same : Emission.quarter r 0 = r := if_pos (.inl rfl)
  rw [← same] at written
  exact held.quarter_inside lone placed (by omega) (.inl rfl) (.inl written)

/-! ## Indirect moves -/

theorem addr_tame {first : UInt32} (small : first.toNat < 16) (t : DataType) :
    Tame ((Register.addr1 first).retype t) := by
  refine tame_retype (tame_direct (.inr (.inr ⟨rfl, show (0x10 : UInt32).toNat < 256 by decide, ?_⟩)) rfl
    (show (0 : UInt8).toNat < 16 by decide) (show (0 : UInt8).toNat < 8 by decide)
    (show (0 : UInt8).toNat < 4 by decide)) t
  change (first * 2).toNat < 32
  rw [UInt32.toNat_mul]
  change first.toNat * 2 % 4294967296 < 32
  omega

/-- The move of an immediate to the address register. -/
theorem address_stays {first : UInt32} {t : DataType} {r : Register} (small : first.toNat < 16) (tame : Tame r) :
    Encodable (.mov ((Register.addr1 first).retype t) r) ∧
      ∀ b, Reached ⟨s, .mov ((Register.addr1 first).retype t) r⟩ b → inside b := by
  refine ⟨⟨?_, trivial⟩, fun b reached => absurd reached (lanes_architecture rfl _ _ b)⟩
  simp only [Command.mov, operands, List.forall_mem_cons, List.not_mem_nil, false_implies, implies_true, and_true]
  exact ⟨addr_tame small t, tame⟩

theorem addressPairs_stay (first : UInt32) (entries : List UInt16) (few : first.toNat + entries.length ≤ 16) :
    ∀ c ∈ Sequence.addressPairs first entries, Encodable c ∧ ∀ b, Reached ⟨s, c⟩ b → inside b := by
  induction first, entries using Sequence.addressPairs.induct with
  | case1 first a b rest ih =>
    simp only [List.length_cons] at few
    have next : (first + 2).toNat = first.toNat + 2 := by
      rw [UInt32.toNat_add]
      change (first.toNat + 2) % 4294967296 = _
      omega
    rw [Sequence.addressPairs, List.forall_mem_cons]
    exact ⟨address_stays (by omega) (tame_imm _ _), ih (by omega)⟩
  | case2 first entries short =>
    rw [Sequence.addressPairs.eq_2 _ _ short]
    simp

theorem addressQuads_stay (first : UInt32) (entries : List UInt16) (few : first.toNat + entries.length ≤ 16) :
    ∀ c ∈ Sequence.addressQuads first entries, Encodable c ∧ ∀ b, Reached ⟨s, c⟩ b → inside b := by
  induction first, entries using Sequence.addressQuads.induct with
  | case1 first a b c d rest ih =>
    simp only [List.length_cons] at few
    have next : (first + 4).toNat = first.toNat + 4 := by
      rw [UInt32.toNat_add]
      change (first.toNat + 4) % 4294967296 = _
      omega
    rw [Sequence.addressQuads, List.forall_mem_cons]
    exact ⟨address_stays (by omega) (tame_imm _ _), ih (by omega)⟩
  | case2 first entries short =>
    rw [Sequence.addressQuads.eq_2 _ _ short]
    simp

theorem setAddresses_stay {f : Flavor} {entries : List UInt16} {issues : List Issue} (state : StateFits s)
    (set_ : Sequence.setAddresses f s entries = .ok issues) : ∀ i ∈ issues, Stays inside i := by
  have count {u : Unit} (checked : Sequence.checkAddresses entries = .ok u) : entries.length ≤ 16 := by
    unfold Sequence.checkAddresses at checked
    split at checked
    · cases checked
    · rename_i fits
      unfold Sequence.addressEntries at fits
      omega
  unfold Sequence.setAddresses at set_
  split at set_
  · simp only [Sequence.setAddressQuads, bind_ok, pure_ok] at set_
    obtain ⟨u, checked, rfl⟩ := set_
    have few := count checked
    exact stays_under (unmasked_fits state 1) (addressQuads_stay 0 entries (by change 0 + _ ≤ 16; omega))
  · simp only [Sequence.setAddressPairs, bind_ok, pure_ok] at set_
    obtain ⟨u, checked, rfl⟩ := set_
    have few := count checked
    exact stays_under (unmasked_fits state 1) (addressPairs_stay 0 entries (by change 0 + _ ≤ 16; omega))

theorem gather_tame (t : DataType) (negate absolute : Bool) :
    Tame { Register.gather t 0 0 with negate := negate, absolute := absolute } := by
  refine tame_modified (tame_shape (.inl rfl) (fun address same => ?_) (show (15 : UInt8).toNat < 16 by decide)
    (show (0 : UInt8).toNat < 8 by decide) (show (0 : UInt8).toNat < 4 by decide)) negate absolute
  cases same
  rfl

theorem indirect_stays {f : Emission.Frame} {j : Instruction} {issues : List Issue} (allocation : f.allocation = a)
    (state : StateFits s) (lanes : s.execWidth = width) (positive : 0 ≤ width) (target : j.dst = .register x)
    (holds : Holds a inside width x) (lone : x.scalar = true → width = 1)
    (emitted : Emission.indirect f s j width = .ok issues) : ∀ i ∈ issues, Stays inside i := by
  simp only [Emission.indirect, Emission.checked, bind_ok, mapError_ok, target, allocation] at emitted
  obtain ⟨place, -, setup, prepared, emitted⟩ := emitted
  have named : Emission.operand a width (.register x) = Emission.placed a x width := rfl
  rw [named] at emitted
  split at emitted
  · cases emitted
  · rename_i dst placed
    obtain ⟨offset, held⟩ := holds.held placed
    rw [pure_ok] at emitted
    subst emitted
    rw [List.forall_mem_append, List.forall_mem_singleton]
    refine ⟨setAddresses_stay state prepared, state, ⟨?_, trivial⟩, fun b reached => ?_⟩
    · simp only [Command.mov, operands, List.forall_mem_cons, List.not_mem_nil, false_implies, implies_true, and_true]
      exact ⟨(placed_tame placed).1, gather_tame _ _ _⟩
    · change Lanes dst _ s.execWidth.toNat b at reached
      rw [lanes] at reached
      exact held.lanes_inside lone placed positive reached

/-! ## Messages -/

/-- Whole registers of a destination. -/
theorem Held.rows_inside (held : Held a inside width x offset) {r : Register}
    (placed : Emission.placed a x width = .ok r)
    (positive : 0 ≤ width) {n b : Nat} (some_ : 0 < n) (fits : 32 * n ≤ room x width) (written : Rows r n b) :
    inside b := by
  obtain ⟨place, sub, -, -⟩ := held.placed_at positive placed
  obtain ⟨low, high⟩ := place.rows sub written
  exact held.from_row positive some_ fits low high

/-- The registers that a dword for each lane takes. -/
def laneRows (width : Int) : Nat := if width = 16 then 2 else 1

theorem laneRegisters_rows (lanes : s.execWidth = width) : s.laneRegisters.toNat = laneRows width := by
  unfold State.laneRegisters State.isSimd16 laneRows
  rw [lanes]
  by_cases sixteen : width = 16
  · simp [sixteen]
  · simp [sixteen]

theorem laneRows_pos (width : Int) : 0 < laneRows width := by
  unfold laneRows
  split <;> decide

theorem atomic_stays {j : Instruction} {issues : List Issue} (state : StateFits s) (lanes : s.execWidth = width)
    (positive : 0 ≤ width) (target : j.dst = .register x) (holds : Holds a inside width x)
    (fits : 32 * laneRows width ≤ room x width) (emitted : Emission.atomic a s j width = .ok issues) :
    ∀ i ∈ issues, Stays inside i := by
  simp only [Emission.atomic, Emission.checked, bind_ok, mapError_ok, target, pure_ok] at emitted
  obtain ⟨dst, placed, payload, source, rfl⟩ := emitted
  change Emission.placed a x width = .ok dst at placed
  obtain ⟨offset, held⟩ := holds.held placed
  rw [List.forall_mem_singleton]
  refine ⟨state, ⟨?_, trivial⟩, fun b reached => ?_⟩
  · simp only [operands, List.forall_mem_cons, List.not_mem_nil, false_implies, implies_true, and_true]
    exact ⟨(placed_tame placed).1, operand_tame source⟩
  · change Rows dst s.laneRegisters.toNat b at reached
    rw [laneRegisters_rows lanes] at reached
    exact held.rows_inside placed positive (laneRows_pos width) fits reached

theorem load_stays {j : Instruction} {issues : List Issue} (state : StateFits s) (lanes : s.execWidth = width)
    (positive : 0 ≤ width) (target : j.dst = .register x) (holds : Holds a inside width x)
    (fits : 32 * laneRows width ≤ room x width) (emitted : Emission.load a s j width = .ok issues) :
    ∀ i ∈ issues, Stays inside i := by
  simp only [Emission.load, Emission.checked, bind_ok, mapError_ok, target, pure_ok] at emitted
  obtain ⟨dst, placed, address, source, rfl⟩ := emitted
  change Emission.placed a x width = .ok dst at placed
  obtain ⟨offset, held⟩ := holds.held placed
  rw [List.forall_mem_singleton]
  refine ⟨state, ⟨?_, trivial⟩, fun b reached => ?_⟩
  · simp only [operands, List.forall_mem_cons, List.not_mem_nil, false_implies, implies_true, and_true]
    exact ⟨tame_retype (placed_tame placed).1 _, operand_tame source⟩
  · change Rows (dst.retype .ud) (1 * s.laneRegisters).toNat b at reached
    rw [UInt32.one_mul, laneRegisters_rows lanes] at reached
    exact held.rows_inside placed positive (laneRows_pos width) fits reached

/-! ## Barriers -/

theorem stays_mov {dst src : Register} (fits : StateFits s) (tameDst : Tame dst) (tameSrc : Tame src)
    (written : ∀ b, Lanes dst (strideElems (destinationStride dst)).toNat s.execWidth.toNat b → inside b) :
    Stays inside ⟨s, .mov dst src⟩ := by
  refine ⟨fits, ⟨?_, trivial⟩, written⟩
  simp only [Command.mov, operands, List.forall_mem_cons, List.not_mem_nil, false_implies, implies_true, and_true]
  exact ⟨tameDst, tameSrc⟩

/-- A register that one row of dwords may be written to. -/
structure Open (inside : Nat → Prop) (r : Register) : Prop where
  tame : Tame r
  rows : ∀ b, Rows r 1 b → inside b
  lanes : ∀ b, Lanes r (strideElems (destinationStride r)).toNat 8 b → inside b

theorem Held.open (held : Held a inside 8 x offset) {r : Register} (placed : Emission.placed a x 8 = .ok r)
    (fits : 32 ≤ room x 8) : Open inside (r.retype .ud) := by
  obtain ⟨place, -, -, region⟩ := held.placed_at (by decide) placed
  refine ⟨tame_retype (placed_tame placed).1 _, fun b rows => ?_, fun b lanes => ?_⟩
  · exact held.rows_inside placed (by decide) Nat.one_pos fits rows
  · have side : destinationStride (r.retype .ud) = 1 := by
      have codes : r.region.horizontal = 0 ∨ r.region.horizontal = 1 := by
        rw [region, placedRegion]
        split
        · exact .inl rfl
        · exact .inr rfl
      unfold destinationStride Register.retype
      dsimp only
      rcases codes with code | code <;> rw [code] <;> rfl
    obtain ⟨low, high⟩ := (place.retype .ud).lanes (.inl side) lanes
    exact held.from_base (by decide) fits low high

section
variable {dst payload : Register} (state : StateFits s) (target : Open inside dst) (source : Open inside payload)
include state

include target in
theorem fence_stays (flush : Bool) : ∀ i ∈ Sequence.fence s dst flush, Stays inside i := by
  have fits := unmasked_fits state 8
  simp only [Sequence.fence, Sequence.under, List.map_cons, List.map_nil, List.forall_mem_cons, List.not_mem_nil,
    false_implies, implies_true, and_true]
  refine ⟨⟨fits, ⟨?_, trivial⟩, target.rows⟩, stays_mov fits target.tame target.tame target.lanes⟩
  simp only [operands, List.forall_mem_cons, List.not_mem_nil, false_implies, implies_true, and_true, and_self]
  exact target.tame

include target in
theorem samplerFlush_stays : ∀ i ∈ Sequence.samplerFlush s dst, Stays inside i := by
  have fits := unmasked_fits state 8
  simp only [Sequence.samplerFlush, Sequence.under, List.map_cons, List.map_nil, List.forall_mem_cons, List.not_mem_nil,
    false_implies, implies_true, and_true]
  refine ⟨⟨fits, ⟨?_, trivial⟩, target.rows⟩, stays_mov fits target.tame target.tame target.lanes⟩
  simp only [operands, List.forall_mem_cons, List.not_mem_nil, false_implies, implies_true, and_true, and_self]
  exact target.tame

include source in
theorem barrierWait_stays (mask : UInt32) : ∀ i ∈ Sequence.barrierWait s payload mask, Stays inside i := by
  have fits := unmasked_fits state 8
  simp only [Sequence.barrierWait, Sequence.under, List.map_cons, List.map_nil, List.cons_append, List.nil_append,
    List.forall_mem_cons, List.not_mem_nil, false_implies, implies_true, and_true]
  refine ⟨⟨fits, ⟨?_, trivial⟩, source.lanes⟩, ⟨fits, ⟨?_, trivial⟩, fun b => False.elim⟩,
    ⟨unmasked_fits state 1, ⟨fun r none => absurd none List.not_mem_nil, trivial⟩, fun b => False.elim⟩⟩
  · simp only [Command.and, operands, List.forall_mem_cons, List.not_mem_nil, false_implies, implies_true, and_true]
    exact ⟨source.tame, tame_vec 0 8 .ud 0 1 0, tame_imm _ _⟩
  · rw [operands, List.forall_mem_singleton]
    exact source.tame

include target source in
theorem barrier_sequence_stays (f : Flavor) (fences : Fences) :
    ∀ i ∈ Sequence.barrier f s dst payload fences, Stays inside i := by
  have optional {c : Prop} [Decidable c] {issues : List Issue} (stay : ∀ i ∈ issues, Stays inside i) :
      ∀ i ∈ (if c then issues else []), Stays inside i := by
    split
    · exact stay
    · exact fun i none => absurd none List.not_mem_nil
  have fence := fence_stays state target
  have flush := samplerFlush_stays state target
  have wait := barrierWait_stays state source
  unfold Sequence.barrier
  split
  all_goals simp only [List.forall_mem_append]
  · exact ⟨optional (fence _), wait _⟩
  · exact ⟨⟨optional (fence _), wait _⟩, optional flush⟩
  · exact ⟨⟨optional (fence _), wait _⟩, optional flush⟩
  · exact ⟨⟨optional (fence _), wait _⟩, optional flush⟩
  · exact ⟨⟨⟨optional (fence _), optional (fence _)⟩, wait _⟩, optional flush⟩
  · exact ⟨⟨⟨optional (fence _), optional (fence _)⟩, wait _⟩, optional flush⟩

end

theorem barrier_stays {f : Emission.Frame} {j : Instruction} {issues : List Issue} {y : RegisterOperand}
    (allocation : f.allocation = a) (state : StateFits s) (target : j.dst = .register x) (holds : Holds a inside 8 x)
    (fits : 32 ≤ room x 8) (source : j.src.getD 0 default = .register y) (holds' : Holds a inside 8 y)
    (fits' : 32 ≤ room y 8) (emitted : Emission.barrier f s j = .ok issues) : ∀ i ∈ issues, Stays inside i := by
  simp only [Emission.barrier, Emission.checked, bind_ok, mapError_ok, target, source, allocation, pure_ok] at emitted
  obtain ⟨dst, placed, payload, placed', rfl⟩ := emitted
  obtain ⟨offset, held⟩ := holds.held placed
  obtain ⟨offset', held'⟩ := holds'.held placed'
  exact barrier_sequence_stays state (held.open placed fits) (held'.open placed' fits') _ _

/-! ## Products of qwords -/

/-- A register of qwords that a number of lanes may be written to, in whole or by halves. -/
structure Works (inside : Nat → Prop) (r : Register) (lanes : Nat) : Prop where
  tame : Tame r
  file : r.file = .grf
  direct : r.indirect = none
  whole : ∀ b, Lanes (r.retype .ul) (strideElems (destinationStride (r.retype .ul))).toNat lanes b → inside b
  low : ∀ b, Lanes (Sequence.low (r.retype .ul)) 2 lanes b → inside b
  high : ∀ b, Lanes (Sequence.high (r.retype .ul)) 2 lanes b → inside b

theorem Held.works (held : Held a inside width x offset) (lone : x.scalar = true → width = 1) (qwords : x.type.size = 8)
    {r : Register} (placed : Emission.placed a x width = .ok r) {q n : Nat} (fits : ((8 * q + n : Nat) : Int) ≤ width)
    (start : q = 0 ∨ 8 < width) : Works inside (Emission.quarter r q) n := by
  obtain ⟨place, -, row⟩ := held.quarter_at lone placed fits start
  have lanes := lanes_le_part lone fits
  have part := held.part_le_room (by omega)
  have left := room_add x width offset
  have first := held.base_eq (by omega)
  have ends := held.ends
  rw [qwords] at place lanes
  have within {b : Nat} (low : base x width offset + 8 * q * 8 ≤ b)
      (high : b < base x width offset + 8 * q * 8 + n * 8) :
      inside b := held.from_lanes lone fits (by omega) (by rw [qwords]; omega)
  have tame := tame_quarter (placed_tame placed).1 q
  generalize Emission.quarter r q = r' at place row tame
  refine ⟨tame, place.file, place.direct, fun b written => ?_, fun b written => ?_, fun b written => ?_⟩
  · obtain ⟨low, high⟩ := (place.retype .ul).lanes (row.imp_left destinationStride_row) written
    exact within low high
  · have half : At (Sequence.low (r'.retype .ul)) (base x width offset + 8 * q * 8) := by
      refine ⟨place.file, place.direct, ?_, place.small⟩
      change r'.number.toNat * 32 + (r'.sub + 4 * 0).toNat = _
      rw [show (4 * 0 : UInt32) = 0 from rfl, UInt32.add_zero]
      exact place.sum
    obtain ⟨lane, few, low, high⟩ := written.2 place.direct
    rw [half.byteOffset] at low high
    change _ + lane * 2 * 4 ≤ b at low
    change b < _ + lane * 2 * 4 + 4 at high
    exact within (by omega) (by omega)
  · obtain ⟨lane, few, low, high⟩ := written.2 place.direct
    have half : At (Sequence.high (r'.retype .ul)) (base x width offset + 8 * q * 8 + 4) := by
      refine ⟨place.file, place.direct, ?_, by omega⟩
      have sum := place.sum
      change r'.number.toNat * 32 + (r'.sub + 4 * 1).toNat = _
      rw [show (4 * 1 : UInt32) = 4 from rfl, UInt32.toNat_add]
      change r'.number.toNat * 32 + (r'.sub.toNat + 4) % 4294967296 = _
      omega
    rw [half.byteOffset] at low high
    change _ + lane * 2 * 4 ≤ b at low
    change b < _ + lane * 2 * 4 + 4 at high
    exact within (by omega) (by omega)

theorem stays_binary {op : BinaryOp} {dst src0 src1 : Register} (fits : StateFits s) (tameDst : Tame dst)
    (tame0 : Tame src0) (tame1 : Tame src1)
    (written : ∀ b, Lanes dst (strideElems (destinationStride dst)).toNat s.execWidth.toNat b → inside b) :
    Stays inside ⟨s, .binary op dst src0 src1⟩ := by
  refine ⟨fits, ⟨?_, trivial⟩, written⟩
  simp only [operands, List.forall_mem_cons, List.not_mem_nil, false_implies, implies_true, and_true]
  exact ⟨tameDst, tame0, tame1⟩

section
variable {lanes : Nat} {dst src0 src1 tmp dstLow t0 t1 : Register}

theorem tame_low {r : Register} (file : r.file = .grf) (direct : r.indirect = none) (t : DataType) :
    Tame (Sequence.low r) ∧ Tame (Sequence.high r) ∧ Tame (Sequence.low (r.retype t)) ∧
      Tame (Sequence.high (r.retype t)) :=
  ⟨tame_unpacked file direct 0, tame_unpacked file direct 1, tame_unpacked file direct 0, tame_unpacked file direct 1⟩

theorem multiply_stays (fits : StateFits s) (wide : s.execWidth.toNat = lanes) (target : Works inside dst lanes)
    (left : src0.file = .grf ∧ src0.indirect = none) (right : src1.file = .grf ∧ src1.indirect = none)
    (work : Works inside tmp lanes) : ∀ i ∈ Sequence.multiply s dst src0 src1 tmp, Stays inside i := by
  subst wide
  obtain ⟨low0, high0, -, -⟩ := tame_low left.1 left.2 .ul
  obtain ⟨low1, high1, -, -⟩ := tame_low right.1 right.2 .ul
  obtain ⟨-, -, lowT, -⟩ := tame_low work.file work.direct .ul
  have tameD := tame_retype target.tame .ul
  have tameT := tame_retype work.tame .ul
  simp only [Sequence.multiply, Sequence.under, List.map_cons, List.map_nil, List.forall_mem_cons, List.not_mem_nil,
    false_implies, implies_true, and_true]
  exact ⟨stays_binary fits tameD low0 low1 target.whole, stays_mov fits lowT high1 work.low,
    stays_binary fits tameT low0 lowT work.whole, stays_binary fits tameT tameT (tame_imm _ _) work.whole,
    stays_binary fits tameD tameD tameT target.whole, stays_mov fits lowT high0 work.low,
    stays_binary fits tameT lowT low1 work.whole, stays_binary fits tameT tameT (tame_imm _ _) work.whole,
    stays_binary fits tameD tameD tameT target.whole⟩

theorem fullMultiply_stays (fits : StateFits s) (wide : s.execWidth.toNat = lanes) (target : Works inside dst lanes)
    (left : src0.file = .grf ∧ src0.indirect = none) (right : src1.file = .grf ∧ src1.indirect = none)
    (work : Works inside dstLow lanes) (work0 : Works inside t0 lanes) (work1 : Works inside t1 lanes) :
    ∀ i ∈ Sequence.fullMultiply s src0 src1 dst dstLow t0 t1, Stays inside i := by
  subst wide
  obtain ⟨low0, high0, -, -⟩ := tame_low left.1 left.2 .ul
  obtain ⟨low1, high1, -, -⟩ := tame_low right.1 right.2 .ul
  obtain ⟨-, -, lowL, highL⟩ := tame_low work.file work.direct .ul
  obtain ⟨-, -, lowT, highT⟩ := tame_low work0.file work0.direct .ul
  have tameD := tame_retype target.tame .ul
  have tameL := tame_retype work.tame .ul
  have tame0 := tame_retype work0.tame .ul
  have tame1 := tame_retype work1.tame .ul
  simp only [Sequence.fullMultiply, Sequence.under, List.map_cons, List.map_nil, List.forall_mem_cons,
    List.not_mem_nil, false_implies, implies_true, and_true]
  exact ⟨stays_mov fits lowT high0 work0.low, stays_mov fits lowL high1 work.low,
    stays_binary fits tameD lowT lowL target.whole, stays_binary fits tame1 lowT low1 work1.whole,
    stays_binary fits tame0 low0 lowL work0.whole, stays_binary fits tameL low0 low1 work.whole,
    stays_binary fits tame1 tame1 lowT work1.whole, stays_binary fits tame0 tame0 (tame_imm _ _) work0.whole,
    stays_binary fits tameD tameD lowT target.whole, stays_mov fits lowT highL work0.low,
    stays_binary fits tame1 tame1 lowT work1.whole, stays_binary fits tame0 tame1 (tame_imm _ _) work0.whole,
    stays_mov fits highL highT work.high, stays_binary fits tame0 tame1 (tame_imm _ _) work0.whole,
    stays_binary fits tameD tameD tame0 target.whole⟩

end

theorem quarter_general {r : Register} (file : r.file = .grf) (direct : r.indirect = none) (q : Nat) :
    (Emission.quarter r q).file = .grf ∧ (Emission.quarter r q).indirect = none := by
  unfold Emission.quarter
  split
  · exact ⟨file, direct⟩
  · obtain ⟨file', -, -, direct'⟩ := r.quarter_shape (UInt32.ofNat q)
    exact ⟨file'.trans file, direct'.trans direct⟩

/-- A register operand of qwords with an element for each lane. -/
structure QwordLanes (width : Int) (x : RegisterOperand) : Prop where
  lone : x.scalar = true → width = 1
  qwords : x.type.size = 8

theorem QwordLanes.works (lanes : QwordLanes width x) (holds : Holds a inside width x) {r : Register}
    (placed : Emission.placed a x width = .ok r) {q n : Nat} (fits : ((8 * q + n : Nat) : Int) ≤ width)
    (start : q = 0 ∨ 8 < width) : Works inside (Emission.quarter r q) n := by
  obtain ⟨offset, held⟩ := holds.held placed
  exact held.works lanes.lone lanes.qwords placed fits start

theorem multiply_emitted {j : Instruction} {issues : List Issue} {l r t : RegisterOperand}
    (state : StateFits s) (lanes : s.execWidth = width) (positive : 0 ≤ width) (few : width ≤ 16)
    (target : j.dst = .register x) (sources : j.src = [.register l, .register r, .register t])
    (written : ∀ y ∈ [x, t], Holds a inside width y ∧ QwordLanes width y)
    (emitted : Emission.multiply a s j width = .ok issues) : ∀ i ∈ issues, Stays inside i := by
  simp only [Emission.multiply, Emission.checked, target, sources, Emission.operand, List.mapM_cons, List.mapM_nil,
    bind_ok, mapError_ok, pure_ok] at emitted
  obtain ⟨dst, placed, _, ⟨left, placedL, _, ⟨right, placedR, _, ⟨tmp, placedT, _, rfl, rfl⟩, rfl⟩, rfl⟩, rfl⟩ :=
    emitted
  simp only [List.forall_mem_cons, List.not_mem_nil, false_implies, implies_true, and_true] at written
  obtain ⟨⟨holds, qwords⟩, holdsT, qwordsT⟩ := written
  obtain ⟨-, fileL, directL⟩ := placed_tame placedL
  obtain ⟨-, fileR, directR⟩ := placed_tame placedR
  intro i member
  obtain ⟨q, u, n, made, fits, wide, whole, start⟩ := mem_quarters state lanes positive few member
  exact multiply_stays fits (by rw [wide, Int.toNat_natCast]) (qwords.works holds placed whole start)
    (quarter_general fileL directL q) (quarter_general fileR directR q)
    (qwordsT.works holdsT placedT whole start) i made

theorem multiplyHigh_emitted {j : Instruction} {issues : List Issue} {l r t t' t'' : RegisterOperand}
    (state : StateFits s) (lanes : s.execWidth = width) (positive : 0 ≤ width) (few : width ≤ 16)
    (target : j.dst = .register x)
    (sources : j.src = [.register l, .register r, .register t, .register t', .register t''])
    (written : ∀ y ∈ [x, t, t', t''], Holds a inside width y ∧ QwordLanes width y)
    (emitted : Emission.multiplyHigh a s j width = .ok issues) : ∀ i ∈ issues, Stays inside i := by
  simp only [Emission.multiplyHigh, Emission.checked, target, sources, Emission.operand, List.mapM_cons, List.mapM_nil,
    bind_ok, mapError_ok, pure_ok] at emitted
  obtain ⟨dst, placed, _, ⟨left, placedL, _, ⟨right, placedR, _, ⟨low, placedT, _, ⟨t0, placed0, _, ⟨t1, placed1, _,
    rfl, rfl⟩, rfl⟩, rfl⟩, rfl⟩, rfl⟩, rfl⟩ := emitted
  simp only [List.forall_mem_cons, List.not_mem_nil, false_implies, implies_true, and_true] at written
  obtain ⟨⟨holds, qwords⟩, ⟨holdsT, qwordsT⟩, ⟨holds0, qwords0⟩, holds1, qwords1⟩ := written
  obtain ⟨-, fileL, directL⟩ := placed_tame placedL
  obtain ⟨-, fileR, directR⟩ := placed_tame placedR
  intro i member
  obtain ⟨q, u, n, made, fits, wide, whole, start⟩ := mem_quarters state lanes positive few member
  exact fullMultiply_stays fits (by rw [wide, Int.toNat_natCast]) (qwords.works holds placed whole start)
    (quarter_general fileL directL q) (quarter_general fileR directR q) (qwordsT.works holdsT placedT whole start)
    (qwords0.works holds0 placed0 whole start) (qwords1.works holds1 placed1 whole start) i made

/-! ## Scratch memory -/

/-- The row of the scratch message header. -/
def HeaderRow (a : Allocation) (b : Nat) : Prop := 32 * (a.header.toNat / 32) ≤ b ∧ b < 32 * (a.header.toNat / 32) + 32

theorem mem_blocks {first count n len : Nat} (member : (n, len) ∈ Sequence.blocks first count) :
    first ≤ n ∧ n + len ≤ first + count ∧ 0 < len ∧ len ≤ 4 := by
  induction first, count using Sequence.blocks.induct with
  | case1 => cases member
  | case2 first =>
    cases List.mem_singleton.mp member
    omega
  | case3 first =>
    cases List.mem_singleton.mp member
    omega
  | case4 first =>
    simp only [Sequence.blocks, List.mem_cons, Prod.mk.injEq, List.not_mem_nil, or_false] at member
    omega
  | case5 first m ih =>
    rw [Sequence.blocks, List.mem_cons] at member
    rcases member with same | later
    · cases same
      omega
    · have := ih later
      omega

theorem ud8_tame (number : UInt32) : Tame (.ud8 number 0) := tame_vec number 0 .ud 8 8 1

/-- A move of one general register. -/
theorem row_stays {number : UInt32} {src : Register} (state : StateFits s) (tame : Tame src)
    (small : number.toNat < 134217728)
    (row : ∀ b, 32 * number.toNat ≤ b → b < 32 * number.toNat + 32 → inside b) :
    Stays inside ⟨s.unmasked 8, .mov (.ud8 number 0) src⟩ := by
  have place : At (.ud8 number 0) (32 * number.toNat) :=
    ⟨rfl, rfl, by change number.toNat * 32 + 0 = _; omega, by omega⟩
  refine stays_mov (unmasked_fits state 8) (ud8_tame number) tame fun b written => ?_
  obtain ⟨low, high⟩ := place.lanes (.inl rfl) written
  exact row b low high

theorem header_stays (state : StateFits s) (header : ∀ b, HeaderRow a b → inside b) :
    Stays inside ⟨s.unmasked 8, Sequence.scratchHeader (.ud8 (a.header / grfSize) 0)⟩ := by
  have number : (Register.ud8 (a.header / grfSize) 0).number.toNat = a.header.toNat / 32 := by
    change (a.header / grfSize).toNat = _
    rw [UInt32.toNat_div]
    rfl
  have small := a.header.toNat_lt
  refine row_stays state (ud8_tame 0) ?_ fun b low high => ?_
  · rw [number]
    omega
  rw [number] at low high
  exact header b ⟨low, high⟩

/-- Messages to scratch memory need a header. -/
theorem scratch_spills {j : Instruction} {issues : List Issue} (emitted : Emission.scratch a s j = .ok issues) :
    a.hasSpills = true := by
  by_contra none
  rw [Bool.not_eq_true] at none
  simp [Emission.scratch, none, Emission.failed, bind, Except.bind] at emitted

theorem reload_stays {j : Instruction} {issues : List Issue} (state : StateFits s) (op : j.op = .reload)
    (target : j.dst = .register x) (holds : Holds a inside 8 x) (fits : 32 * x.spans ≤ room x 8)
    (header : ∀ b, HeaderRow a b → inside b) (emitted : Emission.scratch a s j = .ok issues) :
    ∀ i ∈ issues, Stays inside i := by
  have spills := scratch_spills emitted
  have other : Opcode.reload ≠ .spill := by decide
  simp only [Emission.scratch, Emission.checked, spills, op, target, other, Bool.not_true, Bool.false_eq_true, if_false,
    if_true, bind_ok, mapError_ok, pure_ok] at emitted
  obtain ⟨data, placed, rfl⟩ := emitted
  change Emission.placed a x 8 = .ok data at placed
  obtain ⟨offset, held⟩ := holds.held placed
  obtain ⟨place, sub, -, -⟩ := held.placed_at (by decide) placed
  have start := held.base_eq (by decide)
  have left := room_add x 8 offset
  have ends := held.ends
  have tame := placed_tame placed
  intro i member
  obtain ⟨c, listed, rfl⟩ := List.mem_map.mp member
  rcases List.mem_cons.mp listed with rfl | block
  · exact header_stays state header
  · obtain ⟨⟨n, len⟩, inside_, rfl⟩ := List.mem_map.mp block
    obtain ⟨-, ends_, some_, few⟩ := mem_blocks inside_
    have count : ((Operand.register x).spans.toNat : Int) = x.spans := by
      change (x.spans.toNat : Int) = _
      have := held.part
      omega
    have number : (UInt32.ofNat n).toNat = n := by
      rw [UInt32.toNat_ofNat']
      omega
    have rows : (UInt32.ofInt (len : Int)).toNat = len := by
      rw [toNat_ofInt (by omega) (by omega), Int.toNat_natCast]
    refine ⟨unmasked_fits state 8, ⟨?_, trivial⟩, fun b reached => ?_⟩
    · simp only [Sequence.reloadBlock, operands, List.forall_mem_cons, List.not_mem_nil, false_implies, implies_true,
        and_true]
      exact ⟨tame_moved tame.1 tame.2.1 _ _, ud8_tame _⟩
    · change Rows (data.offset (UInt32.ofNat n) 0) (UInt32.ofInt (len : Int)).toNat b at reached
      rw [rows] at reached
      have zero : (0 : UInt32).toNat = 0 := rfl
      have moved := place.offset (UInt32.ofNat n) 0 (by rw [number, zero]; omega)
      rw [number, zero] at moved
      have grf : grfSize.toNat = 32 := rfl
      obtain ⟨low, high⟩ := moved.rows (by
        simp only [Register.offset, UInt32.toNat_mod, grf]
        omega) reached
      exact held.from_row (by decide) (n := x.spans.toNat) (by omega) (by omega) (by omega) (by omega)

/-- What a message to scratch memory is put together from: the header, and data in the rows after it. Rows that are
elsewhere are copied there, and no message has more of them than the register. -/
theorem spill_stays {j : Instruction} {issues : List Issue} (state : StateFits s) (op : j.op = .spill)
    (aligned : a.header.toNat % 32 = 0) (low : a.header.toNat ≤ 4096)
    (rows : ∀ b, a.header.toNat ≤ b → b < a.header.toNat + 32 + 32 * (j.src.getD 0 default).spans.toNat → inside b)
    (emitted : Emission.scratch a s j = .ok issues) : ∀ i ∈ issues, Stays inside i := by
  have spills := scratch_spills emitted
  have other : Opcode.spill ≠ .reload := by decide
  simp only [Emission.scratch, Emission.checked, spills, op, other, Bool.not_true, Bool.false_eq_true, if_false,
    if_true, bind_ok, mapError_ok, pure_ok] at emitted
  obtain ⟨data, -, rfl⟩ := emitted
  intro i member
  obtain ⟨c, listed, rfl⟩ := List.mem_map.mp member
  rcases List.mem_cons.mp listed with rfl | block
  · refine header_stays state fun b range => ?_
    obtain ⟨above, below⟩ := range
    exact rows b (by omega) (by omega)
  · obtain ⟨⟨n, len⟩, inside_, made⟩ := List.mem_flatMap.mp block
    obtain ⟨-, ends, -, few⟩ := mem_blocks inside_
    rcases List.mem_append.mp made with staged | sent
    · have copied : c ∈ Sequence.stageBlock (.ud8 (a.header / grfSize) 0) (data.number + UInt32.ofNat n) len := by
        split at staged
        · cases staged
        · exact staged
      obtain ⟨index, below, rfl⟩ := List.mem_map.mp copied
      rw [List.mem_range] at below
      have number : (a.header / grfSize + 1 + UInt32.ofNat index).toNat = a.header.toNat / 32 + 1 + index := by
        have grf : grfSize.toNat = 32 := rfl
        have one : (1 : UInt32).toNat = 1 := rfl
        rw [UInt32.toNat_add, UInt32.toNat_add, UInt32.toNat_div, UInt32.toNat_ofNat', grf, one]
        omega
      refine row_stays state (ud8_tame _) ?_ fun b above under => ?_
      · rw [show (Register.ud8 (a.header / grfSize) 0).number = a.header / grfSize from rfl, number]
        omega
      · rw [show (Register.ud8 (a.header / grfSize) 0).number = a.header / grfSize from rfl, number] at above under
        exact rows b (by omega) (by omega)
    · obtain rfl := List.mem_singleton.mp sent
      refine ⟨unmasked_fits state 8, ⟨?_, trivial⟩, fun b => False.elim⟩
      rw [operands, List.forall_mem_singleton]
      exact ud8_tame _

/-! ## Motion estimation -/

theorem motionPayload_mem {payload : Register} {done issues : List Issue} {rest : List (Operand × Nat)}
    (filled : Emission.motionPayload a s payload done rest = .ok issues) :
    ∀ i ∈ issues, i ∈ done ∨ ∃ e ∈ rest, ∃ value, Emission.operand a 1 e.1 = .ok value ∧
      i = ⟨s, Emission.motionDword payload e.2 value⟩ := by
  induction rest generalizing done with
  | nil =>
    cases filled
    exact fun i member => .inl member
  | cons e rest ih =>
    obtain ⟨o, index⟩ := e
    unfold Emission.motionPayload at filled
    split at filled
    · cases filled
    · rename_i value made
      intro i member
      rcases ih filled i member with before | ⟨e, later, found⟩
      · rcases List.mem_append.mp before with old | new
        · exact .inl old
        · exact .inr ⟨_, List.mem_cons_self, value, made, List.mem_singleton.mp new⟩
      · exact .inr ⟨e, List.mem_cons_of_mem _ later, found⟩

theorem motion_stays {j : Instruction} {issues : List Issue} {y : RegisterOperand} {rest : List Operand}
    {registers : Nat} (state : StateFits s) (positive : 0 ≤ width) (target : j.dst = .register x)
    (holds : Holds a inside width x) (fits : 32 * 7 ≤ room x width) (sources : j.src = .register y :: rest)
    (holds' : Holds a inside width y) (count : rest.length = 8 * registers) (some_ : 0 < registers)
    (fits' : 32 * registers ≤ room y width) (emitted : Emission.motion a s j width = .ok issues) :
    ∀ i ∈ issues, Stays inside i := by
  simp only [Emission.motion, Emission.checked, Emission.failed, target, sources, bind_ok, mapError_ok] at emitted
  obtain ⟨dst, placed, payload, placed', emitted⟩ := emitted
  change Emission.placed a x width = .ok dst at placed
  change Emission.placed a y width = .ok payload at placed'
  obtain ⟨offset, held⟩ := holds.held placed
  obtain ⟨at_, work⟩ := holds'.held placed'
  by_cases aligned : payload.sub = 0
  · rw [if_neg (by simp [aligned]), bind_ok] at emitted
    obtain ⟨filled, made, emitted⟩ := emitted
    rw [pure_ok] at emitted
    subst emitted
    obtain ⟨place, -, -, -⟩ := work.placed_at positive placed'
    have sum := place.sum
    rw [aligned] at sum
    change payload.number.toNat * 32 + 0 = _ at sum
    have small := place.small
    have start := work.base_eq positive
    have left := room_add y width at_
    have ends := work.ends
    have bounds : base y width at_ + 32 * registers < 4294967296 := by omega
    have one := unmasked_fits state 1
    rw [List.forall_mem_append, List.forall_mem_cons, List.forall_mem_singleton]
    refine ⟨fun i member => ?_, ?_, state, ⟨?_, trivial⟩, fun b reached => ?_⟩
    · rcases motionPayload_mem made i member with old | ⟨⟨o, index⟩, listed, value, valued, rfl⟩
      · cases old
      · have inRange : index < 8 * registers := by
          have range := List.snd_lt_of_mem_zipIdx listed
          rw [List.drop_one, List.tail_cons, count] at range
          omega
        have number : (payload.number + UInt32.ofNat (index / 8)).toNat = payload.number.toNat + index / 8 := by
          rw [UInt32.toNat_add, UInt32.toNat_ofNat']
          omega
        have sub : (UInt32.ofNat (7 - index % 8) * 4).toNat = (7 - index % 8) * 4 := by
          have four : (4 : UInt32).toNat = 4 := rfl
          rw [UInt32.toNat_mul, UInt32.toNat_ofNat', four]
          omega
        have dword : At (.ud1 (payload.number + UInt32.ofNat (index / 8)) (UInt32.ofNat (7 - index % 8) * 4))
            (base y width at_ + 32 * (index / 8) + (7 - index % 8) * 4) := by
          refine ⟨rfl, rfl, ?_, by omega⟩
          change (payload.number + UInt32.ofNat (index / 8)).toNat * 32 + (UInt32.ofNat (7 - index % 8) * 4).toNat = _
          rw [number, sub]
          omega
        refine stays_mov one (tame_vec _ _ _ _ _ _) (operand_tame valued) fun b written => ?_
        obtain ⟨low, high⟩ := dword.lanes (.inr (Nat.le_refl 1)) written
        change b < _ + 1 * 4 at high
        exact work.from_base positive (n := 32 * registers) (by omega) (by omega) (by omega)
    · have byte : At (.ub1 payload.number Emission.motionThreadByte) (base y width at_ + 20) :=
        ⟨rfl, rfl, by change payload.number.toNat * 32 + 20 = _; omega, by omega⟩
      refine stays_mov one (tame_vec _ _ _ _ _ _) (tame_vec _ _ _ _ _ _) fun b written => ?_
      obtain ⟨low, high⟩ := byte.lanes (.inr (Nat.le_refl 1)) written
      change b < _ + 1 * 1 at high
      exact work.from_base positive (n := 32 * registers) (by omega) (by omega) (by omega)
    · simp only [operands, List.forall_mem_cons, List.not_mem_nil, false_implies, implies_true, and_true]
      exact ⟨(placed_tame placed).1, (placed_tame placed').1⟩
    · exact held.rows_inside placed positive (n := 7) (by decide) fits reached
  · rw [if_pos (by simpa using aligned)] at emitted
    cases emitted

/-! ## Stack pointers -/

/-- Elements from a byte of a part on, side by side or a single one, while there is room. -/
theorem Held.lanes_from (held : Held a inside width x offset) (positive : 0 ≤ width) {r : Register} {k n b : Nat}
    (place : At r (base x width offset + k)) (row : destinationStride r = 1 ∨ n ≤ 1)
    (fits : ((k + n * r.type.size : Nat) : Int) ≤ partBytes x width)
    (written : Lanes r (strideElems (destinationStride r)).toNat n b) : inside b := by
  obtain ⟨low, high⟩ := place.lanes row written
  exact held.from_base positive (Int.le_trans fits (held.part_le_room positive)) (by omega) (by omega)

/-- An operand of dwords. -/
structure Dwords (width : Int) (scalar : Bool) (x : RegisterOperand) : Prop where
  type : x.type = .ud
  scalar : x.scalar = scalar

theorem Dwords.vector_bytes (dwords : Dwords width false x) : partBytes x width = 4 * width := by
  simp [partBytes, RegisterOperand.lanes, dwords.type, dwords.scalar, Element.size]

theorem Dwords.scalar_bytes (dwords : Dwords width true x) : partBytes x width = 4 := by
  simp [partBytes, RegisterOperand.lanes, dwords.type, dwords.scalar, Element.size]

theorem vector_row (vector : x.scalar = false) (many : width ≠ 1) : (placedRegion x width).horizontal = 1 := by
  rw [placedRegion, vector, if_neg (by simpa using many)]
  rfl

/-- The registers of the lane numbers. -/
theorem laneIds_stays (state : StateFits s) (lanes : width = 8 ∨ width = 16) (holds : Holds a inside width x)
    (dwords : Dwords width false x) {lane : Register} (placed : Emission.placed a x width = .ok lane) :
    ∀ i ∈ Sequence.laneIds s lane width, Stays inside i := by
  obtain ⟨offset, held⟩ := holds.held placed
  obtain ⟨place, -, -, region⟩ := held.placed_at (by omega) placed
  have bytes := dwords.vector_bytes
  have row : lane.region.horizontal = 1 := by
    rw [region]
    exact vector_row dwords.scalar (by omega)
  have fits := unmasked_fits state 8
  have tame := tame_retype (placed_tame placed).1 .ud
  have first : Stays inside ⟨s.unmasked 8, .mov (lane.retype .ud) (.immV 0x76543210)⟩ := by
    refine stays_mov fits tame (tame_imm _ _) fun b written => ?_
    refine held.lanes_from (by omega) (k := 0) (place.retype .ud) (.inl (destinationStride_row row)) ?_ written
    change ((0 + 8 * 4 : Nat) : Int) ≤ _
    omega
  unfold Sequence.laneIds
  dsimp only
  split
  · rename_i sixteen
    refine List.forall_mem_cons.mpr ⟨first, List.forall_mem_singleton.mpr ?_⟩
    have ends := held.ends
    have left := room_add x width offset
    have part := held.part_le_room (show 0 ≤ width by omega)
    have start := held.base_eq (show 0 ≤ width by omega)
    have moved : At ((lane.retype .ud).offset 1 0) (base x width offset + 32) := by
      have shifted := (place.retype .ud).offset 1 0 (by
        change base x width offset + 32 * 1 + 0 < _
        omega)
      exact shifted
    refine stays_binary fits (tame_moved tame place.file _ _) tame (tame_imm _ _) fun b written => ?_
    refine held.lanes_from (by omega) moved (.inl (destinationStride_row row)) ?_ written
    change ((32 + 8 * 4 : Nat) : Int) ≤ _
    omega
  · exact List.forall_mem_singleton.mpr first

/-- The operands of a stack setup: the pointer in dwords or qwords, a scalar and a vector of dwords to work in. -/
structure StackShape (width : Int) (x t l : RegisterOperand) : Prop where
  lanes : width = 8 ∨ width = 16
  vector : x.scalar = false
  type : x.type = .ud ∨ x.type = .ul
  scalar : Dwords width true t
  lane : Dwords width false l

theorem stack_stays {j : Instruction} {issues : List Issue} {t l : RegisterOperand} (state : StateFits s)
    (shape : StackShape width x t l) (target : j.dst = .register x) (sources : j.src = [.register t, .register l])
    (holds : Holds a inside width x) (holdsT : Holds a inside width t) (holdsL : Holds a inside width l)
    (emitted : Emission.stack a s j width = .ok issues) : ∀ i ∈ issues, Stays inside i := by
  simp only [Emission.stack, Emission.checked, target, sources, Emission.operand, List.mapM_cons, List.mapM_nil,
    bind_ok, mapError_ok, pure_ok] at emitted
  obtain ⟨sp, placed, _, ⟨tmp, placedT, _, ⟨lane, placedL, _, rfl, rfl⟩, rfl⟩, rfl⟩ := emitted
  obtain ⟨offset, held⟩ := holds.held placed
  obtain ⟨offsetT, heldT⟩ := holdsT.held placedT
  obtain ⟨offsetL, heldL⟩ := holdsL.held placedL
  have lanes := shape.lanes
  have positive : 0 ≤ width := by omega
  obtain ⟨place, -, typeP, region⟩ := held.placed_at positive placed
  obtain ⟨placeT, -, -, -⟩ := heldT.placed_at positive placedT
  obtain ⟨placeL, -, -, regionL⟩ := heldL.placed_at positive placedL
  have rowL : lane.region.horizontal = 1 := by
    rw [regionL]
    exact vector_row shape.lane.scalar (by omega)
  have rowP : sp.region.horizontal = 1 := by
    rw [region]
    exact vector_row shape.vector (by omega)
  have bytesT := shape.scalar.scalar_bytes
  have bytesL := shape.lane.vector_bytes
  have fits (n : Int) : StateFits { s with noMask := true, predicate := 0, execWidth := n } :=
    ⟨state.quarter, show (0 : UInt32).toNat < 16 by decide⟩
  have tameS := (placed_tame placed).1
  have tameL := tame_retype (placed_tame placedL).1 .ud
  have tameT : Tame (tmp.toScalar.retype .ud) :=
    tame_direct (.inl placeT.file) placeT.direct (show (0 : UInt8).toNat < 16 by decide)
      (show (0 : UInt8).toNat < 8 by decide) (show (0 : UInt8).toNat < 4 by decide)
  have words : Tame (lane.retype .ud).unpackedWords :=
    tame_direct (.inl placeL.file) placeL.direct (show (verticalCode 16).toNat < 16 by decide)
      (show (widthCode 8).toNat < 8 by decide) (show (horizontalCode 2).toNat < 4 by decide)
  -- One dword, all lanes of dwords.
  have single : ∀ b, Lanes (tmp.toScalar.retype .ud) (strideElems (destinationStride (tmp.toScalar.retype .ud))).toNat
      (1 : Int).toNat b → inside b := by
    intro b written
    have here : At (tmp.toScalar.retype .ud) (base t width offsetT + 0) :=
      ⟨placeT.file, placeT.direct, placeT.sum, placeT.small⟩
    refine heldT.lanes_from positive here (.inr (Nat.le_refl 1)) ?_ written
    change ((0 + 1 * 4 : Nat) : Int) ≤ _
    omega
  have all : ∀ b, Lanes (lane.retype .ud) (strideElems (destinationStride (lane.retype .ud))).toNat width.toNat b →
      inside b := by
    intro b written
    refine heldL.lanes_from positive (k := 0) (placeL.retype .ud) (.inl (destinationStride_row rowL)) ?_ written
    change ((0 + width.toNat * 4 : Nat) : Int) ≤ _
    omega
  unfold Sequence.stackPointer
  dsimp only
  simp only [List.forall_mem_append, List.forall_mem_cons, List.not_mem_nil, false_implies, implies_true, and_true]
  refine ⟨⟨laneIds_stays (fits s.execWidth) lanes holdsL shape.lane placedL, ?_, ?_, ?_, ?_⟩, ?_⟩
  · exact stays_binary (fits 1) tameT (tame_vec 0 20 .ud 0 1 0) (tame_imm _ _) single
  · exact stays_binary (fits 1) tameT tameT (tame_imm _ _) single
  · exact stays_binary (fits width) tameL tameL tameT all
  · exact stays_mov (fits 1) tameT (tame_imm _ _) single
  · split
    · rename_i qword
      have type : x.type = .ul := by
        rcases shape.type with dword | qwords
        · change x.type.is64 = true at qword
          rw [dword] at qword
          cases qword
        · exact qwords
      refine List.forall_mem_cons.mpr ⟨stays_binary (fits width) tameL tameT words all, fun i member => ?_⟩
      obtain ⟨q, small, rfl⟩ := List.mem_map.mp member
      rw [List.mem_range] at small
      have few : q < 2 ∧ ((8 * q + 8 : Nat) : Int) ≤ width := by
        rcases lanes with rfl | rfl
        · change q < 1 at small
          omega
        · change q < 2 at small
          omega
      have same : sp.retype .ul = sp := by
        rw [Register.retype, show DataType.ul = sp.type by rw [typeP, type]; rfl]
      have bytes : partBytes x width = 8 * width := by
        simp [partBytes, RegisterOperand.lanes, shape.vector, type, Element.size]
      obtain ⟨moved, typeM, rowM⟩ := held.moved_at (by rw [shape.vector]; rintro ⟨⟩) placed rowP (q := q) (by omega)
      rw [same]
      refine stays_mov ⟨?_, show (0 : UInt32).toNat < 16 by decide⟩ (tame_registerQuarter tameS place.file _)
        (tame_registerQuarter tameL placeL.file _) fun b written => ?_
      · change (UInt32.ofNat q).toNat < 4
        rw [UInt32.toNat_ofNat']
        omega
      · refine held.lanes_from positive moved (.inl (destinationStride_row rowM)) ?_ written
        rw [typeM, dataType_size, type]
        change ((8 * q * 8 + 8 * 8 : Nat) : Int) ≤ _
        omega
    · rename_i dword
      have type : x.type = .ud := by
        rcases shape.type with dwords | qwords
        · exact dwords
        · change ¬ x.type.is64 = true at dword
          rw [qwords] at dword
          exact absurd rfl dword
      have bytes : partBytes x width = 4 * width := by
        simp [partBytes, RegisterOperand.lanes, shape.vector, type, Element.size]
      refine List.forall_mem_singleton.mpr
        (stays_binary (fits width) (tame_retype tameS .ud) tameT words fun b written => ?_)
      refine held.lanes_from positive (k := 0) (place.retype .ud) (.inl (destinationStride_row rowP)) ?_ written
      change ((0 + width.toNat * 4 : Nat) : Int) ≤ _
      omega

end

/-! ## Instructions -/

/-- The operations that write an element for each lane of their destination. -/
def onLanes : Opcode → Bool
  | .mov | .not | .add | .mul | .and | .or | .xor | .shl | .shr | .asr | .select | .mad | .lrp | .compare
  | .indirectMov => true
  | _ => false

/-- The operations that write no general register, whatever destination they are given. -/
def writesNone : Opcode → Bool
  | .nop | .label | .jump => true
  | _ => false

/-- The operands beside its destination that an instruction writes, which selection adds: temporaries of products and
of a stack setup, and payloads that are put together from parts of the thread header. -/
def workspace (j : Instruction) : List Operand :=
  match j.op with
  | .mul64 | .mulHi64 => j.src.drop 2
  | .barrier | .motionMessage => j.src.take 1
  | .stackSetup => j.src
  | _ => []

/-- An instruction with a destination as selection and spill code make it, by what it writes: the operands that it
writes have room for all that is written. -/
inductive Shaped (simd : Int) (j : Instruction) (x : RegisterOperand) : Prop where
  | lanes (op : onLanes j.op = true) (lone : x.scalar = true → j.width simd = 1) (few : j.width simd ≤ 16)
  | response (op : j.op = .atomicMessage ∨ j.op = .load) (fits : 32 * laneRows (j.width simd) ≤ room x (j.width simd))
  | barrier (y : RegisterOperand) (op : j.op = .barrier) (width : j.width simd = 8) (fits : 32 ≤ room x 8)
      (rest : List Operand) (src : j.src = .register y :: rest) (fits' : 32 ≤ room y 8)
  | low (l r t : RegisterOperand) (op : j.op = .mul64) (few : j.width simd ≤ 16)
      (src : j.src = [.register l, .register r, .register t]) (lanes : ∀ y ∈ [x, t], QwordLanes (j.width simd) y)
  | high (l r t t' t'' : RegisterOperand) (op : j.op = .mulHi64) (few : j.width simd ≤ 16)
      (src : j.src = [.register l, .register r, .register t, .register t', .register t''])
      (lanes : ∀ y ∈ [x, t, t', t''], QwordLanes (j.width simd) y)
  | motion (y : RegisterOperand) (rest : List Operand) (registers : Nat) (op : j.op = .motionMessage)
      (fits : 32 * 7 ≤ room x (j.width simd)) (src : j.src = .register y :: rest) (count : rest.length = 8 * registers)
      (some_ : 0 < registers) (fits' : 32 * registers ≤ room y (j.width simd))
  | stack (t l : RegisterOperand) (op : j.op = .stackSetup) (src : j.src = [.register t, .register l])
      (shape : StackShape (j.width simd) x t l)
  | reload (op : j.op = .reload) (width : j.width simd = 8) (fits : 32 * x.spans ≤ room x 8)

theorem instructionState_fits (simd : Int) (j : Instruction) (width : Int) :
    StateFits (Emission.instructionState (StraightLine.plainState simd) j width) := by
  refine ⟨show (0 : UInt32).toNat < 4 by decide, ?_⟩
  change (if (j.predicated || j.op == .select) = true then (1 : UInt32) else 0).toNat < 16
  split <;> decide

/-- The commands of an instruction of a known shape reach only what its destination and its workspace describe, and
the scratch header if it is a reload. -/
theorem instruction_stays {f : Emission.Frame} {inside : Nat → Prop} {j : Instruction} {x : RegisterOperand}
    {issues : List Issue} {simd : Int} (base : f.base = StraightLine.plainState simd)
    (same : f.allocation.kernel.simdWidth = simd) (positive : 0 < simd) (target : j.dst = .register x)
    (header : j.op = .reload → ∀ b, HeaderRow f.allocation b → inside b)
    (held : Holds f.allocation inside (j.width simd) x)
    (work : ∀ y, Operand.register y ∈ workspace j → Holds f.allocation inside (j.width simd) y)
    (shaped : Shaped simd j x) (emitted : Emission.instruction f j = .ok issues) : ∀ i ∈ issues, Stays inside i := by
  have width : f.allocation.kernel.widthOf j = j.width simd := by rw [Kernel.widthOf, same]
  have nonneg : 0 ≤ j.width simd := by
    unfold Instruction.width
    split <;> omega
  have state : StateFits (Emission.instructionState f.base j (j.width simd)) := by
    rw [base]
    exact instructionState_fits simd j _
  unfold Emission.instruction at emitted
  dsimp only at emitted
  rw [width] at emitted
  unfold workspace at work
  cases shaped with
  | lanes op lone few =>
    split at emitted
    all_goals first
      | exact alu_stays state rfl nonneg few target held lone emitted
      | exact indirect_stays rfl state rfl nonneg target held lone emitted
      | (rename_i other; rw [other] at op; cases op)
  | response op fits =>
    rcases op with op | op <;> rw [op] at emitted
    · exact atomic_stays state rfl nonneg target held fits emitted
    · exact load_stays state rfl nonneg target held fits emitted
  | barrier y op eight fits rest src fits' =>
    have payload := work y (by simp [op, src])
    rw [eight] at held payload
    rw [op] at emitted
    exact barrier_stays rfl state target held fits (by rw [src]; rfl) payload fits' emitted
  | low l r t op few src lanes =>
    rw [op] at emitted
    refine multiply_emitted state rfl nonneg few target src (fun y member => ⟨?_, lanes y member⟩) emitted
    rcases List.mem_cons.mp member with rfl | other
    · exact held
    · exact work y (by simpa [op, src] using other)
  | high l r t t' t'' op few src lanes =>
    rw [op] at emitted
    refine multiplyHigh_emitted state rfl nonneg few target src (fun y member => ⟨?_, lanes y member⟩) emitted
    rcases List.mem_cons.mp member with rfl | other
    · exact held
    · exact work y (by simpa [op, src] using other)
  | motion y rest registers op fits src count some_ fits' =>
    have payload := work y (by simp [op, src])
    rw [op] at emitted
    exact motion_stays state nonneg target held fits src payload count some_ fits' emitted
  | stack t l op src shape =>
    have scalar := work t (by simp [op, src])
    have lane := work l (by simp [op, src])
    rw [op] at emitted
    exact stack_stays state shape target src held scalar lane emitted
  | reload op eight fits =>
    rw [eight] at held
    rw [op] at emitted
    exact reload_stays state op target held fits (header op) emitted

/-- An operation that writes no general register is no command, or one that reaches none. -/
theorem writesNone_stays {f : Emission.Frame} {inside : Nat → Prop} {j : Instruction} {issues : List Issue} {simd : Int}
    (base : f.base = StraightLine.plainState simd) (none : writesNone j.op = true)
    (emitted : Emission.instruction f j = .ok issues) : ∀ i ∈ issues, Stays inside i := by
  unfold Emission.instruction at emitted
  dsimp only at emitted
  cases op : j.op
  case nop =>
    rw [op] at emitted
    cases emitted
    rw [List.forall_mem_singleton, base]
    exact ⟨instructionState_fits simd j _, ⟨fun r none => absurd none List.not_mem_nil, trivial⟩, fun b => False.elim⟩
  case label | jump =>
    rw [op] at emitted
    cases emitted
  all_goals
    rw [op] at none
    cases none

/-- The words of an instruction whose commands reach only bytes of a set. -/
theorem encoded_stays {g : Generation} {f : Emission.Frame} {inside : Nat → Prop} {j : Instruction} {piece : List Word}
    (other : j.op ≠ .jump) (made : Branches.encoded g f j = .ok piece)
    (stay : ∀ issues, Emission.instruction f j = .ok issues → ∀ i ∈ issues, Stays inside i) :
    ∀ w ∈ piece, StaysIn g inside w := by
  by_cases label : j.op = .label
  · simp only [Branches.encoded, label, Except.ok.injEq] at made
    subst made
    exact fun w none => absurd none List.not_mem_nil
  · obtain ⟨issues, pieces, emitted, assembled, rfl⟩ := Products.encoded_ok label other made
    have stays := stay issues emitted
    intro w member
    obtain ⟨words, listed, inside_⟩ := List.mem_flatten.mp member
    obtain ⟨n, small, rfl⟩ := List.getElem_of_mem listed
    obtain ⟨length, each⟩ := List.forall₂_iff_get.mp (mapM_forall assembled)
    have stay := stays issues[n] (List.getElem_mem (length ▸ small))
    exact (assemble_stays stay.state stay.encodable (each n (length ▸ small) small) w inside_).mono stay.reached

end GpuCodegen.Footprints
