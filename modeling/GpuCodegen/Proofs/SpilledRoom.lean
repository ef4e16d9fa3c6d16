import GpuCodegen.Proofs.DestinationRoom
import GpuCodegen.Proofs.PinnedExclusive
import GpuCodegen.Proofs.RegistersAccounted
import GpuCodegen.Proofs.SlotAlignment
import GpuCodegen.Proofs.WindowSizes

/-! Room under spill code. The first sweep refuses what is longer than the register file, and what it spills has
temporaries of that size: they are pinned where general registers of the file start, reloads fill them, and an
instruction on them writes what it wrote before. So every kernel on the way to an allocation has room for what its
instructions write, and no sum of its sweeps wraps. -/

namespace GpuCodegen.Footprints
open Native Outcome SpillGroups Products Placement LiveIntervals

/-- The bytes of an operand's register are no more than the register file has. -/
def Small (width : Int) (x : RegisterOperand) : Prop := partBytes x width * x.spans ≤ 4096

/-- An instruction on registers of the file. A message to scratch memory, which is a header and data, fits what the
file has from that header on. -/
structure Allotted (simd : Int) (header : Nat) (j : Instruction) : Prop extends Roomy simd j where
  small : ∀ x ∈ j.registers, Small (j.width simd) x
  message : j.op = .spill → header + 32 + 32 * (j.src.getD 0 default).spans.toNat ≤ 4096

/-- A kernel of such instructions, with pins of spill code only: on the general registers of the file. -/
structure Settled (simd : Int) (header : Nat) (k : Kernel) : Prop where
  allotted : ∀ j ∈ k.code, Allotted simd header j
  width : k.simdWidth = simd
  pins : ∀ r offset, k.pin? r = some offset → offset.toNat % 32 = 0 ∧ offset.toNat ≤ 4096

/-! ## Renamed instructions -/

theorem rename_register (x : RegisterOperand) (f : VReg → VReg) :
    ∃ r, (Operand.register x).rename f = .register { x with reg := r } := by
  simp only [Operand.rename]
  split
  · exact ⟨x.reg, rfl⟩
  · exact ⟨_, rfl⟩

theorem register_of_rename {o : Operand} {f : VReg → VReg} {y : RegisterOperand}
    (named : (o.rename f).register? = some y) : ∃ x r, o.register? = some x ∧ y = { x with reg := r } := by
  cases old : o.register? with
  | none =>
    rw [rename_unnamed old, old] at named
    cases named
  | some x =>
    rw [register_of_named old] at named
    obtain ⟨r, same⟩ := rename_register x f
    rw [same] at named
    cases register_of_named named
    exact ⟨x, r, rfl, rfl⟩

theorem workspace_renamed (f : VReg → VReg) (j : Instruction) :
    workspace (renamed f j) = (workspace j).map fun o => o.rename f := by
  unfold workspace renamed
  dsimp only
  split <;> simp only [List.map_drop, List.map_take, List.map_nil]

section
variable {simd : Int} {header : Nat} {j : Instruction} {x : RegisterOperand}

/-- What an instruction writes does not depend on where its registers are. -/
theorem Shaped.renamed (shaped : Shaped simd j x) (f : VReg → VReg) (r : VReg) :
    Shaped simd (renamed f j) { x with reg := r } := by
  have qwords {y : RegisterOperand} (wide : QwordLanes (j.width simd) y) (q : VReg) :
      QwordLanes (j.width simd) { y with reg := q } := ⟨wide.1, wide.2⟩
  cases shaped with
  | lanes op lone few => exact .lanes op lone few
  | response op fits => exact .response op fits
  | barrier y op width fits rest src fits' =>
    obtain ⟨q, same⟩ := rename_register y f
    refine .barrier { y with reg := q } op width fits (rest.map fun o => o.rename f) ?_ fits'
    change j.src.map _ = _
    rw [src, List.map_cons, same]
  | low l l' t op few src lanes =>
    obtain ⟨q, same⟩ := rename_register l f
    obtain ⟨q', same'⟩ := rename_register l' f
    obtain ⟨p, temp⟩ := rename_register t f
    simp only [List.forall_mem_cons, List.not_mem_nil, false_implies, implies_true, and_true] at lanes
    refine .low { l with reg := q } { l' with reg := q' } { t with reg := p } op few ?_ ?_
    · change j.src.map _ = _
      simp only [src, List.map_cons, List.map_nil, same, same', temp]
    · simp only [List.forall_mem_cons, List.not_mem_nil, false_implies, implies_true, and_true]
      exact ⟨qwords lanes.1 r, qwords lanes.2 p⟩
  | high l l' t t' t'' op few src lanes =>
    obtain ⟨q, same⟩ := rename_register l f
    obtain ⟨q', same'⟩ := rename_register l' f
    obtain ⟨p, temp⟩ := rename_register t f
    obtain ⟨p', temp'⟩ := rename_register t' f
    obtain ⟨p'', temp''⟩ := rename_register t'' f
    simp only [List.forall_mem_cons, List.not_mem_nil, false_implies, implies_true, and_true] at lanes
    refine .high { l with reg := q } { l' with reg := q' } { t with reg := p } { t' with reg := p' }
      { t'' with reg := p'' } op few ?_ ?_
    · change j.src.map _ = _
      simp only [src, List.map_cons, List.map_nil, same, same', temp, temp', temp'']
    · simp only [List.forall_mem_cons, List.not_mem_nil, false_implies, implies_true, and_true]
      exact ⟨qwords lanes.1 r, qwords lanes.2.1 p, qwords lanes.2.2.1 p', qwords lanes.2.2.2 p''⟩
  | motion y rest registers op fits src count some_ fits' =>
    obtain ⟨q, same⟩ := rename_register y f
    refine .motion { y with reg := q } (rest.map fun o => o.rename f) registers op fits ?_ ?_ some_ fits'
    · change j.src.map _ = _
      rw [src, List.map_cons, same]
    · rw [List.length_map]
      exact count
  | stack t l op src shape =>
    obtain ⟨p, temp⟩ := rename_register t f
    obtain ⟨q, lane⟩ := rename_register l f
    refine .stack { t with reg := p } { l with reg := q } op ?_
      ⟨shape.lanes, shape.vector, shape.type, ⟨shape.scalar.1, shape.scalar.2⟩, ⟨shape.lane.1, shape.lane.2⟩⟩
    change j.src.map _ = _
    simp only [src, List.map_cons, List.map_nil, temp, lane]
  | reload op width fits => exact .reload op width fits

theorem spans_rename (o : Operand) (f : VReg → VReg) : (o.rename f).spans = o.spans := by
  cases o with
  | register x =>
    obtain ⟨r, same⟩ := rename_register x f
    rw [same]
    rfl
  | absent t => rfl
  | immediate t bits negate absolute => rfl

theorem Allotted.renamed (allotted : Allotted simd header j) (f : VReg → VReg) :
    Allotted simd header (renamed f j) := by
  refine ⟨⟨fun writes y named => ?_, fun y member => ?_⟩, fun y member => ?_, fun spill => ?_⟩
  · obtain ⟨x, r, old, rfl⟩ := register_of_rename named
    exact ⟨(allotted.shaped writes x old).1, (allotted.shaped writes x old).2.renamed f r⟩
  · rw [workspace_renamed] at member
    obtain ⟨o, listed, same⟩ := List.mem_map.mp member
    cases o with
    | register x =>
      obtain ⟨r, renamed⟩ := rename_register x f
      rw [renamed] at same
      cases same
      exact allotted.work x listed
    | absent t => cases same
    | immediate t bits negate absolute => cases same
  · have old : ∃ x r, x ∈ j.registers ∧ y = { x with reg := r } := by
      rcases mem_registers.mp member with named | ⟨o, source, named⟩
      · obtain ⟨x, r, old, same⟩ := register_of_rename named
        exact ⟨x, r, mem_registers.mpr (.inl old), same⟩
      · obtain ⟨o', source', rfl⟩ := List.mem_map.mp source
        obtain ⟨x, r, old, same⟩ := register_of_rename named
        exact ⟨x, r, mem_registers.mpr (.inr ⟨o', source', old⟩), same⟩
    obtain ⟨x, r, listed, rfl⟩ := old
    exact allotted.small x listed
  · have fits := allotted.message spill
    change header + 32 + 32 * ((j.src.map fun o : Operand => o.rename f).getD 0 default).spans.toNat ≤ 4096
    rw [List.getD_eq_getElem?_getD, List.getElem?_map]
    rw [List.getD_eq_getElem?_getD] at fits
    cases first : j.src[0]? with
    | none =>
      rw [first] at fits
      exact fits
    | some o =>
      rw [first] at fits
      change header + 32 + 32 * (o.rename f).spans.toNat ≤ 4096
      rw [spans_rename]
      exact fits

/-! ## Sizes -/

theorem width_nonneg (positive : 0 < simd) (j : Instruction) : 0 ≤ j.width simd := by
  unfold Instruction.width
  split <;> omega

theorem spans_pos (x : RegisterOperand) : 0 < x.spans := by
  unfold RegisterOperand.spans
  split <;> omega

theorem bytes_nonneg {width : Int} (nonneg : 0 ≤ width) (x : RegisterOperand) : 0 ≤ partBytes x width * x.spans :=
  Int.mul_nonneg (partBytes_nonneg x nonneg) (Int.le_of_lt (spans_pos x))

/-- The storage of a register is what an operand describes, as long as that is counted. -/
theorem Counted.storage {width : Int} (counted : Counted width x) (nonneg : 0 ≤ width) :
    ((x.storage width).toNat : Int) = partBytes x width * x.spans := by
  have low := bytes_nonneg nonneg x
  have high : partBytes x width * x.spans ≤ 4294967264 := counted
  have bytes : x.bytes width = partBytes x width * x.spans := by
    change wrap64 (partBytes x width * x.spans) = _
    unfold wrap64
    rw [Int.bmod_eq_of_le (by omega) (by omega)]
  have count : (x.storage width).toNat = (partBytes x width * x.spans).toNat := by
    unfold RegisterOperand.storage
    rw [bytes, toNat_ofInt low (by omega)]
  omega

theorem Small.storage {width : Int} (small : Small width x) (nonneg : 0 ≤ width) :
    ((x.storage width).toNat : Int) = partBytes x width * x.spans ∧ (x.storage width).toNat ≤ 4096 := by
  have few : partBytes x width * x.spans ≤ 4096 := small
  have counted : Counted width x := Int.le_trans few (by decide)
  have bytes := counted.storage nonneg
  omega

section
variable {k : Kernel} {r : VReg} {iv : Interval}

theorem Settled.interval (settled : Settled simd header k) (positive : 0 < simd)
    (found : (Liveness.ofKernel k).intervalOf? r = some iv) : iv.size.toNat ≤ 4096 := by
  obtain ⟨a, access, -, size⟩ := (LivePaths.intervalOf_spec found).1.attained
  obtain ⟨here, named⟩ := mem_accesses.mp access
  have small := (settled.allotted _ (List.mem_of_getElem? here)).small _ named
  rw [size, Kernel.widthOf, settled.width]
  exact (small.storage (width_nonneg positive _)).2

theorem slot_most {size : UInt32} (most : size.toNat ≤ 4096) : (slotSize size).toNat ≤ 4096 := by
  have aligned : (alignUp size 32).toNat ≤ 4096 := by
    have above := (FreePool.alignUp_bounds (show 0 < (32 : UInt32).toNat by decide)
      (show size.toNat + 32 < 4294967296 by omega)).2.1
    change (alignUp size 32).toNat < size.toNat + 32 at above
    have grains := alignUp_grains size
    omega
  unfold slotSize
  split_ifs <;> first | exact aligned | decide

/-- The size of a temporary: some general registers, at most the file. -/
def Fitting (size : UInt32) : Prop := size.toNat % 32 = 0 ∧ 32 ≤ size.toNat ∧ size.toNat ≤ 4096

theorem Settled.tempSize (settled : Settled simd header k) (positive : 0 < simd) (plan : SpillPlan)
    (known : plan.liveness = Liveness.ofKernel k) (r : VReg) : Fitting (tempSize plan r) := by
  unfold SpillGroups.tempSize
  rw [known]
  cases found : (Liveness.ofKernel k).intervalOf? r with
  | none => exact ⟨rfl, Nat.le_refl 32, by decide⟩
  | some iv =>
    have most := slot_most (settled.interval positive found)
    obtain ⟨bytes, grains⟩ := scratchBytes_grains iv
    change (slotSize iv.size).toNat ≤ _ at most
    change _ = max (slotSize iv.size).toNat 32 at bytes
    exact ⟨grains, by change 32 ≤ (Sweep.scratchBytes iv).toNat; omega,
      by change (Sweep.scratchBytes iv).toNat ≤ _; omega⟩

end

/-! ## Messages -/

/-- Messages move all of a temporary, part by part. -/
theorem payload_parts {t : SpillTemp} (fits : Fitting t.size) :
    partBytes (payloadOf t) 8 = 32 ∧ 32 * (payloadOf t).spans = t.size.toNat := by
  obtain ⟨grains, positive, -⟩ := fits
  refine ⟨rfl, ?_⟩
  have parts : (t.size / 32).toNat = t.size.toNat / 32 := by
    rw [UInt32.toNat_div]
    rfl
  unfold RegisterOperand.spans payloadOf
  dsimp only
  rw [parts, if_neg (by omega)]
  omega

theorem payload_small {t : SpillTemp} (fits : Fitting t.size) : Small 8 (payloadOf t) := by
  obtain ⟨bytes, whole⟩ := payload_parts fits
  obtain ⟨-, -, most⟩ := fits
  unfold Small
  rw [bytes]
  omega

theorem reload_allotted {t : SpillTemp} (fits : Fitting t.size) (block : Int) :
    Allotted simd header (t.reloadInstruction block) := by
  refine ⟨⟨fun _ x named => ?_, fun y none => absurd none List.not_mem_nil⟩, fun x member => ?_, nofun⟩
  · cases register_of_named named
    refine ⟨hasPart_whole rfl, .reload rfl rfl ?_⟩
    change 32 * (payloadOf t).spans ≤ partBytes (payloadOf t) 8 * ((payloadOf t).spans - 0)
    rw [(payload_parts fits).1]
    omega
  · rcases mem_registers.mp member with named | ⟨o, none, -⟩
    · cases register_of_named named
      exact payload_small fits
    · cases none

theorem store_message_allotted {t : SpillTemp} (fits : Fitting t.size) (short : header + 32 + t.size.toNat ≤ 4096)
    (block : Int) : Allotted simd header (t.spillInstruction block) := by
  refine ⟨⟨fun _ x none => ?_, fun y none => absurd none List.not_mem_nil⟩, fun x member => ?_, fun _ => ?_⟩
  · cases none
  · rcases mem_registers.mp member with none | ⟨o, source, named⟩
    · cases none
    · cases List.mem_singleton.mp source
      cases register_of_named named
      exact payload_small fits
  · have whole := (payload_parts fits).2
    change header + 32 + 32 * (payloadOf t).spans.toNat ≤ 4096
    omega

/-- The spill code around an instruction. -/
theorem withSpillCode_allotted (allotted : Allotted simd header j) {s : TempState}
    (temps : ∀ t ∈ s.temps, Fitting t.size ∧ header + 32 + t.size.toNat ≤ 4096) :
    ∀ i ∈ Kernel.withSpillCode j s, Allotted simd header i := by
  intro i member
  rcases List.mem_append.mp member with early | stored
  · rcases List.mem_append.mp early with reloaded | main
    · obtain ⟨t, listed, rfl⟩ := List.mem_map.mp reloaded
      exact reload_allotted (temps t (List.mem_filter.mp listed).1).1 j.block
    · cases List.mem_singleton.mp main
      exact allotted.renamed s.rename
  · obtain ⟨t, listed, rfl⟩ := List.mem_map.mp stored
    obtain ⟨fits, short⟩ := temps t (List.mem_filter.mp listed).1
    exact store_message_allotted fits short j.block

/-! ## Temporaries -/

/-- What spill code insertion is given: sizes of temporaries, and a reserve in the file that begins with a header. -/
structure Ample (header : Nat) (plan : SpillPlan) : Prop where
  sizes : ∀ r, Fitting (tempSize plan r)
  limit : plan.reserve.limit.toNat ≤ 4096
  data : plan.reserve.data.toNat % 32 = 0 ∧ plan.reserve.data.toNat ≤ 4160
  start : header + 32 ≤ plan.reserve.data.toNat

/-- Temporaries while they are handed out. The cursor may be behind the reserve, but far from the last address. -/
structure Handing (simd : Int) (header : Nat) (plan : SpillPlan) (s : TempState) : Prop where
  out : Settled simd header s.out
  cursor : s.cursor.toNat % 32 = 0 ∧ s.cursor.toNat ≤ 8288
  start : plan.reserve.data.toNat ≤ s.cursor.toNat
  temps : ∀ t ∈ s.temps, Fitting t.size ∧ header + 32 + t.size.toNat ≤ 4096

section
variable {k : Kernel} {plan : SpillPlan} {position : Nat} {s s' : TempState} {r : VReg} {reload store : Bool}
  {o : Operand}

theorem Handing.add (ample : Ample header plan) (handing : Handing simd header plan s)
    (made : TempState.newTemp plan position s r reload store = .ok s') : Handing simd header plan s' := by
  obtain ⟨fits, rfl⟩ := newTemp_made made
  obtain ⟨grains, some_, most⟩ := ample.sizes r
  obtain ⟨row, low⟩ := handing.cursor
  have limit := ample.limit
  have start := handing.start
  have after := ample.start
  have sum : (s.cursor + SpillGroups.tempSize plan r).toNat = s.cursor.toNat + (SpillGroups.tempSize plan r).toNat := by
    rw [UInt32.toNat_add]
    omega
  have fits := UInt32.le_iff_toNat_le.mp fits
  rw [sum] at fits
  refine ⟨⟨handing.out.allotted, handing.out.width, fun q offset pinned => ?_⟩, ?_, ?_, fun t member => ?_⟩
  · rw [pin_allocRegister] at pinned
    split at pinned
    · cases pinned
      omega
    · exact handing.out.pins q offset pinned
  · change (s.cursor + SpillGroups.tempSize plan r).toNat % 32 = 0 ∧ (s.cursor + SpillGroups.tempSize plan r).toNat ≤ _
    omega
  · change _ ≤ (s.cursor + SpillGroups.tempSize plan r).toNat
    omega
  · rcases List.mem_append.mp member with old | new
    · exact handing.temps t old
    · cases List.mem_singleton.mp new
      refine ⟨ample.sizes r, ?_⟩
      change header + 32 + (SpillGroups.tempSize plan r).toNat ≤ 4096
      omega

theorem Handing.source (ample : Ample header plan) (handing : Handing simd header plan s)
    (made : TempState.source plan position s o = .ok s') : Handing simd header plan s' := by
  rcases source_made made with ⟨rfl, -⟩ | ⟨x, -, -, ⟨-, rfl⟩ | ⟨-, made⟩⟩
  · exact handing
  · refine ⟨handing.out, handing.cursor, handing.start, fun t member => ?_⟩
    obtain ⟨u, old, rfl⟩ := List.mem_map.mp member
    rw [mark_size]
    exact handing.temps u old
  · exact handing.add ample made

/-- Where the next temporary may lie because of operands that are pinned already. -/
theorem reserveInUse_low (settled : Settled simd header k) (positive : 0 < simd) (ample : Ample header plan)
    (allotted : Allotted simd header j) :
    (k.reserveInUse j plan.reserve).toNat % 32 = 0 ∧ (k.reserveInUse j plan.reserve).toNat ≤ 8288 := by
  unfold Kernel.reserveInUse
  dsimp only
  generalize used : List.foldl _ plan.reserve.data j.registers = top
  have stop : top.toNat ≤ 8256 := by
    rw [← used]
    refine List.foldlRecOn j.registers _ (motive := fun stop : UInt32 => stop.toNat ≤ 8256) ?_
      fun stop small x member => ?_
    · have data := ample.data
      omega
    · split
      · rename_i offset pinned
        split
        · have low := (settled.pins _ _ pinned).2
          have few := ((allotted.small x member).storage (width_nonneg positive j)).2
          rw [Kernel.widthOf, settled.width]
          change
            (if stop ≤ offset + x.storage (j.width simd) then offset + x.storage (j.width simd) else stop).toNat ≤ _
          split
          · rw [UInt32.toNat_add]
            omega
          · exact small
        · exact small
      · exact small
  refine ⟨alignUp_grains _, ?_⟩
  have above := (FreePool.alignUp_bounds (show 0 < (32 : UInt32).toNat by decide)
    (show _ + 32 < 4294967296 from Nat.lt_of_le_of_lt (Nat.add_le_add_right stop 32) (by decide))).2.1
  exact Nat.le_of_lt (Nat.lt_of_lt_of_le above (Nat.add_le_add_right stop 32))

theorem spillTemps_handing {out : Kernel} (settled : Settled simd header k) (positive : 0 < simd)
    (ample : Ample header plan) (allotted : Allotted simd header j) (start : Settled simd header out)
    (made : k.spillTemps plan position j out = .ok s) : Handing simd header plan s := by
  simp only [Kernel.spillTemps, bind_ok] at made
  obtain ⟨t, first, ran⟩ := made
  have empty : Handing simd header plan { out := out, cursor := plan.reserve.data } := by
    have data := ample.data
    exact ⟨start, ⟨data.1, by change plan.reserve.data.toNat ≤ _; omega⟩, Nat.le_refl _, by rintro _ ⟨⟩⟩
  have handed : Handing simd header plan t := by
    unfold Kernel.spilledDestination at first
    split at first
    · cases first
      exact empty
    · split at first
      · split at first
        · cases first
        · exact empty.add ample first
      · cases first
        exact empty
  refine foldlM_keeps (fun o _ u u' handing made => handing.source ample made) ?_ ran
  have later : max t.cursor (k.reserveInUse j plan.reserve) =
      if t.cursor ≤ k.reserveInUse j plan.reserve then k.reserveInUse j plan.reserve else t.cursor := rfl
  refine ⟨handed.out, ?_, ?_, handed.temps⟩
  · dsimp only
    rw [later]
    split
    · exact reserveInUse_low settled positive ample allotted
    · exact handed.cursor
  · dsimp only
    rw [later]
    split
    · rename_i below
      exact handed.start.trans (UInt32.le_iff_toNat_le.mp below)
    · exact handed.start

end

/-! ## Kernels -/

section
variable {k k' : Kernel}

theorem Settled.emit {j : Instruction} (settled : Settled simd header k) (allotted : Allotted simd header j) :
    Settled simd header (k.emit j) := by
  refine ⟨fun i member => ?_, settled.width, settled.pins⟩
  rcases List.mem_append.mp member with before | here
  · exact settled.allotted i before
  · cases List.mem_singleton.mp here
    exact allotted

theorem Settled.emitAll (settled : Settled simd header k) {is : List Instruction}
    (allotted : ∀ i ∈ is, Allotted simd header i) : Settled simd header (k.emitAll is) := by
  induction is generalizing k with
  | nil => exact settled
  | cons i rest ih =>
    rw [List.forall_mem_cons] at allotted
    exact ih (settled.emit allotted.1) allotted.2

theorem Settled.inserted (settled : Settled simd header k) (positive : 0 < simd) {plan : SpillPlan}
    (ample : Ample header plan) (inserted : k.insertSpillCode plan = .ok k') : Settled simd header k' := by
  unfold Kernel.insertSpillCode at inserted
  dsimp only at inserted
  refine foldlM_keeps (fun entry member out out' start made => ?_) ?_ inserted
  · have allotted := settled.allotted _ (List.fst_mem_of_mem_zipIdx member)
    simp only [Kernel.spillStep, bind_ok, pure_ok] at made
    obtain ⟨s, temps, rfl⟩ := made
    have handing := spillTemps_handing settled positive ample allotted start temps
    exact handing.out.emitAll (withSpillCode_allotted allotted handing.temps)
  · have empty : Settled simd header k.cloneEmpty := ⟨by simp [Kernel.cloneEmpty], settled.width, settled.pins⟩
    split
    · exact ⟨empty.allotted, empty.width, empty.pins⟩
    · exact empty

/-- The register file of every generation. -/
structure Filed (cfg : SweepConfig) : Prop where
  file : cfg.fileSize = 4096
  low : cfg.reservedLow = 32

/-- A sweep that ran left room for registers below its reserve, so the reserve starts in the file, or just behind it. -/
theorem Filed.window {cfg : SweepConfig} (filed : Filed cfg) {lv : Liveness} {reserve scratch : UInt32} {s : Sweep}
    (swept : Sweep.run k lv cfg reserve scratch = .ok s) : (cfg.fileSize - reserve).toNat ≤ 4128 := by
  unfold Sweep.run at swept
  split at swept
  · cases swept
  · rename_i free
    rw [filed.file, filed.low, UInt32.le_iff_toNat_le, UInt32.toNat_add] at free
    rw [filed.file, UInt32.toNat_sub]
    change ¬ 4096 ≤ (32 + reserve.toNat) % 4294967296 at free
    change (4294967296 - reserve.toNat + 4096) % 4294967296 ≤ 4128
    have small : reserve.toNat < 4294967296 := reserve.toNat_lt
    omega

/-- The reserve of a kernel takes whole general registers up to the end of the file. -/
theorem Filed.reserve {cfg : SweepConfig} (filed : Filed cfg) (lv : Liveness) :
    ∃ size : UInt32, Allocation.reserveFor cfg lv = ⟨cfg.fileSize - size, size⟩ ∧
      (cfg.fileSize - size).toNat % 32 = 0 := by
  refine ⟨_, rfl, ?_⟩
  have grains := alignUp_grains (32 + UInt32.ofNat lv.maxOperands * lv.maxRegSize)
  rw [filed.file, UInt32.toNat_sub]
  change
    (4294967296 - (alignUp (32 + UInt32.ofNat lv.maxOperands * lv.maxRegSize) 32).toNat + 4096) % 4294967296 % 32 = 0
  have small := (alignUp (32 + UInt32.ofNat lv.maxOperands * lv.maxRegSize) 32).toNat_lt
  omega

/-- Slots are as long as their registers, up to the last size that is a 32-bit number when it is rounded up. -/
theorem size_le_slot {size : UInt32} (counted : size.toNat ≤ 4294967264) : size.toNat ≤ (slotSize size).toNat := by
  rcases Nat.lt_or_eq_of_le counted with less | last
  · exact size_le_slotSize (by omega)
  · have same : size = 4294967264 := UInt32.toNat_inj.mp last
    rw [same]
    decide

/-- A selected kernel whose first sweep ends has no register that is longer than the file. -/
theorem Selected.small {cfg : SweepConfig} (selected : Selected simd k) (filed : Filed cfg) (positive : 0 < simd)
    {scratch : UInt32} {s : Sweep} (swept : Sweep.run k (Liveness.ofKernel k) cfg 0 scratch = .ok s) {j : Instruction}
    (here : j ∈ k.code) {x : RegisterOperand} (member : x ∈ j.registers) : Small (j.width simd) x := by
  obtain ⟨n, at_⟩ := List.mem_iff_getElem?.mp here
  have access : ⟨n, j, x⟩ ∈ accesses k := mem_accesses.mpr ⟨at_, member⟩
  obtain ⟨m, live, reg, -⟩ := StraightLine.live_of_access access
  have interval := live.intervalOf
  rw [reg] at interval
  have fits := UInt32.le_iff_toNat_le.mp (run_fits swept interval (selected.unpinned x.reg))
  rw [filed.file, filed.low] at fits
  change (span k m).slot.toNat ≤ 4064 at fits
  have covers := (LivePaths.intervalOf_spec interval).1
  have counted : (span k m).size.toNat ≤ 4294967264 := by
    obtain ⟨a, access, -, size⟩ := covers.attained
    obtain ⟨there, named⟩ := mem_accesses.mp access
    have counted := (selected.sound _ (List.mem_of_getElem? there)).counted _ named
    have most : partBytes a.operand (a.instruction.width simd) * a.operand.spans ≤ 4294967264 := counted
    have storage := counted.storage (width_nonneg positive _)
    rw [size, Kernel.widthOf, selected.width]
    omega
  have bytes := ((selected.sound j here).counted x member).storage (width_nonneg positive j)
  have size := UInt32.le_iff_toNat_le.mp (covers.size _ access rfl)
  change (x.storage (k.widthOf j)).toNat ≤ _ at size
  rw [Kernel.widthOf, selected.width] at size
  have slot : (span k m).size.toNat ≤ (span k m).slot.toNat := size_le_slot counted
  unfold Small
  omega

/-- Every kernel on the way from a selected one to its allocation. -/
theorem ofKernel_settled {cfg : SweepConfig} (filed : Filed cfg) (positive : 0 < simd) (selected : Selected simd k)
    {r : Allocation × List AllocationEvent} (allocated : Allocation.ofKernel k cfg = .ok r) :
    Settled simd (Allocation.reserveFor cfg (Liveness.ofKernel k)).header.toNat r.1.kernel := by
  obtain ⟨s, swept, -⟩ := Allocation.ofKernel_cases allocated
  have start : Settled simd (Allocation.reserveFor cfg (Liveness.ofKernel k)).header.toNat k := by
    refine ⟨fun j here => ?_, selected.width, fun r offset pinned => ?_⟩
    · have sound := selected.sound j here
      exact ⟨sound.toRoomy, fun x member => selected.small filed positive swept here member,
        fun spill => absurd spill sound.other⟩
    · cases (selected.unpinned r).symm.trans pinned
  obtain ⟨size, reserve, row⟩ := filed.reserve (Liveness.ofKernel k)
  refine Branches.ofKernel_keeps (fun k₁ k₂ scratch s swept inserted settled => ?_) start allocated
  rw [reserve] at swept inserted
  have window : (cfg.fileSize - size).toNat ≤ 4128 := filed.window swept
  have data : (cfg.fileSize - size + 32).toNat = (cfg.fileSize - size).toNat + 32 := by
    rw [UInt32.toNat_add]
    change (_ + 32) % 4294967296 = _
    omega
  refine settled.inserted positive ⟨settled.tempSize positive _ rfl, ?_, ?_, ?_⟩ inserted
  · change (cfg.fileSize - size + size).toNat ≤ 4096
    rw [UInt32.sub_add_cancel, filed.file]
    decide
  · change (cfg.fileSize - size + 32).toNat % 32 = 0 ∧ (cfg.fileSize - size + 32).toNat ≤ 4160
    omega
  · rw [reserve]
    exact Nat.le_of_eq data.symm

/-- The header of an allocation that spills is that of its reserve, a general register. -/
theorem ofKernel_headerRow {cfg : SweepConfig} (filed : Filed cfg) {r : Allocation × List AllocationEvent}
    (allocated : Allocation.ofKernel k cfg = .ok r) (spills : r.1.hasSpills = true) :
    r.1.header.toNat = (Allocation.reserveFor cfg (Liveness.ofKernel k)).header.toNat ∧ r.1.header.toNat % 32 = 0 := by
  obtain ⟨size, reserve, row⟩ := filed.reserve (Liveness.ofKernel k)
  rcases ofKernel_header allocated with none | same
  · rw [Allocation.hasSpills, none] at spills
    cases spills
  · rw [same, reserve]
    exact ⟨rfl, row⟩

/-- No sum of a sweep wraps. -/
theorem Settled.sumsFit (settled : Settled simd header k) (positive : 0 < simd) {cfg : SweepConfig} (filed : Filed cfg)
    {reserve scratch : UInt32} {s : Sweep}
    (swept : Sweep.run k (Liveness.ofKernel k) cfg reserve scratch = .ok s) : SumsFit k cfg reserve := by
  have window := filed.window swept
  have sizes {r : VReg} {iv : Interval} (found : (Liveness.ofKernel k).intervalOf? r = some iv) :
      iv.size.toNat ≤ 4096 ∧ iv.slot.toNat ≤ 4096 := by
    have most := settled.interval positive found
    exact ⟨most, slot_most most⟩
  refine ⟨fun r iv found => ?_, fun r iv found => ?_, fun r iv offset found pinned => ?_⟩
  · have most := (sizes found).1
    omega
  · have most := (sizes found).2
    omega
  · have most := (sizes found).2
    have low := (settled.pins r offset pinned).2
    omega

theorem Settled.pinsOnRows (settled : Settled simd header k) : PinsOnRows k := fun r offset pinned =>
  (settled.pins r offset pinned).1

end

end

end GpuCodegen.Footprints
