import GpuCodegen.Proofs.ProgramListings
import GpuCodegen.Proofs.SpilledRoom

/-! Instructions write what is theirs. In a compiled program the words of an instruction with a destination reach the
slot of that register, the slots of the temporaries that selection gave the instruction and, where it is a reload, the
scratch header: if the destinations of the kernel have room for what is written. Writing a spilled destination back
stays in the bytes that are reserved for spill code. All other bytes are what they were before the words ran. -/

namespace GpuCodegen.Footprints
open Native Outcome Placement LiveIntervals SpillGroups Generation WordRoundTrip

/-- The bytes of the slot that an allocation gave a register. -/
def InSlot (a : Allocation) (r : VReg) (b : Nat) : Prop :=
  ∃ offset iv, a.offsets.lookup? r = some offset ∧ (Liveness.ofKernel a.kernel).intervalOf? r = some iv ∧
    offset.toNat ≤ b ∧ b < offset.toNat + iv.slot.toNat

/-- The end of the register file, which an allocation with spills reserves: the scratch header, then temporaries. -/
def InReserve (a : Allocation) (b : Nat) : Prop := a.header.toNat ≤ b ∧ b < 4096

/-- The bytes that belong to an instruction. The destination of a reload is the temporary of a spilled register. -/
inductive Owned (a : Allocation) (j : Instruction) (b : Nat) : Prop where
  | destination {x : RegisterOperand} (named : j.dst.register? = some x) (inside : InSlot a x.reg b)
  | temporary {y : RegisterOperand} (member : .register y ∈ workspace j) (inside : InSlot a y.reg b)
  | header (op : j.op = .reload) (inside : HeaderRow a b)
  | reserve (op : j.op = .spill) (inside : InReserve a b)

/-- Words that write only what belongs to an instruction. Running them leaves every other byte as it was. -/
structure WriteOnlyOwned (g : Generation) (a : Allocation) (j : Instruction) (words : List Word) : Prop where
  written : ∀ w ∈ words, ∃ d, g.layout.decode w = .ok d ∧ ∀ b, Written d b → Owned a j b
  kept : ∀ m m' : Machine, m.run g.layout words = some m' → ∀ b, ¬ Owned a j b → m'.registers b = m.registers b

/-- The words of an instruction with a destination, and of one that writes a spilled destination back, write only what
belongs to it. -/
def WritesOwn (g : Generation) (a : Allocation) (j : Instruction) (words : List Word) : Prop :=
  (∃ x, j.dst.register? = some x) ∨ j.op = .spill → WriteOnlyOwned g a j words

theorem writeOnlyOwned_of_stays {g : Generation} {a : Allocation} {j : Instruction} {words : List Word}
    (stays : ∀ w ∈ words, StaysIn g (Owned a j) w) : WriteOnlyOwned g a j words := by
  refine ⟨fun w member => ?_, fun m m' ran b outside => run_outside ran fun w member d decoded written => ?_⟩
  · obtain ⟨d, decoded, written, -⟩ := stays w member
    exact ⟨d, decoded, written⟩
  · obtain ⟨d', decoded', inside, -⟩ := stays w member
    cases decoded.symm.trans decoded'
    exact outside (inside b written)

theorem mem_workspace {j : Instruction} {o : Operand} (member : o ∈ workspace j) : o ∈ j.src := by
  unfold workspace at member
  split at member
  · exact List.mem_of_mem_drop member
  · exact List.mem_of_mem_drop member
  · exact List.mem_of_mem_take member
  · exact List.mem_of_mem_take member
  · exact member
  · cases member

section
variable {simd : Int} {header : Nat} {a : Allocation} {cfg : SweepConfig} {reserve scratch : UInt32} {s : Sweep}

/-- An operand that is placed covers bytes of its register's slot. -/
theorem holds_slot (settled : Settled simd header a.kernel) (positive : 0 < simd) (filed : Filed cfg)
    (swept : Sweep.run a.kernel (Liveness.ofKernel a.kernel) cfg reserve scratch = .ok s)
    (offsets : a.offsets = s.offsets) {n : Nat} {j : Instruction} (here : a.kernel.code[n]? = some j)
    {x : RegisterOperand} (listed : .register x ∈ j.dst :: j.src) (part : HasPart x) {inside : Nat → Prop}
    (within : ∀ b, InSlot a x.reg b → inside b) : Holds a inside (j.width simd) x := by
  intro offset found
  have sums := settled.sumsFit positive filed swept
  have placed := found
  rw [offsets] at placed
  obtain ⟨iv, interval, ends, row⟩ := run_slots sums settled.pinsOnRows swept placed
  have covers := (LivePaths.intervalOf_spec interval).1
  -- A register in use is a proper one, so that the operand is one of the instruction's registers.
  have real : x.reg ≠ .none := by
    obtain ⟨w, access, same⟩ := covers.used
    obtain ⟨-, operand⟩ := mem_accesses.mp access
    rw [← same]
    rcases mem_registers.mp operand with named | ⟨o, -, named⟩ <;> exact register_real named
  have member : x ∈ j.registers := by
    have named : (Operand.register x).register? = some x := if_neg real
    rcases List.mem_cons.mp listed with dst | src
    · exact mem_registers.mpr (.inl (dst ▸ named))
    · exact mem_registers.mpr (.inr ⟨_, src, named⟩)
  have nonneg := width_nonneg positive j
  obtain ⟨bytes, -⟩ := ((settled.allotted j (List.mem_of_getElem? here)).small x member).storage nonneg
  have least : (x.storage (j.width simd)).toNat ≤ iv.slot.toNat := by
    have size := UInt32.le_iff_toNat_le.mp (covers.size ⟨n, j, x⟩ (mem_accesses.mpr ⟨here, member⟩) rfl)
    rw [Kernel.widthOf, settled.width] at size
    exact size.trans (size_le_slotSize (sums.slot _ _ interval))
  refine ⟨found, part, by omega, fun large => row (by omega), fun b low high => within b ?_⟩
  exact ⟨offset, iv, found, interval, low, by omega⟩

/-- The words of an instruction with a destination. -/
theorem destination_stays (settled : Settled simd header a.kernel) (positive : 0 < simd) (filed : Filed cfg)
    (swept : Sweep.run a.kernel (Liveness.ofKernel a.kernel) cfg reserve scratch = .ok s)
    (offsets : a.offsets = s.offsets) {n : Nat} {j : Instruction} (here : a.kernel.code[n]? = some j)
    {x : RegisterOperand} (named : j.dst.register? = some x) (other : j.op ≠ .jump) {g : Generation} {f : Flavor}
    {piece : List Word} (made : Branches.encoded g ⟨f, a, StraightLine.plainState simd⟩ j = .ok piece) :
    ∀ w ∈ piece, StaysIn g (Owned a j) w := by
  have allotted := settled.allotted j (List.mem_of_getElem? here)
  by_cases none : writesNone j.op = true
  · exact encoded_stays other made fun issues emitted => writesNone_stays rfl none emitted
  obtain ⟨part, shaped⟩ := allotted.shaped (by simpa using none) x named
  have target := Products.register_of_named named
  have held := holds_slot settled positive filed swept offsets here (by rw [← target]; exact List.mem_cons_self) part
    fun b inside => Owned.destination named inside
  have work (y : RegisterOperand) (listed : .register y ∈ workspace j) :=
    holds_slot settled positive filed swept offsets here (List.mem_cons_of_mem _ (mem_workspace listed))
      (allotted.work y listed) fun b inside => Owned.temporary listed inside
  refine encoded_stays other made fun issues emitted => ?_
  exact instruction_stays (f := ⟨f, a, StraightLine.plainState simd⟩) rfl settled.width positive target
    (fun op b row => .header op row) held work shaped emitted

/-- The words that write a spilled destination back. -/
theorem message_stays (settled : Settled simd header a.kernel)
    (known : a.hasSpills = true → a.header.toNat = header ∧ a.header.toNat % 32 = 0) {j : Instruction}
    (here : j ∈ a.kernel.code) (op : j.op = .spill) {g : Generation} {f : Flavor} {piece : List Word}
    (made : Branches.encoded g ⟨f, a, StraightLine.plainState simd⟩ j = .ok piece) :
    ∀ w ∈ piece, StaysIn g (Owned a j) w := by
  have fits := (settled.allotted j here).message op
  refine encoded_stays (by rw [op]; nofun) made fun issues emitted => ?_
  unfold Emission.instruction at emitted
  rw [op] at emitted
  obtain ⟨same, row⟩ := known (scratch_spills emitted)
  refine spill_stays (instructionState_fits simd j _) op row ?_ (fun b low high => ?_) emitted
  · omega
  · change a.header.toNat ≤ b at low
    change b < a.header.toNat + 32 + _ at high
    exact .reserve op ⟨low, by omega⟩

end

/-- The words of a jump write nothing. -/
theorem jump_stays {g : Generation} {s : State} {far : Int32} {words : List Word} {inside : Nat → Prop}
    (fits : StateFits s) (made : g.assemble s (.jump far) = .ok words) : ∀ w ∈ words, StaysIn g inside w := by
  have encodable : Encodable (.jump far) := ⟨fun r none => absurd none List.not_mem_nil, trivial⟩
  exact fun w member =>
    (assemble_stays (x := ⟨s, .jump far⟩) fits encodable made w member).mono fun b reached => False.elim reached

/-- A kernel without pins, whose destinations have room for what is written and whose registers have sizes that are
32-bit numbers, compiles to a program whose instructions write only what belongs to them. -/
theorem compiled_writes_own (g : Generation) (k : Kernel) (settings : Settings) (variant : String)
    (compiled : Compilation) (log : List CompileEvent) (ran : k.compile g settings variant = .ok (compiled, log))
    (unpinned : ∀ r, k.pin? r = none)
    (spacious : ∀ i ∈ k.code, Spacious (Products.lanesOf compiled.program.simdWidth i) i)
    (sized : ∀ i ∈ k.code, Sized (Products.lanesOf compiled.program.simdWidth i) i) :
    ∃ listing, Branches.IsListing g compiled listing ∧
      ∀ line ∈ listing, WritesOwn g compiled.allocation line.1 line.2 := by
  obtain ⟨listing, lists⟩ := Branches.compile_listing ran
  obtain ⟨c, selected, events, told, ⟨rfl, rfl, wide, file, -⟩, simd, select, allocated, emitted⟩ :=
    StraightLine.compile_stages ran
  rw [simd] at spacious sized
  have positive : 0 < c.simdWidth := by omega
  have filed : Filed c.sweepConfig := ⟨file, rfl⟩
  have selection : Selected c.simdWidth selected := select_sound wide spacious sized unpinned select
  have settled := ofKernel_settled filed positive selection allocated
  have known := ofKernel_headerRow filed allocated
  obtain ⟨reserve, scratch, s, -, swept, offsets⟩ := ofKernel_run allocated
  refine ⟨listing, lists, fun ⟨j, words⟩ member writes => writeOnlyOwned_of_stays ?_⟩
  obtain ⟨flavor, -, each⟩ := lists.each
  have own := each _ member
  have listed : j ∈ compiled.allocation.kernel.code := lists.code ▸ List.mem_map_of_mem member
  rw [simd] at own
  by_cases jump : j.op = .jump
  · obtain ⟨far, assembled⟩ := own.jumps jump
    exact jump_stays (instructionState_fits _ j _) assembled
  · obtain ⟨piece, encodes, same⟩ := own.fixed jump
    intro w new
    rw [same] at new
    obtain ⟨v, old, new⟩ := List.mem_flatMap.mp new
    refine StaysIn.fixed ?_ _ w new
    rcases writes with ⟨x, named⟩ | op
    · obtain ⟨n, here⟩ := List.mem_iff_getElem?.mp listed
      exact destination_stays settled positive filed swept offsets here named jump encodes v old
    · exact message_stays settled known listed op encodes v old

/-- A load, a scalar written by one lane, a product of qwords, which is expanded, and a barrier. -/
def fetched : Kernel where
  name := "fetched"
  simdWidth := 8
  next := 4
  code :=
    [{ op := .load, dst := .vector ⟨1⟩ .ud, src := [.vector ⟨0⟩ .ud] },
      { op := .mov, dst := .scalar ⟨2⟩ .ud, src := [.immediate .ud 5 false false], execWidth := 1 },
      { op := .mul, dst := .vector ⟨3⟩ .ul, src := [.vector ⟨1⟩ .ul, .scalar ⟨2⟩ .ul] },
      { op := .barrier, fences := ⟨2⟩ },
      { op := .endThread }]

theorem fetched_spacious : ∀ i ∈ fetched.code, Spacious (Products.lanesOf 8 i) i := by
  simp only [fetched, List.forall_mem_cons, List.not_mem_nil, false_implies, implies_true, and_true]
  refine ⟨⟨?_, nofun⟩, ⟨?_, nofun⟩, ⟨?_, nofun⟩, ⟨?_, fun _ => rfl⟩, ⟨?_, nofun⟩⟩
  · rintro x ⟨⟩
    exact ⟨hasPart_whole rfl, by decide⟩
  · rintro x ⟨⟩
    exact ⟨hasPart_whole rfl, fun _ => rfl⟩
  · rintro x ⟨⟩
    exact ⟨hasPart_whole rfl, nofun⟩
  all_goals exact fun x named => by cases named

theorem compiled_writes_own_fetched : ∃ compiled log listing, fetched.compile .chv {} "" = .ok (compiled, log) ∧
    Branches.IsListing .chv compiled listing ∧
    ∀ line ∈ listing, WritesOwn .chv compiled.allocation line.1 line.2 := by
  have outcome : (fetched.compile .chv {} "").toOption.map (fun r => r.1.program.simdWidth) = some 8 := by
    simp only [Kernel.compile, Context.compile, Allocation.ofKernel, Allocation.sweep, Sweep.run, Sweep.start,
      Liveness.ofKernel, Placement.sorted_insertion]
    decide +kernel
  obtain ⟨⟨compiled, log⟩, ran, simd⟩ := toOption_map_some.mp outcome
  have wide : compiled.program.simdWidth = 8 := simd
  obtain ⟨listing, lists, each⟩ := compiled_writes_own .chv fetched {} "" compiled log ran (fun _ => rfl)
    (by rw [wide]; exact fetched_spacious) (by rw [wide]; decide)
  exact ⟨compiled, log, listing, ran, lists, each⟩

/-- Two scalars, and an instruction on all lanes that writes the first one. -/
def sideBySide : Kernel where
  name := "sideBySide"
  simdWidth := 8
  next := 2
  code :=
    [{ op := .mov, dst := .scalar ⟨0⟩ .ud, src := [.immediate .ud 1 false false], execWidth := 1 },
      { op := .mov, dst := .scalar ⟨1⟩ .ud, src := [.immediate .ud 2 false false], execWidth := 1 },
      { op := .mov, dst := .scalar ⟨0⟩ .ud, src := [.immediate .ud 3 false false] },
      { op := .compare, src := [.scalar ⟨0⟩ .ud, .scalar ⟨1⟩ .ud], condition := .eq },
      { op := .endThread }]

/-- The instruction and its word, the slots of both registers, and what the word writes. -/
theorem sideBySide_outcome : ((sideBySide.compile .gen8 {} "").toOption.map fun r =>
    let slot (n : UInt32) := (r.1.allocation.offsets.lookup? ⟨n⟩,
      ((Liveness.ofKernel r.1.allocation.kernel).intervalOf? ⟨n⟩).map fun iv => iv.slot)
    (r.1.allocation.kernel.code[2]?, slot 0, slot 1, r.1.program.words[2]?.bind fun w =>
      ((layout .gen8).decode w).toOption.map fun d =>
        decide ((Branches.encoded .gen8 ⟨.gen8, r.1.allocation, StraightLine.plainState 8⟩
            (sideBySide.code.getD 2 default)).toOption = some [w] ∧
          d.opcode = .mov ∧ d.execSize = 8 ∧ d.dst = { file := .grf, number := 1, region := ⟨0, 0, 1⟩ }))) =
    some (sideBySide.code[2]?, (some 32, some 4), (some 36, some 4), some true) := by
  simp only [Kernel.compile, Context.compile, Allocation.ofKernel, Allocation.sweep, Sweep.run, Sweep.start,
    Liveness.ofKernel, Placement.sorted_insertion]
  decide +kernel

/-- The destination has one element, and the word writes one for each of eight lanes: over the other scalar too. -/
theorem scalar_spreads : ∃ compiled log i w d, sideBySide.compile .gen8 {} "" = .ok (compiled, log) ∧
    (∀ r, sideBySide.pin? r = none) ∧ compiled.allocation.kernel.code[2]? = some i ∧ i.dst = .scalar ⟨0⟩ .ud ∧
    Branches.encoded .gen8 ⟨.gen8, compiled.allocation, StraightLine.plainState 8⟩ i = .ok [w] ∧
    compiled.program.words[2]? = some w ∧ (layout .gen8).decode w = .ok d ∧
    Written d 36 ∧ InSlot compiled.allocation ⟨1⟩ 36 ∧ ¬ Owned compiled.allocation i 36 := by
  obtain ⟨⟨compiled, log⟩, ran, same⟩ := toOption_map_some.mp sideBySide_outcome
  simp only [Prod.mk.injEq] at same
  obtain ⟨here, ⟨first, four⟩, ⟨second, four'⟩, word⟩ := same
  obtain ⟨w, found, read⟩ := Option.bind_eq_some_iff.mp word
  obtain ⟨d, decoded, same⟩ := toOption_map_some.mp read
  obtain ⟨encoded, op, lanes, dst⟩ := of_decide_eq_true same
  refine ⟨compiled, log, sideBySide.code.getD 2 default, w, d, ran, fun _ => rfl, here, rfl, ?_, found,
    decoded, ?_, ?_, ?_⟩
  · cases made : Branches.encoded .gen8 ⟨.gen8, compiled.allocation, StraightLine.plainState 8⟩
        (sideBySide.code.getD 2 default) with
    | error e =>
      rw [made] at encoded
      cases encoded
    | ok piece =>
      rw [made] at encoded
      exact congrArg Except.ok (Option.some.inj encoded)
  · unfold Written
    rw [op, if_neg (by decide), lanes, dst]
    exact ⟨rfl, fun _ => ⟨1, by decide, by decide, by decide⟩⟩
  · obtain ⟨iv, interval, size⟩ := Option.map_eq_some_iff.mp four'
    refine ⟨36, iv, second, interval, Nat.le_refl 36, ?_⟩
    rw [size]
    decide
  · rintro (⟨named, offset, iv, placed, interval, low, high⟩ | ⟨member, -⟩ | ⟨op, -⟩ | ⟨op, -⟩)
    · cases named
      rw [first] at placed
      cases placed
      rw [interval] at four
      have size : iv.slot = 4 := Option.some.inj four
      rw [size] at high
      exact absurd high (by decide)
    · cases member
    · cases op
    · cases op

end GpuCodegen.Footprints
