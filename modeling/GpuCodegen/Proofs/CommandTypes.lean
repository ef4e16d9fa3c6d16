import GpuCodegen.Proofs.OperandTypes

/-! What the commands of an instruction ask of the target. If the operand types of a selected instruction
were checked, and the few features that its operands do not show, then no command it is emitted as fails
for a missing feature. -/

namespace GpuCodegen.Features
open Outcome Failures

/-- The target takes the operands of a selected instruction, those that its emission makes up included. -/
structure Fits (c : Context) (i : Instruction) : Prop where
  dst : i.dst.isAbsent = false → HasType c i.dst.type false
  src : ∀ o ∈ i.src, Checked c o
  count : ∀ n, Select.sourceCount? i.op = some n → i.src.length = n
  /-- Products and pointers of qwords need 64-bit integers, whatever their operands are. -/
  qwords : i.op = .mul64 ∨ i.op = .mulHi64 ∨ i.op = .stackSetup ∧ i.dst.type.is64 = true → c.supports .int64 = true
  motion : i.op = .motionMessage → c.supports .motionEstimation = true
  triple : i.op.isThreeSource = true → c.flavor.tripleTakes i.dst.type = true ∧
    ∀ t, (∀ o ∈ i.src, o.type.dataType = t) → c.generation.tripleUnitTakes t = true

/-- The complaints about the operand types of a command are no missing features. -/
abbrev Taken (c : Context) (j : Issue) : Prop := Typed Available c.generation j.command

/-- All commands of an instruction, or those before its failure, are ones the target takes. -/
def AllTaken (c : Context) (x : Emitted) : Prop := ∀ j ∈ commandsOf x, Taken c j

section
variable {c : Context} {α : Type}

theorem allTaken_bind {x : Except Diagnostic α} {f : α → Emitted} (next : ∀ v, x = .ok v → AllTaken c (f v)) :
    AllTaken c (Emission.checked x >>= f) := by
  cases x with
  | error d =>
    intro j member
    cases member
  | ok v => exact next v rfl

theorem allTaken_pure {issues : List Issue} (all : ∀ j ∈ issues, Taken c j) : AllTaken c (pure issues) := all

theorem allTaken_single {j : Issue} (taken : Taken c j) : AllTaken c (pure [j]) := by
  intro k member
  cases List.mem_singleton.mp member
  exact taken

theorem allTaken_append {x : Emitted} {last : List Issue} (first : AllTaken c x) (all : ∀ j ∈ last, Taken c j) :
    AllTaken c (do return (← x) ++ last) := by
  cases x with
  | error e => exact first
  | ok issues =>
    intro j member
    rcases List.mem_append.mp member with early | late
    · exact first j early
    · exact all j late

theorem allTaken_failed (d : Diagnostic) : AllTaken c (Emission.failed d) := by
  intro j member
  cases member

theorem taken_under {s : State} {commands : List Command}
    (all : ∀ command ∈ commands, Typed Available c.generation command) :
    ∀ j ∈ Sequence.under s commands, Taken c j := by
  intro j member
  obtain ⟨command, listed, rfl⟩ := List.mem_map.mp member
  exact all command listed

end

section
variable {c : Context} {a : Allocation} {s base : State} {i : Instruction} {width : Int}

/-- A source by its position; one that is not there stands for nothing. -/
theorem source_getD {os : List Operand} {rs : List Native.Register} (stand : List.Forall₂ (Stands c) os rs) (n : Nat) :
    SourceType Available c.generation (rs.getD n default) := by
  rw [List.getD_eq_getElem?_getD]
  cases here : rs[n]? with
  | none => exact source_common _ (t := .ud) rfl (by decide)
  | some r =>
    obtain ⟨small, rfl⟩ := List.getElem?_eq_some_iff.mp here
    obtain ⟨length, each⟩ := List.forall₂_iff_get.mp stand
    exact (each n (length ▸ small) small).source

theorem checked_getD (all : ∀ o ∈ i.src, Checked c o) (n : Nat) : Checked c (i.src.getD n default) := by
  rw [List.getD_eq_getElem?_getD]
  cases here : i.src[n]? with
  | none => exact hasType_common (t := .ud) (by decide)
  | some o => exact all o (List.mem_of_getElem? here)

/-- Only sources that are general registers of one type get to the three-source unit, and the types of a
selected instruction's sources were checked together. -/
theorem Fits.tripleTypes (fits : Fits c i) (flavored : Flavor.ofGeneration? c.generation = some c.flavor)
    (three : i.op.isThreeSource = true) (count : i.src.length = 3) {dst : Native.Register} {rs : List Native.Register}
    (target : dst.file = .grf → dst.type = i.dst.type.dataType) (stand : List.Forall₂ (Stands c) i.src rs) :
    TripleTypes Available c.generation dst (rs.getD 0 default) (rs.getD 1 default) (rs.getD 2 default) := by
  obtain ⟨takes, unit⟩ := fits.triple three
  refine ⟨fun file => ?_, ?_⟩
  · rw [target file]
    obtain ⟨code, coded⟩ := tripleTypeCode_taken (tripleTakes_unit flavored takes)
    exact .of_ok coded
  · obtain ⟨o0, o1, o2, sources⟩ := List.length_eq_three.mp count
    rw [sources] at stand unit
    cases stand with
    | cons first rest =>
    cases rest with
    | cons second rest =>
    cases rest with
    | cons third rest =>
    cases rest
    intro file0 file1 file2 same1 same2
    obtain ⟨code, coded⟩ := tripleTypeCode_taken (unit _ fun o member => by
      simp only [List.mem_cons, List.not_mem_nil, or_false] at member
      rcases member with rfl | rfl | rfl
      · exact (first.type file0).symm
      · exact ((second.type file1).symm.trans same1)
      · exact ((third.type file2).symm.trans same2))
    exact .of_ok coded

theorem aluCommand_typed (fits : Fits c i) (flavored : Flavor.ofGeneration? c.generation = some c.flavor)
    {dst : Native.Register} {rs : List Native.Register}
    (code : Encodes Available (c.generation.registerTypeCode dst.type))
    (target : dst.file = .grf → dst.type = i.dst.type.dataType) (stand : List.Forall₂ (Stands c) i.src rs) :
    Typed Available c.generation (Emission.aluCommand i dst rs) := by
  unfold Emission.aluCommand
  dsimp only
  split
  case h_12 op | h_13 op =>
    exact fits.tripleTypes flavored (by rw [op]; rfl) (fits.count 3 (by rw [op]; rfl)) target stand
  all_goals first
    | exact ⟨code, source_getD stand 0⟩
    | exact ⟨code, source_getD stand 0, source_getD stand 1⟩
    | exact trivial

/-- The type of the null register that stands for a missing destination was checked with the first source. -/
theorem Fits.result (fits : Fits c i) (some : i.src ≠ []) : HasType c (Emission.resultType i) false := by
  have target := fits.dst
  unfold Emission.resultType
  cases dst : i.dst with
  | absent t =>
    cases sources : i.src with
    | nil => exact absurd sources some
    | cons o rest => exact (fits.src o (by rw [sources]; exact List.mem_cons_self)).register
  | register x =>
    rw [dst] at target
    exact target rfl
  | immediate t bits negate absolute =>
    rw [dst] at target
    exact target rfl

theorem quarters_from {f : State → Nat → List Issue} {j : Issue} (member : j ∈ Emission.quarters s width f) :
    ∃ t q, j ∈ f t q := by
  unfold Emission.quarters at member
  split at member
  · exact ⟨s, 0, member⟩
  · obtain ⟨q, -, inside⟩ := List.mem_flatMap.mp member
    exact ⟨_, q, inside⟩

theorem alu_taken (fits : Fits c i) (flavored : Flavor.ofGeneration? c.generation = some c.flavor)
    (some : i.src ≠ []) : AllTaken c (Emission.alu a s i width) := by
  unfold Emission.alu
  refine allTaken_bind fun rs sources => allTaken_bind fun dst made => ?_
  have stand := operands_stand fits.src sources
  have code := destination_register (fits.result some) fits.dst made
  have target := destination_grf made
  split
  · refine allTaken_pure fun j member => ?_
    obtain ⟨t, q, inside⟩ := quarters_from member
    cases List.mem_singleton.mp inside
    obtain ⟨file, type⟩ := quarter_shape dst q
    refine aluCommand_typed fits flavored (by rw [type]; exact code) (by rw [file, type]; exact target) ?_
    exact List.forall₂_map_right_iff.mpr (stand.imp fun _ _ here => here.quarter q)
  · exact allTaken_single (aluCommand_typed fits flavored code target stand)

theorem barrier_taken {f : Emission.Frame} : AllTaken c (Emission.barrier f s i) := by
  unfold Emission.barrier
  refine allTaken_bind fun dst _ => allTaken_bind fun payload _ => allTaken_pure ?_
  have code : Encodes Available (c.generation.registerTypeCode .ud) := common_encodes _ (by decide)
  have dword {r : Native.Register} (type : r.type = .ud) : SourceType Available c.generation r :=
    source_common _ type (by decide)
  have fence (flush : Bool) : ∀ j ∈ Sequence.fence s (dst.retype .ud) flush, Taken c j := by
    refine taken_under fun command listed => ?_
    simp only [List.mem_cons, List.not_mem_nil, or_false] at listed
    rcases listed with rfl | rfl <;> exact ⟨code, dword rfl⟩
  have flush : ∀ j ∈ Sequence.samplerFlush s (dst.retype .ud), Taken c j := by
    refine taken_under fun command listed => ?_
    simp only [List.mem_cons, List.not_mem_nil, or_false] at listed
    rcases listed with rfl | rfl <;> exact ⟨code, dword rfl⟩
  have wait (mask : UInt32) : ∀ j ∈ Sequence.barrierWait s (payload.retype .ud) mask, Taken c j := by
    intro j member
    rcases List.mem_append.mp member with signal | blocks
    · refine taken_under (fun command listed => ?_) j signal
      simp only [List.mem_cons, List.not_mem_nil, or_false] at listed
      rcases listed with rfl | rfl
      · exact ⟨code, dword rfl, dword rfl⟩
      · exact dword rfl
    · exact taken_under (fun command listed => by cases List.mem_singleton.mp listed; trivial) j blocks
  intro j member
  unfold Sequence.barrier at member
  cases kind : f.flavor with
  | gen6 =>
    simp only [kind, List.mem_append, List.mem_ite_nil_right] at member
    rcases member with ⟨-, before⟩ | signal
    · exact fence _ j before
    · exact wait _ j signal
  | gen7 | gen8 | chv =>
    simp only [kind, List.mem_append, List.mem_ite_nil_right] at member
    rcases member with (⟨-, before⟩ | signal) | ⟨-, after⟩
    · exact fence _ j before
    · exact wait _ j signal
    · exact flush j after
  | gen9 | bxt =>
    simp only [kind, List.mem_append, List.mem_ite_nil_right] at member
    rcases member with ((⟨-, memory⟩ | ⟨-, images⟩) | signal) | ⟨-, after⟩
    · exact fence _ j memory
    · exact fence _ j images
    · exact wait _ j signal
    · exact flush j after

theorem atomic_taken (fits : Fits c i) : AllTaken c (Emission.atomic a s i width) := by
  unfold Emission.atomic
  refine allTaken_bind fun dst made => allTaken_bind fun payload staged => allTaken_single ?_
  exact ⟨destination_register (hasType_common (by decide)) fits.dst made,
    operand_source (checked_getD fits.src 0) staged⟩

theorem load_taken (fits : Fits c i) : AllTaken c (Emission.load a s i width) := by
  unfold Emission.load
  refine allTaken_bind fun dst _ => allTaken_bind fun address made => allTaken_single ?_
  exact ⟨common_encodes _ (t := .ud) (by decide), operand_source (checked_getD fits.src 0) made⟩

theorem store_taken (fits : Fits c i) : AllTaken c (Emission.store a s i width) := by
  unfold Emission.store
  exact allTaken_bind fun payload made => allTaken_single (operand_source (checked_getD fits.src 0) made)

theorem addressPairs_typed {g : Generation} (first : UInt32) (entries : List UInt16) :
    ∀ command ∈ Sequence.addressPairs first entries, Typed Available g command := by
  induction first, entries using Sequence.addressPairs.induct with
  | case1 first x y rest ih =>
    rw [Sequence.addressPairs, List.forall_mem_cons]
    exact ⟨⟨common_encodes g (t := .ud) (by decide), source_common g (t := .ud) rfl (by decide)⟩, ih⟩
  | case2 first entries short =>
    rw [Sequence.addressPairs.eq_2 _ _ short]
    simp

theorem addressQuads_typed (int64 : c.supports .int64 = true) (first : UInt32) (entries : List UInt16) :
    ∀ command ∈ Sequence.addressQuads first entries, Typed Available c.generation command := by
  induction first, entries using Sequence.addressQuads.induct with
  | case1 first w x y z rest ih =>
    rw [Sequence.addressQuads, List.forall_mem_cons]
    exact ⟨⟨register_encodes (t := .ul) (hasType_qword int64), source_qword int64 rfl⟩, ih⟩
  | case2 first entries short =>
    rw [Sequence.addressQuads.eq_2 _ _ short]
    simp

/-- The address register is written in dwords, and in qwords only by flavors whose generations have them. -/
theorem setAddresses_taken (flavored : Flavor.ofGeneration? c.generation = some c.flavor) {entries : List UInt16}
    {setup : List Issue} (made : Sequence.setAddresses c.flavor s entries = .ok setup) :
    ∀ j ∈ setup, Taken c j := by
  unfold Sequence.setAddresses at made
  split at made
  · rename_i quads
    simp only [Sequence.setAddressQuads, seq_ok, pure_ok] at made
    obtain ⟨-, rfl⟩ := made
    exact taken_under (addressQuads_typed (int64_of_quads flavored quads) 0 entries)
  · simp only [Sequence.setAddressPairs, seq_ok, pure_ok] at made
    obtain ⟨-, rfl⟩ := made
    exact taken_under (addressPairs_typed 0 entries)

theorem indirect_taken (fits : Fits c i) (flavored : Flavor.ofGeneration? c.generation = some c.flavor) :
    AllTaken c (Emission.indirect ⟨c.flavor, a, base⟩ s i width) := by
  unfold Emission.indirect
  refine allTaken_bind fun place _ => allTaken_bind fun setup made => ?_
  have before := setAddresses_taken flavored made
  split
  · exact before
  · rename_i dst target
    intro j member
    rcases List.mem_append.mp member with early | last
    · exact before j early
    · cases List.mem_singleton.mp last
      have checked := checked_getD fits.src 0
      have type : (Emission.referenced (i.src.getD 0 default)).type = (i.src.getD 0 default).type := by
        cases i.src.getD 0 default <;> rfl
      refine ⟨operand_register fits.dst target, register_source rfl ?_⟩
      change Encodes Available (c.generation.registerTypeCode (Emission.referenced _).type.dataType)
      rw [type]
      exact register_encodes checked.register

/-- Moves and two-source operations on dwords and qwords. -/
inductive Wide : Command → Prop where
  | unary (op : UnaryOp) {dst src : Native.Register} (target : dst.type = .ud ∨ dst.type = .ul)
      (source : src.type = .ud ∨ src.type = .ul) : Wide (.unary op dst src)
  | binary (op : BinaryOp) {dst src0 src1 : Native.Register} (target : dst.type = .ud ∨ dst.type = .ul)
      (left : src0.type = .ud ∨ src0.type = .ul) (right : src1.type = .ud ∨ src1.type = .ul) :
      Wide (.binary op dst src0 src1)

theorem Wide.typed (int64 : c.supports .int64 = true) {command : Command} (wide : Wide command) :
    Typed Available c.generation command := by
  have code {t : Native.DataType} (is : t = .ud ∨ t = .ul) : Encodes Available (c.generation.registerTypeCode t) := by
    rcases is with rfl | rfl
    · exact common_encodes _ (by decide)
    · exact register_encodes (t := .ul) (hasType_qword int64)
  have source {r : Native.Register} (is : r.type = .ud ∨ r.type = .ul) : SourceType Available c.generation r := by
    rcases is with type | type
    · exact source_common _ type (by decide)
    · exact source_qword int64 type
  cases wide with
  | unary op target src => exact ⟨code target, source src⟩
  | binary op target left right => exact ⟨code target, source left, source right⟩

/-- Qword products are made of dword and qword operands. -/
theorem multiply_taken (int64 : c.supports .int64 = true) : AllTaken c (Emission.multiply a s i width) := by
  unfold Emission.multiply
  refine allTaken_bind fun dst _ => allTaken_bind fun rs _ => allTaken_pure fun j member => ?_
  obtain ⟨t, q, inside⟩ := quarters_from member
  refine taken_under (fun command listed => Wide.typed int64 ?_) j inside
  simp only [List.mem_cons, List.not_mem_nil, or_false] at listed
  rcases listed with rfl | rfl | rfl | rfl | rfl | rfl | rfl | rfl | rfl <;> constructor <;>
    first | exact .inl rfl | exact .inr rfl

theorem multiplyHigh_taken (int64 : c.supports .int64 = true) : AllTaken c (Emission.multiplyHigh a s i width) := by
  unfold Emission.multiplyHigh
  refine allTaken_bind fun dst _ => allTaken_bind fun rs _ => allTaken_pure fun j member => ?_
  obtain ⟨t, q, inside⟩ := quarters_from member
  refine taken_under (fun command listed => Wide.typed int64 ?_) j inside
  simp only [List.mem_cons, List.not_mem_nil, or_false] at listed
  rcases listed with rfl | rfl | rfl | rfl | rfl | rfl | rfl | rfl | rfl | rfl | rfl | rfl | rfl | rfl | rfl <;>
    constructor <;> first | exact .inl rfl | exact .inr rfl

/-- A stack pointer is computed in dwords and widened to qwords last. -/
theorem stack_taken (int64 : i.dst.type.is64 = true → c.supports .int64 = true) :
    AllTaken c (Emission.stack a s i width) := by
  have code {t : Native.DataType} (known : t ∈ common) : Encodes Available (c.generation.registerTypeCode t) :=
    common_encodes _ known
  have dword {r : Native.Register} (type : r.type = .ud) : SourceType Available c.generation r :=
    source_common _ type (by decide)
  have word {r : Native.Register} (type : r.type = .uw) : SourceType Available c.generation r :=
    source_common _ type (by decide)
  unfold Emission.stack
  refine allTaken_bind fun sp _ => allTaken_bind fun rs _ => allTaken_pure fun j member => ?_
  unfold Sequence.stackPointer at member
  rcases List.mem_append.mp member with early | last
  · rcases List.mem_append.mp early with ids | offset
    · refine taken_under (fun command listed => ?_) j ids
      rcases List.mem_cons.mp listed with rfl | second
      · exact ⟨code (t := .ud) (by decide), immediate_common _ (t := .v) (by decide)⟩
      · rw [List.mem_ite_nil_right] at second
        cases List.mem_singleton.mp second.2
        exact ⟨code (t := .ud) (by decide), dword rfl, dword rfl⟩
    · simp only [List.mem_cons, List.not_mem_nil, or_false] at offset
      rcases offset with rfl | rfl | rfl | rfl
      · exact ⟨code (t := .ud) (by decide), dword rfl, dword rfl⟩
      · exact ⟨code (t := .ud) (by decide), dword rfl, word rfl⟩
      · exact ⟨code (t := .ud) (by decide), dword rfl, dword rfl⟩
      · exact ⟨code (t := .ud) (by decide), dword rfl⟩
  · split at last
    · rename_i qword
      rcases List.mem_cons.mp last with rfl | widened
      · exact ⟨code (t := .ud) (by decide), dword rfl, word rfl⟩
      · obtain ⟨q, -, rfl⟩ := List.mem_map.mp widened
        exact Wide.typed (int64 qword)
          (.unary .mov (.inr (Native.Register.quarter_shape _ _).2.1) (.inl (Native.Register.quarter_shape _ _).2.1))
    · cases List.mem_singleton.mp last
      exact ⟨code (t := .ud) (by decide), dword rfl, word rfl⟩

theorem scratch_taken : AllTaken c (Emission.scratch a s i) := by
  have code : Encodes Available (c.generation.registerTypeCode .ud) := common_encodes _ (by decide)
  have dword {r : Native.Register} (type : r.type = .ud) : SourceType Available c.generation r :=
    source_common _ type (by decide)
  have header (h : UInt32) : Typed Available c.generation (Sequence.scratchHeader (.ud8 h 0)) := ⟨code, dword rfl⟩
  have sent : AllTaken c (do
      let h := Native.Register.ud8 (a.header / Native.grfSize) 0
      let value := if i.op = .spill then i.src.getD 0 default else i.dst
      let data ← Emission.checked (Emission.operand a 8 value)
      if i.op = .reload then
        return Sequence.reload s h data value.spans.toNat i.offset
      else
        return Sequence.spill s h data value.spans.toNat i.offset) := by
    refine allTaken_bind fun data _ => ?_
    split
    · refine allTaken_pure (taken_under fun command listed => ?_)
      rcases List.mem_cons.mp listed with rfl | block
      · exact header _
      · obtain ⟨b, -, rfl⟩ := List.mem_map.mp block
        exact dword rfl
    · refine allTaken_pure (taken_under fun command listed => ?_)
      rcases List.mem_cons.mp listed with rfl | block
      · exact header _
      · obtain ⟨b, -, inside⟩ := List.mem_flatMap.mp block
        rcases List.mem_append.mp inside with staged | write
        · split at staged
          · cases staged
          · obtain ⟨n, -, rfl⟩ := List.mem_map.mp staged
            exact ⟨code, dword rfl⟩
        · cases List.mem_singleton.mp write
          exact dword rfl
  unfold Emission.scratch
  dsimp only
  split
  · exact allTaken_failed _
  · exact sent

theorem motionPayload_taken {payload : Native.Register} {done : List Issue} {rest : List (Operand × Nat)}
    (before : ∀ j ∈ done, Taken c j) (checked : ∀ e ∈ rest, Checked c e.1) :
    AllTaken c (Emission.motionPayload a s payload done rest) := by
  induction rest generalizing done with
  | nil => exact before
  | cons entry rest ih =>
    unfold Emission.motionPayload
    split
    · exact before
    · rename_i value made
      refine ih (fun j member => ?_) fun e later => checked e (List.mem_cons_of_mem _ later)
      rcases List.mem_append.mp member with old | new
      · exact before j old
      · cases List.mem_singleton.mp new
        exact ⟨common_encodes _ (t := .ud) (by decide), operand_source (checked entry List.mem_cons_self) made⟩

theorem motion_taken (fits : Fits c i) (estimates : c.supports .motionEstimation = true) :
    AllTaken c (Emission.motion a s i width) := by
  unfold Emission.motion
  refine allTaken_bind fun dst _ => allTaken_bind fun payload staged => ?_
  split
  · exact allTaken_failed _
  · have filled : AllTaken c (Emission.motionPayload a (s.unmasked 1) payload [] (i.src.drop 1).zipIdx) :=
      motionPayload_taken (by simp) fun e member =>
        fits.src e.1 (List.mem_of_mem_drop (List.fst_mem_of_mem_zipIdx member))
    refine allTaken_append filled fun j last => ?_
    simp only [List.mem_cons, List.not_mem_nil, or_false] at last
    rcases last with rfl | rfl
    · exact ⟨common_encodes _ (t := .ub) (by decide), common_source _ (by decide) (by decide)⟩
    · have has : c.generation.supports .motionEstimation = true := estimates
      exact ⟨fun lacks => absurd (has.symm.trans lacks) (by decide), operand_source (checked_getD fits.src 0) staged⟩

end

/-- No command of a selected instruction fails for a missing feature. -/
theorem instruction_taken {c : Context} (flavored : Flavor.ofGeneration? c.generation = some c.flavor) {i : Instruction}
    (fits : Fits c i) (a : Allocation) (base : State) :
    AllTaken c (Emission.instruction ⟨c.flavor, a, base⟩ i) := by
  have sources {n : Nat} (count : Select.sourceCount? i.op = some (n + 1)) : i.src ≠ [] := by
    intro none
    have length := fits.count _ count
    rw [none] at length
    cases length
  unfold Emission.instruction
  dsimp only
  cases op : i.op
  case mov | not => exact alu_taken fits flavored (sources (n := 0) (by rw [op]; rfl))
  case add | mul | and | or | xor | shl | shr | asr | select | compare =>
    exact alu_taken fits flavored (sources (n := 1) (by rw [op]; rfl))
  case mad | lrp => exact alu_taken fits flavored (sources (n := 2) (by rw [op]; rfl))
  case nop | endThread => exact allTaken_single trivial
  case barrier => exact barrier_taken
  case atomicMessage => exact atomic_taken fits
  case load => exact load_taken fits
  case storeMessage => exact store_taken fits
  case indirectMov => exact indirect_taken fits flavored
  case mul64 => exact multiply_taken (fits.qwords (.inl op))
  case mulHi64 => exact multiplyHigh_taken (fits.qwords (.inr (.inl op)))
  case stackSetup => exact stack_taken fun wide => fits.qwords (.inr (.inr ⟨op, wide⟩))
  case reload | spill => exact scratch_taken
  case motionMessage => exact motion_taken fits (fits.motion op)
  case label | jump | mulHi | atomic | store | motion | unlisted => exact allTaken_failed _

end GpuCodegen.Features
