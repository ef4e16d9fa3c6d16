import GpuCodegen.Proofs.ArithmeticWords
import GpuCodegen.Proofs.StraightLineSweep

/-! Compiled straight-line kernels compute what their instructions say. A register that is still to be
read keeps its bytes: whoever is written meanwhile lies apart from it, since a register in one of its
holes would be written where its own value is not needed any more. -/

namespace GpuCodegen.StraightLine
open Native Lanes LiveIntervals Outcome Placement

/-- A straight-line kernel after selection, with its places and its words. -/
structure Lowered (g : Generation) (k : Kernel) (width : Int) (body : List Instruction) (s : Sweep)
    (words : List Word) : Prop where
  wide : width = 8 ∨ width = 16
  code : ∃ last, k.code = body ++ [last]
  invariant : ∃ base limit done cur, Uncrossed k base limit done cur s
  uniform : Uniform k width
  arithmetic : ∀ i ∈ body, IsArithmetic width i
  defined : ∀ (p : Nat) (i : Instruction) (r : VReg), body[p]? = some i → i.reads r = true →
    ∃ (q : Nat) (j : Instruction), q < p ∧ body[q]? = some j ∧ j.writes r = true
  emits : Emits g s.offsets width body words

/-- A register was written before an instruction. -/
def Written (body : List Instruction) (p : Nat) (r : VReg) : Prop :=
  ∃ (q : Nat) (i : Instruction), q < p ∧ body[q]? = some i ∧ i.writes r = true

/-- A register is read at an instruction or later, and not written before that. -/
def Awaited (body : List Instruction) (p : Nat) (r : VReg) : Prop :=
  ∃ (q : Nat) (i : Instruction), p ≤ q ∧ body[q]? = some i ∧ i.reads r = true ∧
    ∀ (n : Nat) (j : Instruction), p ≤ n → n < q → body[n]? = some j → j.writes r = false

section
variable {g : Generation} {k : Kernel} {width : Int} {body : List Instruction} {s : Sweep}
  {words : List Word}

/-- The interval of an accessed register covers the access. -/
theorem live_of_access {a : Access} (access : a ∈ accesses k) :
    ∃ n, Live k n ∧ (span k n).reg = a.operand.reg ∧
      ∀ x ∈ accesses k, x.operand.reg = a.operand.reg →
        (span k n).min ≤ x.position ∧ x.position ≤ (span k n).max := by
  obtain ⟨n, index⟩ := access_indexed access
  obtain ⟨live, reg⟩ := live_of_indexOf index
  exact ⟨n, live, reg, (indexOf_covers index).2.within⟩

/-- Two registers have places apart if one is accessed while the value of the other is needed: between two
accesses of it, with no full definition in between. -/
theorem apart_while {base limit : UInt32} {done : List Nat} {cur : Int} (inv : Uncrossed k base limit done cur s)
    {x y z : Access} (accessX : x ∈ accesses k) (accessY : y ∈ accesses k) (accessZ : z ∈ accesses k)
    (same : y.operand.reg = x.operand.reg) (differs : x.operand.reg ≠ z.operand.reg)
    (before : x.position ≤ z.position) (after : z.position ≤ y.position)
    (kept : ∀ (n : Nat) (i : Instruction) (d : RegisterOperand), z.position < n → n ≤ y.position →
      k.code[n]? = some i → i.dst.register? = some d → d.reg = x.operand.reg → k.fullyDefines i d = false)
    (placedX : s.offsets.get x.operand.reg ≠ unmapped) (placedZ : s.offsets.get z.operand.reg ≠ unmapped) :
    ∃ a b, Live k a ∧ (span k a).reg = x.operand.reg ∧ Live k b ∧ (span k b).reg = z.operand.reg ∧
      Aside k s a b := by
  obtain ⟨a, liveA, regA, withinA⟩ := live_of_access accessX
  obtain ⟨b, liveB, regB, withinB⟩ := live_of_access accessZ
  -- Both intervals cover the access in between.
  have startA := (withinA x accessX rfl).1
  have stopA := (withinA y accessY same).2
  obtain ⟨startB, stopB⟩ := withinB z accessZ rfl
  have distinct : a ≠ b := by
    rintro rfl
    exact differs (regA.symm.trans regB)
  have mappedA : Mapped k s a := by
    unfold Mapped place
    rw [regA]
    exact placedX
  have mappedB : Mapped k s b := by
    unfold Mapped place
    rw [regB]
    exact placedZ
  refine ⟨a, b, liveA, regA, liveB, regB, ?_⟩
  rcases inv.pair liveA liveB distinct mappedA mappedB ⟨by omega, by omega⟩ with aside | hosted | hosted
  · exact aside
  · -- The second register would be accessed inside its own hole.
    obtain ⟨-, ⟨h, hollow, owner, low, high⟩, -⟩ := hosted
    have free := hollow.isHole.untouched z accessZ (regB.symm.trans owner.symm)
    omega
  · -- The first register would be defined anew at the end of its hole.
    obtain ⟨-, ⟨h, hollow, owner, low, high⟩, -⟩ := hosted
    have ownerX : (span k h).reg = x.operand.reg := owner.trans regA
    obtain ⟨n, e, dst, atN, target, named, full, stop⟩ := hollow.isHole.stop
    have free := hollow.isHole.untouched y accessY (same.trans ownerX.symm)
    have defined := kept n e dst (by omega) (by omega) atN target (named.trans ownerX)
    rw [full] at defined
    cases defined

theorem Lowered.at_ (lowered : Lowered g k width body s words) {p : Nat} {i : Instruction}
    (here : body[p]? = some i) : k.code[p]? = some i := by
  obtain ⟨last, code⟩ := lowered.code
  rw [code, List.getElem?_append_left (List.getElem?_eq_some_iff.mp here).1, here]

theorem Lowered.mapped (lowered : Lowered g k width body s words) {p : Nat} {i : Instruction} {r : VReg}
    (here : body[p]? = some i) (accessed : i.reads r = true ∨ i.writes r = true) :
    s.offsets.get r ≠ unmapped := by
  obtain ⟨w, d, -, encodes⟩ := lowered.emits.arithmetic p i here
  simpa [RegisterMap.contains] using encodes.placed r accessed

/-- The bytes written by an instruction lie apart from those of a register that is still awaited. -/
theorem Lowered.apart (lowered : Lowered g k width body s words) {p : Nat} {i : Instruction}
    {r r' : VReg} (here : body[p]? = some i) (writes : i.writes r' = true) (differs : r ≠ r')
    (written : Written body p r) (awaited : Awaited body (p + 1) r) :
    (s.offsets.get r).toNat + 4 * width.toNat ≤ (s.offsets.get r').toNat ∨
      (s.offsets.get r').toNat + 4 * width.toNat ≤ (s.offsets.get r).toNat := by
  obtain ⟨base, limit, done, cur, inv⟩ := lowered.invariant
  obtain ⟨q, j, before, atQ, writesQ⟩ := written
  obtain ⟨t, u, after, atT, readsT, untilT⟩ := awaited
  obtain ⟨x, accessQ, positionQ, regQ⟩ := access_of_writes (lowered.at_ atQ) writesQ
  obtain ⟨y, accessT, positionT, regT⟩ := access_of_reads (lowered.at_ atT) readsT
  obtain ⟨z, accessP, positionP, regP⟩ := access_of_writes (lowered.at_ here) writes
  -- Up to the awaited read nothing writes the register, and the read itself is no full definition.
  have kept (n : Nat) (e : Instruction) (d : RegisterOperand) (low : z.position < n) (high : n ≤ y.position)
      (atN : k.code[n]? = some e) (target : e.dst.register? = some d) (named : d.reg = x.operand.reg) :
      k.fullyDefines e d = false := by
    rw [regQ] at named
    have writesN : e.writes r = true := by
      simp [Instruction.writes, Operand.names, target, named]
    rcases Nat.lt_or_eq_of_le (positionT ▸ high) with sooner | same
    · obtain ⟨last, code⟩ := lowered.code
      have small : n < body.length := Nat.lt_trans sooner (List.getElem?_eq_some_iff.mp atT).1
      rw [code, List.getElem?_append_left small] at atN
      have unwritten := untilT n e (by omega) sooner atN
      rw [writesN] at unwritten
      cases unwritten
    · rw [same, lowered.at_ atT] at atN
      cases atN
      simp [Kernel.fullyDefines, named, readsT]
  obtain ⟨a, b, liveA, regA, liveB, regB, aside⟩ := apart_while inv accessQ accessT accessP
    (regT.trans regQ.symm) (by rw [regQ, regP]; exact differs) (by omega) (by omega) kept
    (by rw [regQ]; exact lowered.mapped atT (.inl readsT)) (by rw [regP]; exact lowered.mapped here (.inr writes))
  unfold Aside Apart place at aside
  rw [regA, regB, regQ, regP, (lowered.uniform.slot lowered.wide liveA).2,
    (lowered.uniform.slot lowered.wide liveB).2] at aside
  exact aside

/-! ## Simulation -/

/-- Registers that are still awaited hold their values. -/
def Agree (body : List Instruction) (offsets : RegisterMap) (width p : Nat) (m : Machine) (v : Values) :
    Prop :=
  ∀ r, Written body p r → Awaited body p r → ∀ lane < width,
    m.registers.load ((offsets.get r).toNat + 4 * lane) 4 = (v r lane).toUInt64

/-- An instruction reads what the interpretation gives. -/
theorem Lowered.inputs (lowered : Lowered g k width body s words) {p : Nat} {i : Instruction} {w : Word}
    {d : Decoded} {m : Machine} {v : Values} (here : body[p]? = some i)
    (encodes : Encodes g s.offsets width i w d) (agree : Agree body s.offsets width.toNat p m v) {lane : Nat}
    (inside : lane < width.toNat) : m.inputs d lane = i.src.map (read v lane) := by
  have arithmetic := lowered.arithmetic i (List.mem_of_getElem? here)
  unfold Machine.inputs
  rw [encodes.sources, List.map_map]
  apply List.map_congr_left
  intro o member
  rcases arithmetic.source_cases member with ⟨x, rfl, vector⟩ | ⟨t, bits, rfl, dwords⟩
  · have reads : i.reads x.reg = true :=
      List.any_eq_true.mpr ⟨.register x, member, by simp [Operand.names, Operand.register?, vector.named]⟩
    have written := lowered.defined p i x.reg here reads
    have awaited : Awaited body p x.reg :=
      ⟨p, i, Nat.le_refl p, here, reads, fun n j low high => absurd high (Nat.not_lt.mpr low)⟩
    change m.source (WordRoundTrip.readSource _ (vectorAt _ _)) lane = _
    rw [source_vector m _ _ vector.type, agree x.reg written awaited lane inside]
    rfl
  · exact source_immediate m _ dwords bits.toUInt32 lane

theorem interpret_at {i : Instruction} {dst : RegisterOperand} (target : i.dst = .register dst) (n : Nat)
    (v : Values) (r : VReg) (lane : Nat) : interpret n v i r lane =
      if r = dst.reg ∧ lane < n then computed v lane i else v r lane := by
  simp [interpret, target]

/-- A missing source reads as the dword zero. -/
theorem read_getD (src : List Operand) (v : Values) (lane n : Nat) :
    (src.map (read v lane)).getD n 0 = read v lane (src.getD n default) := by
  simp only [List.getD_eq_getElem?_getD, List.getElem?_map]
  cases src[n]? with
  | none => rfl
  | some o => rfl

theorem source_isDword {i : Instruction} (arithmetic : IsArithmetic width i) (n : Nat) :
    IsDword (i.src.getD n default).type := by
  rw [List.getD_eq_getElem?_getD]
  cases here : i.src[n]? with
  | none => exact .inl rfl
  | some o =>
    rcases arithmetic.source_cases (List.mem_of_getElem? here) with ⟨x, rfl, vector⟩ | ⟨t, bits, rfl, dwords⟩
    · exact vector.type
    · exact dwords

theorem Encodes.firstType {offsets : RegisterMap} {i : Instruction} {w : Word} {d : Decoded}
    (encodes : Encodes g offsets width i w d) (arithmetic : IsArithmetic width i) :
    d.firstType = (i.src.getD 0 default).type.dataType := by
  unfold Decoded.firstType
  rw [encodes.sources]
  cases src : i.src with
  | nil => rfl
  | cons o rest =>
    rcases arithmetic.source_cases (by rw [src]; exact List.mem_cons_self) with
      ⟨x, rfl, vector⟩ | ⟨t, bits, rfl, dwords⟩
    · rfl
    · rfl

/-- One instruction keeps the agreement. -/
theorem Lowered.step (lowered : Lowered g k width body s words) {p : Nat} {i : Instruction} {w : Word}
    {d : Decoded} {m : Machine} {v : Values} (here : body[p]? = some i)
    (encodes : Encodes g s.offsets width i w d) (agree : Agree body s.offsets width.toNat p m v) :
    ∃ m', m.step d = some m' ∧ Agree body s.offsets width.toNat (p + 1) m' (interpret width.toNat v i) := by
  have arithmetic := lowered.arithmetic i (List.mem_of_getElem? here)
  obtain ⟨dst, target, vector⟩ := arithmetic.dst
  have reads (lane : Nat) (inside : lane < d.execSize.toNat) :
      (m.inputs d lane).getD 0 0 = (i.src.getD 0 default).type.dataType.extend
          (dword v lane (i.src.getD 0 default)).toUInt64 ∧
        ((m.inputs d lane).getD 1 0).toUInt32 = dword v lane (i.src.getD 1 default) := by
    rw [encodes.lanes] at inside
    rw [lowered.inputs here encodes agree inside, read_getD, read_getD]
    exact ⟨rfl, extend_low (source_isDword arithmetic 1) _⟩
  obtain ⟨m', stepped, stored, around⟩ := step_effect m d (fun lane => dword v lane (i.src.getD 0 default))
    (fun lane => dword v lane (i.src.getD 1 default)) arithmetic.op encodes.opcode encodes.always
    (encodes.firstType arithmetic) (source_isDword arithmetic 0) vector.type
    (show d.dst = WordRoundTrip.readDestination (vectorAt (s.offsets.get dst.reg) dst.type) by
      rw [encodes.dst, target]
      rfl) reads
  rw [encodes.lanes] at stored around
  refine ⟨m', stepped, ?_⟩
  intro r written awaited lane inside
  rw [interpret_at target]
  by_cases same : r = dst.reg
  · rw [if_pos ⟨same, inside⟩, same, stored lane inside]
    rfl
  · rw [if_neg fun both => same both.1]
    have unwritten : i.writes r = false := by
      simpa [Instruction.writes, Operand.names, target, Operand.register?, vector.named] using
        fun other : dst.reg = r => same other.symm
    have writes : i.writes dst.reg = true := by
      simp [Instruction.writes, Operand.names, target, Operand.register?, vector.named]
    -- The register was written earlier, and it is awaited from here on.
    have before : Written body p r := by
      obtain ⟨q, j, early, atQ, writesQ⟩ := written
      rcases Nat.lt_or_eq_of_le (Nat.le_of_lt_succ early) with sooner | rfl
      · exact ⟨q, j, sooner, atQ, writesQ⟩
      · rw [here] at atQ
        cases atQ
        rw [unwritten] at writesQ
        cases writesQ
    have still : Awaited body p r := by
      obtain ⟨q, j, late, atQ, readsQ, kept⟩ := awaited
      refine ⟨q, j, by omega, atQ, readsQ, ?_⟩
      intro n e low high atN
      rcases Nat.lt_or_eq_of_le low with later | rfl
      · exact kept n e later high atN
      · rw [here] at atN
        cases atN
        exact unwritten
    rw [← agree r before still lane inside]
    have apart := lowered.apart here writes same before awaited
    exact Memory.load_congr fun a low high => around a (by omega)

theorem run_append (m : Machine) (l : Layout) (ws : List Word) (w : Word) :
    m.run l (ws ++ [w]) = (m.run l ws).bind fun m => (l.decode w).toOption.bind m.step := by
  simp [Machine.run, List.foldlM_append]

/-- Running the words of the first instructions leads to agreement with their interpretation. -/
theorem Lowered.runs (lowered : Lowered g k width body s words) (m : Machine) (v : Values) {p : Nat}
    (early : p ≤ body.length) :
    ∃ m', m.run g.layout (words.take p) = some m' ∧
      Agree body s.offsets width.toNat p m' (interpretAll width.toNat v (body.take p)) := by
  induction p with
  | zero =>
    refine ⟨m, rfl, ?_⟩
    rintro r ⟨q, i, before, -⟩
    exact absurd before (Nat.not_lt_zero q)
  | succ p ih =>
    obtain ⟨m', ran, agree⟩ := ih (by omega)
    have here : body[p]? = some (body.get ⟨p, early⟩) := List.getElem?_eq_getElem early
    obtain ⟨w, d, found, encodes⟩ := lowered.emits.arithmetic p _ here
    obtain ⟨m'', stepped, after⟩ := lowered.step here encodes agree
    refine ⟨m'', ?_, ?_⟩
    · rw [List.take_add_one, found, Option.toList_some, run_append, ran, Option.bind_some, encodes.decodes]
      exact stepped
    · rw [List.take_add_one, here, Option.toList_some, interpretAll, List.foldl_append]
      exact after

/-- The words run through, past those that end the thread. -/
theorem Lowered.completes (lowered : Lowered g k width body s words) (m : Machine) :
    ∃ m', m.run g.layout words = some m' := by
  obtain ⟨m', ran, -⟩ := lowered.runs m (fun _ _ => 0) (Nat.le_refl body.length)
  obtain ⟨copy, message, tail, ⟨d, copies, mov⟩, d', messages, send, -⟩ := lowered.emits.ending
  have split : words = words.take body.length ++ [copy] ++ [message] := by
    rw [List.append_assoc, ← show words.drop body.length = [copy] ++ [message] from tail,
      List.take_append_drop]
  obtain ⟨m'', moved⟩ : ∃ m'', m'.step d = some m'' := by
    simp [Machine.step, Machine.arithmetic?, mov]
  have sent : m''.step d' = some m'' := by
    simp [Machine.step, send]
  refine ⟨m'', ?_⟩
  rw [split, run_append, run_append, ran, Option.bind_some, copies, messages]
  change (m'.step d).bind (fun m => m.step d') = some m''
  rw [moved, Option.bind_some, sent]

end

/-! ## Compilation -/

theorem ofGeneration_file {g : Generation} {d : Device} (known : Device.ofGeneration? g = some d) :
    d.registerFileBytes = 4096 ∧ d.maxSimd = 16 := by
  cases g <;> cases known <;> exact ⟨rfl, rfl⟩

/-- A context keeps the kernel, for eight lanes or sixteen. -/
theorem new_ok {g : Generation} {k : Kernel} {settings : Settings} {variant : String}
    {r : Context × List CompileEvent} (made : Context.new g k settings variant = .ok r) :
    r.1.generation = g ∧ r.1.kernel = k ∧ (r.1.simdWidth = 8 ∨ r.1.simdWidth = 16) ∧
      r.1.device.registerFileBytes = 4096 ∧ Flavor.ofGeneration g = .ok r.1.flavor := by
  unfold Context.new at made
  split at made
  · cases made
  · cases made
  · rename_i flavor device lowered known
    obtain ⟨file, lanes⟩ := ofGeneration_file known
    dsimp only at made
    generalize (if settings.simdWidth ≠ 0 then settings.simdWidth else k.simdWidth) = asked at made
    split at made
    · cases made
    · rename_i offered
      split at made
      · cases made
      · cases made
        refine ⟨rfl, rfl, ?_, file, lowered⟩
        simp only [lanes]
        split <;> omega

/-- What selection, allocation and emission made on the way to a program. -/
theorem compile_stages {g : Generation} {k : Kernel} {settings : Settings} {variant : String}
    {compiled : Compilation} {log : List CompileEvent}
    (ran : k.compile g settings variant = .ok (compiled, log)) :
    ∃ (c : Context) (selected : Kernel) (events : List AllocationEvent) (told : List CompileEvent),
      (c.generation = g ∧ c.kernel = k ∧ (c.simdWidth = 8 ∨ c.simdWidth = 16) ∧
        c.device.registerFileBytes = 4096 ∧ Flavor.ofGeneration g = .ok c.flavor ∧
        ∃ before, Context.new g k settings variant = .ok (c, before)) ∧
      compiled.program.simdWidth = c.simdWidth ∧ c.select = .ok selected ∧
      Allocation.ofKernel selected c.sweepConfig = .ok (compiled.allocation, events) ∧
      c.emit compiled.allocation = .ok (compiled.program.words, told) := by
  simp only [Kernel.compile, bind_ok, mapError_ok] at ran
  obtain ⟨-, -, ⟨c, before⟩, made, ran⟩ := ran
  simp only [Context.compile, bind_ok, mapError_ok, refuse_ok] at ran
  obtain ⟨selected, select, ⟨a, events⟩, allocated, -, ⟨words, told⟩, emitted, whole⟩ := ran
  rw [pure_ok] at whole
  cases whole
  obtain ⟨generation, kernel, wide, file, flavor⟩ := new_ok made
  exact ⟨c, selected, events, told, ⟨generation, kernel, wide, file, flavor, before, made⟩, rfl, select, allocated,
    emitted⟩

section
variable {c : Context} {width : Int} {i : Instruction}

/-- Narrowing changes nothing but the number of lanes. -/
theorem narrowed_same (c : Context) (i : Instruction) :
    (Select.narrowed c i).op = i.op ∧ (Select.narrowed c i).dst = i.dst ∧
      (Select.narrowed c i).src = i.src ∧ (Select.narrowed c i).predicated = i.predicated := by
  unfold Select.narrowed
  split <;> exact ⟨rfl, rfl, rfl, rfl⟩

theorem narrowed_reads (c : Context) (i : Instruction) (r : VReg) :
    (Select.narrowed c i).reads r = i.reads r := by
  rw [Instruction.reads, (narrowed_same c i).2.2.1, Instruction.reads]

theorem narrowed_writes (c : Context) (i : Instruction) (r : VReg) :
    (Select.narrowed c i).writes r = i.writes r := by
  rw [Instruction.writes, (narrowed_same c i).2.1, Instruction.writes]

theorem interpret_narrowed (c : Context) (n : Nat) (v : Values) (i : Instruction) :
    interpret n v (Select.narrowed c i) = interpret n v i := by
  obtain ⟨op, dst, src, -⟩ := narrowed_same c i
  have same (lane : Nat) : computed v lane (Select.narrowed c i) = computed v lane i := by
    simp only [computed, op, src]
  unfold interpret
  simp only [dst, same]

theorem interpretAll_narrowed (c : Context) (n : Nat) (v : Values) (is : List Instruction) :
    interpretAll n v (is.map (Select.narrowed c)) = interpretAll n v is := by
  simp only [interpretAll, List.foldl_map, interpret_narrowed]

theorem IsArithmetic.narrowed (arithmetic : IsArithmetic c.simdWidth i) :
    IsArithmetic c.simdWidth (Select.narrowed c i) := by
  obtain ⟨op, dst, src, predicated⟩ := narrowed_same c i
  refine ⟨by rw [op]; exact arithmetic.op, by rw [predicated]; exact arithmetic.unpredicated, ?_,
    by rw [dst]; exact arithmetic.dst, by rw [src]; exact arithmetic.src⟩
  have width := arithmetic.width
  unfold Select.narrowed
  split
  · exact .inr (Int.le_refl _)
  · exact width

theorem IsArithmetic.width_narrowed (arithmetic : IsArithmetic c.simdWidth i) {k : Kernel}
    (simd : k.simdWidth = c.simdWidth) (wide : c.simdWidth = 8 ∨ c.simdWidth = 16) :
    k.widthOf (Select.narrowed c i) = c.simdWidth := by
  have width := arithmetic.width
  unfold Kernel.widthOf Instruction.width Select.narrowed
  rw [simd]
  by_cases larger : c.simdWidth < i.execWidth
  · rw [if_pos larger, if_pos (by dsimp only; omega)]
  · rw [if_neg larger]
    split <;> omega

/-- An arithmetic instruction names vectors of dwords, at most three. -/
theorem IsArithmetic.registers (arithmetic : IsArithmetic width i)
    (count : Select.sourceCount? i.op = some i.src.length) :
    (∀ o ∈ i.registers, IsVector o) ∧ i.registers.length ≤ 3 := by
  have named {o : Operand} {x y : RegisterOperand} (register : o.register? = some x)
      (same : o = .register y) (vector : IsVector y) : IsVector x := by
    rw [same, Operand.register?, if_neg vector.named] at register
    cases register
    exact vector
  obtain ⟨d, target, vector⟩ := arithmetic.dst
  refine ⟨?_, ?_⟩
  · intro x member
    rcases List.mem_append.mp member with dst | src
    · exact named (Option.mem_toList.mp dst) target vector
    · obtain ⟨o, source, register⟩ := List.mem_filterMap.mp src
      rcases arithmetic.source_cases source with ⟨y, same, plain⟩ | ⟨t, bits, rfl, -⟩
      · exact named register same plain
      · cases register
  · have most : i.src.length ≤ 2 := by
      have small : ∀ op ∈ operations, ∀ n, Select.sourceCount? op = some n → n ≤ 2 := by
        intro op known n found
        simp only [operations, List.mem_cons, List.not_mem_nil, or_false] at known
        rcases known with rfl | rfl | rfl | rfl | rfl | rfl | rfl | rfl | rfl | rfl <;> cases found <;> decide
      exact small i.op arithmetic.op _ count
    have dst : i.dst.register?.toList.length ≤ 1 := by
      cases i.dst.register? <;> simp
    have src := List.length_filterMap_le Operand.register? i.src
    rw [Instruction.registers, List.length_append]
    omega

/-- A straight-line kernel after selection: arithmetic on all lanes, and a last instruction that names no
register. -/
structure Selected (k : Kernel) (width : Int) (body : List Instruction) : Prop where
  code : ∃ last, k.code = body ++ [last] ∧ last.op = .endThread ∧ last.registers = []
  unpinned : ∀ r, k.pin? r = none
  arithmetic : ∀ i ∈ body, IsArithmetic width i ∧ k.widthOf i = width ∧
    Select.sourceCount? i.op = some i.src.length

theorem IsStraightLine.passes {c : Context} {body : List Instruction}
    (straight : IsStraightLine c.kernel width body) :
    ∀ i ∈ c.kernel.code, Passes (Select.narrowed c i) := by
  intro i member
  obtain ⟨last, code, ends, -⟩ := straight.code
  obtain ⟨op, dst, -⟩ := narrowed_same c i
  unfold Passes
  rw [op, dst]
  rw [code, List.mem_append, List.mem_singleton] at member
  rcases member with inside | rfl
  · obtain ⟨d, target, vector⟩ := (straight.arithmetic i inside).dst
    refine .inl ⟨(straight.arithmetic i inside).op, ?_⟩
    rw [target]
    exact (IsDword.not_int64 vector.type).1
  · exact .inr ends

theorem IsStraightLine.selected {k : Kernel} {body : List Instruction}
    (straight : IsStraightLine c.kernel c.simdWidth body) (wide : c.simdWidth = 8 ∨ c.simdWidth = 16)
    (select : c.select = .ok k) : Selected k c.simdWidth (body.map (Select.narrowed c)) := by
  obtain ⟨last, code, ends, undirected⟩ := straight.code
  obtain ⟨selectedCode, simd, pinned, counts⟩ := select_passes straight.stackless straight.passes select
  rw [code, List.map_append, List.map_cons, List.map_nil] at selectedCode
  obtain ⟨op, dst, -⟩ := narrowed_same c last
  refine ⟨⟨_, selectedCode, by rw [op, ends], ?_⟩, ?_, ?_⟩
  · have count := counts (Select.narrowed c last) (by rw [selectedCode]; simp)
    rw [op, ends] at count
    have empty : (Select.narrowed c last).src = [] := List.length_eq_zero_iff.mp (Option.some.inj count).symm
    simp [Instruction.registers, dst, undirected, empty]
  · intro r
    rw [Kernel.pin?, pinned]
    exact straight.unpinned r
  · intro i member
    have count := counts i (by rw [selectedCode]; exact List.mem_append_left _ member)
    obtain ⟨j, inside, rfl⟩ := List.mem_map.mp member
    have arithmetic := straight.arithmetic j inside
    exact ⟨arithmetic.narrowed, arithmetic.width_narrowed simd wide, count⟩

section
variable {k : Kernel} {body : List Instruction}

theorem Selected.mem_cases (selected : Selected k width body) (member : i ∈ k.code) :
    i ∈ body ∨ i.registers = [] := by
  obtain ⟨last, code, -, bare⟩ := selected.code
  rw [code, List.mem_append, List.mem_singleton] at member
  rcases member with inside | rfl
  · exact .inl inside
  · exact .inr bare

theorem Selected.uniform (selected : Selected k width body) : Uniform k width := by
  intro a access
  obtain ⟨at_, operand⟩ := mem_accesses.mp access
  rcases selected.mem_cases (List.mem_of_getElem? at_) with inside | empty
  · obtain ⟨plain, lanes, count⟩ := selected.arithmetic a.instruction inside
    exact ⟨(plain.registers count).1 a.operand operand, lanes⟩
  · rw [empty] at operand
    cases operand

theorem Selected.few (selected : Selected k width body) : ∀ i ∈ k.code, i.registers.length ≤ 3 := by
  intro i member
  rcases selected.mem_cases member with inside | empty
  · obtain ⟨plain, -, count⟩ := selected.arithmetic i inside
    exact (plain.registers count).2
  · simp [empty]

end

end

theorem compile_lowered {g : Generation} {k : Kernel} {settings : Settings} {variant : String}
    {compiled : Compilation} {log : List CompileEvent} {body : List Instruction}
    (ran : k.compile g settings variant = .ok (compiled, log))
    (straight : IsStraightLine k compiled.program.simdWidth body) (unspilled : compiled.allocation.spills = 0) :
    ∃ c k' s, Lowered g k' compiled.program.simdWidth (body.map (Select.narrowed c)) s
      compiled.program.words := by
  obtain ⟨c, k', events, told, ⟨rfl, rfl, wide, file, -⟩, simd, select, allocated, emitted⟩ :=
    compile_stages ran
  rw [simd] at straight ⊢
  have selected := straight.selected wide select
  obtain ⟨last, code, ends, -⟩ := selected.code
  obtain ⟨reserve, s, reserved, swept, kernel, offsets⟩ := ofKernel_unspilled allocated unspilled
  have sums := selected.uniform.sumsFit wide selected.few selected.unpinned file reserved
  obtain ⟨done, cur, invariant⟩ := run_uncrossed sums (pinsAside_of_unpinned selected.unpinned) swept
  refine ⟨c, k', s, wide, ⟨last, code⟩, ⟨_, _, done, cur, invariant⟩, selected.uniform,
    fun i member => (selected.arithmetic i member).1, ?_, ?_⟩
  · intro p i r here reads
    rw [List.getElem?_map] at here
    obtain ⟨j, atP, rfl⟩ := Option.map_eq_some_iff.mp here
    rw [narrowed_reads] at reads
    obtain ⟨q, e, before, atQ, writes⟩ := straight.defined p j r atP reads
    exact ⟨q, Select.narrowed c e, before, by rw [List.getElem?_map, atQ]; rfl, by rw [narrowed_writes, writes]⟩
  · rw [← offsets]
    refine emit_emits (by rw [kernel, code]) ends wide ?_ emitted
    rw [kernel]
    exact selected.arithmetic

/-- A program runs through, and every lane of the word of every instruction reads what the instructions
before it compute, whatever the registers held at the start. -/
def Faithful (g : Generation) (program : Program) (body : List Instruction) : Prop :=
  ∀ (m : Machine) (v : Values), (∃ final, m.run g.layout program.words = some final) ∧
    ∀ (p : Nat) (i : Instruction), body[p]? = some i →
      ∃ w d before, program.words[p]? = some w ∧ g.layout.decode w = .ok d ∧
        m.run g.layout (program.words.take p) = some before ∧ d.execSize = program.simdWidth ∧
        ∀ lane ∈ d.lanes, before.inputs d lane =
          i.src.map (read (interpretAll program.simdWidth.toNat v (body.take p)) lane)

/-- Straight-line kernels that compile without spills compute what their instructions say. -/
theorem compiled_faithful (g : Generation) (k : Kernel) (settings : Settings) (variant : String)
    (compiled : Compilation) (log : List CompileEvent) (body : List Instruction)
    (ran : k.compile g settings variant = .ok (compiled, log))
    (straight : IsStraightLine k compiled.program.simdWidth body)
    (unspilled : compiled.allocation.spills = 0) : Faithful g compiled.program body := by
  intro m v
  obtain ⟨c, selected, s, lowered⟩ := compile_lowered ran straight unspilled
  refine ⟨lowered.completes m, ?_⟩
  intro p i here
  have at_ : (body.map (Select.narrowed c))[p]? = some (Select.narrowed c i) := by
    rw [List.getElem?_map, here]
    rfl
  obtain ⟨w, d, found, encodes⟩ := lowered.emits.arithmetic p _ at_
  obtain ⟨before, ranBefore, agree⟩ := lowered.runs m v
    (Nat.le_of_lt (List.getElem?_eq_some_iff.mp at_).1)
  rw [← List.map_take, interpretAll_narrowed] at agree
  refine ⟨w, d, before, found, encodes.decodes, ranBefore, encodes.lanes, ?_⟩
  intro lane inside
  have small : lane < compiled.program.simdWidth.toNat := by
    rw [← encodes.lanes]
    exact List.mem_range.mp inside
  rw [lowered.inputs at_ encodes agree small, (narrowed_same c i).2.2.1]

/-- A kernel of sixteen lanes that is compiled to eight. Register 2 lives in a hole of register 0. -/
def scaled : Kernel where
  name := "scaled"
  simdWidth := 16
  code :=
    [{ op := .mov, dst := .vector ⟨0⟩ .ud, src := [.immediate .ud 3 false false] },
      { op := .add, dst := .vector ⟨1⟩ .d, src := [.vector ⟨0⟩ .ud, .immediate .d 7 false false],
        execWidth := 16 },
      { op := .not, dst := .vector ⟨2⟩ .ud, src := [.vector ⟨1⟩ .ud] },
      { op := .asr, dst := .vector ⟨1⟩ .d, src := [.vector ⟨2⟩ .d, .vector ⟨1⟩ .ud] },
      { op := .mul, dst := .vector ⟨0⟩ .ud, src := [.vector ⟨1⟩ .ud, .immediate .ud 5 false false] },
      { op := .endThread }]

/-- Every instruction of the kernel but the last. -/
def scaledBody : List Instruction := scaled.code.take 5

theorem scaled_arithmetic : ∀ i ∈ scaledBody, IsArithmetic 8 i := by
  have named : ∀ n : Fin 3, (⟨UInt32.ofNat n⟩ : VReg) ≠ VReg.none := by decide
  have vector (n : Fin 3) {t : Element} (dwords : IsDword t) :
      ∃ x, Operand.vector ⟨UInt32.ofNat n⟩ t = .register x ∧ IsVector x :=
    ⟨_, rfl, named n, dwords, rfl, Int.zero_le_ofNat 1, rfl, rfl, rfl⟩
  have immediate {t : Element} (bits : UInt64) (dwords : IsDword t) :
      IsImmediate (.immediate t bits false false) := ⟨t, bits, rfl, dwords⟩
  intro i member
  simp only [scaledBody, scaled, List.take_succ_cons, List.take_zero, List.mem_cons, List.not_mem_nil,
    or_false] at member
  rcases member with rfl | rfl | rfl | rfl | rfl
  · refine ⟨by decide, rfl, by decide, vector 0 (.inl rfl), ?_⟩
    rintro (_ | _) o here <;> cases here
    exact .inr ⟨rfl, immediate 3 (.inl rfl)⟩
  · refine ⟨by decide, rfl, by decide, vector 1 (.inr rfl), ?_⟩
    rintro (_ | _ | _) o here <;> cases here
    · exact .inl (vector 0 (.inl rfl))
    · exact .inr ⟨rfl, immediate 7 (.inr rfl)⟩
  · refine ⟨by decide, rfl, by decide, vector 2 (.inl rfl), ?_⟩
    rintro (_ | _) o here <;> cases here
    exact .inl (vector 1 (.inl rfl))
  · refine ⟨by decide, rfl, by decide, vector 1 (.inr rfl), ?_⟩
    rintro (_ | _ | _) o here <;> cases here
    · exact .inl (vector 2 (.inr rfl))
    · exact .inl (vector 1 (.inl rfl))
  · refine ⟨by decide, rfl, by decide, vector 0 (.inl rfl), ?_⟩
    rintro (_ | _ | _) o here <;> cases here
    · exact .inl (vector 1 (.inl rfl))
    · exact .inr ⟨rfl, immediate 5 (.inl rfl)⟩

theorem scaled_defined (p : Nat) (i : Instruction) (r : VReg) (here : scaledBody[p]? = some i)
    (reads : i.reads r = true) :
    ∃ (q : Nat) (j : Instruction), q < p ∧ scaledBody[q]? = some j ∧ j.writes r = true := by
  rw [Instruction.reads, List.any_eq_true] at reads
  obtain ⟨o, source, names⟩ := reads
  rcases p with _ | _ | _ | _ | _ | p <;> cases here <;>
    simp only [List.mem_cons, List.not_mem_nil, or_false] at source
  · obtain rfl := source
    cases names
  · rcases source with rfl | rfl
    · exact ⟨0, _, by decide, rfl, names⟩
    · cases names
  · obtain rfl := source
    exact ⟨1, _, by decide, rfl, names⟩
  · rcases source with rfl | rfl
    · exact ⟨2, _, by decide, rfl, names⟩
    · exact ⟨1, _, by decide, rfl, names⟩
  · rcases source with rfl | rfl
    · exact ⟨1, _, by decide, rfl, names⟩
    · cases names

theorem scaled_straightLine : IsStraightLine scaled 8 scaledBody :=
  ⟨.inr rfl, fun _ => rfl, rfl, ⟨_, rfl, rfl, rfl⟩, scaled_arithmetic, scaled_defined⟩

/-- Compilation succeeds without spills, narrows to eight lanes and reuses a hole. -/
theorem scaled_outcome : ((scaled.compile .gen6 {} "").toOption.map fun r =>
    (r.1.program.simdWidth, r.1.allocation.spills, r.1.allocation.holeReuses)) = some (8, 0, 1) := by
  simp only [Kernel.compile, Context.compile, Allocation.ofKernel, Allocation.sweep, Sweep.run, Sweep.start,
    Liveness.ofKernel, sorted_insertion]
  decide +kernel

theorem compiled_faithful_scaled :
    ∃ compiled log, scaled.compile .gen6 {} "" = .ok (compiled, log) ∧ compiled.allocation.holeReuses = 1 ∧
      Faithful .gen6 compiled.program scaledBody := by
  obtain ⟨⟨compiled, log⟩, ran, same⟩ := toOption_map_some.mp scaled_outcome
  simp only [Prod.mk.injEq] at same
  obtain ⟨simd, unspilled, reused⟩ := same
  refine ⟨compiled, log, ran, reused, ?_⟩
  exact compiled_faithful .gen6 scaled {} "" compiled log scaledBody ran
    (by rw [simd]; exact scaled_straightLine) unspilled

end GpuCodegen.StraightLine
