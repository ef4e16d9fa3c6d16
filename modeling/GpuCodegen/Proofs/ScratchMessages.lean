import GpuCodegen.Machine.Scratch
import GpuCodegen.Proofs.MemoryWrites
import GpuCodegen.Proofs.VectorOperands

/-! The words that code for scratch memory is made of, as what they do to registers and spaces: a move of
eight dwords copies a register, and scratch messages move one, two or four registers. For operands in
range the words exist. -/

namespace GpuCodegen.Memory

section
variable {m n other : Memory} {start first count a : Nat}

theorem copy_inside (low : start ≤ a) (high : a < start + count) :
    m.copy start other first count a = other (first + (a - start)) := if_pos ⟨low, high⟩

theorem copy_outside (outside : a < start ∨ start + count ≤ a) : m.copy start other first count a = m a :=
  if_neg (by omega)

/-- A copy depends on the bytes it takes. -/
theorem copy_congr {other' : Memory} {first' : Nat} (same : ∀ i < count, other (first + i) = other' (first' + i)) :
    m.copy start other first count = m.copy start other' first' count := by
  funext a
  unfold copy
  split
  · exact same _ (by omega)
  · rfl

/-- Two copies side by side are one. -/
theorem copy_append (more : Nat) :
    (m.copy start other first count).copy (start + count) other (first + count) more =
      m.copy start other first (count + more) := by
  funext a
  unfold copy
  split
  · rw [if_pos (by omega)]
    congr 1
    omega
  · split
    · rw [if_pos (by omega)]
    · rw [if_neg (by omega)]

theorem copy_none : m.copy start other first 0 = m := by
  funext a
  exact copy_outside (by omega)

end

/-- Equal values have equal bytes. -/
theorem byte_of_load {m n : Memory} {a b size : Nat} (short : size ≤ 8) (same : m.load a size = n.load b size)
    {k : Nat} (inside : k < size) : m (a + k) = n (b + k) := by
  rw [← UInt8.toNat_inj]
  apply Nat.eq_of_testBit_eq
  intro i
  by_cases low : i < 8
  · have left := m.testBit_load a short (8 * k + i)
    have right := n.testBit_load b short (8 * k + i)
    have byte : (8 * k + i) / 8 = k := by omega
    have bit : (8 * k + i) % 8 = i := by omega
    have within : 8 * k + i < 8 * size := by omega
    rw [byte, bit, decide_eq_true within, Bool.true_and] at left right
    rw [← left, ← right, same]
  · have small (v : UInt8) : v.toNat.testBit i = false :=
      Nat.testBit_lt_two_pow (Nat.lt_of_lt_of_le v.toNat_lt (Nat.pow_le_pow_right (by decide) (by omega)))
    rw [small, small]

end GpuCodegen.Memory

namespace GpuCodegen.Scratch
open Native Generation WordRoundTrip Outcome Lanes MemoryWrites ScratchMachine
open Vectors
open Footprints (memoryFunction_isTarget)

/-! ## Function controls -/

/-- The fields of a function control: the category, whether it writes, the code of the block and the row. -/
theorem scratchFunction_fields {write : Bool} {offset function : UInt32} {n : Nat}
    (made : scratchFunction write offset n = .ok function) :
    ∃ block : UInt32, (n = 1 ∧ block = 0 ∨ n = 2 ∧ block = 1 ∨ n = 4 ∧ block = 3) ∧
      function.toNat.testBit 18 = true ∧ function.toNat.testBit 17 = write ∧
      function.toNat / 4096 % 4 = block.toNat ∧ function.toNat % 4096 = (offset / grfSize).toNat ∧
      function.toNat < 2 ^ 19 := by
  obtain ⟨block, code, blockBit, rowBit, bits⟩ := scratchFunction_testBit made
  refine ⟨block, by exact_mod_cast code, ?category, ?writes, ?block, ?row, ?small⟩
  case category =>
    rw [bits, rowBit (by decide)]
    simp
  case writes =>
    rw [bits, rowBit (by decide), blockBit (by decide)]
    simp
  case block =>
    apply Nat.eq_of_testBit_eq
    intro i
    rw [show 4096 = 2 ^ 12 from rfl, show 4 = 2 ^ 2 from rfl, Nat.testBit_mod_two_pow,
      Nat.testBit_div_two_pow, bits, rowBit (by omega)]
    by_cases low : i < 2
    · have back : i + 12 - 12 = i := by omega
      have inside : i + 12 < 32 := by omega
      have not18 : ¬ i + 12 = 18 := by omega
      have not17 : ¬ i + 12 = 17 := by omega
      simp [low, back, inside, not18, not17]
    · simp [low, blockBit (Nat.not_lt.mp low)]
  case row =>
    apply Nat.eq_of_testBit_eq
    intro i
    rw [show 4096 = 2 ^ 12 from rfl, Nat.testBit_mod_two_pow, bits]
    by_cases low : i < 12
    · have not18 : ¬ i = 18 := by omega
      have not17 : ¬ i = 17 := by omega
      have not12 : ¬ 12 ≤ i := by omega
      simp [low, not18, not17, not12]
    · rw [rowBit (Nat.not_lt.mp low), decide_eq_false low, Bool.false_and]
  case small =>
    apply Nat.lt_pow_two_of_testBit
    intro i large
    have not18 : ¬ i = 18 := by omega
    have not17 : ¬ i = 17 := by omega
    rw [bits, rowBit (by omega)]
    simp [not18, not17, blockBit (show 2 ≤ i - 12 by omega)]

/-- The function control of a block in reach asks for the transfer of that block. -/
theorem scratchFunction_transfer (write : Bool) {offset : UInt32} {n : Nat} (size : n = 1 ∨ n = 2 ∨ n = 4)
    (aligned : offset % grfSize = 0) (reach : offset ≤ maxScratchOffset) :
    ∃ function, scratchFunction write offset n = .ok function ∧
      transfer? function = some ⟨write, offset.toNat, n⟩ ∧ function.toNat < 2 ^ 19 := by
  obtain ⟨function, made⟩ : ∃ function, scratchFunction write offset n = .ok function := by
    have fits : ¬ (offset % grfSize ≠ 0 ∨ maxScratchOffset < offset) := by
      rw [not_or, not_not, UInt32.not_lt]
      exact ⟨aligned, reach⟩
    simp only [scratchFunction, fits, if_false]
    rcases size with rfl | rfl | rfl <;> exact ⟨_, rfl⟩
  obtain ⟨block, code, category, writes, blockCode, rowCode, small⟩ := scratchFunction_fields made
  have whole : 32 * (offset / grfSize).toNat = offset.toNat := by
    have rest : offset.toNat % 32 = 0 := by
      have zero := congrArg UInt32.toNat aligned
      rwa [UInt32.toNat_mod] at zero
    rw [UInt32.toNat_div, show grfSize.toNat = 32 from rfl]
    omega
  refine ⟨function, made, ?_, small⟩
  simp only [transfer?, category, writes, blockCode, rowCode, whole, if_true]
  rcases code with ⟨rfl, rfl⟩ | ⟨rfl, rfl⟩ | ⟨rfl, rfl⟩ <;> rfl

/-! ## Words -/

/-- The words of issued commands exist, and they change registers and scratch memory in a certain way. -/
def Executes (g : Generation) (issues : List Issue) (effect : ScratchMachine → ScratchMachine → Prop) : Prop :=
  ∃ pieces, issues.mapM (fun x => g.assemble x.state x.command) = .ok pieces ∧
    ∀ t : ScratchMachine, ∃ t', t.run g pieces.flatten = some t' ∧ effect t t'

section
variable {g : Generation} {s : State} {xs ys : List Issue}
  {effect first second : ScratchMachine → ScratchMachine → Prop}

theorem executes_nil (same : ∀ t, effect t t) : Executes g [] effect :=
  ⟨[], rfl, fun t => ⟨t, rfl, same t⟩⟩

/-- One run of words after the other. -/
theorem Executes.append (early : Executes g xs first) (late : Executes g ys second)
    (joins : ∀ t t' t'', first t t' → second t' t'' → effect t t'') : Executes g (xs ++ ys) effect := by
  obtain ⟨pieces, made, runs⟩ := early
  obtain ⟨pieces', made', runs'⟩ := late
  refine ⟨pieces ++ pieces', ?_, fun t => ?_⟩
  · rw [List.mapM_append, bind_ok]
    exact ⟨pieces, made, bind_ok.mpr ⟨pieces', made', rfl⟩⟩
  · obtain ⟨t', ran, does⟩ := runs t
    obtain ⟨t'', ran', does'⟩ := runs' t'
    refine ⟨t'', ?_, joins t t' t'' does does'⟩
    rw [ScratchMachine.run] at ran ran' ⊢
    rw [List.flatten_append, List.foldlM_append, ran]
    exact ran'

theorem Executes.mono (runs : Executes g xs first) (weaker : ∀ t t', first t t' → effect t t') :
    Executes g xs effect := by
  obtain ⟨pieces, made, runs⟩ := runs
  refine ⟨pieces, made, fun t => ?_⟩
  obtain ⟨t', ran, does⟩ := runs t
  exact ⟨t', ran, weaker t t' does⟩

/-- A command of one word does what its instruction does. -/
theorem executes_word {c : Command} {w : Word} {d : Decoded} {f : ScratchMachine → ScratchMachine}
    (made : g.assemble s c = .ok [w]) (decodes : g.layout.decode w = .ok d)
    (steps : ∀ t : ScratchMachine, t.step g d = some (f t)) : Executes g [⟨s, c⟩] fun t t' => t' = f t := by
  refine ⟨[[w]], ?_, fun t => ⟨f t, ?_, rfl⟩⟩
  · simp only [List.mapM_cons, List.mapM_nil, bind_ok, pure_ok]
    exact ⟨[w], made, [], rfl, rfl⟩
  · simp [ScratchMachine.run, decodes, Except.toOption, steps]

/-- A command that is no message does what it does on the machine. -/
theorem executes_plain {c : Command} {w : Word} {d : Decoded} {P : Machine → Machine → Prop}
    (made : g.assemble s c = .ok [w]) (decodes : g.layout.decode w = .ok d) (quiet : d.message = none)
    (runs : ∀ m : Machine, ∃ m', m.run g.layout [w] = some m' ∧ P m m') :
    Executes g [⟨s, c⟩] fun t t' => P t.machine t'.machine ∧ t'.spaces = t.spaces := by
  refine ⟨[[w]], ?_, fun t => ?_⟩
  · simp only [List.mapM_cons, List.mapM_nil, bind_ok, pure_ok]
    exact ⟨[w], made, [], rfl, rfl⟩
  · obtain ⟨m', ran, holds⟩ := runs t.machine
    have step : t.machine.step d = some m' := by simpa [Machine.run, decodes, Except.toOption] using ran
    refine ⟨{ t with machine := m' }, ?_, holds, rfl⟩
    simp [ScratchMachine.run, decodes, Except.toOption, ScratchMachine.step, transferOf?, quiet, step]

/-! ## Moves -/

/-- Copies general registers. -/
def copyRows (t : ScratchMachine) (dst src n : Nat) : ScratchMachine :=
  { t with
    machine :=
      { t.machine with
        registers := t.machine.registers.copy (32 * dst) t.machine.registers (32 * src) (32 * n) } }

theorem ud8_vector {n : UInt32} (small : n.toNat < 128) : IsVector (.ud8 n 0) (32 * n.toNat) 32 := by
  have zero : (0 : UInt32).toNat = 0 := rfl
  refine ⟨⟨rfl, rfl, ?_, by omega⟩, show 0 < 32 by decide, ⟨8, .inr (.inl rfl), rfl⟩, ⟨rfl, rfl⟩, by omega⟩
  change n.toNat * 32 + (0 : UInt32).toNat = 32 * n.toNat
  omega

theorem ud8_nameable (g : Generation) {n : UInt32} (small : n.toNat < 128) : Nameable g (.ud8 n 0) :=
  (ud8_vector small).nameable (t := .ud) (by decide) (registerTypeCode_exists g (.inl rfl))

/-- A row that was written with the dwords of another is a copy of it. -/
theorem copy_of_wrote {m m' : Machine} {dst src : Nat}
    (wrote : Wrote m m' dst 4 8 (fun _ => true) fun lane => m.registers.load (src + lane * 4) 4) :
    m'.registers = m.registers.copy dst m.registers src 32 := by
  funext a
  by_cases inside : dst ≤ a ∧ a < dst + 32
  · have lane : (a - dst) / 4 < 8 := by omega
    have dword := wrote.element ((a - dst) / 4) lane
    rw [if_pos rfl, Nat.mod_eq_of_lt (m.registers.load_dword_lt _), UInt64.toNat_inj] at dword
    have byte := Memory.byte_of_load (by decide) dword (k := (a - dst) % 4) (by omega)
    have here : dst + (a - dst) / 4 * 4 + (a - dst) % 4 = a := by omega
    have there : src + (a - dst) / 4 * 4 + (a - dst) % 4 = src + (a - dst) := by omega
    rw [here, there] at byte
    rw [byte, Memory.copy_inside inside.1 inside.2]
  · rw [wrote.around a (by omega), Memory.copy_outside (by omega)]

/-- A move of the eight dwords of a register copies the register. -/
theorem executes_copy (issuable : Issuable g s) (width : s.execWidth = 8) (always : s.predicate = 0)
    {dst src : UInt32} (smallDst : dst.toNat < 128) (smallSrc : src.toNat < 128) :
    Executes g [⟨s, .mov (.ud8 dst 0) (.ud8 src 0)⟩] fun t t' => t' = copyRows t dst.toNat src.toNat 1 := by
  obtain ⟨w, built⟩ := unaryWord_exists issuable .mov (ud8_nameable g smallDst) (ud8_nameable g smallSrc)
  have made : g.assemble s (.mov (.ud8 dst 0) (.ud8 src 0)) = .ok [w] := map_ok.mpr ⟨w, built, rfl⟩
  have decodes := unaryWord_decodes issuable.toStateFits (by decide) rfl rfl
    ((ud8_nameable g smallDst).fits _) ((ud8_nameable g smallSrc).fits _) built
  have target := (ud8_vector smallDst).target .ud (by decide) 8
  have reads := (ud8_vector smallSrc).reads s (show 8 ≤ 16 by decide)
  have writes := (mov_writes issuable.toStateFits target (by rw [width]; rfl) reads made).2
  simp only [lets_always always] at writes
  refine (executes_plain made decodes rfl writes).mono ?_
  rintro t ⟨⟨registers, address, flag⟩, spaces⟩ ⟨wrote, same⟩
  obtain rfl := wrote.address
  obtain rfl := wrote.flag
  obtain rfl := copy_of_wrote wrote
  obtain rfl := same
  rfl

/-! ## Messages -/

theorem lengths_fit (g : Generation) {n : UInt32} (small : n.toNat ≤ 5) :
    g.layout.descriptor.messageLength.fits n = true ∧ g.layout.descriptor.responseLength.fits n = true := by
  have cases : n = 0 ∨ n = 1 ∨ n = 2 ∨ n = 3 ∨ n = 4 ∨ n = 5 := by
    simp only [← UInt32.toNat_inj]
    have known : (0 : UInt32).toNat = 0 ∧ (1 : UInt32).toNat = 1 ∧ (2 : UInt32).toNat = 2 ∧
        (3 : UInt32).toNat = 3 ∧ (4 : UInt32).toNat = 4 ∧ (5 : UInt32).toNat = 5 := by decide
    omega
  rcases layout_cases g with layout | layout <;> rw [layout] <;>
    rcases cases with rfl | rfl | rfl | rfl | rfl | rfl <;> decide

theorem function_fits (g : Generation) {n : UInt32} (small : n.toNat < 2 ^ 19) :
    g.layout.descriptor.function.fits n = true := by
  have bound : n.toUInt64 ≤ 524287 := by
    rw [UInt64.le_iff_toNat_le, UInt32.toNat_toUInt64]
    change n.toNat ≤ 524287
    omega
  rcases layout_cases g with layout | layout <;> rw [layout] <;> exact decide_eq_true bound

/-- A message exists if its destination can be stored and its lengths fit. -/
theorem sendWord_exists (target : SharedFunction) {dst payload : Register} {d : Descriptor}
    (issuable : Issuable g s) (aimed : ∀ w, ∃ w', g.setDestination dst w = .ok w') (source : Nameable g payload)
    (some_ : d.messageLength ≠ 0) (message : d.messageLength.toNat ≤ 5) (response : d.responseLength.toNat ≤ 5)
    (control : d.function.toNat < 2 ^ 19) : ∃ w, g.sendWord s target dst payload d = .ok w := by
  obtain ⟨w₀, header⟩ := headerWord_exists issuable .send
  obtain ⟨w₁, destination⟩ := aimed w₀
  obtain ⟨w₂, stored⟩ := setSource0_exists (s := s) source w₁
  have lengths := (lengths_fit g message).1
  have responds := (lengths_fit g response).2
  have functions := function_fits g control
  have file : ¬ (payload.file ≠ .grf ∧ payload.file ≠ .mrf) := fun other => other.1 source.file
  simp only [sendWord, setDescriptor, bind_ok, refuse_ok, pure_ok]
  exact ⟨_, w₀, header, file, w₁, destination, w₂, stored, by simp [some_, lengths], by simp [responds],
    by simp [functions], rfl⟩

theorem nullWords_fits (entry : Field) : Fits entry nullWords := by
  constructor <;> simp [nullWords, Register.null, Register.retype, Register.vec8, Register.vec] <;> decide

theorem nullWords_aimed (w : Word) : ∃ w', g.setDestination nullWords w = .ok w' := by
  obtain ⟨code, coded⟩ := registerTypeCode_exists g (.inr rfl)
  simp only [setDestination, refuse_ok, bind_ok]
  exact ⟨_, by rintro ⟨⟩, (), rfl, code, coded, rfl⟩

theorem payload_number {r : Register} (nameable : Nameable g r) : (readSource s r).number = r.number := by
  simp [readSource, nameable.register, nameable.direct]

variable {header data : Register} {offset : UInt32} {n : Nat} (issuable : Issuable g s)
  (headed : Nameable g header) (size : n = 1 ∨ n = 2 ∨ n = 4) (aligned : offset % grfSize = 0)
  (reach : offset ≤ maxScratchOffset)
include issuable headed size aligned reach

/-- A scratch write stores the registers that follow its header. -/
theorem executes_store : Executes g [⟨s, .scratchWrite header offset n⟩] fun t t' =>
    t' = t.store header.number.toNat offset.toNat n := by
  obtain ⟨function, made, asks, small⟩ := scratchFunction_transfer true size aligned reach
  have length : (UInt32.ofInt (1 + n)).toNat = 1 + n := by
    rcases size with rfl | rfl | rfl <;> rfl
  obtain ⟨w, sent⟩ := sendWord_exists g.memoryFunction (d := {
      function := function, header := true, messageLength := UInt32.ofInt (1 + n) }) issuable nullWords_aimed headed
    (by rcases size with rfl | rfl | rfl <;> exact nofun) (by rw [length]; omega) (Nat.zero_le 5) small
  have decodes := sendWord_decodes issuable.toStateFits (memoryFunction_isTarget g).1 (memoryFunction_isTarget g).2
    (nullWords_fits _) (headed.fits _) sent
  refine executes_word (w := w) ?_ decodes fun t => ?_
  · exact map_ok.mpr ⟨w, by simp only [scratchWriteWord, bind_ok]; exact ⟨function, made, sent⟩, rfl⟩
  · simp only [ScratchMachine.step, transferOf?, Option.bind_some, if_true, asks, Option.map_some, length,
      List.headD_cons, payload_number headed]

/-- A scratch read loads registers. -/
theorem executes_load (named : Nameable g (data.retype .uw)) :
    Executes g [⟨s, .scratchRead data header offset n⟩] fun t t' =>
      t' = t.load header.number.toNat data.number.toNat offset.toNat n := by
  obtain ⟨function, made, asks, small⟩ := scratchFunction_transfer false size aligned reach
  have length : (UInt32.ofInt n).toNat = n := by
    rcases size with rfl | rfl | rfl <;> rfl
  obtain ⟨w, sent⟩ := sendWord_exists g.memoryFunction (d := {
      function := function, header := true, messageLength := 1, responseLength := UInt32.ofInt n }) issuable
    (setDestination_exists named) headed nofun (by change 1 ≤ 5; decide) (by rw [length]; omega) small
  have decodes := sendWord_decodes issuable.toStateFits (memoryFunction_isTarget g).1 (memoryFunction_isTarget g).2
    (named.fits _) (headed.fits _) sent
  have place : (readDestination (data.retype .uw)).number = data.number := by
    have direct : data.indirect = none := named.direct
    simp [readDestination, Register.retype, direct]
  refine executes_word (w := w) ?_ decodes fun t => ?_
  · exact map_ok.mpr ⟨w, by simp only [scratchReadWord, bind_ok]; exact ⟨function, made, sent⟩, rfl⟩
  · simp [ScratchMachine.step, transferOf?, asks, length, payload_number headed, place]

end

end GpuCodegen.Scratch
