import GpuCodegen.Lowering.Sequence
import GpuCodegen.Proofs.WordRoundTrip

/-! Words that can be encoded. Where the state of the assembler is one the generation has and operands
are general registers in range, the words of one and two sources exist. -/

namespace GpuCodegen.WordRoundTrip
open Native Generation Layout Outcome

/-- A state that the headers of a generation's words can express. -/
structure Issuable (g : Generation) (s : State) : Prop extends StateFits s where
  width : s.execWidth = 1 ∨ s.execWidth = 4 ∨ s.execWidth = 8 ∨ s.execWidth = 16
  flag : ∃ flag, g.checkedFlag s = .ok flag

/-- A general register operand that words can name. -/
structure Nameable (g : Generation) (r : Register) : Prop where
  file : r.file = .grf
  direct : r.indirect = none
  fits : ∀ entry, Fits entry r
  number : r.number.toNat < 128
  sub : r.sub.toNat < 32
  type : ∃ code, g.registerTypeCode r.type = .ok code

/-- A second source that words can take: a register, or an immediate of at most a dword. -/
def IsSecond (g : Generation) (r : Register) : Prop :=
  Nameable g r ∨ r.file = .imm ∧ r.type.is64 = false ∧ ∃ code, g.immediateTypeCode r.type = .ok code

section
variable {g : Generation} {s : State} {dst src src0 src1 : Register}

theorem Nameable.checked {r : Register} (nameable : Nameable g r) (role : Role) :
    checkRegister role r = .ok () := by
  have general : ¬ (r.file = .arf ∨ r.indirect.isSome = true) := by
    simp [nameable.file, nameable.direct]
  have number : ¬ maxGrf ≤ r.number := by
    rw [UInt32.not_le, UInt32.lt_iff_toNat_lt]
    exact nameable.number
  have sub : ¬ grfSize ≤ r.sub := by
    rw [UInt32.not_le, UInt32.lt_iff_toNat_lt]
    exact nameable.sub
  rw [checkRegister, if_neg general, if_neg number, if_neg sub]

theorem Nameable.register {r : Register} (nameable : Nameable g r) : r.file ≠ .imm := by
  rw [nameable.file]
  nofun

theorem headerWord_exists (issuable : Issuable g s) (op : Native.Opcode) : ∃ w, g.headerWord s op = .ok w := by
  obtain ⟨flag, checked⟩ := issuable.flag
  have widths : ¬ (s.execWidth ≠ 1 ∧ s.execWidth ≠ 4 ∧ s.execWidth ≠ 8 ∧ s.execWidth ≠ 16) := by
    have width := issuable.width
    omega
  simp only [headerWord, refuse_ok, bind_ok, pure_ok]
  exact ⟨_, widths, flag, checked, rfl⟩

theorem setDestination_exists (nameable : Nameable g dst) (w : Word) : ∃ w', g.setDestination dst w = .ok w' := by
  obtain ⟨code, coded⟩ := nameable.type
  simp only [setDestination, refuse_ok, bind_ok, pure_ok, nameable.direct]
  exact ⟨_, nameable.register, (), nameable.checked _, code, coded, rfl⟩

theorem setSource0_exists (nameable : Nameable g src) (w : Word) : ∃ w', g.setSource0 s src w = .ok w' := by
  obtain ⟨code, coded⟩ := nameable.type
  simp only [setSource0, if_neg nameable.register, bind_ok, pure_ok, nameable.direct]
  exact ⟨_, (), nameable.checked _, code, coded, rfl⟩

theorem setSource0_immediate {t : DataType} {bits : UInt64} (allowed : g.checkType t = .ok ())
    (listed : ∃ code, g.immediateTypeCode t = .ok code) (w : Word) :
    ∃ w', g.setSource0 s (.imm t bits) w = .ok w' := by
  obtain ⟨code, listed⟩ := listed
  unfold setSource0
  rw [if_pos (show (Register.imm t bits).file = .imm from rfl)]
  simp only [setImmediate, bind_ok]
  split
  · exact ⟨_, (), allowed, code, listed, rfl⟩
  · exact ⟨_, (), allowed, code, listed, rfl⟩

/-- There is room for a second source after a register. -/
theorem setSource1_exists (second : IsSecond g src1) {w : Word} (room : fileAt g.layout.src0.file w ≠ .imm) :
    ∃ w', g.setSource1 s src1 w = .ok w' := by
  rcases second with nameable | ⟨immediate, narrow, code, coded⟩
  · obtain ⟨code, coded⟩ := nameable.type
    simp only [setSource1, refuse_ok, if_neg nameable.register, bind_ok, pure_ok, nameable.direct]
    exact ⟨_, room, by rintro ⟨⟩, (), nameable.checked _, code, coded, rfl⟩
  · simp only [setSource1, refuse_ok, if_pos immediate, bind_ok, pure_ok, narrow]
    exact ⟨_, room, by rintro ⟨⟩, code, coded, rfl⟩

theorem unaryWord_exists (issuable : Issuable g s) (op : Native.Opcode) (target : Nameable g dst)
    (source : Nameable g src) : ∃ w, g.unaryWord s op dst src = .ok w := by
  obtain ⟨w₀, header⟩ := headerWord_exists issuable op
  obtain ⟨w₁, destination⟩ := setDestination_exists target w₀
  obtain ⟨w, stored⟩ := setSource0_exists (s := s) source w₁
  simp only [unaryWord, bind_ok]
  exact ⟨w, w₀, header, w₁, destination, stored⟩

theorem binaryWord_exists (issuable : Issuable g s) {op : Native.Opcode} (known : op ∈ Native.Opcode.all)
    (plain : op.isThreeSource = false) (target : Nameable g dst) (source : Nameable g src0)
    (second : IsSecond g src1) : ∃ w, g.binaryWord s op dst src0 src1 = .ok w := by
  obtain ⟨w₀, header⟩ := headerWord_exists issuable op
  obtain ⟨w₁, destination⟩ := setDestination_exists target w₀
  obtain ⟨w₂, stored⟩ := setSource0_exists (s := s) source w₁
  have fed := ((begun_headerWord issuable.toStateFits known plain header).aimed (target.fits _) destination).fed
    (source.fits _) stored
  have room : fileAt g.layout.src0.file w₂ ≠ .imm := by
    rw [← decodeSrc0_file fed.source, readSource_file]
    exact source.register
  obtain ⟨w, last⟩ := setSource1_exists (s := s) second room
  simp only [binaryWord, bind_ok]
  exact ⟨w, w₀, header, w₁, destination, w₂, stored, last⟩

/-- A move of an immediate. -/
theorem movImmediate_exists {t : DataType} (bits : UInt64) (issuable : Issuable g s)
    (aimed : ∀ w, ∃ w', g.setDestination dst w = .ok w') (allowed : g.checkType t = .ok ())
    (listed : ∃ code, g.immediateTypeCode t = .ok code) : ∃ ws, g.assemble s (.mov dst (.imm t bits)) = .ok ws := by
  obtain ⟨w₀, header⟩ := headerWord_exists issuable .mov
  obtain ⟨w₁, destination⟩ := aimed w₀
  obtain ⟨w, stored⟩ : ∃ w, g.setSource0 s (.imm t bits) w₁ = .ok w := setSource0_immediate allowed listed w₁
  have built : g.unaryWord s .mov dst (.imm t bits) = .ok w := by
    simp only [unaryWord, bind_ok]
    exact ⟨w₀, header, w₁, destination, stored⟩
  exact ⟨[w], map_ok.mpr ⟨w, built, rfl⟩⟩

/-- A move or a two-source operation on operands that words can name. -/
def Operates (g : Generation) : Command → Prop
  | .unary _ dst src => Nameable g dst ∧ Nameable g src
  | .binary _ dst src0 src1 => Nameable g dst ∧ Nameable g src0 ∧ IsSecond g src1
  | _ => False

theorem assemble_exists (issuable : Issuable g s) {c : Command} (operates : Operates g c) :
    ∃ ws, g.assemble s c = .ok ws := by
  cases c with
  | unary op dst src =>
    obtain ⟨w, built⟩ := unaryWord_exists issuable op.opcode operates.1 operates.2
    exact ⟨[w], map_ok.mpr ⟨w, built, rfl⟩⟩
  | binary op dst src0 src1 =>
    have known : op.opcode ∈ Native.Opcode.all := by cases op <;> decide
    have plain : op.opcode.isThreeSource = false := by cases op <;> rfl
    obtain ⟨w, built⟩ := binaryWord_exists issuable known plain operates.1 operates.2.1 operates.2.2
    exact ⟨[w], map_ok.mpr ⟨w, built, rfl⟩⟩
  | _ => cases operates

theorem under_assembles {cs : List Command} (each : ∀ c ∈ cs, ∃ ws, g.assemble s c = .ok ws) :
    ∃ pieces, (Sequence.under s cs).mapM (fun x => g.assemble x.state x.command) = .ok pieces := by
  induction cs with
  | nil => exact ⟨[], rfl⟩
  | cons c rest ih =>
    obtain ⟨ws, assembled⟩ := each c List.mem_cons_self
    obtain ⟨pieces, others⟩ := ih fun d member => each d (List.mem_cons_of_mem _ member)
    simp only [Sequence.under, List.map_cons, List.mapM_cons, bind_ok, pure_ok]
    exact ⟨_, ws, assembled, pieces, others, rfl⟩

theorem under_exists (issuable : Issuable g s) {cs : List Command} (operates : ∀ c ∈ cs, Operates g c) :
    ∃ pieces, (Sequence.under s cs).mapM (fun x => g.assemble x.state x.command) = .ok pieces :=
  under_assembles fun c member => assemble_exists issuable (operates c member)

end

/-! ## Newer generations -/

section
variable {g : Generation} (known : g.isKnown = true) (family : g.isGen8Family = true)
include known family

/-- The types of qwords and of their halves have codes. -/
theorem registerTypeCode_qword {t : DataType} (type : t = .ul ∨ t = .l ∨ t = .ud) :
    ∃ code, g.registerTypeCode t = .ok code := by
  cases g with
  | chv | gen8 | gen9 | bxt | kbl | glk => rcases type with rfl | rfl | rfl <;> exact ⟨_, rfl⟩
  | gen6 | gen7 | gen75 => cases family
  | unlisted n => cases known

end

/-- Every generation has codes for dwords and words. -/
theorem registerTypeCode_exists (g : Generation) {t : DataType} (type : t = .ud ∨ t = .uw) :
    ∃ code, g.registerTypeCode t = .ok code := by
  have allowed : g.checkType t = .ok () := by rcases type with rfl | rfl <;> rfl
  simp only [registerTypeCode, allowed, bind_ok]
  rcases layout_cases g with layout | layout <;> rw [layout] <;> rcases type with rfl | rfl <;>
    exact ⟨_, (), trivial, rfl⟩

/-- Every generation has immediates of dwords, words and packed vectors. -/
theorem immediateTypeCode_exists (g : Generation) {t : DataType} (type : t = .ud ∨ t = .uw ∨ t = .v) :
    ∃ code, g.immediateTypeCode t = .ok code := by
  unfold immediateTypeCode
  rcases layout_cases g with layout | layout <;> rw [layout] <;> rcases type with rfl | rfl | rfl <;> exact ⟨_, rfl⟩

end GpuCodegen.WordRoundTrip
