import GpuCodegen.Proofs.EmittedFootprints
import GpuCodegen.Proofs.SplitOperands

/-! The words of a command that is split, and the word of the whole command. A command is split into quarters of its
operands, or its three-source word into two that differ in register numbers. -/

namespace GpuCodegen.SplitLanes
open Native WordRoundTrip Generation Footprints Outcome

/-! ## Words of whole commands -/

/-- What a word of one or two sources decodes to. -/
def plainWord (s : State) (op : Native.Opcode) (condition : UInt32) (dst : Register) (src : List Register) : Decoded :=
  { readHeader s op with
    condition := condition
    dst := readDestination dst
    sources := src.map (readSource s) }

/-- What a three-source word decodes to. -/
def tripleWord (s : State) (op : Native.Opcode) (dst src0 src1 src2 : Register) : Decoded :=
  readTriple { readHeader s op with accessMode := 1 } dst src0 src1 src2

/-- What one word decodes to that holds an arithmetic command on all its lanes. -/
def single (s : State) : Command → Decoded
  | .unary op dst src => plainWord s op.opcode 0 dst [src]
  | .binary op dst src0 src1 => plainWord s op.opcode 0 dst [src0, src1]
  | .compare condition dst src0 src1 => plainWord s .cmp condition dst [src0, src1]
  | .ternary op dst src0 src1 src2 => tripleWord s op.opcode dst src0 src1 src2
  | _ => readHeader s .nop

/-- A command of the arithmetic unit. -/
def IsArithmetic : Command → Prop
  | .unary .. | .binary .. | .compare .. | .ternary .. => True
  | _ => False

/-- A command on a quarter of the lanes. -/
def part (q : Nat) : Command → Command
  | .unary op dst src => .unary op (Emission.quarter dst q) (Emission.quarter src q)
  | .binary op dst src0 src1 =>
    .binary op (Emission.quarter dst q) (Emission.quarter src0 q) (Emission.quarter src1 q)
  | .compare condition dst src0 src1 =>
    .compare condition (Emission.quarter dst q) (Emission.quarter src0 q) (Emission.quarter src1 q)
  | .ternary op dst src0 src1 src2 =>
    .ternary op (Emission.quarter dst q) (Emission.quarter src0 q) (Emission.quarter src1 q) (Emission.quarter src2 q)
  | c => c

theorem operands_part (q : Nat) {c : Command} (arithmetic : IsArithmetic c) :
    operands (part q c) = (operands c).map (Emission.quarter · q) := by
  cases c <;> first | rfl | exact arithmetic.elim

theorem part_arithmetic (q : Nat) {c : Command} (arithmetic : IsArithmetic c) : IsArithmetic (part q c) := by
  cases c <;> trivial

theorem quarter_default (q : Nat) : Emission.quarter default q = default := by
  unfold Emission.quarter
  rw [if_pos (.inr (.inl (by decide)))]

theorem aluCommand_part (i : Instruction) (dst : Register) (src : List Register) (q : Nat) :
    Emission.aluCommand i (Emission.quarter dst q) (src.map (Emission.quarter · q)) =
      part q (Emission.aluCommand i dst src) := by
  have each (n : Nat) : (src.map (Emission.quarter · q)).getD n default = Emission.quarter (src.getD n default) q := by
    rw [List.getD_eq_getElem?_getD, List.getD_eq_getElem?_getD, List.getElem?_map]
    cases src[n]? with
    | none => exact (quarter_default q).symm
    | some r => rfl
  unfold Emission.aluCommand
  simp only [each]
  split <;> rfl

theorem commandFits {g : Generation} {c : Command} (arithmetic : IsArithmetic c) (tame : ∀ r ∈ operands c, Tame r) :
    CommandFits g c := by
  cases c with
  | unary op dst src => exact ⟨tame dst (by simp [operands]) _, tame src (by simp [operands]) _⟩
  | binary op dst src0 src1 | compare op dst src0 src1 =>
    exact ⟨tame dst (by simp [operands]) _, tame src0 (by simp [operands]) _, tame src1 (by simp [operands]) _⟩
  | ternary => trivial
  | _ => exact arithmetic.elim

/-- A command that is not split has one word. -/
theorem assemble_single {g : Generation} {s : State} {c : Command} {ws : List Word} (state : StateFits s)
    (arithmetic : IsArithmetic c) (tame : ∀ r ∈ operands c, Tame r) (narrow : s.execWidth ≠ 16)
    (made : g.assemble s c = .ok ws) : ws.map g.layout.decode = [.ok (single s c)] := by
  rw [assemble_decodes state (commandFits arithmetic tame) made]
  cases c with
  | ternary op dst src0 src1 src2 =>
    rw [readCommand, readTriples, if_neg fun both => narrow both.1]
    rfl
  | unary | binary | compare => rfl
  | _ => exact arithmetic.elim

/-! ## Runs -/

theorem executeAll_decoded {l : Layout} {ws : List Word} {ds : List Decoded} (decoded : ws.map l.decode = ds.map .ok)
    (f : List UInt64 → UInt64) (m : Machine) : executeAll f l m ws = some (ds.foldl (execute f) m) := by
  induction ws generalizing ds m with
  | nil =>
    cases ds with
    | nil => rfl
    | cons d rest => cases decoded
  | cons w ws ih =>
    cases ds with
    | nil => cases decoded
    | cons d rest =>
      simp only [List.map_cons, List.cons.injEq] at decoded
      rw [executeAll, List.foldlM_cons, decoded.1]
      exact ih decoded.2 (execute f m d)

/-! ## Halves of commands -/

/-- The state of a half. -/
def half (s : State) (q : Nat) : State := { s with execWidth := 8, quarter := UInt32.ofNat q }

section
variable {low : Nat → Prop} {d d₀ d₁ : Decoded} {s : State}

/-- Instructions with the header of a whole and of its halves, by their operands. -/
theorem halves_of {l : List Register} {x y z : Register → Register} (whole : d.execSize = 16 ∧ d.quarter = 0)
    (lower : d₀.execSize = 8 ∧ d₀.quarter = 0) (upper : d₁.execSize = 8 ∧ d₁.quarter = 1)
    (opcode : d₀.opcode = d.opcode ∧ d₁.opcode = d.opcode)
    (predicate : d₀.predicate = d.predicate ∧ d₁.predicate = d.predicate)
    (inverse : d₀.predInvert = d.predInvert ∧ d₁.predInvert = d.predInvert)
    (condition : d₀.condition = d.condition ∧ d₁.condition = d.condition) (targets : Targets low d.dst d₀.dst d₁.dst)
    (sources : d.sources = l.map x ∧ d₀.sources = l.map y ∧ d₁.sources = l.map z)
    (feeds : ∀ r ∈ l, Feeds low (x r) (y r) (z r)) : Halves d d₀ d₁ ∧ Undisturbed d d₀ := by
  obtain ⟨source, source₀, source₁⟩ := sources
  have firstType : d₀.firstType = d.firstType ∧ d₁.firstType = d.firstType := by
    simp only [Decoded.firstType, source, source₀, source₁]
    cases l with
    | nil => exact ⟨rfl, rfl⟩
    | cons r rest => exact (feeds r List.mem_cons_self).type
  refine ⟨⟨whole, lower, upper, opcode, predicate, inverse, condition, targets.type, firstType, targets.puts,
    fun m lane inside => ⟨?_, ?_⟩⟩, fun m m' same lane inside => ?_⟩
  · simp only [Machine.inputs, source, source₀, List.map_map]
    exact List.map_congr_left fun r member => (feeds r member).lower m lane inside
  · simp only [Machine.inputs, source, source₁, List.map_map]
    exact List.map_congr_left fun r member => (feeds r member).upper m lane inside
  · simp only [Machine.inputs, source, List.map_map]
    refine List.map_congr_left fun r member => (feeds r member).kept m m' (fun b outside => same b fun written => ?_)
      lane inside
    rw [lower.1] at written
    exact outside (targets.holds b written)

theorem plain_halves {op : Native.Opcode} {condition : UInt32} {dst : Register} {src : List Register}
    (lanes : s.execWidth = 16) (first : s.quarter = 0) (target : Target low dst) (feeds : ∀ r ∈ src, Feed low r) :
    Halves (plainWord s op condition dst src)
        (plainWord (half s 0) op condition (Emission.quarter dst 0) (src.map (Emission.quarter · 0)))
        (plainWord (half s 1) op condition (Emission.quarter dst 1) (src.map (Emission.quarter · 1))) ∧
      Undisturbed (plainWord s op condition dst src)
        (plainWord (half s 0) op condition (Emission.quarter dst 0) (src.map (Emission.quarter · 0))) :=
  halves_of (y := fun r => readSource (half s 0) (Emission.quarter r 0))
    (z := fun r => readSource (half s 1) (Emission.quarter r 1)) ⟨lanes, first⟩ ⟨rfl, rfl⟩ ⟨rfl, rfl⟩ ⟨rfl, rfl⟩
    ⟨rfl, rfl⟩ ⟨rfl, rfl⟩ ⟨rfl, rfl⟩ target.plain ⟨rfl, List.map_map, List.map_map⟩
    fun r member => (feeds r member).plain lanes rfl rfl

/-- The operands of a three-source word: general registers, and sources of one type. -/
structure IsTriple (dst src0 src1 src2 : Register) : Prop where
  target : dst.file = .grf
  sources : ∀ r ∈ [src0, src1, src2], r.file = .grf ∧ r.type = src0.type

theorem tripleWord_operands {g : Generation} {op : Native.Opcode} {dst src0 src1 src2 : Register} {w : Word}
    (encoded : g.tripleWord s op dst src0 src1 src2 = .ok w) :
    IsTriple dst src0 src1 src2 ∧ 4 ≤ dst.type.size ∧ 4 ≤ src0.type.size := by
  have general {role : Role} {r : Register} {u : Unit} (checked : checkTriple role r = .ok u) : r.file = .grf := by
    by_contra other
    simp [checkTriple, other] at checked
  have target := tripleWord_destination encoded
  simp only [Generation.tripleWord, checkTripleSource, bind_ok, reject_ok, pure_ok, Decidable.not_not] at encoded
  obtain ⟨_, -, _, -, _, -, _, ⟨_, checked0, -⟩, _, ⟨_, checked1, same1, -⟩, _, ⟨_, checked2, same2, -⟩, code, known,
      -⟩ :=
    encoded
  refine ⟨⟨target.1, ?_⟩, target.2.2.2, ?_⟩
  · simp only [List.forall_mem_cons, List.not_mem_nil, false_implies, implies_true, and_true]
    exact ⟨general checked0, ⟨general checked1, same1⟩, general checked2, same2⟩
  · unfold tripleTypeCode at known
    by_cases takes : g.tripleUnitTakes src0.type = true
    · exact tripleUnitTakes_size takes
    · simp [takes] at known

theorem Target.triple {dst : Register} (target : Target low dst) (file : dst.file = .grf) :
    Targets low (.vec8 dst.number dst.sub dst.type)
      (.vec8 (Emission.quarter dst 0).number (Emission.quarter dst 0).sub (Emission.quarter dst 0).type)
      (.vec8 (Emission.quarter dst 1).number (Emission.quarter dst 1).sub (Emission.quarter dst 1).type) := by
  rw [quarter_zero]
  cases target with
  | register first row vector small holds =>
    have advances := row.quarter small
    have upper := advances.upper
    rw [← advances.type] at upper
    have aimed := aimed_vec8 upper
    rw [advances.type] at aimed ⊢
    exact targets_register (aimed_vec8 row) (aimed_vec8 row) aimed holds
  | dropped other => exact absurd file other

theorem Target.upper {dst : Register} (target : Target low dst) (file : dst.file = .grf) (size : dst.type.size = 4) :
    Targets low (.vec8 dst.number dst.sub dst.type) (.vec8 dst.number dst.sub dst.type)
      (.vec8 (dst.number + 1) dst.sub dst.type) := by
  cases target with
  | register first row vector small holds =>
    have advances := row.upper size small
    have upper := advances.upper
    rw [← advances.type] at upper
    have aimed := aimed_vec8 upper
    rw [upperOperand, if_neg vector.vertical] at aimed
    exact targets_register (aimed_vec8 row) (aimed_vec8 row) aimed holds
  | dropped other => exact absurd file other

section
variable {op : Native.Opcode} {dst src0 src1 src2 : Register} (triple : IsTriple dst src0 src1 src2)
  (target : Target low dst) (feeds : ∀ r ∈ [src0, src1, src2], Feed low r)
include triple target feeds

/-- A three-source command that is split into quarters of its operands. -/
theorem triple_halves (lanes : s.execWidth = 16) (first : s.quarter = 0) :
    Halves (tripleWord s op dst src0 src1 src2)
        (tripleWord (half s 0) op (Emission.quarter dst 0) (Emission.quarter src0 0) (Emission.quarter src1 0)
          (Emission.quarter src2 0))
        (tripleWord (half s 1) op (Emission.quarter dst 1) (Emission.quarter src0 1) (Emission.quarter src1 1)
          (Emission.quarter src2 1)) ∧
      Undisturbed (tripleWord s op dst src0 src1 src2)
        (tripleWord (half s 0) op (Emission.quarter dst 0) (Emission.quarter src0 0) (Emission.quarter src1 0)
          (Emission.quarter src2 0)) := by
  have type : (Emission.quarter src0 1).type = src0.type := by
    obtain ⟨file, -⟩ := triple.sources src0 (by simp)
    cases feeds src0 (by simp) with
    | immediate immediate =>
      rw [file] at immediate
      cases immediate
    | register first step row small => exact (row.quarter small).type
  refine halves_of (l := [src0, src1, src2]) (x := readTripleSource src0.type)
    (y := fun r => readTripleSource src0.type (Emission.quarter r 0))
    (z := fun r => readTripleSource src0.type (Emission.quarter r 1)) ⟨lanes, first⟩ ⟨rfl, rfl⟩ ⟨rfl, rfl⟩ ⟨rfl, rfl⟩
    ⟨rfl, rfl⟩ ⟨rfl, rfl⟩ ⟨rfl, rfl⟩ (target.triple triple.target) ⟨rfl, ?_, ?_⟩ ?_
  · simp only [tripleWord, readTriple, quarter_zero]
  · simp only [tripleWord, readTriple, type]
    rfl
  · intro r member
    obtain ⟨file, same⟩ := triple.sources r member
    rw [← same]
    exact (feeds r member).triple file

/-- A three-source command whose word is split. -/
theorem word_halves (lanes : s.execWidth = 16) (first : s.quarter = 0) (sizeDst : dst.type.size = 4)
    (size : src0.type.size = 4) :
    Halves (tripleWord s op dst src0 src1 src2) (tripleWord (half s 0) op dst src0 src1 src2)
        (tripleWord (half s 1) op { dst with number := dst.number + 1 } (upperOperand src0) (upperOperand src1)
          (upperOperand src2)) ∧
      Undisturbed (tripleWord s op dst src0 src1 src2) (tripleWord (half s 0) op dst src0 src1 src2) := by
  refine halves_of (l := [src0, src1, src2]) (x := readTripleSource src0.type) (y := readTripleSource src0.type)
    (z := fun r => readTripleSource src0.type (upperOperand r)) ⟨lanes, first⟩ ⟨rfl, rfl⟩ ⟨rfl, rfl⟩ ⟨rfl, rfl⟩
    ⟨rfl, rfl⟩ ⟨rfl, rfl⟩ ⟨rfl, rfl⟩ (target.upper triple.target sizeDst) ⟨rfl, rfl, ?_⟩ ?_
  · simp only [tripleWord, readTriple, upperOperand_type]
    rfl
  · intro r member
    obtain ⟨file, same⟩ := triple.sources r member
    rw [← same] at size ⊢
    exact (feeds r member).upper file size

end

end

end GpuCodegen.SplitLanes
