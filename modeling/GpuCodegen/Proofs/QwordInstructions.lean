import GpuCodegen.Proofs.BranchTargets
import GpuCodegen.Proofs.QwordProducts

/-! The words of moves and products of qwords. Up to eight lanes an instruction has one run of words, and
on sixteen it has one for each quarter; either way they fill the row of the destination, lane by lane. -/

namespace GpuCodegen.Products
open Native Generation Lanes Outcome WordRoundTrip

/-! ## Operands -/

/-- A register of qwords, vector or scalar, without modifiers. -/
structure IsQwordRegister (o : RegisterOperand) : Prop where
  named : o.reg ≠ VReg.none
  type : o.type = .ul ∨ o.type = .l
  span : o.span ≤ 1
  part : o.part = 0
  negate : o.negate = false
  absolute : o.absolute = false

theorem IsQwordRegister.register {o : RegisterOperand} (qwords : IsQwordRegister o) :
    (Operand.register o).register? = some o := if_neg qwords.named

/-- A source of a product: a register or an immediate of qwords, without modifiers. -/
def IsFactor : Operand → Prop
  | .register x => IsQwordRegister x
  | .immediate t _ negate absolute => (t = .ul ∨ t = .l) ∧ negate = false ∧ absolute = false
  | .absent _ => False

/-- A number of lanes that words can run on. -/
def IsWidth (width : Int) : Prop := width = 1 ∨ width = 4 ∨ width = 8 ∨ width = 16

/-- The first byte of a register's place. -/
def rowOf (offsets : RegisterMap) (x : RegisterOperand) : Nat := (offsets.get x.reg).toNat

/-- The value of a source in a lane, widened by its type. A scalar has one value for all lanes. -/
def valueIn (offsets : RegisterMap) (m : Machine) (lane : Nat) : Operand → UInt64
  | .register x =>
    x.type.dataType.extend
      (m.registers.load (rowOf offsets x + x.type.size * (if x.scalar then 0 else lane)) x.type.size)
  | .immediate t bits _ _ => t.dataType.extend bits
  | .absent _ => 0

theorem valueIn_register {offsets : RegisterMap} {m : Machine} {lane : Nat} {x : RegisterOperand}
    (qwords : IsQwordRegister x) :
    valueIn offsets m lane (.register x) = qword m (rowOf offsets x) (if x.scalar then 0 else lane) := by
  rcases qwords.type with type | type <;> rw [valueIn, type] <;> rfl

theorem valueIn_immediate {offsets : RegisterMap} {m : Machine} {lane : Nat} {t : Element} {bits : UInt64}
    {negate absolute : Bool} (qwords : t = .ul ∨ t = .l) :
    valueIn offsets m lane (.immediate t bits negate absolute) = bits := by
  rcases qwords with rfl | rfl <;> rfl

/-- The operand of a qword register at a place: one element, or a row of four at a time. -/
def qwordsAt (offset : UInt32) (t : DataType) (single : Bool) : Register :=
  if single then Register.vec1 (offset / grfSize) (offset % grfSize) t
  else Register.vec (offset / grfSize) (offset % grfSize) t 4 4 1

theorem placed_qword {a : Allocation} {x : RegisterOperand} {width : Int} {r : Register}
    (qwords : IsQwordRegister x) (wide : IsWidth width) (placed : Emission.placed a x width = .ok r) :
    r = qwordsAt (a.offsets.get x.reg) x.type.dataType (x.scalar || width == 1) ∧
      a.offsets.contains x.reg = true := by
  simp only [Emission.placed, Emission.placeOf, RegisterMap.lookup?, bind_ok, pure_ok] at placed
  obtain ⟨offset, found, rfl⟩ := placed
  split at found
  · rename_i y looked
    cases found
    split at looked
    · rename_i contained
      cases looked
      refine ⟨?_, contained⟩
      have size : x.type.size = 8 := by
        rcases qwords.type with same | same <;> rw [same] <;> rfl
      have still : a.offsets.get x.reg + UInt32.ofInt (0 * (8 : Nat) * x.lanes width) =
          a.offsets.get x.reg := by
        have zero : UInt32.ofInt 0 = 0 := rfl
        simp [zero]
      simp only [qwords.part, size, still, qwords.negate, qwords.absolute, qwordsAt]
      by_cases single : (x.scalar || width == 1) = true
      · rw [if_pos single, if_pos single]
        rfl
      · have rows : min width ((32 / 8 : Nat) : Int) = 4 := by
          rcases wide with rfl | rfl | rfl | rfl
          · simp at single
          · rfl
          · rfl
          · rfl
        rw [if_neg single, if_neg single, rows]
        rfl
    · cases looked
  · cases found

section
variable {offset : UInt32} {t : DataType} (type : t = .ul ∨ t = .l)
include type

theorem qwordsAt_isQwords {single : Bool} {lanes : Nat} (few : single = true → lanes ≤ 1) :
    IsQwords (qwordsAt offset t single) offset.toNat lanes := by
  have size : grfSize.toNat = 32 := rfl
  have sub : (offset % grfSize).toNat < 32 := by
    rw [UInt32.toNat_mod, size]
    omega
  have base : (offset / grfSize).toNat * 32 + (offset % grfSize).toNat = offset.toNat := by
    rw [UInt32.toNat_mod, UInt32.toNat_div, size]
    omega
  unfold qwordsAt
  split
  · exact ⟨rfl, rfl, rfl, rfl, type, .inr ⟨show Region.ofCounts 0 1 0 = .scalar by decide, few ‹_›⟩, sub, base⟩
  · exact ⟨rfl, rfl, rfl, rfl, type, .inl rfl, sub, base⟩

/-- Every lane reads the same qword of a scalar. -/
theorem qwordsAt_reads (s : State) (lanes : Nat) :
    Reads s (qwordsAt offset t true) lanes fun m _ => qword m offset.toNat 0 := by
  have scalar : Region.ofCounts 0 1 0 = .scalar := by decide
  refine ⟨?_, ?_⟩
  · intro f
    constructor <;> simp [qwordsAt, Register.vec1, Register.vec, scalar] <;> decide
  · intro m lane _
    have region : sourceRegion s (qwordsAt offset t true) = .scalar := by
      simp [sourceRegion, qwordsAt, Register.vec1, Register.vec, scalar]
    have element : Region.scalar.element lane = 0 := by
      simp [Region.element, Region.scalar, strideElems]
    have place : (offset / grfSize * grfSize + offset % grfSize).toNat = offset.toNat := by
      rw [offset_split]
    have extends_ (v : UInt64) : t.size = 8 ∧ t.extend v = v := by
      rcases type with rfl | rfl <;> exact ⟨rfl, rfl⟩
    simp only [readSource, region]
    simp only [qwordsAt, Register.vec1, Register.vec, if_true, reduceCtorEq, if_false, Machine.source,
      Machine.element, Machine.sourceAddress, Option.isSome_none, Bool.false_eq_true, Bool.false_and,
      Register.byteOffset, element, place, (extends_ 0).1, (extends_ _).2, qword]

/-- The second quarter of a vector starts eight qwords later. -/
theorem quarter_isQwords (lanes : Nat) :
    IsQwords (Emission.quarter (qwordsAt offset t false) 1) (offset.toNat + 8 * 8) lanes := by
  obtain ⟨file, direct, negate, absolute, type_, -, sub, base⟩ : IsQwords (qwordsAt offset t false) offset.toNat 0 :=
    qwordsAt_isQwords type nofun
  have moved : Emission.quarter (qwordsAt offset t false) 1 = (qwordsAt offset t false).offset 0 64 := by
    rcases type with rfl | rfl <;> rfl
  have small := offset.toNat_lt
  have size : grfSize.toNat = 32 := rfl
  have step : (64 : UInt32).toNat = 64 := rfl
  have zero : (0 : UInt32).toNat = 0 := rfl
  rw [moved]
  refine ⟨file, direct, negate, absolute, type_, .inl rfl, ?_, ?_⟩
  · simp only [Register.offset, UInt32.toNat_mod, size]
    omega
  · simp only [Register.offset, UInt32.toNat_mod, UInt32.toNat_add, UInt32.toNat_div, size, step, zero]
    omega

omit type in
theorem quarter_scalar (q : Nat) : Emission.quarter (qwordsAt offset t true) q = qwordsAt offset t true := by
  have scalar : Region.ofCounts 0 1 0 = .scalar := by decide
  have same : (qwordsAt offset t true).isScalar = true := by
    simp [Register.isScalar, qwordsAt, Register.vec1, Register.vec, scalar]
  unfold Emission.quarter Register.quarter
  rw [if_pos same]
  split <;> rfl

end

/-! ## Quarters -/

/-- Machines that differ in nothing but rows of a number of lanes. -/
def SameOutside (rows : List Nat) (lanes : Nat) (m m' : Machine) : Prop :=
  ∀ b, (∀ row ∈ rows, b < row ∨ row + 8 * lanes ≤ b) → m'.registers b = m.registers b

theorem run_concat (m : Machine) (l : Layout) (ws ws' : List Word) :
    m.run l (ws ++ ws') = (m.run l ws).bind fun m => m.run l ws' := by
  simp [Machine.run, List.foldlM_append]

/-- Lanes that are filled one part after the other. The values must not depend on what is written. -/
theorem fills_append {l : Layout} {ws ws' : List Word} {count count' dst : Nat} {on : UInt32 → Nat → Bool}
    {rows : List Nat} {value : Machine → Nat → UInt64} (first : Fills l ws 0 count on dst rows value)
    (second : Fills l ws' count count' on dst rows value)
    (apart : ∀ row ∈ rows, row = dst ∨ RowsApart (count + count') dst row)
    (stable : ∀ m m' lane, lane < count + count' → SameOutside rows (count + count') m m' →
      value m' lane = value m lane) : Fills l (ws ++ ws') 0 (count + count') on dst rows value := by
  intro m
  obtain ⟨m₁, ran, flag, cells, around⟩ := first m
  obtain ⟨m₂, ran', flag', cells', around'⟩ := second m₁
  have early : SameOutside rows (count + count') m m₁ := by
    intro b outside
    refine around b fun row member => ?_
    have away := outside row member
    omega
  refine ⟨m₂, by rw [run_concat, ran, Option.bind_some, ran'], flag'.trans flag, ?_, ?_⟩
  · intro lane _ high works
    by_cases left : lane < count
    · rw [← cells lane (by omega) (by omega) works]
      refine Memory.load_congr fun b low high => around' b fun row member => ?_
      rcases apart row member with rfl | away
      · omega
      · unfold RowsApart at away
        omega
    · rw [cells' lane (by omega) (by omega) (by rw [flag]; exact works), stable m m₁ lane (by omega) early]
  · intro b outside
    rw [around' b fun row member => by have away := outside row member; omega]
    exact early b fun row member => by have away := outside row member; omega

/-- Whether an instruction works on a lane. -/
def enabled (i : Instruction) (flag : UInt32) (lane : Nat) : Bool := !i.predicated || flag.toNat.testBit lane

section
variable {g : Generation} {i : Instruction} {width simd : Int} {dst : Nat} {rows : List Nat}
  {value : Machine → Nat → UInt64}

/-- The state of an instruction in the quarter `q`. -/
def quarterState (i : Instruction) (width : Int) (q : Nat) : State :=
  { StraightLine.plainState width with
    quarter := UInt32.ofNat q
    predicate := if i.predicated then 1 else 0 }

theorem quarterState_lets (i : Instruction) (width : Int) {q : Nat} (small : q < 4) (flag : UInt32) (lane : Nat) :
    lets (quarterState i width q) flag lane = enabled i flag (8 * q + lane) := by
  have index : (UInt32.ofNat q).toNat = q := by
    rw [UInt32.toNat_ofNat']
    omega
  cases predicated : i.predicated <;>
    simp [lets, quarterState, StraightLine.plainState, enabled, predicated, index]

theorem quarterState_fits (i : Instruction) (width : Int) {q : Nat} (small : q < 4) :
    StateFits (quarterState i width q) := by
  constructor
  · change (UInt32.ofNat q).toNat < 4
    rw [UInt32.toNat_ofNat']
    omega
  · simp only [quarterState]
    split <;> decide

/-- An instruction that is emitted in quarters fills all its lanes, if every quarter fills its own. -/
theorem quarters_fills {f : State → Nat → List Issue} {pieces : List (List Word)} (wide : IsWidth width)
    (each : ∀ (q : Nat) (count : Int) (pieces : List (List Word)), q < 2 → count ≤ 8 →
      8 * q + count.toNat ≤ width.toNat → (q ≠ 0 → width = 16) →
      (f (quarterState i count q) q).mapM (fun x => g.assemble x.state x.command) = .ok pieces →
      (∀ w ∈ pieces.flatten, StraightLine.Steady g w) ∧
        Fills g.layout pieces.flatten (8 * q) count.toNat (enabled i) dst rows value)
    (apart : ∀ row ∈ rows, row = dst ∨ RowsApart width.toNat dst row)
    (stable : ∀ m m' lane, lane < width.toNat → SameOutside rows width.toNat m m' → value m' lane = value m lane)
    (made : (Emission.quarters (quarterState i width 0) width f).mapM (fun x => g.assemble x.state x.command) =
      .ok pieces) :
    (∀ w ∈ pieces.flatten, StraightLine.Steady g w) ∧
      Fills g.layout pieces.flatten 0 width.toNat (enabled i) dst rows value := by
  unfold Emission.quarters at made
  split at made
  · rename_i narrow
    exact each 0 width pieces (by decide) narrow (by omega) (fun other => absurd rfl other) made
  · rename_i broad
    obtain rfl : width = 16 := by
      unfold IsWidth at wide
      omega
    have both : (List.range ((16 : Int).tdiv 8).toNat).flatMap (fun q =>
        f { quarterState i 16 0 with execWidth := 8, quarter := UInt32.ofNat q } q) =
          f (quarterState i 8 0) 0 ++ f (quarterState i 8 1) 1 := by
      change f (quarterState i 8 0) 0 ++ (f (quarterState i 8 1) 1 ++ []) = _
      rw [List.append_nil]
    rw [both, List.mapM_append] at made
    simp only [bind_ok, pure_ok] at made
    obtain ⟨lower, left, upper, right, rfl⟩ := made
    obtain ⟨steadyLeft, fillsLeft⟩ := each 0 8 lower (by decide) (by decide) (by decide) (fun _ => rfl) left
    obtain ⟨steadyRight, fillsRight⟩ := each 1 8 upper (by decide) (by decide) (by decide) (fun _ => rfl) right
    rw [List.flatten_append]
    refine ⟨?_, fills_append fillsLeft fillsRight apart stable⟩
    intro w member
    rcases List.mem_append.mp member with one | other
    · exact steadyLeft w one
    · exact steadyRight w other

end

/-! ## Instructions -/

/-- The words of an instruction come from its commands. -/
theorem encoded_ok {g : Generation} {f : Emission.Frame} {i : Instruction} {piece : List Word}
    (label : i.op ≠ .label) (jump : i.op ≠ .jump) (made : Branches.encoded g f i = .ok piece) :
    ∃ issues pieces, Emission.instruction f i = .ok issues ∧
      issues.mapM (fun x => g.assemble x.state x.command) = .ok pieces ∧ piece = pieces.flatten := by
  unfold Branches.encoded at made
  split at made
  · exact absurd ‹_› label
  · exact absurd ‹_› jump
  · simp only [bind_ok, mapError_ok, pure_ok] at made
    obtain ⟨issues, emitted, pieces, assembled, rfl⟩ := made
    exact ⟨issues, pieces, emitted, assembled, rfl⟩

/-- A word only runs on a number of lanes it can encode. -/
theorem assemble_width {g : Generation} {s : State} {c : Command} {ws : List Word} (made : g.assemble s c = .ok ws)
    (arithmetic : operands c ≠ []) : IsWidth s.execWidth := by
  have header {op : Native.Opcode} {w : Word} (begun : g.headerWord s op = .ok w) : IsWidth s.execWidth := by
    simp only [headerWord, refuse_ok] at begun
    have widths := begun.1
    unfold IsWidth
    omega
  cases c with
  | unary op dst src =>
    obtain ⟨w, built, -⟩ := map_ok.mp made
    simp only [unaryWord, bind_ok] at built
    obtain ⟨_, begun, -⟩ := built
    exact header begun
  | binary op dst src0 src1 =>
    obtain ⟨w, built, -⟩ := map_ok.mp made
    simp only [binaryWord, bind_ok] at built
    obtain ⟨_, begun, -⟩ := built
    exact header begun
  | _ => exact absurd rfl arithmetic

theorem instructionState_eq (simd width : Int) {i : Instruction} (other : i.op ≠ .select) :
    Emission.instructionState (StraightLine.plainState simd) i width = quarterState i width 0 := by
  have plain : (i.op == .select) = false := by simpa using other
  simp only [Emission.instructionState, plain, Bool.or_false]
  rfl

theorem IsQwordRegister.dataType {x : RegisterOperand} (qwords : IsQwordRegister x) :
    x.type.dataType = .ul ∨ x.type.dataType = .l := by
  rcases qwords.type with same | same <;> rw [same]
  · exact .inl rfl
  · exact .inr rfl

section
variable {q count : Nat} {width : Int} {offset : UInt32} {t : DataType} {single : Bool}

/-- A single lane has no upper quarter. -/
theorem lone_lane {scalar : Bool} (aim : scalar = false ∨ width = 1) (inside : 8 * q + count ≤ width.toNat)
    (upper : q ≠ 0 → width = 16) (single : (scalar || width == 1) = true) : q = 0 ∧ count ≤ 1 := by
  have one : width = 1 := by
    rcases aim with rfl | one
    · simpa using single
    · exact one
  omega

/-- A quarter of a vector, or the only lane of an element. -/
theorem quarter_row (type : t = .ul ∨ t = .l) (small : q < 2) (lone : single = true → q = 0 ∧ count ≤ 1) :
    IsQwords (Emission.quarter (qwordsAt offset t single) q) (offset.toNat + 8 * (8 * q)) count := by
  rcases q with _ | _ | q
  · exact qwordsAt_isQwords type fun one => (lone one).2
  · cases single with
    | false => exact quarter_isQwords type count
    | true => exact absurd (lone rfl).1 (by decide)
  · omega

end

section
variable {g : Generation} {f : Emission.Frame} {i : Instruction} {simd width : Int} {x : RegisterOperand} {o : Operand}
  {piece : List Word} {a : Allocation}

/-- What a source of a move reads in a quarter. -/
theorem factor_reads {s : State} {q count : Nat} {r dst : Register} {ws : List Word} (factor : IsFactor o)
    (wide : IsWidth width) (operand : Emission.operand a width o = .ok r) (small : q < 2)
    (inside : 8 * q + count ≤ width.toNat) (upper : q ≠ 0 → width = 16)
    (made : g.assemble s (.mov dst (Emission.quarter r q)) = .ok ws) :
    Reads s (Emission.quarter r q) count fun m lane => valueIn a.offsets m (8 * q + lane) o := by
  cases o with
  | absent t => exact absurd factor id
  | immediate t bits negate absolute =>
    obtain ⟨type, rfl, rfl⟩ := factor
    obtain ⟨native, qwords, rfl⟩ : ∃ native : DataType, (native = .ul ∨ native = .l) ∧ r = .imm native bits := by
      rcases type with rfl | rfl <;> cases operand
      · exact ⟨.ul, .inl rfl, rfl⟩
      · exact ⟨.l, .inr rfl, rfl⟩
    have whole : Emission.quarter (.imm native bits) q = .imm native bits := by
      simp [Emission.quarter, Register.imm]
    rw [whole]
    simp only [valueIn_immediate type]
    exact reads_immediate s qwords bits count
  | register x =>
    have qwords : IsQwordRegister x := factor
    obtain ⟨rfl, -⟩ := placed_qword qwords wide operand
    cases scalar : x.scalar with
    | true =>
      rw [Bool.true_or, quarter_scalar]
      simp only [valueIn_register qwords, scalar, if_true]
      exact qwordsAt_reads qwords.dataType s count
    | false =>
      have row : IsQwords (Emission.quarter (qwordsAt (a.offsets.get x.reg) x.type.dataType (false || width == 1)) q)
          ((a.offsets.get x.reg).toNat + 8 * (8 * q)) count :=
        quarter_row qwords.dataType small (lone_lane (.inl rfl) inside upper)
      rw [scalar] at made
      have number := assemble_number made (List.mem_cons_of_mem _ List.mem_cons_self) row.file row.direct
      simp only [valueIn_register qwords, scalar, Bool.false_eq_true, if_false, rowOf, ← qword_shift]
      exact (row.row number).reads s

/-- The commands of a move of qwords. Up to eight lanes there is one quarter, which is the whole. -/
theorem mov_emitted (base : f.base = StraightLine.plainState simd) (op : i.op = .mov) (target : i.dst = .register x)
    (qwords : IsQwordRegister x) (src : i.src = [o]) (lanes : f.allocation.kernel.widthOf i = width)
    (made : Branches.encoded g f i = .ok piece) :
    ∃ dst r pieces, Emission.placed f.allocation x width = .ok dst ∧ Emission.operand f.allocation width o = .ok r ∧
      (Emission.quarters (quarterState i width 0) width fun s q =>
        [⟨s, .mov (Emission.quarter dst q) (Emission.quarter r q)⟩]).mapM
          (fun x => g.assemble x.state x.command) = .ok pieces ∧ piece = pieces.flatten := by
  obtain ⟨issues, pieces, emitted, assembled, rfl⟩ :=
    encoded_ok (by rw [op]; rintro ⟨⟩) (by rw [op]; rintro ⟨⟩) made
  simp only [Emission.instruction, op, lanes, base, Emission.alu, Emission.checked, bind_ok, mapError_ok, src,
    List.mapM_cons, List.mapM_nil, pure_ok, target] at emitted
  obtain ⟨_, ⟨r, operand, _, rfl, rfl⟩, dst, placed, issued⟩ := emitted
  rw [instructionState_eq simd width (by rw [op]; rintro ⟨⟩)] at issued
  have broad : Emission.isWide i width = decide (8 < width) := by
    have qword : x.type.is64 = true := by
      rcases qwords.type with same | same <;> rw [same] <;> rfl
    simp [Emission.isWide, target, Operand.isAbsent, Operand.type, qword]
  have command (dst r : Register) : Emission.aluCommand i dst [r] = .mov dst r := by
    simp [Emission.aluCommand, op, Command.mov]
  refine ⟨dst, r, pieces, placed, operand, ?_, rfl⟩
  rw [← assembled]
  congr 1
  rw [broad] at issued
  split at issued
  · cases issued
    simp only [List.map_cons, List.map_nil, command]
  · rename_i narrow
    cases issued
    simp only [decide_eq_true_eq] at narrow
    rw [Emission.quarters, if_pos (by omega), command]
    rfl

theorem mov_placed (base : f.base = StraightLine.plainState simd) (op : i.op = .mov) (target : i.dst = .register x)
    (qwords : IsQwordRegister x) (src : i.src = [o]) (factor : IsFactor o) (wide : IsWidth width)
    (lanes : f.allocation.kernel.widthOf i = width) (made : Branches.encoded g f i = .ok piece) :
    f.allocation.offsets.contains x.reg = true ∧
      ∀ y, o = .register y → f.allocation.offsets.contains y.reg = true := by
  obtain ⟨dst, r, pieces, placed, operand, -⟩ := mov_emitted base op target qwords src lanes made
  refine ⟨(placed_qword qwords wide placed).2, ?_⟩
  rintro y rfl
  exact (placed_qword factor wide operand).2

/-- A move of qwords fills its destination with the values of its source. -/
theorem mov_fills (base : f.base = StraightLine.plainState simd) (op : i.op = .mov) (target : i.dst = .register x)
    (qwords : IsQwordRegister x) (src : i.src = [o]) (factor : IsFactor o) (wide : IsWidth width)
    (lanes : f.allocation.kernel.widthOf i = width) (aim : x.scalar = false ∨ width = 1)
    (stable : ∀ m m' lane, lane < width.toNat → SameOutside [rowOf f.allocation.offsets x] width.toNat m m' →
      valueIn f.allocation.offsets m' lane o = valueIn f.allocation.offsets m lane o)
    (made : Branches.encoded g f i = .ok piece) :
    (∀ w ∈ piece, StraightLine.Steady g w) ∧
      Fills g.layout piece 0 width.toNat (enabled i) (rowOf f.allocation.offsets x)
        [rowOf f.allocation.offsets x] fun m lane => valueIn f.allocation.offsets m lane o := by
  obtain ⟨dst, r, pieces, placed, operand, assembled, rfl⟩ := mov_emitted base op target qwords src lanes made
  obtain ⟨at_, -⟩ := placed_qword qwords wide placed
  refine quarters_fills wide ?_ (by simp) stable assembled
  intro q count pieces small few inside upper made
  simp only [List.mapM_cons, List.mapM_nil, bind_ok, pure_ok] at made
  obtain ⟨ws, word, _, rfl, rfl⟩ := made
  have row : IsQwords (Emission.quarter dst q) (rowOf f.allocation.offsets x + 8 * (8 * q)) count.toNat := by
    rw [at_]
    exact quarter_row qwords.dataType small (lone_lane aim inside upper)
  have number := assemble_number word List.mem_cons_self row.file row.direct
  obtain ⟨w, rfl, steady, assigns⟩ := mov_assigns (quarterState_fits i count (by omega)) (row.row number) rfl
    (factor_reads factor wide operand small inside upper word) word
  refine ⟨by simpa using steady, ?_⟩
  intro m
  obtain ⟨m', ran, flag, cells, around⟩ := assigns m
  refine ⟨m', by simpa using ran, flag, ?_, ?_⟩
  · intro lane low high works
    obtain ⟨k, rfl⟩ : ∃ k, lane = 8 * q + k := ⟨lane - 8 * q, by omega⟩
    rw [← qword_shift, cells k (by omega), quarterState_lets i count (by omega), works]
    rfl
  · intro b outside
    have away := outside _ List.mem_cons_self
    exact around b (by omega)

end

/-! ## Products -/

/-- The half of a 128-bit product that an instruction computes. -/
inductive Half where
  | low
  | high

namespace Half

/-- The instruction that is expanded to words. -/
def opcode : Half → Opcode
  | low => .mul64
  | high => .mulHi64

/-- The number of temporaries of the expansion. -/
def temporaries : Half → Nat
  | low => 1
  | high => 3

/-- The half of a product. -/
def of : Half → UInt64 → UInt64 → UInt64
  | low, a, b => a * b
  | high, a, b => highProduct a b

end Half

/-- The rows of a product. Those it writes are apart from each other and from those it reads. -/
structure ProductRows (lanes dst left right : Nat) (temps : List Nat) : Prop where
  apart : ∀ a ∈ dst :: left :: right :: temps, ∀ b ∈ dst :: left :: right :: temps, a ≠ b → RowsApart lanes a b
  fresh : (dst :: temps).Nodup
  left : left ∉ dst :: temps
  right : right ∉ dst :: temps

section
variable {lanes dst left right : Nat} {temps : List Nat}

theorem ProductRows.written (rows : ProductRows lanes dst left right temps) :
    ∀ row ∈ dst :: temps, row = dst ∨ RowsApart lanes dst row := by
  intro row member
  by_cases same : row = dst
  · exact .inl same
  · refine .inr (rows.apart dst List.mem_cons_self row ?_ (Ne.symm same))
    rcases List.mem_cons.mp member with rfl | later
    · exact List.mem_cons_self
    · simp [later]

/-- A row that is not written keeps its qwords. -/
theorem qword_stable {rows : List Nat} {m m' : Machine} {row lane : Nat} (inside : lane < lanes)
    (away : ∀ r ∈ rows, RowsApart lanes row r) (same : SameOutside rows lanes m m') :
    qword m' row lane = qword m row lane := by
  refine Memory.load_congr fun b low high => same b fun r member => ?_
  have apart := away r member
  unfold RowsApart at apart
  omega

theorem ProductRows.stable (rows : ProductRows lanes dst left right temps) (half : Half) (m m' : Machine) (lane : Nat)
    (inside : lane < lanes) (same : SameOutside (dst :: temps) lanes m m') :
    half.of (qword m' left lane) (qword m' right lane) = half.of (qword m left lane) (qword m right lane) := by
  have known {row : Nat} (member : row ∈ dst :: temps) : row ∈ dst :: left :: right :: temps := by
    rcases List.mem_cons.mp member with rfl | later
    · exact List.mem_cons_self
    · simp [later]
  rw [qword_stable inside (fun row member => rows.apart left (by simp) row (known member) ?_) same,
    qword_stable inside (fun row member => rows.apart right (by simp) row (known member) ?_) same]
  · rintro rfl
    exact rows.right member
  · rintro rfl
    exact rows.left member

end

section
variable {g : Generation} {f : Emission.Frame} {i : Instruction} {simd width : Int}
  {x left right : RegisterOperand} {temps : List RegisterOperand} {piece : List Word}

theorem product_placed {half : Half} (op : i.op = half.opcode)
    (target : i.dst = .register x) (src : i.src = (left :: right :: temps).map .register)
    (qwords : ∀ y ∈ x :: left :: right :: temps, IsQwordRegister y) (wide : IsWidth width)
    (lanes : f.allocation.kernel.widthOf i = width) (made : Branches.encoded g f i = .ok piece) :
    ∀ y ∈ x :: left :: right :: temps, f.allocation.offsets.contains y.reg = true := by
  obtain ⟨issues, -, emitted, -⟩ :=
    encoded_ok (by rw [op]; cases half <;> nofun) (by rw [op]; cases half <;> nofun) made
  obtain ⟨⟨dst, placed⟩, rs, sources⟩ : (∃ r, Emission.operand f.allocation width i.dst = .ok r) ∧
      ∃ rs, i.src.mapM (Emission.operand f.allocation width) = .ok rs := by
    cases half <;>
      simp only [Emission.instruction, op, Half.opcode, lanes, Emission.multiply, Emission.multiplyHigh,
        Emission.checked, bind_ok, mapError_ok] at emitted <;>
      obtain ⟨dst, placed, rs, sources, -⟩ := emitted <;>
      exact ⟨⟨dst, placed⟩, rs, sources⟩
  intro y member
  rcases List.mem_cons.mp member with rfl | source
  · rw [target] at placed
    exact (placed_qword (qwords y member) wide placed).2
  · rw [src] at sources
    obtain ⟨n, here⟩ := List.getElem?_of_mem (List.mem_map_of_mem (f := Operand.register) source)
    obtain ⟨r, -, operand⟩ := mapM_getElem sources here
    exact (placed_qword (qwords y member) wide operand).2

/-- Up to eight lanes the words of a product run on all of them. -/
theorem product_width {half : Half} (base : f.base = StraightLine.plainState simd) (op : i.op = half.opcode)
    (narrow : width ≤ 8) (lanes : f.allocation.kernel.widthOf i = width) (made : Branches.encoded g f i = .ok piece) :
    IsWidth width := by
  obtain ⟨issues, pieces, emitted, assembled, -⟩ :=
    encoded_ok (by rw [op]; cases half <;> rintro ⟨⟩) (by rw [op]; cases half <;> rintro ⟨⟩) made
  cases half <;>
    simp only [Emission.instruction, op, Half.opcode, lanes, base, Emission.multiply, Emission.multiplyHigh,
      Emission.checked, bind_ok, mapError_ok, pure_ok, Emission.quarters, if_pos narrow] at emitted <;>
    obtain ⟨dst, -, rs, -, rfl⟩ := emitted <;>
    rw [instructionState_eq simd width (by rw [op]; rintro ⟨⟩)] at assembled <;>
    simp only [Sequence.multiply, Sequence.fullMultiply, Sequence.under, List.map_cons, List.mapM_cons,
      bind_ok] at assembled <;>
    obtain ⟨ws, first, -⟩ := assembled <;>
    exact assemble_width first (List.cons_ne_nil _ _)

/-- A product fills its destination. -/
theorem product_fills {half : Half} (base : f.base = StraightLine.plainState simd) (op : i.op = half.opcode)
    (target : i.dst = .register x) (src : i.src = (left :: right :: temps).map .register)
    (length : temps.length = half.temporaries)
    (qwords : ∀ y ∈ x :: left :: right :: temps, IsQwordRegister y ∧ (y.scalar = false ∨ width = 1))
    (wide : IsWidth width) (lanes : f.allocation.kernel.widthOf i = width)
    (apart : ProductRows width.toNat (rowOf f.allocation.offsets x) (rowOf f.allocation.offsets left)
      (rowOf f.allocation.offsets right) (temps.map (rowOf f.allocation.offsets)))
    (made : Branches.encoded g f i = .ok piece) :
    (∀ w ∈ piece, StraightLine.Steady g w) ∧
      Fills g.layout piece 0 width.toNat (enabled i) (rowOf f.allocation.offsets x)
        ((x :: temps).map (rowOf f.allocation.offsets)) fun m lane =>
          half.of (qword m (rowOf f.allocation.offsets left) lane)
            (qword m (rowOf f.allocation.offsets right) lane) := by
  obtain ⟨issues, pieces, emitted, assembled, rfl⟩ :=
    encoded_ok (by rw [op]; cases half <;> rintro ⟨⟩) (by rw [op]; cases half <;> rintro ⟨⟩) made
  have part {y : RegisterOperand} {r : Register} (member : y ∈ x :: left :: right :: temps)
      (placed : Emission.placed f.allocation y width = .ok r) {q : Nat} {count : Int} (small : q < 2)
      (inside : 8 * q + count.toNat ≤ width.toNat) (upper : q ≠ 0 → width = 16) :
      IsQwords (Emission.quarter r q) (rowOf f.allocation.offsets y + 8 * (8 * q)) count.toNat := by
    obtain ⟨register, aim⟩ := qwords y member
    obtain ⟨rfl, -⟩ := placed_qword register wide placed
    exact quarter_row register.dataType small (lone_lane aim inside upper)
  cases half with
  | low =>
    obtain ⟨t0, rfl⟩ := List.length_eq_one_iff.mp length
    simp only [Emission.instruction, op, Half.opcode, lanes, base, Emission.multiply, Emission.checked, bind_ok,
      mapError_ok, src, List.map_cons, List.map_nil, List.mapM_cons, List.mapM_nil, pure_ok, target] at emitted
    obtain ⟨rDst, placedDst, _, ⟨rLeft, placedLeft, _, ⟨rRight, placedRight, _, ⟨r0, placed0, _, rfl, rfl⟩, rfl⟩,
      rfl⟩, rfl⟩ := emitted
    rw [instructionState_eq simd width (by rw [op]; rintro ⟨⟩)] at assembled
    refine quarters_fills wide ?_ apart.written (apart.stable .low) assembled
    intro q count pieces small few inside upper made
    exact multiply_fills (quarterState_fits i count (by omega)) rfl (by omega) inside
      (quarterState_lets i count (by omega)) (part (by simp) placedDst small inside upper)
      (part (by simp) placedLeft small inside upper) (part (by simp) placedRight small inside upper)
      (part (by simp) placed0 small inside upper) apart.apart apart.fresh apart.left apart.right made
  | high =>
    obtain ⟨low, t0, t1, rfl⟩ := List.length_eq_three.mp length
    simp only [Emission.instruction, op, Half.opcode, lanes, base, Emission.multiplyHigh, Emission.checked, bind_ok,
      mapError_ok, src, List.map_cons, List.map_nil, List.mapM_cons, List.mapM_nil, pure_ok, target] at emitted
    obtain ⟨rDst, placedDst, _, ⟨rLeft, placedLeft, _, ⟨rRight, placedRight, _, ⟨rLow, placedLow, _,
      ⟨r0, placed0, _, ⟨r1, placed1, _, rfl, rfl⟩, rfl⟩, rfl⟩, rfl⟩, rfl⟩, rfl⟩ := emitted
    rw [instructionState_eq simd width (by rw [op]; rintro ⟨⟩)] at assembled
    refine quarters_fills wide ?_ apart.written (apart.stable .high) assembled
    intro q count pieces small few inside upper made
    exact fullMultiply_fills (quarterState_fits i count (by omega)) rfl (by omega) inside
      (quarterState_lets i count (by omega)) (part (by simp) placedDst small inside upper)
      (part (by simp) placedLeft small inside upper) (part (by simp) placedRight small inside upper)
      (part (by simp) placedLow small inside upper) (part (by simp) placed0 small inside upper)
      (part (by simp) placed1 small inside upper) apart.apart apart.fresh apart.left apart.right made

end

end GpuCodegen.Products
