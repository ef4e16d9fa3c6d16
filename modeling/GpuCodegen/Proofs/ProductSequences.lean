import Mathlib.Data.List.Nodup
import GpuCodegen.Proofs.EncodableWords
import GpuCodegen.Proofs.QwordInstructions

/-! The word sequences of 64-bit products, run in any state that words can express. Their words exist on
every generation with qwords. In the lanes that the state lets through they leave the product, modulo
2^64 or exactly in two rows of qwords; the other lanes keep what they held, and only the rows of the
result and of the temporaries change. -/

namespace GpuCodegen.Products
open Native Generation Lanes Outcome WordRoundTrip

/-! ## Operands -/

/-- A vector of qwords from the start of a general register on, all of it in the register file. -/
structure IsAligned (r : Register) (address lanes : Nat) : Prop extends IsQwords r address lanes where
  aligned : address % 32 = 0
  inside : address + 8 * lanes ≤ 4096

section
variable {g : Generation} {r : Register} {address lanes : Nat}

theorem IsAligned.number (qwords : IsAligned r address lanes) (positive : 0 < lanes) : r.number.toNat < 128 := by
  have base := qwords.base
  have inside := qwords.inside
  omega

theorem IsAligned.sub_zero (qwords : IsAligned r address lanes) : r.sub.toNat = 0 := by
  have sub := qwords.sub
  have base := qwords.base
  have aligned := qwords.aligned
  omega

variable (known : g.isKnown = true) (family : g.isGen8Family = true) (qwords : IsAligned r address lanes)
  (positive : 0 < lanes)
include known family qwords positive

theorem IsAligned.whole_nameable : Nameable g (r.retype .ul) :=
  ⟨qwords.file, qwords.direct, (qwords.whole (qwords.number positive) (.inl rfl)).fits, qwords.number positive,
    qwords.sub, registerTypeCode_qword known family (.inl rfl)⟩

theorem IsAligned.low_nameable (few : lanes ≤ 8) : Nameable g (Sequence.low r) := by
  refine ⟨qwords.file, qwords.direct, (qwords.low (qwords.number positive) few).fits, qwords.number positive, ?_,
    registerTypeCode_qword known family (.inr (.inr rfl))⟩
  change (r.sub + 4 * 0).toNat < 32
  rw [UInt32.toNat_add, qwords.sub_zero]
  decide

theorem IsAligned.high_nameable (few : lanes ≤ 8) : Nameable g (Sequence.high r) := by
  refine ⟨qwords.file, qwords.direct, (qwords.high (qwords.number positive) few).fits, qwords.number positive, ?_,
    registerTypeCode_qword known family (.inr (.inr rfl))⟩
  change (r.sub + 4 * 1).toNat < 32
  rw [UInt32.toNat_add, qwords.sub_zero]
  decide

end

/-- A shift takes its distance as an immediate. -/
theorem shift_second (g : Generation) : IsSecond g (.immUD 32) :=
  .inr ⟨rfl, rfl, immediateTypeCode_exists g (.inl rfl)⟩

/-! ## Lanes -/

/-- Words that leave a value in the lanes of a row that are let through. The other lanes of the row keep
their qwords, and no byte changes outside a few rows. -/
def Leaves (l : Layout) (ws : List Word) (lanes : Nat) (on : UInt32 → Nat → Bool) (dst : Nat) (rows : List Nat)
    (value : Machine → Nat → UInt64) : Prop :=
  ∀ m : Machine, ∃ m', m.run l ws = some m' ∧ m'.flag = m.flag ∧
    (∀ lane < lanes, qword m' dst lane = if on m.flag lane then value m lane else qword m dst lane) ∧
    SameOutside rows lanes m m'

/-- Two runs of words, one for the lower lanes of a row and one for those above. -/
theorem leaves_append {l : Layout} {ws ws' : List Word} {count count' dst : Nat} {on : UInt32 → Nat → Bool}
    {rows : List Nat} {value : Machine → Nat → UInt64} (first : Leaves l ws count on dst rows value)
    (second : Leaves l ws' count' (fun flag lane => on flag (count + lane)) (dst + 8 * count)
      (rows.map (· + 8 * count)) fun m lane => value m (count + lane))
    (apart : ∀ row ∈ rows, row = dst ∨ RowsApart (count + count') dst row)
    (stable : ∀ m m' lane, lane < count + count' → SameOutside rows (count + count') m m' →
      value m' lane = value m lane) : Leaves l (ws ++ ws') (count + count') on dst rows value := by
  intro m
  obtain ⟨m₁, ran, flag, cells, around⟩ := first m
  obtain ⟨m₂, ran', flag', cells', around'⟩ := second m₁
  have early : SameOutside rows (count + count') m m₁ := by
    intro b outside
    refine around b fun row member => ?_
    have away := outside row member
    omega
  have late (b : Nat) (outside : ∀ row ∈ rows, b < row + 8 * count ∨ row + 8 * (count + count') ≤ b) :
      m₂.registers b = m₁.registers b := by
    refine around' b fun moved member => ?_
    obtain ⟨row, listed, rfl⟩ := List.mem_map.mp member
    have away := outside row listed
    omega
  refine ⟨m₂, by rw [run_concat, ran, Option.bind_some, ran'], flag'.trans flag, ?_, ?_⟩
  · intro lane inside
    by_cases lower : lane < count
    · rw [← cells lane lower]
      refine Memory.load_congr fun b low high => late b fun row member => ?_
      rcases apart row member with rfl | away
      · omega
      · unfold RowsApart at away
        omega
    · obtain ⟨k, rfl⟩ : ∃ k, lane = count + k := ⟨lane - count, by omega⟩
      have before : qword m₁ dst (count + k) = qword m dst (count + k) := by
        refine Memory.load_congr fun b low high => around b fun row member => ?_
        rcases apart row member with rfl | away
        · omega
        · unfold RowsApart at away
          omega
      rw [← qword_shift, cells' k (by omega), qword_shift]
      simp only [flag, before, stable m m₁ _ inside early]
  · intro b outside
    rw [late b fun row member => by have away := outside row member; omega]
    exact early b outside

/-- Words that carry out assignments leave what these make of the qwords of a lane. -/
theorem performs_rows {l : Layout} {ws : List Word} {xs : List Assignment} {lanes : Nat}
    {on : UInt32 → Nat → Bool} {rows targets : List Nat} (apart : ∀ a ∈ rows, ∀ b ∈ rows, a ≠ b → RowsApart lanes a b)
    (performs : List.Forall₂ (Performs l lanes on) ws xs) (named : ∀ x ∈ xs, ∀ a ∈ x.rows, a ∈ rows)
    (written : ∀ x ∈ xs, x.target ∈ targets) (m : Machine) :
    ∃ m', m.run l ws = some m' ∧ m'.flag = m.flag ∧
      (∀ lane < lanes, ∀ a ∈ rows, qword m' a lane =
        if on m.flag lane then xs.foldl Assignment.apply (fun a => qword m a lane) a else qword m a lane) ∧
      SameOutside targets lanes m m' := by
  obtain ⟨m', ran, flag, cells, around⟩ := run_lanes apart performs named m
  exact ⟨m', ran, flag, cells, fun b outside => around b fun x member => outside _ (written x member)⟩

/-! ## Low products -/

section
variable {g : Generation} {s : State} {lanes dst a b t0 : Nat} {rDst rA rB r0 : Register}
  (known : g.isKnown = true) (family : g.isGen8Family = true) (issuable : Issuable g s)
  (width : s.execWidth.toNat = lanes) (few : lanes ≤ 8)
include known family issuable width few

/-- The words of a low product exist and leave products. -/
theorem multiply_leaves (qDst : IsAligned rDst dst lanes) (qA : IsAligned rA a lanes) (qB : IsAligned rB b lanes)
    (q0 : IsAligned r0 t0 lanes) (apart : ProductRows lanes dst a b [t0]) :
    ∃ pieces, (Sequence.multiply s rDst rA rB r0).mapM (fun x => g.assemble x.state x.command) = .ok pieces ∧
      Leaves g.layout pieces.flatten lanes (lets s) dst [dst, t0] fun m lane => qword m a lane * qword m b lane := by
  have positive : 0 < lanes := by
    have widths := issuable.width
    omega
  have target := qDst.whole_nameable known family positive
  have scratch := q0.whole_nameable known family positive
  have scratchLow : Nameable g (Sequence.low r0) := q0.low_nameable known family positive few
  have lowA := qA.low_nameable known family positive few
  have lowB := qB.low_nameable known family positive few
  obtain ⟨pieces, made⟩ : ∃ pieces, (Sequence.multiply s rDst rA rB r0).mapM
      (fun x => g.assemble x.state x.command) = .ok pieces := by
    refine under_exists issuable ?_
    simp only [List.forall_mem_cons, List.not_mem_nil, false_implies, implies_true, and_true]
    exact ⟨⟨target, lowA, .inl lowB⟩, ⟨scratchLow, qB.high_nameable known family positive few⟩,
      ⟨scratch, lowA, .inl scratchLow⟩, ⟨scratch, scratch, shift_second g⟩, ⟨target, target, .inl scratch⟩,
      ⟨scratchLow, qA.high_nameable known family positive few⟩, ⟨scratch, scratchLow, .inl lowB⟩,
      ⟨scratch, scratch, shift_second g⟩, ⟨target, target, .inl scratch⟩⟩
  have carries : List.Forall₂ (Carries g s lanes) ((Sequence.multiply s rDst rA rB r0).map (·.command)) _ :=
    multiply_carries issuable.toStateFits width few qDst.toIsQwords qA.toIsQwords qB.toIsQwords q0.toIsQwords
      (by simp [qDst.number positive, qA.number positive, qB.number positive, q0.number positive])
  obtain ⟨-, performs⟩ := under_performs carries made
  refine ⟨pieces, made, ?_⟩
  intro m
  have named : ∀ x ∈ lowSteps dst a b t0, ∀ row ∈ x.rows, row ∈ [dst, a, b, t0] := by
    simp [lowSteps, copies, computes, Assignment.rows, Value.rows]
  have written : ∀ x ∈ lowSteps dst a b t0, x.target ∈ [dst, t0] := by
    simp [lowSteps, copies, computes]
  obtain ⟨m', ran, flag, cells, around⟩ := performs_rows apart.apart performs named written m
  refine ⟨m', ran, flag, ?_, around⟩
  intro lane inside
  rw [cells lane inside dst (by simp), lowSteps_product apart.fresh apart.left apart.right]

end

/-! ## Instructions -/

/-- A state in a quarter of eight lanes. -/
def inQuarter (s : State) (q : Nat) : State := { s with execWidth := 8, quarter := UInt32.ofNat q }

theorem inQuarter_issuable {g : Generation} {s : State} (issuable : Issuable g s) {q : Nat} (small : q < 4) :
    Issuable g (inQuarter s q) := by
  refine ⟨⟨?_, issuable.predicate⟩, .inr (.inr (.inl rfl)), issuable.flag⟩
  change (UInt32.ofNat q).toNat < 4
  rw [UInt32.toNat_ofNat']
  omega

theorem inQuarter_lets {s : State} (quarter : s.quarter = 0) {q : Nat} (small : q < 4) (flag : UInt32) (lane : Nat) :
    lets (inQuarter s q) flag lane = lets s flag (8 * q + lane) := by
  have index : (UInt32.ofNat q).toNat = q := by
    rw [UInt32.toNat_ofNat']
    omega
  simp [lets, inQuarter, quarter, index]

/-- An instruction on sixteen lanes is emitted in two quarters, one on eight in a single one. -/
theorem quarters_leaves {g : Generation} {s : State} {width : Int} {f : State → Nat → List Issue} {dst : Nat}
    {rows : List Nat} {value : Machine → Nat → UInt64} (issuable : Issuable g s) (lanes : s.execWidth = width)
    (wide : width = 8 ∨ width = 16 ∧ s.quarter = 0)
    (each : ∀ (t : State) (q : Nat), Issuable g t → t.execWidth = 8 → 8 * q + 8 ≤ width.toNat →
      ∃ pieces, (f t q).mapM (fun x => g.assemble x.state x.command) = .ok pieces ∧
        Leaves g.layout pieces.flatten 8 (lets t) (dst + 8 * (8 * q)) (rows.map (· + 8 * (8 * q))) fun m lane =>
          value m (8 * q + lane))
    (apart : ∀ row ∈ rows, row = dst ∨ RowsApart width.toNat dst row)
    (stable : ∀ m m' lane, lane < width.toNat → SameOutside rows width.toNat m m' → value m' lane = value m lane) :
    ∃ pieces, (Emission.quarters s width f).mapM (fun x => g.assemble x.state x.command) = .ok pieces ∧
      Leaves g.layout pieces.flatten width.toNat (lets s) dst rows value := by
  rcases wide with rfl | ⟨rfl, quarter⟩
  · obtain ⟨pieces, made, leaves⟩ := each s 0 issuable lanes (by decide)
    refine ⟨pieces, made, ?_⟩
    simpa using leaves
  · obtain ⟨lower, left, leavesLower⟩ :=
      each (inQuarter s 0) 0 (inQuarter_issuable issuable (by decide)) rfl (by decide)
    obtain ⟨upper, right, leavesUpper⟩ :=
      each (inQuarter s 1) 1 (inQuarter_issuable issuable (by decide)) rfl (by decide)
    have both : Emission.quarters s 16 f = f (inQuarter s 0) 0 ++ f (inQuarter s 1) 1 := by
      change f (inQuarter s 0) 0 ++ (f (inQuarter s 1) 1 ++ []) = _
      rw [List.append_nil]
    have first : lets (inQuarter s 0) = lets s := by
      funext flag lane
      rw [inQuarter_lets quarter (by decide), Nat.mul_zero, Nat.zero_add]
    have second : lets (inQuarter s 1) = fun flag lane => lets s flag (8 + lane) := by
      funext flag lane
      exact inQuarter_lets quarter (by decide) flag lane
    rw [first] at leavesLower
    rw [second] at leavesUpper
    refine ⟨lower ++ upper, ?_, ?_⟩
    · rw [both, List.mapM_append]
      simp only [left, right, bind_ok, pure_ok]
      exact ⟨lower, rfl, upper, rfl, rfl⟩
    · rw [List.flatten_append]
      have start : Leaves g.layout lower.flatten 8 (lets s) dst rows value := by simpa using leavesLower
      exact leaves_append start leavesUpper apart stable

/-- Rows that are apart stay so when each loses the same lanes. -/
theorem ProductRows.part {lanes first count dst left right : Nat} {temps : List Nat}
    (rows : ProductRows lanes dst left right temps) (inside : first + count ≤ lanes) :
    ProductRows count (dst + 8 * first) (left + 8 * first) (right + 8 * first) (temps.map (· + 8 * first)) := by
  have injective : Function.Injective (· + 8 * first) := fun _ _ same => Nat.add_right_cancel same
  refine ⟨?_, ?_, ?_, ?_⟩
  · change ∀ a ∈ (dst :: left :: right :: temps).map (· + 8 * first),
      ∀ b ∈ (dst :: left :: right :: temps).map (· + 8 * first), a ≠ b → RowsApart count a b
    intro a memberA b memberB differ
    obtain ⟨a, rowA, rfl⟩ := List.mem_map.mp memberA
    obtain ⟨b, rowB, rfl⟩ := List.mem_map.mp memberB
    have away := rows.apart a rowA b rowB (by rintro rfl; exact differ rfl)
    unfold RowsApart at away ⊢
    omega
  · exact rows.fresh.map injective
  · intro member
    have moved : left + 8 * first ∈ (dst :: temps).map (· + 8 * first) := member
    exact rows.left ((List.mem_map_of_injective injective).mp moved)
  · intro member
    have moved : right + 8 * first ∈ (dst :: temps).map (· + 8 * first) := member
    exact rows.right ((List.mem_map_of_injective injective).mp moved)

/-- The first byte of an operand's qwords. -/
def startOf (a : Allocation) (width : Int) (o : RegisterOperand) : UInt32 :=
  a.offsets.get o.reg + UInt32.ofInt (o.part * 8 * width)

/-- A vector of qwords, without modifiers, that an allocation places in whole general registers. -/
structure IsPlacedVector (a : Allocation) (width : Int) (o : RegisterOperand) : Prop where
  placed : a.offsets.contains o.reg = true
  type : o.type = .ul ∨ o.type = .l
  vector : o.scalar = false
  negate : o.negate = false
  absolute : o.absolute = false
  aligned : (startOf a width o).toNat % 32 = 0
  inside : (startOf a width o).toNat + 8 * width.toNat ≤ 4096

section
variable {a : Allocation} {width : Int} {o : RegisterOperand}

theorem IsPlacedVector.operand (vector : IsPlacedVector a width o) (wide : width = 8 ∨ width = 16) :
    Emission.operand a width (.register o) = .ok (qwordsAt (startOf a width o) o.type.dataType false) := by
  have size : o.type.size = 8 := by
    rcases vector.type with same | same <;> rw [same] <;> rfl
  have rows : min width ((32 / 8 : Nat) : Int) = 4 := by
    rcases wide with rfl | rfl <;> rfl
  have single : ¬ (o.scalar || width == 1) = true := by
    rw [vector.vector]
    rcases wide with rfl | rfl <;> decide
  have found : a.offsets.lookup? o.reg = some (a.offsets.get o.reg) := if_pos vector.placed
  have lanes : o.lanes width = width := by simp [RegisterOperand.lanes, vector.vector]
  simp only [Emission.operand, Emission.placed, Emission.placeOf, found, bind_ok, pure_ok]
  refine ⟨_, rfl, ?_⟩
  rw [if_neg single]
  simp only [size, lanes, rows, vector.negate, vector.absolute]
  rfl

/-- A quarter of a placed vector. -/
theorem IsPlacedVector.quarter (vector : IsPlacedVector a width o) {q : Nat} (upper : 8 * q + 8 ≤ width.toNat)
    (wide : width = 8 ∨ width = 16) :
    IsAligned (Emission.quarter (qwordsAt (startOf a width o) o.type.dataType false) q)
      ((startOf a width o).toNat + 8 * (8 * q)) 8 := by
  have aligned := vector.aligned
  have inside := vector.inside
  have type : o.type.dataType = .ul ∨ o.type.dataType = .l := by
    rcases vector.type with same | same <;> rw [same]
    · exact .inl rfl
    · exact .inr rfl
  refine ⟨quarter_row type (by omega) nofun, ?_, ?_⟩
  · omega
  · omega

end

/-- A quarter of an operand's register. -/
def quarterOf (a : Allocation) (width : Int) (o : RegisterOperand) (q : Nat) : Register :=
  Emission.quarter (qwordsAt (startOf a width o) o.type.dataType false) q

section
variable {g : Generation} {a : Allocation} {s : State} {i : Instruction} {width : Int}
  {dst left right temp : RegisterOperand} (wide : width = 8 ∨ width = 16)
  (vectors : ∀ o ∈ [dst, left, right, temp], IsPlacedVector a width o)
include wide vectors

theorem multiply_issues (target : i.dst = .register dst)
    (src : i.src = [.register left, .register right, .register temp]) :
    Emission.multiply a s i width = .ok (Emission.quarters s width fun t q =>
      Sequence.multiply t (quarterOf a width dst q) (quarterOf a width left q) (quarterOf a width right q)
        (quarterOf a width temp q)) := by
  simp only [List.forall_mem_cons, List.not_mem_nil, false_implies, implies_true, and_true] at vectors
  obtain ⟨vDst, vLeft, vRight, vTemp⟩ := vectors
  simp only [Emission.multiply, Emission.checked, target, src, List.mapM_cons, List.mapM_nil, bind_ok, mapError_ok,
    pure_ok, vDst.operand wide, vLeft.operand wide, vRight.operand wide, vTemp.operand wide]
  exact ⟨_, rfl, _, ⟨_, rfl, _, ⟨_, rfl, _, ⟨_, rfl, _, rfl, rfl⟩, rfl⟩, rfl⟩, rfl⟩

theorem quarter_leaves (known : g.isKnown = true) (family : g.isGen8Family = true)
    (apart : ProductRows width.toNat (startOf a width dst).toNat (startOf a width left).toNat
      (startOf a width right).toNat [(startOf a width temp).toNat]) (t : State) (q : Nat) (fits : Issuable g t)
    (eight : t.execWidth = 8) (upper : 8 * q + 8 ≤ width.toNat) :
    ∃ pieces, (Sequence.multiply t (quarterOf a width dst q) (quarterOf a width left q) (quarterOf a width right q)
        (quarterOf a width temp q)).mapM (fun x => g.assemble x.state x.command) = .ok pieces ∧
      Leaves g.layout pieces.flatten 8 (lets t) ((startOf a width dst).toNat + 8 * (8 * q))
        ([(startOf a width dst).toNat, (startOf a width temp).toNat].map (· + 8 * (8 * q))) fun m lane =>
          qword m (startOf a width left).toNat (8 * q + lane) *
            qword m (startOf a width right).toNat (8 * q + lane) := by
  have each {o : RegisterOperand} (member : o ∈ [dst, left, right, temp]) := (vectors o member).quarter upper wide
  obtain ⟨pieces, made, leaves⟩ := multiply_leaves known family fits (by rw [eight]; rfl) (Nat.le_refl 8)
    (each (by simp)) (each (by simp)) (each (by simp)) (each (by simp)) (apart.part upper)
  refine ⟨pieces, made, ?_⟩
  simpa only [qword_shift, List.map_cons, List.map_nil] using leaves

end

/-- The words of a low product exist, and they leave the products of the qwords modulo 2^64 in the lanes of
the destination that the predicate lets through. The other lanes of the destination keep their qwords, and
nothing changes but the destination and the temporary. -/
theorem multiply_lanes {g : Generation} {a : Allocation} {s : State} {i : Instruction} {width : Int}
    {dst left right temp : RegisterOperand} (known : g.isKnown = true) (family : g.isGen8Family = true)
    (issuable : Issuable g s) (lanes : s.execWidth = width) (wide : width = 8 ∨ width = 16 ∧ s.quarter = 0)
    (target : i.dst = .register dst) (src : i.src = [.register left, .register right, .register temp])
    (vectors : ∀ o ∈ [dst, left, right, temp], IsPlacedVector a width o)
    (apart : ProductRows width.toNat (startOf a width dst).toNat (startOf a width left).toNat
      (startOf a width right).toNat [(startOf a width temp).toNat]) :
    ∃ issues pieces, Emission.multiply a s i width = .ok issues ∧
      issues.mapM (fun x => g.assemble x.state x.command) = .ok pieces ∧
      Leaves g.layout pieces.flatten width.toNat (lets s) (startOf a width dst).toNat
        [(startOf a width dst).toNat, (startOf a width temp).toNat] fun m lane =>
          qword m (startOf a width left).toNat lane * qword m (startOf a width right).toNat lane := by
  have either : width = 8 ∨ width = 16 := wide.imp_right And.left
  obtain ⟨pieces, made, leaves⟩ := quarters_leaves issuable lanes wide
    (quarter_leaves either vectors known family apart) apart.written (apart.stable .low)
  exact ⟨_, pieces, multiply_issues either vectors target src, made, leaves⟩

/-- Three vectors of sixteen qwords in whole registers, far apart. -/
def threeVectors : Allocation where
  kernel := { name := "square", simdWidth := 16 }
  offsets := ⟨⟨[(1, 256), (2, 512), (3, 768)]⟩, 4, 3, none⟩

/-- A vector of qwords. -/
def qwordVector (n : UInt32) : RegisterOperand := { reg := ⟨n⟩, type := .ul }

/-- The square of a vector where the predicate does not hold. -/
def square : Instruction where
  op := .mul64
  dst := .register (qwordVector 1)
  src := [.register (qwordVector 2), .register (qwordVector 2), .register (qwordVector 3)]

/-- Both sources may be the same vector. -/
theorem multiply_lanes_square :
    (∀ o ∈ [qwordVector 1, qwordVector 2, qwordVector 2, qwordVector 3], IsPlacedVector threeVectors 16 o) ∧
      ProductRows 16 256 512 512 [768] ∧
      ∃ issues pieces,
        Emission.multiply threeVectors { execWidth := 16, predicate := 1, inversePredicate := true } square 16 =
          .ok issues ∧ issues.mapM (fun x => Generation.chv.assemble x.state x.command) = .ok pieces ∧
        Leaves Generation.chv.layout pieces.flatten 16
          (lets { execWidth := 16, predicate := 1, inversePredicate := true }) 256 [256, 768] fun m lane =>
            qword m 512 lane * qword m 512 lane := by
  have vectors : ∀ o ∈ [qwordVector 1, qwordVector 2, qwordVector 2, qwordVector 3],
      IsPlacedVector threeVectors 16 o := by
    have each (n : UInt32) (member : n ∈ [1, 2, 3]) : IsPlacedVector threeVectors 16 (qwordVector n) := by
      simp only [List.mem_cons, List.not_mem_nil, or_false] at member
      rcases member with rfl | rfl | rfl <;>
        exact ⟨by decide, .inl rfl, rfl, rfl, rfl, by decide, by decide⟩
    simp only [List.forall_mem_cons, List.not_mem_nil, false_implies, implies_true, and_true]
    exact ⟨each 1 (by decide), each 2 (by decide), each 2 (by decide), each 3 (by decide)⟩
  have apart : ProductRows 16 256 512 512 [768] :=
    ⟨by unfold RowsApart; decide, by decide, by decide, by decide⟩
  have issuable : Issuable .chv { execWidth := 16, predicate := 1, inversePredicate := true } :=
    ⟨⟨by decide, by decide⟩, by decide, ⟨_, rfl⟩⟩
  have dst : (startOf threeVectors 16 (qwordVector 1)).toNat = 256 := by decide
  have source : (startOf threeVectors 16 (qwordVector 2)).toNat = 512 := by decide
  have temp : (startOf threeVectors 16 (qwordVector 3)).toNat = 768 := by decide
  have squares := @multiply_lanes .chv threeVectors _ square 16 _ _ _ _ rfl rfl issuable rfl (.inr ⟨rfl, rfl⟩)
    rfl rfl vectors
  rw [dst, source, temp] at squares
  exact ⟨vectors, apart, squares apart⟩

end GpuCodegen.Products
