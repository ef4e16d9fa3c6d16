import GpuCodegen.Proofs.CompiledLanes
import GpuCodegen.Proofs.PinnedSlots
import GpuCodegen.Proofs.ProductSelection

/-! The words of one product. Its sources are loaded into vectors, the product is computed with its
temporaries and copied to its destination. No two of these registers share bytes where one is written, so
every phase reads what the one before it left. -/

namespace GpuCodegen.Products
open Native Lanes LiveIntervals Outcome Placement

/-! ## Places -/

theorem storage_qword {x : RegisterOperand} {width : Int} (qwords : IsQwordRegister x) (wide : IsWidth width) :
    (x.storage width).toNat = 8 * if x.scalar then 1 else width.toNat := by
  have size : x.type.size = 8 := by
    rcases qwords.type with same | same <;> rw [same] <;> rfl
  have spans : x.spans = 1 := by
    have span := qwords.span
    unfold RegisterOperand.spans
    split <;> omega
  cases scalar : x.scalar <;> rcases wide with rfl | rfl | rfl | rfl <;>
    simp only [RegisterOperand.storage, RegisterOperand.bytes, RegisterOperand.lanes, size, spans, scalar,
      Bool.false_eq_true, if_false, if_true] <;> decide

/-- An allocated kernel without spill code, whose instructions are emitted under a plain state. -/
structure Allotted (f : Emission.Frame) (simd : Int) : Prop where
  base : f.base = StraightLine.plainState simd
  invariant : ∃ base limit done cur s, Uncrossed f.allocation.kernel base limit done cur s ∧
    f.allocation.offsets = s.offsets
  sizes : ∀ r iv, (Liveness.ofKernel f.allocation.kernel).intervalOf? r = some iv → iv.size.toNat + 32 < 4294967296

/-- An allocation without wrapped sums, and without pins across an end of the window. -/
theorem ofKernel_allotted {k : Kernel} {cfg : SweepConfig} {a : Allocation} {log : List AllocationEvent}
    (flavor : Flavor)
    (simd : Int) (allocated : Allocation.ofKernel k cfg = .ok (a, log))
    (sums : ∀ reserve, Reserved k cfg reserve → SumsFit a.kernel cfg reserve)
    (pins : ∀ reserve, Reserved k cfg reserve → PinsAside a.kernel cfg reserve) :
    Allotted ⟨flavor, a, StraightLine.plainState simd⟩ simd := by
  obtain ⟨reserve, _, s, reserved, ran, offsets⟩ := ofKernel_run allocated
  obtain ⟨done, cur, invariant⟩ := run_uncrossed (sums reserve reserved) (pins reserve reserved) ran
  exact ⟨rfl, ⟨_, _, done, cur, s, invariant, offsets⟩, (sums reserve reserved).slot⟩

/-- A register takes as many bytes as any of its operands needs. -/
theorem storage_le_slot {k : Kernel}
    (sizes : ∀ r iv, (Liveness.ofKernel k).intervalOf? r = some iv → iv.size.toNat + 32 < 4294967296) {w : Access}
    {n : Nat} (access : w ∈ accesses k) (live : Live k n) (reg : (span k n).reg = w.operand.reg) :
    (w.operand.storage (k.widthOf w.instruction)).toNat ≤ (span k n).slot.toNat := by
  have found := live.intervalOf
  have covers := (LivePaths.intervalOf_spec found).1
  have least := UInt32.le_iff_toNat_le.mp (covers.size w access reg.symm)
  exact Nat.le_trans least (size_le_slotSize (sizes _ _ found))

section
variable {f : Emission.Frame} {simd : Int}

/-- The bytes of two registers are apart if one is accessed while the value of the other is needed. -/
theorem Allotted.apart_while (allotted : Allotted f simd) {x y z : Access}
    (accessX : x ∈ accesses f.allocation.kernel) (accessY : y ∈ accesses f.allocation.kernel)
    (accessZ : z ∈ accesses f.allocation.kernel) (same : y.operand.reg = x.operand.reg)
    (differ : x.operand.reg ≠ z.operand.reg) (before : x.position ≤ z.position) (after : z.position ≤ y.position)
    (kept : ∀ (n : Nat) (i : Instruction), z.position < n → n ≤ y.position →
      f.allocation.kernel.code[n]? = some i → i.writes x.operand.reg = false)
    (placedX : f.allocation.offsets.contains x.operand.reg = true)
    (placedZ : f.allocation.offsets.contains z.operand.reg = true) :
    rowOf f.allocation.offsets x.operand + (x.operand.storage (f.allocation.kernel.widthOf x.instruction)).toNat ≤
        rowOf f.allocation.offsets z.operand ∨
      rowOf f.allocation.offsets z.operand + (z.operand.storage (f.allocation.kernel.widthOf z.instruction)).toNat ≤
        rowOf f.allocation.offsets x.operand := by
  obtain ⟨base, limit, done, cur, s, inv, offsets⟩ := allotted.invariant
  have sizes := allotted.sizes
  unfold rowOf
  rw [offsets] at placedX placedZ ⊢
  generalize f.allocation.kernel = k at *
  have kept (n : Nat) (i : Instruction) (d : RegisterOperand) (low : z.position < n) (high : n ≤ y.position)
      (atN : k.code[n]? = some i) (target : i.dst.register? = some d) (named : d.reg = x.operand.reg) :
      k.fullyDefines i d = false := by
    have unwritten := kept n i low high atN
    simp [Instruction.writes, Operand.names, target, named] at unwritten
  obtain ⟨a, b, liveA, regA, liveB, regB, aside⟩ := StraightLine.apart_while inv accessX accessY accessZ same differ
    before after kept (by simpa [RegisterMap.contains] using placedX) (by simpa [RegisterMap.contains] using placedZ)
  have roomX := storage_le_slot sizes accessX liveA regA
  have roomZ := storage_le_slot sizes accessZ liveB regB
  unfold Aside Apart place at aside
  rw [regA, regB] at aside
  omega

/-- The operands of one instruction are the same register or apart. -/
theorem Allotted.apart_at (allotted : Allotted f simd) {n : Nat} {i : Instruction} {y z : RegisterOperand}
    (here : f.allocation.kernel.code[n]? = some i) (memberY : y ∈ i.registers) (memberZ : z ∈ i.registers)
    (differ : y.reg ≠ z.reg) (placedY : f.allocation.offsets.contains y.reg = true)
    (placedZ : f.allocation.offsets.contains z.reg = true) :
    rowOf f.allocation.offsets y + (y.storage (f.allocation.kernel.widthOf i)).toNat ≤ rowOf f.allocation.offsets z ∨
      rowOf f.allocation.offsets z + (z.storage (f.allocation.kernel.widthOf i)).toNat ≤
        rowOf f.allocation.offsets y := by
  have accessY : (⟨n, i, y⟩ : Access) ∈ accesses f.allocation.kernel := mem_accesses.mpr ⟨here, memberY⟩
  have accessZ : (⟨n, i, z⟩ : Access) ∈ accesses f.allocation.kernel := mem_accesses.mpr ⟨here, memberZ⟩
  -- Elaborated on its own: against the goal, unification unfolds the offsets.
  have apart := allotted.apart_while accessY accessY accessZ rfl differ (Nat.le_refl _) (Nat.le_refl _)
    (fun m _ low high => absurd high (Nat.not_le.mpr low)) placedY placedZ
  exact apart

end

/-- The qwords of a register. -/
def qwordsOf (width : Int) (x : RegisterOperand) : Nat := if x.scalar then 1 else width.toNat

theorem registers_dst {i : Instruction} {x : RegisterOperand} (target : i.dst = .register x)
    (qwords : IsQwordRegister x) : x ∈ i.registers := by
  refine List.mem_append_left _ (Option.mem_toList.mpr ?_)
  rw [target]
  exact qwords.register

theorem registers_src {i : Instruction} {x : RegisterOperand} (source : .register x ∈ i.src)
    (qwords : IsQwordRegister x) : x ∈ i.registers :=
  List.mem_append_right _ (List.mem_filterMap.mpr ⟨_, source, qwords.register⟩)

/-- A source keeps its value while other bytes change. -/
theorem valueIn_stable {offsets : RegisterMap} {rows : List Nat} {width : Int} {m m' : Machine} {o : Operand}
    {lane : Nat}
    (factor : IsFactor o) (inside : lane < width.toNat)
    (away : ∀ x, o = .register x → ∀ row ∈ rows,
      rowOf offsets x + 8 * qwordsOf width x ≤ row ∨ row + 8 * width.toNat ≤ rowOf offsets x)
    (same : SameOutside rows width.toNat m m') : valueIn offsets m' lane o = valueIn offsets m lane o := by
  cases o with
  | absent t => rfl
  | immediate t bits negate absolute => rfl
  | register x =>
    rw [valueIn_register factor, valueIn_register factor]
    refine Memory.load_congr fun b low high => same b fun row member => ?_
    have apart := away x rfl row member
    unfold qwordsOf at apart
    cases scalar : x.scalar <;>
      simp only [scalar, Bool.false_eq_true, if_true, if_false] at low high apart <;> omega

/-! ## Blocks -/

/-- A source as a vector of qwords: it is the source itself, or it is new and the source is moved there. -/
structure IsLoaded (bound : Nat) (i : Instruction) (o : Operand) (y : RegisterOperand) (load : List Instruction)
    (handed : List VReg) : Prop where
  qwords : IsQwordRegister y
  vector : y.scalar = false
  origin : handed = [] ∧ load = [] ∧ o = .register y ∧ y.reg.number.toNat < bound ∨
    handed = [y.reg] ∧ load = [loadInto i (.register y) o]

theorem Loads.isLoaded {bound : Nat} {i : Instruction} {o v : Operand} {load : List Instruction}
    {handed : List VReg} (loads : Loads i o v load handed) (factor : IsFactor o) (below : Below bound o)
    (named : ∀ r ∈ handed, r ≠ VReg.none) : ∃ y, v = .register y ∧ IsLoaded bound i o y load handed := by
  cases loads with
  | plain vector =>
    cases o with
    | absent t => exact absurd factor id
    | immediate t bits negate absolute => cases vector
    | register x =>
      have qwords : IsQwordRegister x := factor
      simp only [Select.isPlainVector, qwords.register, Bool.and_eq_true, Bool.not_eq_true'] at vector
      exact ⟨x, rfl, qwords, vector.1, .inl ⟨rfl, rfl, rfl, below x qwords.register⟩⟩
  | moved r =>
    have type : o.type = .ul ∨ o.type = .l := by
      cases o with
      | absent t => exact absurd factor id
      | immediate t bits negate absolute => exact factor.1
      | register x => exact IsQwordRegister.type factor
    exact ⟨{ reg := r, type := o.type }, rfl,
      ⟨named r List.mem_cons_self, type, Int.zero_le_ofNat 1, rfl, rfl, rfl⟩, rfl, .inr ⟨rfl, rfl⟩⟩

/-- The vector of qwords that a product is computed in: its destination, or a new one that is then copied. -/
structure IsAimed (width : Int) (i : Instruction) (d y : RegisterOperand) (copy : List Instruction)
    (handed : List VReg) :
    Prop where
  qwords : IsQwordRegister y
  vector : y.scalar = false ∨ width = 1
  origin : handed = [] ∧ copy = [] ∧ y = d ∧ i.reads d.reg = false ∨
    handed = [y.reg] ∧ copy = [copyFrom i (.register y)] ∧ y.scalar = false

theorem Aims.isAimed {width : Int} {i : Instruction} {dst : Operand} {copy : List Instruction} {handed : List VReg}
    {d : RegisterOperand} (aims : Aims i dst copy handed) (target : i.dst = .register d) (qwords : IsQwordRegister d)
    (vector : d.scalar = false ∨ width = 1) (named : ∀ r ∈ handed, r ≠ VReg.none) :
    ∃ y, dst = .register y ∧ IsAimed width i d y copy handed := by
  cases aims with
  | direct free =>
    refine ⟨d, target, qwords, vector, .inl ⟨rfl, rfl, rfl, ?_⟩⟩
    simpa [Instruction.aliased, target, qwords.register] using free
  | copied aliased r =>
    have type : i.dst.type = .ul ∨ i.dst.type = .l := by
      rw [target]
      exact qwords.type
    exact ⟨{ reg := r, type := i.dst.type }, rfl,
      ⟨named r List.mem_cons_self, type, Int.zero_le_ofNat 1, rfl, rfl, rfl⟩, .inl rfl, .inr ⟨rfl, rfl, rfl⟩⟩

section
variable {g : Generation} {f : Emission.Frame} {simd width : Int} {bound : Nat} {i : Instruction} {o : Operand}
  {y d : RegisterOperand} {load copy before after : List Instruction} {handed : List VReg} {pieces : List (List Word)}

theorem fills_nothing {l : Layout} {lanes dst : Nat} {on : UInt32 → Nat → Bool} {value : Machine → Nat → UInt64}
    (there : ∀ m lane, value m lane = qword m dst lane) : Fills l [] 0 lanes on dst [] value :=
  fun m => ⟨m, rfl, rfl, fun lane _ _ _ => (there m lane).symm, fun _ _ => rfl⟩

/-- The words of a load put the values of the source into the vector. -/
theorem IsLoaded.fills (loaded : IsLoaded bound i o y load handed) (allotted : Allotted f simd) (factor : IsFactor o)
    (below : Below bound o) (new : ∀ r ∈ handed, bound ≤ r.number.toNat) (wide : IsWidth width)
    (lanes : f.allocation.kernel.widthOf i = width) (code : f.allocation.kernel.code = before ++ (load ++ after))
    (made : load.mapM (Branches.encoded g f) = .ok pieces) :
    (∀ w ∈ pieces.flatten, StraightLine.Steady g w) ∧
      Fills g.layout pieces.flatten 0 width.toNat (fun _ _ => true) (rowOf f.allocation.offsets y)
        (handed.map fun _ => rowOf f.allocation.offsets y) fun m lane => valueIn f.allocation.offsets m lane o := by
  rcases loaded.origin with ⟨rfl, rfl, rfl, -⟩ | ⟨rfl, rfl⟩
  · rw [List.mapM_nil, pure_ok] at made
    subst made
    refine ⟨by simp, fills_nothing fun m lane => ?_⟩
    simp [valueIn_register loaded.qwords, loaded.vector]
  · simp only [List.mapM_cons, List.mapM_nil, bind_ok, pure_ok] at made
    obtain ⟨piece, made, _, rfl, rfl⟩ := made
    have here : f.allocation.kernel.code[before.length]? = some (loadInto i (.register y) o) := by
      rw [code, List.getElem?_append_right (Nat.le_refl _), Nat.sub_self]
      rfl
    have same : f.allocation.kernel.widthOf (loadInto i (.register y) o) = width := lanes
    obtain ⟨placed, source⟩ := mov_placed allotted.base rfl rfl loaded.qwords rfl factor wide same made
    have always : enabled (loadInto i (.register y) o) = fun _ _ => true := rfl
    rw [List.flatten_singleton, ← always]
    refine mov_fills allotted.base rfl rfl loaded.qwords rfl factor wide same (.inl loaded.vector) ?_ made
    intro m m' lane inside outside
    refine valueIn_stable factor inside ?_ outside
    rintro x rfl row member
    obtain rfl := List.mem_singleton.mp member
    have qwords : IsQwordRegister x := factor
    -- The source is known from before, the vector is new.
    have differ : x.reg ≠ y.reg := by
      intro equal
      have old := below x qwords.register
      have fresh := new y.reg List.mem_cons_self
      rw [equal] at old
      omega
    have apart := allotted.apart_at here (registers_src List.mem_cons_self qwords)
      (registers_dst rfl loaded.qwords) differ (source x rfl) placed
    rw [same, storage_qword qwords wide, storage_qword loaded.qwords wide, loaded.vector] at apart
    exact apart

/-- The words of a copy put the product into its destination. -/
theorem IsAimed.fills (aimed : IsAimed width i d y copy handed) (allotted : Allotted f simd)
    (target : i.dst = .register d) (qwords : IsQwordRegister d) (vector : d.scalar = false ∨ width = 1)
    (differ : handed = [y.reg] → y.reg ≠ d.reg) (wide : IsWidth width)
    (lanes : f.allocation.kernel.widthOf i = width) (code : f.allocation.kernel.code = before ++ (copy ++ after))
    (made : copy.mapM (Branches.encoded g f) = .ok pieces) :
    (∀ w ∈ pieces.flatten, StraightLine.Steady g w) ∧
      ∃ rows, Fills g.layout pieces.flatten 0 width.toNat (enabled i) (rowOf f.allocation.offsets d) rows
        fun m lane => qword m (rowOf f.allocation.offsets y) lane := by
  rcases aimed.origin with ⟨rfl, rfl, rfl, -⟩ | ⟨rfl, rfl, plain⟩
  · rw [List.mapM_nil, pure_ok] at made
    subst made
    exact ⟨by simp, [], fills_nothing fun m lane => rfl⟩
  · simp only [List.mapM_cons, List.mapM_nil, bind_ok, pure_ok] at made
    obtain ⟨piece, made, _, rfl, rfl⟩ := made
    have here : f.allocation.kernel.code[before.length]? = some (copyFrom i (.register y)) := by
      rw [code, List.getElem?_append_right (Nat.le_refl _), Nat.sub_self]
      rfl
    have same : f.allocation.kernel.widthOf (copyFrom i (.register y)) = width := lanes
    have aim : (copyFrom i (.register y)).dst = .register d := target
    have value (m : Machine) (lane : Nat) : valueIn f.allocation.offsets m lane (.register y) =
        qword m (rowOf f.allocation.offsets y) lane := by
      simp [valueIn_register aimed.qwords, plain]
    obtain ⟨placed, source⟩ :=
      mov_placed (o := .register y) allotted.base rfl aim qwords rfl aimed.qwords wide same made
    have fills := mov_fills (o := .register y) allotted.base rfl aim qwords rfl aimed.qwords wide same vector ?_ made
    · simp only [value] at fills
      rw [List.flatten_singleton]
      exact ⟨fills.1, _, fills.2⟩
    · intro m m' lane inside outside
      refine valueIn_stable aimed.qwords inside ?_ outside
      rintro x equal row member
      cases equal
      obtain rfl := List.mem_singleton.mp member
      have apart := allotted.apart_at here (registers_src List.mem_cons_self aimed.qwords)
        (registers_dst aim qwords) (differ rfl) (source y rfl) placed
      rw [same, storage_qword aimed.qwords wide, storage_qword qwords wide] at apart
      unfold qwordsOf
      rcases vector with flat | rfl
      · rw [flat] at apart
        exact apart
      · simpa using apart

/-- The registers of a product have the rows it needs. -/
theorem Allotted.productRows (allotted : Allotted f simd) {n : Nat} {x left right : RegisterOperand}
    {temps : List RegisterOperand} (here : f.allocation.kernel.code[n]? = some i) (target : i.dst = .register x)
    (src : i.src = (left :: right :: temps).map .register)
    (qwords : ∀ y ∈ x :: left :: right :: temps, IsQwordRegister y ∧ (y.scalar = false ∨ width = 1))
    (placed : ∀ y ∈ x :: left :: right :: temps, f.allocation.offsets.contains y.reg = true) (wide : IsWidth width)
    (lanes : f.allocation.kernel.widthOf i = width) (fresh : ((x :: temps).map (·.reg)).Nodup)
    (outLeft : left.reg ∉ (x :: temps).map (·.reg)) (outRight : right.reg ∉ (x :: temps).map (·.reg)) :
    ProductRows width.toNat (rowOf f.allocation.offsets x) (rowOf f.allocation.offsets left)
      (rowOf f.allocation.offsets right) (temps.map (rowOf f.allocation.offsets)) := by
  have operand {y : RegisterOperand} (member : y ∈ x :: left :: right :: temps) : y ∈ i.registers := by
    rcases List.mem_cons.mp member with rfl | source
    · exact registers_dst target (qwords y member).1
    · exact registers_src (by rw [src]; exact List.mem_map_of_mem source) (qwords y member).1
  have size {y : RegisterOperand} (member : y ∈ x :: left :: right :: temps) :
      (y.storage (f.allocation.kernel.widthOf i)).toNat = 8 * width.toNat := by
    rw [lanes, storage_qword (qwords y member).1 wide]
    rcases (qwords y member).2 with vector | rfl
    · simp [vector]
    · simp
  have apart {y z : RegisterOperand} (memberY : y ∈ x :: left :: right :: temps)
      (memberZ : z ∈ x :: left :: right :: temps) (differ : y.reg ≠ z.reg) :
      RowsApart width.toNat (rowOf f.allocation.offsets y) (rowOf f.allocation.offsets z) := by
    have away := allotted.apart_at here (operand memberY) (operand memberZ) differ (placed y memberY) (placed z memberZ)
    rwa [size memberY, size memberZ] at away
  have distinct {y z : RegisterOperand} (memberY : y ∈ x :: left :: right :: temps)
      (memberZ : z ∈ x :: left :: right :: temps) (differ : y.reg ≠ z.reg) :
      rowOf f.allocation.offsets y ≠ rowOf f.allocation.offsets z := by
    have away := apart memberY memberZ differ
    unfold IsWidth at wide
    unfold RowsApart at away
    omega
  have written {y : RegisterOperand} (member : y ∈ x :: temps) : y ∈ x :: left :: right :: temps := by
    rcases List.mem_cons.mp member with rfl | later
    · exact List.mem_cons_self
    · simp [later]
  have outside {y : RegisterOperand} (member : y ∈ x :: left :: right :: temps)
      (out : y.reg ∉ (x :: temps).map (·.reg)) :
      rowOf f.allocation.offsets y ∉ (x :: temps).map (rowOf f.allocation.offsets) := by
    intro known
    obtain ⟨z, inZ, same⟩ := List.mem_map.mp known
    refine distinct member (written inZ) ?_ same.symm
    intro equal
    exact out (List.mem_map.mpr ⟨z, inZ, equal.symm⟩)
  refine ⟨?_, ?_, outside (by simp) outLeft, outside (by simp) outRight⟩
  · intro a memberA b memberB differ
    rw [← List.map_cons, ← List.map_cons, ← List.map_cons] at memberA memberB
    obtain ⟨y, inY, rfl⟩ := List.mem_map.mp memberA
    obtain ⟨z, inZ, rfl⟩ := List.mem_map.mp memberB
    refine apart inY inZ fun equal => differ ?_
    rw [rowOf, equal, rowOf]
  · rw [← List.map_cons]
    exact List.pairwise_map.mpr ((List.pairwise_map.mp fresh).imp_of_mem fun inY inZ differ =>
      distinct (written inY) (written inZ) differ)

theorem IsLoaded.reg_cases (loaded : IsLoaded bound i o y load handed) (member : o ∈ i.src) :
    i.reads y.reg = true ∧ y.reg.number.toNat < bound ∧ handed = [] ∨ handed = [y.reg] := by
  rcases loaded.origin with ⟨none, -, rfl, old⟩ | ⟨one, -⟩
  · refine .inl ⟨?_, old, none⟩
    exact List.any_eq_true.mpr ⟨_, member, by simp [Operand.names, loaded.qwords.register]⟩
  · exact .inr one

/-- A source is neither computed into nor a temporary, since those are new or not read. -/
theorem IsLoaded.reg_not_mem {x : RegisterOperand} {handedDst temps others : List VReg}
    (loaded : IsLoaded bound i o y load handed) (member : o ∈ i.src) (aimed : IsAimed width i d x copy handedDst)
    (old : d.reg.number.toNat < bound) (nodup : (handed ++ (others ++ (handedDst ++ temps))).Nodup)
    (new : ∀ r ∈ handed ++ (others ++ (handedDst ++ temps)), bound ≤ r.number.toNat) :
    y.reg ∉ x.reg :: temps := by
  have late {r : VReg} (known : r ∈ handedDst ++ temps) : y.reg ≠ r := by
    rintro rfl
    rcases loaded.reg_cases member with ⟨-, small, -⟩ | rfl
    · have large := new y.reg (List.mem_append_right _ (List.mem_append_right _ known))
      omega
    · exact (List.nodup_cons.mp nodup).1 (List.mem_append_right others known)
  rw [List.mem_cons, not_or]
  refine ⟨?_, fun known => late (List.mem_append_right _ known) rfl⟩
  rcases aimed.origin with ⟨-, -, rfl, unread⟩ | ⟨rfl, -⟩
  · intro same
    rcases loaded.reg_cases member with ⟨read, -, -⟩ | rfl
    · rw [same, unread] at read
      cases read
    · have large := new y.reg List.mem_cons_self
      rw [same] at large
      omega
  · exact late List.mem_cons_self

/-- What a product is computed in is no temporary. -/
theorem IsAimed.reg_not_mem {x : RegisterOperand} {handedDst temps : List VReg}
    (aimed : IsAimed width i d x copy handedDst) (old : d.reg.number.toNat < bound)
    (nodup : (handedDst ++ temps).Nodup) (new : ∀ r ∈ temps, bound ≤ r.number.toNat) : x.reg ∉ temps := by
  intro known
  rcases aimed.origin with ⟨-, -, rfl, -⟩ | ⟨rfl, -⟩
  · have large := new x.reg known
    omega
  · exact (List.nodup_cons.mp nodup).1 known

/-- A temporary. -/
def scratch (r : VReg) : RegisterOperand where
  reg := r
  type := .ul

/-- The product of an expansion fills what it is computed in. -/
theorem Half.instruction_fills {half : Half} {x left right : RegisterOperand} {temps : List VReg} {n : Nat}
    {piece : List Word} (allotted : Allotted f simd)
    (here : f.allocation.kernel.code[n]? =
      some (half.instruction i (.register x) (.register left) (.register right) temps))
    (length : temps.length = half.temporaries)
    (qwords : ∀ y ∈ [x, left, right], IsQwordRegister y ∧ (y.scalar = false ∨ width = 1))
    (named : ∀ r ∈ temps, r ≠ VReg.none) (fresh : (x.reg :: temps).Nodup) (outLeft : left.reg ∉ x.reg :: temps)
    (outRight : right.reg ∉ x.reg :: temps) (wide : IsWidth width) (lanes : f.allocation.kernel.widthOf i = width)
    (made : Branches.encoded g f (half.instruction i (.register x) (.register left) (.register right) temps) =
      .ok piece) :
    (∀ y ∈ [x, left, right], f.allocation.offsets.contains y.reg = true) ∧
      (∀ w ∈ piece, StraightLine.Steady g w) ∧
      Fills g.layout piece 0 width.toNat (enabled i) (rowOf f.allocation.offsets x)
        ((x :: temps.map scratch).map (rowOf f.allocation.offsets)) fun m lane =>
          half.of (qword m (rowOf f.allocation.offsets left) lane)
            (qword m (rowOf f.allocation.offsets right) lane) := by
  have src : (half.instruction i (.register x) (.register left) (.register right) temps).src =
      (left :: right :: temps.map scratch).map .register := by
    simp only [Half.instruction, List.map_cons, List.map_map]
    rfl
  have regs : (x :: temps.map scratch).map (·.reg) = x.reg :: temps := by
    simp [scratch, Function.comp_def]
  have all : ∀ y ∈ x :: left :: right :: temps.map scratch, IsQwordRegister y ∧ (y.scalar = false ∨ width = 1) := by
    intro y member
    by_cases given : y ∈ [x, left, right]
    · exact qwords y given
    · have temp : y ∈ temps.map scratch := by
        simp only [List.mem_cons, List.not_mem_nil, or_false] at member given
        tauto
      obtain ⟨r, known, rfl⟩ := List.mem_map.mp temp
      exact ⟨⟨named r known, .inl rfl, Int.zero_le_ofNat 1, rfl, rfl, rfl⟩, .inl rfl⟩
  have same : f.allocation.kernel.widthOf (half.instruction i (.register x) (.register left) (.register right) temps) =
      width := lanes
  have placed := product_placed rfl rfl src (fun y member => (all y member).1) wide same made
  have rows := allotted.productRows here rfl src all placed wide same (by rw [regs]; exact fresh)
    (by rw [regs]; exact outLeft) (by rw [regs]; exact outRight)
  have fills := product_fills (i := half.instruction i (.register x) (.register left) (.register right) temps)
    allotted.base rfl rfl src (by rw [List.length_map, length]) all wide same rows made
  refine ⟨fun y member => placed y ?_, fills⟩
  simp only [List.mem_cons, List.not_mem_nil, or_false] at member ⊢
  tauto

/-- Two sources that are loaded one after the other for a product. -/
structure LoadsBoth (bound : Nat) (i : Instruction) (o o' : Operand) (left right : RegisterOperand)
    (loadLeft loadRight : List Instruction) (handedLeft handedRight : List VReg) : Prop where
  left : IsLoaded bound i o left loadLeft handedLeft
  right : IsLoaded bound i o' right loadRight handedRight
  new : ∀ r ∈ handedLeft ++ handedRight, bound ≤ r.number.toNat
  nodup : (handedLeft ++ handedRight).Nodup

/-- A product in the code of a kernel that comes right after the loads of its sources and reads their
vectors. -/
structure Follows (f : Emission.Frame) (width : Int) (before loadLeft loadRight after : List Instruction)
    (product : Instruction) (left right : RegisterOperand) : Prop where
  code : f.allocation.kernel.code = before ++ (loadLeft ++ (loadRight ++ product :: after))
  lanes : f.allocation.kernel.widthOf product = width
  readsLeft : left ∈ product.registers
  readsRight : right ∈ product.registers
  unwritten : product.writes left.reg = false
  placedLeft : f.allocation.offsets.contains left.reg = true
  placedRight : f.allocation.offsets.contains right.reg = true

section
variable {o' : Operand} {left right : RegisterOperand} {loadLeft loadRight : List Instruction}
  {handedLeft handedRight : List VReg} {product : Instruction}

theorem Follows.later (follows : Follows f width before loadLeft loadRight after product left right) :
    f.allocation.kernel.code = (before ++ loadLeft) ++ (loadRight ++ product :: after) := by
  rw [follows.code, List.append_assoc]

/-- The vectors of a product are the same register or apart. -/
theorem Follows.apart (follows : Follows f width before loadLeft loadRight after product left right)
    (allotted : Allotted f simd) (differ : left.reg ≠ right.reg) :
    rowOf f.allocation.offsets left + (left.storage width).toNat ≤ rowOf f.allocation.offsets right ∨
      rowOf f.allocation.offsets right + (right.storage width).toNat ≤ rowOf f.allocation.offsets left := by
  have here : f.allocation.kernel.code[((before ++ loadLeft) ++ loadRight).length]? = some product := by
    rw [follows.later, ← List.append_assoc, List.getElem?_append_right (Nat.le_refl _), Nat.sub_self]
    rfl
  have apart :=
    allotted.apart_at here follows.readsLeft follows.readsRight differ follows.placedLeft follows.placedRight
  rwa [follows.lanes] at apart

/-- The load of the left source does not touch the right one. If the right source is moved too, it is
read while the left vector waits for the product. -/
theorem LoadsBoth.right_kept (both : LoadsBoth bound i o o' left right loadLeft loadRight handedLeft handedRight)
    (allotted : Allotted f simd) (factor : IsFactor o') (below : Below bound o') (wide : IsWidth width)
    (lanes : f.allocation.kernel.widthOf i = width)
    (follows : Follows f width before loadLeft loadRight after product left right)
    (made : loadRight.mapM (Branches.encoded g f) = .ok pieces) {m m' : Machine} {lane : Nat}
    (inside : lane < width.toNat)
    (outside : SameOutside (handedLeft.map fun _ => rowOf f.allocation.offsets left) width.toNat m m') :
    valueIn f.allocation.offsets m' lane o' = valueIn f.allocation.offsets m lane o' := by
  refine valueIn_stable factor inside ?_ outside
  rintro x rfl row member
  have qwords : IsQwordRegister x := factor
  have old : x.reg.number.toNat < bound := below x qwords.register
  rcases both.left.origin with ⟨rfl, -⟩ | ⟨rfl, rfl⟩
  · cases member
  obtain rfl : row = rowOf f.allocation.offsets left := List.mem_singleton.mp member
  have differ : left.reg ≠ x.reg := by
    intro equal
    have fresh := both.new left.reg List.mem_cons_self
    rw [equal] at fresh
    omega
  have size : (left.storage width).toNat = 8 * width.toNat := by
    rw [storage_qword both.left.qwords wide, both.left.vector]
    rfl
  have room := storage_qword qwords wide
  suffices apart : rowOf f.allocation.offsets left + (left.storage width).toNat ≤ rowOf f.allocation.offsets x ∨
      rowOf f.allocation.offsets x + (x.storage width).toNat ≤ rowOf f.allocation.offsets left by
    rw [size, room] at apart
    exact apart.symm
  rcases both.right.origin with ⟨-, rfl, equal, -⟩ | ⟨-, rfl⟩
  · cases equal
    exact follows.apart allotted differ
  · have code := follows.code
    simp only [List.mapM_cons, List.mapM_nil, bind_ok, pure_ok] at made
    obtain ⟨piece, made, _, rfl, rfl⟩ := made
    have source := (mov_placed allotted.base rfl rfl both.right.qwords rfl factor wide
      (show f.allocation.kernel.widthOf (loadInto i (.register right) (.register x)) = width from lanes) made).2 x rfl
    have written : (⟨before.length, loadInto i (.register left) o, left⟩ : Access) ∈ accesses f.allocation.kernel :=
      mem_accesses.mpr ⟨by simp [code], registers_dst rfl both.left.qwords⟩
    have read : (⟨before.length + 2, product, left⟩ : Access) ∈ accesses f.allocation.kernel :=
      mem_accesses.mpr ⟨by simp [code], follows.readsLeft⟩
    have between : (⟨before.length + 1, loadInto i (.register right) (.register x), x⟩ : Access) ∈
        accesses f.allocation.kernel :=
      mem_accesses.mpr ⟨by simp [code], registers_src List.mem_cons_self qwords⟩
    have apart := allotted.apart_while written read between rfl differ (Nat.le_succ _) (Nat.le_succ _) ?_
      follows.placedLeft source
    · rwa [show f.allocation.kernel.widthOf (loadInto i (.register left) o) = width from lanes,
        show f.allocation.kernel.widthOf (loadInto i (.register right) (.register x)) = width from lanes] at apart
    · intro n j low high here
      obtain rfl : n = before.length + 2 := Nat.le_antisymm high low
      obtain rfl : product = j := by simpa [code] using here
      exact follows.unwritten

/-- The load of the right source does not touch the left vector. -/
theorem LoadsBoth.left_kept (both : LoadsBoth bound i o o' left right loadLeft loadRight handedLeft handedRight)
    (allotted : Allotted f simd) (wide : IsWidth width)
    (follows : Follows f width before loadLeft loadRight after product left right) {m m' : Machine} {lane : Nat}
    (inside : lane < width.toNat)
    (outside : SameOutside (handedRight.map fun _ => rowOf f.allocation.offsets right) width.toNat m m') :
    qword m' (rowOf f.allocation.offsets left) lane = qword m (rowOf f.allocation.offsets left) lane := by
  refine qword_stable inside ?_ outside
  intro row member
  rcases both.right.origin with ⟨rfl, -⟩ | ⟨rfl, -⟩
  · cases member
  obtain rfl : row = rowOf f.allocation.offsets right := List.mem_singleton.mp member
  have differ : left.reg ≠ right.reg := by
    intro equal
    rcases both.left.origin with ⟨-, -, -, old⟩ | ⟨rfl, -⟩
    · have fresh := both.new right.reg (List.mem_append_right _ List.mem_cons_self)
      rw [equal] at old
      omega
    · exact (List.nodup_cons.mp both.nodup).1 (by rw [equal]; exact List.mem_cons_self)
  have apart := follows.apart allotted differ
  rwa [storage_qword both.left.qwords wide, storage_qword both.right.qwords wide, both.left.vector,
    both.right.vector] at apart

/-- The words of both loads put the values of the sources into the vectors. -/
theorem LoadsBoth.run (both : LoadsBoth bound i o o' left right loadLeft loadRight handedLeft handedRight)
    (allotted : Allotted f simd) (factor : IsFactor o) (factor' : IsFactor o') (below : Below bound o)
    (below' : Below bound o') (wide : IsWidth width) (lanes : f.allocation.kernel.widthOf i = width)
    (follows : Follows f width before loadLeft loadRight after product left right) {lefts rights : List (List Word)}
    (madeLeft : loadLeft.mapM (Branches.encoded g f) = .ok lefts)
    (madeRight : loadRight.mapM (Branches.encoded g f) = .ok rights) :
    (∀ w ∈ lefts.flatten ++ rights.flatten, StraightLine.Steady g w) ∧
      ∀ m : Machine, ∃ m', m.run g.layout (lefts.flatten ++ rights.flatten) = some m' ∧ m'.flag = m.flag ∧
        ∀ lane < width.toNat,
          qword m' (rowOf f.allocation.offsets left) lane = valueIn f.allocation.offsets m lane o ∧
            qword m' (rowOf f.allocation.offsets right) lane = valueIn f.allocation.offsets m lane o' := by
  obtain ⟨steadyLeft, fillsLeft⟩ := both.left.fills allotted factor below
    (fun r known => both.new r (List.mem_append_left _ known)) wide lanes follows.code madeLeft
  obtain ⟨steadyRight, fillsRight⟩ := both.right.fills allotted factor' below'
    (fun r known => both.new r (List.mem_append_right _ known)) wide lanes follows.later madeRight
  refine ⟨List.forall_mem_append.mpr ⟨steadyLeft, steadyRight⟩, fun m => ?_⟩
  obtain ⟨m₁, ran₁, flag₁, cells₁, outside₁⟩ := fillsLeft m
  obtain ⟨m₂, ran₂, flag₂, cells₂, outside₂⟩ := fillsRight m₁
  simp only [Nat.zero_le, Nat.zero_add, Nat.mul_zero, Nat.add_zero, forall_const] at cells₁ cells₂ outside₁ outside₂
  refine ⟨m₂, by rw [run_concat, ran₁, Option.bind_some, ran₂], flag₂.trans flag₁, fun lane inside => ⟨?_, ?_⟩⟩
  · rw [both.left_kept allotted wide follows inside outside₂, cells₁ lane inside]
  · rw [cells₂ lane inside,
      both.right_kept allotted factor' below' wide lanes follows madeRight inside outside₁]

end

/-- An expansion of a product of qwords: its vectors and temporaries are different registers where one of
them is written. -/
inductive Resolved (bound : Nat) (width : Int) (half : Half) (i : Instruction) (d : RegisterOperand) (o o' : Operand) :
    List Instruction → Prop where
  | intro {x left right : RegisterOperand} {loadLeft loadRight copy : List Instruction}
      {handedLeft handedRight handedDst temps : List VReg}
      (both : LoadsBoth bound i o o' left right loadLeft loadRight handedLeft handedRight)
      (aimed : IsAimed width i d x copy handedDst) (differ : handedDst = [x.reg] → x.reg ≠ d.reg)
      (length : temps.length = half.temporaries) (named : ∀ r ∈ temps, r ≠ VReg.none)
      (fresh : (x.reg :: temps).Nodup) (outLeft : left.reg ∉ x.reg :: temps)
      (outRight : right.reg ∉ x.reg :: temps) :
      Resolved bound width half i d o o'
        (loadLeft ++ (loadRight ++
          half.instruction i (.register x) (.register left) (.register right) temps :: copy))

theorem Expands.resolved {half : Half} {block : List Instruction} {o' : Operand}
    (expands : Expands half i block handed) (target : i.dst = .register d) (qwords : IsQwordRegister d)
    (vector : d.scalar = false ∨ width = 1) (src : i.src = [o, o']) (factor : IsFactor o) (factor' : IsFactor o')
    (names : NamesBelow bound i) (nodup : handed.Nodup)
    (new : ∀ r ∈ handed, bound ≤ r.number.toNat ∧ r ≠ VReg.none) : Resolved bound width half i d o o' block := by
  cases expands with
  | @intro left right dst loadLeft loadRight copy handedLeft handedRight handedDst temps loadsLeft loadsRight aims
      length =>
    have first : i.src.getD 0 default = o := by rw [src]; rfl
    have second : i.src.getD 1 default = o' := by rw [src]; rfl
    rw [first] at loadsLeft
    rw [second] at loadsRight
    have member : o ∈ i.src := by simp [src]
    have member' : o' ∈ i.src := by simp [src]
    have old : d.reg.number.toNat < bound :=
      names.dst d (by rw [target]; exact qwords.register)
    have named (r : VReg) (known : r ∈ handedLeft ++ (handedRight ++ (handedDst ++ temps))) : r ≠ VReg.none :=
      (new r known).2
    have large (r : VReg) (known : r ∈ handedLeft ++ (handedRight ++ (handedDst ++ temps))) :
        bound ≤ r.number.toNat := (new r known).1
    have nodupRight := (List.nodup_append.mp nodup).2.1
    have nodupDst := (List.nodup_append.mp nodupRight).2.1
    obtain ⟨y, rfl, loaded⟩ := loadsLeft.isLoaded factor (names.src o member) fun r known => named r (by simp [known])
    obtain ⟨z, rfl, loaded'⟩ :=
      loadsRight.isLoaded factor' (names.src o' member') fun r known => named r (by simp [known])
    obtain ⟨x, rfl, aimed⟩ := aims.isAimed target qwords vector fun r known => named r (by simp [known])
    refine .intro ⟨loaded, loaded', fun r known => large r ?_, ?_⟩ aimed ?_ length
      (fun r known => named r (by simp [known]))
      ?_ ?_ ?_
    · rw [← List.append_assoc]
      exact List.mem_append_left _ known
    · rw [← List.append_assoc] at nodup
      exact (List.nodup_append.mp nodup).1
    · rintro rfl equal
      have fresh := large x.reg (by simp)
      rw [equal] at fresh
      omega
    · exact List.nodup_cons.mpr ⟨aimed.reg_not_mem old nodupDst fun r known => large r (by simp [known]),
        (List.nodup_append.mp nodupDst).2.1⟩
    · exact loaded.reg_not_mem member aimed old nodup large
    · exact loaded'.reg_not_mem member' aimed old
        (show (handedRight ++ ([] ++ (handedDst ++ temps))).Nodup from nodupRight) fun r known =>
        large r (List.mem_append_right _ known)

/-- Words that run through on every machine and leave half of a product in every lane that an instruction
works on. -/
def Computes (l : Layout) (offsets : RegisterMap) (width : Int) (half : Half) (i : Instruction) (d : RegisterOperand)
    (o o' : Operand) (ws : List Word) : Prop :=
  ∀ m : Machine, ∃ m', m.run l ws = some m' ∧ ∀ lane < width.toNat, enabled i m.flag lane = true →
    qword m' (rowOf offsets d) lane = half.of (valueIn offsets m lane o) (valueIn offsets m lane o')

/-- The words of an expansion compute the product. -/
theorem Resolved.computes {half : Half} {block : List Instruction} {o' : Operand}
    (resolved : Resolved bound width half i d o o' block) (allotted : Allotted f simd)
    (target : i.dst = .register d) (qwords : IsQwordRegister d) (vector : d.scalar = false ∨ width = 1)
    (factor : IsFactor o) (factor' : IsFactor o') (below : Below bound o) (below' : Below bound o')
    (wide : IsWidth width) (lanes : f.allocation.kernel.widthOf i = width)
    (code : f.allocation.kernel.code = before ++ (block ++ after))
    (made : block.mapM (Branches.encoded g f) = .ok pieces) :
    (∀ w ∈ pieces.flatten, StraightLine.Steady g w) ∧
      Computes g.layout f.allocation.offsets width half i d o o' pieces.flatten := by
  cases resolved with
  | @intro x left right loadLeft loadRight copy handedLeft handedRight handedDst temps both aimed differ length named
      fresh outLeft outRight =>
    simp only [List.mapM_append, List.mapM_cons, bind_ok, pure_ok] at made
    obtain ⟨lefts, madeLeft, _, ⟨rights, madeRight, _, ⟨piece, madeProduct, copies, madeCopy, rfl⟩, rfl⟩, rfl⟩ := made
    simp only [List.append_assoc, List.cons_append] at code
    generalize equal : half.instruction i (.register x) (.register left) (.register right) temps = product
      at code madeProduct
    have same : f.allocation.kernel.widthOf product = width := by
      rw [← equal]
      exact lanes
    have later : f.allocation.kernel.code = (before ++ (loadLeft ++ loadRight)) ++ (product :: (copy ++ after)) := by
      simp [code]
    have last : f.allocation.kernel.code = (before ++ (loadLeft ++ (loadRight ++ [product]))) ++ (copy ++ after) := by
      simp [code]
    have here : f.allocation.kernel.code[(before ++ (loadLeft ++ loadRight)).length]? = some product := by
      rw [later, List.getElem?_append_right (Nat.le_refl _), Nat.sub_self]
      rfl
    have memberLeft : left ∈ product.registers :=
      registers_src (by simp [← equal, Half.instruction]) both.left.qwords
    have memberRight : right ∈ product.registers :=
      registers_src (by simp [← equal, Half.instruction]) both.right.qwords
    have unwritten : product.writes left.reg = false := by
      have other : x.reg ≠ left.reg := fun known => outLeft (by simp [known])
      simp [← equal, Half.instruction, Instruction.writes, Operand.names, aimed.qwords.register, other]
    obtain ⟨placed, steady, fills⟩ := half.instruction_fills allotted (by rw [equal]; exact here) length
      (by simp [aimed.qwords, aimed.vector, both.left.qwords, both.left.vector, both.right.qwords, both.right.vector])
      named fresh outLeft outRight wide lanes (by rw [equal]; exact madeProduct)
    have follows : Follows f width before loadLeft loadRight (copy ++ after) product left right :=
      ⟨code, same, memberLeft, memberRight, unwritten, placed left (by simp), placed right (by simp)⟩
    obtain ⟨steadyLoads, loads⟩ := both.run allotted factor factor' below below' wide lanes follows madeLeft madeRight
    obtain ⟨steadyCopy, rows, copied⟩ := aimed.fills allotted target qwords vector differ wide lanes last madeCopy
    rw [List.flatten_append, List.flatten_append, List.flatten_cons, ← List.append_assoc]
    refine ⟨List.forall_mem_append.mpr ⟨steadyLoads, List.forall_mem_append.mpr ⟨steady, steadyCopy⟩⟩, fun m => ?_⟩
    obtain ⟨m₁, ran₁, flag₁, values⟩ := loads m
    obtain ⟨m₂, ran₂, flag₂, cells₂, -⟩ := fills m₁
    obtain ⟨m₃, ran₃, -, cells₃, -⟩ := copied m₂
    refine ⟨m₃, by rw [run_concat, ran₁, Option.bind_some, run_concat, ran₂, Option.bind_some, ran₃], ?_⟩
    intro lane inside works
    have works₁ : enabled i m₁.flag lane = true := by rw [flag₁, works]
    have works₂ : enabled i m₂.flag lane = true := by rw [flag₂, works₁]
    obtain ⟨valueLeft, valueRight⟩ := values lane inside
    calc qword m₃ (rowOf f.allocation.offsets d) lane
        = qword m₂ (rowOf f.allocation.offsets x) lane := cells₃ lane (Nat.zero_le _) (by omega) works₂
      _ = half.of (qword m₁ (rowOf f.allocation.offsets left) lane)
          (qword m₁ (rowOf f.allocation.offsets right) lane) := cells₂ lane (Nat.zero_le _) (by omega) works₁
      _ = half.of (valueIn f.allocation.offsets m lane o) (valueIn f.allocation.offsets m lane o') := by
        rw [valueLeft, valueRight]

end

end GpuCodegen.Products
