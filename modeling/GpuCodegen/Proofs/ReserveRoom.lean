import Mathlib.Algebra.BigOperators.Group.Finset.Basic
import Mathlib.Algebra.Order.BigOperators.Group.Finset
import GpuCodegen.Proofs.RegistersAccounted
import GpuCodegen.Proofs.SpillGroups

/-! Whether the reserve has room for spill code. The temporaries of an instruction take the slots of the distinct
spilled registers it names, each a general register at least; spill code is inserted exactly where they fit behind
the header. The reserve is sized with the largest slot of the kernel, which may be less than a general register:
then an instruction that names two spilled registers can ask for more. -/

namespace GpuCodegen.SpillGroups
open LiveIntervals Outcome Placement

/-! ## Room for the temporaries of an instruction -/

/-- The spilled registers that some operands name. -/
def spilledIn (plan : SpillPlan) (os : List Operand) : Finset VReg :=
  ((os.filterMap Operand.register?).map RegisterOperand.reg).toFinset.filter (· ∈ plan.spilled)

/-- The bytes that the temporaries of some registers take. -/
def tempBytes (plan : SpillPlan) (rs : Finset VReg) : Nat := ∑ r ∈ rs, (tempSize plan r).toNat

/-- Where the temporaries of sources start: with the first general register behind the header. -/
def firstTemp (plan : SpillPlan) : UInt32 := alignUp plan.reserve.data 32

/-- No sum of a place in the reserve and a temporary wraps. -/
def TempsFit (plan : SpillPlan) : Prop :=
  ∀ r ∈ plan.spilled, (firstTemp plan).toNat + (tempSize plan r).toNat < 4294967296 ∧
    plan.reserve.limit.toNat + (tempSize plan r).toNat < 4294967296

/-- The reserve has room for an instruction: the temporaries fit behind the header, and if it writes one of them
they start right behind it. -/
structure HasRoom (plan : SpillPlan) (i : Instruction) : Prop where
  destination : (spilledIn plan [i.dst]).Nonempty → firstTemp plan ≤ plan.reserve.data
  fits : (spilledIn plan (i.dst :: i.src)).Nonempty →
    (firstTemp plan).toNat + tempBytes plan (spilledIn plan (i.dst :: i.src)) ≤ plan.reserve.limit.toNat

/-- The diagnostic of a reserve that is used up. -/
def reserveFull (plan : SpillPlan) (position : Nat) (r : VReg) : Diagnostic :=
  let d := Diagnostic.placement (.reserveFull position plan.reserve.size) r
  { d with location := { d.location with instruction := some position } }

/-- Temporaries for some registers and no others, one after the other from a start. -/
structure Filled (plan : SpillPlan) (start : UInt32) (rs : Finset VReg) (s : TempState) : Prop where
  owners : ∀ r, (∃ t ∈ s.temps, t.owner = r) ↔ r ∈ rs
  cursor : s.cursor.toNat = start.toNat + tempBytes plan rs
  fits : rs.Nonempty → s.cursor.toNat ≤ plan.reserve.limit.toNat

/-- How handing out temporaries for some registers ends: all of them have one, or the reserve is used up. -/
def Ends (plan : SpillPlan) (position : Nat) (start : UInt32) (rs : Finset VReg) :
    Except Diagnostic TempState → Prop
  | .ok s => Filled plan start rs s
  | .error d => plan.reserve.limit.toNat < start.toNat + tempBytes plan rs ∧ ∃ r ∈ rs, d = reserveFull plan position r

section
variable {plan : SpillPlan} {start : UInt32} {rs : Finset VReg} {s s' : TempState} {r : VReg} {o : Operand}

theorem mem_spilledIn {os : List Operand} :
    r ∈ spilledIn plan os ↔ (∃ o ∈ os, o.names r = true) ∧ r ∈ plan.spilled := by
  have named (o : Operand) : (∃ x, o.register? = some x ∧ x.reg = r) ↔ o.names r = true := by
    cases known : o.register? with
    | none => simp [Operand.names, known]
    | some x => simp [names_register known]
  simp only [spilledIn, Finset.mem_filter, List.mem_toFinset, List.mem_map, List.mem_filterMap]
  refine and_congr_left fun _ => ?_
  constructor
  · rintro ⟨x, ⟨o, member, known⟩, same⟩
    exact ⟨o, member, (named o).mp ⟨x, known, same⟩⟩
  · rintro ⟨o, member, names⟩
    obtain ⟨x, known, same⟩ := (named o).mpr names
    exact ⟨x, ⟨o, member, known⟩, same⟩

theorem spilledIn_cons (o : Operand) (os : List Operand) :
    spilledIn plan (o :: os) = spilledIn plan [o] ∪ spilledIn plan os := by
  ext r
  simp only [mem_spilledIn, Finset.mem_union, List.exists_mem_cons_iff, List.not_mem_nil, false_and, exists_false,
    or_false, or_and_right]

theorem spilledIn_unspilled (kept : ∀ r ∈ plan.spilled, o.names r = false) : spilledIn plan [o] = ∅ := by
  ext r
  simp only [mem_spilledIn, List.mem_singleton, exists_eq_left, Finset.notMem_empty, iff_false, not_and]
  intro names spilled
  rw [kept r spilled] at names
  cases names

theorem spilledIn_named {x : RegisterOperand} (named : o.register? = some x) (spilled : x.reg ∈ plan.spilled) :
    spilledIn plan [o] = {x.reg} := by
  ext r
  simp only [mem_spilledIn, List.mem_singleton, exists_eq_left, names_register named, Finset.mem_singleton]
  constructor
  · exact fun ⟨same, _⟩ => same.symm
  · rintro rfl
    exact ⟨rfl, spilled⟩

theorem tempBytes_mono {rs rs' : Finset VReg} (more : rs ⊆ rs') : tempBytes plan rs ≤ tempBytes plan rs' :=
  Finset.sum_le_sum_of_subset more

theorem Filled.size_sum (filled : Filled plan start rs s) (sums : TempsFit plan) (first : start ≤ firstTemp plan)
    (spilled : r ∈ plan.spilled) : (s.cursor + tempSize plan r).toNat = s.cursor.toNat + (tempSize plan r).toNat := by
  obtain ⟨low, high⟩ := sums r spilled
  refine FreePool.toNat_add ?_
  rcases rs.eq_empty_or_nonempty with rfl | some
  · have here := filled.cursor
    rw [tempBytes, Finset.sum_empty, Nat.add_zero] at here
    have before := UInt32.le_iff_toNat_le.mp first
    omega
  · have inside := filled.fits some
    omega

/-- One more temporary: there is room for it, or the reserve is used up. -/
theorem newTemp_ends (position : Nat) (reload store : Bool) (filled : Filled plan start rs s) (sums : TempsFit plan)
    (first : start ≤ firstTemp plan) (spilled : r ∈ plan.spilled) (absent : r ∉ rs) :
    Ends plan position start (insert r rs) (TempState.newTemp plan position s r reload store) := by
  have sum := filled.size_sum sums first spilled
  have total : start.toNat + tempBytes plan (insert r rs) = s.cursor.toNat + (tempSize plan r).toNat := by
    rw [filled.cursor, tempBytes, Finset.sum_insert absent, tempBytes]
    omega
  cases made : TempState.newTemp plan position s r reload store with
  | ok s' =>
    obtain ⟨fits, rfl⟩ := newTemp_made made
    refine ⟨fun q => ?_, ?_, fun _ => UInt32.le_iff_toNat_le.mp fits⟩
    · have known := filled.owners q
      simp only [List.mem_append, List.mem_singleton, or_and_right, exists_or, exists_eq_left, known,
        Finset.mem_insert]
      rw [or_comm, eq_comm]
      rfl
    · rw [total]
      exact sum
  | error d =>
    unfold TempState.newTemp at made
    dsimp only at made
    split at made
    · rename_i full
      cases made
      refine ⟨?_, r, Finset.mem_insert_self r rs, rfl⟩
      rw [total, ← sum]
      exact UInt32.lt_iff_toNat_lt.mp full
    · cases made

theorem source_ends (position : Nat) (o : Operand) (filled : Filled plan start rs s) (sums : TempsFit plan)
    (first : start ≤ firstTemp plan) :
    Ends plan position start (rs ∪ spilledIn plan [o]) (TempState.source plan position s o) := by
  unfold TempState.source
  split
  · rename_i unnamed
    rw [spilledIn_unspilled fun r _ => by simp [Operand.names, unnamed], Finset.union_empty]
    exact filled
  · rename_i x named
    split
    · rename_i spilled
      have spilled : x.reg ∈ plan.spilled := by simpa using spilled
      rw [spilledIn_named named spilled, Finset.union_comm, ← Finset.insert_eq]
      split
      · rename_i t found
        have there : x.reg ∈ rs :=
          (filled.owners x.reg).mp ⟨t, List.mem_of_find?_eq_some found, by simpa using List.find?_some found⟩
        rw [Finset.insert_eq_of_mem there]
        refine ⟨fun q => ?_, filled.cursor, filled.fits⟩
        rw [← filled.owners q]
        change (∃ u ∈ s.temps.map (mark x.reg), u.owner = q) ↔ _
        simp
      · rename_i missing
        refine newTemp_ends position true false filled sums first spilled fun there => ?_
        obtain ⟨t, member, owner⟩ := (filled.owners x.reg).mpr there
        simpa [owner] using List.find?_eq_none.mp missing t member
    · rename_i kept
      rw [spilledIn_unspilled, Finset.union_empty]
      · exact filled
      · intro r spilled
        rw [Bool.eq_false_iff, ne_eq, names_register named]
        rintro rfl
        exact kept (by simpa using spilled)

/-- The sources of an instruction, by induction on them: once the reserve is used up, more of them only need
more. -/
theorem sources_ends (position : Nat) (os : List Operand) (filled : Filled plan start rs s) (sums : TempsFit plan)
    (first : start ≤ firstTemp plan) :
    Ends plan position start (rs ∪ spilledIn plan os) (os.foldlM (TempState.source plan position) s) := by
  induction os generalizing rs s with
  | nil =>
    have none : spilledIn plan [] = ∅ := by
      ext r
      simp [mem_spilledIn]
    rw [none, Finset.union_empty]
    exact filled
  | cons o os ih =>
    rw [List.foldlM_cons, spilledIn_cons, ← Finset.union_assoc]
    have step := source_ends position o filled sums first
    cases made : TempState.source plan position s o with
    | ok t =>
      rw [made] at step
      exact ih step
    | error d =>
      rw [made] at step
      obtain ⟨short, r, member, same⟩ := step
      refine ⟨?_, r, Finset.mem_union_left _ member, same⟩
      exact Nat.lt_of_lt_of_le short (Nat.add_le_add_left (tempBytes_mono Finset.subset_union_left) _)

end

/-! ## Instructions and kernels -/

section
variable {plan : SpillPlan} {position : Nat} {k out : Kernel} {i : Instruction}

theorem Filled.empty {start : UInt32} (out : Kernel) : Filled plan start ∅ { out := out, cursor := start } := by
  refine ⟨fun r => by simp, ?_, fun some => absurd some Finset.not_nonempty_empty⟩
  rw [tempBytes, Finset.sum_empty, Nat.add_zero]

/-- Without pins nothing in the reserve is in use, but its data starts with a general register. -/
theorem reserveInUse_unpinned (free : ∀ r, k.pin? r = none) (i : Instruction) (reserve : Reserve) :
    k.reserveInUse i reserve = alignUp reserve.data 32 := by
  unfold Kernel.reserveInUse
  dsimp only
  refine congrArg (alignUp · 32) ?_
  refine List.foldlRecOn i.registers _ (motive := (· = reserve.data)) rfl fun stop same o _ => ?_
  rw [free]
  exact same

/-- The diagnostic of a destination that cannot start behind the header. -/
def destinationCollides (position : Nat) (r : VReg) : Diagnostic :=
  let d := Diagnostic.placement (.destinationCollides r) r
  { d with location := { d.location with instruction := some position } }

/-- Why an instruction gets no temporaries. -/
def Refuses (plan : SpillPlan) (position : Nat) (i : Instruction) (d : Diagnostic) : Prop :=
  ¬ HasRoom plan i ∧ ∃ r ∈ spilledIn plan (i.dst :: i.src),
    d = reserveFull plan position r ∨ plan.reserve.data < firstTemp plan ∧ d = destinationCollides position r

theorem Refuses.of_full {r : VReg} {rs : Finset VReg} (part : rs ⊆ spilledIn plan (i.dst :: i.src)) (member : r ∈ rs)
    (short : plan.reserve.limit.toNat < (firstTemp plan).toNat + tempBytes plan rs) :
    Refuses plan position i (reserveFull plan position r) := by
  refine ⟨fun room => ?_, r, part member, .inl rfl⟩
  have fits := room.fits ⟨r, part member⟩
  have more : tempBytes plan rs ≤ tempBytes plan _ := tempBytes_mono part
  omega

/-- The destination gets the first temporary, or none. -/
theorem destination_ends (position : Nat) (free : ∀ r, k.pin? r = none) (sums : TempsFit plan)
    (behind : plan.reserve.data ≤ firstTemp plan) (i : Instruction) (out : Kernel) :
    (∃ s, k.spilledDestination plan position i { out := out, cursor := plan.reserve.data } = .ok s ∧
        Filled plan (firstTemp plan) (spilledIn plan [i.dst]) { s with cursor := max s.cursor (firstTemp plan) } ∧
        ((spilledIn plan [i.dst]).Nonempty → firstTemp plan ≤ plan.reserve.data)) ∨
      ∃ d, k.spilledDestination plan position i { out := out, cursor := plan.reserve.data } = .error d ∧
        Refuses plan position i d := by
  have without (kept : ∀ r ∈ plan.spilled, i.dst.names r = false) :
      Filled plan (firstTemp plan) (spilledIn plan [i.dst])
        { out := out, cursor := max plan.reserve.data (firstTemp plan) } ∧
        ((spilledIn plan [i.dst]).Nonempty → firstTemp plan ≤ plan.reserve.data) := by
    have start : max plan.reserve.data (firstTemp plan) = firstTemp plan := if_pos behind
    rw [spilledIn_unspilled kept, start]
    exact ⟨.empty out, fun some => absurd some Finset.not_nonempty_empty⟩
  unfold Kernel.spilledDestination
  split
  · rename_i unnamed
    exact .inl ⟨_, rfl, without fun r _ => by simp [Operand.names, unnamed]⟩
  · rename_i dst named
    split
    · rename_i spilled
      have spilled : dst.reg ∈ plan.spilled := by simpa using spilled
      have one := spilledIn_named named spilled
      have part : {dst.reg} ⊆ spilledIn plan (i.dst :: i.src) := by
        rw [spilledIn_cons, one]
        exact Finset.subset_union_left
      rw [reserveInUse_unpinned free i plan.reserve, one]
      split
      · rename_i collides
        refine .inr ⟨_, rfl, fun room => ?_, dst.reg, part (Finset.mem_singleton_self _), .inr ⟨collides, rfl⟩⟩
        refine UInt32.not_lt.mpr (room.destination ?_) collides
        rw [one]
        exact Finset.singleton_nonempty _
      · rename_i first
        have first : firstTemp plan ≤ plan.reserve.data := UInt32.not_lt.mp first
        have same : plan.reserve.data = firstTemp plan := UInt32.le_antisymm behind first
        have empty : Filled plan (firstTemp plan) ∅ { out := out, cursor := firstTemp plan } := .empty out
        have ends := newTemp_ends position (!k.fullyDefines i dst || decide (1 < dst.spans)) true empty sums
          (UInt32.le_refl _) spilled (Finset.notMem_empty _)
        rw [insert_empty_eq] at ends
        rw [same]
        cases made : TempState.newTemp plan position { out := out, cursor := firstTemp plan } dst.reg
            (!k.fullyDefines i dst || decide (1 < dst.spans)) true with
        | ok s =>
          rw [made] at ends
          refine .inl ⟨s, rfl, ?_, fun _ => UInt32.le_refl _⟩
          have later : firstTemp plan ≤ s.cursor := by
            rw [UInt32.le_iff_toNat_le, ends.cursor]
            exact Nat.le_add_right _ _
          have start : max s.cursor (firstTemp plan) = s.cursor := by
            change (if s.cursor ≤ firstTemp plan then firstTemp plan else s.cursor) = _
            split
            · rename_i before
              exact UInt32.le_antisymm later before
            · rfl
          rw [start]
          exact ends
        | error d =>
          rw [made] at ends
          obtain ⟨short, r, member, same⟩ := ends
          exact .inr ⟨d, rfl, same ▸ .of_full part member short⟩
    · rename_i kept
      refine .inl ⟨_, rfl, without fun r spilled => ?_⟩
      rw [Bool.eq_false_iff, ne_eq, names_register named]
      rintro rfl
      exact kept (by simpa using spilled)

/-- An instruction gets its temporaries where the reserve has room for them. -/
theorem spillTemps_ends (position : Nat) (free : ∀ r, k.pin? r = none) (sums : TempsFit plan)
    (behind : plan.reserve.data ≤ firstTemp plan) (i : Instruction) (out : Kernel) :
    (∃ s, k.spillTemps plan position i out = .ok s) ∧ HasRoom plan i ∨
      ∃ d, k.spillTemps plan position i out = .error d ∧ Refuses plan position i d := by
  have inUse : k.reserveInUse i plan.reserve = firstTemp plan := reserveInUse_unpinned free i plan.reserve
  unfold Kernel.spillTemps
  rcases destination_ends position free sums behind i out with
    ⟨s, made, filled, destination⟩ | ⟨d, made, refuses⟩
  · rw [made, inUse]
    have ends := sources_ends position i.src filled sums (UInt32.le_refl _)
    rw [← spilledIn_cons] at ends
    change (∃ t, i.src.foldlM (TempState.source plan position) { s with cursor := max s.cursor (firstTemp plan) } =
        .ok t) ∧ _ ∨ ∃ d, i.src.foldlM (TempState.source plan position)
          { s with cursor := max s.cursor (firstTemp plan) } = .error d ∧ _
    cases ran : i.src.foldlM (TempState.source plan position)
        { s with cursor := max s.cursor (firstTemp plan) } with
    | ok t =>
      rw [ran] at ends
      refine .inl ⟨⟨t, rfl⟩, destination, fun some => ?_⟩
      rw [← ends.cursor]
      exact ends.fits some
    | error d =>
      rw [ran] at ends
      obtain ⟨short, r, member, same⟩ := ends
      exact .inr ⟨d, rfl, same ▸ .of_full (Finset.Subset.refl _) member short⟩
  · rw [made]
    exact .inr ⟨d, rfl, refuses⟩

/-- Spill code is inserted where there is room for every instruction, by induction on them. -/
theorem insertSpillCode_ends (free : ∀ r, k.pin? r = none) (sums : TempsFit plan)
    (behind : plan.reserve.data ≤ firstTemp plan) :
    (∃ k', k.insertSpillCode plan = .ok k') ∧ (∀ i ∈ k.code, HasRoom plan i) ∨
      ∃ d p i, k.insertSpillCode plan = .error d ∧ k.code[p]? = some i ∧ Refuses plan p i d := by
  have along (entries : List (Instruction × Nat)) (out : Kernel) :
      (∃ k', entries.foldlM (Kernel.spillStep k plan) out = .ok k') ∧ (∀ e ∈ entries, HasRoom plan e.1) ∨
        ∃ d, entries.foldlM (Kernel.spillStep k plan) out = .error d ∧ ∃ e ∈ entries, Refuses plan e.2 e.1 d := by
    induction entries generalizing out with
    | nil => exact .inl ⟨⟨out, rfl⟩, fun _ none => absurd none List.not_mem_nil⟩
    | cons e entries ih =>
      rw [List.foldlM_cons]
      unfold Kernel.spillStep
      rcases spillTemps_ends e.2 free sums behind e.1 out with ⟨⟨s, made⟩, room⟩ | ⟨d, made, refuses⟩
      · rw [made]
        rcases ih (s.out.emitAll (Kernel.withSpillCode e.1 s)) with ⟨ok, all⟩ | ⟨d, failed, e', member, refuses⟩
        · refine .inl ⟨ok, fun e' member => ?_⟩
          rcases List.mem_cons.mp member with rfl | later
          · exact room
          · exact all e' later
        · exact .inr ⟨d, failed, e', List.mem_cons_of_mem _ member, refuses⟩
      · rw [made]
        exact .inr ⟨d, rfl, e, List.mem_cons_self, refuses⟩
  unfold Kernel.insertSpillCode
  dsimp only
  rcases along k.code.zipIdx _ with ⟨ok, all⟩ | ⟨d, failed, ⟨i, p⟩, member, refuses⟩
  · refine .inl ⟨ok, fun i here => ?_⟩
    obtain ⟨p, at_⟩ := List.mem_iff_getElem?.mp here
    exact all (i, p) (List.mk_mem_zipIdx_iff_getElem?.mpr at_)
  · exact .inr ⟨d, p, i, failed, List.mk_mem_zipIdx_iff_getElem?.mp member, refuses⟩

end

/-! ## The reserve of a kernel -/

/-- The plan of the first round of spill code. -/
def firstPlan (k : Kernel) (cfg : SweepConfig) (s : Sweep) : SpillPlan :=
  ⟨Liveness.ofKernel k, s.scratch, s.spilled, Allocation.reserveFor cfg (Liveness.ofKernel k)⟩

/-- A reserve of whole general registers up to the end of the file, with room behind the header for the largest
slot times the operands of the busiest instruction. -/
structure Carved (cfg : SweepConfig) (lv : Liveness) (reserve : Reserve) : Prop where
  size : 32 + lv.maxOperands * lv.maxRegSize.toNat ≤ reserve.size.toNat
  rows : reserve.size.toNat % 32 = 0
  data : reserve.data.toNat + reserve.size.toNat = cfg.fileSize.toNat + 32
  limit : reserve.limit = cfg.fileSize

section
variable {k : Kernel} {cfg : SweepConfig} {scratchBase : UInt32} {s : Sweep}

theorem reserveFor_carved {lv : Liveness}
    (small : cfg.reservedLow.toNat + 64 + lv.maxOperands * lv.maxRegSize.toNat < 4294967296)
    (swept : Sweep.run k lv cfg (Allocation.reserveFor cfg lv).size scratchBase = .ok s) :
    Carved cfg lv (Allocation.reserveFor cfg lv) := by
  obtain ⟨size, known⟩ : ∃ size, alignUp (32 + UInt32.ofNat lv.maxOperands * lv.maxRegSize) 32 = size := ⟨_, rfl⟩
  have shape : Allocation.reserveFor cfg lv = ⟨cfg.fileSize - size, size⟩ := by rw [← known]; rfl
  have total : (32 + UInt32.ofNat lv.maxOperands * lv.maxRegSize).toNat =
      32 + lv.maxOperands * lv.maxRegSize.toNat := by
    rw [UInt32.toNat_add, UInt32.toNat_mul, UInt32.toNat_ofNat']
    change (32 + lv.maxOperands % 4294967296 * lv.maxRegSize.toNat % 4294967296) % 4294967296 = _
    rw [Nat.mod_mul_mod]
    omega
  obtain ⟨least, most, -⟩ := FreePool.alignUp_bounds (v := 32 + UInt32.ofNat lv.maxOperands * lv.maxRegSize)
    (show 0 < (32 : UInt32).toNat by decide) (by rw [total]; change _ + 32 < _; omega)
  have rows := alignUp_grains (32 + UInt32.ofNat lv.maxOperands * lv.maxRegSize)
  rw [known, total] at least most
  rw [known] at rows
  change size.toNat < _ + 32 at most
  -- The sweep left bytes below the reserve, which therefore lies in the file.
  have inside : size.toNat ≤ cfg.fileSize.toNat := by
    rw [shape] at swept
    unfold Sweep.run at swept
    split at swept
    · cases swept
    · rename_i window
      rw [UInt32.le_iff_toNat_le, FreePool.toNat_add (by change _ + size.toNat < _; omega)] at window
      change ¬ _ ≤ _ + size.toNat at window
      omega
  have header : (cfg.fileSize - size).toNat = cfg.fileSize.toNat - size.toNat :=
    UInt32.toNat_sub_of_le _ _ (UInt32.le_iff_toNat_le.mpr inside)
  have file := cfg.fileSize.toNat_lt
  rw [shape]
  refine ⟨least, rows, ?_, UInt32.sub_add_cancel _ _⟩
  change (cfg.fileSize - size + 32).toNat + size.toNat = _
  rw [FreePool.toNat_add (by rw [header]; change _ + 32 < _; omega), header]
  change _ - _ + 32 + _ = _
  omega

/-- The temporary of a spilled register takes its slot and a general register at least. -/
theorem tempSize_spilled {r : VReg} {held : UInt32}
    (swept : Sweep.run k (Liveness.ofKernel k) cfg held scratchBase = .ok s)
    (spilled : r ∈ s.spilled) : ∃ iv, (Liveness.ofKernel k).intervalOf? r = some iv ∧
      (tempSize (firstPlan k cfg s) r).toNat = max iv.slot.toNat 32 := by
  obtain ⟨n, live, rfl⟩ := (run_roster swept).spilled r spilled
  refine ⟨span k n, live.intervalOf, ?_⟩
  have known : (firstPlan k cfg s).liveness.intervalOf? (span k n).reg = some (span k n) := live.intervalOf
  rw [tempSize, known, Option.map_some, Option.getD_some]
  exact (scratchBytes_grains _).1

theorem registers_length (i : Instruction) :
    ((i.dst :: i.src).filterMap Operand.register?).length = i.registers.length := by
  rw [Instruction.registers, List.filterMap_cons]
  cases i.dst.register? <;> simp

/-- The temporaries of an instruction take no more than the largest of them for every operand. -/
theorem tempBytes_le {i : Instruction} (here : i ∈ k.code)
    (swept : Sweep.run k (Liveness.ofKernel k) cfg (Allocation.reserveFor cfg (Liveness.ofKernel k)).size scratchBase =
      .ok s) : tempBytes (firstPlan k cfg s) (spilledIn (firstPlan k cfg s) (i.dst :: i.src)) ≤
      (Liveness.ofKernel k).maxOperands * max (Liveness.ofKernel k).maxRegSize.toNat 32 := by
  have each : ∀ r ∈ spilledIn (firstPlan k cfg s) (i.dst :: i.src), (tempSize (firstPlan k cfg s) r).toNat ≤
      max (Liveness.ofKernel k).maxRegSize.toNat 32 := by
    intro r member
    obtain ⟨iv, found, size⟩ := tempSize_spilled swept (mem_spilledIn.mp member).2
    have most := UInt32.le_iff_toNat_le.mp (StraightLine.slot_le_maxRegSize found)
    rw [size]
    omega
  have few : (spilledIn (firstPlan k cfg s) (i.dst :: i.src)).card ≤ (Liveness.ofKernel k).maxOperands := by
    refine (Finset.card_filter_le _ _).trans ((List.toFinset_card_le _).trans ?_)
    rw [List.length_map, registers_length]
    exact StraightLine.registers_le_maxOperands here
  exact (Finset.sum_le_card_nsmul _ _ _ each).trans (Nat.mul_le_mul_right _ few)

/-- The first round of spill code goes through exactly when the reserve has room for each instruction, and fails at
one for which it has none. With a file of whole general registers and a register that takes one there is always
room. -/
theorem reserve_suffices (k : Kernel) (cfg : SweepConfig) (scratchBase : UInt32) (s : Sweep)
    (free : ∀ r, k.pin? r = none) (sums : SumsFit k cfg 0)
    (small : cfg.reservedLow.toNat + 64 +
      (Liveness.ofKernel k).maxOperands * (Liveness.ofKernel k).maxRegSize.toNat < 4294967296)
    (swept : Sweep.run k (Liveness.ofKernel k) cfg (Allocation.reserveFor cfg (Liveness.ofKernel k)).size scratchBase =
      .ok s) (spills : s.spilled ≠ []) :
    ((∃ k', k.insertSpillCode (firstPlan k cfg s) = .ok k') ↔ ∀ i ∈ k.code, HasRoom (firstPlan k cfg s) i) ∧
      (∀ d, k.insertSpillCode (firstPlan k cfg s) = .error d →
        ∃ p i, k.code[p]? = some i ∧ Refuses (firstPlan k cfg s) p i d) ∧
      (cfg.fileSize.toNat % 32 = 0 → 32 ≤ (Liveness.ofKernel k).maxRegSize.toNat →
        ∃ k', k.insertSpillCode (firstPlan k cfg s) = .ok k') := by
  obtain ⟨size, rows, data, stop⟩ := reserveFor_carved small swept
  have limit : (firstPlan k cfg s).reserve.limit = cfg.fileSize := stop
  have file (r : VReg) (spilled : r ∈ s.spilled) :
      cfg.fileSize.toNat + (tempSize (firstPlan k cfg s) r).toNat + 32 < 4294967296 := by
    obtain ⟨iv, found, size⟩ := tempSize_spilled swept spilled
    have search := sums.search r iv found
    rw [UInt32.sub_zero] at search
    omega
  obtain ⟨r₀, spilled₀⟩ := List.exists_mem_of_ne_nil _ spills
  have file₀ := file r₀ spilled₀
  obtain ⟨behind, near, whole⟩ := FreePool.alignUp_bounds
    (v := (Allocation.reserveFor cfg (Liveness.ofKernel k)).data) (show 0 < (32 : UInt32).toNat by decide)
    (by change _ + 32 < _; omega)
  change _ ≤ (firstTemp (firstPlan k cfg s)).toNat at behind
  change (firstTemp (firstPlan k cfg s)).toNat < _ + 32 at near
  change 32 ∣ (firstTemp (firstPlan k cfg s)).toNat at whole
  have fit : TempsFit (firstPlan k cfg s) := by
    intro r spilled
    have file := file r spilled
    refine ⟨by omega, ?_⟩
    rw [limit]
    omega
  have ends := insertSpillCode_ends free fit (UInt32.le_iff_toNat_le.mpr behind)
  have exactly : (∃ k', k.insertSpillCode (firstPlan k cfg s) = .ok k') ↔
      ∀ i ∈ k.code, HasRoom (firstPlan k cfg s) i := by
    rcases ends with ⟨ok, all⟩ | ⟨d, p, i, failed, at_, refuses⟩
    · exact ⟨fun _ => all, fun _ => ok⟩
    · refine ⟨fun ⟨k', ok⟩ => ?_, fun all => absurd (all i (List.mem_of_getElem? at_)) refuses.1⟩
      rw [failed] at ok
      cases ok
  refine ⟨exactly, fun d failed => ?_, fun whole large => exactly.mpr fun i here => ?_⟩
  · rcases ends with ⟨⟨k', ok⟩, -⟩ | ⟨d', p, i, failed', at_, refuses⟩
    · rw [failed] at ok
      cases ok
    · cases failed.symm.trans failed'
      exact ⟨p, i, at_, refuses⟩
  · -- Behind the header a general register starts, and the reserve was made for the largest temporaries.
    have first : (firstTemp (firstPlan k cfg s)).toNat =
        (Allocation.reserveFor cfg (Liveness.ofKernel k)).data.toNat := by omega
    refine ⟨fun _ => UInt32.le_iff_toNat_le.mpr (Nat.le_of_eq first), fun _ => ?_⟩
    have demand := tempBytes_le here swept
    rw [Nat.max_eq_left large] at demand
    rw [limit, first]
    omega

end

theorem reserve_suffices_pressed : ∃ s,
    Sweep.run pressed (Liveness.ofKernel pressed) fiveRegisters
      (Allocation.reserveFor fiveRegisters (Liveness.ofKernel pressed)).size 0 = .ok s ∧
    s.spilled = [⟨1⟩, ⟨0⟩] ∧ (∀ i ∈ pressed.code, HasRoom (firstPlan pressed fiveRegisters s) i) ∧
    ∃ k', pressed.insertSpillCode (firstPlan pressed fiveRegisters s) = .ok k' := by
  have outcome : (Sweep.run pressed (Liveness.ofKernel pressed) fiveRegisters
      (Allocation.reserveFor fiveRegisters (Liveness.ofKernel pressed)).size 0).toOption.map Sweep.spilled =
      some [⟨1⟩, ⟨0⟩] := by
    simp only [Sweep.run, Sweep.start, Liveness.ofKernel, sorted_insertion]
    decide +kernel
  have fits : ((Liveness.ofKernel pressed).store.intervals.all fun iv =>
      iv.size.toNat + 32 < 4294967296 && 160 + iv.slot.toNat + 64 < 4294967296) = true := by
    decide +kernel
  simp only [List.all_eq_true, Bool.and_eq_true, decide_eq_true_eq] at fits
  obtain ⟨s, swept, spilled⟩ := toOption_map_some.mp outcome
  have sums : SumsFit pressed fiveRegisters 0 :=
    sumsFit_of_unpinned (fun _ => rfl) fun r iv found => fits iv (mem_of_intervalOf found)
  obtain ⟨exactly, -, always⟩ := reserve_suffices pressed fiveRegisters 0 s (fun _ => rfl) sums (by decide +kernel)
    swept (by simp [spilled])
  have ok := always rfl (by decide +kernel)
  exact ⟨s, swept, spilled, exactly.mp ok, ok⟩

/-- Nine registers of half a general register each, compared two by two. -/
def words : Kernel := Kernel.emitAll { name := "words", simdWidth := 8 }
  ([1, 2, 3, 4, 5, 6, 7, 8, 9].map (fun n =>
      { op := .mov, dst := .vector ⟨UInt32.ofNat n - 1⟩ .uw, src := [.immediate .uw (UInt64.ofNat n) false false] }) ++
    ([(0, 1), (2, 3), (4, 5), (6, 7), (8, 0)].map fun (a, b) =>
      { op := .compare, src := [.vector ⟨a⟩ .uw, .vector ⟨b⟩ .uw], condition := .eq }) ++
    [{ op := .endThread }])

/-- Four general registers. -/
def fourRows : SweepConfig := ⟨128, 0, true, .longest, 0⟩

/-- Two spilled words ask for two general registers, and the reserve was made for two words. -/
theorem reserve_exhausted : (∀ r, words.pin? r = none) ∧ ∃ first s,
    Sweep.run words (Liveness.ofKernel words) fourRows 0 0 = .ok first ∧ first.spilled ≠ [] ∧
    Sweep.run words (Liveness.ofKernel words) fourRows
      (Allocation.reserveFor fourRows (Liveness.ofKernel words)).size 0 = .ok s ∧ s.spilled ≠ [] ∧
    words.insertSpillCode (firstPlan words fourRows s) = .error (reserveFull (firstPlan words fourRows s) 12 ⟨7⟩) := by
  have whole : (Sweep.run words (Liveness.ofKernel words) fourRows 0 0).toOption.map Sweep.spilled = some [⟨8⟩] := by
    simp only [Sweep.run, Sweep.start, Liveness.ofKernel, sorted_insertion]
    decide +kernel
  have reserved : (Sweep.run words (Liveness.ofKernel words) fourRows
      (Allocation.reserveFor fourRows (Liveness.ofKernel words)).size 0).toOption.map (fun s =>
        (s.spilled, (words.insertSpillCode (firstPlan words fourRows s)).map fun _ => ())) =
      some ([⟨0⟩, ⟨5⟩, ⟨6⟩, ⟨7⟩, ⟨8⟩], .error { Diagnostic.placement (.reserveFull 12 64) ⟨7⟩ with
        location := { register := some 7, instruction := some 12 } }) := by
    simp only [Sweep.run, Sweep.start, Liveness.ofKernel, sorted_insertion]
    decide +kernel
  obtain ⟨first, swept, spilled⟩ := toOption_map_some.mp whole
  obtain ⟨s, swept', rest⟩ := toOption_map_some.mp reserved
  obtain ⟨spilled', failed⟩ := Prod.mk.inj rest
  refine ⟨fun _ => rfl, first, s, swept, by simp [spilled], swept', by simp [spilled'], ?_⟩
  cases inserted : words.insertSpillCode (firstPlan words fourRows s) with
  | ok k' =>
    rw [inserted] at failed
    cases failed
  | error d =>
    rw [inserted] at failed
    rw [Except.error.inj failed]
    rfl

end GpuCodegen.SpillGroups
