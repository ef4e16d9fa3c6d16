import GpuCodegen.Proofs.CommandTypes
import GpuCodegen.Proofs.ControlInstructions
import GpuCodegen.Proofs.SelectionInvariants

/-! Features are checked in selection. Every instruction that selection appends has operands the target takes,
and spill code keeps their types, so a kernel that was selected and allocated is not stopped by a missing
feature. Two checks are missing: of the sources of three-source operations, whose unit takes fewer types
than other operations do, and of the qword temporaries of a product without destination. -/

namespace GpuCodegen.Features
open Outcome Failures

/-- What selection passes on although the target lacks it. -/
inductive Unchecked (g : Generation) (i : Instruction) : Prop where
  /-- A three-source operation on sources of one type that its unit does not take. -/
  | triple (three : i.op.isThreeSource = true) {t : Native.DataType} (sources : ∀ o ∈ i.src, o.type.dataType = t)
      (lacks : g.tripleUnitTakes t = false)
  /-- A product of 64-bit integers without destination, on a target that has none. -/
  | product (op : i.op = .mul ∨ i.op = .mulHi) (absent : i.dst.isAbsent = true) (wide : i.dst.type.isInt64 = true)
      (lacks : g.supports .int64 = false)

/-- A kernel of instructions whose operands the target takes, with pointers that it has. -/
structure Kept (c : Context) (k : Kernel) : Prop where
  code : ∀ i ∈ k.code, Fits c i
  pointers : k.pointerSize = 8 → c.supports .int64 = true

/-- A part of selection that appends such instructions only, with what holds of its result. -/
abbrev Keeps {α : Type} (c : Context) (m : Select α) (Q : α → Prop) : Prop := Select.Keeps (Kept c) m Q

theorem emit_keeps {c : Context} {i : Instruction} (fits : Fits c i) : Keeps c (Select.emit i) fun _ => True := by
  refine .appended fun k kept => ⟨fun j member => ?_, kept.pointers⟩
  rcases List.mem_append.mp member with before | here
  · exact kept.code j before
  · cases List.mem_singleton.mp here
    exact fits

theorem fresh_keeps {c : Context} : Keeps c Select.fresh fun _ => True :=
  .fresh fun _ kept => ⟨kept.code, kept.pointers⟩

/-! ## Parts of selection -/

section
variable {c : Context} {i : Instruction}

/-- The operands of an instruction passed selection's check. -/
structure Passed (c : Context) (i : Instruction) : Prop where
  dst : i.dst.isAbsent = false → HasType c i.dst.type false
  src : ∀ o ∈ i.src, Checked c o

theorem temp_keeps {t : Element} : Keeps c (Select.temp t) fun v => ∃ r, v = .vector r t :=
  .bind fresh_keeps fun r _ => .pure ⟨r, rfl⟩

/-- A move of a checked source to a place of a type the target has. -/
theorem move_fits {o : Operand} (op : i.op = .mov) (src : i.src = [o]) (checked : Checked c o)
    (target : HasType c i.dst.type false) : Fits c i := by
  refine ⟨fun _ => target, ?_, ?_, ?_, ?_, ?_⟩
  · rw [src]
    exact fun o' member => List.mem_singleton.mp member ▸ checked
  · rw [op, src]
    rintro n ⟨⟩
    rfl
  all_goals
    rw [op]
    simp [Opcode.isThreeSource]

theorem vector_keeps {o : Operand} (checked : Checked c o) : Keeps c (Select.vector o i) (Checked c) := by
  unfold Select.vector
  split
  · exact .pure checked
  · refine .bind temp_keeps fun v ⟨r, named⟩ => ?_
    subst named
    exact .bind (emit_keeps (move_fits rfl rfl checked checked.register)) fun _ _ => .pure checked.register

theorem scalar_keeps {o : Operand} (checked : Checked c o) :
    Keeps c (Select.scalar o i) fun v => v.type = o.type ∧ Checked c v := by
  unfold Select.scalar
  split
  · refine .bind fresh_keeps fun r _ => ?_
    exact .bind (emit_keeps (move_fits rfl rfl checked checked.register)) fun _ _ =>
      .pure ⟨rfl, checked.register⟩
  · exact .pure ⟨rfl, checked⟩

/-- An operation that needs no feature beside those of its operands. -/
def plain (op : Opcode) : Bool :=
  !(op matches .mul64 | .mulHi64 | .stackSetup | .motionMessage | .mad | .lrp)

theorem plain_fits (simple : plain i.op = true) (passed : Passed c i)
    (count : ∀ n, Select.sourceCount? i.op = some n → i.src.length = n) : Fits c i := by
  refine ⟨passed.dst, passed.src, count, ?_, ?_, ?_⟩ <;> intro special
  · rcases special with op | op | ⟨op, -⟩ <;> rw [op] at simple <;> cases simple
  · rw [special] at simple
    cases simple
  · unfold Opcode.isThreeSource at special
    simp only [Bool.or_eq_true, beq_iff_eq] at special
    rcases special with op | op <;> rw [op] at simple <;> cases simple

theorem checked_source (passed : Passed c i) (n : Nat) : Checked c (i.src.getD n default) :=
  checked_getD passed.src n

theorem aliased_present (aliased : i.aliased = true) : i.dst.isAbsent = false := by
  unfold Instruction.aliased at aliased
  cases dst : i.dst with
  | absent t =>
    rw [dst] at aliased
    cases aliased
  | register x => rfl
  | immediate t bits negate absolute => rfl

theorem copyBack_keeps {result : Operand} (target : i.dst.isAbsent = false → HasType c i.dst.type false)
    (checked : Checked c result) : Keeps c (Select.copyBack i result) fun _ => True := by
  unfold Select.copyBack
  split
  · rename_i r x named
    split
    · exact .pure trivial
    · exact emit_keeps (move_fits rfl rfl checked (target (by rw [named]; rfl)))
  · exact .pure trivial

/-- A product of 64-bit integers has a target with such integers, if selection looked. -/
theorem wide_supported (passed : Passed c i) (op : i.op = .mul ∨ i.op = .mulHi) (wide : i.dst.type.isInt64 = true)
    (checked : ¬ Unchecked c.generation i) : c.supports .int64 = true := by
  cases absent : i.dst.isAbsent
  · exact (passed.dst absent).int64 wide
  · by_contra lacks
    exact checked (.product op absent wide (by simpa [Context.supports] using lacks))

/-- A product of qwords: its temporaries are qwords whatever its operands are. -/
theorem product_keeps {op : Opcode} (kind : op = .mul64 ∨ op = .mulHi64) (scratch : Nat) (passed : Passed c i)
    {type : Element} (same : i.dst.type = type) (int64 : c.supports .int64 = true) :
    Keeps c (Select.product op scratch i type) fun _ => True := by
  have temps : Keeps c ((List.replicate scratch Element.ul).mapM Select.temp)
      (List.Forall₂ (fun _ v => Checked c v) (List.replicate scratch Element.ul)) := by
    refine .mapM fun t member => temp_keeps.mono ?_
    rintro v ⟨r, rfl⟩
    rw [List.eq_of_mem_replicate member]
    exact hasType_qword int64
  have emitted {a b d : Operand} {vs : List Operand} (left : Checked c a) (right : Checked c b)
      (target : d.isAbsent = false → HasType c d.type false)
      (wide : List.Forall₂ (fun _ v => Checked c v) (List.replicate scratch Element.ul) vs) :
      Fits c { op := op, dst := d, src := [a, b] ++ vs, execWidth := i.execWidth, block := i.block,
               predicated := i.predicated } := by
    refine ⟨target, ?_, ?_, fun _ => int64, ?_, ?_⟩
    · have temporaries : ∀ v ∈ vs, Checked c v := by
        intro v member
        obtain ⟨length, each⟩ := List.forall₂_iff_get.mp wide
        obtain ⟨n, small, rfl⟩ := List.getElem_of_mem member
        exact each n (length ▸ small) small
      simp only [List.cons_append, List.nil_append, List.forall_mem_cons]
      exact ⟨left, right, temporaries⟩
    all_goals rcases kind with rfl | rfl <;> simp [Select.sourceCount?, Opcode.isThreeSource]
  unfold Select.product
  refine .bind (vector_keeps (checked_source passed 0)) fun a left =>
    .bind (vector_keeps (checked_source passed 1)) fun b right => ?_
  split
  · rename_i aliased
    have present := aliased_present aliased
    refine .bind temp_keeps fun dst made => .bind temps fun vs wide => ?_
    obtain ⟨r, rfl⟩ := made
    have has : HasType c type false := same ▸ passed.dst present
    exact .bind (emit_keeps (emitted (d := .vector r type) left right (fun _ => has) wide)) fun _ _ =>
      copyBack_keeps passed.dst has
  · exact .bind (.pure (Q := fun dst => dst = i.dst) rfl) fun dst same => .bind temps fun vs wide =>
      .bind (emit_keeps (emitted left right (same ▸ passed.dst) wide)) fun _ _ => .pure trivial

theorem mulHi_keeps (passed : Passed c i) (op : i.op = .mulHi) (checked : ¬ Unchecked c.generation i) :
    Keeps c (Select.mulHi i) fun _ => True := by
  unfold Select.mulHi
  split
  · rename_i type
    refine product_keeps (.inr rfl) 3 passed type (wide_supported passed (.inr op) (by rw [type]; rfl) checked)
  · exact .throw _

theorem ternary_keeps (passed : Passed c i) (three : i.op.isThreeSource = true) (count : i.src.length = 3)
    (checked : ¬ Unchecked c.generation i) : Keeps c (Select.ternary c i) fun _ => True := by
  unfold Select.ternary
  refine .refuse fun takes =>
    .bind (.mapM fun o member => scalar_keeps (passed.src o member)) fun vs each => emit_keeps ?_
  obtain ⟨length, same⟩ := List.forall₂_iff_get.mp each
  refine ⟨passed.dst, ?_, ?_, ?_, ?_, fun _ => ⟨by simpa using takes, fun t types => ?_⟩⟩
  · intro v member
    obtain ⟨n, small, rfl⟩ := List.getElem_of_mem member
    exact (same n (length ▸ small) small).2
  · intro n counted
    unfold Opcode.isThreeSource at three
    simp only [Bool.or_eq_true, beq_iff_eq] at three
    have listed : Select.sourceCount? i.op = some 3 := by rcases three with op | op <;> rw [op] <;> rfl
    cases listed.symm.trans counted
    exact length.symm.trans count
  · rintro (op | op | ⟨op, -⟩) <;> simp only at op <;> rw [op] at three <;> cases three
  · intro op
    simp only at op
    rw [op] at three
    cases three
  · by_contra lacks
    refine checked (.triple three (t := t) (fun o member => ?_) (by simpa using lacks))
    obtain ⟨n, small, rfl⟩ := List.getElem_of_mem member
    have type := (same n small (length ▸ small)).1
    rw [← types _ (List.get_mem vs ⟨n, length ▸ small⟩), type]
    rfl

/-- Parts of a payload are moved into place with the types they have. -/
theorem stagePayload_keeps {parts : List Operand} (checked : ∀ o ∈ parts, Checked c o) :
    Keeps c (Select.stagePayload i parts) fun _ => True := by
  refine .bind fresh_keeps fun p _ => .bind (.forM fun entry member => ?_) fun _ _ => .pure trivial
  have source := checked entry.1 (List.fst_mem_of_mem_zipIdx member)
  exact emit_keeps (move_fits rfl rfl source source.register)

theorem atomic_keeps (passed : Passed c i) : Keeps c (Select.atomic c i) fun _ => True := by
  have message : Keeps c (do
      let p ← Select.stagePayload i i.src
      Select.emit
        { op := .atomicMessage, dst := i.dst, src := [.payload p .ud i.src.length],
          execWidth := i.execWidth, block := i.block, predicated := i.predicated, atomic := i.atomic,
          surface := i.surface }) fun _ => True := by
    refine .bind (stagePayload_keeps passed.src) fun p _ => emit_keeps (plain_fits rfl ⟨passed.dst, ?_⟩ nofun)
    exact fun o member => List.mem_singleton.mp member ▸ hasType_common (t := .ud) (by decide)
  unfold Select.atomic
  dsimp only
  split
  · exact .refuse fun _ => .stop _ _
  · refine .refuse fun _ => .refuse fun _ => .bind (.lift _) fun _ _ => ?_
    split
    · exact .stop _ _
    · exact message

theorem load_keeps (passed : Passed c i) (op : i.op = .load) : Keeps c (Select.load i) fun _ => True := by
  refine .refuse fun _ => .bind (vector_keeps (checked_source passed 0)) fun address checked =>
    emit_keeps (plain_fits (by rw [op]; rfl) ⟨passed.dst, ?_⟩ ?_)
  · exact fun o member => List.mem_singleton.mp member ▸ checked
  · rw [op]
    rintro n ⟨⟩
    rfl

theorem store_keeps (passed : Passed c i) : Keeps c (Select.store i) fun _ => True := by
  refine .refuse fun _ => .bind (stagePayload_keeps ?_) fun p _ => emit_keeps (plain_fits rfl ⟨nofun, ?_⟩ nofun)
  · simp only [List.forall_mem_cons]
    exact ⟨checked_source passed 0, checked_source passed 1, by simp⟩
  · exact fun o member => List.mem_singleton.mp member ▸ hasType_common (t := .ud) (by decide)

theorem indirectMov_keeps (passed : Passed c i) (op : i.op = .indirectMov) (count : i.src.length = 1) :
    Keeps c (Select.indirectMov c i) fun _ => True := by
  have fits : Fits c i := plain_fits (by rw [op]; rfl) passed (by rw [op]; rintro n ⟨⟩; exact count)
  unfold Select.indirectMov
  dsimp only
  split
  · exact .refuse fun _ => .refuse fun _ => .refuse fun _ => emit_keeps fits
  · exact .stop _ _

theorem motion_keeps (passed : Passed c i) : Keeps c (Select.motion c i) fun _ => True := by
  unfold Select.motion
  dsimp only
  refine .refuse fun estimates => .refuse fun _ => .refuse fun _ => ?_
  split
  · exact .throw _
  · refine .bind (.lift _) fun _ _ => ?_
    split
    · exact .stop _ _
    · refine .bind fresh_keeps fun p _ =>
        emit_keeps ⟨fun _ => hasType_common (t := .ud) (by decide), ?_, nofun, ?_, ?_, nofun⟩
      · simp only [List.forall_mem_cons]
        exact ⟨hasType_common (t := .ud) (by decide), passed.src⟩
      · rintro (op | op | ⟨op, -⟩) <;> cases op
      · intro _
        simpa using estimates

theorem barrier_keeps (passed : Passed c i) (op : i.op = .barrier) : Keeps c (Select.barrier i) fun _ => True := by
  have dword : HasType c .ud false := hasType_common (by decide)
  have emitted {dst : Operand} {src : List Operand} (target : dst.isAbsent = false → HasType c dst.type false)
      (sources : ∀ o ∈ src, Checked c o) :
      Keeps c (Select.emit { i with execWidth := 8, dst := dst, src := src }) fun _ => True :=
    emit_keeps (plain_fits (by rw [op]; rfl) ⟨target, sources⟩ (by rw [op]; nofun))
  have target : Keeps c (Select.temp .ud) fun dst => dst.isAbsent = false → HasType c dst.type false := by
    refine temp_keeps.mono ?_
    rintro v ⟨r, rfl⟩ -
    exact dword
  have sources : Keeps c ((fun t => [t]) <$> Select.temp .ud) fun src => ∀ o ∈ src, Checked c o := by
    refine .map temp_keeps ?_
    rintro v ⟨r, rfl⟩ o member
    cases List.mem_singleton.mp member
    exact dword
  unfold Select.barrier
  dsimp only
  split <;> split
  · exact .bind (.pure passed.dst) fun _ has => .bind (.pure passed.src) fun _ checked => emitted has checked
  · exact .bind (.pure passed.dst) fun _ has => .bind sources fun _ checked => emitted has checked
  · exact .bind target fun _ has => .bind (.pure passed.src) fun _ checked => emitted has checked
  · exact .bind target fun _ has => .bind sources fun _ checked => emitted has checked

theorem get_keeps : Keeps c (get : Select Kernel) fun k => k.pointerSize = 8 → c.supports .int64 = true :=
  Select.Keeps.get.mono fun _ kept => kept.pointers

theorem stackSetup_keeps : Keeps c (Select.stackSetup c) fun _ => True := by
  refine .bind get_keeps fun k int64 => .bind fresh_keeps fun tmp _ => .bind fresh_keeps fun lane _ => emit_keeps ?_
  have dword : HasType c .ud false := hasType_common (by decide)
  refine ⟨fun _ => ?_, ?_, nofun, ?_, nofun, nofun⟩
  · change HasType c (if k.pointerSize = 8 then Element.ul else .ud) false
    split
    · rename_i qword
      exact hasType_qword (int64 qword)
    · exact dword
  · simp only [List.forall_mem_cons]
    exact ⟨dword, dword, by simp⟩
  · rintro (op | op | ⟨-, wide⟩)
    · cases op
    · cases op
    · change (if k.pointerSize = 8 then Element.ul else .ud).is64 = true at wide
      split at wide
      · rename_i qword
        exact int64 qword
      · cases wide

theorem sources_counted {n : Nat} (passed : Select.wantSources i n = .ok ()) : i.src.length = n := by
  unfold Select.wantSources at passed
  split at passed
  · assumption
  · cases passed

/-- Selection appends instructions whose operands the target takes, if it checks all that it has to. -/
theorem lower_keeps (passed : Passed c i) (checked : ¬ Unchecked c.generation i) :
    Keeps c (Select.lower c i) fun _ => True := by
  have simple {n : Nat} (op : plain i.op = true) (listed : Select.sourceCount? i.op = some n)
      (counted : Select.wantSources i n = .ok ()) : Fits c i := by
    refine plain_fits op passed fun m other => ?_
    cases listed.symm.trans other
    exact sources_counted counted
  unfold Select.lower
  cases op : i.op
  all_goals dsimp only [Select.sourceCount?]
  case mul =>
    refine .bind (.lift _) fun _ counted => ?_
    split
    · rename_i wide
      simp only [Bool.and_eq_true] at wide
      exact product_keeps (.inl rfl) 1 passed rfl (wide_supported passed (.inl op) wide.1 checked)
    · exact emit_keeps (simple (by rw [op]; rfl) (by rw [op]; rfl) counted)
  case mulHi => exact .bind (.lift _) fun _ _ => mulHi_keeps passed op checked
  case mad | lrp =>
    exact .bind (.lift _) fun _ counted => ternary_keeps passed (by rw [op]; rfl) (sources_counted counted) checked
  case atomic => exact atomic_keeps passed
  case load => exact .bind (.lift _) fun _ _ => load_keeps passed op
  case store => exact .bind (.lift _) fun _ _ => store_keeps passed
  case indirectMov => exact .bind (.lift _) fun _ counted => indirectMov_keeps passed op (sources_counted counted)
  case barrier => exact barrier_keeps passed op
  case motion => exact motion_keeps passed
  case compare =>
    refine .bind (.lift _) fun _ counted => ?_
    split
    · exact emit_keeps (simple (by rw [op]; rfl) (by rw [op]; rfl) counted)
    · exact .throw _
  case mul64 | mulHi64 | atomicMessage | storeMessage | stackSetup | reload | spill | motionMessage |
      unlisted =>
    exact .throw _
  all_goals
    exact .bind (.lift _) fun _ counted => emit_keeps (simple (by rw [op]; rfl) (by rw [op]; rfl) counted)

end

/-! ## Selected kernels -/

section
variable {c : Context}

theorem narrowed_unchecked {i : Instruction} (unchecked : Unchecked c.generation (Select.narrowed c i)) :
    Unchecked c.generation i := by
  unfold Select.narrowed at unchecked
  split at unchecked
  · cases unchecked with
    | triple three sources lacks => exact .triple three sources lacks
    | product op absent wide lacks => exact .product op absent wide lacks
  · exact unchecked

/-- Every instruction of a selected kernel has operands the target takes. -/
theorem select_fits {k : Kernel} (selected : c.select = .ok k)
    (checked : ∀ i ∈ c.kernel.code, ¬ Unchecked c.generation i) :
    ∀ i ∈ k.code, Fits c i := by
  have pointers : c.kernel.pointerSize = 8 → c.supports .int64 = true := by
    intro qword
    simp only [Context.select, bind_ok] at selected
    obtain ⟨u, passed, -⟩ := selected
    unfold Select.checkPointers at passed
    rw [qword, if_neg (by decide), if_pos rfl] at passed
    split at passed
    · assumption
    · cases passed
  have kept : Kept c k := by
    refine Select.Keeps.select selected ⟨by simp [Kernel.cloneEmpty], pointers⟩ stackSetup_keeps
      fun i member types => ?_
    obtain ⟨dst, src⟩ := checkTypes_ok.mp types
    exact lower_keeps ⟨dst, src⟩ fun unchecked => checked i member (narrowed_unchecked unchecked)
  exact kept.code

/-! ## Allocated kernels -/

theorem rename_same (o : Operand) (f : VReg → VReg) :
    (o.rename f).type = o.type ∧ (o.rename f).isImmediate = o.isImmediate ∧ (o.rename f).isAbsent = o.isAbsent := by
  unfold Operand.rename
  split
  · split <;> exact ⟨rfl, rfl, rfl⟩
  · exact ⟨rfl, rfl, rfl⟩

theorem Fits.renamed {i : Instruction} (fits : Fits c i) (f : VReg → VReg) :
    Fits c { i with dst := i.dst.rename f, src := i.src.map fun o => o.rename f } := by
  obtain ⟨type, -, absent⟩ := rename_same i.dst f
  refine ⟨?_, ?_, ?_, ?_, fits.motion, ?_⟩
  · change (i.dst.rename f).isAbsent = false → HasType c (i.dst.rename f).type false
    rw [type, absent]
    exact fits.dst
  · intro o' member
    obtain ⟨o, here, rfl⟩ := List.mem_map.mp member
    obtain ⟨type, immediate, -⟩ := rename_same o f
    unfold Checked
    rw [type, immediate]
    exact fits.src o here
  · intro n listed
    rw [← fits.count n listed]
    exact List.length_map _
  · change i.op = .mul64 ∨ i.op = .mulHi64 ∨ i.op = .stackSetup ∧ (i.dst.rename f).type.is64 = true → _
    rw [type]
    exact fits.qwords
  · intro three
    obtain ⟨takes, unit⟩ := fits.triple three
    refine ⟨?_, fun t types => unit t fun o here => ?_⟩
    · change c.flavor.tripleTakes (i.dst.rename f).type = true
      rw [type]
      exact takes
    · rw [← types _ (List.mem_map_of_mem here), (rename_same o f).1]

/-- Reloads and write-backs move dwords. -/
theorem Fits.spilled {i : Instruction} (fits : Fits c i) (s : TempState) :
    ∀ j ∈ Kernel.withSpillCode i s, Fits c j := by
  have dword (t : SpillTemp) : HasType c t.operand.type false := hasType_common (t := .ud) (by decide)
  intro j member
  rcases List.mem_append.mp member with early | stored
  · rcases List.mem_append.mp early with reloaded | main
    · obtain ⟨t, -, rfl⟩ := List.mem_map.mp reloaded
      exact plain_fits rfl ⟨fun _ => dword t, nofun⟩ nofun
    · cases List.mem_singleton.mp main
      exact fits.renamed s.rename
  · obtain ⟨t, -, rfl⟩ := List.mem_map.mp stored
    refine plain_fits rfl ⟨nofun, fun o member => ?_⟩ nofun
    cases List.mem_singleton.mp member
    exact dword t

/-- Spill code moves operands to other registers and keeps their types. -/
theorem ofKernel_fits {k : Kernel} {cfg : SweepConfig} {r : Allocation × List AllocationEvent}
    (fits : ∀ i ∈ k.code, Fits c i) (allocated : Allocation.ofKernel k cfg = .ok r) :
    ∀ i ∈ r.1.kernel.code, Fits c i := by
  refine Branches.ofKernel_keeps (Q := fun k => ∀ i ∈ k.code, Fits c i) (fun k k' _ _ _ inserted all => ?_)
    fits allocated
  obtain ⟨pieces, each, code, -⟩ := Branches.insertSpillCode_pieces inserted
  obtain ⟨length, at_⟩ := List.forall₂_iff_get.mp each
  rw [code]
  intro j member
  obtain ⟨piece, listed, inside⟩ := List.mem_flatten.mp member
  obtain ⟨n, small, rfl⟩ := List.getElem_of_mem listed
  obtain ⟨s, same⟩ := at_ n (length ▸ small) small
  rw [List.get_eq_getElem] at same
  rw [same] at inside
  exact (all _ (List.get_mem k.code ⟨n, length ▸ small⟩)).spilled s j inside

end

/-- If selection and allocation succeed, and the kernel has no operation that selection passes on unchecked, then
all operands of the selected instructions are ones the target takes, and emission does not fail for a feature that
it lacks. -/
theorem emission_supported {g : Generation} {kernel k : Kernel} {settings : Settings} {variant : String} {c : Context}
    {log : List CompileEvent} {cfg : SweepConfig} {a : Allocation} {events : List AllocationEvent}
    (made : Context.new g kernel settings variant = .ok (c, log)) (checked : ∀ i ∈ kernel.code, ¬ Unchecked g i)
    (selected : c.select = .ok k) (allocated : Allocation.ofKernel k cfg = .ok (a, events)) :
    (∀ i ∈ k.code, Fits c i) ∧ ∀ e, c.emit a = .error e → e.diagnostic.category ≠ .unsupported := by
  obtain ⟨generation, source, -, -, known⟩ := StraightLine.new_ok made
  have flavored : Flavor.ofGeneration? c.generation = some c.flavor := by
    dsimp only at generation known
    rw [generation]
    unfold Flavor.ofGeneration at known
    split at known
    · cases known
      assumption
    · cases known
  have fits := select_fits selected fun i member => by
    rw [generation]
    exact checked i (source ▸ member)
  refine ⟨fits, fun e failed => ?_⟩
  have kept := ofKernel_fits fits allocated
  have unplaced (r : VReg) (_ : a.offsets.lookup? r = none) : Available (.placement (.unplaced r)) := by
    simp [Available, Cause.category]
  have each (i : Instruction) (member : i ∈ a.kernel.code) (base : State) :
      FailsWith Available stoppedCause (Emission.instruction ⟨c.flavor, a, base⟩ i) ∧
        ∀ j ∈ commandsOf (Emission.instruction ⟨c.flavor, a, base⟩ i), Typed Available c.generation j.command :=
    ⟨instruction_fails available_covers unplaced rfl i, instruction_taken flavored (kept i member) a base⟩
  exact emit_fails available_covers c a each e failed

/-- Why emission fails on a kernel that can be selected and allocated. -/
def emissionFault? (g : Generation) (kernel : Kernel) : Option Cause := do
  let (c, _) ← (Context.new g kernel {} "").toOption
  let k ← c.select.toOption
  let (a, _) ← (Allocation.ofKernel k c.sweepConfig).toOption
  match c.emit a with
  | .ok _ => none
  | .error e => some e.diagnostic.cause

theorem emissionFault_some {g : Generation} {kernel : Kernel} {cause : Cause}
    (found : emissionFault? g kernel = some cause) :
    ∃ c log k a events e, Context.new g kernel {} "" = .ok (c, log) ∧ c.select = .ok k ∧
      Allocation.ofKernel k c.sweepConfig = .ok (a, events) ∧ c.emit a = .error e ∧ e.diagnostic.cause = cause := by
  have ran {ε α : Type} {x : Except ε α} {v : α} (some : x.toOption = some v) : x = .ok v := by
    cases x <;> simp_all [Except.toOption]
  simp only [emissionFault?, Option.bind_eq_bind, Option.bind_eq_some_iff] at found
  obtain ⟨⟨c, log⟩, made, k, selected, ⟨a, events⟩, allocated, failed⟩ := found
  cases outcome : c.emit a with
  | ok r =>
    rw [outcome] at failed
    cases failed
  | error e =>
    rw [outcome] at failed
    exact ⟨c, log, k, a, events, e, ran made, ran selected, ran allocated, outcome, Option.some.inj failed⟩

/-- Doubles and a three-source operation on the newest layout, and a jump to a label that nothing defines. -/
def lostLabel : Kernel where
  name := "lostLabel"
  simdWidth := 8
  code :=
    [{ op := .mov, dst := .vector ⟨0⟩ .df, src := [.immediate .df 0x3ff0000000000000 false false] },
      { op := .mad, dst := .vector ⟨1⟩ .f,
        src := [.vector ⟨2⟩ .f, .vector ⟨2⟩ .f, .immediate .f 0x3f800000 false false] },
      { op := .jump, label := 7 }]
  next := 3

theorem emission_supported_lostLabel : ∃ c log k a events e,
    Context.new .gen9 lostLabel {} "" = .ok (c, log) ∧ c.select = .ok k ∧
      Allocation.ofKernel k c.sweepConfig = .ok (a, events) ∧ c.emit a = .error e ∧
      e.diagnostic.category ≠ .unsupported := by
  have found : emissionFault? .gen9 lostLabel = some (.encoding (.undefinedLabel 7)) := by
    simp only [emissionFault?, Allocation.ofKernel, Allocation.sweep, Sweep.run, Sweep.start, Liveness.ofKernel,
      Placement.sorted_insertion]
    decide +kernel
  obtain ⟨c, log, k, a, events, e, made, selected, allocated, failed, -⟩ := emissionFault_some found
  have checked : ∀ i ∈ lostLabel.code, ¬ Unchecked .gen9 i := by
    simp only [lostLabel, List.forall_mem_cons, List.not_mem_nil, false_implies, implies_true, and_true]
    refine ⟨?_, ?_, ?_⟩ <;> rintro (⟨three, sources, lacks⟩ | ⟨op, -, -, -⟩)
    · cases three
    · simp at op
    · rw [← sources _ List.mem_cons_self] at lacks
      cases lacks
    · simp at op
    · cases three
    · simp at op
  exact ⟨c, log, k, a, events, e, made, selected, allocated, failed,
    (emission_supported made checked selected allocated).2 e failed⟩

/-- A three-source operation of a type the unit takes, on word sources, which it does not take. -/
def wordSources : Kernel where
  name := "wordSources"
  simdWidth := 8
  code :=
    [{ op := .mad, dst := .vector ⟨0⟩ .f, src := [.vector ⟨1⟩ .w, .vector ⟨2⟩ .w, .vector ⟨3⟩ .w] },
      { op := .endThread }]
  next := 4

/-- Selection looks at the destination's type only. -/
theorem wordSources_unsupported :
    emissionFault? .gen8 wordSources = some (.unsupported (.tripleType .w) "gen8") := by
  simp only [emissionFault?, Allocation.ofKernel, Allocation.sweep, Sweep.run, Sweep.start, Liveness.ofKernel,
    Placement.sorted_insertion]
  decide +kernel

/-- The high half of a 64-bit product, computed for nothing. -/
def droppedProduct : Kernel where
  name := "droppedProduct"
  simdWidth := 8
  code :=
    [{ op := .mulHi, dst := .absent .ul, src := [.vector ⟨0⟩ .ud, .vector ⟨1⟩ .ud] }, { op := .endThread }]
  next := 2

/-- Selection looks at no destination, and the expansion takes qword temporaries. -/
theorem droppedProduct_unsupported :
    emissionFault? .gen7 droppedProduct = some (.unsupported .int64 "gen7") := by
  simp only [emissionFault?, Allocation.ofKernel, Allocation.sweep, Sweep.run, Sweep.start, Liveness.ofKernel,
    Placement.sorted_insertion]
  decide +kernel

end GpuCodegen.Features
