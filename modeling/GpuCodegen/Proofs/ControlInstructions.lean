import GpuCodegen.Lowering.Compile
import GpuCodegen.Proofs.CompiledLanes

/-! Labels, jumps and indirect moves on the way to words. Selection rewrites instructions and puts others beside
them, and spill code does the same, but neither adds, drops or reorders one of these. -/

namespace GpuCodegen.Branches
open Outcome

/-- A label or jump with the label it defines or goes to; other instructions are none. -/
def control? (i : Instruction) : Option (Opcode × Int) :=
  if i.op = .label ∨ i.op = .jump then some (i.op, i.label) else none

/-- The labels and jumps of a stream, in order. -/
def controls (is : List Instruction) : List (Opcode × Int) := is.filterMap control?

/-- Whether selection passes instructions of an operation on, and makes none of others. -/
def isPassedOn (op : Opcode) : Bool := op == .label || op == .jump || op == .indirectMov

/-- What is followed through a compilation: something about each instruction of certain operations that does not
depend on which registers it names. -/
structure Mark (κ : Type) where
  of : Instruction → Option κ
  others : ∀ i, isPassedOn i.op = false → of i = none
  renamed : ∀ (i : Instruction) (f : VReg → VReg),
    of { i with dst := i.dst.rename f, src := i.src.map fun o => o.rename f } = of i

/-- The marks of a stream, in order. -/
def Mark.all {κ : Type} (mark : Mark κ) (is : List Instruction) : List κ := is.filterMap mark.of

@[simp] theorem Mark.all_append {κ : Type} (mark : Mark κ) (is js : List Instruction) :
    mark.all (is ++ js) = mark.all is ++ mark.all js :=
  List.filterMap_append

@[simp] theorem Mark.all_cons {κ : Type} (mark : Mark κ) (i : Instruction) (is : List Instruction) :
    mark.all (i :: is) = (mark.of i).toList ++ mark.all is := by
  cases known : mark.of i <;> simp [Mark.all, known]

/-- Labels and jumps, with the label. -/
def control : Mark (Opcode × Int) where
  of := control?
  others i other := by
    simp only [isPassedOn, Bool.or_eq_false_iff, beq_eq_false_iff_ne] at other
    simp [control?, other.1.1, other.1.2]
  renamed _ _ := rfl

/-! ## Selection -/

section
variable {κ : Type} {mark : Mark κ}

/-- A part of selection that appends instructions with the given marks, and perhaps others without one. It
leaves the number of lanes alone. -/
def Adds {α : Type} (mark : Mark κ) (m : Select α) (cs : List κ) : Prop :=
  ∀ (k k' : Kernel) (a : α), m.run k = .ok (a, k') →
    mark.all k'.code = mark.all k.code ++ cs ∧ k'.simdWidth = k.simdWidth

section
variable {α β : Type} {cs : List κ}

theorem Adds.bind {m : Select α} {f : α → Select β} (first : Adds mark m []) (next : ∀ a, Adds mark (f a) cs) :
    Adds mark (m >>= f) cs := by
  intro k k' b ran
  rw [StateT.run_bind, bind_ok] at ran
  obtain ⟨⟨a, t⟩, firstRan, nextRan⟩ := ran
  obtain ⟨marks, width⟩ := first k t a firstRan
  obtain ⟨marks', width'⟩ := next a t k' b nextRan
  exact ⟨by rw [marks', marks, List.append_nil], width'.trans width⟩

theorem Adds.map {m : Select α} {f : α → β} (quiet : Adds mark m cs) : Adds mark (f <$> m) cs := by
  intro k k' b ran
  rw [StateT.run_map] at ran
  cases result : m.run k with
  | error d =>
    rw [result] at ran
    cases ran
  | ok r =>
    rw [result] at ran
    cases ran
    exact quiet k r.2 r.1 result

theorem Adds.pure (a : α) : Adds mark (pure a : Select α) [] := by
  intro k k' b ran
  cases ran
  exact ⟨(List.append_nil _).symm, rfl⟩

theorem Adds.throw (d : Diagnostic) : Adds mark (throw d : Select α) cs := by
  intro k k' a ran
  cases ran

theorem Adds.stop (d : Diagnostic) (f : α → Select β) : Adds mark (MonadExcept.throw d >>= f) cs := by
  intro k k' a ran
  cases ran

theorem Adds.refuse {c : Prop} [Decidable c] {d : Diagnostic} {f : α → Select β} {m : Select β}
    (rest : Adds mark m cs) : Adds mark (if c then (MonadExcept.throw d >>= f) else m) cs := by
  split
  · exact .stop d f
  · exact rest

theorem Adds.lift (x : Except Diagnostic α) : Adds mark (liftM x : Select α) [] := by
  intro k k' a ran
  cases x with
  | error d => cases ran
  | ok v =>
    cases ran
    exact ⟨(List.append_nil _).symm, rfl⟩

theorem Adds.emit (i : Instruction) : Adds mark (Select.emit i) (mark.of i).toList := by
  intro k k' u ran
  cases ran
  refine ⟨?_, rfl⟩
  change mark.all (k.code ++ [i]) = _
  rw [Mark.all_append, Mark.all_cons]
  exact congrArg _ (List.append_nil _)

theorem Adds.emit_quiet {i : Instruction} (other : isPassedOn i.op = false) : Adds mark (Select.emit i) [] := by
  have adds : Adds mark (Select.emit i) (mark.of i).toList := .emit i
  rw [mark.others i other] at adds
  exact adds

theorem Adds.mapM {f : α → Select β} (each : ∀ a, Adds mark (f a) []) (as : List α) : Adds mark (as.mapM f) [] := by
  induction as with
  | nil => exact .pure _
  | cons a rest ih =>
    rw [List.mapM_cons]
    exact .bind (each a) fun b => .bind ih fun bs => .pure _

theorem Adds.forM {f : α → Select Unit} (each : ∀ a, Adds mark (f a) []) (as : List α) :
    Adds mark (as.forM f) [] := by
  induction as with
  | nil => exact .pure _
  | cons a rest ih => exact .bind (each a) fun _ => ih

end

theorem fresh_adds : Adds mark Select.fresh [] := by
  intro k k' r ran
  unfold Select.fresh at ran
  rw [StateT.run_bind] at ran
  change (if k.freshRegister = k.stackPointer then _ else _ : Select VReg).run k = _ at ran
  split at ran <;> cases ran <;> simp [Kernel.allocRegister]

theorem temp_adds (t : Element) : Adds mark (Select.temp t) [] := .bind fresh_adds fun _ => .pure _

theorem vector_adds (o : Operand) (i : Instruction) : Adds mark (Select.vector o i) [] := by
  unfold Select.vector
  split
  · exact .pure _
  · exact .bind (temp_adds _) fun v => .bind (.emit_quiet rfl) fun _ => .pure _

theorem scalar_adds (o : Operand) (i : Instruction) : Adds mark (Select.scalar o i) [] := by
  unfold Select.scalar
  split
  · exact .bind fresh_adds fun r => .bind (.emit_quiet rfl) fun _ => .pure _
  · exact .pure _

theorem copyBack_adds (i : Instruction) (result : Operand) : Adds mark (Select.copyBack i result) [] := by
  unfold Select.copyBack
  split
  · split
    · exact .pure _
    · exact .emit_quiet rfl
  · exact .pure _

theorem stagePayload_adds (i : Instruction) (parts : List Operand) :
    Adds mark (Select.stagePayload i parts) [] :=
  .bind fresh_adds fun _ =>
    .bind (.forM (fun _ => .emit_quiet rfl) _) fun _ => .pure _

theorem product_adds {op : Opcode} (other : isPassedOn op = false) (scratch : Nat)
    (i : Instruction) (type : Element) : Adds mark (Select.product op scratch i type) [] := by
  unfold Select.product
  refine .bind (vector_adds _ i) fun a => .bind (vector_adds _ i) fun b => ?_
  split
  · exact .bind (temp_adds type) fun dst => .bind (.mapM temp_adds _) fun _ =>
      .bind (.emit_quiet other) fun _ => copyBack_adds i dst
  · exact .bind (.pure i.dst) fun dst => .bind (.mapM temp_adds _) fun _ =>
      .bind (.emit_quiet other) fun _ => .pure _

theorem mulHi_adds (i : Instruction) : Adds mark (Select.mulHi i) [] := by
  unfold Select.mulHi
  split
  · exact product_adds rfl 3 i .ul
  · exact .throw _

section
variable {i : Instruction} (other : isPassedOn i.op = false)
include other

theorem ternary_adds (c : Context) : Adds mark (Select.ternary c i) [] :=
  .refuse (.bind (.mapM (fun o => scalar_adds o i) _) fun _ => .emit_quiet other)

theorem load_adds : Adds mark (Select.load i) [] :=
  .refuse (.bind (vector_adds _ i) fun _ => .emit_quiet other)

theorem barrier_adds : Adds mark (Select.barrier i) [] := by
  unfold Select.barrier
  dsimp only
  split
  · split
    · exact .bind (.pure _) fun _ => .bind (.pure _) fun _ => .emit_quiet other
    · exact .bind (.pure _) fun _ => .bind (.map (temp_adds _)) fun _ => .emit_quiet other
  · split
    · exact .bind (temp_adds _) fun _ => .bind (.pure _) fun _ => .emit_quiet other
    · exact .bind (temp_adds _) fun _ => .bind (.map (temp_adds _)) fun _ => .emit_quiet other

end

theorem indirectMov_adds (c : Context) (i : Instruction) :
    Adds mark (Select.indirectMov c i) (mark.of i).toList := by
  unfold Select.indirectMov
  dsimp only
  split
  · exact .refuse (.refuse (.refuse (.emit i)))
  · exact .stop _ _

theorem store_adds (i : Instruction) : Adds mark (Select.store i) [] :=
  .refuse (.bind (stagePayload_adds i _) fun _ => .emit_quiet rfl)

theorem atomic_adds (c : Context) (i : Instruction) : Adds mark (Select.atomic c i) [] := by
  have message : Adds mark (do
      let p ← Select.stagePayload i i.src
      Select.emit
        { op := .atomicMessage, dst := i.dst, src := [.payload p .ud i.src.length],
          execWidth := i.execWidth, block := i.block, predicated := i.predicated, atomic := i.atomic,
          surface := i.surface }) [] :=
    .bind (stagePayload_adds i _) fun _ => .emit_quiet rfl
  unfold Select.atomic
  dsimp only
  split
  · exact .refuse (.stop _ _)
  · refine .refuse (.refuse (.bind (.lift _) fun _ => ?_))
    split
    · exact .stop _ _
    · exact message

theorem motion_adds (c : Context) (i : Instruction) : Adds mark (Select.motion c i) [] := by
  unfold Select.motion
  dsimp only
  refine .refuse (.refuse (.refuse ?_))
  split
  · exact .throw _
  · refine .bind (.lift _) fun _ => ?_
    split
    · exact .stop _ _
    · exact .bind fresh_adds fun _ => .emit_quiet rfl

theorem get_adds : Adds mark (get : Select Kernel) [] := by
  intro k k' a ran
  cases ran
  exact ⟨(List.append_nil _).symm, rfl⟩

theorem stackSetup_adds (c : Context) : Adds mark (Select.stackSetup c) [] :=
  .bind get_adds fun _ => .bind fresh_adds fun _ => .bind fresh_adds fun _ =>
    .emit_quiet rfl

/-- Selection passes marked instructions on, and makes none of others. -/
theorem lower_adds (c : Context) (i : Instruction) : Adds mark (Select.lower c i) (mark.of i).toList := by
  have quiet {op : Opcode} {m : Select Unit} (same : i.op = op) (other : isPassedOn op = false)
      (adds : Adds mark m []) :
      Adds mark m (mark.of i).toList := by
    rw [mark.others i (by rw [same]; exact other)]
    exact adds
  unfold Select.lower
  cases op : i.op
  all_goals dsimp only [Select.sourceCount?]
  case mul =>
    refine .bind (.lift _) fun _ => ?_
    split
    · exact quiet op rfl (product_adds rfl 1 i i.dst.type)
    · exact .emit i
  case mulHi => exact .bind (.lift _) fun _ => quiet op rfl (mulHi_adds i)
  case mad | lrp => exact .bind (.lift _) fun _ => quiet op rfl (ternary_adds (by rw [op]; rfl) c)
  case atomic => exact quiet op rfl (atomic_adds c i)
  case load => exact .bind (.lift _) fun _ => quiet op rfl (load_adds (by rw [op]; rfl))
  case store => exact .bind (.lift _) fun _ => quiet op rfl (store_adds i)
  case indirectMov => exact .bind (.lift _) fun _ => indirectMov_adds c i
  case barrier => exact quiet op rfl (barrier_adds (by rw [op]; rfl))
  case motion => exact quiet op rfl (motion_adds c i)
  case compare =>
    refine .bind (.lift _) fun _ => ?_
    split
    · exact .emit i
    · exact .throw _
  case mul64 | mulHi64 | atomicMessage | storeMessage | stackSetup | reload | spill | motionMessage |
      unlisted =>
    exact .throw _
  all_goals exact .bind (.lift _) fun _ => .emit i

theorem narrowed_label (c : Context) (i : Instruction) : (Select.narrowed c i).label = i.label := by
  unfold Select.narrowed
  split <;> rfl

theorem step_adds (c : Context) (entry : Instruction × Nat) :
    Adds mark (Select.step c entry) (mark.of (Select.narrowed c entry.1)).toList := by
  intro k k' u ran
  change Select.step c entry k = .ok (u, k') at ran
  unfold Select.step at ran
  dsimp only at ran
  split at ran
  · cases ran
  · split at ran
    · cases ran
    · rename_i lowered
      cases ran
      exact lower_adds c _ k k' u lowered

theorem steps_add (c : Context) (entries : List (Instruction × Nat)) :
    Adds mark (entries.forM (Select.step c)) (mark.all (entries.map fun e => Select.narrowed c e.1)) := by
  induction entries with
  | nil => exact .pure _
  | cons e rest ih =>
    intro k k' u ran
    change (Select.step c e >>= fun _ => rest.forM (Select.step c)).run k = .ok (u, k') at ran
    rw [StateT.run_bind, bind_ok] at ran
    obtain ⟨⟨v, t⟩, first, later⟩ := ran
    obtain ⟨marks, width⟩ := step_adds c e k t v first
    obtain ⟨marks', width'⟩ := ih t k' u later
    exact ⟨by rw [marks', marks, List.append_assoc, List.map_cons, Mark.all_cons], width'.trans width⟩

/-- Selection keeps the marks of the kernel's instructions, at the target's number of lanes. -/
theorem select_marks (mark : Mark κ) {c : Context} {k : Kernel} (selected : c.select = .ok k) :
    mark.all k.code = mark.all (c.kernel.code.map (Select.narrowed c)) ∧ k.simdWidth = c.simdWidth := by
  simp only [Context.select, bind_ok, pure_ok] at selected
  obtain ⟨_, -, ⟨u, s⟩, ran, same⟩ := selected
  cases same
  have all : Adds mark (Select.all c) (mark.all (c.kernel.code.map (Select.narrowed c))) := by
    have steps : Adds mark (c.kernel.code.zipIdx.forM (Select.step c)) _ := steps_add c c.kernel.code.zipIdx
    have entries : c.kernel.code.zipIdx.map (fun e => Select.narrowed c e.1) =
        c.kernel.code.map (Select.narrowed c) := by
      change c.kernel.code.zipIdx.map (Select.narrowed c ∘ Prod.fst) = _
      rw [← List.map_map, List.zipIdx_map_fst]
    rw [entries] at steps
    unfold Select.all
    dsimp only
    split
    · exact .bind (stackSetup_adds c) fun _ => steps
    · exact steps
  simpa [Kernel.cloneEmpty, Mark.all] using all _ s u ran

end

theorem select_controls {c : Context} {k : Kernel} (selected : c.select = .ok k) :
    controls k.code = controls c.kernel.code := by
  have same (i : Instruction) : control? (Select.narrowed c i) = control? i := by
    simp only [control?, (StraightLine.narrowed_same c i).1, narrowed_label]
  have marks : controls k.code = controls (c.kernel.code.map (Select.narrowed c)) :=
    (select_marks control selected).1
  rw [marks, controls, List.filterMap_map]
  exact List.filterMap_congr fun i _ => same i

/-! ## Spill code -/

theorem emitAll_code (k : Kernel) (is : List Instruction) :
    (k.emitAll is).code = k.code ++ is ∧ (k.emitAll is).simdWidth = k.simdWidth := by
  unfold Kernel.emitAll
  induction is generalizing k with
  | nil => exact ⟨(List.append_nil _).symm, rfl⟩
  | cons i rest ih =>
    obtain ⟨code, width⟩ := ih (k.emit i)
    rw [List.foldl_cons]
    exact ⟨by rw [code]; simp [Kernel.emit], width⟩

/-- Handing out temporaries appends no instruction and leaves the number of lanes alone. -/
def Unchanged (s s' : TempState) : Prop := s'.out.code = s.out.code ∧ s'.out.simdWidth = s.out.simdWidth

theorem Unchanged.trans {s t u : TempState} (first : Unchanged s t) (second : Unchanged t u) : Unchanged s u :=
  ⟨second.1.trans first.1, second.2.trans first.2⟩

theorem newTemp_unchanged {plan : SpillPlan} {position : Nat} {s s' : TempState} {r : VReg}
    {reload store : Bool} (made : TempState.newTemp plan position s r reload store = .ok s') : Unchanged s s' := by
  unfold TempState.newTemp at made
  dsimp only at made
  split at made
  · cases made
  · cases made
    exact ⟨rfl, rfl⟩

theorem source_unchanged {plan : SpillPlan} {position : Nat} {s s' : TempState} {o : Operand}
    (made : TempState.source plan position s o = .ok s') : Unchanged s s' := by
  unfold TempState.source at made
  split at made
  · cases made
    exact ⟨rfl, rfl⟩
  · split at made
    · split at made
      · cases made
        exact ⟨rfl, rfl⟩
      · exact newTemp_unchanged made
    · cases made
      exact ⟨rfl, rfl⟩

theorem spillTemps_code {k out : Kernel} {plan : SpillPlan} {position : Nat} {i : Instruction}
    {s : TempState} (made : k.spillTemps plan position i out = .ok s) :
    s.out.code = out.code ∧ s.out.simdWidth = out.simdWidth := by
  simp only [Kernel.spillTemps, bind_ok] at made
  obtain ⟨t, first, sources⟩ := made
  have destination : t.out.code = out.code ∧ t.out.simdWidth = out.simdWidth := by
    unfold Kernel.spilledDestination at first
    split at first
    · cases first
      exact ⟨rfl, rfl⟩
    · split at first
      · split at first
        · cases first
        · exact newTemp_unchanged first
      · cases first
        exact ⟨rfl, rfl⟩
  have along (os : List Operand) (t s : TempState)
      (ran : os.foldlM (TempState.source plan position) t = .ok s) : Unchanged t s := by
    induction os generalizing t with
    | nil =>
      rw [List.foldlM_nil, pure_ok] at ran
      rw [ran]
      exact ⟨rfl, rfl⟩
    | cons o rest ih =>
      rw [List.foldlM_cons, bind_ok] at ran
      obtain ⟨u, here, later⟩ := ran
      exact (source_unchanged here).trans (ih u later)
  obtain ⟨code, width⟩ := along _ _ _ sources
  exact ⟨code.trans destination.1, width.trans destination.2⟩

/-- Spill code insertion puts a piece of code in the place of every instruction. -/
theorem insertSpillCode_pieces {k k' : Kernel} {plan : SpillPlan} (inserted : k.insertSpillCode plan = .ok k') :
    ∃ pieces, List.Forall₂ (fun i piece => ∃ s, piece = Kernel.withSpillCode i s) k.code pieces ∧
      k'.code = pieces.flatten ∧ k'.simdWidth = k.simdWidth := by
  have along (entries : List (Instruction × Nat)) (out out' : Kernel)
      (ran : entries.foldlM (Kernel.spillStep k plan) out = .ok out') :
      ∃ pieces, List.Forall₂ (fun i piece => ∃ s, piece = Kernel.withSpillCode i s) (entries.map Prod.fst) pieces ∧
        out'.code = out.code ++ pieces.flatten ∧ out'.simdWidth = out.simdWidth := by
    induction entries generalizing out with
    | nil =>
      rw [List.foldlM_nil, pure_ok] at ran
      exact ⟨[], .nil, by simp [ran], by rw [ran]⟩
    | cons e rest ih =>
      rw [List.foldlM_cons, bind_ok] at ran
      obtain ⟨t, here, later⟩ := ran
      simp only [Kernel.spillStep, bind_ok, pure_ok] at here
      obtain ⟨s, temps, rfl⟩ := here
      obtain ⟨pieces, each, code, width⟩ := ih _ later
      obtain ⟨before, narrow⟩ := spillTemps_code temps
      obtain ⟨emitted, same⟩ := emitAll_code s.out (Kernel.withSpillCode e.1 s)
      refine ⟨_ :: pieces, .cons ⟨s, rfl⟩ each, ?_, width.trans (same.trans narrow)⟩
      rw [code, emitted, before, List.flatten_cons, List.append_assoc]
  obtain ⟨pieces, each, code, width⟩ := along _ _ _ inserted
  rw [List.zipIdx_map_fst] at each
  refine ⟨pieces, each, ?_, ?_⟩
  · rw [code]
    split <;> simp [Kernel.cloneEmpty]
  · rw [width]
    split <;> rfl

theorem withSpillCode_marks {κ : Type} (mark : Mark κ) (i : Instruction) (s : TempState) :
    mark.all (Kernel.withSpillCode i s) = (mark.of i).toList := by
  have reloads (ts : List SpillTemp) : mark.all (ts.map fun t => t.reloadInstruction i.block) = [] := by
    simp [Mark.all, mark.others (SpillTemp.reloadInstruction _ _) rfl]
  have spills (ts : List SpillTemp) : mark.all (ts.map fun t => t.spillInstruction i.block) = [] := by
    simp [Mark.all, mark.others (SpillTemp.spillInstruction _ _) rfl]
  rw [Kernel.withSpillCode, Mark.all_append, Mark.all_append, reloads, spills, List.nil_append, List.append_nil,
    Mark.all_cons, mark.renamed]
  exact List.append_nil _

theorem insertSpillCode_marks {κ : Type} (mark : Mark κ) {k k' : Kernel} {plan : SpillPlan}
    (inserted : k.insertSpillCode plan = .ok k') :
    mark.all k'.code = mark.all k.code ∧ k'.simdWidth = k.simdWidth := by
  obtain ⟨pieces, each, code, width⟩ := insertSpillCode_pieces inserted
  refine ⟨?_, width⟩
  rw [code]
  clear code
  generalize k.code = is at each
  induction each with
  | nil => rfl
  | @cons i piece is pieces here rest ih =>
    obtain ⟨s, rfl⟩ := here
    rw [List.flatten_cons, Mark.all_append, withSpillCode_marks, ih, Mark.all_cons]

/-! ## Compilation -/

/-- Spill code for what a sweep spills keeps a property of kernels. -/
def Inserts (cfg : SweepConfig) (reserve : Reserve) (Q : Kernel → Prop) : Prop :=
  ∀ (k k' : Kernel) (scratch : UInt32) (s : Sweep),
    Sweep.run k (Liveness.ofKernel k) cfg reserve.size scratch = .ok s →
      k.insertSpillCode ⟨Liveness.ofKernel k, s.scratch, s.spilled, reserve⟩ = .ok k' → Q k → Q k'

/-- What spill code insertion keeps of a kernel holds of the kernel that allocation ends with. -/
theorem rounding_keeps {Q : Kernel → Prop} {cfg : SweepConfig} {reserve : Reserve} (inserts : Inserts cfg reserve Q)
    {k : Kernel} (start : Q k) {scratch : UInt32} {spills : Nat} {a : Allocation}
    (rounding : Allocation.Rounding cfg reserve k scratch spills a) : Q a.kernel := by
  induction rounding with
  | last => exact start
  | again swept _ inserted _ ih => exact ih (inserts _ _ _ _ swept inserted start)

theorem ofKernel_keeps {Q : Kernel → Prop} {k : Kernel} {cfg : SweepConfig}
    (inserts : Inserts cfg (Allocation.reserveFor cfg (Liveness.ofKernel k)) Q) (start : Q k)
    {r : Allocation × List AllocationEvent} (allocated : Allocation.ofKernel k cfg = .ok r) : Q r.1.kernel := by
  obtain ⟨s, -, ⟨-, same⟩ | ⟨-, rounding⟩⟩ := Allocation.ofKernel_cases allocated
  · rw [same]
    exact start
  · exact rounding_keeps inserts start rounding

theorem ofKernel_marks {κ : Type} (mark : Mark κ) {k : Kernel} {cfg : SweepConfig}
    {r : Allocation × List AllocationEvent} (allocated : Allocation.ofKernel k cfg = .ok r) :
    mark.all r.1.kernel.code = mark.all k.code ∧ r.1.kernel.simdWidth = k.simdWidth := by
  refine ofKernel_keeps (Q := fun out => mark.all out.code = mark.all k.code ∧ out.simdWidth = k.simdWidth)
    (fun _ _ _ _ _ inserted same => ?_) ⟨rfl, rfl⟩ allocated
  obtain ⟨marks, width⟩ := insertSpillCode_marks mark inserted
  exact ⟨marks.trans same.1, width.trans same.2⟩

theorem ofKernel_controls {k : Kernel} {cfg : SweepConfig} {r : Allocation × List AllocationEvent}
    (allocated : Allocation.ofKernel k cfg = .ok r) : controls r.1.kernel.code = controls k.code :=
  (ofKernel_marks control allocated).1

end GpuCodegen.Branches
