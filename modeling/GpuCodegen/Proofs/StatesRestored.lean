import GpuCodegen.Proofs.EmissionSteps

/-! Whole instructions, labels and jumps among them, step by step. The steps of an instruction stand between a save of
the assembler's state and its restoration, so the states are as before whether the instruction is emitted or fails, and
what emission does to a kernel is what these steps do one after another. No state is left pushed at the end. -/

namespace GpuCodegen.Emitter
open Failures Steps

/-- Steps on the assembler of an emitter. -/
def onAssembler {α : Type} (p : Steps α) : EStateM Diagnostic Emitter α := fun m =>
  match p m.assembler with
  | .ok v a => .ok v { m with assembler := a }
  | .error d a => .error d { m with assembler := a }

/-- Defines a label at the current word. -/
def markLabel (label : Int) : EStateM Diagnostic Emitter Unit := do
  let m ← get
  match m.label? label with
  | some _ => throw (.encoding (.duplicateLabel label))
  | none => set { m with labels := m.labels ++ [(label, m.assembler.words.length)] }

/-- Encodes a jump and leaves it to be resolved, unless it could not be encoded. -/
def leaveJump (label : Int) (position : Nat) : EStateM Diagnostic Emitter Unit := do
  match ← onAssembler (helper (.jump 0)) with
  | some word => modify fun m => { m with jumps := m.jumps ++ [⟨word, label, position⟩] }
  | none => pure ()

/-- What an instruction does once the state its commands share is set. -/
def act (v : Flavor) (x : Allocation) (i : Instruction) (position : Nat) : EStateM Diagnostic Emitter Unit :=
  match i.op with
  | .label => markLabel i.label
  | .jump => leaveJump i.label position
  | _ => onAssembler (body x v i)

/-- Emits an instruction, step by step. -/
def perform (v : Flavor) (x : Allocation) (entry : Instruction × Nat) : EStateM Diagnostic Emitter Unit :=
  between (onAssembler push) (onAssembler pop) do
    onAssembler (prepare x entry.1)
    act v x entry.1 entry.2

/-- The emitter that steps leave, whether they got through or not. -/
def left : EStateM.Result Diagnostic Emitter Unit → Emitter
  | .ok _ m => m
  | .error _ m => m

/-- What becomes of emission after the steps of an instruction: it stops with their failure, or with one that the
assembler recorded. -/
def conclude (position : Nat) : EStateM.Result Diagnostic Emitter Unit → Except (Stopped CompileEvent) Emitter
  | .ok _ m => m.checkpoint position
  | .error d m => .error (m.stopAt d position)

section
variable {v : Flavor} {x : Allocation} {m m' : Emitter} {i : Instruction} {position : Nat}

/-- The state the commands of an instruction start from. -/
def stateOf (x : Allocation) (m : Emitter) (i : Instruction) : State :=
  Emission.instructionState m.assembler.state i (x.kernel.widthOf i)

/-- An emitter inside an instruction, before its first command. -/
def inside (x : Allocation) (m : Emitter) (i : Instruction) : Emitter :=
  { m with assembler := m.assembler.within (stateOf x m i) (m.assembler.state :: m.assembler.saved) }

theorem prepare_inside :
    onAssembler (prepare x i) { m with assembler := m.assembler.push } = .ok () (inside x m i) := by
  unfold onAssembler
  rw [prepare_runs x i m.assembler.state (m.assembler.state :: m.assembler.saved) m.assembler.push rfl rfl]
  rfl

theorem perform_ok (ran : act v x i position (inside x m i) = .ok () m') :
    perform v x (i, position) m = .ok () { m' with assembler := m'.assembler.pop } :=
  between_ok rfl ((bind_ok prepare_inside _).trans ran) rfl

theorem perform_error {d : Diagnostic} (ran : act v x i position (inside x m i) = .error d m') :
    perform v x (i, position) m = .error d { m' with assembler := m'.assembler.pop } :=
  between_error rfl ((bind_ok prepare_inside _).trans ran) rfl

theorem perform_label (label : i.op = .label) : perform v x (i, position) m =
    match m.label? i.label with
    | some _ => .error (.encoding (.duplicateLabel i.label)) m
    | none => .ok () { m with labels := m.labels ++ [(i.label, m.assembler.words.length)] } := by
  have ran : act v x i position (inside x m i) =
      (match m.label? i.label with
        | some _ => throw (.encoding (.duplicateLabel i.label))
        | none => set { inside x m i with labels := m.labels ++ [(i.label, m.assembler.words.length)] } :
          EStateM Diagnostic Emitter Unit) (inside x m i) := by
    unfold act
    rw [label]
    rfl
  cases known : m.label? i.label with
  | some w =>
    rw [known] at ran
    exact perform_error ran
  | none =>
    rw [known] at ran
    exact perform_ok ran

theorem perform_jump (jump : i.op = .jump) : perform v x (i, position) m =
    .ok () { m with
      assembler := m.assembler.run ⟨stateOf x m i, .jump 0⟩
      jumps := m.jumps ++ ((inside x m i).assembler.issue (.jump 0)).2.toList.map fun w =>
        ⟨w, i.label, position⟩ } := by
  let issued := (inside x m i).assembler.issue (.jump 0)
  let jumps := m.jumps ++ issued.2.toList.map fun w => (⟨w, i.label, position⟩ : PendingJump)
  have encoded : onAssembler (helper (.jump 0)) (inside x m i) =
      .ok issued.2 { inside x m i with assembler := issued.1 } := by
    unfold onAssembler
    rw [helper_issue]
  have ran :
      act v x i position (inside x m i) = .ok () { inside x m i with assembler := issued.1, jumps := jumps } := by
    unfold act
    rw [jump]
    refine (bind_ok encoded _).trans ?_
    cases known : issued.2 with
    | none => simp [jumps, known, inside, pure, EStateM.pure]
    | some w =>
      simp only [jumps, known]
      rfl
  have popped : issued.1.pop = m.assembler.run ⟨stateOf x m i, .jump 0⟩ := by
    have issue : issued.1 = ((inside x m i).assembler.runAll [⟨stateOf x m i, .jump 0⟩]).within (stateOf x m i)
        (m.assembler.state :: m.assembler.saved) :=
      ((inside x m i).assembler.run_current _).symm.trans ((inside x m i).assembler.run_restored _).within.symm
    rw [issue]
    exact m.assembler.runAll_popped [⟨stateOf x m i, .jump 0⟩] _
  rw [perform_ok ran]
  dsimp only
  rw [popped]
  rfl

theorem perform_other (label : i.op ≠ .label) (jump : i.op ≠ .jump) : perform v x (i, position) m =
    match Emission.instruction ⟨v, x, m.assembler.state⟩ i with
    | .ok issues => .ok () { m with assembler := m.assembler.runAll issues }
    | .error e => .error e.diagnostic { m with assembler := m.assembler.runAll e.log } := by
  have chosen : act v x i position = onAssembler (body x v i) := by
    unfold act
    split
    · exact absurd ‹_› label
    · exact absurd ‹_› jump
    · rfl
  have ran : act v x i position (inside x m i) = onAssembler (body x v i) (inside x m i) := congrFun chosen _
  obtain ⟨s', performed⟩ := body_performs i ⟨v, x, m.assembler.state⟩ (m.assembler.state :: m.assembler.saved)
  have ended := performed (inside x m i).assembler rfl rfl
  unfold onAssembler at ran
  rw [ended] at ran
  have popped (is : List Issue) : (((inside x m i).assembler.runAll is).within s'
      (m.assembler.state :: m.assembler.saved)).pop = m.assembler.runAll is := m.assembler.runAll_popped is s'
  cases emitted : Emission.instruction ⟨v, x, m.assembler.state⟩ i with
  | ok issues =>
    rw [emitted] at ran
    rw [perform_ok ran]
    dsimp only
    rw [← popped issues]
    rfl
  | error e =>
    rw [emitted] at ran
    rw [perform_error ran]
    dsimp only
    rw [← popped e.log]
    rfl

/-- A jump that cannot be encoded stops emission, so it makes no difference that it is not left. -/
theorem emitJump_conclude (i : Instruction) (position : Nat) :
    m.emitJump ⟨v, x, m.assembler.state⟩ i position = conclude position (.ok () { m with
      assembler := m.assembler.run ⟨stateOf x m i, .jump 0⟩
      jumps := m.jumps ++ ((inside x m i).assembler.issue (.jump 0)).2.toList.map fun w =>
        ⟨w, i.label, position⟩ }) := by
  cases outcome : m.assembler.generation.assemble (stateOf x m i) (.jump 0) with
  | error d =>
    let a := m.assembler.run ⟨stateOf x m i, .jump 0⟩
    have failed : a.error = m.assembler.error.or (some d) := by
      change (({ m.assembler with state := stateOf x m i } : Assembler).issue (.jump 0)).1.error = _
      rw [issue_refused outcome]
      rfl
    obtain ⟨e, recorded⟩ : ∃ e, a.error = some e := by
      rw [failed]
      cases m.assembler.error <;> exact ⟨_, rfl⟩
    have stops (jumps : List PendingJump) : checkpoint { m with assembler := a, jumps := jumps } position =
        .error (stopAt { m with assembler := a } e position) := by
      unfold checkpoint
      dsimp only
      rw [recorded]
      rfl
    exact (stops _).trans (stops _).symm
  | ok ws =>
    rw [issue_made (a := (inside x m i).assembler) outcome]
    rfl

/-- Emission of an instruction is its steps. -/
theorem step_perform (v : Flavor) (x : Allocation) (m : Emitter) (entry : Instruction × Nat) :
    Emitter.step ⟨v, x, m.assembler.state⟩ m entry = conclude entry.2 (perform v x entry m) := by
  obtain ⟨i, position⟩ := entry
  unfold step
  dsimp only
  by_cases label : i.op = .label
  · rw [perform_label label, label]
    dsimp only
    unfold defineLabel
    cases m.label? i.label <;> rfl
  · by_cases jump : i.op = .jump
    · rw [perform_jump jump, jump]
      exact emitJump_conclude i position
    · rw [perform_other label jump]
      split
      · exact absurd ‹_› label
      · exact absurd ‹_› jump
      · cases Emission.instruction ⟨v, x, m.assembler.state⟩ i <;> rfl

/-- Whether an instruction is emitted or fails, the assembler has the states it had. -/
theorem perform_restored (v : Flavor) (x : Allocation) (m : Emitter) (entry : Instruction × Nat) :
    m.assembler.Restored (left (perform v x entry m)).assembler := by
  obtain ⟨i, position⟩ := entry
  by_cases label : i.op = .label
  · rw [perform_label label]
    cases m.label? i.label <;> exact .refl _
  · by_cases jump : i.op = .jump
    · rw [perform_jump jump]
      exact m.assembler.run_restored _
    · rw [perform_other label jump]
      cases Emission.instruction ⟨v, x, m.assembler.state⟩ i with
      | ok issues => exact m.assembler.runAll_restored issues
      | error e => exact m.assembler.runAll_restored e.log

end

/-! ## Whole kernels -/

/-- Steps that emission goes on after leave the states as they were. -/
theorem conclude_restored {v : Flavor} {x : Allocation} {m m' : Emitter} {entry : Instruction × Nat}
    (passed : conclude entry.2 (perform v x entry m) = .ok m') : m.assembler.Restored m'.assembler := by
  have restored := perform_restored v x m entry
  cases performed : perform v x entry m with
  | error d t =>
    rw [performed] at passed
    cases passed
  | ok u t =>
    rw [performed] at passed restored
    rw [(StraightLine.checkpoint_ok passed).1]
    exact restored

/-- Emission of a stream is the steps of its instructions in turn: each finds the state that the first one found. -/
theorem steps_perform (v : Flavor) (x : Allocation) (m : Emitter) (entries : List (Instruction × Nat)) :
    entries.foldlM (step ⟨v, x, m.assembler.state⟩) m =
      entries.foldlM (fun t entry => conclude entry.2 (perform v x entry t)) m := by
  induction entries generalizing m with
  | nil => rfl
  | cons entry entries ih =>
    rw [List.foldlM_cons, List.foldlM_cons, step_perform]
    cases passed : conclude entry.2 (perform v x entry m) with
    | error e => rfl
    | ok m' =>
      rw [← (conclude_restored passed).state]
      exact ih m'

/-- Causes other than states left pushed. -/
def Popped (c : Cause) : Prop := ∀ n, c ≠ .encoding (.statesLeftPushed n)

theorem popped_covers : Covers Popped where
  encoding fault other n same := by
    cases same
    exact other n rfl
  unimplemented _ _ := nofun

/-- Emission does not fail for states left pushed. -/
theorem emit_popped (c : Context) (x : Allocation) : FailsWith Popped stoppedCause (c.emit x) :=
  emit_fails popped_covers c x fun i _ _ =>
    ⟨instruction_fails popped_covers (fun _ _ _ => nofun) rfl i,
      fun j _ => typed_unsupported (fun _ _ _ => nofun) c.generation j.command⟩

/-- A helper appends all of its words and gives the index of one, or appends none and records a failure beside which an
earlier one stays; the assembler has the states it had. The steps of an instruction leave the states as they were too,
whether they get through or not, and emission takes just these steps, so it never finds a state left pushed. -/
theorem states_restored :
    (∀ (a : Assembler) (c : Command), ∃ index? b,
      helper c a = .ok index? b ∧ a.AllOrNothing index? b ∧ a.issue c = (b, index?)) ∧
    (∀ (v : Flavor) (x : Allocation) (m : Emitter) (entry : Instruction × Nat),
      m.assembler.Restored (left (perform v x entry m)).assembler) ∧
    (∀ (v : Flavor) (x : Allocation) (m : Emitter) (entries : List (Instruction × Nat)),
      entries.foldlM (step ⟨v, x, m.assembler.state⟩) m =
        entries.foldlM (fun t entry => conclude entry.2 (perform v x entry t)) m) ∧
    ∀ (c : Context) (x : Allocation), FailsWith Popped stoppedCause (c.emit x) :=
  ⟨fun a c => ⟨_, _, helper_issue a c, a.issue_allOrNothing c, rfl⟩, perform_restored, steps_perform, emit_popped⟩

end GpuCodegen.Emitter
