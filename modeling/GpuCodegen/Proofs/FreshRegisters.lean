import GpuCodegen.Proofs.SelectionPrograms
import GpuCodegen.Proofs.SpillGroups

/-! Registers that compilation adds to a kernel. Selection and spill code both take the number the kernel
hands out next, and appending an instruction only raises that number. So the registers they hand out are
distinct, and no instruction of the kernel names one of them. What the kernel never numbered they cannot
keep clear of: selection passes over a stack pointer without a number, but spill code does not, and neither
looks at the pinned registers. -/

namespace GpuCodegen.FreshRegisters
open Outcome Products SpillGroups

/-! ## Kernels -/

/-- Kernels as they are built: from an empty one, with registers numbered, pinned and named by instructions. The
numbers end before that of no register. -/
inductive Built : Kernel → Prop where
  | new (name : String) (simdWidth : Int) : Built { name := name, simdWidth := simdWidth }
  | stack {k : Kernel} (size : UInt32) (pointer : VReg) (pointerSize : Int) :
      Built k → Built { k with stackSize := size, stackPointer := pointer, pointerSize := pointerSize }
  | register {k : Kernel} : k.freshRegister ≠ .none → Built k → Built k.allocRegister
  | pin {k : Kernel} (r : VReg) (offset : UInt32) : Built k → Built (k.pin r offset)
  | emit {k : Kernel} (i : Instruction) : Built k → Built (k.emit i)

/-- Whether a register has a number that its kernel has handed out or seen. -/
def Numbered (k : Kernel) (r : VReg) : Prop := r.number.toNat < k.next.toNat

instance (k : Kernel) (r : VReg) : Decidable (Numbered k r) :=
  inferInstanceAs (Decidable (r.number.toNat < k.next.toNat))

/-! ## Numbers -/

/-- Registers whose numbers were taken from one kernel on the way to another, each once. -/
structure Taken (k k' : Kernel) (rs : List VReg) : Prop where
  grows : k.next.toNat ≤ k'.next.toNat
  range : ∀ r ∈ rs, k.next.toNat ≤ r.number.toNat ∧ r.number.toNat < k'.next.toNat
  distinct : rs.Nodup

section
variable {k t k' : Kernel} {rs rs' : List VReg}

theorem Taken.nothing (grows : k.next.toNat ≤ k'.next.toNat) : Taken k k' [] :=
  ⟨grows, by simp, .nil⟩

theorem Taken.trans (first : Taken k t rs) (second : Taken t k' rs') : Taken k k' (rs ++ rs') := by
  have grows := first.grows
  have grows' := second.grows
  refine ⟨by omega, fun r member => ?_, List.nodup_append.mpr ⟨first.distinct, second.distinct, ?_⟩⟩
  · rcases List.mem_append.mp member with early | late
    · have range := first.range r early
      omega
    · have range := second.range r late
      omega
  · rintro r early _ late rfl
    have before := (first.range r early).2
    have after := (second.range r late).1
    omega

theorem Taken.sublist (taken : Taken k k' rs) (part : rs'.Sublist rs) : Taken k k' rs' :=
  ⟨taken.grows, fun r member => taken.range r (part.subset member), taken.distinct.sublist part⟩

theorem alloc_next (real : k.freshRegister ≠ .none) : k.allocRegister.next.toNat = k.next.toNat + 1 := by
  have other : k.next.toNat ≠ 4294967295 := by
    intro last
    exact real (congrArg VReg.mk (UInt32.toNat_inj.mp last))
  have bound : k.next.toNat < 4294967296 := k.next.toNat_lt
  have small : k.next.toNat + 1 < 4294967296 := by omega
  change (k.next + 1).toNat = _
  rw [UInt32.toNat_add]
  exact Nat.mod_eq_of_lt small

theorem Taken.one (real : k.freshRegister ≠ .none) : Taken k k.allocRegister [k.freshRegister] := by
  have next := alloc_next real
  refine ⟨by omega, fun r member => ?_, List.nodup_singleton _⟩
  rw [List.mem_singleton.mp member, next]
  exact ⟨Nat.le_refl _, Nat.lt_succ_self _⟩

/-- Appending an instruction does not lower the next number. -/
theorem emit_grows (k : Kernel) (i : Instruction) : k.next.toNat ≤ (k.emit i).next.toNat := by
  have along (os : List RegisterOperand) (real : ∀ o ∈ os, o.reg ≠ .none) (next : UInt32) :
      next.toNat ≤ (os.foldl (fun next o => Kernel.noteRegister next o.reg) next).toNat := by
    induction os generalizing next with
    | nil => exact Nat.le_refl _
    | cons o os ih =>
      exact (noteRegister_above next (real o List.mem_cons_self)).1.trans
        (ih (fun x member => real x (List.mem_cons_of_mem _ member)) _)
  refine along i.registers (fun o member => ?_) k.next
  rcases mem_registers.mp member with named | ⟨p, -, named⟩ <;> exact register_real named

theorem emitAll_grows (k : Kernel) (is : List Instruction) : k.next.toNat ≤ (k.emitAll is).next.toNat := by
  induction is generalizing k with
  | nil => exact Nat.le_refl _
  | cons i rest ih => exact (emit_grows k i).trans (ih (k.emit i))

end

/-- What a kernel's instructions name is numbered. -/
theorem Built.names {k : Kernel} (built : Built k) : ∀ i ∈ k.code, NamesBelow k.next.toNat i := by
  induction built with
  | new name simdWidth => exact fun i none => by cases none
  | stack size pointer pointerSize _ ih => exact ih
  | register real _ ih =>
    rw [alloc_next real]
    exact fun i member => (ih i member).mono (Nat.le_succ _)
  | pin r offset _ ih => exact ih
  | emit i _ ih => exact emit_names ih i

theorem Built.numbered {k : Kernel} (built : Built k) {r : VReg} (named : r ∈ k.named) : Numbered k r := by
  obtain ⟨i, member, x, operand, rfl⟩ := Kernel.mem_named.mp named
  exact namesBelow_iff.mp (built.names i member) x operand

/-! ## Selection -/

/-- The numbers a run of selection takes, of which those handed out are all but the stack pointer's. -/
theorem run_taken {α : Type} {m : Select α} {k k' : Kernel} {a : α} {taken handed : List VReg}
    (run : Select.Run m k a k' taken handed) (real : VReg.none ∉ taken) :
    Taken k k' taken ∧ handed.Sublist taken ∧ k'.stackPointer = k.stackPointer ∧ k.stackPointer ∉ handed := by
  induction run with
  | pure | lift | get => exact ⟨.nothing (Nat.le_refl _), .slnil, rfl, by simp⟩
  | emit i k => exact ⟨.nothing (emit_grows k i), .slnil, rfl, by simp⟩
  | @fresh k other =>
    simp only [List.mem_singleton] at real
    exact ⟨.one (Ne.symm real), .refl _, rfl, by simpa using Ne.symm other⟩
  | @skip k pointer =>
    simp only [List.mem_cons, List.not_mem_nil, or_false, not_or] at real
    have first := Taken.one (Ne.symm real.1)
    have second := Taken.one (Ne.symm real.2)
    refine ⟨first.trans second, .cons _ (.refl _), rfl, ?_⟩
    have next := alloc_next (Ne.symm real.1)
    rw [List.mem_singleton, ← pointer]
    intro same
    have number := congrArg (fun r : VReg => r.number.toNat) same
    change k.next.toNat = k.allocRegister.next.toNat at number
    omega
  | bind _ _ ih ih' =>
    simp only [List.mem_append, not_or] at real
    obtain ⟨first, part, pointer, skipped⟩ := ih real.1
    obtain ⟨second, part', pointer', skipped'⟩ := ih' real.2
    refine ⟨first.trans second, part.append part', pointer'.trans pointer, ?_⟩
    rw [pointer] at skipped'
    simp [skipped, skipped']
  | located position _ ih => exact ih real

/-! ## Spill code -/

/-- Spill code around instructions, with the temporaries in the order in which they are handed out. -/
inductive Spilling (k : Kernel) (plan : SpillPlan) :
    Kernel → List (Instruction × Nat) → Kernel → List VReg → Prop where
  | nil (out : Kernel) : Spilling k plan out [] out []
  | cons {out out' : Kernel} {entry : Instruction × Nat} {rest : List (Instruction × Nat)} {s : TempState}
      {temps : List VReg} : k.spillTemps plan entry.2 entry.1 out = .ok s →
      Spilling k plan (s.out.emitAll (Kernel.withSpillCode entry.1 s)) rest out' temps →
      Spilling k plan out (entry :: rest) out' (s.temps.map SpillTemp.reg ++ temps)

/-- Where spill code starts: without instructions, and without the stack pointer if that is spilled. -/
def spillStart (k : Kernel) (plan : SpillPlan) : Kernel :=
  if plan.spilled.contains k.stackPointer then { k.cloneEmpty with stackPointer := .none } else k.cloneEmpty

/-- Rounds of spill code, with the temporaries of each after those of the ones before. -/
inductive Rounds (k : Kernel) : Kernel → List VReg → Prop where
  | start : Rounds k k []
  | round {t k' : Kernel} {plan : SpillPlan} {temps more : List VReg} : Rounds k t temps →
      Spilling t plan (spillStart t plan) t.code.zipIdx k' more → Rounds k k' (temps ++ more)

section
variable {k t t' : Kernel} {plan : SpillPlan}

theorem steps_spilling {entries : List (Instruction × Nat)}
    (ran : entries.foldlM (Kernel.spillStep k plan) t = .ok t') :
    ∃ temps, Spilling k plan t entries t' temps := by
  induction entries generalizing t with
  | nil =>
    rw [List.foldlM_nil, pure_ok] at ran
    subst ran
    exact ⟨[], .nil t⟩
  | cons entry rest ih =>
    simp only [List.foldlM_cons, Kernel.spillStep, bind_ok, pure_ok] at ran
    obtain ⟨_, ⟨s, made, rfl⟩, later⟩ := ran
    obtain ⟨temps, spilling⟩ := ih later
    exact ⟨_, .cons made spilling⟩

theorem Rounds.insert {temps : List VReg} (rounds : Rounds k t temps) (inserted : t.insertSpillCode plan = .ok t') :
    ∃ temps, Rounds k t' temps := by
  obtain ⟨more, spilling⟩ := steps_spilling (k := t) (t := spillStart t plan) inserted
  exact ⟨_, rounds.round spilling⟩

/-- Allocation rewrites its kernel in rounds of spill code. -/
theorem allocated_rounds {cfg : SweepConfig} {r : Allocation × List AllocationEvent}
    (allocated : Allocation.ofKernel k cfg = .ok r) : ∃ temps, Rounds k r.1.kernel temps := by
  refine Branches.ofKernel_keeps (Q := fun t => ∃ temps, Rounds k t temps) ?_ ⟨[], .start⟩ allocated
  rintro t t' scratch s - inserted ⟨temps, rounds⟩
  exact rounds.insert inserted

/-- Temporaries that were numbered and pinned on the way from one kernel to another. -/
structure Placed (k k' : Kernel) (rs : List VReg) : Prop where
  taken : VReg.none ∉ rs → Taken k k' rs
  kept : ∀ r, k.pin? r ≠ none → k'.pin? r ≠ none
  pinned : ∀ r ∈ rs, k'.pin? r ≠ none

theorem Placed.nothing (grows : k.next.toNat ≤ t.next.toNat) (same : t.pinned = k.pinned) : Placed k t [] := by
  refine ⟨fun _ => .nothing grows, fun r pinned => ?_, by simp⟩
  unfold Kernel.pin? at pinned ⊢
  rwa [same]

theorem Placed.trans {rs rs' : List VReg} (first : Placed k t rs) (second : Placed t t' rs') :
    Placed k t' (rs ++ rs') := by
  refine ⟨fun real => ?_, fun r pinned => second.kept r (first.kept r pinned), fun r member => ?_⟩
  · rw [List.mem_append, not_or] at real
    exact (first.taken real.1).trans (second.taken real.2)
  · rcases List.mem_append.mp member with early | late
    · exact second.kept r (first.pinned r early)
    · exact second.pinned r late

/-- The temporaries of an instruction while they are handed out, before the instruction is appended. -/
structure Prepared (t : Kernel) (s : TempState) : Prop where
  placed : Placed t s.out (s.temps.map SpillTemp.reg)
  code : s.out.code = t.code

/-- A temporary is the next register, pinned. -/
theorem Prepared.newTemp {position : Nat} {s s' : TempState} {r : VReg} {reload store : Bool} (prepared : Prepared t s)
    (made : TempState.newTemp plan position s r reload store = .ok s') : Prepared t s' := by
  obtain ⟨-, rfl⟩ := newTemp_made made
  have here : Placed s.out (s.out.allocRegister.pin s.out.freshRegister s.cursor) [s.out.freshRegister] := by
    refine ⟨fun real => ?_, fun q pinned => ?_, fun q member => ?_⟩
    · have one := Taken.one (Ne.symm (by simpa using real))
      exact ⟨one.grows, one.range, one.distinct⟩
    · rw [pin_allocRegister]
      split
      · exact Option.some_ne_none _
      · exact pinned
    · rw [pin_allocRegister, if_pos (List.mem_singleton.mp member)]
      exact Option.some_ne_none _
  refine ⟨?_, prepared.code⟩
  rw [List.map_append]
  exact prepared.placed.trans here

theorem spillTemps_prepared {i : Instruction} {position : Nat} {s : TempState}
    (made : k.spillTemps plan position i t = .ok s) : Prepared t s := by
  simp only [Kernel.spillTemps, bind_ok] at made
  obtain ⟨first, destination, sources⟩ := made
  have start : Prepared t first := by
    have none : Prepared t { out := t, cursor := plan.reserve.data } := ⟨.nothing (Nat.le_refl _) rfl, rfl⟩
    unfold Kernel.spilledDestination at destination
    split at destination
    · cases destination
      exact none
    · split at destination
      · split at destination
        · cases destination
        · exact none.newTemp destination
      · cases destination
        exact none
  have advanced : Prepared t { first with cursor := max first.cursor (k.reserveInUse i plan.reserve) } :=
    ⟨start.placed, start.code⟩
  refine foldlM_keeps (P := Prepared t) (fun o _ s s' prepared made => ?_) advanced sources
  rcases source_made made with ⟨rfl, -⟩ | ⟨x, -, -, ⟨-, rfl⟩ | ⟨-, made⟩⟩
  · exact prepared
  · have regs : (s.temps.map (mark x.reg)).map SpillTemp.reg = s.temps.map SpillTemp.reg := by simp
    refine ⟨?_, prepared.code⟩
    rw [regs]
    exact prepared.placed
  · exact prepared.newTemp made

theorem emitAll_pinned (k : Kernel) (is : List Instruction) : (k.emitAll is).pinned = k.pinned := by
  induction is generalizing k with
  | nil => rfl
  | cons i rest ih => exact ih (k.emit i)

theorem spilling_placed {entries : List (Instruction × Nat)} {temps : List VReg}
    (spilling : Spilling k plan t entries t' temps) : Placed t t' temps := by
  induction spilling with
  | nil out => exact .nothing (Nat.le_refl _) rfl
  | @cons _ _ entry _ s _ made _ ih =>
    have appended := Placed.nothing (emitAll_grows s.out (Kernel.withSpillCode entry.1 s)) (emitAll_pinned _ _)
    exact (spillTemps_prepared made).placed.trans (appended.trans ih)

theorem rounds_placed {temps : List VReg} (rounds : Rounds k t temps) : Placed k t temps := by
  induction rounds with
  | start => exact .nothing (Nat.le_refl _) rfl
  | @round t _ plan _ _ _ spilling ih =>
    have same : (spillStart t plan).next = t.next ∧ (spillStart t plan).pinned = t.pinned := by
      unfold spillStart
      split <;> exact ⟨rfl, rfl⟩
    have cleared : Placed t (spillStart t plan) [] := .nothing (Nat.le_of_eq (by rw [same.1])) same.2
    exact ih.trans (cleared.trans (spilling_placed spilling))

/-- An instruction with its spill code is on its temporaries and the registers it is on itself. -/
theorem withSpillCode_draws {known : List VReg} {i : Instruction} {s : TempState} (draws : Select.Draws known i) :
    ∀ j ∈ Kernel.withSpillCode i s, Select.Draws (known ++ s.temps.map SpillTemp.reg) j := by
  have temp (t : SpillTemp) (member : t ∈ s.temps) : Select.Known (known ++ s.temps.map SpillTemp.reg) t.operand :=
    Select.known_register (List.mem_append_right _ (List.mem_map_of_mem member))
  have operand (o : Operand) (source : Select.Known known o) :
      Select.Known (known ++ s.temps.map SpillTemp.reg) (o.rename s.rename) := by
    cases named : o.register? with
    | none =>
      rw [rename_unnamed named]
      exact source.mono (List.subset_append_left _ _)
    | some x =>
      have renamed : o.rename s.rename = .register { x with reg := s.rename x.reg } := by
        rw [register_of_named named, Operand.rename, if_neg (register_real named)]
      rw [renamed]
      refine Select.known_register ?_
      change standIn s.temps x.reg ∈ _
      rcases standIn_cases s.temps x.reg with ⟨t, member, -, same⟩ | ⟨-, same⟩ <;> rw [same]
      · exact List.mem_append_right _ (List.mem_map_of_mem member)
      · exact List.mem_append_left _ (source x named)
  intro j member
  simp only [Kernel.withSpillCode, List.mem_append, List.mem_map, List.mem_singleton, List.mem_filter] at member
  rcases member with (⟨t, ⟨held, -⟩, rfl⟩ | rfl) | ⟨t, ⟨held, -⟩, rfl⟩
  · exact ⟨temp t held, by simp [SpillTemp.reloadInstruction]⟩
  · exact ⟨operand i.dst draws.dst, List.forall_mem_map.mpr fun o source => operand o (draws.src o source)⟩
  · exact ⟨Select.known_absent, Select.known_one (temp t held)⟩

theorem emitAll_drawn {known : List VReg} {is : List Instruction} (draws : ∀ i ∈ is, Select.Draws known i)
    (k : Kernel) : Select.Drawn known k (k.emitAll is) := by
  induction is generalizing k with
  | nil => exact .same rfl
  | cons i rest ih =>
    exact ((draws i List.mem_cons_self).emit k).trans (ih (fun j member => draws j (List.mem_cons_of_mem _ member)) _)

/-- Spill code around instructions is on the temporaries and the registers of the instructions. -/
theorem spilling_drawn {known : List VReg} {entries : List (Instruction × Nat)} {temps : List VReg}
    (spilling : Spilling k plan t entries t' temps) (draws : ∀ e ∈ entries, Select.Draws known e.1) :
    Select.Drawn (known ++ temps) t t' := by
  induction spilling with
  | nil out => exact .same rfl
  | @cons _ _ entry _ s temps made _ ih =>
    have later := ih fun e member => draws e (List.mem_cons_of_mem _ member)
    have here := emitAll_drawn (withSpillCode_draws (s := s) (draws entry List.mem_cons_self)) s.out
    have prepared : Select.Drawn (known ++ s.temps.map SpillTemp.reg) _ s.out := .same (spillTemps_prepared made).code
    refine ((prepared.trans here).mono ?_).trans (later.mono ?_) <;> intro r member <;>
      simp only [List.mem_append] at member ⊢ <;> tauto

theorem rounds_drawn {temps : List VReg} (rounds : Rounds k t temps) : Select.Drawn temps k t := by
  induction rounds with
  | start => exact .same rfl
  | @round t _ plan temps more _ spilling ih =>
    have added := spilling_drawn spilling fun e member => Select.draws_named (List.fst_mem_of_mem_zipIdx member)
    have empty : (spillStart t plan).named = [] := by
      unfold spillStart
      split <;> rfl
    intro r member
    have here := added member
    rw [empty, List.nil_append] at here
    rcases List.mem_append.mp here with before | temp
    · have known := ih before
      rw [← List.append_assoc]
      exact List.mem_append_left _ known
    · exact List.mem_append_right _ (List.mem_append_right _ temp)

end

/-! ## Compilation -/

/-- Selection is a run that hands out registers, and allocation is rounds of spill code on temporaries; the kernels
they end with name no registers but these, those of the kernel they start from and, after selection, the stack pointer.
As long as the numbers last, all registers handed out are distinct, and none is named by the first kernel; selection
passes over the stack pointer. What they may be is a pinned register, and in spill code the stack pointer, if the
kernel has no number for it. -/
theorem temporaries_fresh {k : Kernel} (built : Built k) (c : Context) (own : c.kernel = k) :
    (∀ selected, c.select = .ok selected → ∃ taken handed,
      Select.Run (Select.all c) { k.cloneEmpty with simdWidth := c.simdWidth } () selected taken handed ∧
        ∀ r ∈ selected.named, r ∈ k.named ∨ r = k.stackPointer ∨ r ∈ handed) ∧
    (∀ selected cfg r, Allocation.ofKernel selected cfg = .ok r → ∃ temps, Rounds selected r.1.kernel temps ∧
      ∀ q ∈ r.1.kernel.named, q ∈ selected.named ∨ q ∈ temps) ∧
    ∀ selected last taken handed temps,
      Select.Run (Select.all c) { k.cloneEmpty with simdWidth := c.simdWidth } () selected taken handed →
      Rounds selected last temps → VReg.none ∉ taken ++ temps →
      (handed ++ temps).Nodup ∧ (∀ r ∈ handed ++ temps, r ∉ k.named) ∧ k.stackPointer ∉ handed ∧
        ((∀ r, k.pin? r ≠ none → Numbered k r) → ∀ r ∈ handed ++ temps, k.pin? r = none) ∧
        (k.stackPointer = .none ∨ Numbered k k.stackPointer → k.stackPointer ∉ temps) := by
  subst own
  refine ⟨fun selected selects => ?_, fun selected cfg r allocated => ?_, ?_⟩
  · simp only [Context.select, bind_ok, pure_ok] at selects
    obtain ⟨-, -, ⟨⟨⟩, k'⟩, ran, rfl⟩ := selects
    have start : { c.kernel.cloneEmpty with simdWidth := c.simdWidth }.stackPointer ∈
        c.kernel.stackPointer :: c.kernel.named := List.mem_cons_self
    obtain ⟨taken, handed, run, -, drawn, -⟩ := (Select.Program.all c).runs start ran
    refine ⟨taken, handed, run, fun r member => ?_⟩
    rcases List.mem_append.mp (drawn member : r ∈ [] ++ _) with none | here
    · cases none
    · simp only [List.cons_append, List.mem_cons, List.mem_append] at here
      tauto
  · obtain ⟨temps, rounds⟩ := allocated_rounds allocated
    exact ⟨temps, rounds, fun q member => List.mem_append.mp (rounds_drawn rounds member)⟩
  · intro selected last taken handed temps run rounds real
    rw [List.mem_append, not_or] at real
    obtain ⟨first, part, -, skipped⟩ := run_taken run real.1
    have both := (first.sublist part).trans ((rounds_placed rounds).taken real.2)
    have unnumbered (r : VReg) (member : r ∈ handed ++ temps) : ¬ Numbered c.kernel r :=
      Nat.not_lt.mpr (both.range r member).1
    refine ⟨both.distinct, fun r member named => unnumbered r member (built.numbered named), skipped, ?_, ?_⟩
    · intro numbered r member
      by_contra pinned
      exact unnumbered r member (numbered r pinned)
    · rintro (none | numbered) member
      · rw [none] at member
        exact real.2 member
      · exact unnumbered _ (List.mem_append_right _ member) numbered

/-! ## Kernels with and without a number for the stack pointer -/

/-- An instruction that selection passes on as it is. -/
structure Passes (c : Context) (i : Instruction) : Prop where
  same : Select.narrowed c i = i
  types : Select.checkTypes c i = .ok ()
  lowers : ∃ n, Select.wantSources i n = .ok () ∧
    Select.lower c i = (liftM (Select.wantSources i n) >>= fun _ => Select.emit i)

/-- Instructions that are passed on take no numbers. -/
theorem passes_run {c : Context} {entries : List (Instruction × Nat)} (passes : ∀ e ∈ entries, Passes c e.1)
    (k : Kernel) : Select.Run (entries.forM (Select.step c)) k () (k.emitAll (entries.map Prod.fst)) [] [] := by
  induction entries generalizing k with
  | nil => exact .pure () k
  | cons e rest ih =>
    obtain ⟨same, types, n, sources, lowers⟩ := passes e List.mem_cons_self
    have first : Select.Run (Select.step c e) k () (k.emit e.1) [] [] := by
      rw [Select.step_located, same, lowers]
      exact .located e.2 (.bind (.lift k types) (.bind (.lift k sources) (.emit e.1 k)))
    exact .bind first (ih (fun e member => passes e (List.mem_cons_of_mem _ member)) _)

/-- The assignment of a number to a register. -/
def assigns (n : UInt32) : Instruction where
  op := .mov
  dst := .vector ⟨n⟩ .ud
  src := [.immediate .ud 1 false false]

/-- The comparison of a register with zero. -/
def compares (n : UInt32) : Instruction where
  op := .compare
  src := [.vector ⟨n⟩ .ud, .immediate .ud 0 false false]
  condition := .eq

/-- Registers that live at the same time. -/
def crowd (numbers : List UInt32) : List Instruction :=
  numbers.map assigns ++ numbers.map compares ++ [{ op := .endThread }]

/-- Room for three of them. -/
def threeRegisters : SweepConfig := ⟨96, 0, true, .longest, 0⟩

/-- Room for four of them. -/
def fourRegisters : SweepConfig := ⟨128, 0, true, .longest, 0⟩

theorem Built.emitAll {k : Kernel} (built : Built k) (is : List Instruction) : Built (k.emitAll is) := by
  induction is generalizing k with
  | nil => exact built
  | cons i rest ih => exact ih (built.emit i)

/-- The stack pointer is the first register that the kernel numbers. Selection takes two more for the barrier. -/
def numberedPointer : Kernel :=
  Kernel.emitAll { name := "numberedPointer", simdWidth := 8, stackPointer := ⟨0⟩, next := 1 }
    ({ op := .barrier } :: crowd [1, 2, 3, 4, 5])

/-- The stack pointer is a register that the kernel has not numbered. -/
def unnumberedPointer : Kernel :=
  Kernel.emitAll { name := "unnumberedPointer", simdWidth := 8, stackPointer := ⟨5⟩ } (crowd [1, 2, 3, 4])

/-- A register is pinned that the kernel has not numbered. -/
def unnumberedPin : Kernel :=
  Kernel.emitAll (.pin { name := "unnumberedPin", simdWidth := 8 } ⟨0⟩ 32) [{ op := .barrier }, { op := .endThread }]

/-- A register has the last number that can be handed out. -/
def lastNumber : Kernel :=
  Kernel.emitAll { name := "lastNumber", simdWidth := 8 }
    [{ op := .mov, dst := .vector ⟨0⟩ .ud, src := [.vector ⟨4294967294⟩ .ud] }, { op := .barrier },
      { op := .endThread }]

theorem numberedPointer_built : Built numberedPointer :=
  .emitAll (.stack 0 ⟨0⟩ 4 (.register (by decide) (.new "numberedPointer" 8))) _

theorem passes_crowd {c : Context} (lanes : c.simdWidth = 8) (numbers : List UInt32) :
    ∀ i ∈ crowd numbers, Passes c i := by
  have wide (i : Instruction) (all : i.execWidth = 0) : Select.narrowed c i = i := by
    unfold Select.narrowed
    rw [lanes, all]
    rfl
  have assigned (n : UInt32) : Passes c (assigns n) := ⟨wide _ rfl, rfl, 1, rfl, rfl⟩
  have compared (n : UInt32) : Passes c (compares n) := ⟨wide _ rfl, rfl, 2, rfl, rfl⟩
  have ends : Passes c { op := .endThread } := ⟨wide _ rfl, rfl, 0, rfl, rfl⟩
  simp only [crowd, List.forall_mem_append, List.forall_mem_map, List.forall_mem_singleton]
  exact ⟨⟨fun n _ => assigned n, fun n _ => compared n⟩, ends⟩

/-- A barrier with registers for its fence and its payload. -/
def fenced (fence payload : VReg) : Instruction where
  op := .barrier
  execWidth := 8
  dst := .vector fence .ud
  src := [.vector payload .ud]

theorem temp_run {k : Kernel} (free : k.freshRegister ≠ k.stackPointer) (t : Element) :
    Select.Run (Select.temp t) k (.vector k.freshRegister t) k.allocRegister [k.freshRegister] [k.freshRegister] :=
  .bind (.fresh free) (.pure (Operand.vector k.freshRegister t) k.allocRegister)

/-- Selection of a barrier takes the next two numbers. -/
theorem barrier_run {c : Context} {k : Kernel} (lanes : 0 < c.simdWidth) (position : Nat)
    (fence : k.freshRegister ≠ k.stackPointer) (payload : k.allocRegister.freshRegister ≠ k.stackPointer) :
    Select.Run (Select.step c ({ op := .barrier }, position)) k ()
      (k.allocRegister.allocRegister.emit (fenced k.freshRegister k.allocRegister.freshRegister))
      [k.freshRegister, k.allocRegister.freshRegister] [k.freshRegister, k.allocRegister.freshRegister] := by
  have whole : Select.narrowed c { op := .barrier } = { op := .barrier } :=
    if_neg (Int.not_lt.mpr (Int.le_of_lt lanes))
  have lowers : Select.lower c { op := .barrier } = (do
      let dst ← Select.temp .ud
      let src ← Select.temp .ud >>= fun t => pure [t]
      Select.emit { op := .barrier, execWidth := 8, dst := dst, src := src }) := rfl
  have first := temp_run fence .ud
  have second := Select.Run.bind (f := fun t => pure [t]) (temp_run payload .ud) (.pure _ _)
  have last := Select.Run.bind (f := fun src => Select.emit
    { op := .barrier, execWidth := 8, dst := .vector k.freshRegister .ud, src := src }) second (.emit _ _)
  rw [Select.step_located, whole, lowers]
  exact .located position (.bind (.lift k rfl) (.bind first last))

/-- The kernel after selection. -/
def fencedPointer : Kernel :=
  Kernel.emitAll { name := "numberedPointer", simdWidth := 8, stackPointer := ⟨0⟩, next := 8 }
    (fenced ⟨6⟩ ⟨7⟩ :: crowd [1, 2, 3, 4, 5])

/-- Selection hands out two registers for the barrier, and passes the other instructions on. -/
theorem numberedPointer_run {c : Context} (own : c.kernel = numberedPointer) (lanes : c.simdWidth = 8) :
    Select.Run (Select.all c) { numberedPointer.cloneEmpty with simdWidth := c.simdWidth } () fencedPointer
      [⟨6⟩, ⟨7⟩] [⟨6⟩, ⟨7⟩] := by
  have all : Select.all c = (Select.step c ({ op := .barrier }, 0) >>= fun _ =>
      ((crowd [1, 2, 3, 4, 5]).zipIdx 1).forM (Select.step c)) := by
    unfold Select.all
    rw [own]
    rfl
  have same : ({ numberedPointer.cloneEmpty with simdWidth := 8 }.allocRegister.allocRegister.emit
      (fenced ⟨6⟩ ⟨7⟩)).emitAll (crowd [1, 2, 3, 4, 5]) = fencedPointer := rfl
  have first := barrier_run (c := c) (k := { numberedPointer.cloneEmpty with simdWidth := 8 })
    (by rw [lanes]; decide) 0 (by decide) (by decide)
  have passes : ∀ e ∈ (crowd [1, 2, 3, 4, 5]).zipIdx 1, Passes c e.1 := fun e member =>
    passes_crowd lanes _ e.1 (List.fst_mem_of_mem_zipIdx member)
  have others := passes_run passes
  rw [List.zipIdx_map_fst] at others
  rw [all, ← same, lanes]
  exact .bind first (others _)

theorem temporaries_fresh_numberedPointer : ∃ c log r temps,
    Built numberedPointer ∧ Context.new .gen8 numberedPointer {} "" = .ok (c, log) ∧
    Select.Run (Select.all c) { numberedPointer.cloneEmpty with simdWidth := c.simdWidth } () fencedPointer
      [⟨6⟩, ⟨7⟩] [⟨6⟩, ⟨7⟩] ∧
    Allocation.ofKernel fencedPointer fourRegisters = .ok r ∧ r.1.spills = 5 ∧
    Rounds fencedPointer r.1.kernel temps ∧ VReg.none ∉ temps ∧
    (⟨6⟩ :: ⟨7⟩ :: temps).Nodup ∧ (∀ q ∈ ⟨6⟩ :: ⟨7⟩ :: temps, q ∉ numberedPointer.named) ∧
    numberedPointer.stackPointer ∉ ⟨6⟩ :: ⟨7⟩ :: temps ∧
    ∀ q ∈ r.1.kernel.named, q ∈ numberedPointer.named ∨ q ∈ ⟨6⟩ :: ⟨7⟩ :: temps := by
  have outcome : (Allocation.ofKernel fencedPointer fourRegisters).toOption.map (fun r =>
      (r.1.spills, r.1.kernel.pin? .none)) = some (5, none) := by
    simp only [Allocation.ofKernel, Allocation.sweep, Allocation.rounds, Allocation.maxRounds, Sweep.run, Sweep.start,
      Liveness.ofKernel, Placement.sorted_insertion]
    decide +kernel
  obtain ⟨r, allocated, parts⟩ := toOption_map_some.mp outcome
  obtain ⟨spills, unpinned⟩ := Prod.mk.inj parts
  let c : Context :=
    { generation := .gen8, device := .of .gen8 "Broadwell GT2" 24 7 (2048 * kib), flavor := .gen8, variant := "",
      simdWidth := 8, kernel := numberedPointer, settings := {} }
  have run := numberedPointer_run (c := c) rfl rfl
  obtain ⟨-, rounds, fresh⟩ := temporaries_fresh numberedPointer_built c rfl
  obtain ⟨temps, rewritten, named⟩ := rounds fencedPointer fourRegisters r allocated
  have real : VReg.none ∉ temps := fun member => (rounds_placed rewritten).pinned _ member unpinned
  obtain ⟨distinct, names, selection, -, pointer⟩ := fresh _ _ _ _ _ run rewritten
    (by rw [List.mem_append, not_or]; exact ⟨by decide, real⟩)
  have known : ∀ q ∈ fencedPointer.named, q ∈ numberedPointer.named ∨ q ∈ [(⟨6⟩ : VReg), ⟨7⟩] := by decide
  refine ⟨c, [], r, temps, numberedPointer_built, rfl, run, allocated, spills, rewritten, real, distinct, names, ?_, ?_⟩
  · rintro (- | ⟨-, - | ⟨-, member⟩⟩)
    exact pointer (.inr (by decide)) member
  · intro q member
    rcases named q member with before | temp
    · exact (known q before).imp_right fun here => List.mem_append_left temps here
    · exact .inr (List.mem_append_right [(⟨6⟩ : VReg), ⟨7⟩] temp)

/-- Selection gives a barrier the pinned register for its fence. -/
theorem pinned_handed : Built unnumberedPin ∧ unnumberedPin.pin? ⟨0⟩ = some 32 ∧ ⟨0⟩ ∉ unnumberedPin.named ∧
    ∃ c log selected, Context.new .gen8 unnumberedPin {} "" = .ok (c, log) ∧ c.select = .ok selected ∧
      ⟨0⟩ ∈ selected.named :=
  ⟨.emitAll (.pin ⟨0⟩ 32 (.new "unnumberedPin" 8)) _, by decide, by decide, _, _, _, rfl, rfl, by decide⟩

/-- After the last number selection starts over, with a register that the kernel names. -/
theorem numbers_wrap : Built lastNumber ∧ ⟨0⟩ ∈ lastNumber.named ∧
    ∃ c log selected, Context.new .gen8 lastNumber {} "" = .ok (c, log) ∧ c.select = .ok selected ∧
      ∃ i ∈ selected.code, i.op = .barrier ∧ i.dst = .vector ⟨0⟩ .ud :=
  ⟨.emitAll (.new "lastNumber" 8) _, by decide, _, _, _, rfl, rfl, by decide⟩

/-- Spill code gives an instruction the stack pointer for its temporary, and allocation fails over it. -/
theorem pointer_handed : Built unnumberedPointer ∧ unnumberedPointer.stackPointer ∉ unnumberedPointer.named ∧
    ∃ s k' e, Sweep.run unnumberedPointer (Liveness.ofKernel unnumberedPointer) threeRegisters 64 0 = .ok s ∧
      unnumberedPointer.insertSpillCode
        ⟨Liveness.ofKernel unnumberedPointer, s.scratch, s.spilled, ⟨32, 64⟩⟩ = .ok k' ∧
      unnumberedPointer.stackPointer ∈ k'.named ∧ Allocation.ofKernel unnumberedPointer threeRegisters = .error e ∧
      e.diagnostic.cause = .placement (.pinHeld ⟨6⟩ 64 unnumberedPointer.stackPointer) := by
  have outcome : (Sweep.run unnumberedPointer (Liveness.ofKernel unnumberedPointer) threeRegisters 64 0).toOption.map
      (fun s => (unnumberedPointer.insertSpillCode
        ⟨Liveness.ofKernel unnumberedPointer, s.scratch, s.spilled, ⟨32, 64⟩⟩).toOption.map fun k' =>
          decide (unnumberedPointer.stackPointer ∈ k'.named)) = some (some true) := by
    simp only [Sweep.run, Sweep.start, Liveness.ofKernel, Placement.sorted_insertion]
    decide +kernel
  have cause : ((Allocation.ofKernel unnumberedPointer threeRegisters).mapError fun e => e.diagnostic.cause).map
      (fun _ => ()) = .error (.placement (.pinHeld ⟨6⟩ 64 unnumberedPointer.stackPointer)) := by
    simp only [Allocation.ofKernel, Allocation.sweep, Allocation.rounds, Allocation.maxRounds, Sweep.run, Sweep.start,
      Liveness.ofKernel, Placement.sorted_insertion]
    decide +kernel
  obtain ⟨s, swept, rest⟩ := toOption_map_some.mp outcome
  obtain ⟨k', inserted, named⟩ := toOption_map_some.mp rest
  obtain ⟨e, failed, cause⟩ := mapError_map_error.mp cause
  exact ⟨.emitAll (.stack 0 ⟨5⟩ 4 (.new "unnumberedPointer" 8)) _, by decide, s, k', e, swept, inserted,
    of_decide_eq_true named, failed, cause⟩

end GpuCodegen.FreshRegisters
