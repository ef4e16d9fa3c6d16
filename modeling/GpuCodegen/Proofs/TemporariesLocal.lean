import GpuCodegen.Proofs.PinConflicts
import GpuCodegen.Proofs.SpillLocality

/-! Temporaries and the next sweep. Two temporaries that stay in their groups never meet at a pin: those of one
group lie apart, and those of two groups are not live together. A loop that takes a reload for a partial
definition breaks this, and the next sweep fails. -/

namespace GpuCodegen.SpillGroups
open Outcome LiveIntervals LivePaths Products Placement

/-- Two members of a packed reserve lie apart. -/
theorem Packed.disjoint {out : Kernel} {reserve : Reserve} {temps : List SpillTemp}
    (packed : Packed out reserve temps) {t u : SpillTemp} (member : t ∈ temps) (member' : u ∈ temps)
    (differs : t ≠ u) {at_ next : UInt32} (pinned : out.pin? t.reg = some at_) (pinned' : out.pin? u.reg = some next) :
    at_.toNat + t.size.toNat ≤ next.toNat ∨ next.toNat + u.size.toNat ≤ at_.toNat := by
  obtain ⟨m, small, rfl⟩ := List.getElem_of_mem member
  obtain ⟨n, small', rfl⟩ := List.getElem_of_mem member'
  rcases Nat.lt_trichotomy m n with less | rfl | more
  · exact .inl (List.pairwise_iff_getElem.mp packed.apart m n small small' less at_ next pinned pinned')
  · exact absurd rfl differs
  · exact .inr (List.pairwise_iff_getElem.mp packed.apart n m small' small more next at_ pinned' pinned)

/-- Intervals that stay in their groups meet only in one group. -/
theorem inGroup_unique {gs : List Group} {p q : Nat} {iv iv' : Interval} (here : InGroup gs p iv)
    (there : InGroup gs q iv') (valid : iv.min ≤ iv.max) (begins : iv'.min ≤ iv.min) (reaches : iv.min ≤ iv'.max) :
    p = q := by
  unfold InGroup at here there
  rcases Nat.lt_trichotomy p q with less | same | more
  · have := groupStart_mono gs (show p + 1 ≤ q from less)
    omega
  · exact same
  · have := groupStart_mono gs (show q + 1 ≤ p from more)
    omega

section
variable {k out : Kernel} {plan : SpillPlan} {gs : List Group}

/-- Two temporaries that stay in their groups do not meet at a pin in a sweep that keeps below the reserve. -/
theorem Stream.no_conflict (stream : Stream k plan out gs) (lives : plan.liveness = Liveness.ofKernel k)
    (sizes : ∀ r iv, plan.liveness.intervalOf? r = some iv → iv.size.toNat + 32 < 4294967296) {p q : Nat}
    {g h : Group} {t u : SpillTemp} (here : gs[p]? = some g) (there : gs[q]? = some h) (member : t ∈ g.temps)
    (member' : u ∈ h.temps) (differs : t.reg ≠ u.reg)
    (inside : ∀ iv, (Liveness.ofKernel out).intervalOf? t.reg = some iv → InGroup gs p iv)
    (inside' : ∀ iv, (Liveness.ofKernel out).intervalOf? u.reg = some iv → InGroup gs q iv)
    (unwrapped : Unwrapped out g.temps) {cfg : SweepConfig} {reserve base : UInt32}
    (below : (cfg.fileSize - reserve).toNat ≤ plan.reserve.data.toNat) {e : Stopped PlacementEvent}
    (failed : Sweep.run out (Liveness.ofKernel out) cfg reserve base = .error e) (offset : UInt32) :
    ¬ Conflict e.diagnostic.cause t.reg u.reg offset := by
  intro conflict
  obtain ⟨iv, found, pinned, taken⟩ := run_conflict failed conflict
  obtain ⟨i, -, faithful⟩ := stream.group here
  have packed := faithful.packed.mp unwrapped
  have slot := stream.temp_slot here member lives sizes found
  have whole := unwrapped t member offset pinned
  have sum : (offset + iv.slot).toNat = offset.toNat + t.size.toNat := by
    rw [slot, FreePool.toNat_add whole]
  rcases taken with ⟨iv', found', begins, reaches, overlap⟩ | window
  · obtain ⟨covers, -⟩ := intervalOf_spec found
    obtain ⟨a, access, named⟩ := covers.used
    obtain ⟨low, high⟩ := covers.within a access named
    have same := inGroup_unique (inside iv found) (inside' iv' found') (Int.le_trans low high) begins reaches
    subst same
    cases here.symm.trans there
    obtain ⟨next, pinned', -⟩ := faithful.pinned u member'
    have slot' := stream.temp_slot here member' lives sizes found'
    have whole' := unwrapped u member' next pinned'
    have sum' : (next + iv'.slot).toNat = next.toNat + u.size.toNat := by
      rw [slot', FreePool.toNat_add whole']
    obtain ⟨low, high⟩ := overlap next pinned'
    rw [UInt32.lt_iff_toNat_lt] at low high
    have apart := packed.disjoint member member' (fun same => differs (congrArg SpillTemp.reg same)) pinned pinned'
    omega
  · obtain ⟨_, -, size, -⟩ := stream.full g (List.mem_of_getElem? here) t member
    have low := (packed.inside t member offset pinned).1
    rw [UInt32.le_iff_toNat_le] at window
    omega

/-- A temporary has an interval, and it stays in its group exactly when no loop disturbs it. -/
theorem Stream.local_iff (stream : Stream k plan out gs) (pointer : k.stackPointer = .none ∨
      k.stackPointer.number.toNat < k.next.toNat) (short : out.code.length ≤ 2147483648) {p : Nat} {g : Group}
    {t : SpillTemp} (here : gs[p]? = some g) (member : t ∈ g.temps) :
    ∃ iv, (Liveness.ofKernel out).intervalOf? t.reg = some iv ∧ (InGroup gs p iv ↔ Undisturbed k p t) := by
  obtain ⟨a, access, -, named⟩ := stream.temp_accessed here member
  obtain ⟨iv, found⟩ := intervalOf_of_access access
  rw [named] at found
  obtain ⟨low, real⟩ := stream.numbers g (List.mem_of_getElem? here) t member
  have other : t.reg ≠ out.stackPointer := by
    intro same
    rcases stream.pointer with kept | none
    · rw [kept] at same
      rcases pointer with none | small
      · exact real (same.trans none)
      · rw [same] at low
        omega
    · exact real (same.trans none)
  exact ⟨iv, found, stream.local_undisturbed here member found,
    stream.undisturbed_local here member other short found⟩

end

section
variable {k k' : Kernel} {cfg : SweepConfig} {held base : UInt32} {s : Sweep} {reserve : Reserve}

/-- A temporary lives in its own group exactly when no loop disturbs it, and no sweep below the reserve fails at a
pin between two temporaries that no loop disturbs. -/
theorem temporaries_local (built : ∀ i ∈ k.code, NamesBelow k.next.toNat i)
    (room : k.next.toNat + (k.code.flatMap Instruction.registers).length < 4294967296)
    (pointer : k.stackPointer = .none ∨ k.stackPointer.number.toNat < k.next.toNat)
    (sizes : ∀ r iv, (Liveness.ofKernel k).intervalOf? r = some iv → iv.size.toNat + 32 < 4294967296)
    (swept : Sweep.run k (Liveness.ofKernel k) cfg held base = .ok s)
    (inserted : k.insertSpillCode ⟨Liveness.ofKernel k, s.scratch, s.spilled, reserve⟩ = .ok k')
    (short : k'.code.length ≤ 2147483648) :
    ∃ gs, Insertion k ⟨Liveness.ofKernel k, s.scratch, s.spilled, reserve⟩ k' gs ∧
      (∀ p g t, gs[p]? = some g → t ∈ g.temps →
        ∃ iv, (Liveness.ofKernel k').intervalOf? t.reg = some iv ∧ (InGroup gs p iv ↔ Undisturbed k p t)) ∧
      ∀ p q g h t u, gs[p]? = some g → gs[q]? = some h → t ∈ g.temps → u ∈ h.temps → t.reg ≠ u.reg →
        Undisturbed k p t → Undisturbed k q u → Unwrapped k' g.temps →
        ∀ cfg' held' base' e offset, (SweepConfig.fileSize cfg' - held').toNat ≤ reserve.data.toNat →
          Sweep.run k' (Liveness.ofKernel k') cfg' held' base' = .error e →
          ¬ Conflict e.diagnostic.cause t.reg u.reg offset := by
  obtain ⟨gs, stream⟩ := spillCode_stream built room swept inserted
  have inside {p : Nat} {g : Group} {t : SpillTemp} (here : gs[p]? = some g) (member : t ∈ g.temps)
      (undisturbed : Undisturbed k p t) (iv : Interval)
      (found : (Liveness.ofKernel k').intervalOf? t.reg = some iv) : InGroup gs p iv := by
    obtain ⟨iv', known, iff⟩ := stream.local_iff pointer short here member
    cases known.symm.trans found
    exact iff.mpr undisturbed
  refine ⟨gs, stream.toInsertion, fun p g t here member => stream.local_iff pointer short here member, ?_⟩
  intro p q g h t u here there member member' differs undisturbed undisturbed' unwrapped cfg' held' base' e offset
    below failed
  exact stream.no_conflict rfl sizes here there member member' differs (inside here member undisturbed)
    (inside there member' undisturbed') unwrapped below failed offset

end

/-- Three registers set and compared in a loop. -/
def circling (width : Int) : Kernel := Kernel.emitAll { name := "circling", simdWidth := width }
  [{ op := .label, label := 0 },
    { op := .mov, dst := .vector ⟨0⟩ .ud, src := [.immediate .ud 1 false false] },
    { op := .mov, dst := .vector ⟨1⟩ .ud, src := [.immediate .ud 2 false false] },
    { op := .mov, dst := .vector ⟨2⟩ .ud, src := [.immediate .ud 3 false false] },
    { op := .compare, src := [.vector ⟨0⟩ .ud, .immediate .ud 0 false false], condition := .eq },
    { op := .compare, src := [.vector ⟨1⟩ .ud, .immediate .ud 0 false false], condition := .eq },
    { op := .compare, src := [.vector ⟨2⟩ .ud, .immediate .ud 0 false false], condition := .eq },
    { op := .jump, label := 0, predicated := true },
    { op := .endThread }]

/-- Eight lanes are one vector, so the loop disturbs no temporary. -/
theorem temporaries_local_circling : ∃ s k',
    Sweep.run (circling 8) (Liveness.ofKernel (circling 8)) ⟨96, 0, true, .longest, 0⟩ 64 0 = .ok s ∧
    s.spilled = [⟨1⟩, ⟨2⟩] ∧
    (circling 8).insertSpillCode ⟨Liveness.ofKernel (circling 8), s.scratch, s.spilled, ⟨32, 64⟩⟩ = .ok k' ∧
    (circling 8).loops = [⟨0, 7⟩] ∧
    ∃ gs, Insertion (circling 8) ⟨Liveness.ofKernel (circling 8), s.scratch, s.spilled, ⟨32, 64⟩⟩ k' gs ∧
      ∀ p g t, gs[p]? = some g → t ∈ g.temps → 0 < p →
        ∃ iv, (Liveness.ofKernel k').intervalOf? t.reg = some iv ∧ InGroup gs p iv := by
  have outcome : (Sweep.run (circling 8) (Liveness.ofKernel (circling 8)) ⟨96, 0, true, .longest, 0⟩ 64 0).toOption.map
      (fun s => (s.spilled, ((circling 8).insertSpillCode
        ⟨Liveness.ofKernel (circling 8), s.scratch, s.spilled, ⟨32, 64⟩⟩).toOption.map fun k' => k'.code.length)) =
      some ([⟨1⟩, ⟨2⟩], some 13) := by
    simp only [Sweep.run, Sweep.start, Liveness.ofKernel, sorted_insertion]
    decide +kernel
  obtain ⟨s, swept, rest⟩ := toOption_map_some.mp outcome
  obtain ⟨spilled, written⟩ := Prod.mk.inj rest
  obtain ⟨k', inserted, length⟩ := toOption_map_some.mp written
  have built : ∀ i ∈ (circling 8).code, NamesBelow (circling 8).next.toNat i :=
    emitAll_names _ fun _ none => by cases none
  have sizes : ∀ iv ∈ (Liveness.ofKernel (circling 8)).store.intervals, iv.size = 32 := by
    decide +kernel
  have only : (circling 8).loops = [⟨0, 7⟩] := by decide +kernel
  obtain ⟨gs, insertion, iff, -⟩ := temporaries_local built (by decide +kernel) (.inl rfl)
    (fun r iv found => by rw [sizes iv (mem_of_intervalOf found)]; decide) swept inserted (by omega)
  refine ⟨s, k', swept, spilled, inserted, only, gs, insertion, fun p g t here member after => ?_⟩
  obtain ⟨iv, found, inside⟩ := iff p g t here member
  refine ⟨iv, found, inside.mpr fun _ l loop _ _ => ?_⟩
  obtain ⟨owner, known, size, -⟩ := insertion.full g (List.mem_of_getElem? here) t member
  rw [sizes owner (mem_of_intervalOf known)] at size
  rw [only, List.mem_singleton] at loop
  subst loop
  exact ⟨after, by decide, size.le⟩

/-- Sixteen lanes are two vectors, and a reload writes one. The reloads of the last two temporaries count as
partial definitions, so both temporaries live all over the loop, and the next sweep cannot put them at one place. -/
theorem temporaries_disturbed : ∃ s k' e,
    Sweep.run (circling 16) (Liveness.ofKernel (circling 16)) ⟨160, 0, true, .longest, 0⟩ 96 0 = .ok s ∧
    (circling 16).insertSpillCode ⟨Liveness.ofKernel (circling 16), s.scratch, s.spilled, ⟨64, 96⟩⟩ = .ok k' ∧
    (circling 16).next = 3 ∧
    (((Liveness.ofKernel k').intervalOf? ⟨5⟩).map fun iv => (iv.min, iv.max)) = some (0, 11) ∧
    (((Liveness.ofKernel k').intervalOf? ⟨6⟩).map fun iv => (iv.min, iv.max)) = some (0, 11) ∧
    Allocation.ofKernel (circling 16) ⟨160, 0, true, .longest, 0⟩ = .error e ∧
    e.diagnostic.cause = .placement (.pinHeld ⟨6⟩ 96 ⟨5⟩) := by
  have outcome :
      (Sweep.run (circling 16) (Liveness.ofKernel (circling 16)) ⟨160, 0, true, .longest, 0⟩ 96 0).toOption.map
      (fun s => ((circling 16).insertSpillCode
        ⟨Liveness.ofKernel (circling 16), s.scratch, s.spilled, ⟨64, 96⟩⟩).toOption.map fun k' =>
          (((Liveness.ofKernel k').intervalOf? ⟨5⟩).map fun iv => (iv.min, iv.max),
            ((Liveness.ofKernel k').intervalOf? ⟨6⟩).map fun iv => (iv.min, iv.max))) =
      some (some (some (0, 11), some (0, 11))) := by
    simp only [Sweep.run, Sweep.start, Liveness.ofKernel, sorted_insertion]
    decide +kernel
  obtain ⟨s, swept, rest⟩ := toOption_map_some.mp outcome
  obtain ⟨k', inserted, parts⟩ := toOption_map_some.mp rest
  obtain ⟨first, second⟩ := Prod.mk.inj parts
  have cause : ((Allocation.ofKernel (circling 16) ⟨160, 0, true, .longest, 0⟩).mapError fun e =>
      e.diagnostic.cause).map (fun _ => ()) = .error (.placement (.pinHeld ⟨6⟩ 96 ⟨5⟩)) := by
    simp only [Allocation.ofKernel, Allocation.sweep, Allocation.rounds, Allocation.maxRounds, Sweep.run, Sweep.start,
      Liveness.ofKernel, sorted_insertion]
    decide +kernel
  obtain ⟨e, failed, cause⟩ := mapError_map_error.mp cause
  exact ⟨s, k', e, swept, inserted, by decide +kernel, first, second, failed, cause⟩

end GpuCodegen.SpillGroups
