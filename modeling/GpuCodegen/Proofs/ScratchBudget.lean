import GpuCodegen.Proofs.ScratchSlots
import GpuCodegen.Proofs.SelectionPrograms

/-! Rounding scratch sizes to what a generation can program, and the budget of a device. A rounded size is
the least one that can be programmed, and a device's budget can be programmed as it stands; so what fits
the budget does so after rounding as well. Allocation keeps to the budget spill by spill, which leaves
compilation nothing to complain about afterwards. -/

namespace GpuCodegen.ScratchBudget
open Failures Outcome

/-! ## Rounding -/

/-- The doubling of a size while it is below another, which ends with a size. -/
inductive Doubles (size : UInt32) : UInt32 → UInt32 → Prop where
  | reached {aligned : UInt32} : ¬ aligned < size → Doubles size aligned aligned
  | double {aligned result : UInt32} : aligned < size → Doubles size (aligned * 2) result →
      Doubles size aligned result

/-- The sizes besides zero that a generation can program. -/
def Granular (g : Generation) (n : Nat) : Prop :=
  if g.number ≤ Generation.gen7.number then 1024 ∣ n else 1024 ≤ n ∧ ∃ e, n = 2 ^ e

/-- The scratch sizes that a generation can program. -/
def Admissible (g : Generation) (size : UInt32) : Prop := size = 0 ∨ Granular g size.toNat

/-- The least size not below a given one that a generation can program. -/
structure Rounded (g : Generation) (size result : UInt32) : Prop where
  admissible : Admissible g result
  above : size ≤ result
  least : ∀ other, Admissible g other → size ≤ other → result ≤ other

theorem clearLow (v : UInt32) : (v &&& ~~~(kib - 1)).toNat = v.toNat / 1024 * 1024 := by
  have mask : ~~~(kib - 1) = 4294966272 := by decide
  have high : UInt32.toNat 4294966272 = (2 ^ 22 - 1) <<< 10 := by decide
  have shifted : v.toNat / 1024 * 1024 = v.toNat >>> 10 <<< 10 := by
    rw [Nat.shiftRight_eq_div_pow, Nat.shiftLeft_eq]
  rw [mask, UInt32.toNat_and, high, shifted]
  refine Nat.eq_of_testBit_eq fun bit => ?_
  rw [Nat.testBit_and, Nat.testBit_shiftLeft, Nat.testBit_shiftLeft, Nat.testBit_two_pow_sub_one,
    Nat.testBit_shiftRight]
  by_cases low : bit < 10
  · have below : decide (bit ≥ 10) = false := decide_eq_false (by omega)
    rw [below, Bool.false_and, Bool.and_false, Bool.false_and]
  · have back : 10 + (bit - 10) = bit := by omega
    rw [back, decide_eq_true (by omega : bit ≥ 10), Bool.true_and, Bool.true_and]
    by_cases small : bit < 32
    · rw [decide_eq_true (by omega : bit - 10 < 22), Bool.and_true]
    · have beyond : v.toNat < 2 ^ bit :=
        Nat.lt_of_lt_of_le v.toNat_lt (Nat.pow_le_pow_right (by decide) (by omega))
      rw [Nat.testBit_lt_two_pow beyond, Bool.false_and]

/-- From a power of two, doubling ends with the least power of two not below the size, if one is within reach. -/
theorem doubleUntil_least {size : UInt32} (steps : Nat) {e : Nat} {aligned : UInt32} (start : aligned.toNat = 2 ^ e)
    (fits : e + steps < 32) (reach : size.toNat ≤ 2 ^ (e + steps)) :
    Doubles size aligned (Generation.doubleUntil size steps aligned) ∧
      ∃ f, e ≤ f ∧ (Generation.doubleUntil size steps aligned).toNat = 2 ^ f ∧ size.toNat ≤ 2 ^ f ∧
        ∀ h, e ≤ h → size.toNat ≤ 2 ^ h → f ≤ h := by
  have settled : aligned < size ↔ 2 ^ e < size.toNat := by rw [UInt32.lt_iff_toNat_lt, start]
  induction steps generalizing e aligned with
  | zero =>
    have enough : ¬ aligned < size := fun below => Nat.not_lt.mpr reach (settled.mp below)
    exact ⟨.reached enough, e, Nat.le_refl _, start, reach, fun h above _ => above⟩
  | succ steps ih =>
    rw [Generation.doubleUntil]
    split
    · rename_i below
      have doubled : (aligned * 2).toNat = 2 ^ (e + 1) := by
        rw [UInt32.toNat_mul, start, Nat.pow_succ]
        exact Nat.mod_eq_of_lt (Nat.pow_lt_pow_right (by decide : 1 < 2) (by omega : e + 1 < 32))
      have next : e + 1 + steps = e + (steps + 1) := by omega
      obtain ⟨stops, f, above, power, reached, least⟩ :=
        ih doubled (by omega) (by rwa [next]) (by rw [UInt32.lt_iff_toNat_lt, doubled])
      refine ⟨.double below stops, f, by omega, power, reached, fun h under enough => least h ?_ enough⟩
      have apart : e ≠ h := by
        rintro rfl
        exact Nat.not_lt.mpr enough (settled.mp below)
      omega
    · rename_i enough
      exact ⟨.reached enough, e, Nat.le_refl _, start, Nat.not_lt.mp (mt settled.mpr enough),
        fun h above _ => above⟩

section
variable {g : Generation} {size : UInt32}

/-- Above zero only the granular sizes count. -/
theorem rounded_of_granular {result : UInt32} (some : size ≠ 0) (granular : Granular g result.toNat)
    (above : size.toNat ≤ result.toNat)
    (least : ∀ n, Granular g n → size.toNat ≤ n → result.toNat ≤ n) : Rounded g size result := by
  refine ⟨.inr granular, UInt32.le_iff_toNat_le.mpr above, fun other admissible covers => ?_⟩
  rw [UInt32.le_iff_toNat_le] at covers ⊢
  rcases admissible with rfl | granular
  · exact absurd (UInt32.toNat_inj.mp (Nat.le_zero.mp covers)) some
  · exact least _ granular covers

/-- Up to Ivy Bridge the low bits of the size plus one kibibyte less one byte are cleared. -/
theorem cleared_rounded (early : g.number ≤ Generation.gen7.number) (some : size ≠ 0)
    (fits : size.toNat ≤ 2 ^ 31) :
    Rounded g size ((size + kib - 1) &&& ~~~(kib - 1)) := by
  have sum : (size + kib - 1).toNat = size.toNat + 1023 := by
    have one : size + kib - 1 = size + 1023 := by
      rw [UInt32.sub_eq_add_neg, UInt32.add_assoc]
      rfl
    have small : size.toNat + 1023 < 2 ^ 32 := by omega
    rw [one, UInt32.toNat_add]
    exact Nat.mod_eq_of_lt small
  have result := clearLow (size + kib - 1)
  rw [sum] at result
  refine rounded_of_granular some ?_ (by omega) fun n multiple above => ?_
  · rw [Granular, if_pos early, result]
    exact Nat.dvd_mul_left _ _
  · rw [Granular, if_pos early] at multiple
    omega

/-- From Haswell on the size is reached by doubling. -/
theorem doubled_rounded (late : ¬ g.number ≤ Generation.gen7.number) (some : size ≠ 0)
    (fits : size.toNat ≤ 2 ^ 31) :
    Rounded g size (Generation.doubleUntil size 21 kib) := by
  obtain ⟨-, f, above, power, reached, least⟩ :=
    @doubleUntil_least size 21 10 kib rfl (by decide) fits
  refine rounded_of_granular some ?_ (by omega) fun n granular covers => ?_
  · rw [Granular, if_neg late, power]
    exact ⟨Nat.pow_le_pow_right (by decide : 2 > 0) above, f, rfl⟩
  · rw [Granular, if_neg late] at granular
    obtain ⟨large, h, rfl⟩ := granular
    have reaches : 10 ≤ h := (Nat.pow_le_pow_iff_right (by decide : 1 < 2)).mp large
    rw [power]
    exact Nat.pow_le_pow_right (by decide) (least h reaches covers)

/-- Rounding gives the least size that can be programmed. -/
theorem alignScratch_rounded (g : Generation) (fits : size.toNat ≤ 2 ^ 31) :
    Rounded g size (g.alignScratch size) := by
  unfold Generation.alignScratch
  split
  · rename_i none
    subst none
    exact ⟨.inl rfl, UInt32.le_refl _, fun other _ above => above⟩
  · rename_i some
    split
    · rename_i early
      exact cleared_rounded early some fits
    · rename_i late
      exact doubled_rounded late some fits

end

/-- A size that can be programmed is left as it is. -/
theorem Rounded.same {g : Generation} {size result : UInt32} (rounded : Rounded g size result)
    (admissible : Admissible g size) : result = size :=
  UInt32.le_antisymm (rounded.least size admissible (UInt32.le_refl _)) rounded.above

theorem Rounded.mono {g : Generation} {size other result result' : UInt32} (rounded : Rounded g size result)
    (rounded' : Rounded g other result') (less : size ≤ other) : result ≤ result' :=
  rounded.least result' rounded'.admissible (UInt32.le_trans less rounded'.above)

/-! ## The budget -/

/-- Causes other than scratch memory beyond a device's budget. -/
def WithinBudget (c : Cause) : Prop :=
  ∀ scratch budget device, c ≠ .placement (.scratchBudget scratch budget device)

theorem withinBudget_covers : Covers WithinBudget where
  encoding _ _ := by rintro _ _ _ ⟨⟩
  unimplemented _ := by rintro _ _ _ ⟨⟩

theorem placeless_within {c : Cause} (placeless : Select.Placeless c) : WithinBudget c :=
  fun _ _ _ => placeless _

theorem select_within (c : Context) : Encodes WithinBudget c.select := by
  have pointers : Encodes WithinBudget (Select.checkPointers c) := by
    unfold Select.checkPointers
    repeat' split
    all_goals first | exact .ok _ | exact .error (by rintro _ _ _ ⟨⟩)
  refine .bind pointers fun _ _ => .bind (fun e failed => ?_) fun _ _ => .pure _
  have start : { c.kernel.cloneEmpty with simdWidth := c.simdWidth }.stackPointer ∈
      c.kernel.stackPointer :: c.kernel.named := List.mem_cons_self
  exact placeless_within ((Select.Program.all c).placeless start e failed)

section
variable (k : Kernel) (lv : Liveness) (cfg : SweepConfig)

theorem spill_within (s : Sweep) (n : Nat) : FailsWith WithinBudget stoppedCause (s.spill lv cfg n) :=
  .ite (fun _ => .error (by rintro _ _ _ ⟨⟩)) fun _ => .ok _

theorem placeOrSpill_within (n : Nat) (avoid : Option Nat) (fuel : Nat) (s : Sweep) :
    FailsWith WithinBudget stoppedCause (Sweep.placeOrSpill k lv cfg n avoid fuel s) := by
  induction fuel generalizing s with
  | zero =>
    unfold Sweep.placeOrSpill
    dsimp only
    split
    · exact .ok _
    · exact .ite (fun _ => .error (by rintro _ _ _ ⟨⟩)) fun _ => spill_within lv cfg s n
  | succ fuel ih =>
    unfold Sweep.placeOrSpill
    dsimp only
    split
    · exact .ok _
    · refine .ite (fun _ => .error (by rintro _ _ _ ⟨⟩)) fun _ => ?_
      cases s.victim? k (s.store.get n) with
      | none => exact spill_within lv cfg s n
      | some v =>
        dsimp only
        cases spilled : s.spill lv cfg v with
        | error e => exact .error (spill_within lv cfg s v e spilled)
        | ok t => exact ih t

theorem placePinned_within (s : Sweep) (n : Nat) (offset : UInt32) :
    FailsWith WithinBudget stoppedCause (s.placePinned n offset) := by
  have conflict (iv : Interval) : WithinBudget (s.pinConflict iv offset).cause := by
    unfold Sweep.pinConflict
    split
    · rintro _ _ _ ⟨⟩
    · split <;> rintro _ _ _ ⟨⟩
  refine .ite (fun _ => ?_) fun _ => .ite (fun _ => .error (conflict _)) fun _ => .ok _
  split
  · exact .ok _
  · exact .error (conflict _)

theorem visit_within (s : Sweep) (n : Nat) : FailsWith WithinBudget stoppedCause (Sweep.visit k lv cfg s n) := by
  refine .ite (fun _ => .ok _) fun _ => ?_
  unfold Sweep.place
  dsimp only
  split
  · exact placePinned_within _ n _
  · refine .ite (fun _ => .error (by rintro _ _ _ ⟨⟩)) fun _ => ?_
    split
    · exact .ok _
    · exact placeOrSpill_within k lv cfg n _ _ _

theorem sweep_within (reserve base : UInt32) (log : List AllocationEvent) :
    FailsWith WithinBudget stoppedCause (Allocation.sweep k lv cfg reserve base log) := by
  have run : FailsWith WithinBudget stoppedCause (Sweep.run k lv cfg reserve base) :=
    .ite (fun _ => .error (by rintro _ _ _ ⟨⟩)) fun _ => .foldlM (visit_within k lv cfg) _ _
  unfold Allocation.sweep
  cases swept : Sweep.run k lv cfg reserve base with
  | error e => exact .error (run e swept)
  | ok s => exact .ok _

theorem insertSpillCode_within (plan : SpillPlan) : Encodes WithinBudget (k.insertSpillCode plan) := by
  have temp (position : Nat) (s : TempState) (r : VReg) (reload store : Bool) :
      Encodes WithinBudget (TempState.newTemp plan position s r reload store) :=
    .ite (fun _ => .error (by rintro _ _ _ ⟨⟩)) fun _ => .ok _
  have source (position : Nat) (s : TempState) (o : Operand) :
      Encodes WithinBudget (TempState.source plan position s o) := by
    unfold TempState.source
    split
    · exact .ok _
    · refine .ite (fun _ => ?_) fun _ => .ok _
      split
      · exact .ok _
      · exact temp position s _ true false
  have destination (position : Nat) (i : Instruction) (s : TempState) :
      Encodes WithinBudget (k.spilledDestination plan position i s) := by
    unfold Kernel.spilledDestination
    split
    · exact .ok _
    · refine .ite (fun _ => ?_) fun _ => .ok _
      exact .ite (fun _ => .error (by rintro _ _ _ ⟨⟩)) fun _ => temp position s _ _ true
  exact .foldlM (fun out entry => .bind (.bind (destination _ _ _) fun _ _ => .foldlM (source _) _ _) fun _ _ =>
    .pure _) _ _

theorem rounds_within (reserve : Reserve) (n : Nat) (k : Kernel) (lv : Liveness) (scratch : UInt32) (spills : Nat)
    (last : VReg) (log : List AllocationEvent) :
    FailsWith WithinBudget stoppedCause (Allocation.rounds cfg reserve n k lv scratch spills last log) := by
  induction n generalizing k lv scratch spills last log with
  | zero => exact .error (by rintro _ _ _ ⟨⟩)
  | succ n ih =>
    refine .bind (sweep_within k lv cfg _ _ _) fun r _ => ?_
    obtain ⟨s, log⟩ := r
    dsimp only
    cases s.spilled with
    | nil => exact .pure _
    | cons first others =>
      dsimp only
      cases inserted : k.insertSpillCode ⟨lv, s.scratch, first :: others, reserve⟩ with
      | error d => exact .throw (insertSpillCode_within k _ d inserted)
      | ok k' => exact ih k' _ _ _ _ _

/-- Allocation has complaints of its own about scratch memory, spill by spill, but none about the budget. -/
theorem ofKernel_within : FailsWith WithinBudget stoppedCause (Allocation.ofKernel k cfg) := by
  refine .bind (sweep_within k _ cfg _ _ _) fun r _ => ?_
  obtain ⟨s, log⟩ := r
  dsimp only
  cases s.spilled with
  | nil => exact .pure _
  | cons first others => exact rounds_within cfg _ _ k _ _ _ _ _

end

theorem emit_within (c : Context) (a : Allocation) : FailsWith WithinBudget stoppedCause (c.emit a) :=
  emit_fails withinBudget_covers c a fun i _ _ =>
    ⟨instruction_fails withinBudget_covers (fun _ _ => by rintro _ _ _ ⟨⟩) rfl i,
      fun j _ => typed_unsupported (fun _ _ => by rintro _ _ _ ⟨⟩) c.generation j.command⟩

/-! ## Devices -/

section
variable {g : Generation} {d : Device} (device : Device.ofGeneration? g = some d)
include device

/-- Every device's budget is a size that its generation can program, and not none. -/
theorem budget_granular : Granular g d.scratchPerThread.toNat ∧ d.scratchPerThread ≠ 0 ∧
    d.scratchPerThread.toNat ≤ 2 ^ 31 := by
  have early (number : g.number ≤ Generation.gen7.number) (scratch : d.scratchPerThread = 12 * kib) :
      Granular g d.scratchPerThread.toNat ∧ d.scratchPerThread ≠ 0 ∧ d.scratchPerThread.toNat ≤ 2 ^ 31 := by
    rw [scratch, Granular, if_pos number]
    exact ⟨⟨12, rfl⟩, by decide, by decide⟩
  have late (number : ¬ g.number ≤ Generation.gen7.number) (scratch : d.scratchPerThread = 2048 * kib) :
      Granular g d.scratchPerThread.toNat ∧ d.scratchPerThread ≠ 0 ∧ d.scratchPerThread.toNat ≤ 2 ^ 31 := by
    rw [scratch, Granular, if_neg number]
    exact ⟨⟨by decide, 21, rfl⟩, by decide, by decide⟩
  cases g with
  | gen6 | gen7 =>
    cases device
    exact early (by decide) rfl
  | gen75 | gen8 | chv | gen9 | bxt | kbl | glk =>
    cases device
    exact late (by decide) rfl
  | unlisted n => cases device

/-- What fits a device's budget fits it after rounding. -/
theorem alignScratch_fits {size : UInt32} (fits : size ≤ d.scratchPerThread) :
    Rounded g size (g.alignScratch size) ∧ g.alignScratch size ≤ d.scratchPerThread := by
  obtain ⟨granular, -, small⟩ := budget_granular device
  have rounded := alignScratch_rounded g (Nat.le_trans (UInt32.le_iff_toNat_le.mp fits) small)
  exact ⟨rounded, rounded.least _ (.inr granular) fits⟩

end

/-- A context has the device of its generation. -/
theorem new_device {g : Generation} {k : Kernel} {settings : Settings} {variant : String} {c : Context}
    {log : List CompileEvent} (created : Context.new g k settings variant = .ok (c, log)) :
    Device.ofGeneration? c.generation = some c.device := by
  unfold Context.new at created
  split at created
  · cases created
  · cases created
  · rename_i known
    dsimp only at created
    generalize (if settings.simdWidth ≠ 0 then settings.simdWidth else k.simdWidth) = asked at created
    split at created
    · cases created
    · split at created
      · cases created
      · cases created
        exact known

/-- After allocation the rounded scratch size is within the budget of the context's device. -/
theorem allocated_fits {c : Context} (device : Device.ofGeneration? c.generation = some c.device) {k : Kernel}
    {r : Allocation × List AllocationEvent} (allocated : Allocation.ofKernel k c.sweepConfig = .ok r) :
    c.generation.alignScratch r.1.scratchSize ≤ c.device.scratchPerThread :=
  (alignScratch_fits device (Placement.scratchSize_limited (budget_granular device).2.1 allocated)).2

theorem compile_within {c : Context} (device : Device.ofGeneration? c.generation = some c.device)
    (log : List CompileEvent) : FailsWith WithinBudget stoppedCause (c.compile log) := by
  unfold Context.compile
  refine .bind (.mapError (fun _ => rfl) (select_within c)) fun selected _ => ?_
  refine .bind (.mapError (fun _ => rfl) (ofKernel_within selected _)) fun r allocated => ?_
  have fits := allocated_fits device (mapError_ok.mp allocated)
  refine .refuse (fun exceeded => absurd exceeded (UInt32.not_lt.mpr fits)) fun _ => ?_
  exact .bind (.mapError (fun _ => rfl) (emit_within c _)) fun _ _ => .pure _

theorem kernel_within (k : Kernel) (g : Generation) (settings : Settings) (variant : String) :
    FailsWith WithinBudget stoppedCause (k.compile g settings variant) := by
  have listed : Encodes WithinBudget (Device.ofGeneration g) := by
    unfold Device.ofGeneration
    split
    · exact .ok _
    · exact .error (by rintro _ _ _ ⟨⟩)
  have flavored : Encodes WithinBudget (Flavor.ofGeneration g) := by
    unfold Flavor.ofGeneration
    split
    · exact .ok _
    · exact .error (by rintro _ _ _ ⟨⟩)
  have created : FailsWith WithinBudget stoppedCause (Context.new g k settings variant) := by
    unfold Context.new
    split
    · rename_i unflavored
      exact .error (flavored _ unflavored)
    · exact .error (by rintro _ _ _ ⟨⟩)
    · refine .ite (fun _ => .error (by rintro _ _ _ ⟨⟩)) fun _ => ?_
      exact .ite (fun _ => .error (by rintro _ _ _ ⟨⟩)) fun _ => .ok _
  exact .bind (.mapError (fun _ => rfl) listed) fun _ _ => .bind created fun r made =>
    compile_within (new_device made) r.2

/-- Rounding a scratch size within the budget of a generation's device ends, with the least size that can be
programmed; it changes no such size, keeps the order and stays within the budget. So the scratch size of an
allocation is within the budget after rounding, and no compilation fails because it exceeded the budget. -/
theorem rounding_keeps_budget {g : Generation} {d : Device} (device : Device.ofGeneration? g = some d) :
    (∀ size ≤ d.scratchPerThread,
      (size ≠ 0 → Generation.gen7.number < g.number → Doubles size kib (g.alignScratch size)) ∧
      Rounded g size (g.alignScratch size) ∧
      g.alignScratch (g.alignScratch size) = g.alignScratch size ∧
      g.alignScratch size ≤ d.scratchPerThread) ∧
    (∀ size other, size ≤ other → other ≤ d.scratchPerThread →
      g.alignScratch size ≤ g.alignScratch other) ∧
    ∀ (k : Kernel) (settings : Settings) (variant : String),
      (∀ c log selected r, Context.new g k settings variant = .ok (c, log) →
        Allocation.ofKernel selected c.sweepConfig = .ok r →
        c.generation.alignScratch r.1.scratchSize ≤ c.device.scratchPerThread) ∧
      ∀ e, k.compile g settings variant = .error e → ∀ scratch budget name,
        e.diagnostic.cause ≠ .placement (.scratchBudget scratch budget name) := by
  obtain ⟨-, -, small⟩ := budget_granular device
  refine ⟨fun size fits => ?_, fun size other less fits => ?_, fun k settings variant => ⟨?_, ?_⟩⟩
  · obtain ⟨rounded, within⟩ := alignScratch_fits device fits
    obtain ⟨again, -⟩ := alignScratch_fits device within
    refine ⟨fun some late => ?_, rounded, again.same rounded.admissible, within⟩
    rw [Generation.alignScratch, if_neg some, if_neg (Int.not_le.mpr late)]
    exact (@doubleUntil_least size 21 10 kib rfl (by decide)
      (Nat.le_trans (UInt32.le_iff_toNat_le.mp fits) small)).1
  · exact (alignScratch_fits device (UInt32.le_trans less fits)).1.mono (alignScratch_fits device fits).1 less
  · intro c log selected r created allocated
    exact allocated_fits (new_device created) allocated
  · exact kernel_within k g settings variant

/-- A megabyte and a half per thread is rounded to two on Haswell, which is its budget. -/
theorem rounding_keeps_budget_haswell : ∃ d, Device.ofGeneration? .gen75 = some d ∧
    1536 * kib ≤ d.scratchPerThread ∧ Doubles (1536 * kib) kib (2048 * kib) ∧
    Rounded .gen75 (1536 * kib) (2048 * kib) ∧ 2048 * kib ≤ d.scratchPerThread := by
  have fits : 1536 * kib ≤ 2048 * kib := by decide
  have rounds : Generation.gen75.alignScratch (1536 * kib) = 2048 * kib := by decide
  obtain ⟨ends, rounded, -, within⟩ := (@rounding_keeps_budget .gen75 _ rfl).1 (1536 * kib) fits
  rw [rounds] at ends rounded within
  exact ⟨_, rfl, fits, ends (by decide) (by decide), rounded, within⟩

end GpuCodegen.ScratchBudget
