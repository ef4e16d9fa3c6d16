import GpuCodegen.Proofs.RegistersAccounted
import GpuCodegen.Proofs.SpillGroups

/-! Where registers start. The pool is searched in steps of the alignment and a hole is borrowed only at a
multiple of it, so every register without a pin is aligned: one of whole general registers starts where a general
register does, an operand of a three-source instruction starts a half of one, and a smaller register stays in one
general register. -/

namespace GpuCodegen.FreePool

/-- Rounding up gives a multiple also where it wraps, as an alignment divides the size of the address space. -/
theorem alignUp_dvd (v : UInt32) {align : UInt32} (whole : align.toNat ∣ 32) :
    align.toNat ∣ (alignUp v align).toNat := by
  unfold alignUp
  rw [UInt32.toNat_mul]
  refine (Nat.dvd_mod_iff ?_).mpr (Nat.dvd_mul_left _ _)
  exact Nat.dvd_trans whole (by decide)

theorem findFrom_aligned {stop size align start offset : UInt32} {avoid : Option Nat} {steps : Nat}
    (whole : align.toNat ∣ 32) (aligned : align.toNat ∣ start.toNat)
    (found : findFrom stop size align avoid steps start = some offset) : align.toNat ∣ offset.toNat := by
  induction steps generalizing start with
  | zero => cases found
  | succ steps ih =>
    unfold findFrom at found
    split at found
    · split at found
      · cases found
        exact aligned
      · exact ih (alignUp_dvd _ whole) found
    · cases found

theorem allocate_aligned {p p' : FreePool} {size align offset : UInt32} {avoid : Option Nat}
    (whole : align.toNat ∣ 32) (found : p.allocate size align avoid = some (offset, p')) :
    align.toNat ∣ offset.toNat := by
  obtain ⟨⟨_, found⟩, -⟩ := allocate_find found
  obtain ⟨b, -, found⟩ := List.exists_of_findSome?_eq_some found
  exact findFrom_aligned whole (alignUp_dvd _ whole) found

end GpuCodegen.FreePool

namespace GpuCodegen.Placement
open LiveIntervals Outcome

/-! ## Slots and alignments -/

/-- A slot divides a general register or takes at least one. -/
theorem slotSize_cases {size : UInt32} (small : size.toNat + 32 < 4294967296) :
    slotSize size ∈ [1, 2, 4, 8, 16] ∨ 32 ≤ (slotSize size).toNat := by
  by_cases large : 32 ≤ size.toNat
  · exact .inr (large.trans (size_le_slotSize small))
  · have each : ∀ n : Fin 32, slotSize (UInt32.ofNat n) ∈ [1, 2, 4, 8, 16] ∨
        32 ≤ (slotSize (UInt32.ofNat n)).toNat := by decide
    have here := each ⟨size.toNat, Nat.not_le.mp large⟩
    rwa [UInt32.ofNat_toNat] at here

/-- What an alignment is good for: it divides a general register, a slot within one divides it, one of whole
general registers has theirs, and a three-source operand has half of it at least. -/
structure AlignsSlot (iv : Interval) : Prop where
  whole : iv.alignment.toNat ∣ 32
  within : iv.slot.toNat < 32 → iv.slot.toNat ∣ iv.alignment.toNat
  row : 32 ≤ iv.slot.toNat → iv.alignment.toNat = 32
  half : iv.triple = true → 16 ∣ iv.alignment.toNat

theorem alignment_alignsSlot {iv : Interval} (small : iv.size.toNat + 32 < 4294967296) : AlignsSlot iv := by
  rcases slotSize_cases small with listed | large
  · change iv.slot ∈ _ at listed
    simp only [List.mem_cons, List.not_mem_nil, or_false] at listed
    have each : ∀ slot : UInt32, slot = 1 ∨ slot = 2 ∨ slot = 4 ∨ slot = 8 ∨ slot = 16 → ∀ triple : Bool,
        (if triple ∧ slot < 16 then 16 else slot : UInt32).toNat ∣ 32 ∧
        slot.toNat ∣ (if triple ∧ slot < 16 then 16 else slot : UInt32).toNat ∧ slot.toNat < 32 ∧ slot < 32 ∧
        (triple = true → 16 ∣ (if triple ∧ slot < 16 then 16 else slot : UInt32).toNat) := by
      rintro slot (rfl | rfl | rfl | rfl | rfl) (_ | _) <;> decide
    obtain ⟨whole, within, less, below, half⟩ := each iv.slot listed iv.triple
    have shape : iv.alignment = if iv.triple ∧ iv.slot < 16 then 16 else iv.slot := by
      unfold Interval.alignment
      rw [if_pos below]
    rw [← shape] at whole within half
    exact ⟨whole, fun _ => within, fun most => absurd less (Nat.not_lt.mpr most), half⟩
  · change 32 ≤ iv.slot.toNat at large
    have shape : iv.alignment = 32 := by
      have above : ¬ iv.slot < 32 := by
        rw [UInt32.lt_iff_toNat_lt]
        exact Nat.not_lt.mpr large
      unfold Interval.alignment
      dsimp only
      rw [if_neg above, if_neg]
      exact fun ⟨_, less⟩ => absurd less (by decide)
    refine ⟨?_, fun less => absurd less (Nat.not_lt.mpr large), fun _ => ?_, fun _ => ?_⟩ <;> rw [shape] <;> decide

/-- The multiples of a divisor of a row start ranges that end in the same row. -/
theorem same_row {slot offset x : Nat} (divides : slot ∣ 32) (aligned : slot ∣ offset) (low : offset ≤ x)
    (high : x < offset + slot) : x / 32 = offset / 32 := by
  obtain ⟨parts, row⟩ := divides
  obtain ⟨number, rfl⟩ := aligned
  have positive : 0 < slot := by omega
  have here : x / slot = number := by
    refine Nat.div_eq_of_lt_le ?_ ?_
    · rwa [Nat.mul_comm]
    · rwa [Nat.succ_mul, Nat.mul_comm number]
  rw [row, ← Nat.div_div_eq_div_mul, ← Nat.div_div_eq_div_mul, here, Nat.mul_div_cancel_left _ positive]

/-! ## The places of a sweep -/

/-- A borrowed place is aligned for the register that borrows it. -/
theorem tryHole_aligned {cfg : SweepConfig} {s s' : Sweep} {n : Nat} (taken : s.tryHole cfg n = some s') :
    ∃ offset, Puts s s' n offset ∧ (s.store.get n).alignment.toNat ∣ offset.toNat := by
  obtain ⟨e, -, -, -, puts⟩ := tryHole_puts taken
  refine ⟨_, puts, ?_⟩
  have here : s'.offsets.get (s.store.get n).reg = s.offsets.get (s.store.get e.owner).reg := by
    rw [puts.offsets, RegisterMap.get_insert_self]
  rw [← here]
  unfold Sweep.tryHole at taken
  dsimp only at taken
  split at taken
  · cases taken
  · split at taken
    · cases taken
    · rename_i h found
      cases taken
      have fits := List.find?_some found
      simp only [Sweep.holeTakes, Bool.and_eq_true, beq_iff_eq] at fits
      simp only [Sweep.note, Sweep.assign, (flagged_same s.store n n).reg, RegisterMap.get_insert_self]
      rw [Nat.dvd_iff_mod_eq_zero, ← UInt32.toNat_mod, fits.2]
      rfl

/-- Pins lie where general registers start. -/
def PinsOnRows (k : Kernel) : Prop := ∀ r offset, k.pin? r = some offset → offset.toNat % 32 = 0

/-- A sweep that places registers in use only, and those without a pin at a multiple of their alignment. -/
structure Aligned (k : Kernel) (s : Sweep) : Prop extends Roster k s where
  places : ∀ r, s.offsets.get r ≠ unmapped → ∃ n, Live k n ∧ (span k n).reg = r ∧
    (k.pin? r = none → (span k n).alignment.toNat ∣ (s.offsets.get r).toNat)

/-- The registers of a kernel have no slot whose size wraps. -/
def Measured (k : Kernel) : Prop := ∀ n, Live k n → (span k n).size.toNat + 32 < 4294967296

section
variable {k : Kernel} {lv : Liveness} {cfg : SweepConfig} {s s' : Sweep} {n : Nat}

theorem Aligned.expires (aligned : Aligned k s) (expires : Expires s s') : Aligned k s' := by
  refine ⟨aligned.toRoster.expires expires, ?_⟩
  rw [expires.offsets]
  exact aligned.places

theorem Aligned.puts {offset : UInt32} (aligned : Aligned k s) (live : Live k n) (puts : Puts s s' n offset)
    (divides : k.pin? (span k n).reg = none → (span k n).alignment.toNat ∣ offset.toNat) : Aligned k s' := by
  refine ⟨aligned.toRoster.puts live puts, fun r mapped => ?_⟩
  rw [puts.offsets, (aligned.shape n).reg] at mapped ⊢
  by_cases same : r = (span k n).reg
  · refine ⟨n, live, same.symm, fun free => ?_⟩
    rw [same, RegisterMap.get_insert_self]
    exact divides (same ▸ free)
  · rw [RegisterMap.get_insert_of_ne _ same] at mapped ⊢
    exact aligned.places r mapped

/-- Spilling a register takes away at most its own place. -/
theorem unplace_get (s : Sweep) (n : Nat) {r : VReg} (mapped : (s.unplace n).offsets.get r ≠ unmapped) :
    (s.unplace n).offsets.get r = s.offsets.get r := by
  unfold Sweep.unplace at mapped ⊢
  split
  · rename_i placed
    rw [if_pos placed] at mapped
    simp only [(deactivate_expires s n).offsets] at mapped ⊢
    refine RegisterMap.get_erase_of_ne _ fun same => mapped ?_
    rw [same, RegisterMap.get_erase_self]
  · rfl

theorem Aligned.spill (aligned : Aligned k s) (live : Live k n) (spilled : s.spill lv cfg n = .ok s') :
    Aligned k s' := by
  have spills := spill_cases spilled
  refine ⟨aligned.toRoster.spill live spilled, fun r mapped => ?_⟩
  rw [spills.offsets] at mapped ⊢
  have kept := unplace_get s n mapped
  rw [kept] at mapped ⊢
  exact aligned.places r mapped

theorem Aligned.settles {avoid : Option Nat} {r : Except (Stopped PlacementEvent) Sweep} (aligned : Aligned k s)
    (measured : Measured k) (live : Live k n) (settles : Settles k lv cfg n avoid s r) (ran : r = .ok s') :
    Aligned k s' := by
  induction settles with
  | @placed s offset pool found =>
    cases ran
    refine aligned.puts live (assign_puts s n offset (allocate_window found) (by simp)) fun _ => ?_
    rw [(aligned.shape n).alignment] at found
    exact FreePool.allocate_aligned (alignment_alignsSlot (measured n live)).whole found
  | refused => cases ran
  | itself => exact aligned.spill live ran
  | failed => cases ran
  | @again s t v r full spills victim spilled rest ih =>
    exact ih (aligned.spill (aligned.active v (victim_spec victim).1) spilled) ran

theorem openHole_offsets (lv : Liveness) (cfg : SweepConfig) (n : Nat) (s : Sweep) :
    (s.openHole lv cfg n).offsets = s.offsets := by
  unfold Sweep.openHole
  dsimp only
  split
  · split <;> rfl
  · rfl

theorem Aligned.visit (measured : Measured k) (aligned : Aligned k s) (held : n < (Liveness.ofKernel k).store.size)
    (visited : Sweep.visit k lv cfg s n = .ok s') : Aligned k s' := by
  have roster := aligned.toRoster.visit held visited
  have expired := aligned.expires (expire_expires s (s.store.get n).min)
  rcases visit_cases visited with ⟨-, rfl⟩ | ⟨live, placed⟩
  · refine ⟨roster, ?_⟩
    rw [openHole_offsets lv cfg n _]
    exact expired.places
  · have live : Live k n := ⟨held, by rw [← (aligned.shape n).hole]; exact live⟩
    rcases placed with ⟨offset, pinned, put⟩ | ⟨free, taken | ⟨avoid, settles⟩⟩
    · refine expired.puts live (placePinned_puts put).1 fun free => ?_
      rw [(expired.shape n).reg, free] at pinned
      cases pinned
    · obtain ⟨offset, puts, divides⟩ := tryHole_aligned taken
      rw [(expired.shape n).alignment] at divides
      exact expired.puts live puts fun _ => divides
    · exact expired.settles measured live settles rfl

theorem SumsFit.measured {reserve : UInt32} (sums : SumsFit k cfg reserve) : Measured k :=
  fun _ live => sums.slot _ _ live.intervalOf

/-- A whole sweep, by induction on the visits. -/
theorem run_aligned {reserve scratchBase : UInt32} (measured : Measured k)
    (ran : Sweep.run k (Liveness.ofKernel k) cfg reserve scratchBase = .ok s) : Aligned k s := by
  obtain ⟨order, -, all, visited⟩ := run_visits ran
  refine foldlM_keeps (fun n member t t' aligned first => aligned.visit measured ((all n).mp member) first) ?_ visited
  exact ⟨start_roster k cfg reserve scratchBase, fun r mapped => absurd rfl mapped⟩

/-- A register with a place has an interval that is mapped there. -/
theorem Aligned.placed {r : VReg} {offset : UInt32} (aligned : Aligned k s)
    (found : s.offsets.lookup? r = some offset) :
    ∃ n, Live k n ∧ (span k n).reg = r ∧ place k s n = offset ∧ Mapped k s n ∧
      (k.pin? r = none → (span k n).alignment.toNat ∣ offset.toNat) := by
  unfold RegisterMap.lookup? at found
  split at found
  · rename_i contained
    have mapped : s.offsets.get r ≠ unmapped := by simpa [RegisterMap.contains] using contained
    obtain ⟨n, live, rfl, divides⟩ := aligned.places r mapped
    cases found
    exact ⟨n, live, rfl, rfl, mapped, divides⟩
  · cases found

/-- The slot of a register ends before the last address. -/
theorem run_slot_ends {reserve scratchBase : UInt32} (sums : SumsFit k cfg reserve)
    (ran : Sweep.run k (Liveness.ofKernel k) cfg reserve scratchBase = .ok s) (live : Live k n)
    (mapped : Mapped k s n) :
    (place k s n).toNat + (span k n).slot.toNat < 4294967296 := by
  obtain ⟨done, last, inv⟩ := run_invariant sums ran
  have lies := inv.lies n live mapped
  cases pinned : k.pin? (span k n).reg with
  | none => exact Nat.lt_of_le_of_lt (lies.free pinned).2 s.pool.limit.toNat_lt
  | some pin =>
    rw [lies.pinned pin pinned]
    exact sums.pin _ _ _ live.intervalOf pinned

/-- What a sweep places: registers in use, in slots that end before the last address and begin with a general
register if they take some. -/
theorem run_slots {reserve scratchBase : UInt32} (sums : SumsFit k cfg reserve) (pins : PinsOnRows k)
    (ran : Sweep.run k (Liveness.ofKernel k) cfg reserve scratchBase = .ok s) {r : VReg} {offset : UInt32}
    (found : s.offsets.lookup? r = some offset) :
    ∃ iv, (Liveness.ofKernel k).intervalOf? r = some iv ∧ offset.toNat + iv.slot.toNat < 4294967296 ∧
      (32 ≤ iv.slot.toNat → offset.toNat % 32 = 0) := by
  obtain ⟨n, live, rfl, rfl, mapped, divides⟩ := (run_aligned sums.measured ran).placed found
  refine ⟨span k n, live.intervalOf, run_slot_ends sums ran live mapped, fun large => ?_⟩
  cases pinned : k.pin? (span k n).reg with
  | none =>
    have proper := alignment_alignsSlot (sums.measured n live)
    rw [proper.row large] at divides
    exact Nat.dvd_iff_mod_eq_zero.mp (divides pinned)
  | some pin =>
    rw [(run_pinned ran).1 n pin live pinned]
    exact pins _ _ pinned

end

/-! ## Windows, rows and halves of rows -/

/-- A place for an interval of a kernel in a window: the whole slot lies inside, at a multiple of the alignment.
Then a register of a general register or more starts with one, an operand of a three-source instruction starts a
half of one, and a smaller register lies in one. -/
structure LiesWell (k : Kernel) (low high : UInt32) (iv : Interval) (offset : UInt32) : Prop where
  inside : low.toNat ≤ offset.toNat ∧ offset.toNat + iv.slot.toNat ≤ high.toNat
  aligned : iv.alignment.toNat ∣ offset.toNat
  row : 32 ≤ iv.size.toNat → 32 ∣ offset.toNat
  half : ∀ a ∈ accesses k, a.operand.reg = iv.reg → a.instruction.op.isThreeSource = true → 16 ∣ offset.toNat
  single : iv.size.toNat < 32 → ∀ x, offset.toNat ≤ x → x < offset.toNat + iv.slot.toNat →
    x / 32 = offset.toNat / 32

/-- A register smaller than a general register takes one at most. -/
theorem slotSize_small {size : UInt32} (small : size.toNat < 32) : (slotSize size).toNat ≤ 32 := by
  have each : ∀ n : Fin 32, (slotSize (UInt32.ofNat n)).toNat ≤ 32 := by decide
  have here := each ⟨size.toNat, small⟩
  rwa [UInt32.ofNat_toNat] at here

theorem liesWell_of_aligned {k : Kernel} {n : Nat} {low high offset : UInt32} (live : Live k n)
    (small : (span k n).size.toNat + 32 < 4294967296)
    (inside : low.toNat ≤ offset.toNat ∧ offset.toNat + (span k n).slot.toNat ≤ high.toNat)
    (aligned : (span k n).alignment.toNat ∣ offset.toNat) : LiesWell k low high (span k n) offset := by
  have aligns := alignment_alignsSlot small
  refine ⟨inside, aligned, ?_, ?_, ?_⟩
  · intro large
    have whole := aligns.row (large.trans (size_le_slotSize small))
    exact whole ▸ aligned
  · intro a member named triple
    have covers := (LivePaths.intervalOf_spec live.intervalOf).1
    exact Nat.dvd_trans (aligns.half (covers.triple.mpr ⟨a, member, named, triple⟩)) aligned
  · intro narrow
    -- A slot within a general register divides it; one of a whole general register starts with it.
    have divides : (span k n).slot.toNat ∣ (span k n).alignment.toNat := by
      by_cases within : (span k n).slot.toNat < 32
      · exact aligns.within within
      · have whole : (span k n).slot.toNat = 32 := Nat.le_antisymm (slotSize_small narrow) (Nat.not_lt.mp within)
        have same : (span k n).slot.toNat = (span k n).alignment.toNat := by
          rw [aligns.row (Nat.not_lt.mp within), whole]
        exact same ▸ Nat.dvd_refl _
    intro x low high
    exact same_row (Nat.dvd_trans divides aligns.whole) (Nat.dvd_trans divides aligned) low high

/-- Wherever a sweep puts a register without a pin, in the pool or in a hole, and whatever it spills for it: the
place lies in the window and is aligned. -/
theorem places_aligned (k : Kernel) (cfg : SweepConfig) (reserve scratchBase : UInt32) (s : Sweep)
    (sums : SumsFit k cfg reserve) (ran : Sweep.run k (Liveness.ofKernel k) cfg reserve scratchBase = .ok s)
    (r : VReg) (offset : UInt32) (found : s.offsets.lookup? r = some offset) (free : k.pin? r = none) :
    ∃ iv, (Liveness.ofKernel k).intervalOf? r = some iv ∧
      LiesWell k cfg.reservedLow (cfg.fileSize - reserve) iv offset := by
  obtain ⟨n, live, rfl, rfl, mapped, divides⟩ := (run_aligned sums.measured ran).placed found
  obtain ⟨done, last, inv⟩ := run_invariant sums ran
  have inside := (inv.lies n live mapped).free free
  unfold Inside at inside
  rw [inv.window.1, inv.window.2] at inside
  exact ⟨span k n, live.intervalOf, liesWell_of_aligned live (sums.measured n live) inside (divides free)⟩

/-- Register 2 borrows the place of register 0, an operand of a product as is register 3; register 4 finds none. -/
def mixed : Kernel where
  name := "mixed"
  simdWidth := 8
  code :=
    [{ op := .mov, dst := .scalar ⟨0⟩ .f, src := [.immediate .f 1 false false] },
      { op := .mov, dst := .vector ⟨1⟩ .f, src := [.scalar ⟨0⟩ .f] },
      { op := .mov, dst := .scalar ⟨2⟩ .uw, src := [.immediate .uw 5 false false] },
      { op := .mov, dst := .vector ⟨1⟩ .f, src := [.scalar ⟨2⟩ .uw] },
      { op := .mov, dst := .scalar ⟨0⟩ .f, src := [.immediate .f 2 false false] },
      { op := .mov, dst := .vector ⟨3⟩ .f, src := [.immediate .f 3 false false] },
      { op := .mov, dst := .vector ⟨4⟩ .f, src := [.immediate .f 3 false false] },
      { op := .mad, dst := .vector ⟨1⟩ .f, src := [.vector ⟨1⟩ .f, .scalar ⟨0⟩ .f, .vector ⟨3⟩ .f] },
      { op := .mov, dst := .vector ⟨1⟩ .f, src := [.vector ⟨4⟩ .f] },
      { op := .endThread }]
  next := 5

/-- Three general registers above a reserved one. -/
def threeAbove : SweepConfig := ⟨128, 32, true, .longest, 0⟩

theorem places_aligned_mixed :
    ∃ s, Sweep.run mixed (Liveness.ofKernel mixed) threeAbove 0 0 = .ok s ∧ s.holeReuses = 1 ∧ s.spilled = [⟨4⟩] ∧
      s.offsets.lookup? ⟨0⟩ = some 32 ∧ s.offsets.lookup? ⟨2⟩ = some 32 ∧
      ∀ r offset, s.offsets.lookup? r = some offset →
        ∃ iv, (Liveness.ofKernel mixed).intervalOf? r = some iv ∧ LiesWell mixed 32 128 iv offset := by
  have fits : ((Liveness.ofKernel mixed).store.intervals.all fun iv =>
      iv.size.toNat + 32 < 4294967296 && 128 + iv.slot.toNat + 64 < 4294967296) = true := by
    decide +kernel
  simp only [List.all_eq_true, Bool.and_eq_true, decide_eq_true_eq] at fits
  have outcome : (Sweep.run mixed (Liveness.ofKernel mixed) threeAbove 0 0).toOption.map
      (fun s => (s.holeReuses, s.spilled, s.offsets.lookup? ⟨0⟩, s.offsets.lookup? ⟨2⟩)) =
        some (1, [⟨4⟩], some 32, some 32) := by
    simp only [Sweep.run, Sweep.start, Liveness.ofKernel, sorted_insertion]
    decide +kernel
  obtain ⟨s, ran, same⟩ := toOption_map_some.mp outcome
  simp only [Prod.mk.injEq] at same
  obtain ⟨reuses, spilled, host, guest⟩ := same
  have sums : SumsFit mixed threeAbove 0 :=
    sumsFit_of_unpinned (fun _ => rfl) fun r iv found => fits iv (mem_of_intervalOf found)
  exact ⟨s, ran, reuses, spilled, host, guest, fun r offset found =>
    places_aligned mixed threeAbove 0 0 s sums ran r offset found rfl⟩

end GpuCodegen.Placement
