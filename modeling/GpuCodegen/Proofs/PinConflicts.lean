import Mathlib.Data.List.TakeWhile
import GpuCodegen.Proofs.LiveRegisters
import GpuCodegen.Proofs.SpillLoop

/-! Why a sweep fails at a pin. While a sweep goes on, only intervals that reach the current point are
active, and the pinned ones are at their pins. So a pin that is held is held by a register that is live
where the pinned register's interval begins. -/

namespace GpuCodegen.Placement
open Outcome LiveIntervals

/-- A sweep that has visited the intervals `done`, the last of them at `cur`. -/
structure Ongoing (k : Kernel) (limit : UInt32) (done : List Nat) (cur : Int) (s : Sweep) : Prop extends
    Roster k s where
  window : s.pool.limit = limit
  apart : s.active.Nodup
  met : ∀ a ∈ s.active, a ∈ done ∧ (span k a).min ≤ cur
  ending : ∀ a ∈ s.active, a ∈ s.ending
  upcoming : ∀ n < (Liveness.ofKernel k).store.size, cur ≤ (span k n).max → n ∈ s.ending
  sorted : s.ending.Pairwise fun a b => (span k a).max ≤ (span k b).max
  pinned : ∀ a ∈ s.active, ∀ offset, k.pin? (span k a).reg = some offset → place k s a = offset

section
variable {k : Kernel} {lv : Liveness} {cfg : SweepConfig} {limit : UInt32} {done : List Nat} {cur start : Int}
  {s s' : Sweep} {n : Nat}

/-! ## Steps -/

theorem expireOne_gone (lives : ∀ a ∈ s.active, (s.store.get a).hole = false) (apart : s.active.Nodup) (n : Nat) :
    n ∉ (s.expireOne n).active := by
  unfold Sweep.expireOne
  split
  · rename_i hole
    intro member
    have live := lives n member
    rw [hole] at live
    cases live
  · split
    · rw [deactivate_active]
      exact apart.not_mem_erase
    · rename_i absent
      simpa [Sweep.isPlaced] using absent

theorem expireAll_gone (ns : List Nat) (lives : ∀ a ∈ s.active, (s.store.get a).hole = false) (apart : s.active.Nodup) :
    (ns.foldl Sweep.expireOne s).active.Sublist s.active ∧ ∀ n ∈ ns, n ∉ (ns.foldl Sweep.expireOne s).active := by
  induction ns generalizing s with
  | nil => exact ⟨.refl _, nofun⟩
  | cons n ns ih =>
    have step := expireOne_expires s n
    obtain ⟨shorter, gone⟩ := ih (s := s.expireOne n)
      (fun a member => by rw [step.store]; exact lives a (step.active.mem member)) (apart.sublist step.active)
    refine ⟨shorter.trans step.active, fun m member => ?_⟩
    rcases List.mem_cons.mp member with rfl | later
    · exact fun remains => expireOne_gone lives apart m (shorter.mem remains)
    · exact gone m later

/-- Before an interval is placed, the active ones reach its start. -/
theorem Ongoing.expire (ongoing : Ongoing k limit done cur s) (later : cur ≤ start) :
    Ongoing k limit done start (s.expire start) ∧ ∀ a ∈ (s.expire start).active, start ≤ (span k a).max := by
  have expires := expire_expires s start
  have lives : ∀ a ∈ s.active, (s.store.get a).hole = false := fun a member => by
    rw [(ongoing.shape a).hole]
    exact (ongoing.active a member).live
  have ended (n : Nat) : decide ((s.store.get n).max < start) = decide ((span k n).max < start) := by
    rw [(ongoing.shape n).max]
  obtain ⟨-, gone⟩ := expireAll_gone (s.ending.takeWhile fun n => decide ((s.store.get n).max < start)) lives
    ongoing.apart
  have dropped : (s.expire start).ending = s.ending.dropWhile fun n => decide ((s.store.get n).max < start) := rfl
  have stays (a : Nat) (member : a ∈ s.ending)
      (kept : a ∉ s.ending.takeWhile fun n => decide ((s.store.get n).max < start)) : a ∈ (s.expire start).ending := by
    rw [← List.takeWhile_append_dropWhile (p := fun n => decide ((s.store.get n).max < start))
      (l := s.ending)] at member
    rw [dropped]
    exact (List.mem_append.mp member).resolve_left kept
  have reaching : ∀ a ∈ (s.expire start).active, a ∈ (s.expire start).ending := fun a member =>
    stays a (ongoing.ending a (expires.active.mem member)) fun taken => gone a taken member
  refine ⟨⟨ongoing.toRoster.expires expires, expires.window.trans ongoing.window, ongoing.apart.sublist expires.active,
    ?_, reaching, ?_, ?_, ?_⟩, ?_⟩
  · intro a member
    obtain ⟨old, early⟩ := ongoing.met a (expires.active.mem member)
    exact ⟨old, Int.le_trans early later⟩
  · intro n held reaches
    refine stays n (ongoing.upcoming n held (Int.le_trans later reaches)) fun taken => ?_
    have ends := List.mem_takeWhile_imp taken
    rw [ended, decide_eq_true_iff] at ends
    omega
  · rw [dropped]
    exact ongoing.sorted.sublist (List.dropWhile_sublist _)
  · intro a member offset pin
    rw [place, expires.offsets]
    exact ongoing.pinned a (expires.active.mem member) offset pin
  · intro a member
    have remains := reaching a member
    rw [dropped] at remains
    exact mem_dropWhile_of_sorted ended ongoing.sorted remains

/-- An interval at its start gets a place, its pin if it has one. -/
theorem Ongoing.puts {offset : UInt32} (ongoing : Ongoing k limit done cur s) (live : Live k n) (new : n ∉ done)
    (starts : (span k n).min = cur) (own : ∀ pin, k.pin? (span k n).reg = some pin → offset = pin)
    (puts : Puts s s' n offset) : Ongoing k limit (done ++ [n]) cur s' := by
  have cases {P : Nat → Prop} (old : ∀ a ∈ s.active, P a) (now : P n) : ∀ a ∈ s'.active, P a := by
    intro a member
    rw [puts.active] at member
    rcases List.mem_append.mp member with before | here
    · exact old a before
    · rwa [List.mem_singleton.mp here]
  have valid := live.valid
  refine ⟨ongoing.toRoster.puts live puts, puts.window.trans ongoing.window, ?_, cases ?_ ?_, ?_, ?_, ?_, cases ?_ ?_⟩
  · rw [puts.active]
    refine List.nodup_append.mpr ⟨ongoing.apart, by simp, ?_⟩
    rintro a active _ member rfl
    rw [List.mem_singleton.mp member] at active
    exact new (ongoing.met n active).1
  · intro a active
    obtain ⟨old, early⟩ := ongoing.met a active
    exact ⟨List.mem_append_left _ old, early⟩
  · exact ⟨List.mem_append_right _ List.mem_cons_self, Int.le_of_eq starts⟩
  · rw [puts.ending]
    exact cases ongoing.ending (ongoing.upcoming n live.held (by omega))
  · rw [puts.ending]
    exact ongoing.upcoming
  · rw [puts.ending]
    exact ongoing.sorted
  · intro a active pin known
    have differs : a ≠ n := fun same => new (same ▸ (ongoing.met a active).1)
    rw [place, puts.offsets, (ongoing.shape n).reg,
      RegisterMap.get_insert_of_ne _ ((ongoing.active a active).reg_ne live differs)]
    exact ongoing.pinned a active pin known
  · intro pin known
    rw [place, puts.offsets, (ongoing.shape n).reg, RegisterMap.get_insert_self]
    exact own pin known

theorem Ongoing.mono (ongoing : Ongoing k limit done cur s) (more : List Nat) :
    Ongoing k limit (done ++ more) cur s := by
  obtain ⟨roster, window, apart, met, ending, upcoming, sorted, pinned⟩ := ongoing
  exact ⟨roster, window, apart, fun a member => ⟨List.mem_append_left _ (met a member).1, (met a member).2⟩, ending,
    upcoming, sorted, pinned⟩

theorem unplace_ending (s : Sweep) (n : Nat) : (s.unplace n).ending = s.ending ∧
    (s.unplace n).pool.limit = s.pool.limit := by
  have along : (s.deactivate n).ending = s.ending := by
    unfold Sweep.deactivate
    dsimp only
    split
    · rfl
    · split <;> rfl
  unfold Sweep.unplace
  split
  · exact ⟨along, (deactivate_expires s n).window⟩
  · exact ⟨rfl, rfl⟩

theorem Ongoing.spill {v : Nat} (ongoing : Ongoing k limit done cur s) (live : Live k v)
    (spilled : s.spill lv cfg v = .ok s') : Ongoing k limit done cur s' := by
  have spills := spill_cases spilled
  obtain ⟨ending, window⟩ := unplace_ending s v
  have active : s'.active = s.active.erase v := by rw [spills.active, unplace_active]
  have old {a : Nat} (member : a ∈ s'.active) : a ∈ s.active ∧ a ≠ v := by
    rw [active] at member
    exact ⟨List.mem_of_mem_erase member, fun same => ongoing.apart.not_mem_erase (same ▸ member)⟩
  refine ⟨ongoing.toRoster.spill live spilled, ?_, ?_, fun a member => ongoing.met a (old member).1, ?_, ?_, ?_, ?_⟩
  · rw [spills.pool, window]
    exact ongoing.window
  · rw [active]
    exact ongoing.apart.erase v
  · intro a member
    rw [spills.ending, ending]
    exact ongoing.ending a (old member).1
  · rw [spills.ending, ending]
    exact ongoing.upcoming
  · rw [spills.ending, ending]
    exact ongoing.sorted
  · intro a member offset pin
    obtain ⟨before, differs⟩ := old member
    have same : place k s' a = place k s a := by
      rw [place, spills.offsets, place]
      unfold Sweep.unplace
      split
      · dsimp only
        rw [(deactivate_expires s v).offsets, (deactivate_expires s v).store, (ongoing.shape v).reg,
          RegisterMap.get_erase_of_ne _ ((ongoing.active a before).reg_ne live differs)]
      · rfl
    rw [same]
    exact ongoing.pinned a before offset pin

theorem Ongoing.settles {avoid : Option Nat} {r : Except (Stopped PlacementEvent) Sweep}
    (ongoing : Ongoing k limit done cur s) (live : Live k n) (new : n ∉ done) (starts : (span k n).min = cur)
    (free : k.pin? (span k n).reg = none) (settles : Settles k lv cfg n avoid s r) (ran : r = .ok s') :
    Ongoing k limit (done ++ [n]) cur s' := by
  induction settles with
  | placed found =>
    cases ran
    refine ongoing.puts live new starts ?_ (assign_puts _ _ _ (allocate_window found) (by simp))
    intro pin known
    rw [free] at known
    cases known
  | refused => cases ran
  | itself => exact (ongoing.spill live ran).mono [n]
  | failed => cases ran
  | again full spills victim spilled rest ih =>
    exact ih (ongoing.spill (ongoing.active _ (victim_spec victim).1) spilled) ran

theorem Ongoing.openHole (ongoing : Ongoing k limit done cur s) (n : Nat) :
    Ongoing k limit (done ++ [n]) cur (s.openHole lv cfg n) := by
  have same : s.openHole lv cfg n = { s with holes := (s.openHole lv cfg n).holes } := by
    unfold Sweep.openHole
    dsimp only
    split
    · split <;> rfl
    · rfl
  obtain ⟨⟨shape, active, spilled, told⟩, window, apart, met, ending, upcoming, sorted, pinned⟩ := ongoing.mono [n]
  rw [same]
  exact ⟨⟨shape, active, spilled, told⟩, window, apart, met, ending, upcoming, sorted, pinned⟩

theorem Ongoing.visit (ongoing : Ongoing k limit done cur s) (held : n < (Liveness.ofKernel k).store.size)
    (new : n ∉ done) (later : cur ≤ (span k n).min) (visited : Sweep.visit k lv cfg s n = .ok s') :
    Ongoing k limit (done ++ [n]) (span k n).min s' := by
  have expired := (ongoing.expire later).1
  have start : (s.store.get n).min = (span k n).min := (ongoing.shape n).min
  rcases visit_cases visited with ⟨-, rfl⟩ | ⟨lives, placed⟩
  · rw [start]
    exact expired.openHole n
  · have live : Live k n := ⟨held, by rw [← (ongoing.shape n).hole]; exact lives⟩
    rw [start] at placed
    rw [(expired.shape n).reg] at placed
    rcases placed with ⟨offset, pin, pinned⟩ | ⟨free, taken | ⟨avoid, settles⟩⟩
    · refine expired.puts live new rfl ?_ (placePinned_puts pinned).1
      intro other known
      rw [pin] at known
      exact Option.some.inj known
    · obtain ⟨e, -, -, -, puts⟩ := tryHole_puts taken
      refine expired.puts live new rfl ?_ puts
      intro other known
      rw [free] at known
      cases known
    · exact expired.settles live new rfl free settles rfl

/-! ## Failing at a pin -/

/-- A register cannot go to its pin because of another one. -/
def Conflict (c : Cause) (r other : VReg) (offset : UInt32) : Prop :=
  c = .placement (.pinHeld r offset other) ∨ c = .placement (.pinGiven r offset other)

theorem pinConflict_cases {iv : Interval} {r other : VReg} {offset pin : UInt32}
    (conflict : Conflict (s.pinConflict iv pin).cause r other offset) : r = iv.reg ∧ offset = pin ∧
      ∀ h, s.holder? pin iv.slot = some h → other = (s.store.get h).reg := by
  unfold Sweep.pinConflict at conflict
  split at conflict
  · rename_i h held
    rcases conflict with same | same
    · cases same
      refine ⟨rfl, rfl, fun h' found => ?_⟩
      rw [held] at found
      cases found
      rfl
    · cases same
  · rename_i free
    have none (h : Nat) (found : s.holder? pin iv.slot = some h) : other = (s.store.get h).reg := by
      rw [free] at found
      cases found
    split at conflict
    · rcases conflict with same | same
      · cases same
      · cases same
        exact ⟨rfl, rfl, none⟩
    · rcases conflict with same | same <;> cases same

theorem placePinned_fails {e : Stopped PlacementEvent} {pin : UInt32} {r other : VReg} {offset : UInt32}
    (failed : s.placePinned n pin = .error e) (conflict : Conflict e.diagnostic.cause r other offset) :
    r = (s.store.get n).reg ∧ offset = pin ∧
      ((∃ h, s.holder? offset (s.store.get n).slot = some h ∧ other = (s.store.get h).reg) ∨
        s.pool.contains offset (s.store.get n).slot = true) := by
  unfold Sweep.placePinned at failed
  dsimp only at failed
  split at failed
  · rename_i inside
    split at failed
    · cases failed
    · cases failed
      obtain ⟨reg, rfl, -⟩ := pinConflict_cases conflict
      exact ⟨reg, rfl, .inr inside⟩
  · split at failed
    · rename_i held
      cases failed
      obtain ⟨reg, rfl, holder⟩ := pinConflict_cases conflict
      obtain ⟨h, found⟩ := Option.isSome_iff_exists.mp held
      exact ⟨reg, rfl, .inl ⟨h, found, holder h found⟩⟩
    · cases failed

theorem spill_fails {e : Stopped PlacementEvent} {v : Nat} (failed : s.spill lv cfg v = .error e) (r other : VReg)
    (offset : UInt32) : ¬ Conflict e.diagnostic.cause r other offset := by
  unfold Sweep.spill at failed
  dsimp only at failed
  split at failed <;> split at failed <;> cases failed <;> rintro (same | same) <;> cases same

theorem settles_fails {avoid : Option Nat} {r : Except (Stopped PlacementEvent) Sweep}
    (settles : Settles k lv cfg n avoid s r) {e : Stopped PlacementEvent} (failed : r = .error e) (q other : VReg)
    (offset : UInt32) : ¬ Conflict e.diagnostic.cause q other offset := by
  induction settles with
  | placed => cases failed
  | refused =>
    cases failed
    rintro (same | same) <;> cases same
  | itself => exact spill_fails failed q other offset
  | failed full spills victim stopped =>
    cases failed
    exact spill_fails stopped q other offset
  | again full spills victim spilled rest ih => exact ih failed

/-- Only the visit of a pinned register fails at a pin. -/
theorem visit_fails {e : Stopped PlacementEvent} {r other : VReg} {offset : UInt32}
    (failed : Sweep.visit k lv cfg s n = .error e) (conflict : Conflict e.diagnostic.cause r other offset) :
    (s.store.get n).hole = false ∧ r = ((s.expire (s.store.get n).min).store.get n).reg ∧ k.pin? r = some offset ∧
      ((∃ h, (s.expire (s.store.get n).min).holder? offset ((s.expire (s.store.get n).min).store.get n).slot = some h ∧
          other = ((s.expire (s.store.get n).min).store.get h).reg) ∨
        (s.expire (s.store.get n).min).pool.contains offset
          ((s.expire (s.store.get n).min).store.get n).slot = true) := by
  unfold Sweep.visit at failed
  dsimp only at failed
  split at failed
  · cases failed
  · rename_i live
    refine ⟨by simpa using live, ?_⟩
    generalize s.expire (s.store.get n).min = t at failed ⊢
    unfold Sweep.place at failed
    dsimp only at failed
    split at failed
    · rename_i pin known
      obtain ⟨rfl, rfl, taken⟩ := placePinned_fails failed conflict
      exact ⟨rfl, known, taken⟩
    · exfalso
      split at failed
      · cases failed
        rcases conflict with same | same <;> cases same
      · split at failed
        · cases failed
        · exact settles_fails (placeOrSpill_settles _ (Nat.le_refl _)) failed r other offset conflict

/-! ## Sweeps that fail -/

/-- A sweep that fails does so at a visit, with a sweep going on before it. -/
theorem visits_fail {e : Stopped PlacementEvent} (rest : List Nat) (ongoing : Ongoing k limit done cur s)
    (nodup : (done ++ rest).Nodup) (held : ∀ n ∈ rest, n < (Liveness.ofKernel k).store.size)
    (later : ∀ n ∈ rest, cur ≤ (span k n).min) (sorted : rest.Pairwise fun a b => (span k a).min ≤ (span k b).min)
    (failed : rest.foldlM (Sweep.visit k lv cfg) s = .error e) :
    ∃ n t done' cur', n < (Liveness.ofKernel k).store.size ∧ n ∉ done' ∧ cur' ≤ (span k n).min ∧
      Ongoing k limit done' cur' t ∧ Sweep.visit k lv cfg t n = .error e := by
  induction rest generalizing done cur s with
  | nil => cases failed
  | cons n rest ih =>
    have new : n ∉ done := fun member => (List.nodup_append.mp nodup).2.2 n member n List.mem_cons_self rfl
    obtain ⟨above, sortedRest⟩ := List.pairwise_cons.mp sorted
    rw [List.foldlM_cons] at failed
    cases first : Sweep.visit k lv cfg s n with
    | error e' =>
      rw [first] at failed
      cases failed
      exact ⟨n, s, done, cur, held n List.mem_cons_self, new, later n List.mem_cons_self, ongoing, first⟩
    | ok t =>
      rw [first] at failed
      have next := ongoing.visit (held n List.mem_cons_self) new (later n List.mem_cons_self) first
      exact ih next (by simpa using nodup) (fun m member => held m (List.mem_cons_of_mem _ member)) above sortedRest
        failed

theorem start_ongoing (k : Kernel) (cfg : SweepConfig) (reserve scratchBase : UInt32) (cur : Int) :
    Ongoing k (cfg.fileSize - reserve) [] cur (Sweep.start (Liveness.ofKernel k) cfg reserve scratchBase) := by
  obtain ⟨-, all, sorted⟩ := freshStore_ordered k Interval.max fun n => (freshStore_get k n).max
  refine ⟨start_roster k cfg reserve scratchBase, rfl, .nil, ?_, ?_, fun n held _ => (all n).mpr held, sorted, ?_⟩
  all_goals
    intro a none
    cases none

/-- A pin that another register holds belongs to one that is live where the pinned register begins, and a pin
that was given away lies in the window. -/
theorem run_conflict {reserve scratchBase : UInt32} {e : Stopped PlacementEvent} {r other : VReg} {offset : UInt32}
    (failed : Sweep.run k (Liveness.ofKernel k) cfg reserve scratchBase = .error e)
    (conflict : Conflict e.diagnostic.cause r other offset) :
    ∃ iv, (Liveness.ofKernel k).intervalOf? r = some iv ∧ k.pin? r = some offset ∧
      ((∃ iv', (Liveness.ofKernel k).intervalOf? other = some iv' ∧ iv'.min ≤ iv.min ∧ iv.min ≤ iv'.max ∧
          ∀ pin, k.pin? other = some pin → pin < offset + iv.slot ∧ offset < pin + iv'.slot) ∨
        offset + iv.slot ≤ cfg.fileSize - reserve) := by
  unfold Sweep.run at failed
  split at failed
  · cases failed
    rcases conflict with same | same <;> cases same
  · obtain ⟨nodup, all, sorted⟩ := freshStore_ordered k Interval.min fun n => (freshStore_get k n).min
    have starts : (Sweep.start (Liveness.ofKernel k) cfg reserve scratchBase).store.byStart =
        (freshStore k).ordered Interval.min := rfl
    dsimp only at failed
    rw [starts] at failed
    generalize (freshStore k).ordered Interval.min = order at nodup all sorted failed
    cases order with
    | nil => cases failed
    | cons first rest =>
      obtain ⟨above, -⟩ := List.pairwise_cons.mp sorted
      have later : ∀ n ∈ first :: rest, (span k first).min ≤ (span k n).min := by
        intro n member
        rcases List.mem_cons.mp member with rfl | after
        · exact Int.le_refl _
        · exact above n after
      obtain ⟨n, t, done, cur, held, -, later, ongoing, visited⟩ := visits_fail (first :: rest)
        (start_ongoing k cfg reserve scratchBase (span k first).min) (by simpa using nodup)
        (fun n member => (all n).mp member) later sorted failed
      obtain ⟨lives, reg, pin, taken⟩ := visit_fails visited conflict
      have start : (t.store.get n).min = (span k n).min := (ongoing.shape n).min
      obtain ⟨expired, reaches⟩ := ongoing.expire later
      rw [start] at reg taken
      have live : Live k n := ⟨held, by rw [← (ongoing.shape n).hole]; exact lives⟩
      rw [(expired.shape n).reg] at reg
      rw [(expired.shape n).slot] at taken
      subst reg
      refine ⟨span k n, live.intervalOf, pin, ?_⟩
      rcases taken with ⟨h, found, rfl⟩ | inside
      · left
        have active := List.mem_of_find?_eq_some found
        have overlap := List.find?_some found
        rw [(expired.shape h).reg]
        refine ⟨span k h, (expired.active h active).intervalOf, (expired.met h active).2, reaches h active, ?_⟩
        intro pin' known
        rw [Bool.and_eq_true, decide_eq_true_iff, decide_eq_true_iff, (expired.shape h).slot,
          (expired.shape h).reg] at overlap
        have here := expired.pinned h active pin' known
        rw [place] at here
        rw [here] at overlap
        exact overlap
      · right
        simp only [FreePool.contains, Bool.and_eq_true, decide_eq_true_eq] at inside
        rw [← expired.window]
        exact inside.2

end

end GpuCodegen.Placement
