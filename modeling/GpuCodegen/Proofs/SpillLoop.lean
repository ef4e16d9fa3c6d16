import GpuCodegen.Proofs.PinnedSlots

/-! The spill loop of a sweep. While an interval finds no place, another one is spilled for it; as each
round takes an interval off the active ones, the loop ends, and what it ends with is what the sweep
returns. Spilled registers are registers of the kernel. -/

namespace GpuCodegen.Placement
open LiveIntervals Outcome

/-- How the loop that places an interval ends: the interval finds a place, spilling is not allowed, no
other interval can make room so that it is spilled itself, spilling another one fails, or another one is
spilled and the loop goes on. -/
inductive Settles (k : Kernel) (lv : Liveness) (cfg : SweepConfig) (n : Nat) (avoid : Option Nat) :
    Sweep → Except (Stopped PlacementEvent) Sweep → Prop where
  | placed {s : Sweep} {offset : UInt32} {pool : FreePool}
      (found : s.pool.allocate (s.store.get n).slot (s.store.get n).alignment avoid = some (offset, pool)) :
      Settles k lv cfg n avoid s
        (.ok (({ s with pool := pool }.assign n offset).note (.placed (s.store.get n) offset)))
  | refused {s : Sweep}
      (full : s.pool.allocate (s.store.get n).slot (s.store.get n).alignment avoid = none)
      (never : cfg.policy = .never) :
      Settles k lv cfg n avoid s
        (.error (s.stop ((Diagnostic.placement (.exhausted (s.store.get n).reg) (s.store.get n).reg).withHelp
          s!"{s.pool.available} bytes free of {s.pool.limit - s.pool.base}")))
  | itself {s : Sweep}
      (full : s.pool.allocate (s.store.get n).slot (s.store.get n).alignment avoid = none)
      (spills : cfg.policy ≠ .never) (alone : s.victim? k (s.store.get n) = none) :
      Settles k lv cfg n avoid s (s.spill lv cfg n)
  | failed {s : Sweep} {v : Nat} {e : Stopped PlacementEvent}
      (full : s.pool.allocate (s.store.get n).slot (s.store.get n).alignment avoid = none)
      (spills : cfg.policy ≠ .never) (victim : s.victim? k (s.store.get n) = some v)
      (stopped : s.spill lv cfg v = .error e) : Settles k lv cfg n avoid s (.error e)
  | again {s t : Sweep} {v : Nat} {r : Except (Stopped PlacementEvent) Sweep}
      (full : s.pool.allocate (s.store.get n).slot (s.store.get n).alignment avoid = none)
      (spills : cfg.policy ≠ .never) (victim : s.victim? k (s.store.get n) = some v)
      (spilled : s.spill lv cfg v = .ok t) (rest : Settles k lv cfg n avoid t r) :
      Settles k lv cfg n avoid s r

section
variable {k : Kernel} {lv : Liveness} {cfg : SweepConfig} {s s' : Sweep} {n : Nat} {avoid : Option Nat}

/-! ## The loop ends -/

theorem deactivate_active (s : Sweep) (n : Nat) : (s.deactivate n).active = s.active.erase n := by
  unfold Sweep.deactivate
  dsimp only
  split
  · rfl
  · split <;> rfl

theorem unplace_active (s : Sweep) (n : Nat) : (s.unplace n).active = s.active.erase n := by
  unfold Sweep.unplace
  split
  · exact deactivate_active s n
  · rename_i unplaced
    rw [List.erase_of_not_mem]
    simpa [Sweep.isPlaced] using unplaced

/-- What spilling an interval does, once it has given up its place. -/
structure Spills (s s' : Sweep) (iv : Interval) : Prop where
  active : s'.active = s.active
  ending : s'.ending = s.ending
  store : s'.store = s.store
  pool : s'.pool = s.pool
  holes : s'.holes = s.holes
  offsets : s'.offsets = s.offsets
  spilled : s'.spilled = s.spilled ++ [iv.reg]
  scratch : ∃ offset reused, s'.scratch = s.scratch.insert iv.reg offset ∧
    s'.log = s.log ++ [.spilled iv offset reused]

theorem spill_cases (spilled : s.spill lv cfg n = .ok s') : Spills (s.unplace n) s' (s.store.get n) := by
  unfold Sweep.spill at spilled
  dsimp only at spilled
  generalize s.unplace n = t at spilled ⊢
  split at spilled <;> split at spilled <;> cases spilled <;>
    exact ⟨rfl, rfl, rfl, rfl, rfl, rfl, rfl, _, _, rfl, rfl⟩

/-- With as many rounds as there are active intervals the loop is never cut short. -/
theorem placeOrSpill_settles (fuel : Nat) (enough : s.active.length ≤ fuel) :
    Settles k lv cfg n avoid s (Sweep.placeOrSpill k lv cfg n avoid fuel s) := by
  induction fuel generalizing s with
  | zero =>
    have alone : s.victim? k (s.store.get n) = none := by
      have empty : s.active = [] := List.eq_nil_of_length_eq_zero (Nat.le_zero.mp enough)
      simp [Sweep.victim?, empty]
    unfold Sweep.placeOrSpill
    dsimp only
    split
    · rename_i found
      exact .placed found
    · rename_i full
      split
      · rename_i never
        exact .refused full never
      · rename_i spills
        exact .itself full spills alone
  | succ fuel ih =>
    unfold Sweep.placeOrSpill
    dsimp only
    split
    · rename_i found
      exact .placed found
    · rename_i full
      split
      · rename_i never
        exact .refused full never
      · rename_i spills
        cases victim : s.victim? k (s.store.get n) with
        | none => exact .itself full spills victim
        | some v =>
          dsimp only
          split
          · rename_i t spilled
            refine .again full spills victim spilled (ih ?_)
            have active := (victim_spec victim).1
            rw [(spill_cases spilled).active, unplace_active, List.length_erase_of_mem active]
            omega
          · rename_i e stopped
            exact .failed full spills victim stopped

theorem Settles.unique {r r' : Except (Stopped PlacementEvent) Sweep} (settles : Settles k lv cfg n avoid s r)
    (settles' : Settles k lv cfg n avoid s r') : r = r' := by
  induction settles with
  | placed found => cases settles' <;> simp_all
  | refused full never => cases settles' <;> simp_all
  | itself full spills alone => cases settles' <;> simp_all
  | failed full spills victim stopped => cases settles' <;> simp_all
  | again full spills victim spilled rest ih =>
    cases settles' with
    | placed found => simp_all
    | refused full never => simp_all
    | itself full spills alone => simp_all
    | failed full spills victim stopped => simp_all
    | again full spills victim spilled rest => exact ih (by simp_all)

/-! ## What a visit can do -/

theorem visit_cases (visited : Sweep.visit k lv cfg s n = .ok s') :
    ((s.store.get n).hole = true ∧ s' = (s.expire (s.store.get n).min).openHole lv cfg n) ∨
      ((s.store.get n).hole = false ∧
        ((∃ offset, k.pin? ((s.expire (s.store.get n).min).store.get n).reg = some offset ∧
            (s.expire (s.store.get n).min).placePinned n offset = .ok s') ∨
          k.pin? ((s.expire (s.store.get n).min).store.get n).reg = none ∧
            ((s.expire (s.store.get n).min).tryHole cfg n = some s' ∨
              ∃ avoid, Settles k lv cfg n avoid (s.expire (s.store.get n).min) (.ok s')))) := by
  unfold Sweep.visit at visited
  dsimp only at visited
  split at visited
  · rename_i hole
    cases visited
    exact .inl ⟨hole, rfl⟩
  · rename_i live
    refine .inr ⟨by simpa using live, ?_⟩
    unfold Sweep.place at visited
    dsimp only at visited
    split at visited
    · rename_i offset pinned
      exact .inl ⟨offset, pinned, visited⟩
    · rename_i free
      refine .inr ⟨free, ?_⟩
      split at visited
      · cases visited
      · split at visited
        · rename_i taken
          cases visited
          exact .inl taken
        · exact .inr ⟨_, visited ▸ placeOrSpill_settles _ (Nat.le_refl _)⟩

/-- What ending intervals leaves alone, and what it only shortens. -/
structure Expires (s s' : Sweep) : Prop where
  store : s'.store = s.store
  offsets : s'.offsets = s.offsets
  scratch : s'.scratch = s.scratch
  spilled : s'.spilled = s.spilled
  log : s'.log = s.log
  window : s'.pool.limit = s.pool.limit
  active : s'.active.Sublist s.active
  holes : ∀ e ∈ s'.holes, e ∈ s.holes

theorem Expires.refl (s : Sweep) : Expires s s :=
  ⟨rfl, rfl, rfl, rfl, rfl, rfl, .refl _, fun _ => id⟩

theorem Expires.trans {s'' : Sweep} (first : Expires s s') (second : Expires s' s'') : Expires s s'' :=
  ⟨second.store.trans first.store, second.offsets.trans first.offsets, second.scratch.trans first.scratch,
    second.spilled.trans first.spilled, second.log.trans first.log, second.window.trans first.window,
    second.active.trans first.active, fun e member => first.holes e (second.holes e member)⟩

theorem deactivate_expires (s : Sweep) (n : Nat) : Expires s (s.deactivate n) := by
  unfold Sweep.deactivate
  dsimp only
  split
  · exact ⟨rfl, rfl, rfl, rfl, rfl, rfl, List.erase_sublist, fun _ => id⟩
  · split <;> exact ⟨rfl, rfl, rfl, rfl, rfl, rfl, List.erase_sublist, fun _ => id⟩

theorem expireOne_expires (s : Sweep) (n : Nat) : Expires s (s.expireOne n) := by
  unfold Sweep.expireOne
  split
  · exact ⟨rfl, rfl, rfl, rfl, rfl, rfl, .refl _, fun _ => List.mem_of_mem_eraseP⟩
  · split
    · exact deactivate_expires s n
    · exact .refl s

theorem expire_expires (s : Sweep) (start : Int) : Expires s (s.expire start) := by
  have along (ns : List Nat) (s : Sweep) : Expires s (ns.foldl Sweep.expireOne s) := by
    induction ns generalizing s with
    | nil => exact .refl s
    | cons n ns ih => exact (expireOne_expires s n).trans (ih (s.expireOne n))
  obtain ⟨store, offsets, scratch, spilled, log, window, active, holes⟩ :=
    along (s.ending.takeWhile fun n => decide ((s.store.get n).max < start)) s
  exact ⟨store, offsets, scratch, spilled, log, window, active, holes⟩

/-- What giving an interval a place does, whichever place it is. -/
structure Puts (s s' : Sweep) (n : Nat) (offset : UInt32) : Prop where
  shape : ∀ m, Same (s'.store.get m) (s.store.get m)
  active : s'.active = s.active ++ [n]
  ending : s'.ending = s.ending
  window : s'.pool.limit = s.pool.limit
  holes : ∀ e ∈ s'.holes, ∃ before ∈ s.holes, before.owner = e.owner
  offsets : s'.offsets = s.offsets.insert (s.store.get n).reg offset
  scratch : s'.scratch = s.scratch
  spilled : s'.spilled = s.spilled
  log : ∃ e, s'.log = s.log ++ [e] ∧ ∀ iv at_ reused, e ≠ .spilled iv at_ reused

theorem Same.refl (iv : Interval) : Same iv iv := ⟨rfl, rfl, rfl, rfl, rfl, rfl⟩

theorem Same.trans {a b c : Interval} (first : Same a b) (second : Same b c) : Same a c :=
  ⟨first.reg.trans second.reg, first.min.trans second.min, first.max.trans second.max,
    first.hole.trans second.hole, first.size.trans second.size, first.triple.trans second.triple⟩

theorem allocate_window {pool pool' : FreePool} {size align offset : UInt32} {avoid : Option Nat}
    (found : pool.allocate size align avoid = some (offset, pool')) : pool'.limit = pool.limit := by
  obtain ⟨start, -, same⟩ := Option.map_eq_some_iff.mp found
  cases same
  rfl

theorem claim_window {pool pool' : FreePool} {offset size : UInt32} (claimed : pool.claim offset size = some pool') :
    pool'.limit = pool.limit := by
  unfold FreePool.claim at claimed
  split at claimed
  · cases claimed
  · split at claimed
    · cases claimed
    · cases claimed
      rfl

/-- An interval takes a range of the pool. -/
theorem assign_puts (s : Sweep) (n : Nat) (offset : UInt32) {pool : FreePool} {e : PlacementEvent}
    (window : pool.limit = s.pool.limit) (plain : ∀ iv at_ reused, e ≠ .spilled iv at_ reused) :
    Puts s (({ s with pool := pool }.assign n offset).note e) n offset :=
  ⟨fun _ => .refl _, rfl, rfl, window, fun e member => ⟨e, member, rfl⟩, rfl, rfl, rfl, e, rfl, plain⟩

theorem placePinned_puts {offset : UInt32} (placed : s.placePinned n offset = .ok s') :
    Puts s s' n offset ∧ (s'.pool = s.pool ∨
      s.pool.contains offset (s.store.get n).slot = true ∧
        s.pool.claim offset (s.store.get n).slot = some s'.pool) := by
  unfold Sweep.placePinned at placed
  dsimp only at placed
  split at placed
  · rename_i inside
    split at placed
    · rename_i pool claimed
      cases placed
      exact ⟨assign_puts s n offset (claim_window claimed) (by simp), .inr ⟨inside, claimed⟩⟩
    · cases placed
  · split at placed
    · cases placed
    · cases placed
      exact ⟨assign_puts s n offset rfl (by simp), .inl rfl⟩

theorem flagged_same (store : IntervalStore) (n m : Nat) :
    Same ((store.modify n fun iv => { iv with reused := true }).get m) (store.get m) := by
  unfold IntervalStore.get IntervalStore.modify
  simp only [List.getD_eq_getElem?_getD, List.getElem?_modify]
  cases store.intervals[m]? with
  | none => exact .refl _
  | some iv =>
    by_cases here : n = m
    · simp only [here]
      exact ⟨rfl, rfl, rfl, rfl, rfl, rfl⟩
    · simp only [here]
      exact .refl _

theorem tryHole_puts (taken : s.tryHole cfg n = some s') :
    ∃ e ∈ s.holes, (s.store.get n).slot ≤ (s.store.get e.owner).slot ∧ s'.pool = s.pool ∧
      Puts s s' n (s.offsets.get (s.store.get e.owner).reg) := by
  unfold Sweep.tryHole at taken
  dsimp only at taken
  split at taken
  · cases taken
  · split at taken
    · cases taken
    · rename_i e found
      cases taken
      have fits := List.find?_some found
      simp only [Sweep.holeTakes, Bool.and_eq_true, decide_eq_true_eq] at fits
      refine ⟨e, List.mem_of_find?_eq_some found, fits.1.2, rfl, flagged_same s.store n, rfl, rfl, rfl, ?_, ?_, rfl,
        rfl, _, rfl, by simp⟩
      · intro e' member
        obtain ⟨before, held, same⟩ := List.mem_map.mp member
        refine ⟨before, held, ?_⟩
        rw [← same]
        unfold Sweep.occupy
        split <;> rfl
      · simp only [Sweep.note, Sweep.assign, (flagged_same s.store n n).reg]

/-! ## Spilled registers -/

/-- Active intervals are those of registers, and so are the spilled ones, which are all the sweep tells of. -/
structure Roster (k : Kernel) (s : Sweep) : Prop where
  shape : ∀ n, Same (s.store.get n) (span k n)
  active : ∀ a ∈ s.active, Live k a
  spilled : ∀ r ∈ s.spilled, ∃ n, Live k n ∧ (span k n).reg = r
  told : ∀ iv at_ reused, PlacementEvent.spilled iv at_ reused ∈ s.log → iv.reg ∈ s.spilled

theorem Roster.expires (roster : Roster k s) (expires : Expires s s') : Roster k s' := by
  obtain ⟨shape, active, spilled, told⟩ := roster
  rw [← expires.store] at shape
  rw [← expires.spilled] at spilled
  rw [← expires.log, ← expires.spilled] at told
  exact ⟨shape, fun a member => active a (expires.active.mem member), spilled, told⟩

theorem Roster.puts {offset : UInt32} (roster : Roster k s) (live : Live k n) (puts : Puts s s' n offset) :
    Roster k s' := by
  obtain ⟨e, log, plain⟩ := puts.log
  refine ⟨fun m => (puts.shape m).trans (roster.shape m), ?_, ?_, ?_⟩
  · intro a member
    rw [puts.active] at member
    rcases List.mem_append.mp member with before | new
    · exact roster.active a before
    · rw [List.mem_singleton.mp new]
      exact live
  · rw [puts.spilled]
    exact roster.spilled
  · intro iv at_ reused event
    rw [log] at event
    rw [puts.spilled]
    rcases List.mem_append.mp event with before | new
    · exact roster.told iv at_ reused before
    · exact absurd (List.mem_singleton.mp new).symm (plain iv at_ reused)

theorem unplace_store (s : Sweep) (n : Nat) : (s.unplace n).store = s.store := by
  unfold Sweep.unplace
  split
  · exact (deactivate_expires s n).store
  · rfl

theorem unplace_spilled (s : Sweep) (n : Nat) :
    (s.unplace n).spilled = s.spilled ∧ (s.unplace n).log = s.log ∧ (s.unplace n).scratch = s.scratch := by
  unfold Sweep.unplace
  split
  · have expires := deactivate_expires s n
    exact ⟨expires.spilled, expires.log, expires.scratch⟩
  · exact ⟨rfl, rfl, rfl⟩

theorem Roster.spill (roster : Roster k s) (live : Live k n) (spilled : s.spill lv cfg n = .ok s') :
    Roster k s' := by
  have spills := spill_cases spilled
  obtain ⟨listed, log, -⟩ := unplace_spilled s n
  obtain ⟨offset, reused, -, told⟩ := spills.scratch
  refine ⟨?_, ?_, ?_, ?_⟩
  · rw [spills.store, unplace_store]
    exact roster.shape
  · intro a member
    rw [spills.active, unplace_active] at member
    exact roster.active a (List.mem_of_mem_erase member)
  · intro r member
    rw [spills.spilled, listed] at member
    rcases List.mem_append.mp member with before | new
    · exact roster.spilled r before
    · rw [List.mem_singleton.mp new]
      exact ⟨n, live, (roster.shape n).reg.symm⟩
  · intro iv at_ reused event
    rw [told, log] at event
    rw [spills.spilled, listed]
    rcases List.mem_append.mp event with before | new
    · exact List.mem_append_left _ (roster.told iv at_ reused before)
    · cases List.mem_singleton.mp new
      exact List.mem_append_right _ List.mem_cons_self

theorem Roster.settles {r : Except (Stopped PlacementEvent) Sweep} (roster : Roster k s) (live : Live k n)
    (settles : Settles k lv cfg n avoid s r) (ran : r = .ok s') : Roster k s' := by
  induction settles with
  | placed found =>
    cases ran
    exact roster.puts live (assign_puts _ _ _ (allocate_window found) (by simp))
  | refused => cases ran
  | itself => exact roster.spill live ran
  | failed => cases ran
  | again full spills victim spilled rest ih =>
    exact ih (roster.spill (roster.active _ (victim_spec victim).1) spilled) ran

theorem openHole_same (lv : Liveness) (cfg : SweepConfig) (n : Nat) (s : Sweep) :
    (s.openHole lv cfg n).store = s.store ∧
    (s.openHole lv cfg n).active = s.active ∧ (s.openHole lv cfg n).spilled = s.spilled ∧
    (s.openHole lv cfg n).log = s.log := by
  unfold Sweep.openHole
  dsimp only
  split
  · split <;> exact ⟨rfl, rfl, rfl, rfl⟩
  · exact ⟨rfl, rfl, rfl, rfl⟩

theorem Roster.visit (roster : Roster k s) (held : n < (Liveness.ofKernel k).store.size)
    (visited : Sweep.visit k lv cfg s n = .ok s') : Roster k s' := by
  have expired := roster.expires (expire_expires s (s.store.get n).min)
  rcases visit_cases visited with ⟨-, rfl⟩ | ⟨live, placed⟩
  · obtain ⟨store, active, spilled, log⟩ := openHole_same lv cfg n (s.expire (s.store.get n).min)
    obtain ⟨shape, lively, listed, told⟩ := expired
    rw [← store] at shape
    rw [← active] at lively
    rw [← spilled] at listed
    rw [← log, ← spilled] at told
    exact ⟨shape, lively, listed, told⟩
  · have live : Live k n := ⟨held, by rw [← (roster.shape n).hole]; exact live⟩
    rcases placed with ⟨offset, -, pinned⟩ | ⟨-, taken | ⟨avoid, settles⟩⟩
    · exact expired.puts live (placePinned_puts pinned).1
    · obtain ⟨e, -, -, -, puts⟩ := tryHole_puts taken
      exact expired.puts live puts
    · exact expired.settles live settles rfl

theorem visits_roster (rest : List Nat) (roster : Roster k s)
    (held : ∀ n ∈ rest, n < (Liveness.ofKernel k).store.size)
    (visited : rest.foldlM (Sweep.visit k lv cfg) s = .ok s') : Roster k s' := by
  induction rest generalizing s with
  | nil =>
    rw [List.foldlM_nil, pure_ok] at visited
    exact visited ▸ roster
  | cons n rest ih =>
    rw [List.foldlM_cons, bind_ok] at visited
    obtain ⟨t, first, others⟩ := visited
    exact ih (roster.visit (held n List.mem_cons_self) first)
      (fun m member => held m (List.mem_cons_of_mem _ member)) others

/-- A sweep is a sequence of visits to all intervals, each once. -/
theorem run_visits {reserve scratchBase : UInt32}
    (ran : Sweep.run k (Liveness.ofKernel k) cfg reserve scratchBase = .ok s) :
    ∃ order : List Nat, order.Nodup ∧ (∀ n, n ∈ order ↔ n < (Liveness.ofKernel k).store.size) ∧
      order.foldlM (Sweep.visit k (Liveness.ofKernel k) cfg)
        (Sweep.start (Liveness.ofKernel k) cfg reserve scratchBase) = .ok s := by
  unfold Sweep.run at ran
  split at ran
  · cases ran
  · obtain ⟨nodup, all, -⟩ := freshStore_ordered k Interval.min fun n => (freshStore_get k n).min
    exact ⟨_, nodup, all, ran⟩

theorem start_roster (k : Kernel) (cfg : SweepConfig) (reserve scratchBase : UInt32) :
    Roster k (Sweep.start (Liveness.ofKernel k) cfg reserve scratchBase) :=
  ⟨freshStore_get k, nofun, nofun, nofun⟩

theorem run_roster {reserve scratchBase : UInt32}
    (ran : Sweep.run k (Liveness.ofKernel k) cfg reserve scratchBase = .ok s) : Roster k s := by
  obtain ⟨order, -, all, visited⟩ := run_visits ran
  exact visits_roster order (start_roster k cfg reserve scratchBase) (fun n member => (all n).mp member) visited

end

end GpuCodegen.Placement
