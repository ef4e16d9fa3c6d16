import GpuCodegen.Proofs.SweepInvariant

/-! No two live registers share bytes. Every way in which a sweep gives an interval a place keeps the
invariant: a free range is apart from all places that are held, unless one is pinned across an end of the
window; a pin outside the window is compared with all of them; and a borrowed place is apart from all but
its host. -/

namespace GpuCodegen.Placement
open FreePool LiveIntervals Outcome

section
variable {k : Kernel} {base limit : UInt32} {done : List Nat} {cur : Int} {s s' : Sweep}

/-! ## Steps that add a place -/

/-- The host of an active borrower is active and holds a place of its own. -/
theorem Invariant.host_active (inv : Invariant k base limit done cur s)
    (fresh : ∀ a ∈ s.active, cur ≤ (span k a).max) {a h : Nat} (member : (a, h) ∈ s.hosts) :
    h ∈ s.active ∧ ¬ Borrows s h := by
  obtain ⟨active, host, unflagged, -, later, j, loan⟩ := inv.hosts a h member
  refine ⟨?_, ?_⟩
  · by_cases still : h ∈ s.active
    · exact still
    · have ended := inv.ended h loan.host host still
      have reaches := fresh a active
      omega
  · rintro ⟨h', again⟩
    obtain ⟨j', loan'⟩ := (inv.hosts h h' again).loan
    have flagged := loan'.flagged
    rw [unflagged] at flagged
    cases flagged

/-- A mapped interval that overlaps one starting now is still active. -/
theorem Invariant.active_of_overlap (inv : Invariant k base limit done cur s) {a b : Nat}
    (live : Live k a) (mapped : Mapped k s a) (start : (span k b).min = cur) (overlap : Overlap k a b) :
    a ∈ s.active := by
  by_cases active : a ∈ s.active
  · exact active
  · have ended := inv.ended a live mapped active
    have reaches := overlap.2
    omega

/-- A register with a hole has no pin, so it lies in the window. -/
theorem Invariant.owner_inside (inv : Invariant k base limit done cur s) {h j : Nat} (live : Live k h)
    (mapped : Mapped k s h) (hollow : Hollow k j) (owner : (span k j).reg = (span k h).reg) : Inside k s h :=
  (inv.lies h live mapped).free (owner ▸ hollow.isHole.unpinned)

theorem Invariant.host_inside (inv : Invariant k base limit done cur s) {a h : Nat} (member : (a, h) ∈ s.hosts) :
    Inside k s h := by
  obtain ⟨-, host, -, -, -, j, loan⟩ := inv.hosts a h member
  exact inv.owner_inside loan.host host loan.hollow loan.owner

/-- What is apart from all places held is apart from all borrowed ones too. -/
theorem Invariant.apart_of_owners (inv : Invariant k base limit done cur s)
    (fresh : ∀ a ∈ s.active, cur ≤ (span k a).max) {offset size : UInt32}
    (owners : ∀ a ∈ s.active, ¬ Borrows s a → ¬ Straddles k s a → Apart (place k s a) (span k a).slot offset size)
    {a : Nat} (active : a ∈ s.active) (crossless : ¬ Straddles k s a) :
    Apart (place k s a) (span k a).slot offset size := by
  by_cases borrows : Borrows s a
  · obtain ⟨h, member⟩ := borrows
    obtain ⟨hostActive, borrowless⟩ := inv.host_active fresh member
    obtain ⟨low, high⟩ := (inv.hosts a h member).within
    have apart := owners h hostActive borrowless (inv.host_inside member).not_straddles
    unfold Apart at apart ⊢
    omega
  · exact owners a active borrows crossless

theorem Invariant.not_active (inv : Invariant k base limit done cur s) {b : Nat} (new : b ∉ done) :
    b ∉ s.active :=
  fun active => new (inv.mapped b (inv.active b active).1 (inv.active b active).2)

theorem Invariant.ne_new (inv : Invariant k base limit done cur s) {a b : Nat} (new : b ∉ done)
    (live : Live k a) (mapped : Mapped k s a) : a ≠ b := by
  rintro rfl
  exact new (inv.mapped a live mapped)

/-- A step that gives an interval a place and leaves all other places alone. -/
structure Adds (k : Kernel) (s s' : Sweep) (b : Nat) (offset : UInt32) : Prop where
  active : s'.active = s.active ++ [b]
  offsets : s'.offsets = s.offsets.insert (span k b).reg offset
  mapped : offset ≠ unmapped
  ending : s'.ending = s.ending
  window : s'.pool.base = s.pool.base ∧ s'.pool.limit = s.pool.limit
  told : ∀ r host, Reuses s r host → Reuses s' r host

theorem Adds.here {b : Nat} {offset : UInt32} (adds : Adds k s s' b offset) : place k s' b = offset := by
  rw [place, adds.offsets, RegisterMap.get_insert_self]

theorem Adds.kept {b m : Nat} {offset : UInt32} (adds : Adds k s s' b offset) (live : Live k b)
    (liveM : Live k m) (differs : m ≠ b) : place k s' m = place k s m := by
  rw [place, adds.offsets, RegisterMap.get_insert_of_ne _ (liveM.reg_ne live differs), place]

theorem Adds.mapped_iff {b m : Nat} {offset : UInt32} (adds : Adds k s s' b offset) (live : Live k b)
    (liveM : Live k m) (differs : m ≠ b) : Mapped k s' m ↔ Mapped k s m := by
  unfold Mapped
  rw [adds.kept live liveM differs]

theorem Adds.mem_active {b a : Nat} {offset : UInt32} (adds : Adds k s s' b offset) :
    a ∈ s'.active ↔ a ∈ s.active ∨ a = b := by
  rw [adds.active, List.mem_append, List.mem_singleton]

theorem Invariant.kept_active (inv : Invariant k base limit done cur s) {a b : Nat} {offset : UInt32}
    (adds : Adds k s s' b offset) (live : Live k b) (new : b ∉ done) (active : a ∈ s.active) :
    place k s' a = place k s a := by
  obtain ⟨liveA, mapped⟩ := inv.active a active
  exact adds.kept live liveA (inv.ne_new new liveA mapped)

/-- What is left to show of a step that adds a place: the new interval is apart from those it overlaps,
its host excepted, and the books about pool, hosts and holes are kept. -/
theorem Invariant.add (inv : Invariant k base limit done cur s) {b : Nat} {offset : UInt32}
    (live : Live k b) (new : b ∉ done) (start : (span k b).min = cur) (adds : Adds k s s' b offset)
    (size : s'.store.size = s.store.size) (shape : ∀ n, Same (s'.store.get n) (span k n))
    (pool : s'.pool.WellFormed) (lies : Lies k s' b)
    (own : ∀ a ∈ s'.active, ¬ Borrows s' a → Owns k s' a)
    (apart : ∀ a ∈ s'.active, ∀ c ∈ s'.active, a ≠ c → ¬ Borrows s' a → ¬ Borrows s' c →
      ¬ Straddles k s' a → ¬ Straddles k s' c → Aside k s' a c)
    (hosts : ∀ a h, (a, h) ∈ s'.hosts → Borrowing k (done ++ [b]) s' a h)
    (holes : ∀ e ∈ s'.holes, Opened k (done ++ [b]) s' e)
    (told : ∀ iv owner hole, PlacementEvent.borrowed iv owner hole ∈ s'.log →
      ∃ a h j, iv.reg = (span k a).reg ∧ owner = (span k h).reg ∧ Loan k (done ++ [b]) s' a h j)
    (meets : ∀ a, Live k a → Mapped k s a → ¬ Straddles k s a → Overlap k a b →
      Aside k s' a b ∨ Hosted k s' b a)
    (reusers : ∀ a c h, Live k a → Live k c → Live k h → a ≠ c →
      Reuses s' (span k a).reg (span k h).reg → Reuses s' (span k c).reg (span k h).reg →
        ¬ Overlap k a c) :
    Invariant k base limit (done ++ [b]) cur s' := by
  refine ⟨size.trans inv.size, shape, ?_, pool, ?_, ?_, ?_, ?_, ?_, ?_, own, apart, hosts, holes, told, ?_, reusers,
    ?_, ?_, ?_⟩
  · rw [adds.window.1, adds.window.2]
    exact inv.window
  · rw [adds.active]
    refine List.nodup_append.mpr ⟨inv.nodup, by simp, ?_⟩
    rintro a active x last rfl
    exact inv.not_active new (List.mem_singleton.mp last ▸ active)
  · intro a active
    rcases adds.mem_active.mp active with before | rfl
    · obtain ⟨liveA, mappedA⟩ := inv.active a before
      exact ⟨liveA, (adds.mapped_iff live liveA (inv.ne_new new liveA mappedA)).mpr mappedA⟩
    · refine ⟨live, ?_⟩
      unfold Mapped
      rw [adds.here]
      exact adds.mapped
  · intro n liveN mappedN
    by_cases same : n = b
    · exact List.mem_append_right _ (List.mem_singleton.mpr same)
    · exact List.mem_append_left _ (inv.mapped n liveN ((adds.mapped_iff live liveN same).mp mappedN))
  · intro n liveN mappedN
    by_cases same : n = b
    · exact Int.le_of_eq (by rw [same, start])
    · exact inv.started n liveN ((adds.mapped_iff live liveN same).mp mappedN)
  · intro n liveN mappedN
    by_cases same : n = b
    · exact same ▸ lies
    · exact (inv.lies n liveN ((adds.mapped_iff live liveN same).mp mappedN)).kept (adds.kept live liveN same)
        adds.window
  · intro n liveN mappedN gone
    have absent := fun active => gone (adds.mem_active.mpr active)
    have differs : n ≠ b := fun same => absent (.inr same)
    exact inv.ended n liveN ((adds.mapped_iff live liveN differs).mp mappedN)
      fun active => absent (.inl active)
  · intro a c liveA liveC differs mappedA mappedC overlap laterA laterC
    -- What was placed before starts no later, so it may share only with what is placed now if it crosses an end.
    have earlier {m : Nat} (liveM : Live k m) (differs : m ≠ b) (before : Mapped k s m)
        (later : Straddles k s' m → (span k b).min < (span k m).min) : ¬ Straddles k s m := by
      intro crosses
      have first := inv.started m liveM before
      have after := later ((straddles_congr (adds.kept live liveM differs) adds.window).mpr crosses)
      omega
    by_cases sameA : a = b
    · subst sameA
      have before := (adds.mapped_iff live liveC differs.symm).mp mappedC
      rcases meets c liveC before (earlier liveC differs.symm before laterC) ⟨overlap.2, overlap.1⟩ with aside | guest
      · exact .inl aside.symm
      · exact .inr (.inl guest)
    · have beforeA := (adds.mapped_iff live liveA sameA).mp mappedA
      by_cases sameC : c = b
      · subst sameC
        rcases meets a liveA beforeA (earlier liveA sameA beforeA laterA) overlap with aside | guest
        · exact .inl aside
        · exact .inr (.inr guest)
      · have beforeC := (adds.mapped_iff live liveC sameC).mp mappedC
        rw [straddles_congr (adds.kept live liveA sameA) adds.window] at laterA
        rw [straddles_congr (adds.kept live liveC sameC) adds.window] at laterC
        exact pair_kept (adds.kept live liveA sameA) (adds.kept live liveC sameC) adds.told
          (inv.pairs a c liveA liveC differs beforeA beforeC overlap laterA laterC)
  · intro a active
    rw [adds.ending]
    rcases adds.mem_active.mp active with before | rfl
    · exact inv.ending a before
    · exact inv.upcoming a live.held (start ▸ live.valid)
  · rw [adds.ending]
    exact inv.upcoming
  · rw [adds.ending]
    exact inv.sorted

/-- A borrowing interval of before the step still borrows. -/
theorem Invariant.borrowing_kept (inv : Invariant k base limit done cur s) {a h b : Nat} {offset : UInt32}
    (adds : Adds k s s' b offset) (live : Live k b) (new : b ∉ done)
    (flags : ∀ m, m ≠ b → s'.store.get m = s.store.get m)
    (loans : ∀ a h j, Loan k done s a h j → Loan k (done ++ [b]) s' a h j) (member : (a, h) ∈ s.hosts) :
    Borrowing k (done ++ [b]) s' a h := by
  obtain ⟨active, host, unflagged, within, later, j, loan⟩ := inv.hosts a h member
  have differs := inv.ne_new new loan.host host
  refine ⟨adds.mem_active.mpr (.inl active), (adds.mapped_iff live loan.host differs).mpr host, ?_, ?_,
    later, j, loans a h j loan⟩
  · rw [flags h differs]
    exact unflagged
  · exact (within_congr (inv.kept_active adds live new active) (adds.kept live loan.host differs)).mpr
      within

/-- A hole that was open before the step can still be lent. -/
theorem Invariant.opened_kept (inv : Invariant k base limit done cur s) {e e' : OpenHole} {b : Nat}
    {offset : UInt32} (adds : Adds k s s' b offset) (live : Live k b) (new : b ∉ done)
    (flags : ∀ m, m ≠ b → s'.store.get m = s.store.get m) (member : e ∈ s.holes)
    (hole : e'.hole = e.hole) (owner : e'.owner = e.owner) : Opened k (done ++ [b]) s' e' := by
  obtain ⟨hollow, doneHole, liveOwner, owned, doneOwner, mapped, unflagged⟩ := inv.holes e member
  have differs := inv.ne_new new liveOwner mapped
  have more : ∀ n ∈ done, n ∈ done ++ [b] := fun n => List.mem_append_left _
  constructor
  case hollow => exact hole ▸ hollow
  case doneHole => exact hole ▸ more _ doneHole
  case live => exact owner ▸ liveOwner
  case owner =>
    rw [hole, owner]
    exact owned
  case doneOwner => exact owner ▸ more _ doneOwner
  case mapped =>
    rw [owner]
    exact (adds.mapped_iff live liveOwner differs).mpr mapped
  case unflagged =>
    rw [owner, flags _ differs]
    exact unflagged

/-! ## Places of one's own -/

/-- A step that gives an interval a place of its own. -/
structure Admits (k : Kernel) (s s' : Sweep) (b : Nat) (offset : UInt32) : Prop where
  store : s'.store = s.store
  active : s'.active = s.active ++ [b]
  holes : s'.holes = s.holes
  hosts : s'.hosts = s.hosts
  offsets : s'.offsets = s.offsets.insert (span k b).reg offset
  mapped : offset ≠ unmapped
  log : ∀ iv owner hole, PlacementEvent.borrowed iv owner hole ∈ s'.log ↔
    PlacementEvent.borrowed iv owner hole ∈ s.log
  ending : s'.ending = s.ending
  window : s'.pool.base = s.pool.base ∧ s'.pool.limit = s.pool.limit
  pool : s'.pool.WellFormed
  free : ∀ x, s'.pool.IsFree x → s.pool.IsFree x
  lies : Lies k s' b
  own : Owns k s' b
  owners : ∀ a ∈ s.active, ¬ Borrows s a → ¬ Straddles k s a →
    Apart (place k s a) (span k a).slot offset (span k b).slot

theorem Admits.adds {b : Nat} {offset : UInt32} (admits : Admits k s s' b offset) :
    Adds k s s' b offset :=
  ⟨admits.active, admits.offsets, admits.mapped, admits.ending, admits.window,
    fun _ _ => (reuses_congr admits.log).mpr⟩

theorem Invariant.admit (inv : Invariant k base limit done cur s)
    (fresh : ∀ a ∈ s.active, cur ≤ (span k a).max) {b : Nat} {offset : UInt32} (live : Live k b)
    (new : b ∉ done) (start : (span k b).min = cur) (admits : Admits k s s' b offset) :
    Invariant k base limit (done ++ [b]) cur s' := by
  have adds := admits.adds
  have borrows {a : Nat} : Borrows s' a ↔ Borrows s a := by
    unfold Borrows
    rw [admits.hosts]
  have loans (a h j : Nat) (loan : Loan k done s a h j) : Loan k (done ++ [b]) s' a h j :=
    (loan.shrink admits.store (by rw [admits.holes]; exact fun _ => id)).mono
      fun n => List.mem_append_left _
  have flags (m : Nat) (_ : m ≠ b) : s'.store.get m = s.store.get m := by rw [admits.store]
  have kept {a : Nat} (active : a ∈ s.active) := inv.kept_active adds live new active
  have crosses {a : Nat} (active : a ∈ s.active) : Straddles k s' a ↔ Straddles k s a :=
    straddles_congr (kept active) admits.window
  have aside {a : Nat} (active : a ∈ s.active) (crossless : ¬ Straddles k s a) : Aside k s' a b := by
    unfold Aside
    rw [kept active, adds.here]
    exact inv.apart_of_owners fresh admits.owners active crossless
  refine inv.add live new start adds (by rw [admits.store]) (by rw [admits.store]; exact inv.shape)
    admits.pool admits.lies ?_ ?_ ?_ ?_ ?_ ?_ ?_
  · intro a active borrowless
    rcases adds.mem_active.mp active with before | rfl
    · exact (inv.own a before (fun h => borrowless (borrows.mpr h))).kept (kept before) admits.window
        fun _ x _ => admits.free x
    · exact admits.own
  · intro a activeA c activeC differs borrowlessA borrowlessC crosslessA crosslessC
    rcases adds.mem_active.mp activeA with beforeA | rfl
    · rw [crosses beforeA] at crosslessA
      rcases adds.mem_active.mp activeC with beforeC | rfl
      · rw [crosses beforeC] at crosslessC
        rw [aside_congr (kept beforeA) (kept beforeC)]
        exact inv.apart a beforeA c beforeC differs (fun h => borrowlessA (borrows.mpr h))
          (fun h => borrowlessC (borrows.mpr h)) crosslessA crosslessC
      · exact aside beforeA crosslessA
    · rcases adds.mem_active.mp activeC with beforeC | rfl
      · rw [crosses beforeC] at crosslessC
        exact (aside beforeC crosslessC).symm
      · exact absurd rfl differs
  · intro a h hosted
    rw [admits.hosts] at hosted
    exact inv.borrowing_kept adds live new flags loans hosted
  · intro e opened
    rw [admits.holes] at opened
    exact inv.opened_kept adds live new flags opened rfl rfl
  · intro iv owner hole event
    obtain ⟨a, h, j, reg, named, loan⟩ := inv.told iv owner hole ((admits.log _ _ _).mp event)
    exact ⟨a, h, j, reg, named, loans a h j loan⟩
  · intro a liveA mappedA crossless overlap
    exact .inl (aside (inv.active_of_overlap liveA mappedA start overlap) crossless)
  · intro a c h liveA liveC liveH differs reusesA reusesC
    exact inv.reusers a c h liveA liveC liveH differs ((reuses_congr admits.log).mp reusesA)
      ((reuses_congr admits.log).mp reusesC)

/-! ## Borrowed places -/

/-- An open hole in which an interval starts after the last guest left. -/
structure Takes (k : Kernel) (s : Sweep) (b : Nat) (e : OpenHole) : Prop where
  opened : e ∈ s.holes
  inside : (span k e.hole).min < (span k b).min ∧ (span k b).max < (span k e.hole).max
  vacant : e.busyUntil < (span k b).min
  room : (span k b).slot.toNat ≤ (span k e.owner).slot.toNat

/-- Guests of one host do not meet: in one hole the next comes after the last, and holes of one
register share no inner point. -/
theorem Loan.not_overlap {a h j b : Nat} {e : OpenHole} (loan : Loan k done s a h j)
    (hollow : Hollow k e.hole) (owner : (span k e.hole).reg = (span k h).reg)
    (takes : Takes k s b e) : ¬ Overlap k a b := by
  rintro ⟨early, late⟩
  by_cases same : e.hole = j
  · have busy := loan.busy e takes.opened same
    have vacant := takes.vacant
    omega
  · have gap := holes_apart loan.hollow.held hollow.held loan.hollow.hole hollow.hole
      (fun equal => same equal.symm) (loan.owner.trans owner.symm)
    change (span k j).max ≤ (span k e.hole).min ∨ (span k e.hole).max ≤ (span k j).min at gap
    obtain ⟨lowA, highA⟩ := loan.inside
    obtain ⟨lowB, highB⟩ := takes.inside
    omega

/-- A step that puts an interval into the place of a hole's owner. -/
structure Lends (k : Kernel) (s s' : Sweep) (b : Nat) (e : OpenHole) : Prop where
  takes : Takes k s b e
  store : s'.store = s.store.modify b fun iv => { iv with reused := true }
  pool : s'.pool = s.pool
  active : s'.active = s.active ++ [b]
  holes : s'.holes = s.holes.map (Sweep.occupy e (span k b).max)
  hosts : s'.hosts = s.hosts ++ [(b, e.owner)]
  offsets : s'.offsets = s.offsets.insert (span k b).reg (place k s e.owner)
  ending : s'.ending = s.ending
  log : ∃ iv hole, iv.reg = (span k b).reg ∧
    s'.log = s.log ++ [.borrowed iv (span k e.owner).reg hole]

theorem tryHole_lends {cfg : SweepConfig} {b : Nat} (inv : Invariant k base limit done cur s)
    (taken : s.tryHole cfg b = some s') (live : Live k b) (new : b ∉ done) : ∃ e, Lends k s s' b e := by
  unfold Sweep.tryHole at taken
  simp only at taken
  split at taken
  · cases taken
  · split at taken
    · cases taken
    · rename_i e found
      have opened : e ∈ s.holes := List.mem_of_find?_eq_some found
      have fits := List.find?_some found
      simp only [Sweep.holeTakes, Interval.inside, Bool.and_eq_true, decide_eq_true_eq,
        (inv.shape b).min, (inv.shape b).max, (inv.shape e.hole).min, (inv.shape e.hole).max,
        (inv.shape b).slot, (inv.shape e.owner).slot] at fits
      obtain ⟨⟨⟨⟨-, inside⟩, vacant⟩, room⟩, -⟩ := fits
      have held : b < s.store.size := by
        rw [inv.size]
        exact live.held
      have other : b ≠ e.owner := by
        rintro rfl
        exact new (inv.holes e opened).doneOwner
      simp only [Option.some.injEq] at taken
      subst taken
      refine ⟨e, ⟨opened, inside, vacant, UInt32.le_iff_toNat_le.mp room⟩, rfl, rfl, rfl, ?_, rfl, ?_, rfl,
        ⟨(s.store.modify b fun iv => { iv with reused := true }).get b,
          (s.store.modify b fun iv => { iv with reused := true }).get e.hole, ?_, ?_⟩⟩
      · simp only [Sweep.note, Sweep.assign, (inv.shape b).max]
      · simp only [Sweep.note, Sweep.assign, IntervalStore.get_modify_self held,
          (inv.shape b).reg, (inv.shape e.owner).reg]
        rfl
      · rw [IntervalStore.get_modify_self held]
        exact (inv.shape b).reg
      · simp only [Sweep.note, Sweep.assign, (inv.shape e.owner).reg]

theorem mem_occupied {e taken : OpenHole} {last : Int} {holes : List OpenHole}
    (member : e ∈ holes.map (Sweep.occupy taken last)) :
    ∃ before ∈ holes, e.hole = before.hole ∧ e.owner = before.owner ∧
      e.busyUntil = if before.hole = taken.hole then last else before.busyUntil := by
  obtain ⟨before, opened, rfl⟩ := List.mem_map.mp member
  refine ⟨before, opened, ?_⟩
  unfold Sweep.occupy
  split <;> exact ⟨rfl, rfl, rfl⟩

theorem Lends.adds {b : Nat} {e : OpenHole} (lends : Lends k s s' b e) (opened : Opened k done s e) :
    Adds k s s' b (place k s e.owner) := by
  refine ⟨lends.active, lends.offsets, opened.mapped, lends.ending, ?_, ?_⟩
  · rw [lends.pool]
    exact ⟨rfl, rfl⟩
  · rintro r host ⟨iv, hole, found, reg⟩
    obtain ⟨iv', hole', -, log⟩ := lends.log
    exact ⟨iv, hole, by simp [log, found], reg⟩

/-- Earlier loans stay, and so does what is known of their hole: it is busy for longer. -/
theorem Lends.loan_kept {a h j b : Nat} {e : OpenHole} (lends : Lends k s s' b e) (live : Live k b)
    (new : b ∉ done) (loan : Loan k done s a h j) : Loan k (done ++ [b]) s' a h j := by
  have valid := live.valid
  have differs : a ≠ b := fun same => new (same ▸ loan.doneReuser)
  refine ⟨loan.reuser, loan.host, loan.hollow, loan.owner, List.mem_append_left _ loan.doneReuser,
    List.mem_append_left _ loan.doneHole, loan.inside, ?_, ?_⟩
  · rw [lends.store, IntervalStore.get_modify_of_ne _ differs.symm]
    exact loan.flagged
  · intro x occupied same
    rw [lends.holes] at occupied
    obtain ⟨before, wasOpen, hole, -, busy⟩ := mem_occupied occupied
    have earlier := loan.busy before wasOpen (hole ▸ same)
    rw [busy]
    split
    · rename_i again
      have sameHole : e.hole = j := again.symm.trans (hole.symm.trans same)
      have last := loan.busy e lends.takes.opened sameHole
      have vacant := lends.takes.vacant
      omega
    · exact earlier

theorem Lends.borrowed {b : Nat} {e : OpenHole} {iv hole : Interval} {owner : VReg}
    (lends : Lends k s s' b e) (event : PlacementEvent.borrowed iv owner hole ∈ s'.log) :
    PlacementEvent.borrowed iv owner hole ∈ s.log ∨
      iv.reg = (span k b).reg ∧ owner = (span k e.owner).reg := by
  obtain ⟨iv', hole', reg, log⟩ := lends.log
  rw [log, List.mem_append, List.mem_singleton] at event
  rcases event with before | added
  · exact .inl before
  · cases added
    exact .inr ⟨reg, rfl⟩

theorem Lends.reuses {b x h : Nat} {e : OpenHole} (lends : Lends k s s' b e) (live : Live k b)
    (owner : Live k e.owner) (liveX : Live k x) (liveH : Live k h)
    (reuses : Reuses s' (span k x).reg (span k h).reg) :
    Reuses s (span k x).reg (span k h).reg ∨ x = b ∧ h = e.owner := by
  obtain ⟨iv, hole, found, reg⟩ := reuses
  rcases lends.borrowed found with before | ⟨regB, regH⟩
  · exact .inl ⟨iv, hole, before, reg⟩
  · right
    refine ⟨?_, ?_⟩
    · by_cases same : x = b
      · exact same
      · exact absurd (reg.symm.trans regB) (liveX.reg_ne live same)
    · by_cases same : h = e.owner
      · exact same
      · exact absurd regH (liveH.reg_ne owner same)

/-- Whatever the sweep told of a guest is backed by a loan. -/
theorem Invariant.loan_of_reuses (inv : Invariant k base limit done cur s) {a h : Nat} (liveA : Live k a)
    (liveH : Live k h) (reuses : Reuses s (span k a).reg (span k h).reg) : ∃ j, Loan k done s a h j := by
  obtain ⟨iv, hole, found, reg⟩ := reuses
  obtain ⟨a', h', j, regA, regH, loan⟩ := inv.told iv _ hole found
  by_cases sameA : a' = a
  · by_cases sameH : h' = h
    · subst sameA sameH
      exact ⟨j, loan⟩
    · exact absurd regH.symm (loan.host.reg_ne liveH sameH)
  · exact absurd (regA.symm.trans reg) (loan.reuser.reg_ne liveA sameA)

theorem Opened.owns {e : OpenHole} (opened : Opened k done s e)
    (inv : Invariant k base limit done cur s) : ¬ Borrows s e.owner := by
  rintro ⟨h, hosting⟩
  obtain ⟨j, loan⟩ := (inv.hosts _ _ hosting).loan
  have flagged := loan.flagged
  rw [opened.unflagged] at flagged
  cases flagged

/-- The owner's place is apart from every active place that the new guest overlaps. -/
theorem Invariant.aside_owner (inv : Invariant k base limit done cur s)
    (fresh : ∀ a ∈ s.active, cur ≤ (span k a).max) {a b : Nat} {e : OpenHole} (takes : Takes k s b e)
    (ownerActive : e.owner ∈ s.active) (active : a ∈ s.active) (crossless : ¬ Straddles k s a)
    (overlap : Overlap k a b) (differs : a ≠ e.owner) : Aside k s a e.owner := by
  have opened := inv.holes e takes.opened
  have owns := opened.owns inv
  have inside := inv.owner_inside opened.live opened.mapped opened.hollow opened.owner
  by_cases borrows : Borrows s a
  · obtain ⟨h, hosting⟩ := borrows
    obtain ⟨hostActive, hostOwns⟩ := inv.host_active fresh hosting
    obtain ⟨-, -, -, within, -, j, loan⟩ := inv.hosts a h hosting
    by_cases same : h = e.owner
    · subst same
      exact absurd overlap (loan.not_overlap opened.hollow opened.owner takes)
    · exact (inv.apart h hostActive e.owner ownerActive same hostOwns owns
        (inv.host_inside hosting).not_straddles inside.not_straddles).within within
  · exact inv.apart a active e.owner ownerActive differs borrows owns crossless inside.not_straddles

theorem Takes.outlived {b : Nat} {e : OpenHole} (takes : Takes k s b e) (opened : Opened k done s e) :
    (span k b).max < (span k e.owner).max :=
  Int.lt_of_lt_of_le takes.inside.2 (opened.hollow.owner_max opened.live opened.owner)

/-- The new interval borrows, so whoever owns a place owned it before. -/
theorem Lends.owned_before {a b : Nat} {e : OpenHole} (lends : Lends k s s' b e) (active : a ∈ s'.active)
    (borrowless : ¬ Borrows s' a) : a ∈ s.active ∧ ¬ Borrows s a := by
  rw [lends.active, List.mem_append, List.mem_singleton] at active
  rcases active with before | rfl
  · refine ⟨before, ?_⟩
    rintro ⟨h, hosting⟩
    exact borrowless ⟨h, by simp [lends.hosts, hosting]⟩
  · exact absurd ⟨e.owner, by simp [lends.hosts]⟩ borrowless

theorem Lends.loan {b : Nat} {e : OpenHole} (lends : Lends k s s' b e) (opened : Opened k done s e)
    (live : Live k b) (held : b < s.store.size) : Loan k (done ++ [b]) s' b e.owner e.hole := by
  refine ⟨live, opened.live, opened.hollow, opened.owner, by simp, List.mem_append_left _ opened.doneHole,
    lends.takes.inside, ?_, ?_⟩
  · rw [lends.store, IntervalStore.get_modify_self held]
  · intro x occupied same
    rw [lends.holes] at occupied
    obtain ⟨before, -, hole, -, busy⟩ := mem_occupied occupied
    exact Int.le_of_eq (by rw [busy, if_pos (hole.symm.trans same)])

theorem Invariant.lend_reusers (inv : Invariant k base limit done cur s) {a b c h : Nat} {e : OpenHole}
    (live : Live k b) (lends : Lends k s s' b e) (liveA : Live k a) (liveC : Live k c) (liveH : Live k h)
    (differs : a ≠ c) (reusesA : Reuses s' (span k a).reg (span k h).reg)
    (reusesC : Reuses s' (span k c).reg (span k h).reg) : ¬ Overlap k a c := by
  intro overlap
  have opened := inv.holes e lends.takes.opened
  rcases lends.reuses live opened.live liveA liveH reusesA with beforeA | ⟨rfl, rfl⟩
  · rcases lends.reuses live opened.live liveC liveH reusesC with beforeC | ⟨rfl, rfl⟩
    · exact inv.reusers a c h liveA liveC liveH differs beforeA beforeC overlap
    · obtain ⟨j, loanA⟩ := inv.loan_of_reuses liveA liveH beforeA
      exact loanA.not_overlap opened.hollow opened.owner lends.takes overlap
  · rcases lends.reuses live opened.live liveC liveH reusesC with beforeC | ⟨rfl, -⟩
    · obtain ⟨j, loanC⟩ := inv.loan_of_reuses liveC liveH beforeC
      exact loanC.not_overlap opened.hollow opened.owner lends.takes ⟨overlap.2, overlap.1⟩
    · exact differs rfl

theorem Invariant.lend (inv : Invariant k base limit done cur s)
    (fresh : ∀ a ∈ s.active, cur ≤ (span k a).max) {b : Nat} {e : OpenHole} (live : Live k b)
    (new : b ∉ done) (start : (span k b).min = cur) (free : k.pin? (span k b).reg = none)
    (lends : Lends k s s' b e) : Invariant k base limit (done ++ [b]) cur s' := by
  have opened := inv.holes e lends.takes.opened
  have adds := lends.adds opened
  have held : b < s.store.size := by
    rw [inv.size]
    exact live.held
  have ownerOld := inv.ne_new new opened.live opened.mapped
  have kept {a : Nat} (active : a ∈ s.active) := inv.kept_active adds live new active
  have ownerKept := adds.kept live opened.live ownerOld
  have flags (m : Nat) (differs : m ≠ b) : s'.store.get m = s.store.get m := by
    rw [lends.store, IntervalStore.get_modify_of_ne _ differs.symm]
  have outlived := lends.takes.outlived opened
  have ownerActive : e.owner ∈ s.active := by
    by_cases active : e.owner ∈ s.active
    · exact active
    · have ended := inv.ended e.owner opened.live opened.mapped active
      have valid := live.valid
      omega
  have within : Within k s' b e.owner := by
    unfold Within
    rw [adds.here, ownerKept]
    have room := lends.takes.room
    omega
  have loans (a h j : Nat) (loan : Loan k done s a h j) := lends.loan_kept live new loan
  have loan := lends.loan opened live held
  refine inv.add live new start adds ?_ ?_ ?_ ?_ ?_ ?_ ?_ ?_ ?_ ?_ ?_
  · rw [lends.store, IntervalStore.size_modify]
  · intro n
    by_cases same : n = b
    · subst same
      obtain ⟨reg, min, max, hole, size, triple⟩ := inv.shape n
      rw [lends.store, IntervalStore.get_modify_self held]
      exact ⟨reg, min, max, hole, size, triple⟩
    · rw [flags n same]
      exact inv.shape n
  · rw [lends.pool]
    exact inv.pool
  · refine ⟨fun _ => ?_, fun offset pinned => by rw [free] at pinned; cases pinned⟩
    have inside := (inside_congr ownerKept adds.window).mpr
      (inv.owner_inside opened.live opened.mapped opened.hollow opened.owner)
    unfold Inside at inside ⊢
    unfold Within at within
    omega
  · intro a active borrowless
    obtain ⟨before, borrowless⟩ := lends.owned_before active borrowless
    refine (inv.own a before borrowless).kept (kept before) adds.window ?_
    rw [lends.pool]
    exact fun _ _ _ => id
  · intro a activeA c activeC differs borrowlessA borrowlessC crosslessA crosslessC
    obtain ⟨beforeA, borrowlessA⟩ := lends.owned_before activeA borrowlessA
    obtain ⟨beforeC, borrowlessC⟩ := lends.owned_before activeC borrowlessC
    rw [straddles_congr (kept beforeA) adds.window] at crosslessA
    rw [straddles_congr (kept beforeC) adds.window] at crosslessC
    rw [aside_congr (kept beforeA) (kept beforeC)]
    exact inv.apart a beforeA c beforeC differs borrowlessA borrowlessC crosslessA crosslessC
  · intro a h hosting
    rw [lends.hosts, List.mem_append, List.mem_singleton, Prod.mk.injEq] at hosting
    rcases hosting with before | ⟨rfl, rfl⟩
    · exact inv.borrowing_kept adds live new flags loans before
    · refine ⟨adds.mem_active.mpr (.inr rfl), (adds.mapped_iff live opened.live ownerOld).mpr opened.mapped,
        ?_, within, outlived, e.hole, loan⟩
      rw [flags _ ownerOld]
      exact opened.unflagged
  · intro x occupied
    rw [lends.holes] at occupied
    obtain ⟨before, wasOpen, hole, sameOwner, -⟩ := mem_occupied occupied
    exact inv.opened_kept adds live new flags wasOpen hole sameOwner
  · intro iv owner hole found
    rcases lends.borrowed found with before | ⟨reg, rfl⟩
    · obtain ⟨a, h, j, regA, regH, loanA⟩ := inv.told iv owner hole before
      exact ⟨a, h, j, regA, regH, loans a h j loanA⟩
    · exact ⟨b, e.owner, e.hole, reg, rfl, loan⟩
  · intro a liveA mappedA crossless overlap
    by_cases same : a = e.owner
    · subst same
      obtain ⟨iv, hole, reg, log⟩ := lends.log
      exact .inr ⟨⟨iv, hole, by simp [log], reg⟩,
        ⟨e.hole, opened.hollow, opened.owner, lends.takes.inside⟩, within⟩
    · have active := inv.active_of_overlap liveA mappedA start overlap
      have apart := inv.aside_owner fresh lends.takes ownerActive active crossless overlap same
      have moved : Aside k s' a e.owner := (aside_congr (kept active) ownerKept).mpr apart
      exact .inl (moved.symm.within within).symm
  · intro a c h liveA liveC liveH differs reusesA reusesC
    exact inv.lend_reusers live lends liveA liveC liveH differs reusesA reusesC

end

end GpuCodegen.Placement
