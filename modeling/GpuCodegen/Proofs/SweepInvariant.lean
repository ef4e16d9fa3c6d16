import GpuCodegen.Proofs.FreeRanges
import GpuCodegen.Proofs.LiveIntervals
import GpuCodegen.Proofs.Outcome
import GpuCodegen.Registers.Sweep

/-! What a sweep maintains. Intervals that hold a place of their own are apart from each other and from
the free bytes of the pool; the others sit in the place of a host that outlives them. Nothing is said
about intervals that ended, except that they ended before the current start. -/

namespace GpuCodegen.RegisterMap

theorem get_insert_self (m : RegisterMap) (r : VReg) (offset : UInt32) :
    (m.insert r offset).get r = offset := by
  simp [get, insert]

theorem get_insert_of_ne (m : RegisterMap) {r other : VReg} (differs : other ≠ r) (offset : UInt32) :
    (m.insert r offset).get other = m.get other := by
  simp only [get, insert]
  rw [OrdMap.find?_insert_of_ne _ (LiveIntervals.number_ne differs)]

theorem contains_insert (m : RegisterMap) (r other : VReg) {offset : UInt32} (mapped : offset ≠ unmapped) :
    (m.insert r offset).contains other = true ↔ m.contains other = true ∨ other = r := by
  rw [contains]
  by_cases same : other = r
  · rw [same, get_insert_self]
    simp [mapped]
  · rw [get_insert_of_ne _ same]
    simp [same, contains]

theorem get_erase_self (m : RegisterMap) (r : VReg) : (m.erase r).get r = unmapped := by
  unfold erase
  split
  · simp [get]
  · rename_i absent
    simpa [contains] using absent

theorem get_erase_of_ne (m : RegisterMap) {r other : VReg} (differs : other ≠ r) :
    (m.erase r).get other = m.get other := by
  unfold erase
  split
  · simp only [get]
    rw [OrdMap.find?_erase_of_ne _ (LiveIntervals.number_ne differs)]
  · rfl

end GpuCodegen.RegisterMap

namespace GpuCodegen.Placement
open FreePool LiveIntervals

/-! ## Intervals and places -/

/-- The interval at an index of a kernel's store. -/
def span (k : Kernel) (n : Nat) : Interval := (Liveness.ofKernel k).store.get n

/-- An index of a register's interval, not of a hole. -/
structure Live (k : Kernel) (n : Nat) : Prop where
  held : n < (Liveness.ofKernel k).store.size
  live : (span k n).hole = false

/-- An index of a hole. -/
structure Hollow (k : Kernel) (n : Nat) : Prop where
  held : n < (Liveness.ofKernel k).store.size
  hole : (span k n).hole = true

/-- The sweep only marks intervals as reused. -/
structure Same (iv iv' : Interval) : Prop where
  reg : iv.reg = iv'.reg
  min : iv.min = iv'.min
  max : iv.max = iv'.max
  hole : iv.hole = iv'.hole
  size : iv.size = iv'.size
  triple : iv.triple = iv'.triple

theorem Same.slot {iv iv' : Interval} (same : Same iv iv') : iv.slot = iv'.slot := by
  rw [Interval.slot, same.size, Interval.slot]

theorem Same.alignment {iv iv' : Interval} (same : Same iv iv') : iv.alignment = iv'.alignment := by
  rw [Interval.alignment, same.slot, same.triple, Interval.alignment]

/-- Where a sweep has put an interval. -/
def place (k : Kernel) (s : Sweep) (n : Nat) : UInt32 := s.offsets.get (span k n).reg

def Mapped (k : Kernel) (s : Sweep) (n : Nat) : Prop := place k s n ≠ unmapped

/-- Two byte ranges share no byte. -/
def Apart (offset size offset' size' : UInt32) : Prop :=
  offset.toNat + size.toNat ≤ offset'.toNat ∨ offset'.toNat + size'.toNat ≤ offset.toNat

/-- The places of two intervals share no byte. -/
def Aside (k : Kernel) (s : Sweep) (a b : Nat) : Prop :=
  Apart (place k s a) (span k a).slot (place k s b) (span k b).slot

/-- The place of the first interval lies in that of the second. -/
def Within (k : Kernel) (s : Sweep) (a h : Nat) : Prop :=
  (place k s h).toNat ≤ (place k s a).toNat ∧
    (place k s a).toNat + (span k a).slot.toNat ≤ (place k s h).toNat + (span k h).slot.toNat

def Overlap (k : Kernel) (a b : Nat) : Prop :=
  (span k a).min ≤ (span k b).max ∧ (span k b).min ≤ (span k a).max

theorem Aside.symm {k : Kernel} {s : Sweep} {a b : Nat} (aside : Aside k s a b) : Aside k s b a :=
  Or.symm aside

theorem Aside.within {k : Kernel} {s : Sweep} {a b h : Nat} (aside : Aside k s h b)
    (within : Within k s a h) : Aside k s a b := by
  obtain ⟨low, high⟩ := within
  unfold Aside Apart at aside ⊢
  omega

/-- Live intervals are those of different registers. -/
theorem Live.reg_ne {k : Kernel} {a b : Nat} (liveA : Live k a) (liveB : Live k b) (differs : a ≠ b) :
    (span k a).reg ≠ (span k b).reg := by
  have index {n : Nat} (live : Live k n) : (Liveness.ofKernel k).indexOf? (span k n).reg = some n := by
    rcases live_or_hole live.held with found | isHole
    · exact found
    · have hole := isHole.hole
      rw [show ((Liveness.ofKernel k).store.get n).hole = false from live.live] at hole
      cases hole
  intro same
  have found := index liveA
  rw [same, index liveB] at found
  exact differs (Option.some.inj found).symm

theorem Hollow.isHole {k : Kernel} {j : Nat} (hollow : Hollow k j) : IsHole k (span k j) := by
  rcases live_or_hole hollow.held with found | isHole
  · have live := (indexOf_covers found).2.live
    rw [show ((Liveness.ofKernel k).store.get j).hole = true from hollow.hole] at live
    cases live
  · exact isHole

theorem live_of_indexOf {k : Kernel} {r : VReg} {n : Nat}
    (found : (Liveness.ofKernel k).indexOf? r = some n) : Live k n ∧ (span k n).reg = r := by
  obtain ⟨held, covers⟩ := indexOf_covers found
  exact ⟨⟨held, covers.live⟩, covers.reg⟩

/-- A hole ends no later than its owner. -/
theorem Hollow.owner_max {k : Kernel} {j h : Nat} (hollow : Hollow k j) (live : Live k h)
    (same : (span k j).reg = (span k h).reg) : (span k j).max ≤ (span k h).max := by
  obtain ⟨n, found, -, high⟩ := hollow.isHole.owner
  obtain ⟨liveN, reg⟩ := live_of_indexOf found
  by_cases equal : n = h
  · rw [← equal]
    exact high
  · exact absurd (reg.trans same) (liveN.reg_ne live equal)

theorem Live.valid {k : Kernel} {n : Nat} (live : Live k n) : (span k n).min ≤ (span k n).max := by
  rcases live_or_hole live.held with found | isHole
  · obtain ⟨-, covers⟩ := indexOf_covers found
    obtain ⟨a, member, named⟩ := covers.used
    have within := covers.within a member named
    exact Int.le_trans within.1 within.2
  · have hole := isHole.hole
    rw [show ((Liveness.ofKernel k).store.get n).hole = false from live.live] at hole
    cases hole

/-! ## The invariant -/

/-- The interval sits in another one's place. -/
def Borrows (s : Sweep) (a : Nat) : Prop := ∃ h, (a, h) ∈ s.hosts

/-- The sweep told that a register took the place of another one. -/
def Reuses (s : Sweep) (r host : VReg) : Prop :=
  ∃ iv hole, PlacementEvent.borrowed iv host hole ∈ s.log ∧ iv.reg = r

/-- An interval lies strictly inside a hole of its host. -/
structure Loan (k : Kernel) (done : List Nat) (s : Sweep) (a h j : Nat) : Prop where
  reuser : Live k a
  host : Live k h
  hollow : Hollow k j
  owner : (span k j).reg = (span k h).reg
  doneReuser : a ∈ done
  doneHole : j ∈ done
  inside : (span k j).min < (span k a).min ∧ (span k a).max < (span k j).max
  flagged : (s.store.get a).reused = true
  busy : ∀ e ∈ s.holes, e.hole = j → (span k a).max ≤ e.busyUntil

/-- The place lies in the window. -/
def Inside (k : Kernel) (s : Sweep) (a : Nat) : Prop :=
  s.pool.base.toNat ≤ (place k s a).toNat ∧
    (place k s a).toNat + (span k a).slot.toNat ≤ s.pool.limit.toNat

/-- The place crosses an end of the window. -/
def Straddles (k : Kernel) (s : Sweep) (a : Nat) : Prop :=
  ¬ Inside k s a ∧ s.pool.base.toNat < (place k s a).toNat + (span k a).slot.toNat ∧
    (place k s a).toNat < s.pool.limit.toNat

/-- A register with a pin is there, one without a pin in the window. -/
structure Lies (k : Kernel) (s : Sweep) (a : Nat) : Prop where
  free : k.pin? (span k a).reg = none → Inside k s a
  pinned : ∀ offset, k.pin? (span k a).reg = some offset → place k s a = offset

/-- A place of one's own: not wholly in the window, or in it and not free. -/
def Owns (k : Kernel) (s : Sweep) (a : Nat) : Prop :=
  ((place k s a).toNat + (span k a).slot.toNat < 4294967296 ∧ ¬ Inside k s a) ∨
    (Inside k s a ∧ ∀ x, InRange (place k s a) (span k a).slot x → ¬ s.pool.IsFree x)

/-- One interval is the guest of another for good. -/
structure Hosted (k : Kernel) (s : Sweep) (a h : Nat) : Prop where
  told : Reuses s (span k a).reg (span k h).reg
  inside : ∃ j, Hollow k j ∧ (span k j).reg = (span k h).reg ∧
    (span k j).min < (span k a).min ∧ (span k a).max < (span k j).max
  within : Within k s a h

/-- A hole that can be lent belongs to a mapped interval that borrows nothing itself. -/
structure Opened (k : Kernel) (done : List Nat) (s : Sweep) (e : OpenHole) : Prop where
  hollow : Hollow k e.hole
  doneHole : e.hole ∈ done
  live : Live k e.owner
  owner : (span k e.hole).reg = (span k e.owner).reg
  doneOwner : e.owner ∈ done
  mapped : Mapped k s e.owner
  unflagged : (s.store.get e.owner).reused = false

/-- A borrowing interval is active, and its host is mapped and ends after it. -/
structure Borrowing (k : Kernel) (done : List Nat) (s : Sweep) (a h : Nat) : Prop where
  active : a ∈ s.active
  host : Mapped k s h
  unflagged : (s.store.get h).reused = false
  within : Within k s a h
  later : (span k a).max < (span k h).max
  loan : ∃ j, Loan k done s a h j

/-- The state of a sweep that has visited the intervals `done`, the last of them at `cur`. A pinned place
that crosses an end of the window is not taken from the pool, so nothing keeps later intervals out of it. -/
structure Invariant (k : Kernel) (base limit : UInt32) (done : List Nat) (cur : Int) (s : Sweep) :
    Prop where
  size : s.store.size = (Liveness.ofKernel k).store.size
  shape : ∀ n, Same (s.store.get n) (span k n)
  window : s.pool.base = base ∧ s.pool.limit = limit
  pool : s.pool.WellFormed
  nodup : s.active.Nodup
  active : ∀ a ∈ s.active, Live k a ∧ Mapped k s a
  mapped : ∀ n, Live k n → Mapped k s n → n ∈ done
  started : ∀ n, Live k n → Mapped k s n → (span k n).min ≤ cur
  lies : ∀ n, Live k n → Mapped k s n → Lies k s n
  ended : ∀ n, Live k n → Mapped k s n → n ∉ s.active → (span k n).max < cur
  own : ∀ a ∈ s.active, ¬ Borrows s a → Owns k s a
  apart : ∀ a ∈ s.active, ∀ b ∈ s.active, a ≠ b → ¬ Borrows s a → ¬ Borrows s b → ¬ Straddles k s a →
    ¬ Straddles k s b → Aside k s a b
  hosts : ∀ a h, (a, h) ∈ s.hosts → Borrowing k done s a h
  holes : ∀ e ∈ s.holes, Opened k done s e
  told : ∀ iv owner hole, PlacementEvent.borrowed iv owner hole ∈ s.log →
    ∃ a h j, iv.reg = (span k a).reg ∧ owner = (span k h).reg ∧ Loan k done s a h j
  pairs : ∀ a b, Live k a → Live k b → a ≠ b → Mapped k s a → Mapped k s b → Overlap k a b →
    (Straddles k s a → (span k b).min < (span k a).min) → (Straddles k s b → (span k a).min < (span k b).min) →
    Aside k s a b ∨ Hosted k s a b ∨ Hosted k s b a
  reusers : ∀ a b h, Live k a → Live k b → Live k h → a ≠ b → Reuses s (span k a).reg (span k h).reg →
    Reuses s (span k b).reg (span k h).reg → ¬ Overlap k a b
  ending : ∀ a ∈ s.active, a ∈ s.ending
  upcoming : ∀ n < (Liveness.ofKernel k).store.size, cur ≤ (span k n).max → n ∈ s.ending
  sorted : s.ending.Pairwise fun a b => (span k a).max ≤ (span k b).max

section
variable {k : Kernel} {base limit : UInt32} {done done' : List Nat} {cur cur' : Int} {s s' : Sweep}

theorem Loan.mono {a h j : Nat} (loan : Loan k done s a h j) (more : ∀ n ∈ done, n ∈ done') :
    Loan k done' s a h j :=
  ⟨loan.reuser, loan.host, loan.hollow, loan.owner, more a loan.doneReuser, more j loan.doneHole,
    loan.inside, loan.flagged, loan.busy⟩

theorem Opened.mono {e : OpenHole} (opened : Opened k done s e) (more : ∀ n ∈ done, n ∈ done') :
    Opened k done' s e :=
  ⟨opened.hollow, more _ opened.doneHole, opened.live, opened.owner, more _ opened.doneOwner,
    opened.mapped, opened.unflagged⟩

/-- Time goes on. -/
theorem Invariant.mono (inv : Invariant k base limit done cur s) (more : ∀ n ∈ done, n ∈ done')
    (later : cur ≤ cur') : Invariant k base limit done' cur' s where
  size := inv.size
  shape := inv.shape
  window := inv.window
  pool := inv.pool
  nodup := inv.nodup
  active := inv.active
  mapped n live mapped := more n (inv.mapped n live mapped)
  started n live mapped := Int.le_trans (inv.started n live mapped) later
  lies := inv.lies
  ended n live mapped gone := Int.lt_of_lt_of_le (inv.ended n live mapped gone) later
  own := inv.own
  apart := inv.apart
  hosts a h member := by
    obtain ⟨active, host, unflagged, within, outlived, j, loan⟩ := inv.hosts a h member
    exact ⟨active, host, unflagged, within, outlived, j, loan.mono more⟩
  holes e member := (inv.holes e member).mono more
  told iv owner hole member := by
    obtain ⟨a, h, j, reg, named, loan⟩ := inv.told iv owner hole member
    exact ⟨a, h, j, reg, named, loan.mono more⟩
  pairs := inv.pairs
  reusers := inv.reusers
  ending := inv.ending
  upcoming n held reaches := inv.upcoming n held (Int.le_trans later reaches)
  sorted := inv.sorted

theorem Loan.shrink {a h j : Nat} (loan : Loan k done s a h j) (store : s'.store = s.store)
    (holes : ∀ e ∈ s'.holes, e ∈ s.holes) : Loan k done s' a h j := by
  refine ⟨loan.reuser, loan.host, loan.hollow, loan.owner, loan.doneReuser, loan.doneHole,
    loan.inside, ?_, ?_⟩
  · rw [store]
    exact loan.flagged
  · intro e member same
    exact loan.busy e (holes e member) same

/-- A step that only gives up places, borrowed places and holes. -/
structure Shrinks (k : Kernel) (cur : Int) (s s' : Sweep) : Prop where
  store : s'.store = s.store
  window : s'.pool.base = s.pool.base ∧ s'.pool.limit = s.pool.limit
  pool : s'.pool.WellFormed
  active : s'.active.Sublist s.active
  ended : ∀ n ∈ s.active, n ∉ s'.active → Mapped k s' n → (span k n).max < cur
  places : ∀ m, Live k m → Mapped k s' m → place k s' m = place k s m
  actives : ∀ a ∈ s'.active, Mapped k s' a
  hosts : ∀ a h, (a, h) ∈ s'.hosts ↔ (a, h) ∈ s.hosts ∧ a ∈ s'.active
  hostsMapped : ∀ a h, (a, h) ∈ s'.hosts → Mapped k s' h
  holes : ∀ e ∈ s'.holes, e ∈ s.holes ∧ Mapped k s' e.owner
  free : ∀ a ∈ s'.active, ¬ Borrows s a → Inside k s a → ∀ x, InRange (place k s a) (span k a).slot x →
    s'.pool.IsFree x → s.pool.IsFree x
  log : ∀ iv owner hole, PlacementEvent.borrowed iv owner hole ∈ s'.log ↔
    PlacementEvent.borrowed iv owner hole ∈ s.log
  ending : s'.ending.Sublist s.ending
  reaching : ∀ a ∈ s'.active, a ∈ s'.ending
  upcoming : ∀ n ∈ s.ending, cur ≤ (span k n).max → n ∈ s'.ending

theorem reuses_congr {r host : VReg}
    (log : ∀ iv owner hole, PlacementEvent.borrowed iv owner hole ∈ s'.log ↔
      PlacementEvent.borrowed iv owner hole ∈ s.log) : Reuses s' r host ↔ Reuses s r host := by
  unfold Reuses
  constructor
  · rintro ⟨iv, hole, member, named⟩
    exact ⟨iv, hole, (log _ _ _).mp member, named⟩
  · rintro ⟨iv, hole, member, named⟩
    exact ⟨iv, hole, (log _ _ _).mpr member, named⟩

theorem aside_congr {a b : Nat} (atA : place k s' a = place k s a) (atB : place k s' b = place k s b) :
    Aside k s' a b ↔ Aside k s a b := by
  unfold Aside
  rw [atA, atB]

theorem within_congr {a h : Nat} (atA : place k s' a = place k s a) (atH : place k s' h = place k s h) :
    Within k s' a h ↔ Within k s a h := by
  unfold Within
  rw [atA, atH]

theorem inside_congr {a : Nat} (at_ : place k s' a = place k s a)
    (window : s'.pool.base = s.pool.base ∧ s'.pool.limit = s.pool.limit) : Inside k s' a ↔ Inside k s a := by
  unfold Inside
  rw [at_, window.1, window.2]

theorem straddles_congr {a : Nat} (at_ : place k s' a = place k s a)
    (window : s'.pool.base = s.pool.base ∧ s'.pool.limit = s.pool.limit) :
    Straddles k s' a ↔ Straddles k s a := by
  unfold Straddles
  rw [inside_congr at_ window, at_, window.1, window.2]

theorem Lies.kept {a : Nat} (lies : Lies k s a) (at_ : place k s' a = place k s a)
    (window : s'.pool.base = s.pool.base ∧ s'.pool.limit = s.pool.limit) : Lies k s' a := by
  refine ⟨fun free => (inside_congr at_ window).mpr (lies.free free), ?_⟩
  rw [at_]
  exact lies.pinned

theorem Inside.not_straddles {a : Nat} (inside : Inside k s a) : ¬ Straddles k s a :=
  fun straddles => straddles.1 inside

theorem Owns.kept {a : Nat} (owns : Owns k s a) (at_ : place k s' a = place k s a)
    (window : s'.pool.base = s.pool.base ∧ s'.pool.limit = s.pool.limit)
    (free : Inside k s a → ∀ x, InRange (place k s a) (span k a).slot x → s'.pool.IsFree x → s.pool.IsFree x) :
    Owns k s' a := by
  unfold Owns at owns ⊢
  rw [inside_congr at_ window, at_]
  rcases owns with outside | ⟨inside, taken⟩
  · exact .inl outside
  · exact .inr ⟨inside, fun x here still => taken x here (free inside x here still)⟩

/-- Two intervals that keep their places stay apart, or host and guest. -/
theorem pair_kept {a b : Nat} (atA : place k s' a = place k s a) (atB : place k s' b = place k s b)
    (told : ∀ r host, Reuses s r host → Reuses s' r host)
    (pair : Aside k s a b ∨ Hosted k s a b ∨ Hosted k s b a) :
    Aside k s' a b ∨ Hosted k s' a b ∨ Hosted k s' b a := by
  rcases pair with aside | ⟨reuses, inside, within⟩ | ⟨reuses, inside, within⟩
  · exact .inl ((aside_congr atA atB).mpr aside)
  · exact .inr (.inl ⟨told _ _ reuses, inside, (within_congr atA atB).mpr within⟩)
  · exact .inr (.inr ⟨told _ _ reuses, inside, (within_congr atB atA).mpr within⟩)

theorem Shrinks.mapped (shrinks : Shrinks k cur s s') {n : Nat} (live : Live k n)
    (mapped : Mapped k s' n) : Mapped k s n := by
  unfold Mapped
  rw [← shrinks.places n live mapped]
  exact mapped

theorem Shrinks.borrows (shrinks : Shrinks k cur s s') {a : Nat} (active : a ∈ s'.active) :
    Borrows s' a ↔ Borrows s a := by
  constructor
  · rintro ⟨h, member⟩
    exact ⟨h, ((shrinks.hosts a h).mp member).1⟩
  · rintro ⟨h, member⟩
    exact ⟨h, (shrinks.hosts a h).mpr ⟨member, active⟩⟩

theorem Invariant.shrinks (inv : Invariant k base limit done cur s) (shrinks : Shrinks k cur s s') :
    Invariant k base limit done cur s' := by
  have mem {a : Nat} (active : a ∈ s'.active) : a ∈ s.active := shrinks.active.mem active
  have live {a : Nat} (active : a ∈ s'.active) : Live k a := (inv.active a (mem active)).1
  have at_ {a : Nat} (active : a ∈ s'.active) : place k s' a = place k s a :=
    shrinks.places a (live active) (shrinks.actives a active)
  have fewer : ∀ e ∈ s'.holes, e ∈ s.holes := fun e member => (shrinks.holes e member).1
  refine ⟨?_, ?_, ?_, shrinks.pool, shrinks.active.nodup inv.nodup, ?_, ?_, ?_, ?_, ?_, ?_, ?_, ?_, ?_, ?_, ?_, ?_,
    shrinks.reaching, ?_, ?_⟩
  · rw [shrinks.store]
    exact inv.size
  · rw [shrinks.store]
    exact inv.shape
  · rw [shrinks.window.1, shrinks.window.2]
    exact inv.window
  · intro a active
    exact ⟨live active, shrinks.actives a active⟩
  · intro n liveN mapped
    exact inv.mapped n liveN (shrinks.mapped liveN mapped)
  · intro n liveN mapped
    exact inv.started n liveN (shrinks.mapped liveN mapped)
  · intro n liveN mapped
    exact (inv.lies n liveN (shrinks.mapped liveN mapped)).kept (shrinks.places n liveN mapped) shrinks.window
  · intro n liveN mapped gone
    by_cases before : n ∈ s.active
    · exact shrinks.ended n before gone mapped
    · exact inv.ended n liveN (shrinks.mapped liveN mapped) before
  · intro a active borrowless
    have before : ¬ Borrows s a := fun b => borrowless ((shrinks.borrows active).mpr b)
    exact (inv.own a (mem active) before).kept (at_ active) shrinks.window (shrinks.free a active before)
  · intro a activeA b activeB differs borrowlessA borrowlessB asideA asideB
    rw [aside_congr (at_ activeA) (at_ activeB)]
    rw [straddles_congr (at_ activeA) shrinks.window] at asideA
    rw [straddles_congr (at_ activeB) shrinks.window] at asideB
    exact inv.apart a (mem activeA) b (mem activeB) differs
      (fun h => borrowlessA ((shrinks.borrows activeA).mpr h))
      (fun h => borrowlessB ((shrinks.borrows activeB).mpr h)) asideA asideB
  · intro a h member
    obtain ⟨before, active⟩ := (shrinks.hosts a h).mp member
    obtain ⟨-, -, unflagged, within, later, j, loan⟩ := inv.hosts a h before
    have host := shrinks.hostsMapped a h member
    refine ⟨active, host, ?_, ?_, later, j, loan.shrink shrinks.store fewer⟩
    · rw [shrinks.store]
      exact unflagged
    · exact (within_congr (at_ active) (shrinks.places h loan.host host)).mpr within
  · intro e member
    obtain ⟨before, mapped⟩ := shrinks.holes e member
    obtain ⟨hollow, doneHole, liveOwner, owner, doneOwner, -, unflagged⟩ := inv.holes e before
    refine ⟨hollow, doneHole, liveOwner, owner, doneOwner, mapped, ?_⟩
    rw [shrinks.store]
    exact unflagged
  · intro iv owner hole member
    obtain ⟨a, h, j, reg, named, loan⟩ := inv.told iv owner hole ((shrinks.log _ _ _).mp member)
    exact ⟨a, h, j, reg, named, loan.shrink shrinks.store fewer⟩
  · intro a b liveA liveB differs mappedA mappedB overlap laterA laterB
    rw [straddles_congr (shrinks.places a liveA mappedA) shrinks.window] at laterA
    rw [straddles_congr (shrinks.places b liveB mappedB) shrinks.window] at laterB
    have before := inv.pairs a b liveA liveB differs (shrinks.mapped liveA mappedA)
      (shrinks.mapped liveB mappedB) overlap laterA laterB
    exact pair_kept (shrinks.places a liveA mappedA) (shrinks.places b liveB mappedB)
      (fun _ _ => (reuses_congr shrinks.log).mpr) before
  · intro a b h liveA liveB liveH differs reusesA reusesB
    exact inv.reusers a b h liveA liveB liveH differs ((reuses_congr shrinks.log).mp reusesA)
      ((reuses_congr shrinks.log).mp reusesB)
  · intro n held reaches
    exact shrinks.upcoming n (inv.upcoming n held reaches) reaches
  · exact List.Pairwise.sublist shrinks.ending inv.sorted

/-! ## Giving places up -/

theorem find_host_iff {n : Nat} : (s.hosts.find? fun h => h.1 == n).isSome = true ↔ Borrows s n := by
  rw [List.find?_isSome]
  constructor
  · rintro ⟨⟨a, h⟩, member, same⟩
    have equal : a = n := by simpa using same
    exact ⟨h, equal ▸ member⟩
  · rintro ⟨h, member⟩
    exact ⟨(n, h), member, by simp⟩

theorem deactivate_borrowing {n : Nat} (borrows : Borrows s n) :
    s.deactivate n =
      { s with active := s.active.erase n, hosts := s.hosts.filter fun h => h.1 != n } := by
  unfold Sweep.deactivate
  exact if_pos (find_host_iff.mpr borrows)

theorem deactivate_owning {n : Nat} (borrowless : ¬ Borrows s n) :
    s.deactivate n =
      { s with
        active := s.active.erase n
        pool := if s.pool.contains (s.offsets.get (s.store.get n).reg) (s.store.get n).slot then
            s.pool.release (s.offsets.get (s.store.get n).reg) (s.store.get n).slot
          else s.pool } := by
  unfold Sweep.deactivate
  have missing : ¬ (s.hosts.find? fun h => h.1 == n).isSome = true :=
    fun found => borrowless (find_host_iff.mp found)
  simp only [missing, Bool.false_eq_true, ↓reduceIte]
  split <;> rfl

/-- An interval leaves the active ones, and its bytes may become free. -/
structure Leaves (k : Kernel) (s s' : Sweep) (n : Nat) : Prop where
  store : s'.store = s.store
  active : s'.active = s.active.erase n
  hosts : ∀ a h, (a, h) ∈ s'.hosts ↔ (a, h) ∈ s.hosts ∧ a ≠ n
  log : s'.log = s.log
  ending : s'.ending = s.ending
  window : s'.pool.base = s.pool.base ∧ s'.pool.limit = s.pool.limit
  pool : s'.pool.WellFormed
  free : ∀ a ∈ s.active, a ≠ n → ¬ Borrows s a → Inside k s a → ∀ x,
    InRange (place k s a) (span k a).slot x → s'.pool.IsFree x → s.pool.IsFree x

/-- An interval leaves the active ones, and all holes and places stay. -/
structure Deactivated (k : Kernel) (s s' : Sweep) (n : Nat) : Prop extends Leaves k s s' n where
  holes : s'.holes = s.holes
  offsets : s'.offsets = s.offsets

theorem Owns.inside_of_contains {n : Nat} (owns : Owns k s n) :
    s.pool.contains (place k s n) (span k n).slot = true →
      Inside k s n ∧ ∀ x, InRange (place k s n) (span k n).slot x → ¬ s.pool.IsFree x := by
  intro contained
  simp only [FreePool.contains, Bool.and_eq_true, decide_eq_true_eq, UInt32.le_iff_toNat_le]
    at contained
  obtain ⟨low, high⟩ := contained
  rcases owns with ⟨small, outside⟩ | inside
  · rw [toNat_add small] at high
    exact absurd ⟨low, high⟩ outside
  · exact inside

theorem apart_of_aside {offset size offset' size' : UInt32} (apart : Apart offset size offset' size')
    {x : Nat} (here : InRange offset size x) : ¬ InRange offset' size' x := by
  unfold Apart at apart
  unfold InRange at here ⊢
  omega

theorem deactivate_spec {n : Nat} (inv : Invariant k base limit done cur s) (active : n ∈ s.active)
    (positive : 0 < (span k n).slot.toNat) : Deactivated k s (s.deactivate n) n := by
  by_cases borrows : Borrows s n
  · rw [deactivate_borrowing borrows]
    refine ⟨⟨rfl, rfl, ?_, rfl, rfl, ⟨rfl, rfl⟩, inv.pool, fun _ _ _ _ _ _ _ free => free⟩, rfl, rfl⟩
    intro a h
    simp [List.mem_filter]
  · have shape := inv.shape n
    have owns := inv.own n active borrows
    have hosts (a h : Nat) : (a, h) ∈ s.hosts ↔ (a, h) ∈ s.hosts ∧ a ≠ n := by
      constructor
      · intro member
        exact ⟨member, fun same => borrows ⟨h, same ▸ member⟩⟩
      · exact And.left
    rw [deactivate_owning borrows, shape.slot, shape.reg]
    change Deactivated k s { s with
      active := s.active.erase n
      pool := if s.pool.contains (place k s n) (span k n).slot then
          s.pool.release (place k s n) (span k n).slot
        else s.pool } n
    by_cases contained : s.pool.contains (place k s n) (span k n).slot = true
    · obtain ⟨inside, taken⟩ := owns.inside_of_contains contained
      obtain ⟨wf, freed⟩ := release_spec inv.pool positive inside.1 inside.2 taken
      simp only [contained, ↓reduceIte]
      refine ⟨⟨rfl, rfl, hosts, rfl, rfl, ⟨rfl, rfl⟩, wf, ?_⟩, rfl, rfl⟩
      intro a activeA differs borrowless within x here free
      rcases (freed x).mp free with old | released
      · exact old
      · have aside := inv.apart a activeA n active differs borrowless borrows within.not_straddles
          inside.not_straddles
        exact absurd released (apart_of_aside aside here)
    · simp only [contained, Bool.false_eq_true, ↓reduceIte]
      exact ⟨⟨rfl, rfl, hosts, rfl, rfl, ⟨rfl, rfl⟩, inv.pool, fun _ _ _ _ _ _ _ free => free⟩, rfl, rfl⟩

theorem place_congr (offsets : s'.offsets = s.offsets) (n : Nat) : place k s' n = place k s n := by
  rw [place, offsets, place]

/-- Giving up the place of one interval is all that a step does when the others keep theirs. -/
theorem Leaves.shrinks {n : Nat} (inv : Invariant k base limit done cur s) (leaves : Leaves k s s' n)
    (others : ∀ m, Live k m → m ≠ n → place k s' m = place k s m)
    (last : Mapped k s' n → place k s' n = place k s n ∧ (span k n).max < cur)
    (hosts : ∀ a h, (a, h) ∈ s'.hosts → Mapped k s' h)
    (holes : ∀ e ∈ s'.holes, e ∈ s.holes ∧ Mapped k s' e.owner) : Shrinks k cur s s' := by
  have remains {a : Nat} : a ∈ s'.active ↔ a ∈ s.active ∧ a ≠ n := by
    rw [leaves.active, inv.nodup.mem_erase_iff]
    exact And.comm
  refine ⟨leaves.store, leaves.window, leaves.pool, ?_, ?_, ?_, ?_, ?_, hosts, holes, ?_, ?_, ?_, ?_, ?_⟩
  · rw [leaves.active]
    exact List.erase_sublist
  · intro m before after stays
    by_cases same : m = n
    · rw [same] at stays ⊢
      exact (last stays).2
    · exact absurd (remains.mpr ⟨before, same⟩) after
  · intro m live stays
    by_cases same : m = n
    · rw [same] at stays ⊢
      exact (last stays).1
    · exact others m live same
  · intro a active
    obtain ⟨before, differs⟩ := remains.mp active
    obtain ⟨live, mapped⟩ := inv.active a before
    unfold Mapped
    rw [others a live differs]
    exact mapped
  · intro a h
    rw [leaves.hosts]
    constructor
    · rintro ⟨member, differs⟩
      exact ⟨member, remains.mpr ⟨(inv.hosts a h member).active, differs⟩⟩
    · rintro ⟨member, active⟩
      exact ⟨member, (remains.mp active).2⟩
  · intro a active borrowless
    obtain ⟨before, differs⟩ := remains.mp active
    exact leaves.free a before differs borrowless
  · intro iv owner hole
    rw [leaves.log]
  · exact leaves.ending ▸ List.Sublist.refl _
  · intro a active
    rw [leaves.ending]
    exact inv.ending a (remains.mp active).1
  · intro m member _
    rw [leaves.ending]
    exact member

/-- An interval that ended gives its place up. -/
theorem Deactivated.shrinks {n : Nat} (inv : Invariant k base limit done cur s)
    (gone : Deactivated k s s' n) (ended : (span k n).max < cur) : Shrinks k cur s s' := by
  have mapped {m : Nat} : Mapped k s' m ↔ Mapped k s m := by
    unfold Mapped
    rw [place_congr gone.offsets]
  refine gone.toLeaves.shrinks inv (fun m _ _ => place_congr gone.offsets m)
    (fun _ => ⟨place_congr gone.offsets n, ended⟩) ?_ ?_
  · intro a h member
    exact mapped.mpr (inv.hosts a h ((gone.hosts a h).mp member).1).host
  · intro e member
    rw [gone.holes] at member
    exact ⟨member, mapped.mpr (inv.holes e member).mapped⟩

/-- Nothing changes but the holes, the end order and what is told. -/
theorem closing_shrinks (inv : Invariant k base limit done cur s) (store : s'.store = s.store)
    (pool : s'.pool = s.pool) (active : s'.active = s.active) (hosts : s'.hosts = s.hosts)
    (offsets : s'.offsets = s.offsets) (holes : ∀ e ∈ s'.holes, e ∈ s.holes)
    (log : ∀ iv owner hole, PlacementEvent.borrowed iv owner hole ∈ s'.log ↔
      PlacementEvent.borrowed iv owner hole ∈ s.log)
    (ending : s'.ending.Sublist s.ending) (reaching : ∀ a ∈ s.active, a ∈ s'.ending)
    (upcoming : ∀ n ∈ s.ending, cur ≤ (span k n).max → n ∈ s'.ending) : Shrinks k cur s s' := by
  have mapped {m : Nat} : Mapped k s' m ↔ Mapped k s m := by
    unfold Mapped
    rw [place_congr offsets]
  refine ⟨store, by rw [pool]; exact ⟨rfl, rfl⟩, by rw [pool]; exact inv.pool,
    active ▸ List.Sublist.refl _, ?_,
    fun m _ _ => place_congr offsets m, ?_, ?_, ?_, ?_, ?_, log, ending, by rw [active]; exact reaching,
    upcoming⟩
  · intro n before after
    rw [active] at after
    exact absurd before after
  · intro a member
    rw [active] at member
    exact mapped.mpr (inv.active a member).2
  · intro a h
    rw [hosts, active]
    exact ⟨fun member => ⟨member, (inv.hosts a h member).active⟩, And.left⟩
  · intro a h member
    rw [hosts] at member
    exact mapped.mpr (inv.hosts a h member).host
  · intro e member
    exact ⟨holes e member, mapped.mpr (inv.holes e (holes e member)).mapped⟩
  · intro _ _ _ _ _ _ free
    rwa [pool] at free

/-- Every live interval takes room. -/
def Roomy (k : Kernel) : Prop := ∀ n, Live k n → 0 < (span k n).slot.toNat

theorem expireOne_spec (roomy : Roomy k) {n : Nat} (inv : Invariant k base limit done cur s)
    (ended : (span k n).max < cur) :
    Invariant k base limit done cur (s.expireOne n) ∧
      (∀ a, a ∈ (s.expireOne n).active ↔ a ∈ s.active ∧ a ≠ n) ∧
      (s.expireOne n).ending = s.ending ∧ (s.expireOne n).store = s.store := by
  unfold Sweep.expireOne
  by_cases hole : (s.store.get n).hole = true
  · rw [if_pos hole]
    refine ⟨inv.shrinks (closing_shrinks inv rfl rfl rfl rfl rfl
      (fun e member => List.mem_of_mem_eraseP member) (fun _ _ _ => Iff.rfl) (List.Sublist.refl _)
      inv.ending fun _ member _ => member), ?_, rfl, rfl⟩
    intro a
    refine ⟨fun active => ⟨active, ?_⟩, And.left⟩
    rintro rfl
    have live := (inv.active a active).1.live
    rw [← (inv.shape a).hole, hole] at live
    cases live
  · rw [if_neg hole]
    by_cases placed : s.isPlaced n = true
    · rw [if_pos placed]
      have active : n ∈ s.active := by simpa [Sweep.isPlaced] using placed
      have gone := deactivate_spec inv active (roomy n (inv.active n active).1)
      refine ⟨inv.shrinks (gone.shrinks inv ended), fun a => ?_, gone.ending, gone.store⟩
      rw [gone.active, inv.nodup.mem_erase_iff]
      exact And.comm
    · rw [if_neg placed]
      refine ⟨inv, fun a => ⟨fun active => ⟨active, ?_⟩, And.left⟩, rfl, rfl⟩
      rintro rfl
      exact placed (by simpa [Sweep.isPlaced] using active)

theorem expireAll_spec (roomy : Roomy k) (ns : List Nat) (inv : Invariant k base limit done cur s)
    (ended : ∀ n ∈ ns, (span k n).max < cur) :
    Invariant k base limit done cur (ns.foldl Sweep.expireOne s) ∧
      (∀ a, a ∈ (ns.foldl Sweep.expireOne s).active ↔ a ∈ s.active ∧ a ∉ ns) ∧
      (ns.foldl Sweep.expireOne s).ending = s.ending ∧
      (ns.foldl Sweep.expireOne s).store = s.store := by
  induction ns generalizing s with
  | nil => exact ⟨inv, by simp, rfl, rfl⟩
  | cons n ns ih =>
    obtain ⟨next, active, ending, store⟩ := expireOne_spec roomy inv (ended n List.mem_cons_self)
    obtain ⟨final, activeRest, endingRest, storeRest⟩ :=
      ih next fun m member => ended m (List.mem_cons_of_mem _ member)
    rw [List.foldl_cons]
    refine ⟨final, fun a => ?_, endingRest.trans ending, storeRest.trans store⟩
    rw [activeRest, active, List.mem_cons, not_or, and_assoc]

theorem mem_dropWhile_of_sorted {ns : List Nat} {p : Nat → Bool} {f : Nat → Int} {start : Int}
    (test : ∀ n, p n = decide (f n < start)) (sorted : ns.Pairwise fun a b => f a ≤ f b) {n : Nat}
    (member : n ∈ ns.dropWhile p) : start ≤ f n := by
  induction ns with
  | nil => cases member
  | cons head rest ih =>
    obtain ⟨above, sortedRest⟩ := List.pairwise_cons.mp sorted
    rw [List.dropWhile_cons] at member
    split at member
    · exact ih sortedRest member
    · rename_i late
      rw [test, decide_eq_true_eq, Int.not_lt] at late
      rcases List.mem_cons.mp member with rfl | later
      · exact late
      · exact Int.le_trans late (above n later)

/-- After expiry every active interval reaches the current start. -/
theorem expire_spec (roomy : Roomy k) {start : Int} (inv : Invariant k base limit done cur s)
    (later : cur ≤ start) :
    Invariant k base limit done start (s.expire start) ∧
      (∀ a ∈ (s.expire start).active, start ≤ (span k a).max) ∧ (s.expire start).store = s.store := by
  have inv := inv.mono (fun _ => id) later
  have test (n : Nat) : decide ((s.store.get n).max < start) = decide ((span k n).max < start) := by
    rw [(inv.shape n).max]
  have past (n : Nat) (member : n ∈ s.ending.takeWhile fun n => decide ((s.store.get n).max < start)) :
      (span k n).max < start := by
    have ended := List.all_takeWhile (p := fun n => decide ((s.store.get n).max < start)) (l := s.ending)
    simpa [test] using List.all_eq_true.mp ended n member
  obtain ⟨after, active, ending, store⟩ := expireAll_spec roomy _ inv past
  have remains (a : Nat) (member : a ∈ (s.expire start).active) :
      a ∈ s.ending.dropWhile fun n => decide ((s.store.get n).max < start) := by
    obtain ⟨before, kept⟩ := (active a).mp member
    have whole := inv.ending a before
    rw [← List.takeWhile_append_dropWhile (p := fun n => decide ((s.store.get n).max < start))
      (l := s.ending)] at whole
    exact (List.mem_append.mp whole).resolve_left kept
  refine ⟨after.shrinks (closing_shrinks after rfl rfl rfl rfl rfl (fun _ => id) (fun _ _ _ => Iff.rfl)
    ?_ remains ?_), ?_, store⟩
  · rw [ending]
    exact List.dropWhile_sublist _
  · intro n member reaches
    rw [ending, ← List.takeWhile_append_dropWhile (p := fun n => decide ((s.store.get n).max < start))
      (l := s.ending)] at member
    refine (List.mem_append.mp member).resolve_left fun ended => ?_
    have before := past n ended
    omega
  · intro a member
    exact mem_dropWhile_of_sorted test inv.sorted (remains a member)

/-- An interval without guests is taken off its place, and its holes with it. -/
theorem unplace_shrinks (roomy : Roomy k) {n : Nat} (inv : Invariant k base limit done cur s)
    (active : n ∈ s.active) (guestless : ∀ a, (a, n) ∉ s.hosts) : Shrinks k cur s (s.unplace n) := by
  have live := (inv.active n active).1
  have gone := deactivate_spec inv active (roomy n live)
  have placed : s.isPlaced n = true := by simpa [Sweep.isPlaced] using active
  have shape : s.unplace n =
      { s.deactivate n with
        holes := s.holes.filter fun h => h.owner != n
        offsets := s.offsets.erase (span k n).reg } := by
    unfold Sweep.unplace
    rw [if_pos placed]
    simp only [gone.holes, gone.offsets, gone.store, (inv.shape n).reg]
  have others (m : Nat) (liveM : Live k m) (differs : m ≠ n) : place k (s.unplace n) m = place k s m := by
    rw [shape]
    exact RegisterMap.get_erase_of_ne _ (liveM.reg_ne live differs)
  have mapped (m : Nat) (liveM : Live k m) (differs : m ≠ n) (before : Mapped k s m) :
      Mapped k (s.unplace n) m := by
    unfold Mapped
    rw [others m liveM differs]
    exact before
  have leaves : Leaves k s (s.unplace n) n := by
    rw [shape]
    exact ⟨gone.store, gone.active, gone.hosts, gone.log, gone.ending, gone.window, gone.pool, gone.free⟩
  refine leaves.shrinks inv others ?_ ?_ ?_
  · intro stays
    rw [shape] at stays
    exact absurd (RegisterMap.get_erase_self _ _) stays
  · intro a h member
    have before := ((leaves.hosts a h).mp member).1
    obtain ⟨-, host, -, -, -, j, loan⟩ := inv.hosts a h before
    refine mapped h loan.host ?_ host
    rintro rfl
    exact guestless a before
  · intro e member
    rw [shape] at member
    obtain ⟨before, differs⟩ := List.mem_filter.mp member
    have opened := inv.holes e before
    exact ⟨before, mapped _ opened.live (by simpa using differs) opened.mapped⟩

/-- Spilling takes an interval without guests off its place, if it has one. -/
theorem spill_spec (roomy : Roomy k) {lv : Liveness} {cfg : SweepConfig} {n : Nat}
    (inv : Invariant k base limit done cur s) (guestless : ∀ a, (a, n) ∉ s.hosts)
    (spilled : s.spill lv cfg n = .ok s') :
    Invariant k base limit done cur s' ∧ (∀ a ∈ s'.active, a ∈ s.active) := by
  have unplaced : Invariant k base limit done cur (s.unplace n) ∧
      ∀ a ∈ (s.unplace n).active, a ∈ s.active := by
    by_cases active : n ∈ s.active
    · have shrinks := unplace_shrinks roomy inv active guestless
      exact ⟨inv.shrinks shrinks, fun a member => shrinks.active.mem member⟩
    · have placed : ¬ s.isPlaced n = true := by simpa [Sweep.isPlaced] using active
      unfold Sweep.unplace
      rw [if_neg placed]
      exact ⟨inv, fun _ => id⟩
  obtain ⟨after, fewer⟩ := unplaced
  unfold Sweep.spill at spilled
  simp only at spilled
  generalize s.unplace n = t at after fewer spilled
  split at spilled <;> split at spilled <;> simp only [reduceCtorEq, Except.ok.injEq] at spilled <;>
    subst spilled <;>
    exact ⟨after.shrinks (closing_shrinks after rfl rfl rfl rfl rfl (fun _ => id)
      (fun _ _ _ => by simp [Sweep.note]) (List.Sublist.refl _) after.ending fun _ member _ => member),
      fewer⟩

end

end GpuCodegen.Placement
