import Mathlib
import GpuCodegen.Proofs.RegistersApart

/-! Whole sweeps. Every visit keeps the invariant, whether the interval takes a free range, its pinned
place, a borrowed one or none; so in the end no two live registers share bytes, except a register and
the host in whose hole it sits. -/

namespace GpuCodegen.Placement
open FreePool LiveIntervals Outcome

section
variable {k : Kernel} {base limit : UInt32} {done : List Nat} {cur : Int} {s s' : Sweep}

/-! ## One visit -/

/-- A hole that starts is opened where its owner has a place of its own. -/
theorem Invariant.openHole {cfg : SweepConfig} {n : Nat} (inv : Invariant k base limit done cur s)
    (hollow : Hollow k n) (new : n ∉ done) :
    Invariant k base limit (done ++ [n]) cur (s.openHole (Liveness.ofKernel k) cfg n) := by
  have more : ∀ m ∈ done, m ∈ done ++ [n] := fun m => List.mem_append_left _
  unfold Sweep.openHole
  simp only
  split
  · rename_i owner found
    split
    · rename_i conditions
      simp only [Bool.and_eq_true, Bool.not_eq_true'] at conditions
      obtain ⟨⟨-, placed⟩, unflagged⟩ := conditions
      have active : owner ∈ s.active := by simpa [Sweep.isPlaced] using placed
      rw [(inv.shape n).reg] at found
      obtain ⟨live, reg⟩ := live_of_indexOf found
      have mapped := (inv.active owner active).2
      have kept {a h j : Nat} (loan : Loan k done s a h j) : Loan k (done ++ [n])
          { s with holes := s.holes ++ [⟨n, owner, (s.store.get n).min⟩] } a h j := by
        refine ⟨loan.reuser, loan.host, loan.hollow, loan.owner, more _ loan.doneReuser,
          more _ loan.doneHole, loan.inside, loan.flagged, ?_⟩
        intro e member same
        rcases List.mem_append.mp member with old | added
        · exact loan.busy e old same
        · rw [List.mem_singleton.mp added] at same
          change n = j at same
          exact absurd (same ▸ loan.doneHole) new
      refine { inv.mono more (Int.le_refl _) with
        hosts := ?_
        holes := ?_
        told := ?_
        lies := fun m liveM mappedM => (inv.lies m liveM mappedM).kept rfl ⟨rfl, rfl⟩
        pairs := ?_ }
      · intro a h member
        obtain ⟨activeA, host, unflaggedH, within, later, j, loan⟩ := inv.hosts a h member
        exact ⟨activeA, host, unflaggedH, within, later, j, kept loan⟩
      · intro e member
        rcases List.mem_append.mp member with old | added
        · obtain ⟨hollowE, doneHole, liveE, ownerE, doneOwner, mappedE, unflaggedE⟩ := inv.holes e old
          exact ⟨hollowE, more _ doneHole, liveE, ownerE, more _ doneOwner, mappedE, unflaggedE⟩
        · rw [List.mem_singleton.mp added]
          exact ⟨hollow, by simp, live, reg.symm, more _ (inv.mapped owner live mapped), mapped, unflagged⟩
      · intro iv host hole event
        obtain ⟨a, h, j, regA, regH, loan⟩ := inv.told iv host hole event
        exact ⟨a, h, j, regA, regH, kept loan⟩
      · intro a b liveA liveB differs mappedA mappedB overlap laterA laterB
        rcases inv.pairs a b liveA liveB differs mappedA mappedB overlap laterA laterB with
          aside | ⟨told, inside, within⟩ | ⟨told, inside, within⟩
        · exact .inl aside
        · exact .inr (.inl ⟨told, inside, within⟩)
        · exact .inr (.inr ⟨told, inside, within⟩)
    · exact inv.mono more (Int.le_refl _)
  · exact inv.mono more (Int.le_refl _)

/-- A free range is apart from every place that is held, unless that crosses an end of the window. -/
theorem Owns.apart_of_free {a : Nat} {offset size : UInt32} (owns : Owns k s a) (crossless : ¬ Straddles k s a)
    (roomy : 0 < (span k a).slot.toNat) (positive : 0 < size.toNat)
    (low : s.pool.base.toNat ≤ offset.toNat) (high : offset.toNat + size.toNat ≤ s.pool.limit.toNat)
    (free : ∀ x, InRange offset size x → s.pool.IsFree x) :
    Apart (place k s a) (span k a).slot offset size := by
  unfold Apart
  rcases owns with ⟨-, outside⟩ | ⟨-, taken⟩
  · have aside : ¬ (s.pool.base.toNat < (place k s a).toNat + (span k a).slot.toNat ∧
        (place k s a).toNat < s.pool.limit.toNat) := fun crosses => crossless ⟨outside, crosses⟩
    omega
  · by_cases apart : (place k s a).toNat + (span k a).slot.toNat ≤ offset.toNat ∨
        offset.toNat + size.toNat ≤ (place k s a).toNat
    · exact apart
    · -- The later of the two starts lies in both ranges.
      have both : InRange (place k s a) (span k a).slot (max (place k s a).toNat offset.toNat) ∧
          InRange offset size (max (place k s a).toNat offset.toNat) := by
        unfold InRange
        omega
      exact absurd (free _ both.2) (taken _ both.1)

theorem Fits.inside {p : FreePool} (wf : p.WellFormed) {offset size : UInt32}
    (fits : p.Fits offset size) :
    p.base.toNat ≤ offset.toNat ∧ offset.toNat + size.toNat ≤ p.limit.toNat := by
  obtain ⟨b, member, low, high⟩ := fits
  have inside := wf.inside b member
  omega

theorem ne_unmapped {offset size bound : UInt32} (positive : 0 < size.toNat)
    (high : offset.toNat + size.toNat ≤ bound.toNat) : offset ≠ unmapped := by
  rintro rfl
  have most := bound.toNat_lt
  change 4294967295 + size.toNat ≤ _ at high
  omega

/-- An interval takes a free range of the pool. -/
theorem take_admits (roomy : Roomy k) {b : Nat} {offset : UInt32} {e : PlacementEvent}
    (inv : Invariant k base limit done cur s) (live : Live k b)
    (pinned : ∀ pin, k.pin? (span k b).reg = some pin → offset = pin)
    (fits : s.pool.Fits offset (span k b).slot) (plain : ∀ iv owner hole, e ≠ .borrowed iv owner hole) :
    Admits k s (({ s with pool := s.pool.take offset (span k b).slot }.assign b offset).note e) b offset := by
  have positive := roomy b live
  obtain ⟨low, high⟩ := Fits.inside inv.pool fits
  obtain ⟨wf, free⟩ := take_spec inv.pool positive fits
  have here : place k (({ s with pool := s.pool.take offset (span k b).slot }.assign b offset).note e) b =
      offset := by
    simp only [place, Sweep.note, Sweep.assign, (inv.shape b).reg, RegisterMap.get_insert_self]
  have inside : Inside k (({ s with pool := s.pool.take offset (span k b).slot }.assign b offset).note e) b := by
    unfold Inside
    rw [here]
    exact ⟨low, high⟩
  refine ⟨rfl, rfl, rfl, rfl, ?_, ne_unmapped positive high, ?_, rfl, ⟨rfl, rfl⟩, wf, ?_, ⟨fun _ => inside, ?_⟩, ?_, ?_⟩
  · simp only [Sweep.note, Sweep.assign, (inv.shape b).reg]
  · intro iv owner hole
    simp only [Sweep.note, Sweep.assign, List.mem_append, List.mem_singleton]
    exact ⟨fun event => event.resolve_right (plain iv owner hole).symm, .inl⟩
  · exact fun x still => ((free x).mp still).1
  · rw [here]
    exact pinned
  · right
    rw [here]
    exact ⟨inside, fun x inside still => ((free x).mp still).2 inside⟩
  · intro a active borrowless crossless
    exact (inv.own a active borrowless).apart_of_free crossless (roomy a (inv.active a active).1) positive low high
      fun x inside => fits.isFree inside

theorem Owns.small {a : Nat} (owns : Owns k s a) :
    (place k s a).toNat + (span k a).slot.toNat < 4294967296 := by
  rcases owns with ⟨small, -⟩ | ⟨inside, -⟩
  · exact small
  · exact Nat.lt_of_le_of_lt inside.2 s.pool.limit.toNat_lt

/-- Where no active interval holds a range, no place of one's own touches it. -/
theorem apart_of_holder {offset size : UInt32} (inv : Invariant k base limit done cur s)
    (small : offset.toNat + size.toNat < 4294967296) (none_ : s.holder? offset size = none) {a : Nat}
    (active : a ∈ s.active) (borrowless : ¬ Borrows s a) :
    Apart (place k s a) (span k a).slot offset size := by
  have aside := List.find?_eq_none.mp none_ a active
  simp only [(inv.shape a).reg, (inv.shape a).slot, Bool.and_eq_true, decide_eq_true_eq,
    UInt32.lt_iff_toNat_lt, not_and, Nat.not_lt] at aside
  have sum := (inv.own a active borrowless).small
  change (place k s a).toNat < _ → (place k s a + (span k a).slot).toNat ≤ _ at aside
  rw [toNat_add small, toNat_add sum] at aside
  unfold Apart
  omega

theorem placePinned_spec (roomy : Roomy k) {b : Nat} {offset : UInt32}
    (inv : Invariant k base limit done cur s) (fresh : ∀ a ∈ s.active, cur ≤ (span k a).max)
    (live : Live k b) (new : b ∉ done) (start : (span k b).min = cur)
    (pinned : k.pin? (span k b).reg = some offset) (small : offset.toNat + (span k b).slot.toNat < 4294967296)
    (placed : s.placePinned b offset = .ok s') : Invariant k base limit (done ++ [b]) cur s' := by
  have positive := roomy b live
  have own (pin : UInt32) (known : k.pin? (span k b).reg = some pin) : offset = pin := by
    rw [pinned] at known
    exact Option.some.inj known
  unfold Sweep.placePinned at placed
  simp only [(inv.shape b).slot] at placed
  split at placed
  · split at placed
    · rename_i claimed
      obtain ⟨fits, rfl⟩ := claim_spec inv.pool small claimed
      simp only [Except.ok.injEq] at placed
      subst placed
      exact inv.admit fresh live new start (take_admits roomy inv live own fits (by simp))
    · cases placed
  · rename_i outside
    split at placed
    · cases placed
    · rename_i unheld
      cases placed
      have none_ : s.holder? offset (span k b).slot = none := by simpa using unheld
      have here : place k ((s.assign b offset).note (.pinned (s.store.get b) offset)) b = offset := by
        simp only [place, Sweep.note, Sweep.assign, (inv.shape b).reg, RegisterMap.get_insert_self]
      have windowless : ¬ (base.toNat ≤ offset.toNat ∧
          offset.toNat + (span k b).slot.toNat ≤ limit.toNat) := by
        intro inside
        apply outside
        simp only [FreePool.contains, inv.window.1, inv.window.2, Bool.and_eq_true, decide_eq_true_eq,
          UInt32.le_iff_toNat_le, toNat_add small]
        exact inside
      refine inv.admit fresh live new start ⟨rfl, rfl, rfl, rfl, ?_, ?_, ?_, rfl, ⟨rfl, rfl⟩, inv.pool,
        fun _ => id, ⟨fun free => (by rw [free] at pinned; cases pinned), (by rw [here]; exact own)⟩, ?_,
        fun a active borrowless _ => apart_of_holder inv small none_ active borrowless⟩
      · simp only [Sweep.note, Sweep.assign, (inv.shape b).reg]
      · rintro rfl
        change 4294967295 + (span k b).slot.toNat < 4294967296 at small
        omega
      · intro iv owner hole
        simp [Sweep.note, Sweep.assign]
      · left
        unfold Inside
        rw [here]
        refine ⟨small, ?_⟩
        change ¬ (s.pool.base.toNat ≤ _ ∧ _ ≤ s.pool.limit.toNat)
        rw [inv.window.1, inv.window.2]
        exact windowless

theorem victim_spec {current : Interval} {v : Nat} (found : s.victim? k current = some v) :
    v ∈ s.active ∧ s.spillable k v = true := by
  have along (as : List Nat) (best : Option Nat × Int)
      (good : ∀ v, best.1 = some v → v ∈ s.active ∧ s.spillable k v = true)
      (sub : ∀ a ∈ as, a ∈ s.active) :
      ∀ v, (as.foldl (fun (best : Option Nat × Int) a =>
        if s.spillable k a && best.2 < (s.store.get a).max then (some a, (s.store.get a).max) else best)
        best).1 = some v → v ∈ s.active ∧ s.spillable k v = true := by
    induction as generalizing best with
    | nil => exact good
    | cons a as ih =>
      rw [List.foldl_cons]
      apply ih
      · intro v chosen
        split at chosen
        · rename_i better
          simp only [Bool.and_eq_true] at better
          cases chosen
          exact ⟨sub a List.mem_cons_self, better.1⟩
        · exact good v chosen
      · exact fun x member => sub x (List.mem_cons_of_mem _ member)
  exact along s.active (none, current.max) (fun _ nothing => by cases nothing) (fun _ => id) v found

theorem alignment_bounds {iv : Interval} (positive : 0 < iv.slot.toNat) :
    0 < iv.alignment.toNat ∧ iv.alignment.toNat ≤ 32 := by
  have base : 0 < (if iv.slot < 32 then iv.slot else 32).toNat ∧
      (if iv.slot < 32 then iv.slot else 32).toNat ≤ 32 := by
    split
    · rename_i small
      exact ⟨positive, Nat.le_of_lt (UInt32.lt_iff_toNat_lt.mp small)⟩
    · decide
  unfold Interval.alignment
  dsimp only
  generalize (if iv.slot < 32 then iv.slot else 32) = align at base ⊢
  split
  · decide
  · exact base

theorem allocate_invariant (roomy : Roomy k) {b : Nat} {avoid : Option Nat} {offset : UInt32}
    {pool : FreePool} (live : Live k b) (new : b ∉ done) (start : (span k b).min = cur)
    (free : k.pin? (span k b).reg = none)
    (search : limit.toNat + (span k b).slot.toNat + 64 < 4294967296)
    (inv : Invariant k base limit done cur s) (fresh : ∀ a ∈ s.active, cur ≤ (span k a).max)
    (found : s.pool.allocate (span k b).slot (s.store.get b).alignment avoid = some (offset, pool)) :
    Invariant k base limit (done ++ [b]) cur
      (({ s with pool := pool }.assign b offset).note (.placed (s.store.get b) offset)) := by
  have room : 0 < (s.store.get b).slot.toNat := by
    rw [(inv.shape b).slot]
    exact roomy b live
  obtain ⟨least, most⟩ := alignment_bounds room
  obtain ⟨fits, rfl⟩ := allocate_spec inv.pool least most (by rw [inv.window.2]; exact search) found
  refine inv.admit fresh live new start (take_admits roomy inv live (fun pin pinned => ?_) fits (by simp))
  rw [free] at pinned
  cases pinned

theorem guestless_of_spillable {v : Nat} (spillable : s.spillable k v = true) (a : Nat) :
    (a, v) ∉ s.hosts := by
  intro member
  simp only [Sweep.spillable, Bool.and_eq_true, Bool.not_eq_true', List.any_eq_false] at spillable
  have differs := spillable.2 (a, v) member
  simp at differs

theorem Invariant.guestless (inv : Invariant k base limit done cur s) {b : Nat} (new : b ∉ done)
    (a : Nat) : (a, b) ∉ s.hosts := by
  intro member
  obtain ⟨-, host, -, -, -, j, loan⟩ := inv.hosts a b member
  exact new (inv.mapped b loan.host host)

theorem spillSelf_invariant (roomy : Roomy k) {lv : Liveness} {cfg : SweepConfig} {b : Nat}
    (new : b ∉ done) (inv : Invariant k base limit done cur s) (spilled : s.spill lv cfg b = .ok s') :
    Invariant k base limit (done ++ [b]) cur s' :=
  (spill_spec roomy inv (inv.guestless new) spilled).1.mono (fun _ => List.mem_append_left _)
    (Int.le_refl _)

theorem placeOrSpill_spec (roomy : Roomy k) {lv : Liveness} {cfg : SweepConfig} {b : Nat}
    {avoid : Option Nat} (live : Live k b) (new : b ∉ done) (start : (span k b).min = cur)
    (free : k.pin? (span k b).reg = none)
    (search : limit.toNat + (span k b).slot.toNat + 64 < 4294967296) (fuel : Nat)
    (inv : Invariant k base limit done cur s) (fresh : ∀ a ∈ s.active, cur ≤ (span k a).max)
    (placed : Sweep.placeOrSpill k lv cfg b avoid fuel s = .ok s') :
    Invariant k base limit (done ++ [b]) cur s' := by
  induction fuel generalizing s with
  | zero =>
    unfold Sweep.placeOrSpill at placed
    simp only [(inv.shape b).slot] at placed
    split at placed
    · rename_i found
      cases placed
      exact allocate_invariant roomy live new start free search inv fresh found
    · split at placed
      · cases placed
      · exact spillSelf_invariant roomy new inv placed
  | succ fuel ih =>
    unfold Sweep.placeOrSpill at placed
    simp only [(inv.shape b).slot] at placed
    split at placed
    · rename_i found
      cases placed
      exact allocate_invariant roomy live new start free search inv fresh found
    · split at placed
      · cases placed
      · cases victim : s.victim? k (s.store.get b) with
        | none =>
          rw [victim] at placed
          exact spillSelf_invariant roomy new inv placed
        | some v =>
          rw [victim] at placed
          obtain ⟨-, spillable⟩ := victim_spec victim
          dsimp only at placed
          split at placed
          · rename_i t spilled
            obtain ⟨after, fewer⟩ := spill_spec roomy inv (guestless_of_spillable spillable) spilled
            exact ih after (fun a active => fresh a (fewer a active)) placed
          · cases placed

/-- What a visit needs to know of the interval visited. -/
structure Placeable (k : Kernel) (limit : UInt32) (n : Nat) : Prop where
  search : limit.toNat + (span k n).slot.toNat + 64 < 4294967296
  pin : ∀ offset, k.pin? (span k n).reg = some offset → offset.toNat + (span k n).slot.toNat < 4294967296

theorem visit_spec (roomy : Roomy k) {cfg : SweepConfig} {n : Nat}
    (placeable : Live k n → Placeable k limit n) (inv : Invariant k base limit done cur s)
    (held : n < (Liveness.ofKernel k).store.size) (new : n ∉ done) (later : cur ≤ (span k n).min)
    (visited : Sweep.visit k (Liveness.ofKernel k) cfg s n = .ok s') :
    Invariant k base limit (done ++ [n]) (span k n).min s' := by
  unfold Sweep.visit at visited
  simp only [(inv.shape n).min] at visited
  obtain ⟨after, fresh, store⟩ := expire_spec roomy inv later
  generalize s.expire (span k n).min = t at after fresh store visited
  split at visited
  · rename_i hole
    cases visited
    exact after.openHole ⟨held, by rw [← (inv.shape n).hole]; exact hole⟩ new
  · rename_i live
    have live : Live k n := ⟨held, by rw [← (inv.shape n).hole]; simpa using live⟩
    obtain ⟨search, pin⟩ := placeable live
    unfold Sweep.place at visited
    simp only [(after.shape n).reg] at visited
    split at visited
    · rename_i offset pinned
      exact placePinned_spec roomy after fresh live new rfl pinned (pin offset pinned) visited
    · rename_i free
      split at visited
      · cases visited
      · split at visited
        · rename_i u taken
          cases visited
          obtain ⟨e, lends⟩ := tryHole_lends after taken live new
          exact after.lend fresh live new rfl free lends
        · exact placeOrSpill_spec roomy live new rfl free search _ after fresh visited

/-! ## Whole sweeps -/

/-- Merge sort leaves equal elements in their order, as insertion does. -/
theorem mergeSort_insertion {α : Type} (r : α → α → Prop) [DecidableRel r] [IsTrans α r] [Std.Total r] (l : List α) :
    (l.mergeSort fun a b => decide (r a b)) = l.insertionSort r := by
  have trans (a b c : α) : decide (r a b) = true → decide (r b c) = true → decide (r a c) = true := by
    simpa using IsTrans.trans (r := r) a b c
  have total (a b : α) : (decide (r a b) || decide (r b a)) = true := by
    simpa using Std.Total.total (r := r) a b
  induction l with
  | nil => simp
  | cons a l ih =>
    -- `a` is merged behind what is not above it, and inserted there.
    obtain ⟨before, after, whole, rest, above⟩ := List.mergeSort_cons trans total a l
    have sorted : (before ++ a :: after).Pairwise fun b c => decide (r b c) = true :=
      whole ▸ List.pairwise_mergeSort trans total (a :: l)
    have passed : ∀ b ∈ before, decide (¬ r a b) = true := by simpa using above
    rw [List.insertionSort_cons, ← ih, rest, whole, List.orderedInsert_eq_take_drop,
      List.takeWhile_append_of_pos passed, List.dropWhile_append_of_pos passed]
    cases after with
    | nil => simp
    | cons b after =>
      have stops : r a b := of_decide_eq_true
        ((List.pairwise_cons.mp (List.pairwise_append.mp sorted).2.1).1 b List.mem_cons_self)
      simp [stops]

/-- Both orders of a store, by insertion. A run on a given kernel is evaluated with it: insertion recurses on
the list, where merging recurses on its length. -/
theorem sorted_insertion (store : IntervalStore) : store.sorted = { store with
    byStart := (List.range store.size).insertionSort fun a b => (store.get a).min ≤ (store.get b).min
    byEnd := (List.range store.size).insertionSort fun a b => (store.get a).max ≤ (store.get b).max } := by
  have insertion (store : IntervalStore) (point : Interval → Int) : store.ordered point =
      (List.range store.size).insertionSort fun a b => point (store.get a) ≤ point (store.get b) := by
    have : IsTrans Nat fun a b => point (store.get a) ≤ point (store.get b) := ⟨fun _ _ _ => Int.le_trans⟩
    have : Std.Total fun a b => point (store.get a) ≤ point (store.get b) := ⟨fun _ _ => Int.le_total _ _⟩
    exact mergeSort_insertion _ _
  rw [IntervalStore.sorted, IntervalStore.sortByEnd, IntervalStore.sortByStart, insertion, insertion]
  rfl

theorem ordered_spec (store : IntervalStore) (point : Interval → Int) :
    (store.ordered point).Perm (List.range store.size) ∧
      (store.ordered point).Pairwise fun a b => point (store.get a) ≤ point (store.get b) := by
  refine ⟨List.mergeSort_perm _ _, ?_⟩
  refine List.Pairwise.imp (fun le => of_decide_eq_true le) (List.pairwise_mergeSort ?_ ?_ _)
  · intro a b c ab bc
    simp only [decide_eq_true_eq] at ab bc ⊢
    omega
  · intro a b
    simp only [Bool.or_eq_true, decide_eq_true_eq]
    omega

/-- The store a sweep starts from. -/
def freshStore (k : Kernel) : IntervalStore :=
  { (Liveness.ofKernel k).store with
    intervals := (Liveness.ofKernel k).store.intervals.map fun iv => { iv with reused := false } }

theorem freshStore_get (k : Kernel) (n : Nat) : Same ((freshStore k).get n) (span k n) := by
  unfold freshStore span IntervalStore.get
  simp only [List.getD_eq_getElem?_getD, List.getElem?_map]
  cases (Liveness.ofKernel k).store.intervals[n]? <;> exact ⟨rfl, rfl, rfl, rfl, rfl, rfl⟩

theorem freshStore_size (k : Kernel) : (freshStore k).size = (Liveness.ofKernel k).store.size := by
  simp [freshStore, IntervalStore.size]

theorem freshStore_ordered (k : Kernel) (point : Interval → Int)
    (same : ∀ n, point ((freshStore k).get n) = point (span k n)) :
    ((freshStore k).ordered point).Nodup ∧
      (∀ n, n ∈ (freshStore k).ordered point ↔ n < (Liveness.ofKernel k).store.size) ∧
      ((freshStore k).ordered point).Pairwise fun a b => point (span k a) ≤ point (span k b) := by
  obtain ⟨perm, sorted⟩ := ordered_spec (freshStore k) point
  refine ⟨perm.nodup_iff.mpr List.nodup_range, fun n => ?_, ?_⟩
  · rw [perm.mem_iff, List.mem_range, freshStore_size]
  · exact List.Pairwise.imp (fun le => by simpa [same] using le) sorted

theorem start_invariant (k : Kernel) (cfg : SweepConfig) (reserve scratchBase : UInt32) (cur : Int) :
    Invariant k cfg.reservedLow (cfg.fileSize - reserve) [] cur
      (Sweep.start (Liveness.ofKernel k) cfg reserve scratchBase) := by
  have unplaced (n : Nat) :
      ¬ Mapped k (Sweep.start (Liveness.ofKernel k) cfg reserve scratchBase) n := fun mapped => mapped rfl
  obtain ⟨-, all, sorted⟩ := freshStore_ordered k Interval.max fun n => (freshStore_get k n).max
  have empty {α : Type} {x : α} {p : Prop} (member : x ∈ ([] : List α)) : p := by cases member
  exact
    { size := freshStore_size k
      shape := freshStore_get k
      window := ⟨rfl, rfl⟩
      pool := (new_wellFormed _ _).1
      nodup := .nil
      active := fun _ member => empty member
      mapped := fun n _ mapped => absurd mapped (unplaced n)
      started := fun n _ mapped => absurd mapped (unplaced n)
      lies := fun n _ mapped => absurd mapped (unplaced n)
      ended := fun n _ mapped => absurd mapped (unplaced n)
      own := fun _ member => empty member
      apart := fun _ member => empty member
      hosts := fun _ _ member => empty member
      holes := fun _ member => empty member
      told := fun _ _ _ member => empty member
      pairs := fun a _ _ _ _ mapped => absurd mapped (unplaced a)
      reusers := by
        rintro a b h - - - - ⟨iv, hole, event, -⟩
        exact empty event
      ending := fun _ member => empty member
      upcoming := fun n held _ => (all n).mpr held
      sorted := sorted }

theorem visits_spec (roomy : Roomy k) {cfg : SweepConfig}
    (placeable : ∀ n, Live k n → Placeable k limit n) (rest : List Nat)
    (inv : Invariant k base limit done cur s) (nodup : (done ++ rest).Nodup)
    (held : ∀ n ∈ rest, n < (Liveness.ofKernel k).store.size) (later : ∀ n ∈ rest, cur ≤ (span k n).min)
    (sorted : rest.Pairwise fun a b => (span k a).min ≤ (span k b).min)
    (visited : rest.foldlM (Sweep.visit k (Liveness.ofKernel k) cfg) s = .ok s') :
    ∃ last, Invariant k base limit (done ++ rest) last s' := by
  induction rest generalizing done cur s with
  | nil =>
    rw [List.foldlM_nil, pure_ok] at visited
    subst visited
    exact ⟨cur, by simpa using inv⟩
  | cons n rest ih =>
    rw [List.foldlM_cons, bind_ok] at visited
    obtain ⟨t, first, others⟩ := visited
    obtain ⟨above, sortedRest⟩ := List.pairwise_cons.mp sorted
    have new : n ∉ done := by
      intro member
      exact (List.nodup_append.mp nodup).2.2 n member n List.mem_cons_self rfl
    have after := visit_spec roomy (placeable n) inv (held n List.mem_cons_self) new
      (later n List.mem_cons_self) first
    obtain ⟨last, final⟩ := ih after (by simpa using nodup)
      (fun m member => held m (List.mem_cons_of_mem _ member)) above sortedRest others
    exact ⟨last, by simpa using final⟩

end

/-- No 32-bit sum of a sweep wraps: those of slot sizes and of pinned ranges, and those of a search,
which looks up to two registers past the window for a place. -/
structure SumsFit (k : Kernel) (cfg : SweepConfig) (reserve : UInt32) : Prop where
  slot : ∀ r iv, (Liveness.ofKernel k).intervalOf? r = some iv → iv.size.toNat + 32 < 4294967296
  search : ∀ r iv, (Liveness.ofKernel k).intervalOf? r = some iv →
    (cfg.fileSize - reserve).toNat + iv.slot.toNat + 64 < 4294967296
  pin : ∀ r iv offset, (Liveness.ofKernel k).intervalOf? r = some iv → k.pin? r = some offset →
    offset.toNat + iv.slot.toNat < 4294967296

/-- Every pinned range lies wholly inside or wholly outside the window. -/
def PinsAside (k : Kernel) (cfg : SweepConfig) (reserve : UInt32) : Prop :=
  ∀ r iv offset, (Liveness.ofKernel k).intervalOf? r = some iv → k.pin? r = some offset →
    (cfg.reservedLow.toNat ≤ offset.toNat ∧
      offset.toNat + iv.slot.toNat ≤ (cfg.fileSize - reserve).toNat) ∨
    offset.toNat + iv.slot.toNat ≤ cfg.reservedLow.toNat ∨
      (cfg.fileSize - reserve).toNat ≤ offset.toNat

theorem slotSize_pos {size : UInt32} (small : size.toNat + 32 < 4294967296) :
    0 < (slotSize size).toNat := by
  unfold slotSize
  split
  · decide
  · split
    · rename_i large
      have least := (FreePool.alignUp_bounds (show 0 < (32 : UInt32).toNat by decide) small).1
      have wide := UInt32.le_iff_toNat_le.mp large
      change 32 ≤ size.toNat at wide
      omega
    · split
      · decide
      · split
        · decide
        · split
          · decide
          · split
            · decide
            · split <;> decide

/-- A place is at least as large as the register. -/
theorem size_le_slotSize {size : UInt32} (small : size.toNat + 32 < 4294967296) :
    size.toNat ≤ (slotSize size).toNat := by
  by_cases large : 32 ≤ size
  · have none : size ≠ 0 := by
      rintro rfl
      exact absurd large (by decide)
    rw [slotSize, if_neg none, if_pos large]
    exact (FreePool.alignUp_bounds (show 0 < (32 : UInt32).toNat by decide) small).1
  · have each : ∀ n : Fin 32, n.val ≤ (slotSize (UInt32.ofNat n)).toNat := by decide
    have bound : size.toNat < 32 := by
      rw [UInt32.le_iff_toNat_le] at large
      exact Nat.lt_of_not_le large
    have least := each ⟨size.toNat, bound⟩
    rwa [UInt32.ofNat_toNat] at least

theorem Live.intervalOf {k : Kernel} {n : Nat} (live : Live k n) :
    (Liveness.ofKernel k).intervalOf? (span k n).reg = some (span k n) := by
  rcases live_or_hole live.held with found | isHole
  · unfold Liveness.intervalOf?
    rw [show (Liveness.ofKernel k).indexOf? (span k n).reg = some n from found]
    rfl
  · have hole := isHole.hole
    rw [show ((Liveness.ofKernel k).store.get n).hole = false from live.live] at hole
    cases hole

theorem live_of_intervalOf {k : Kernel} {r : VReg} {iv : Interval}
    (found : (Liveness.ofKernel k).intervalOf? r = some iv) :
    ∃ n, Live k n ∧ span k n = iv ∧ (span k n).reg = r := by
  obtain ⟨n, index, rfl⟩ := Option.map_eq_some_iff.mp found
  obtain ⟨live, reg⟩ := live_of_indexOf index
  exact ⟨n, live, rfl, reg⟩

theorem span_mem {k : Kernel} {n : Nat} (held : n < (Liveness.ofKernel k).store.size) :
    span k n ∈ (Liveness.ofKernel k).store.intervals := by
  have inside : n < (Liveness.ofKernel k).store.intervals.length := held
  rw [span, IntervalStore.get, List.getD_eq_getElem?_getD, List.getElem?_eq_getElem inside]
  exact List.getElem_mem inside

theorem mem_of_intervalOf {k : Kernel} {r : VReg} {iv : Interval}
    (found : (Liveness.ofKernel k).intervalOf? r = some iv) :
    iv ∈ (Liveness.ofKernel k).store.intervals := by
  obtain ⟨n, live, rfl, -⟩ := live_of_intervalOf found
  exact span_mem live.held

/-- The sums of a sweep fit if those of all slots, pins and the window do. -/
theorem sumsFit_of_all {k : Kernel} {cfg : SweepConfig} {reserve : UInt32}
    (all : ∀ iv ∈ (Liveness.ofKernel k).store.intervals, iv.size.toNat + 32 < 4294967296 ∧
      (cfg.fileSize - reserve).toNat + iv.slot.toNat + 64 < 4294967296 ∧
      ∀ pin ∈ k.pinned.entries, pin.2.toNat + iv.slot.toNat < 4294967296) : SumsFit k cfg reserve := by
  refine ⟨fun r iv found => (all iv (mem_of_intervalOf found)).1,
    fun r iv found => (all iv (mem_of_intervalOf found)).2.1, ?_⟩
  intro r iv offset found pinned
  obtain ⟨entry, held, rfl⟩ := Option.map_eq_some_iff.mp pinned
  exact (all iv (mem_of_intervalOf found)).2.2 entry (List.mem_of_find?_eq_some held)

/-- Without pins, the sums of slots and the window are all there are. -/
theorem sumsFit_of_unpinned {k : Kernel} {cfg : SweepConfig} {reserve : UInt32} (unpinned : ∀ r, k.pin? r = none)
    (all : ∀ r iv, (Liveness.ofKernel k).intervalOf? r = some iv → iv.size.toNat + 32 < 4294967296 ∧
      (cfg.fileSize - reserve).toNat + iv.slot.toNat + 64 < 4294967296) : SumsFit k cfg reserve := by
  refine ⟨fun r iv found => (all r iv found).1, fun r iv found => (all r iv found).2, ?_⟩
  intro r iv offset _ pinned
  rw [unpinned r] at pinned
  cases pinned

theorem pinsAside_of_unpinned {k : Kernel} {cfg : SweepConfig} {reserve : UInt32}
    (unpinned : ∀ r, k.pin? r = none) : PinsAside k cfg reserve := by
  intro r iv offset _ pinned
  rw [unpinned r] at pinned
  cases pinned

/-- A sweep that succeeds ends in the invariant. -/
theorem run_invariant {k : Kernel} {cfg : SweepConfig} {reserve scratchBase : UInt32} {s : Sweep}
    (sums : SumsFit k cfg reserve) (ran : Sweep.run k (Liveness.ofKernel k) cfg reserve scratchBase = .ok s) :
    ∃ done last, Invariant k cfg.reservedLow (cfg.fileSize - reserve) done last s := by
  have roomy : Roomy k := fun n live => slotSize_pos (sums.slot _ _ live.intervalOf)
  have placeable (n : Nat) (live : Live k n) : Placeable k (cfg.fileSize - reserve) n :=
    ⟨sums.search _ _ live.intervalOf, fun offset pin => sums.pin _ _ _ live.intervalOf pin⟩
  unfold Sweep.run at ran
  split at ran
  · cases ran
  · obtain ⟨nodup, all, sorted⟩ := freshStore_ordered k Interval.min fun n => (freshStore_get k n).min
    have starts : (Sweep.start (Liveness.ofKernel k) cfg reserve scratchBase).store.byStart =
        (freshStore k).ordered Interval.min := rfl
    dsimp only at ran
    rw [starts] at ran
    generalize (freshStore k).ordered Interval.min = order at nodup all sorted ran
    cases order with
    | nil =>
      exact ⟨_, visits_spec roomy placeable [] (start_invariant k cfg reserve scratchBase 0) (by simp)
        (by simp) (by simp) .nil ran⟩
    | cons n rest =>
      obtain ⟨above, -⟩ := List.pairwise_cons.mp sorted
      refine ⟨_, visits_spec roomy placeable (n :: rest)
        (start_invariant k cfg reserve scratchBase (span k n).min) (by simpa using nodup)
        (fun m member => (all m).mp member) ?_ sorted ran⟩
      intro m member
      rcases List.mem_cons.mp member with rfl | later
      · exact Int.le_refl _
      · exact above m later

/-- The invariant of a sweep in which no place crosses an end of the window. -/
structure Uncrossed (k : Kernel) (base limit : UInt32) (done : List Nat) (cur : Int) (s : Sweep) : Prop extends
    Invariant k base limit done cur s where
  crossless : ∀ n, Live k n → Mapped k s n → ¬ Straddles k s n

theorem Uncrossed.pair {k : Kernel} {base limit : UInt32} {done : List Nat} {cur : Int} {s : Sweep}
    (inv : Uncrossed k base limit done cur s) {a b : Nat} (liveA : Live k a) (liveB : Live k b) (differs : a ≠ b)
    (mappedA : Mapped k s a) (mappedB : Mapped k s b) (overlap : Overlap k a b) :
    Aside k s a b ∨ Hosted k s a b ∨ Hosted k s b a :=
  inv.pairs a b liveA liveB differs mappedA mappedB overlap
    (fun crosses => absurd crosses (inv.crossless a liveA mappedA))
    fun crosses => absurd crosses (inv.crossless b liveB mappedB)

/-- Where no pin crosses an end of the window, no place does. -/
theorem run_uncrossed {k : Kernel} {cfg : SweepConfig} {reserve scratchBase : UInt32} {s : Sweep}
    (sums : SumsFit k cfg reserve) (pins : PinsAside k cfg reserve)
    (ran : Sweep.run k (Liveness.ofKernel k) cfg reserve scratchBase = .ok s) :
    ∃ done last, Uncrossed k cfg.reservedLow (cfg.fileSize - reserve) done last s := by
  obtain ⟨done, last, inv⟩ := run_invariant sums ran
  refine ⟨done, last, inv, fun n live mapped => ?_⟩
  have lies := inv.lies n live mapped
  cases pinned : k.pin? (span k n).reg with
  | none => exact (lies.free pinned).not_straddles
  | some offset =>
    have aside := pins _ _ _ live.intervalOf pinned
    unfold Straddles Inside
    rw [lies.pinned offset pinned, inv.window.1, inv.window.2]
    omega

/-- One register sits in the slot of another, its host, while that is not in use. -/
structure Guest (k : Kernel) (s : Sweep) (r host : VReg) (iv hostIv : Interval) : Prop where
  told : Reuses s r host
  inside : ∃ hole ∈ (Liveness.ofKernel k).store.intervals,
    hole.hole = true ∧ hole.reg = host ∧ iv.inside hole = true
  bytes : (s.offsets.get host).toNat ≤ (s.offsets.get r).toNat ∧
    (s.offsets.get r).toNat + iv.slot.toNat ≤ (s.offsets.get host).toNat + hostIv.slot.toNat

theorem Hosted.guest {k : Kernel} {s : Sweep} {a h : Nat} (hosted : Hosted k s a h) :
    Guest k s (span k a).reg (span k h).reg (span k a) (span k h) := by
  obtain ⟨told, ⟨j, hollow, owner, inside⟩, within⟩ := hosted
  exact ⟨told, ⟨span k j, span_mem hollow.held, hollow.hole, owner, by simpa [Interval.inside] using inside⟩,
    within⟩

/-- No two live registers share bytes, except a register placed in a hole of another; and the registers
placed in holes of one register are never live together. -/
theorem liveRegisters_apart (k : Kernel) (cfg : SweepConfig) (reserve scratchBase : UInt32) (s : Sweep)
    (sums : SumsFit k cfg reserve) (pins : PinsAside k cfg reserve)
    (ran : Sweep.run k (Liveness.ofKernel k) cfg reserve scratchBase = .ok s) :
    (∀ r r' iv iv', r ≠ r' → (Liveness.ofKernel k).intervalOf? r = some iv →
      (Liveness.ofKernel k).intervalOf? r' = some iv' → s.offsets.contains r = true →
      s.offsets.contains r' = true → iv.overlaps iv' = true →
      Apart (s.offsets.get r) iv.slot (s.offsets.get r') iv'.slot ∨
        Guest k s r r' iv iv' ∨ Guest k s r' r iv' iv) ∧
    ∀ r r' host iv iv', r ≠ r' → (Liveness.ofKernel k).intervalOf? r = some iv →
      (Liveness.ofKernel k).intervalOf? r' = some iv' → Reuses s r host → Reuses s r' host →
      iv.overlaps iv' = false := by
  obtain ⟨done, last, inv⟩ := run_uncrossed sums pins ran
  refine ⟨?_, ?_⟩
  · intro r r' iv iv' differs found found' contained contained' overlaps
    obtain ⟨a, liveA, rfl, rfl⟩ := live_of_intervalOf found
    obtain ⟨b, liveB, rfl, rfl⟩ := live_of_intervalOf found'
    have distinct : a ≠ b := fun same => differs (by rw [same])
    have mapped {n : Nat} (contained : s.offsets.contains (span k n).reg = true) : Mapped k s n := by
      simpa [RegisterMap.contains, Mapped, place] using contained
    have overlap : Overlap k a b := by simpa [Interval.overlaps, Overlap] using overlaps
    rcases inv.pair liveA liveB distinct (mapped contained) (mapped contained') overlap with
      aside | hosted | hosted
    · exact .inl aside
    · exact .inr (.inl hosted.guest)
    · exact .inr (.inr hosted.guest)
  · intro r r' host iv iv' differs found found' reuses reuses'
    obtain ⟨a, liveA, rfl, rfl⟩ := live_of_intervalOf found
    obtain ⟨b, liveB, rfl, rfl⟩ := live_of_intervalOf found'
    obtain ⟨event, hole, told, -⟩ := id reuses
    obtain ⟨guest, h, j, -, rfl, loan⟩ := inv.told _ _ _ told
    have apart := inv.reusers a b h liveA liveB loan.host (fun same => differs (by rw [same])) reuses reuses'
    rw [← Bool.not_eq_true]
    exact fun overlaps => apart (by simpa [Interval.overlaps, Overlap] using overlaps)

/-- Register 2 lives strictly inside a hole of register 0. -/
def holed : Kernel where
  name := "holed"
  simdWidth := 8
  code :=
    [{ op := .mov, dst := .vector ⟨0⟩ .ud, src := [.immediate .ud 1 false false] },
      { op := .mov, dst := .vector ⟨1⟩ .ud, src := [.vector ⟨0⟩ .ud] },
      { op := .mov, dst := .vector ⟨2⟩ .ud, src := [.immediate .ud 5 false false] },
      { op := .mov, dst := .vector ⟨1⟩ .ud, src := [.vector ⟨2⟩ .ud] },
      { op := .mov, dst := .vector ⟨0⟩ .ud, src := [.immediate .ud 2 false false] },
      { op := .mov, dst := .vector ⟨1⟩ .ud, src := [.vector ⟨0⟩ .ud] },
      { op := .endThread }]

theorem liveRegisters_apart_holed :
    ∃ s, Sweep.run holed (Liveness.ofKernel holed) ⟨4096, 32, true, .longest, 0⟩ 0 0 = .ok s ∧
      s.holeReuses = 1 ∧
      (∀ r r' iv iv', r ≠ r' → (Liveness.ofKernel holed).intervalOf? r = some iv →
        (Liveness.ofKernel holed).intervalOf? r' = some iv' → s.offsets.contains r = true →
        s.offsets.contains r' = true → iv.overlaps iv' = true →
        Apart (s.offsets.get r) iv.slot (s.offsets.get r') iv'.slot ∨
          Guest holed s r r' iv iv' ∨ Guest holed s r' r iv' iv) ∧
      ∀ r r' host iv iv', r ≠ r' → (Liveness.ofKernel holed).intervalOf? r = some iv →
        (Liveness.ofKernel holed).intervalOf? r' = some iv' → Reuses s r host → Reuses s r' host →
        iv.overlaps iv' = false := by
  have sizes : ∀ iv ∈ (Liveness.ofKernel holed).store.intervals,
      iv.size.toNat + 32 < 4294967296 ∧ 4096 + iv.slot.toNat + 64 < 4294967296 := by
    decide +kernel
  have outcome : (Sweep.run holed (Liveness.ofKernel holed) ⟨4096, 32, true, .longest, 0⟩ 0 0).toOption.map
      Sweep.holeReuses = some 1 := by
    simp only [Sweep.run, Sweep.start, Liveness.ofKernel, sorted_insertion]
    decide +kernel
  obtain ⟨s, ran, reused⟩ := toOption_map_some.mp outcome
  have unpinned (r : VReg) : holed.pin? r = none := rfl
  have sums : SumsFit holed ⟨4096, 32, true, .longest, 0⟩ 0 :=
    sumsFit_of_unpinned unpinned fun r iv found => sizes iv (mem_of_intervalOf found)
  exact ⟨s, ran, reused, liveRegisters_apart holed _ 0 0 s sums (pinsAside_of_unpinned unpinned) ran⟩

end GpuCodegen.Placement
