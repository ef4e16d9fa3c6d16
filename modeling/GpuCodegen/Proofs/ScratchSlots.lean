import GpuCodegen.Proofs.RegistersAccounted

/-! Scratch slots. A spilled register gets a new slot at the end of scratch memory, or an old one whose latest
occupant ended before it starts. Registers are not spilled in the order of their starts, but along one slot
each occupant starts after all those before it ended, so registers that are live together never share a
scratch byte. -/

namespace GpuCodegen.Placement
open LiveIntervals Outcome

/-- No new slot ends past 32 bits, so the scratch size never wraps. -/
def ScratchGrows (s : Sweep) : Prop :=
  ∀ iv offset, PlacementEvent.spilled iv offset false ∈ s.log →
    offset.toNat + (Sweep.scratchBytes iv).toNat < 4294967296

theorem scratchBytes_max (iv : Interval) : (Sweep.scratchBytes iv).toNat = max iv.slot.toNat 32 := by
  unfold Sweep.scratchBytes
  split
  · rename_i small
    have small := UInt32.lt_iff_toNat_lt.mp small
    change iv.slot.toNat < 32 at small
    change 32 = _
    omega
  · rename_i large
    have large := UInt32.le_iff_toNat_le.mp (UInt32.not_lt.mp large)
    change 32 ≤ iv.slot.toNat at large
    omega

theorem scratchBytes_same {iv iv' : Interval} (same : Same iv iv') :
    Sweep.scratchBytes iv = Sweep.scratchBytes iv' := by
  unfold Sweep.scratchBytes
  rw [same.slot]

/-! ## Steps and scratch memory -/

/-- A step that leaves scratch memory alone. -/
structure KeepsScratch (s s' : Sweep) : Prop where
  slots : s'.slots = s.slots
  scratch : s'.scratch = s.scratch
  size : s'.scratchSize = s.scratchSize
  spilled : s'.spilled = s.spilled
  log : ∀ e ∈ s.log, e ∈ s'.log

section
variable {k : Kernel} {lv : Liveness} {cfg : SweepConfig} {base limit : UInt32} {done done' : List Nat} {s s' : Sweep}
  {n : Nat}

theorem KeepsScratch.refl (s : Sweep) : KeepsScratch s s := ⟨rfl, rfl, rfl, rfl, fun _ => id⟩

theorem KeepsScratch.trans {s'' : Sweep} (first : KeepsScratch s s') (second : KeepsScratch s' s'') :
    KeepsScratch s s'' :=
  ⟨second.slots.trans first.slots, second.scratch.trans first.scratch, second.size.trans first.size,
    second.spilled.trans first.spilled, fun e member => second.log e (first.log e member)⟩

theorem KeepsScratch.grows (keeps : KeepsScratch s s') (grows : ScratchGrows s') : ScratchGrows s :=
  fun iv offset event => grows iv offset (keeps.log _ event)

theorem deactivate_scratch (s : Sweep) (n : Nat) : KeepsScratch s (s.deactivate n) := by
  unfold Sweep.deactivate
  dsimp only
  split
  · exact ⟨rfl, rfl, rfl, rfl, fun _ => id⟩
  · split <;> exact ⟨rfl, rfl, rfl, rfl, fun _ => id⟩

theorem expireOne_scratch (s : Sweep) (n : Nat) : KeepsScratch s (s.expireOne n) := by
  unfold Sweep.expireOne
  split
  · exact ⟨rfl, rfl, rfl, rfl, fun _ => id⟩
  · split
    · exact deactivate_scratch s n
    · exact .refl s

theorem expire_scratch (s : Sweep) (start : Int) : KeepsScratch s (s.expire start) := by
  have along (ns : List Nat) (s : Sweep) : KeepsScratch s (ns.foldl Sweep.expireOne s) := by
    induction ns generalizing s with
    | nil => exact .refl s
    | cons n ns ih => exact (expireOne_scratch s n).trans (ih (s.expireOne n))
  obtain ⟨slots, scratch, size, spilled, log⟩ :=
    along (s.ending.takeWhile fun n => decide ((s.store.get n).max < start)) s
  exact ⟨slots, scratch, size, spilled, log⟩

theorem openHole_scratch (lv : Liveness) (cfg : SweepConfig) (n : Nat) (s : Sweep) :
    KeepsScratch s (s.openHole lv cfg n) := by
  unfold Sweep.openHole
  dsimp only
  split
  · split <;> exact ⟨rfl, rfl, rfl, rfl, fun _ => id⟩
  · exact .refl s

theorem assign_scratch (s : Sweep) (n : Nat) (offset : UInt32) (pool : FreePool) (e : PlacementEvent) :
    KeepsScratch s (({ s with pool := pool }.assign n offset).note e) :=
  ⟨rfl, rfl, rfl, rfl, fun _ => List.mem_append_left _⟩

theorem placePinned_scratch {offset : UInt32} (placed : s.placePinned n offset = .ok s') : KeepsScratch s s' := by
  unfold Sweep.placePinned at placed
  dsimp only at placed
  split at placed
  · split at placed
    · cases placed
      exact assign_scratch s n offset _ _
    · cases placed
  · split at placed
    · cases placed
    · cases placed
      exact assign_scratch s n offset s.pool _

theorem tryHole_scratch (taken : s.tryHole cfg n = some s') : KeepsScratch s s' := by
  unfold Sweep.tryHole at taken
  dsimp only at taken
  split at taken
  · cases taken
  · split at taken
    · cases taken
    · cases taken
      exact ⟨rfl, rfl, rfl, rfl, fun _ => List.mem_append_left _⟩

theorem unplace_scratch (s : Sweep) (n : Nat) : KeepsScratch s (s.unplace n) := by
  unfold Sweep.unplace
  split
  · obtain ⟨slots, scratch, size, spilled, log⟩ := deactivate_scratch s n
    exact ⟨slots, scratch, size, spilled, log⟩
  · exact .refl s

/-- The slot that spilling an interval takes: one that may be reused, or a new one at the end. -/
structure TakesSlot (lv : Liveness) (s s' : Sweep) (iv : Interval) (offset : UInt32) : Prop where
  scratch : s'.scratch = s.scratch.insert iv.reg offset
  spilled : s'.spilled = s.spilled ++ [iv.reg]
  log : ∀ e ∈ s.log, e ∈ s'.log
  slot : (s.reusableSlot? lv iv (Sweep.scratchBytes iv) = some offset ∧ s'.slots = s.slots ∧
      s'.scratchSize = s.scratchSize) ∨
    (offset = s.scratchSize ∧ s'.slots = s.slots.insert offset (Sweep.scratchBytes iv) ∧
      s'.scratchSize = s.scratchSize + Sweep.scratchBytes iv ∧ .spilled iv offset false ∈ s'.log)

theorem spill_takes (spilled : s.spill lv cfg n = .ok s') :
    (∃ offset, TakesSlot lv s s' (s.store.get n) offset) ∧
      (cfg.scratchLimit ≠ 0 → s'.scratchSize ≤ cfg.scratchLimit) := by
  obtain ⟨slots, scratch, size, listed, log⟩ := unplace_scratch s n
  have reusable : (s.unplace n).reusableSlot? lv (s.store.get n) (Sweep.scratchBytes (s.store.get n)) =
      s.reusableSlot? lv (s.store.get n) (Sweep.scratchBytes (s.store.get n)) := by
    unfold Sweep.reusableSlot?
    rw [scratch, slots]
  have limited {size : UInt32} (within : ¬ (0 < cfg.scratchLimit ∧ cfg.scratchLimit < size))
      (limit : cfg.scratchLimit ≠ 0) : size ≤ cfg.scratchLimit := by
    refine UInt32.not_lt.mp fun larger => within ⟨?_, larger⟩
    rw [UInt32.lt_iff_toNat_lt]
    exact Nat.pos_of_ne_zero fun zero => limit (UInt32.toNat_inj.mp zero)
  unfold Sweep.spill at spilled
  dsimp only at spilled
  rw [reusable] at spilled
  cases found : s.reusableSlot? lv (s.store.get n) (Sweep.scratchBytes (s.store.get n)) with
  | some offset =>
    simp only [found, Option.isSome_some, if_true, Option.getD_some] at spilled
    split at spilled
    · cases spilled
    · rename_i within
      cases spilled
      refine ⟨⟨offset, ?_, ?_, ?_, .inl ⟨found, slots, size⟩⟩, limited within⟩
      · exact congrArg (RegisterMap.insert · _ _) scratch
      · exact congrArg (· ++ _) listed
      · exact fun e member => List.mem_append_left _ (log e member)
  | none =>
    simp only [found, Option.isSome_none, Bool.false_eq_true, if_false, Option.getD_none, size] at spilled
    split at spilled
    · cases spilled
    · rename_i within
      cases spilled
      refine ⟨⟨s.scratchSize, ?_, ?_, ?_, .inr ⟨rfl, ?_, rfl, ?_⟩⟩, limited within⟩
      · exact congrArg (RegisterMap.insert · _ _) scratch
      · exact congrArg (· ++ _) listed
      · exact fun e member => List.mem_append_left _ (log e member)
      · exact congrArg (OrdMap.insert · _ _) slots
      · exact List.mem_append_right _ List.mem_cons_self

/-! ## Slots and their occupants -/

/-- A slot found for an interval is long enough, and its latest occupant ended before the interval starts. -/
theorem reusableSlot_some {iv : Interval} {size offset : UInt32}
    (index : ∃ index, s.scratch.reverse = some index ∧ index.Ordered)
    (found : s.reusableSlot? lv iv size = some offset) :
    ∃ r previous, s.scratch.registerAt? offset = some r ∧ lv.intervalOf? r = some previous ∧
      previous.max < iv.min ∧ size ≤ (s.slots.find? offset).getD 0 := by
  obtain ⟨index, on, ordered⟩ := index
  obtain ⟨⟨o, r⟩, entry, rfl⟩ := Option.map_eq_some_iff.mp found
  have member := List.mem_of_find?_eq_some entry
  have fits := List.find?_some entry
  simp only [RegisterMap.reverseEntries, on] at member
  dsimp only at fits
  cases known : lv.intervalOf? r with
  | none => simp [known] at fits
  | some previous =>
    simp only [known, Bool.and_eq_true, decide_eq_true_eq] at fits
    refine ⟨r, previous, ?_, known, fits.1, fits.2⟩
    rw [RegisterMap.registerAt?, on]
    exact (OrdMap.find?_eq_some ordered).mpr member

/-- Slots lie side by side between the base and the scratch size, each register has one that is long enough,
and along a slot each occupant starts after the ones before it ended. -/
structure Slots (k : Kernel) (base : UInt32) (s : Sweep) : Prop where
  listed : ∀ r, s.scratch.contains r = true ↔ r ∈ s.spilled
  index : ∃ index, s.scratch.reverse = some index ∧ index.Ordered
  ordered : s.slots.Ordered
  grows : base.toNat ≤ s.scratchSize.toNat
  inside : ∀ e ∈ s.slots.entries, base.toNat ≤ e.1.toNat ∧ 0 < e.2.toNat ∧
    e.1.toNat + e.2.toNat ≤ s.scratchSize.toNat
  apart : ∀ e ∈ s.slots.entries, ∀ e' ∈ s.slots.entries, e.1 ≠ e'.1 → Apart e.1 e.2 e'.1 e'.2
  room : ∀ n, Live k n → (span k n).reg ∈ s.spilled → ∃ size,
    s.slots.find? (s.scratch.get (span k n).reg) = some size ∧ Sweep.scratchBytes (span k n) ≤ size
  latest : ∀ n, Live k n → (span k n).reg ∈ s.spilled → ∃ m, Live k m ∧
    s.scratch.registerAt? (s.scratch.get (span k n).reg) = some (span k m).reg ∧
    (n = m ∨ (span k n).max < (span k m).min)
  chain : ∀ a b, Live k a → Live k b → a ≠ b → (span k a).reg ∈ s.spilled → (span k b).reg ∈ s.spilled →
    s.scratch.get (span k a).reg = s.scratch.get (span k b).reg → ¬ Overlap k a b

/-- A slot is there for an interval: it is long enough, and whoever had it ended before. -/
structure Offered (k : Kernel) (base : UInt32) (s s' : Sweep) (n : Nat) (offset : UInt32) : Prop where
  ordered : s'.slots.Ordered
  grows : base.toNat ≤ s'.scratchSize.toNat
  inside : ∀ e ∈ s'.slots.entries, base.toNat ≤ e.1.toNat ∧ 0 < e.2.toNat ∧
    e.1.toNat + e.2.toNat ≤ s'.scratchSize.toNat
  apart : ∀ e ∈ s'.slots.entries, ∀ e' ∈ s'.slots.entries, e.1 ≠ e'.1 → Apart e.1 e.2 e'.1 e'.2
  here : ∃ size, s'.slots.find? offset = some size ∧ Sweep.scratchBytes (span k n) ≤ size
  kept : ∀ o size, s.slots.find? o = some size → s'.slots.find? o = some size
  ended : ∀ m, Live k m → (span k m).reg ∈ s.spilled → s.scratch.get (span k m).reg = offset →
    (span k m).max < (span k n).min

theorem Slots.keeps (slots : Slots k base s) (keeps : KeepsScratch s s') : Slots k base s' := by
  obtain ⟨listed, index, ordered, grows, inside, apart, room, latest, chain⟩ := slots
  rw [← keeps.slots] at ordered inside apart room
  rw [← keeps.size] at grows inside
  rw [← keeps.scratch] at listed index room latest chain
  rw [← keeps.spilled] at listed room latest chain
  exact ⟨listed, index, ordered, grows, inside, apart, room, latest, chain⟩

/-- An old slot: its latest occupant ended before, and the others ended before that one started. -/
theorem Slots.reuse {offset : UInt32} (slots : Slots k base s) (shape : Same (s.store.get n) (span k n))
    (found : s.reusableSlot? (Liveness.ofKernel k) (s.store.get n) (Sweep.scratchBytes (s.store.get n)) = some offset)
    (same : s'.slots = s.slots) (size : s'.scratchSize = s.scratchSize) : Offered k base s s' n offset := by
  obtain ⟨r, previous, indexed, known, before, fits⟩ := reusableSlot_some slots.index found
  rw [shape.min] at before
  rw [scratchBytes_same shape] at fits
  obtain ⟨p, liveP, rfl, rfl⟩ := live_of_intervalOf known
  have large := scratchBytes_large (span k n)
  obtain ⟨listed, index, ordered, grows, inside, apart, room, latest, chain⟩ := slots
  rw [← same] at ordered inside apart fits
  rw [← size] at grows inside
  refine ⟨ordered, grows, inside, apart, ?_, ?_, ?_⟩
  · cases held : s'.slots.find? offset with
    | none =>
      rw [held, UInt32.le_iff_toNat_le] at fits
      change _ ≤ 0 at fits
      omega
    | some size =>
      rw [held] at fits
      exact ⟨size, rfl, fits⟩
  · rw [same]
    exact fun _ _ => id
  · intro m liveM member here
    obtain ⟨l, liveL, last, order⟩ := latest m liveM member
    rw [here, indexed] at last
    have same : p = l := by
      by_contra differs
      exact liveP.reg_ne liveL differs (Option.some.inj last)
    subst same
    rcases order with rfl | earlier
    · exact before
    · exact Int.lt_of_lt_of_le earlier (Int.le_trans liveP.valid (Int.le_of_lt before))

/-- A new slot starts where all the others have ended. -/
theorem Slots.fresh (slots : Slots k base s) (shape : Same (s.store.get n) (span k n))
    (fits : s.scratchSize.toNat + (Sweep.scratchBytes (span k n)).toNat < 4294967296)
    (new : s'.slots = s.slots.insert s.scratchSize (Sweep.scratchBytes (s.store.get n)))
    (size : s'.scratchSize = s.scratchSize + Sweep.scratchBytes (s.store.get n)) :
    Offered k base s s' n s.scratchSize := by
  have large := scratchBytes_large (span k n)
  rw [scratchBytes_same shape] at new size
  have total : s'.scratchSize.toNat = s.scratchSize.toNat + (Sweep.scratchBytes (span k n)).toNat := by
    rw [size, FreePool.toNat_add fits]
  have other {o size : UInt32} (held : s.slots.find? o = some size) : o ≠ s.scratchSize := by
    obtain ⟨-, positive, high⟩ := slots.inside _ ((OrdMap.find?_eq_some slots.ordered).mp held)
    rintro rfl
    dsimp only at positive high
    omega
  have entries {e : UInt32 × UInt32} : e ∈ s'.slots.entries ↔
      e = (s.scratchSize, Sweep.scratchBytes (span k n)) ∨ e ∈ s.slots.entries ∧ e.1 ≠ s.scratchSize := by
    rw [new]
    exact OrdMap.mem_insert slots.ordered
  refine ⟨?_, ?_, ?_, ?_, ?_, ?_, ?_⟩
  · rw [new]
    exact OrdMap.ordered_insert slots.ordered _ _
  · rw [total]
    exact Nat.le_add_right_of_le slots.grows
  · intro e member
    rw [total]
    rcases entries.mp member with rfl | ⟨old, -⟩
    · exact ⟨slots.grows, by dsimp only; omega, Nat.le_refl _⟩
    · obtain ⟨low, positive, high⟩ := slots.inside e old
      exact ⟨low, positive, by omega⟩
  · intro e member e' member' differs
    rcases entries.mp member with rfl | ⟨old, -⟩ <;> rcases entries.mp member' with rfl | ⟨old', -⟩
    · exact absurd rfl differs
    · exact .inr (slots.inside e' old').2.2
    · exact .inl (slots.inside e old).2.2
    · exact slots.apart e old e' old' differs
  · exact ⟨_, by rw [new, OrdMap.find?_insert_self], UInt32.le_refl _⟩
  · intro o size held
    rw [new, OrdMap.find?_insert_of_ne _ (other held)]
    exact held
  · intro m liveM member here
    obtain ⟨size, held, -⟩ := slots.room m liveM member
    exact absurd here (other held)

/-- The new occupant is the latest one of its slot, and nothing changes about the other slots. -/
theorem Slots.occupy {offset : UInt32} (slots : Slots k base s) (live : Live k n)
    (absent : (span k n).reg ∉ s.spilled) (offered : Offered k base s s' n offset)
    (scratch : s'.scratch = s.scratch.insert (span k n).reg offset)
    (spilled : s'.spilled = s.spilled ++ [(span k n).reg]) : Slots k base s' := by
  obtain ⟨index, on, indexOrdered⟩ := slots.index
  have unknown : s.scratch.contains (span k n).reg = false := by
    rw [Bool.eq_false_iff, ne_eq, slots.listed]
    exact absent
  have reverse : s'.scratch.reverse = some (index.insert offset (span k n).reg) := by
    simp [scratch, RegisterMap.insert, on, unknown]
  have here : s'.scratch.get (span k n).reg = offset := by
    rw [scratch, RegisterMap.get_insert_self]
  have others {m : Nat} (liveM : Live k m) (differs : m ≠ n) :
      s'.scratch.get (span k m).reg = s.scratch.get (span k m).reg := by
    rw [scratch, RegisterMap.get_insert_of_ne _ (liveM.reg_ne live differs)]
  have before {m : Nat} (liveM : Live k m) (differs : m ≠ n) (member : (span k m).reg ∈ s'.spilled) :
      (span k m).reg ∈ s.spilled := by
    rw [spilled, List.mem_append, List.mem_singleton] at member
    exact member.resolve_right (liveM.reg_ne live differs)
  have mapped : offset ≠ unmapped := by
    obtain ⟨size, held, large⟩ := offered.here
    obtain ⟨-, -, high⟩ := offered.inside _ ((OrdMap.find?_eq_some offered.ordered).mp held)
    have enough := scratchBytes_large (span k n)
    have bound := s'.scratchSize.toNat_lt
    rw [UInt32.le_iff_toNat_le] at large
    rintro rfl
    change 4294967295 + size.toNat ≤ _ at high
    omega
  refine ⟨?_, ?_, offered.ordered, offered.grows, offered.inside, offered.apart, ?_, ?_, ?_⟩
  · intro r
    rw [spilled, List.mem_append, List.mem_singleton, ← slots.listed, scratch, RegisterMap.contains_insert _ _ _ mapped]
  · exact ⟨_, reverse, OrdMap.ordered_insert indexOrdered _ _⟩
  · intro m liveM member
    by_cases same : m = n
    · rw [same, here]
      exact offered.here
    · obtain ⟨size, held, fits⟩ := slots.room m liveM (before liveM same member)
      rw [others liveM same]
      exact ⟨size, offered.kept _ _ held, fits⟩
  · intro m liveM member
    by_cases same : m = n
    · refine ⟨n, live, ?_, .inl same⟩
      rw [same, here, RegisterMap.registerAt?, reverse]
      exact OrdMap.find?_insert_self _ _ _
    · rw [others liveM same]
      by_cases shared : s.scratch.get (span k m).reg = offset
      · refine ⟨n, live, ?_, .inr (offered.ended m liveM (before liveM same member) shared)⟩
        rw [shared, RegisterMap.registerAt?, reverse]
        exact OrdMap.find?_insert_self _ _ _
      · obtain ⟨l, liveL, last, order⟩ := slots.latest m liveM (before liveM same member)
        refine ⟨l, liveL, ?_, order⟩
        rw [RegisterMap.registerAt?, on] at last
        rw [RegisterMap.registerAt?, reverse]
        exact (OrdMap.find?_insert_of_ne _ shared _).trans last
  · intro a b liveA liveB differs memberA memberB shared
    unfold Overlap
    by_cases sameA : a = n
    · have sameB : b ≠ n := fun same => differs (sameA.trans same.symm)
      rw [sameA, here, others liveB sameB] at shared
      have := offered.ended b liveB (before liveB sameB memberB) shared.symm
      rw [sameA]
      omega
    · by_cases sameB : b = n
      · rw [sameB, here, others liveA sameA] at shared
        have := offered.ended a liveA (before liveA sameA memberA) shared
        rw [sameB]
        omega
      · rw [others liveA sameA, others liveB sameB] at shared
        exact slots.chain a b liveA liveB differs (before liveA sameA memberA) (before liveB sameB memberB) shared

theorem Slots.takes {offset : UInt32} (slots : Slots k base s) (shape : Same (s.store.get n) (span k n))
    (live : Live k n) (absent : (span k n).reg ∉ s.spilled) (grows : ScratchGrows s')
    (takes : TakesSlot (Liveness.ofKernel k) s s' (s.store.get n) offset) : Slots k base s' := by
  have scratch := takes.scratch
  have spilled := takes.spilled
  rw [shape.reg] at scratch spilled
  refine slots.occupy live absent ?_ scratch spilled
  rcases takes.slot with ⟨found, same, size⟩ | ⟨rfl, new, size, event⟩
  · exact slots.reuse shape found same size
  · have fits := grows _ _ event
    rw [scratchBytes_same shape] at fits
    exact slots.fresh shape fits new size

/-! ## Runs -/

/-- A sweep that has met the intervals `done`: each register was spilled at most once, and only after its
interval was met, so that its slot is still its own. -/
structure Slotted (k : Kernel) (base limit : UInt32) (done : List Nat) (s : Sweep) : Prop extends
    Roster k s where
  apart : s.active.Nodup
  met : ∀ a ∈ s.active, a ∈ done
  gone : ∀ n, Live k n → (span k n).reg ∈ s.spilled → n ∈ done ∧ n ∉ s.active
  untouched : s.spilled = [] → s.scratchSize = base
  limited : limit ≠ 0 → s.spilled ≠ [] → s.scratchSize ≤ limit
  slots : ScratchGrows s → Slots k base s

theorem Slotted.expires (slotted : Slotted k base limit done s) (expires : Expires s s')
    (keeps : KeepsScratch s s') : Slotted k base limit done s' := by
  refine ⟨slotted.toRoster.expires expires, slotted.apart.sublist expires.active, ?_, ?_, ?_, ?_, ?_⟩
  · exact fun a member => slotted.met a (expires.active.mem member)
  · intro m live member
    rw [keeps.spilled] at member
    obtain ⟨met, inactive⟩ := slotted.gone m live member
    exact ⟨met, fun active => inactive (expires.active.mem active)⟩
  · rw [keeps.spilled, keeps.size]
    exact slotted.untouched
  · rw [keeps.spilled, keeps.size]
    exact slotted.limited
  · exact fun grows => (slotted.slots (keeps.grows grows)).keeps keeps

theorem Slotted.puts {offset : UInt32} (slotted : Slotted k base limit done s) (live : Live k n) (new : n ∉ done)
    (puts : Puts s s' n offset) (keeps : KeepsScratch s s') : Slotted k base limit (done ++ [n]) s' := by
  have absent : (span k n).reg ∉ s.spilled := fun member => new (slotted.gone n live member).1
  refine ⟨slotted.toRoster.puts live puts, ?_, ?_, ?_, ?_, ?_, ?_⟩
  · rw [puts.active]
    refine List.nodup_append.mpr ⟨slotted.apart, by simp, ?_⟩
    rintro a active _ member rfl
    rw [List.mem_singleton.mp member] at active
    exact new (slotted.met n active)
  · intro a member
    rw [puts.active] at member
    rcases List.mem_append.mp member with before | now
    · exact List.mem_append_left _ (slotted.met a before)
    · exact List.mem_append_right _ now
  · intro m liveM member
    rw [keeps.spilled] at member
    obtain ⟨met, inactive⟩ := slotted.gone m liveM member
    refine ⟨List.mem_append_left _ met, fun active => ?_⟩
    rw [puts.active] at active
    rcases List.mem_append.mp active with before | now
    · exact inactive before
    · rw [List.mem_singleton.mp now] at met
      exact new met
  · rw [keeps.spilled, keeps.size]
    exact slotted.untouched
  · rw [keeps.spilled, keeps.size]
    exact slotted.limited
  · exact fun grows => (slotted.slots (keeps.grows grows)).keeps keeps

/-- An active interval, or one met for the first time, is spilled. -/
theorem Slotted.spill (slotted : Slotted k base cfg.scratchLimit done s) (live : Live k n)
    (free : n ∈ s.active ∨ n ∉ done) (more : ∀ m, m ∈ done' ↔ m ∈ done ∨ m = n)
    (spilled : s.spill (Liveness.ofKernel k) cfg n = .ok s') : Slotted k base cfg.scratchLimit done' s' := by
  obtain ⟨⟨offset, takes⟩, limited⟩ := spill_takes spilled
  have active : s'.active = s.active.erase n := (spill_cases spilled).active.trans (unplace_active s n)
  have list : s'.spilled = s.spilled ++ [(span k n).reg] := by
    rw [takes.spilled, (slotted.shape n).reg]
  have absent : (span k n).reg ∉ s.spilled := by
    intro member
    obtain ⟨met, inactive⟩ := slotted.gone n live member
    exact free.elim inactive fun new => new met
  refine ⟨slotted.toRoster.spill live spilled, ?_, ?_, ?_, ?_, fun limit _ => limited limit, ?_⟩
  · rw [active]
    exact slotted.apart.erase n
  · intro a member
    rw [active] at member
    exact (more a).mpr (.inl (slotted.met a (List.mem_of_mem_erase member)))
  · intro m liveM member
    rw [list, List.mem_append, List.mem_singleton] at member
    rw [active, more, slotted.apart.mem_erase_iff]
    by_cases same : m = n
    · exact ⟨.inr same, fun here => here.1 same⟩
    · obtain ⟨met, inactive⟩ := slotted.gone m liveM (member.resolve_right (liveM.reg_ne live same))
      exact ⟨.inl met, fun here => inactive here.2⟩
  · intro none
    rw [list] at none
    simp at none
  · intro grows
    have before : ScratchGrows s := fun iv at_ event => grows iv at_ (takes.log _ event)
    exact (slotted.slots before).takes (slotted.shape n) live absent grows takes

theorem Slotted.settles {avoid : Option Nat} {r : Except (Stopped PlacementEvent) Sweep}
    (slotted : Slotted k base cfg.scratchLimit done s) (live : Live k n) (new : n ∉ done)
    (settles : Settles k (Liveness.ofKernel k) cfg n avoid s r) (ran : r = .ok s') :
    Slotted k base cfg.scratchLimit (done ++ [n]) s' := by
  induction settles with
  | @placed s offset pool found =>
    cases ran
    exact slotted.puts live new (assign_puts s n offset (allocate_window found) (by simp))
      (assign_scratch s n offset pool _)
  | refused => cases ran
  | itself =>
    exact slotted.spill live (.inr new) (fun m => by rw [List.mem_append, List.mem_singleton]) ran
  | failed => cases ran
  | @again s t v r full spills victim spilled rest ih =>
    have active := (victim_spec victim).1
    refine ih (slotted.spill (slotted.active v active) (.inl active) (fun m => ?_) spilled) ran
    refine ⟨.inl, ?_⟩
    rintro (before | rfl)
    · exact before
    · exact slotted.met m active

theorem Slotted.visit (slotted : Slotted k base cfg.scratchLimit done s)
    (held : n < (Liveness.ofKernel k).store.size) (new : n ∉ done)
    (visited : Sweep.visit k (Liveness.ofKernel k) cfg s n = .ok s') :
    Slotted k base cfg.scratchLimit (done ++ [n]) s' := by
  have expired := slotted.expires (expire_expires s (s.store.get n).min) (expire_scratch s _)
  rcases visit_cases visited with ⟨-, rfl⟩ | ⟨live, placed⟩
  · have roster := slotted.toRoster.visit held visited
    have keeps := openHole_scratch (Liveness.ofKernel k) cfg n (s.expire (s.store.get n).min)
    have active := (openHole_same (Liveness.ofKernel k) cfg n (s.expire (s.store.get n).min)).2.1
    refine ⟨roster, ?_, ?_, ?_, ?_, ?_, ?_⟩
    · rw [active]
      exact expired.apart
    · rw [active]
      exact fun a member => List.mem_append_left _ (expired.met a member)
    · intro m live member
      rw [keeps.spilled] at member
      rw [active]
      obtain ⟨met, inactive⟩ := expired.gone m live member
      exact ⟨List.mem_append_left _ met, inactive⟩
    · rw [keeps.spilled, keeps.size]
      exact expired.untouched
    · rw [keeps.spilled, keeps.size]
      exact expired.limited
    · exact fun grows => (expired.slots (keeps.grows grows)).keeps keeps
  · have live : Live k n := ⟨held, by rw [← (slotted.shape n).hole]; exact live⟩
    rcases placed with ⟨offset, -, pinned⟩ | ⟨-, taken | ⟨avoid, settles⟩⟩
    · exact expired.puts live new (placePinned_puts pinned).1 (placePinned_scratch pinned)
    · obtain ⟨e, -, -, -, puts⟩ := tryHole_puts taken
      exact expired.puts live new puts (tryHole_scratch taken)
    · exact expired.settles live new settles rfl

theorem visits_slotted (rest : List Nat) (slotted : Slotted k base cfg.scratchLimit done s)
    (held : ∀ n ∈ rest, n < (Liveness.ofKernel k).store.size) (nodup : (done ++ rest).Nodup)
    (visited : rest.foldlM (Sweep.visit k (Liveness.ofKernel k) cfg) s = .ok s') :
    Slotted k base cfg.scratchLimit (done ++ rest) s' := by
  induction rest generalizing done s with
  | nil =>
    rw [List.foldlM_nil, pure_ok] at visited
    rw [List.append_nil]
    exact visited ▸ slotted
  | cons n rest ih =>
    rw [List.foldlM_cons, bind_ok] at visited
    obtain ⟨t, first, others⟩ := visited
    have new : n ∉ done := fun member => (List.nodup_append.mp nodup).2.2 n member n List.mem_cons_self rfl
    have after := slotted.visit (held n List.mem_cons_self) new first
    have final := ih after (fun m member => held m (List.mem_cons_of_mem _ member)) (by simpa using nodup) others
    simpa using final

theorem start_slotted (k : Kernel) (cfg : SweepConfig) (reserve scratchBase : UInt32) :
    Slotted k scratchBase cfg.scratchLimit [] (Sweep.start (Liveness.ofKernel k) cfg reserve scratchBase) := by
  refine ⟨start_roster k cfg reserve scratchBase, .nil, nofun, nofun, fun _ => rfl, ?_, fun _ => ?_⟩
  · exact fun _ spilled => absurd rfl spilled
  · refine ⟨fun r => ⟨nofun, nofun⟩, ⟨.empty, rfl, OrdMap.ordered_empty⟩, OrdMap.ordered_empty, Nat.le_refl _, ?_, ?_,
      ?_, ?_, ?_⟩ <;>
      exact nofun

/-- A whole sweep, by induction on the visits. -/
theorem run_slotted {reserve scratchBase : UInt32}
    (ran : Sweep.run k (Liveness.ofKernel k) cfg reserve scratchBase = .ok s) :
    ∃ done, Slotted k scratchBase cfg.scratchLimit done s := by
  obtain ⟨order, nodup, all, visited⟩ := run_visits ran
  refine ⟨_, visits_slotted order (start_slotted k cfg reserve scratchBase) (fun n member => (all n).mp member) ?_
    visited⟩
  simpa using nodup

end

/-! ## The layout of scratch memory -/

/-- Where a sweep has put the spilled registers in scratch memory. -/
structure ScratchLayout (k : Kernel) (scratchBase : UInt32) (s : Sweep) : Prop where
  listed : ∀ r, r ∈ s.spilled ↔ s.scratch.contains r = true
  inside : ∀ r ∈ s.spilled, ∃ iv offset, (Liveness.ofKernel k).intervalOf? r = some iv ∧
    s.scratch.lookup? r = some offset ∧ scratchBase.toNat ≤ offset.toNat ∧
    offset.toNat + max iv.slot.toNat 32 ≤ s.scratchSize.toNat
  apart : ∀ r r' iv iv' offset offset', r ≠ r' → (Liveness.ofKernel k).intervalOf? r = some iv →
    (Liveness.ofKernel k).intervalOf? r' = some iv' → s.scratch.lookup? r = some offset →
    s.scratch.lookup? r' = some offset' → iv.overlaps iv' = true →
    offset.toNat + max iv.slot.toNat 32 ≤ offset'.toNat ∨ offset'.toNat + max iv'.slot.toNat 32 ≤ offset.toNat
  shared : ∀ r r' iv iv' offset, r ≠ r' → (Liveness.ofKernel k).intervalOf? r = some iv →
    (Liveness.ofKernel k).intervalOf? r' = some iv' → s.scratch.lookup? r = some offset →
    s.scratch.lookup? r' = some offset → iv.overlaps iv' = false

section
variable {k : Kernel} {cfg : SweepConfig} {base reserve scratchBase : UInt32} {s : Sweep}

theorem lookup_scratch {r : VReg} {offset : UInt32} (found : s.scratch.lookup? r = some offset) :
    s.scratch.contains r = true ∧ s.scratch.get r = offset := by
  unfold RegisterMap.lookup? at found
  split at found
  · rename_i contained
    exact ⟨contained, Option.some.inj found⟩
  · cases found

theorem overlaps_iff {a b : Nat} : (span k a).overlaps (span k b) = true ↔ Overlap k a b := by
  simp [Interval.overlaps, Overlap]

/-- The whole slot of a register, of which it takes the first bytes. -/
theorem Slots.slot {n : Nat} (slots : Slots k base s) (live : Live k n) (member : (span k n).reg ∈ s.spilled) :
    ∃ size, (s.scratch.get (span k n).reg, size) ∈ s.slots.entries ∧ max (span k n).slot.toNat 32 ≤ size.toNat := by
  obtain ⟨size, held, room⟩ := slots.room n live member
  rw [UInt32.le_iff_toNat_le, scratchBytes_max] at room
  exact ⟨size, (OrdMap.find?_eq_some slots.ordered).mp held, room⟩

theorem Slotted.layout {done : List Nat} {limit : UInt32} (slotted : Slotted k base limit done s)
    (grows : ScratchGrows s) : ScratchLayout k base s := by
  have slots := slotted.slots grows
  have spilled {r : VReg} {iv : Interval} {offset : UInt32} (known : (Liveness.ofKernel k).intervalOf? r = some iv)
      (found : s.scratch.lookup? r = some offset) : ∃ n, Live k n ∧ span k n = iv ∧ (span k n).reg = r ∧
        (span k n).reg ∈ s.spilled ∧ s.scratch.get (span k n).reg = offset := by
    obtain ⟨n, live, here, rfl⟩ := live_of_intervalOf known
    obtain ⟨contained, at_⟩ := lookup_scratch found
    exact ⟨n, live, here, rfl, (slots.listed _).mp contained, at_⟩
  refine ⟨fun r => (slots.listed r).symm, ?_, ?_, ?_⟩
  · intro r member
    obtain ⟨n, live, rfl⟩ := slotted.spilled r member
    obtain ⟨size, held, room⟩ := slots.slot live member
    obtain ⟨low, -, high⟩ := slots.inside _ held
    refine ⟨span k n, _, live.intervalOf, ?_, low, Nat.le_trans (Nat.add_le_add_left room _) high⟩
    rw [RegisterMap.lookup?, if_pos ((slots.listed _).mpr member)]
  · intro r r' iv iv' offset offset' differs known known' found found' overlap
    obtain ⟨a, liveA, rfl, rfl, memberA, rfl⟩ := spilled known found
    obtain ⟨b, liveB, rfl, rfl, memberB, rfl⟩ := spilled known' found'
    have other : a ≠ b := fun same => differs (by rw [same])
    obtain ⟨size, held, room⟩ := slots.slot liveA memberA
    obtain ⟨size', held', room'⟩ := slots.slot liveB memberB
    have unshared : s.scratch.get (span k a).reg ≠ s.scratch.get (span k b).reg :=
      fun same => slots.chain a b liveA liveB other memberA memberB same (overlaps_iff.mp overlap)
    have apart := slots.apart _ held _ held' unshared
    unfold Apart at apart
    dsimp only at apart
    omega
  · intro r r' iv iv' offset differs known known' found found'
    obtain ⟨a, liveA, rfl, rfl, memberA, rfl⟩ := spilled known found
    obtain ⟨b, liveB, rfl, rfl, memberB, same⟩ := spilled known' found'
    have other : a ≠ b := fun same => differs (by rw [same])
    rw [Bool.eq_false_iff, ne_eq, overlaps_iff]
    exact slots.chain a b liveA liveB other memberA memberB same.symm

/-- The limit is checked whenever a register is spilled, so only the base itself can pass it. -/
theorem Slotted.within {done : List Nat} {limit : UInt32} (slotted : Slotted k base limit done s) (set : limit ≠ 0)
    (within : base ≤ limit ∨ s.spilled ≠ []) : s.scratchSize ≤ limit := by
  by_cases untouched : s.spilled = []
  · rw [slotted.untouched untouched]
    exact within.resolve_right fun spills => spills untouched
  · exact slotted.limited set untouched

/-- Spilled registers lie in scratch memory past the base, those that are live together apart from each other,
and the scratch size stays within the limit unless the base alone passes it. -/
theorem scratch_slots_apart (ran : Sweep.run k (Liveness.ofKernel k) cfg reserve scratchBase = .ok s)
    (grows : ScratchGrows s) :
    ScratchLayout k scratchBase s ∧
      (cfg.scratchLimit ≠ 0 → scratchBase ≤ cfg.scratchLimit ∨ s.spilled ≠ [] →
        s.scratchSize ≤ cfg.scratchLimit) := by
  obtain ⟨done, slotted⟩ := run_slotted ran
  exact ⟨slotted.layout grows, slotted.within⟩

/-! Allocation starts scratch memory at zero and each later round at the size of the round before, so there
the limit always holds. -/

theorem rounding_limited {reserve : Reserve} (set : cfg.scratchLimit ≠ 0) {k : Kernel} {scratch : UInt32} {spills : Nat}
    {a : Allocation} (within : scratch ≤ cfg.scratchLimit)
    (rounding : Allocation.Rounding cfg reserve k scratch spills a) :
    a.scratchSize ≤ cfg.scratchLimit := by
  induction rounding with
  | last => exact within
  | again swept _ _ _ ih =>
    obtain ⟨done, slotted⟩ := run_slotted swept
    exact ih (slotted.within set (.inl within))

theorem scratchSize_limited {r : Allocation × List AllocationEvent} (set : cfg.scratchLimit ≠ 0)
    (allocated : Allocation.ofKernel k cfg = .ok r) : r.1.scratchSize ≤ cfg.scratchLimit := by
  have zero : (0 : UInt32) ≤ cfg.scratchLimit := UInt32.le_iff_toNat_le.mpr (Nat.zero_le _)
  obtain ⟨s, -, ⟨-, same⟩ | ⟨-, rounding⟩⟩ := Allocation.ofKernel_cases allocated
  · rw [same]
    exact zero
  · exact rounding_limited set zero rounding

end

/-- Two registers are live together, and after them two others. -/
def twoWaves : Kernel where
  name := "twoWaves"
  simdWidth := 8
  code :=
    [{ op := .mov, dst := .vector ⟨0⟩ .ud, src := [.immediate .ud 1 false false] },
      { op := .mov, dst := .vector ⟨1⟩ .ud, src := [.immediate .ud 2 false false] },
      { op := .compare, src := [.vector ⟨1⟩ .ud, .immediate .ud 0 false false], condition := .eq },
      { op := .compare, src := [.vector ⟨0⟩ .ud, .immediate .ud 0 false false], condition := .eq },
      { op := .mov, dst := .vector ⟨2⟩ .ud, src := [.immediate .ud 3 false false] },
      { op := .mov, dst := .vector ⟨3⟩ .ud, src := [.immediate .ud 4 false false] },
      { op := .compare, src := [.vector ⟨3⟩ .ud, .immediate .ud 0 false false], condition := .eq },
      { op := .compare, src := [.vector ⟨2⟩ .ud, .immediate .ud 0 false false], condition := .eq },
      { op := .endThread }]
  next := 4

/-- A register file of three registers, with a limit on scratch memory. -/
def threeLimited : SweepConfig := ⟨96, 0, true, .longest, 128⟩

/-- The register spilled from the second pair takes the slot of the one from the first pair. -/
theorem scratch_slots_apart_twoWaves :
    ∃ s, Sweep.run twoWaves (Liveness.ofKernel twoWaves) threeLimited 64 64 = .ok s ∧
      s.spilled = [⟨0⟩, ⟨2⟩] ∧ s.scratch.lookup? ⟨0⟩ = some 64 ∧ s.scratch.lookup? ⟨2⟩ = some 64 ∧
      ScratchLayout twoWaves 64 s ∧
      s.scratchSize ≤ threeLimited.scratchLimit := by
  have outcome : (Sweep.run twoWaves (Liveness.ofKernel twoWaves) threeLimited 64 64).toOption.map
      (fun s => (s.spilled, s.scratch.lookup? ⟨0⟩, s.scratch.lookup? ⟨2⟩, s.log.all fun e => match e with
        | .spilled iv offset _ => offset.toNat + (Sweep.scratchBytes iv).toNat < 4294967296
        | _ => true)) = some ([⟨0⟩, ⟨2⟩], some 64, some 64, true) := by
    simp only [Sweep.run, Sweep.start, Liveness.ofKernel, sorted_insertion]
    decide +kernel
  obtain ⟨s, ran, same⟩ := toOption_map_some.mp outcome
  simp only [Prod.mk.injEq, List.all_eq_true] at same
  obtain ⟨spilled, first, second, fits⟩ := same
  have grows : ScratchGrows s := fun iv offset event => by simpa using fits _ event
  obtain ⟨layout, limited⟩ := scratch_slots_apart ran grows
  refine ⟨s, ran, spilled, first, second, layout, limited (by decide) (.inr ?_)⟩
  rw [spilled]
  decide

/-- A base past the limit is not noticed where nothing is spilled. -/
theorem base_past_limit :
    ¬ ∀ (k : Kernel) (cfg : SweepConfig) (reserve scratchBase : UInt32) (s : Sweep),
      Sweep.run k (Liveness.ofKernel k) cfg reserve scratchBase = .ok s → ScratchGrows s →
      cfg.scratchLimit ≠ 0 → s.scratchSize ≤ cfg.scratchLimit := by
  intro limited
  have outcome : (Sweep.run twoWaves (Liveness.ofKernel twoWaves) threeLimited 0 200).toOption.map
      (fun s => (s.scratchSize, s.log.all fun e => match e with
        | .spilled _ _ _ => false
        | _ => true)) = some (200, true) := by
    simp only [Sweep.run, Sweep.start, Liveness.ofKernel, sorted_insertion]
    decide +kernel
  obtain ⟨s, ran, same⟩ := toOption_map_some.mp outcome
  simp only [Prod.mk.injEq, List.all_eq_true] at same
  obtain ⟨size, unspilled⟩ := same
  have within := limited _ _ _ _ s ran (fun iv offset event => by simpa using unspilled _ event) (by decide)
  rw [size] at within
  exact absurd within (by decide)

end GpuCodegen.Placement
