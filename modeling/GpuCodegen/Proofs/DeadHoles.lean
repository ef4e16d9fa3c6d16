import GpuCodegen.Proofs.LivePaths

/-! The holes of live intervals. A hole stands exactly where an instruction overwrites a register
whose previous access lies further back in the same block, with no backward jump in between. The
register is dead there, but its place may be larger than what the instruction overwrites: a hole frees
every byte of its owner only if no other access of the owner is wider. -/

namespace GpuCodegen.DeadHoles
open LiveIntervals LivePaths

/-- A register is accessed at `q` and not again before `p`, where an instruction of the same block
overwrites it. -/
structure Gap (k : Kernel) (r : VReg) (q p : Nat) : Prop where
  start : ∃ a ∈ accesses k, a.position = q ∧ a.operand.reg = r
  stop : DefinesAt k r p
  block : ∃ i j, k.code[q]? = some i ∧ k.code[p]? = some j ∧ i.block = j.block
  gap : q + 1 < p
  untouched : ∀ a ∈ accesses k, a.operand.reg = r → a.position ≤ q ∨ p ≤ a.position

/-- A gap in which control does not turn back: the value from before it is never read. -/
structure Dead (k : Kernel) (r : VReg) (q p : Nat) : Prop extends Gap k r q p where
  straight : ∀ (n : Nat) (i : Instruction) (target : Nat), k.code[n]? = some i → i.op = .jump →
    k.labelPosition? i.label = some target → target < n → n ≤ q ∨ p ≤ n

/-- The place of a register may be lent: it is not pinned and not the stack pointer. -/
def Lendable (k : Kernel) (r : VReg) : Prop := k.pin? r = none ∧ r ≠ k.stackPointer

/-- The hole of a register between two positions. -/
def holeOf (r : VReg) (q p : Nat) (block : Int) : Interval :=
  { reg := r, min := q, max := p, block := block, hole := true }

/-! ## The block of the last access -/

/-- The walk remembers the block of every register's last access. -/
def Blocked (seen : List Access) (w : Walk) : Prop :=
  ∀ (r : VReg) (u : Usage), w.usage.find? r.number = some u →
    ∃ a ∈ seen, a.operand.reg = r ∧ a.position = u.lastAccess ∧ a.instruction.block = u.lastBlock

theorem Blocked.access {seen : List Access} {w : Walk} (blocked : Blocked seen w) (position : Nat)
    (i : Instruction) (width : Int) (o : RegisterOperand) :
    Blocked (seen ++ [⟨position, i, o⟩]) (w.access position i width o) := by
  have inserted (u : Usage) (now : u.lastAccess = position) (here : u.lastBlock = i.block)
      (r : VReg) (u' : Usage) (found : (w.usage.insert o.reg.number u).find? r.number = some u') :
      ∃ a ∈ seen ++ [⟨position, i, o⟩], a.operand.reg = r ∧ a.position = u'.lastAccess ∧
        a.instruction.block = u'.lastBlock := by
    by_cases same : r = o.reg
    · subst same
      rw [OrdMap.find?_insert_self] at found
      cases found
      exact ⟨⟨position, i, o⟩, by simp, rfl, now.symm, here.symm⟩
    · rw [OrdMap.find?_insert_of_ne _ (number_ne same)] at found
      obtain ⟨a, member, rest⟩ := blocked r u' found
      exact ⟨a, List.mem_append_left _ member, rest⟩
  cases known : w.usage.find? o.reg.number with
  | none =>
    rw [access_unused known]
    exact inserted _ rfl rfl
  | some u =>
    rw [access_used known]
    exact inserted _ rfl rfl

theorem Blocked.accesses (operands : List RegisterOperand) {seen : List Access} {w : Walk}
    (blocked : Blocked seen w) (position : Nat) (i : Instruction) (width : Int) :
    Blocked (seen ++ operands.map fun o => ⟨position, i, o⟩)
      (operands.foldl (fun w o => w.access position i width o) w) := by
  induction operands generalizing seen w with
  | nil => simpa using blocked
  | cons o rest ih => simpa using ih (blocked.access position i width o)

theorem separate_usage (w : Walk) (i : Instruction) : (w.separate i).usage = w.usage := by
  have avoided (w : Walk) (r other : VReg) : (w.avoid r other).usage = w.usage := by
    unfold Walk.avoid
    split <;> rfl
  unfold Walk.separate
  split
  · split
    · rfl
    · rw [avoided, avoided]
  · rfl

theorem Blocked.step {k : Kernel} {done : List (Instruction × Nat)} {w : Walk}
    (blocked : Blocked (accessesIn done) w) (entry : Instruction × Nat) :
    Blocked (accessesIn (done ++ [entry])) (w.step k entry) := by
  obtain ⟨i, position⟩ := entry
  have noted : Blocked (accessesIn done)
      { w with holes := w.holes ++ (w.holeBefore? k position i).toList } := blocked
  have after := noted.accesses i.registers position i (k.widthOf i)
  intro r u found
  simp only [Walk.step, separate_usage] at found
  simpa [accessesIn] using after r u found

/-! ## The holes of the walk -/

/-- The walk over the first instructions of a kernel has noted the gaps that end there. -/
structure Noted (k : Kernel) (done : List (Instruction × Nat)) (w : Walk) : Prop where
  blocked : Blocked (accessesIn done) w
  sound : ∀ h ∈ w.holes, ∃ (r : VReg) (q p : Nat) (i : Instruction),
    Gap k r q p ∧ Lendable k r ∧ k.code[p]? = some i ∧ h = holeOf r q p i.block
  complete : ∀ (r : VReg) (q p : Nat) (i : Instruction), Gap k r q p → Lendable k r →
    k.code[p]? = some i → p < done.length → holeOf r q p i.block ∈ w.holes

theorem holeBefore_eq_some {w : Walk} {k : Kernel} {position : Nat} {i : Instruction} {h : Interval} :
    w.holeBefore? k position i = some h ↔
      ∃ d u, i.dst.register? = some d ∧ w.usage.find? d.reg.number = some u ∧
        Lendable k d.reg ∧ k.fullyDefines i d = true ∧ u.lastBlock = i.block ∧
        u.lastAccess + 1 < position ∧ h = holeOf d.reg u.lastAccess position i.block := by
  simp only [Walk.holeBefore?, Option.bind_eq_bind, Option.bind_eq_some_iff]
  constructor
  · rintro ⟨d, dst, u, known, found⟩
    split at found
    · rename_i conditions
      simp only [Bool.and_eq_true, beq_iff_eq, bne_iff_ne, decide_eq_true_eq,
        Option.isNone_iff_eq_none] at conditions
      obtain ⟨⟨⟨⟨unpinned, free⟩, defines⟩, block⟩, gap⟩ := conditions
      cases found
      exact ⟨d, u, dst, known, ⟨unpinned, free⟩, defines, block, gap, rfl⟩
    · cases found
  · rintro ⟨d, u, dst, known, ⟨unpinned, free⟩, defines, block, gap, rfl⟩
    refine ⟨d, dst, u, known, ?_⟩
    simp [unpinned, free, defines, block, gap, holeOf]

/-- A hole the walk notes is a gap between the last access and the redefinition. -/
theorem gap_of_holeBefore {k : Kernel} {done rest : List (Instruction × Nat)} {w : Walk}
    {i : Instruction} {position : Nat} {h : Interval} (walked : Walked k done w)
    (blocked : Blocked (accessesIn done) w) (split : k.code.zipIdx = done ++ (i, position) :: rest)
    (found : w.holeBefore? k position i = some h) :
    ∃ (r : VReg) (q p : Nat) (j : Instruction),
      Gap k r q p ∧ Lendable k r ∧ k.code[p]? = some j ∧ h = holeOf r q p j.block := by
  have isHole := (holeBefore_isHole walked split found).1
  obtain ⟨d, u, dst, known, lendable, defines, block, gap, rfl⟩ := holeBefore_eq_some.mp found
  obtain ⟨numbered, held⟩ := position_of_split split
  simp only at numbered held
  rw [← numbered] at held
  obtain ⟨a, member, named, at_, same⟩ := blocked d.reg u known
  obtain ⟨all, -⟩ := mem_accesses_of_done split member
  obtain ⟨here, -⟩ := mem_accesses.mp all
  rw [at_] at here
  refine ⟨d.reg, u.lastAccess, position, i, ⟨⟨a, all, at_, named⟩, ⟨i, d, held, dst, rfl, defines⟩,
    ⟨a.instruction, i, here, held, same.trans block⟩, gap, ?_⟩, lendable, held, rfl⟩
  intro x inKernel sameReg
  have apart := isHole.untouched x inKernel sameReg
  simp only [holeOf] at apart
  omega

/-- At the redefinition that ends a gap the walk notes its hole. -/
theorem holeBefore_of_gap {k : Kernel} {done rest : List (Instruction × Nat)} {w : Walk}
    {i : Instruction} {position : Nat} (walked : Walked k done w)
    (blocked : Blocked (accessesIn done) w) (split : k.code.zipIdx = done ++ (i, position) :: rest)
    {r : VReg} {q : Nat} (dead : Gap k r q position) (lendable : Lendable k r) :
    w.holeBefore? k position i = some (holeOf r q position i.block) := by
  obtain ⟨numbered, held⟩ := position_of_split split
  simp only at numbered held
  obtain ⟨a, member, rfl, named⟩ := dead.start
  have before := dead.gap
  have early := mem_accessesIn_of_lt split member (by omega)
  obtain ⟨j, d, there, dst, names, defines⟩ := dead.stop
  rw [numbered, held, Option.some.injEq] at there
  subst there
  cases known : w.usage.find? r.number with
  | none => exact absurd named (walked.tracks.unused r known a early)
  | some u =>
    -- The last access is the one the gap starts at: none lies between it and the redefinition.
    obtain ⟨b, memberB, namedB, atB, blockB⟩ := blocked r u known
    obtain ⟨allB, smallB⟩ := mem_accesses_of_done split memberB
    have last : u.lastAccess = a.position := by
      have latest := (walked.tracks.used r u known).latest a early named
      have apart := dead.untouched b allB namedB
      omega
    have block : u.lastBlock = i.block := by
      obtain ⟨x, y, atX, atY, same⟩ := dead.block
      have hereB := (mem_accesses.mp allB).1
      rw [atB, last, atX, Option.some.injEq] at hereB
      rw [numbered, held, Option.some.injEq] at atY
      rw [← blockB, ← hereB, same, atY]
    subst names
    exact holeBefore_eq_some.mpr
      ⟨d, u, dst, known, lendable, defines, block, by omega, by rw [last]⟩

theorem step_holes (k : Kernel) (w : Walk) (i : Instruction) (position : Nat) :
    (w.step k (i, position)).holes = w.holes ++ (w.holeBefore? k position i).toList := by
  simp only [Walk.step, separate_holes, accesses_holes]

theorem Noted.step {k : Kernel} {done rest : List (Instruction × Nat)} {w : Walk}
    {entry : Instruction × Nat} (noted : Noted k done w) (walked : Walked k done w)
    (split : k.code.zipIdx = done ++ entry :: rest) : Noted k (done ++ [entry]) (w.step k entry) := by
  obtain ⟨i, position⟩ := entry
  obtain ⟨numbered, held⟩ := position_of_split split
  simp only at numbered held
  refine ⟨noted.blocked.step _, ?_, ?_⟩
  · rw [step_holes]
    intro h member
    rcases List.mem_append.mp member with old | new
    · exact noted.sound h old
    · exact gap_of_holeBefore walked noted.blocked split (by simpa using new)
  · rw [step_holes]
    intro r q p j dead lendable here small
    rw [List.length_append, List.length_singleton] at small
    by_cases now : p = position
    · subst now
      rw [numbered, held, Option.some.injEq] at here
      subst here
      refine List.mem_append_right _ ?_
      rw [holeBefore_of_gap walked noted.blocked split dead lendable]
      simp
    · exact List.mem_append_left _ (noted.complete r q p j dead lendable here (by omega))

theorem walk_noted (k : Kernel) : Noted k k.code.zipIdx k.walk := by
  have run (rest done : List (Instruction × Nat)) (w : Walk) (noted : Noted k done w)
      (walked : Walked k done w) (split : k.code.zipIdx = done ++ rest) :
      Noted k k.code.zipIdx (rest.foldl (Walk.step k) w) := by
    induction rest generalizing done w with
    | nil =>
      rw [List.append_nil] at split
      rw [split]
      exact noted
    | cons entry rest ih =>
      exact ih _ _ (noted.step walked split) (walked.step split) (by simp [split])
  refine run _ [] {} ⟨?_, by simp, by simp⟩ ⟨tracks_start k, by simp, by simp, .nil⟩ rfl
  intro r u found
  simp at found

/-! ## The holes of a kernel -/

theorem coversJump_eq_false {k : Kernel} {h : Interval} :
    Liveness.coversJump k.loops h = false ↔
      ∀ (n : Nat) (i : Instruction) (target : Nat), k.code[n]? = some i → i.op = .jump →
        k.labelPosition? i.label = some target → target < n → (n : Int) ≤ h.min ∨ h.max ≤ n := by
  simp only [Liveness.coversJump, List.any_eq_false, Bool.and_eq_true, decide_eq_true_eq]
  constructor
  · intro clear n i target here jumps labelled backward
    have missed := clear ⟨target, n⟩ (mem_loops.mpr ⟨i, here, jumps, labelled, backward⟩)
    simp only at missed
    omega
  · intro clear l member
    obtain ⟨i, here, jumps, labelled, backward⟩ := mem_loops.mp member
    have missed := clear l.stop i l.header here jumps labelled backward
    omega

theorem live_of_settledStore {k : Kernel} {iv : Interval} (member : iv ∈ (settledStore k).intervals) :
    iv.hole = false := by
  obtain ⟨n, small, rfl⟩ := List.getElem_of_mem member
  have early : n < k.walk.store.size := by
    rw [← (settledStore_get k).1]
    exact small
  obtain ⟨r, u, known, rfl⟩ := (walk_walked k).tracks.covered n early
  have held := (settledStore_get k).2 r u known
  rw [IntervalStore.get, List.getD_eq_getElem?_getD, List.getElem?_eq_getElem small,
    Option.getD_some] at held
  rw [held]
  exact (settled_covers known).live

/-- The holes of a kernel are the stretches over which a register whose place may be lent is dead. -/
theorem mem_holes_iff {k : Kernel} {h : Interval} :
    (h ∈ (Liveness.ofKernel k).store.intervals ∧ h.hole = true) ↔
      ∃ (r : VReg) (q p : Nat) (i : Instruction), Dead k r q p ∧ Lendable k r ∧
        k.code[p]? = some i ∧ h = holeOf r q p i.block := by
  have noted := walk_noted k
  rw [ofKernel_intervals, List.mem_append]
  constructor
  · rintro ⟨live | kept, hole⟩
    · rw [live_of_settledStore live] at hole
      cases hole
    · obtain ⟨found, clear⟩ := List.mem_filter.mp kept
      obtain ⟨r, q, p, i, gap, lendable, here, rfl⟩ := noted.sound h found
      rw [Bool.not_eq_true', coversJump_eq_false] at clear
      refine ⟨r, q, p, i, ⟨gap, ?_⟩, lendable, here, rfl⟩
      intro n j target there jumps labelled backward
      have missed := clear n j target there jumps labelled backward
      simp only [holeOf] at missed
      omega
  · rintro ⟨r, q, p, i, dead, lendable, here, rfl⟩
    refine ⟨.inr (List.mem_filter.mpr ⟨?_, ?_⟩), rfl⟩
    · apply noted.complete r q p i dead.toGap lendable here
      rw [List.length_zipIdx]
      exact (List.getElem?_eq_some_iff.mp here).1
    · rw [Bool.not_eq_true', coversJump_eq_false]
      intro n j target there jumps labelled backward
      have missed := dead.straight n j target there jumps labelled backward
      simp only [holeOf]
      omega

/-- A register's place is no larger than a given number of bytes exactly when none of its accesses is. -/
theorem size_le_iff {k : Kernel} {r : VReg} {iv : Interval}
    (found : (Liveness.ofKernel k).intervalOf? r = some iv) (bytes : Int) :
    (iv.size.toNat : Int) ≤ bytes ↔ ∀ a ∈ accesses k, a.operand.reg = r →
      ((a.operand.storage (k.widthOf a.instruction)).toNat : Int) ≤ bytes := by
  have covers := (intervalOf_spec found).1
  constructor
  · intro fits a member named
    have least := UInt32.le_iff_toNat_le.mp (covers.size a member named)
    omega
  · intro fits
    obtain ⟨a, member, named, size⟩ := covers.attained
    rw [size]
    exact fits a member named

/-- The owner of a hole is dead in it, and the instruction that ends the hole is not predicated and
does not read the owner. It overwrites all of the owner's place exactly when no access of the owner is
wider. -/
theorem hole_dead (k : Kernel) (h : Interval) (listed : h ∈ (Liveness.ofKernel k).store.intervals)
    (hole : h.hole = true) :
    ∃ (q p : Nat) (i : Instruction) (d : RegisterOperand) (iv : Interval),
      h.min = q ∧ h.max = p ∧ Dead k h.reg q p ∧ k.code[p]? = some i ∧
      i.dst.register? = some d ∧ d.reg = h.reg ∧ i.predicated = false ∧ i.reads h.reg = false ∧
      (Liveness.ofKernel k).intervalOf? h.reg = some iv ∧
      ((iv.size.toNat : Int) ≤ d.bytes (k.widthOf i) ↔
        ∀ a ∈ accesses k, a.operand.reg = h.reg →
          ((a.operand.storage (k.widthOf a.instruction)).toNat : Int) ≤ d.bytes (k.widthOf i)) := by
  obtain ⟨r, q, p, -, dead, -, -, rfl⟩ := mem_holes_iff.mp ⟨listed, hole⟩
  obtain ⟨i, d, here, dst, named, defines⟩ := dead.stop
  obtain ⟨a, member, -, owner⟩ := dead.start
  obtain ⟨iv, found⟩ := intervalOf_of_access member
  rw [owner] at found
  simp only [Kernel.fullyDefines, Bool.and_eq_true, Bool.not_eq_true'] at defines
  obtain ⟨⟨⟨plain, unread⟩, -⟩, -⟩ := defines
  rw [named] at unread
  exact ⟨q, p, i, d, iv, rfl, rfl, dead, here, dst, named, plain, unread, found, size_le_iff found _⟩

/-- A register of quadwords whose lower half is overwritten before all of it is read. -/
def halfRedefined : Kernel where
  name := "half"
  simdWidth := 8
  code :=
    [{ op := .mov, dst := .vector ⟨0⟩ .ul, src := [.immediate .ul 5 false false] },
      { op := .mov, dst := .vector ⟨1⟩ .ul, src := [.immediate .ul 7 false false] },
      { op := .mov, dst := .vector ⟨2⟩ .ul, src := [.vector ⟨1⟩ .ul] },
      { op := .mov, dst := .vector ⟨0⟩ .ud, src := [.immediate .ud 9 false false] },
      { op := .mov, dst := .vector ⟨3⟩ .ul, src := [.vector ⟨0⟩ .ul] },
      { op := .endThread }]

/-- The hole up to the redefinition is as wide as the register, and the redefinition half of it. -/
theorem hole_partly_live :
    ¬ ∀ (k : Kernel) (h iv : Interval) (p : Nat) (i : Instruction) (d : RegisterOperand),
      h ∈ (Liveness.ofKernel k).store.intervals → h.hole = true → h.max = p →
      k.code[p]? = some i → i.dst.register? = some d →
      (Liveness.ofKernel k).intervalOf? h.reg = some iv →
      (iv.size.toNat : Int) ≤ d.bytes (k.widthOf i) := by
  intro wide
  have listed : holeOf ⟨0⟩ 0 3 0 ∈ (Liveness.ofKernel halfRedefined).store.intervals := by
    decide +kernel
  have size : ((Liveness.ofKernel halfRedefined).intervalOf? ⟨0⟩).map Interval.size = some 64 := by
    decide +kernel
  obtain ⟨iv, found, full⟩ := Option.map_eq_some_iff.mp size
  have fits := wide halfRedefined _ iv 3 _ _ listed rfl rfl rfl rfl found
  rw [full] at fits
  revert fits
  decide

/-- In the same kernel the owner of the hole is dead in it, but for its upper half. -/
theorem hole_dead_half :
    holeOf ⟨0⟩ 0 3 0 ∈ (Liveness.ofKernel halfRedefined).store.intervals ∧
      Dead halfRedefined ⟨0⟩ 0 3 := by
  have listed : holeOf ⟨0⟩ 0 3 0 ∈ (Liveness.ofKernel halfRedefined).store.intervals := by
    decide +kernel
  obtain ⟨q, p, -, -, -, low, high, dead, -⟩ := hole_dead halfRedefined _ listed rfl
  simp only [holeOf] at low high
  obtain rfl : q = 0 := by omega
  obtain rfl : p = 3 := by omega
  exact ⟨listed, dead⟩

end GpuCodegen.DeadHoles
