import GpuCodegen.Proofs.LiveRegisters
import GpuCodegen.Proofs.SpillLoop
import GpuCodegen.Proofs.SpillTemporaries

/-! Spill code as groups. Every instruction becomes a group: the reloads of its spilled registers, the
instruction on temporaries, the write-back. Putting the owners back for the temporaries and dropping what
was added gives the old stream again. -/

namespace GpuCodegen.SpillGroups
open Outcome LiveIntervals Products Placement

/-! ## Groups -/

/-- An instruction on temporaries, with the temporaries. -/
structure Group where
  temps : List SpillTemp
  main : Instruction

namespace Group

/-- What is read back before the instruction. -/
def reloads (g : Group) : List Instruction :=
  (g.temps.filter SpillTemp.reload).map fun t => t.reloadInstruction g.main.block

/-- What is written back after it. -/
def stores (g : Group) : List Instruction :=
  (g.temps.filter SpillTemp.store).map fun t => t.spillInstruction g.main.block

def code (g : Group) : List Instruction := g.reloads ++ [g.main] ++ g.stores

end Group

theorem namesBelow_iff {bound : Nat} {i : Instruction} :
    NamesBelow bound i ↔ ∀ x ∈ i.registers, x.reg.number.toNat < bound := by
  constructor
  · rintro ⟨dst, src⟩ x member
    rcases mem_registers.mp member with named | ⟨o, source, named⟩
    · exact dst x named
    · exact src o source x named
  · intro below
    exact ⟨fun x named => below x (mem_registers.mpr (.inl named)),
      fun o member x named => below x (mem_registers.mpr (.inr ⟨o, member, named⟩))⟩

/-- Instructions on known registers are only appended. -/
theorem emitAll_known {k : Kernel} {is : List Instruction} (names : ∀ i ∈ is, NamesBelow k.next.toNat i) :
    k.emitAll is = { k with code := k.code ++ is } := by
  induction is generalizing k with
  | nil => simp [Kernel.emitAll]
  | cons i rest ih =>
    have first : k.emit i = { k with code := k.code ++ [i] } := by
      have same := (names i List.mem_cons_self).emit
      rw [Kernel.emit] at same ⊢
      dsimp only at same
      rw [same]
    change (k.emit i).emitAll rest = _
    have later := ih (k := { k with code := k.code ++ [i] }) fun j member => names j (List.mem_cons_of_mem _ member)
    rw [first, later]
    simp

/-- What spill code makes of one instruction. -/
structure Faithful (k : Kernel) (plan : SpillPlan) (out : Kernel) (i : Instruction) (g : Group) : Prop where
  main : g.main = renamed (standIn g.temps) i
  once : (g.temps.map SpillTemp.owner).Nodup
  reloaded : ∀ r, (∃ t ∈ g.temps, t.owner = r ∧ t.reload = true) ↔
    r ∈ plan.spilled ∧ (i.reads r = true ∨ PartlyDefines k i r)
  stored : ∀ r, (∃ t ∈ g.temps, t.owner = r ∧ t.store = true) ↔ r ∈ plan.spilled ∧ i.writes r = true
  used : ∀ t ∈ g.temps, t.owner ∈ plan.spilled ∧ (t.reload = true ∨ t.store = true)
  slots : ∀ t ∈ g.temps, t.slot = plan.scratch.get t.owner ∧ t.size = tempSize plan t.owner
  pinned : ∀ t ∈ g.temps, ∃ at_, out.pin? t.reg = some at_ ∧ (t.store = true → at_ = plan.reserve.data)
  packed : Unwrapped out g.temps ↔ Packed out plan.reserve g.temps

theorem Packed.unwrapped {out : Kernel} {reserve : Reserve} {temps : List SpillTemp}
    (packed : Packed out reserve temps) : Unwrapped out temps := by
  intro t member at_ pinned
  have inside := (packed.inside t member at_ pinned).2
  have small : reserve.limit.toNat < 4294967296 := reserve.limit.toNat_lt
  omega

section
variable {k out out' start : Kernel} {plan : SpillPlan} {i : Instruction} {g : Group}

/-- Only the pins of the temporaries matter. -/
theorem Faithful.transport (faithful : Faithful k plan out i g)
    (same : ∀ t ∈ g.temps, out'.pin? t.reg = out.pin? t.reg) : Faithful k plan out' i g := by
  obtain ⟨main, once, reloaded, stored, used, slots, pinned, packed⟩ := faithful
  have unwrapped : Unwrapped out' g.temps ↔ Unwrapped out g.temps := by
    unfold Unwrapped
    exact forall₂_congr fun t member => by rw [same t member]
  have tight (a b : Kernel) (same : ∀ t ∈ g.temps, a.pin? t.reg = b.pin? t.reg)
      (packed : Packed a plan.reserve g.temps) : Packed b plan.reserve g.temps := by
    refine ⟨fun t member at_ pinned => packed.inside t member at_ (by rw [same t member, pinned]), ?_⟩
    refine packed.apart.imp_of_mem fun {t u} member member' apart => ?_
    rwa [← same t member, ← same u member']
  refine ⟨main, once, reloaded, stored, used, slots, ?_, ?_⟩
  · intro t member
    rw [same t member]
    exact pinned t member
  · rw [unwrapped, packed]
    exact ⟨tight out out' fun t member => (same t member).symm, tight out' out same⟩

theorem Handed.accesses {temps : List SpillTemp} (handed : Handed k plan i i.src temps) (r : VReg) :
    ((∃ t ∈ temps, t.owner = r ∧ t.reload = true) ↔ r ∈ plan.spilled ∧ (i.reads r = true ∨ PartlyDefines k i r)) ∧
      ((∃ t ∈ temps, t.owner = r ∧ t.store = true) ↔ r ∈ plan.spilled ∧ i.writes r = true) := by
  have reads (q : VReg) : i.reads q = true ↔ ∃ o ∈ i.src, o.names q = true := List.any_eq_true
  refine ⟨⟨?_, ?_⟩, ?_, ?_⟩
  · rintro ⟨t, member, rfl, reload⟩
    rw [reads]
    exact ⟨handed.spilled t member, (handed.reloads t member).mp reload⟩
  · rintro ⟨spilled, wanted⟩
    have accessed : i.writes r = true ∨ ∃ o ∈ i.src, o.names r = true := by
      rcases wanted with read | ⟨dst, named, rfl, -⟩
      · exact .inr ((reads r).mp read)
      · exact .inl ((names_register named).mpr rfl)
    obtain ⟨t, member, rfl⟩ := handed.owned r spilled accessed
    rw [reads] at wanted
    exact ⟨t, member, rfl, (handed.reloads t member).mpr wanted⟩
  · rintro ⟨t, member, rfl, store⟩
    exact ⟨handed.spilled t member, (handed.stores t member).mp store⟩
  · rintro ⟨spilled, writes⟩
    obtain ⟨t, member, rfl⟩ := handed.owned r spilled (.inl writes)
    exact ⟨t, member, rfl, (handed.stores t member).mpr writes⟩

theorem standIn_cases (temps : List SpillTemp) (r : VReg) :
    (∃ t ∈ temps, t.owner = r ∧ standIn temps r = t.reg) ∨ ((∀ t ∈ temps, t.owner ≠ r) ∧ standIn temps r = r) := by
  by_cases owned : ∃ t ∈ temps, t.owner = r
  · cases found : temps.find? fun t => t.owner == r with
    | none =>
      obtain ⟨t, member, owner⟩ := owned
      exact absurd owner (by simpa using List.find?_eq_none.mp found t member)
    | some t =>
      refine .inl ⟨t, List.mem_of_find?_eq_some found, by simpa using List.find?_some found, ?_⟩
      rw [standIn, found]
  · push Not at owned
    exact .inr ⟨owned, standIn_of_not_mem owned⟩

theorem real_of_small {r : VReg} (small : r.number.toNat + 1 < 4294967296) : r ≠ .none := by
  rintro rfl
  exact absurd small (by decide)

/-- The registers of an instruction on temporaries. -/
theorem standIn_below {temps : List SpillTemp} {bound next : Nat} (names : NamesBelow bound i)
    (fresh : ∀ t ∈ temps, bound ≤ t.reg.number.toNat ∧ t.reg.number.toNat < next) (grows : bound ≤ next)
    (small : next < 4294967296) : ∀ x ∈ i.registers,
      standIn temps x.reg ≠ .none ∧ (standIn temps x.reg).number.toNat < next := by
  intro x member
  have low := namesBelow_iff.mp names x member
  have below : (standIn temps x.reg).number.toNat < next := by
    rcases standIn_cases temps x.reg with ⟨t, held, -, same⟩ | ⟨-, same⟩
    · rw [same]
      exact (fresh t held).2
    · rw [same]
      omega
  exact ⟨real_of_small (by omega), below⟩

/-- What spill code makes of a stream: from `start` to `out` the instructions `is` are appended as groups. -/
structure Inserted (k : Kernel) (plan : SpillPlan) (start out : Kernel) (is : List Instruction) (gs : List Group) :
    Prop where
  rest : out = { start with
    code := start.code ++ gs.flatMap Group.code, next := out.next, pinned := out.pinned }
  low : start.next.toNat ≤ out.next.toNat
  high : out.next.toNat ≤ start.next.toNat + (is.flatMap Instruction.registers).length
  range : ∀ g ∈ gs, ∀ t ∈ g.temps, start.next.toNat ≤ t.reg.number.toNat ∧ t.reg.number.toNat < out.next.toNat
  numbered : ((gs.flatMap Group.temps).map SpillTemp.reg).Nodup
  others : ∀ r, r.number.toNat < start.next.toNat → out.pin? r = start.pin? r
  each : List.Forall₂ (Faithful k plan out) is gs

theorem Inserted.nil : Inserted k plan start start [] [] := by
  refine ⟨by simp, le_rfl, Nat.le_add_right _ _, ?_, by simp, fun _ _ => rfl, .nil⟩
  intro g none
  cases none

theorem Inserted.cons {middle : Kernel} {is : List Instruction} {gs : List Group}
    (first : Inserted k plan start middle [i] [g]) (later : Inserted k plan middle out is gs) :
    Inserted k plan start out (i :: is) (g :: gs) := by
  have early : ∀ t ∈ g.temps, t.reg.number.toNat < middle.next.toNat :=
    fun t member => (first.range g List.mem_cons_self t member).2
  have low := first.low
  have low' := later.low
  refine ⟨?_, low.trans low', ?_, ?_, ?_, ?_, ?_⟩
  · conv_lhs => rw [later.rest, first.rest]
    simp
  · have high := first.high
    have high' := later.high
    simp only [List.flatMap_cons, List.flatMap_nil, List.append_nil, List.length_append] at high ⊢
    omega
  · intro h member t held
    rcases List.mem_cons.mp member with rfl | member
    · have bounds := first.range h List.mem_cons_self t held
      omega
    · have bounds := later.range h member t held
      omega
  · rw [List.flatMap_cons, List.map_append, List.nodup_append]
    refine ⟨by simpa using first.numbered, later.numbered, ?_⟩
    rintro r old r' new rfl
    obtain ⟨t, member, rfl⟩ := List.mem_map.mp old
    obtain ⟨u, held, same⟩ := List.mem_map.mp new
    obtain ⟨h, group, temp⟩ := List.mem_flatMap.mp held
    have bounds := (later.range h group u temp).1
    have small := early t member
    rw [same] at bounds
    omega
  · intro r small
    rw [later.others r (by omega), first.others r small]
  · refine .cons ?_ later.each
    have faithful : Faithful k plan middle i g := by
      cases first.each with
      | cons head _ => exact head
    exact faithful.transport fun t member => later.others t.reg (early t member)

/-- The group of an instruction with its temporaries. -/
def groupOf (i : Instruction) (s : TempState) : Group := ⟨s.temps, renamed (standIn s.temps) i⟩

theorem groupOf_faithful {s : TempState} (handed : Handed k plan i i.src s.temps) (laid : Laid plan start s) :
    Faithful k plan s.out i (groupOf i s) where
  main := rfl
  once := handed.distinct
  reloaded := fun r => (handed.accesses r).1
  stored := fun r => (handed.accesses r).2
  used := fun t member => ⟨handed.spilled t member, handed.used t member⟩
  slots := handed.slots
  pinned := by
    intro t member
    obtain ⟨at_, pinned, -, first⟩ := laid.pinned t member
    exact ⟨at_, pinned, first⟩
  packed := ⟨fun unwrapped => (laid.snug unwrapped).packed, Packed.unwrapped⟩

/-- A group names only registers the kernel has handed out. -/
theorem groupOf_below {s : TempState} (names : NamesBelow start.next.toNat i) (laid : Laid plan start s)
    (room : s.out.next.toNat < 4294967296) : ∀ j ∈ (groupOf i s).code, NamesBelow s.out.next.toNat j := by
  intro j member
  have known := standIn_below names laid.range (by rw [laid.next]; exact Nat.le_add_right _ _) room
  have temp (t : SpillTemp) (held : t ∈ s.temps) : Below s.out.next.toNat t.operand :=
    below_register (laid.range t held).2
  simp only [groupOf, Group.code, Group.reloads, Group.stores, List.mem_append, List.mem_map, List.mem_singleton,
    List.mem_filter] at member
  rcases member with (⟨t, ⟨held, -⟩, rfl⟩ | rfl) | ⟨t, ⟨held, -⟩, rfl⟩
  · exact ⟨temp t held, nofun⟩
  · refine namesBelow_iff.mpr fun y member => ?_
    obtain ⟨x, old, rfl⟩ := registers_renamed (fun x member => (known x member).1) y member
    exact (known x old).2
  · exact ⟨below_absent _ _, below_singleton (temp t held)⟩

/-- One instruction becomes a group. -/
theorem spillStep_inserted {position : Nat} (names : NamesBelow start.next.toNat i)
    (room : start.next.toNat + i.registers.length < 4294967296)
    (ran : Kernel.spillStep k plan start (i, position) = .ok out) :
    ∃ g, Inserted k plan start out [i] [g] := by
  simp only [Kernel.spillStep, bind_ok, pure_ok] at ran
  obtain ⟨s, made, rfl⟩ := ran
  obtain ⟨handed, laid⟩ := spillTemps_made made room
  have few : s.temps.length ≤ i.registers.length := by
    rw [Instruction.registers, List.length_append]
    exact handed.few
  have next := laid.next
  have appended : s.out.emitAll (Kernel.withSpillCode i s) =
      { s.out with code := s.out.code ++ (groupOf i s).code } := emitAll_known (groupOf_below names laid (by omega))
  refine ⟨groupOf i s, ?_⟩
  rw [appended]
  refine ⟨?_, ?_, ?_, ?_, ?_, laid.others, .cons ?_ .nil⟩
  · conv_lhs => rw [laid.out]
    simp
  · change _ ≤ s.out.next.toNat
    omega
  · change s.out.next.toNat ≤ _
    simp only [List.flatMap_cons, List.flatMap_nil, List.append_nil]
    omega
  · intro g member t held
    rw [List.mem_singleton.mp member] at held
    exact laid.range t held
  · simpa [groupOf] using laid.numbered
  · exact (groupOf_faithful handed laid).transport fun _ _ => rfl

/-- A stream becomes groups, by induction on the instructions. -/
theorem spillSteps_inserted {entries : List (Instruction × Nat)}
    (names : ∀ e ∈ entries, NamesBelow start.next.toNat e.1)
    (room : start.next.toNat + ((entries.map Prod.fst).flatMap Instruction.registers).length < 4294967296)
    (ran : entries.foldlM (Kernel.spillStep k plan) start = .ok out) :
    ∃ gs, Inserted k plan start out (entries.map Prod.fst) gs := by
  induction entries generalizing start with
  | nil =>
    rw [List.foldlM_nil, pure_ok] at ran
    subst ran
    exact ⟨[], .nil⟩
  | cons e rest ih =>
    rw [List.foldlM_cons, bind_ok] at ran
    obtain ⟨middle, here, later⟩ := ran
    rw [List.map_cons, List.flatMap_cons, List.length_append] at room
    obtain ⟨g, first⟩ := spillStep_inserted (names e List.mem_cons_self) (by omega) here
    have high := first.high
    rw [List.flatMap_cons, List.flatMap_nil, List.append_nil] at high
    obtain ⟨gs, others⟩ := ih (fun e member => (names e (List.mem_cons_of_mem _ member)).mono first.low)
      (by omega) later
    exact ⟨g :: gs, first.cons others⟩

/-- At most one register is written back. -/
theorem Faithful.stores_le (faithful : Faithful k plan out i g) : g.stores.length ≤ 1 := by
  rw [Group.stores, List.length_map]
  have same : ∀ t ∈ g.temps.filter SpillTemp.store, ∃ dst, i.dst.register? = some dst ∧ dst.reg = t.owner := by
    intro t member
    obtain ⟨held, store⟩ := List.mem_filter.mp member
    have writes := ((faithful.stored t.owner).mp ⟨t, held, rfl, store⟩).2
    cases named : i.dst.register? with
    | none => simp [Instruction.writes, Operand.names, named] at writes
    | some dst => exact ⟨dst, rfl, (names_register named).mp writes⟩
  have distinct : ((g.temps.filter SpillTemp.store).map SpillTemp.owner).Nodup :=
    faithful.once.sublist (List.filter_sublist.map _)
  generalize g.temps.filter SpillTemp.store = stores at same distinct
  rcases stores with _ | ⟨t, _ | ⟨u, rest⟩⟩
  · exact Nat.zero_le 1
  · exact le_rfl
  · obtain ⟨dst, named, owner⟩ := same t List.mem_cons_self
    obtain ⟨dst', named', owner'⟩ := same u (List.mem_cons_of_mem _ List.mem_cons_self)
    rw [named] at named'
    cases named'
    simp [← owner, ← owner'] at distinct

/-- An accessed register that is spilled has a temporary. -/
theorem Faithful.owned (faithful : Faithful k plan out i g) {x : RegisterOperand} (member : x ∈ i.registers)
    (spilled : x.reg ∈ plan.spilled) : ∃ t ∈ g.temps, t.owner = x.reg := by
  rcases mem_registers.mp member with named | ⟨o, source, named⟩
  · obtain ⟨t, held, owner, -⟩ := (faithful.stored x.reg).mpr ⟨spilled, (names_register named).mpr rfl⟩
    exact ⟨t, held, owner⟩
  · have read : i.reads x.reg = true := List.any_eq_true.mpr ⟨o, source, (names_register named).mpr rfl⟩
    obtain ⟨t, held, owner, -⟩ := (faithful.reloaded x.reg).mpr ⟨spilled, .inl read⟩
    exact ⟨t, held, owner⟩

/-- The registers of an instruction on temporaries are temporaries or registers that are not spilled. -/
theorem Faithful.main_registers (faithful : Faithful k plan out i g)
    (real : ∀ x ∈ i.registers, standIn g.temps x.reg ≠ .none) {y : RegisterOperand} (member : y ∈ g.main.registers) :
    (∃ t ∈ g.temps, y.reg = t.reg) ∨ (y.reg ∉ plan.spilled ∧ y ∈ i.registers) := by
  rw [faithful.main] at member
  obtain ⟨x, old, rfl⟩ := registers_renamed real y member
  rcases standIn_cases g.temps x.reg with ⟨t, held, -, same⟩ | ⟨absent, same⟩
  · exact .inl ⟨t, held, same⟩
  · right
    dsimp only
    rw [same]
    refine ⟨fun spilled => ?_, old⟩
    obtain ⟨t, held, owner⟩ := faithful.owned old spilled
    exact absent t held owner

end

/-! ## The whole kernel -/

theorem alignUp_grains (v : UInt32) : (alignUp v 32).toNat % 32 = 0 := by
  unfold alignUp
  rw [UInt32.toNat_mul, UInt32.toNat_div]
  change (_ / 32 * 32) % 4294967296 % 32 = 0
  omega

theorem slotSize_grains {size : UInt32} (large : 32 ≤ (slotSize size).toNat) : (slotSize size).toNat % 32 = 0 := by
  unfold slotSize at large ⊢
  split_ifs at large ⊢
  all_goals first | exact alignUp_grains size | exact absurd large (by decide) | rfl

/-- A spilled register takes whole general registers in scratch memory. -/
theorem scratchBytes_grains (iv : Interval) :
    (Sweep.scratchBytes iv).toNat = max iv.slot.toNat 32 ∧ (Sweep.scratchBytes iv).toNat % 32 = 0 := by
  unfold Sweep.scratchBytes
  split
  · rename_i small
    have low : iv.slot.toNat < 32 := UInt32.lt_iff_toNat_lt.mp small
    exact ⟨by change 32 = _; omega, rfl⟩
  · rename_i large
    have low : 32 ≤ iv.slot.toNat := UInt32.le_iff_toNat_le.mp (UInt32.not_lt.mp large)
    exact ⟨by omega, slotSize_grains low⟩

/-- The register operand of a temporary's messages. -/
def payloadOf (t : SpillTemp) : RegisterOperand := { reg := t.reg, type := .ud, span := (t.size / 32).toNat }

theorem operand_register {t : SpillTemp} (real : t.reg ≠ .none) : t.operand.register? = some (payloadOf t) :=
  if_neg real

/-- Messages move all of a temporary. -/
theorem payloadOf_bytes {t : SpillTemp} (grains : t.size.toNat % 32 = 0) (positive : 32 ≤ t.size.toNat) :
    (payloadOf t).bytes 8 = t.size.toNat := by
  have parts : (t.size / 32).toNat = t.size.toNat / 32 := by
    rw [UInt32.toNat_div]
    rfl
  have small : t.size.toNat < 4294967296 := t.size.toNat_lt
  unfold RegisterOperand.bytes RegisterOperand.spans RegisterOperand.lanes payloadOf
  dsimp only
  rw [parts, if_neg (by simp), if_neg (by omega)]
  change ((4 * 8 * ((t.size.toNat / 32 : Nat) : Int) : Int)).bmod 18446744073709551616 = _
  rw [Int.bmod_eq_of_le (by omega) (by omega)]
  omega

/-- The registers of a group. -/
theorem Group.registers {g : Group} (real : ∀ t ∈ g.temps, t.reg ≠ .none) {j : Instruction} (member : j ∈ g.code)
    {x : RegisterOperand} (named : x ∈ j.registers) : x ∈ g.main.registers ∨ ∃ t ∈ g.temps, x = payloadOf t := by
  simp only [Group.code, Group.reloads, Group.stores, List.mem_append, List.mem_map, List.mem_singleton,
    List.mem_filter] at member
  rcases member with (⟨t, ⟨held, -⟩, rfl⟩ | rfl) | ⟨t, ⟨held, -⟩, rfl⟩
  · have only : x = payloadOf t := by
      simpa [Instruction.registers, SpillTemp.reloadInstruction, operand_register (real t held)] using named
    exact .inr ⟨t, held, only⟩
  · exact .inl named
  · have only : x = payloadOf t := by
      have absent : (Operand.absent .ud).register? = none := rfl
      simpa [Instruction.registers, SpillTemp.spillInstruction, operand_register (real t held), absent] using named
    exact .inr ⟨t, held, only⟩

/-- A stream with spill code against the one before it. -/
structure Insertion (k : Kernel) (plan : SpillPlan) (out : Kernel) (groups : List Group) : Prop where
  code : out.code = groups.flatMap Group.code
  back : groups.map (fun g => renamed (ownerIn (groups.flatMap Group.temps)) g.main) = k.code
  replaced : ∀ i ∈ out.code, ∀ x ∈ i.registers, x.reg ∉ plan.spilled
  fresh : ∀ g ∈ groups, ∀ t ∈ g.temps, ∀ i ∈ k.code, ∀ x ∈ i.registers, x.reg ≠ t.reg
  stores : ∀ g ∈ groups, g.stores.length ≤ 1
  full : ∀ g ∈ groups, ∀ t ∈ g.temps, ∃ iv, plan.liveness.intervalOf? t.owner = some iv ∧
    t.size.toNat = max (slotSize iv.size).toNat 32 ∧
    t.operand.register? = some (payloadOf t) ∧ (payloadOf t).bytes 8 = t.size.toNat
  each : List.Forall₂ (Faithful k plan out) k.code groups

section
variable {k out : Kernel} {plan : SpillPlan}

theorem insertSpillCode_inserted (names : ∀ i ∈ k.code, NamesBelow k.next.toNat i)
    (room : k.next.toNat + (k.code.flatMap Instruction.registers).length < 4294967296)
    (inserted : k.insertSpillCode plan = .ok out) :
    ∃ groups, Inserted k plan
      { k with code := [], stackPointer := if plan.spilled.contains k.stackPointer then .none else k.stackPointer }
      out k.code groups := by
  have start : k.insertSpillCode plan = k.code.zipIdx.foldlM (Kernel.spillStep k plan)
      { k with
        code := []
        stackPointer := if plan.spilled.contains k.stackPointer then .none else k.stackPointer } := by
    unfold Kernel.insertSpillCode
    by_cases spilled : plan.spilled.contains k.stackPointer
    · simp only [if_pos spilled]
      rfl
    · simp only [if_neg spilled]
      rfl
  rw [start] at inserted
  have stream : k.code.zipIdx.map Prod.fst = k.code := List.zipIdx_map_fst _ _
  rw [← stream] at room ⊢
  refine spillSteps_inserted (fun e member => ?_) room inserted
  exact names e.1 (stream ▸ List.mem_map_of_mem member)

/-- The temporaries of a stream and the registers of the one before are not mixed up. -/
theorem Inserted.back {start : Kernel} {groups : List Group} (names : ∀ i ∈ k.code, NamesBelow start.next.toNat i)
    (small : out.next.toNat < 4294967296) (made : Inserted k plan start out k.code groups) {i : Instruction}
    {g : Group} (old : i ∈ k.code) (member : g ∈ groups) (faithful : Faithful k plan out i g) :
    renamed (ownerIn (groups.flatMap Group.temps)) g.main = i := by
  have known := standIn_below (names i old) (made.range g member) made.low small
  rw [faithful.main]
  refine renamed_back fun x named => ⟨(known x named).1, ?_⟩
  rcases standIn_cases g.temps x.reg with ⟨t, held, owner, same⟩ | ⟨-, same⟩
  · rw [same, ownerIn_of_mem made.numbered (List.mem_flatMap.mpr ⟨g, member, held⟩), owner]
  · rw [same, ownerIn_of_not_mem]
    intro t held clash
    obtain ⟨h, group, temp⟩ := List.mem_flatMap.mp held
    have low := (made.range h group t temp).1
    have high := namesBelow_iff.mp (names i old) x named
    rw [clash] at low
    omega

/-- Pairs of instructions and groups. -/
theorem Inserted.pair {start : Kernel} {groups : List Group} (made : Inserted k plan start out k.code groups)
    {g : Group} (member : g ∈ groups) : ∃ i ∈ k.code, Faithful k plan out i g := by
  obtain ⟨n, held, rfl⟩ := List.getElem_of_mem member
  have same := made.each.length_eq
  exact ⟨k.code[n], List.getElem_mem _, (List.forall₂_iff_get.mp made.each).2 n (by omega) held⟩

theorem Inserted.insertion {start : Kernel} {groups : List Group}
    (names : ∀ i ∈ k.code, NamesBelow start.next.toNat i)
    (spilled : ∀ r ∈ plan.spilled, r.number.toNat < start.next.toNat ∧
      ∃ iv, plan.liveness.intervalOf? r = some iv)
    (small : out.next.toNat < 4294967296) (empty : start.code = [])
    (made : Inserted k plan start out k.code groups) : Insertion k plan out groups := by
  have code : out.code = groups.flatMap Group.code := by
    rw [made.rest, empty]
    rfl
  have real (g : Group) (member : g ∈ groups) (t : SpillTemp) (held : t ∈ g.temps) : t.reg ≠ .none := by
    have high := (made.range g member t held).2
    exact real_of_small (by omega)
  have fresh (g : Group) (member : g ∈ groups) (t : SpillTemp) (held : t ∈ g.temps) : t.reg ∉ plan.spilled := by
    intro listed
    have low := (made.range g member t held).1
    have high := (spilled t.reg listed).1
    omega
  refine ⟨code, ?_, ?_, ?_, ?_, ?_, made.each⟩
  · have each : List.Forall₂ (fun g i => renamed (ownerIn (groups.flatMap Group.temps)) g.main = i) groups k.code := by
      refine List.forall₂_iff_get.mpr ⟨made.each.length_eq.symm, fun n held old => ?_⟩
      exact made.back names small (List.getElem_mem old) (List.getElem_mem held)
        ((List.forall₂_iff_get.mp made.each).2 n old held)
    rw [← List.forall₂_map_left_iff, List.forall₂_eq_eq_eq] at each
    exact each
  · intro j member x named
    rw [code] at member
    obtain ⟨g, group, inside⟩ := List.mem_flatMap.mp member
    obtain ⟨i, old, faithful⟩ := made.pair group
    have known := standIn_below (names i old) (made.range g group) made.low small
    rcases Group.registers (real g group) inside named with main | ⟨t, held, rfl⟩
    · rcases faithful.main_registers (fun x member => (known x member).1) main with ⟨t, held, same⟩ | ⟨kept, -⟩
      · rw [same]
        exact fresh g group t held
      · exact kept
    · exact fresh g group t held
  · intro g member t held i old x named same
    have low := (made.range g member t held).1
    have high := namesBelow_iff.mp (names i old) x named
    rw [same] at high
    omega
  · intro g member
    obtain ⟨i, -, faithful⟩ := made.pair member
    exact faithful.stores_le
  · intro g member t held
    obtain ⟨i, -, faithful⟩ := made.pair member
    obtain ⟨-, iv, found⟩ := spilled t.owner (faithful.used t held).1
    have size : t.size = Sweep.scratchBytes iv := by
      rw [(faithful.slots t held).2, tempSize, found]
      rfl
    obtain ⟨bytes, grains⟩ := scratchBytes_grains iv
    rw [← size] at bytes grains
    exact ⟨iv, found, bytes, operand_register (real g member t held), payloadOf_bytes grains (by omega)⟩

end

/-! ### Kernels built one instruction after the other -/

theorem noteRegister_above (next : UInt32) {r : VReg} (real : r ≠ .none) :
    next.toNat ≤ (Kernel.noteRegister next r).toNat ∧ r.number.toNat < (Kernel.noteRegister next r).toNat := by
  have small : r.number.toNat + 1 < 4294967296 := by
    have bound : r.number.toNat < 4294967296 := r.number.toNat_lt
    have other : r.number.toNat ≠ 4294967295 := by
      intro same
      apply real
      cases r
      exact congrArg VReg.mk (UInt32.toNat_inj.mp same)
    omega
  unfold Kernel.noteRegister
  split
  · rename_i low
    have sum : (r.number + 1).toNat = r.number.toNat + 1 := by
      rw [UInt32.toNat_add]
      exact Nat.mod_eq_of_lt small
    have below := UInt32.le_iff_toNat_le.mp low
    omega
  · rename_i high
    have above := UInt32.lt_iff_toNat_lt.mp (UInt32.not_le.mp high)
    omega

/-- Appending an instruction keeps the next number above every register. -/
theorem emit_names {k : Kernel} (built : ∀ j ∈ k.code, NamesBelow k.next.toNat j) (i : Instruction) :
    ∀ j ∈ (k.emit i).code, NamesBelow (k.emit i).next.toNat j := by
  have along (os : List RegisterOperand) (real : ∀ o ∈ os, o.reg ≠ .none) (next : UInt32) :
      next.toNat ≤ (os.foldl (fun next o => Kernel.noteRegister next o.reg) next).toNat ∧
        ∀ o ∈ os, o.reg.number.toNat < (os.foldl (fun next o => Kernel.noteRegister next o.reg) next).toNat := by
    induction os generalizing next with
    | nil => exact ⟨le_rfl, nofun⟩
    | cons o rest ih =>
      have first := noteRegister_above next (real o List.mem_cons_self)
      have later := ih (fun x member => real x (List.mem_cons_of_mem _ member)) (Kernel.noteRegister next o.reg)
      refine ⟨first.1.trans later.1, fun x member => ?_⟩
      rcases List.mem_cons.mp member with rfl | member
      · exact first.2.trans_le later.1
      · exact later.2 x member
  have real : ∀ o ∈ i.registers, o.reg ≠ .none := by
    intro o member
    rcases mem_registers.mp member with named | ⟨p, -, named⟩ <;> exact register_real named
  obtain ⟨grows, above⟩ := along i.registers real k.next
  intro j member
  rcases List.mem_append.mp member with old | new
  · exact (built j old).mono grows
  · rw [List.mem_singleton.mp new]
    exact namesBelow_iff.mpr above

theorem emitAll_names {k : Kernel} (is : List Instruction) (built : ∀ j ∈ k.code, NamesBelow k.next.toNat j) :
    ∀ j ∈ (k.emitAll is).code, NamesBelow (k.emitAll is).next.toNat j := by
  induction is generalizing k with
  | nil => exact built
  | cons i rest ih => exact ih (emit_names built i)

/-- A stream with spill code, its groups and what is known of the numbers of their temporaries. -/
structure Stream (k : Kernel) (plan : SpillPlan) (out : Kernel) (gs : List Group) : Prop extends
    Insertion k plan out gs where
  names : ∀ i ∈ k.code, NamesBelow k.next.toNat i
  width : out.simdWidth = k.simdWidth
  pointer : out.stackPointer = k.stackPointer ∨ out.stackPointer = .none
  numbers : ∀ g ∈ gs, ∀ t ∈ g.temps, k.next.toNat ≤ t.reg.number.toNat ∧ t.reg ≠ .none
  numbered : ((gs.flatMap Group.temps).map SpillTemp.reg).Nodup

section
variable {k k' : Kernel} {cfg : SweepConfig} {held base : UInt32} {s : Sweep} {reserve : Reserve}

theorem spillCode_stream (built : ∀ i ∈ k.code, NamesBelow k.next.toNat i)
    (room : k.next.toNat + (k.code.flatMap Instruction.registers).length < 4294967296)
    (swept : Sweep.run k (Liveness.ofKernel k) cfg held base = .ok s)
    (inserted : k.insertSpillCode ⟨Liveness.ofKernel k, s.scratch, s.spilled, reserve⟩ = .ok k') :
    ∃ gs, Stream k ⟨Liveness.ofKernel k, s.scratch, s.spilled, reserve⟩ k' gs := by
  obtain ⟨gs, made⟩ := insertSpillCode_inserted built room inserted
  have high := made.high
  dsimp only at high
  have known : ∀ r ∈ s.spilled, r.number.toNat < k.next.toNat ∧
      ∃ iv, (Liveness.ofKernel k).intervalOf? r = some iv := by
    intro r spilled
    obtain ⟨n, live, rfl⟩ := (run_roster swept).spilled r spilled
    have interval := live.intervalOf
    obtain ⟨a, member, named⟩ := (LivePaths.intervalOf_spec interval).1.used
    obtain ⟨here, operand⟩ := mem_accesses.mp member
    refine ⟨?_, _, interval⟩
    rw [← named]
    exact namesBelow_iff.mp (built _ (List.mem_of_getElem? here)) _ operand
  have insertion : Insertion k ⟨Liveness.ofKernel k, s.scratch, s.spilled, reserve⟩ k' gs := by
    refine Inserted.insertion ?_ ?_ (by omega) ?_ made
    · exact built
    · exact known
    · rfl
  have width : k'.simdWidth = k.simdWidth := by rw [made.rest]
  have pointer : k'.stackPointer = if s.spilled.contains k.stackPointer then .none else k.stackPointer := by
    rw [made.rest]
  refine ⟨gs, insertion, built, width, ?_, ?_, made.numbered⟩
  · rw [pointer]
    split
    · exact .inr rfl
    · exact .inl rfl
  · intro g member t held
    have bounds := made.range g member t held
    dsimp only at bounds
    exact ⟨bounds.1, real_of_small (by omega)⟩

/-- Spill code is a faithful insertion. Of the 32-bit sums, those that number the temporaries must not wrap;
the temporaries of an instruction lie apart in the reserve exactly when none of them runs past the 32-bit
numbers. -/
theorem spillCode_faithful (built : ∀ i ∈ k.code, NamesBelow k.next.toNat i)
    (room : k.next.toNat + (k.code.flatMap Instruction.registers).length < 4294967296)
    (swept : Sweep.run k (Liveness.ofKernel k) cfg held base = .ok s)
    (inserted : k.insertSpillCode ⟨Liveness.ofKernel k, s.scratch, s.spilled, reserve⟩ = .ok k') :
    ∃ groups, Insertion k ⟨Liveness.ofKernel k, s.scratch, s.spilled, reserve⟩ k' groups := by
  obtain ⟨groups, stream⟩ := spillCode_stream built room swept inserted
  exact ⟨groups, stream.toInsertion⟩

end

/-- A sum of two registers, of which the first is then halved in its lower lanes. -/
def pressed : Kernel := Kernel.emitAll { name := "pressed", simdWidth := 8 }
  [{ op := .mov, dst := .vector ⟨0⟩ .ud, src := [.immediate .ud 1 false false] },
    { op := .mov, dst := .vector ⟨1⟩ .ud, src := [.immediate .ud 2 false false] },
    { op := .add, dst := .vector ⟨2⟩ .ud, src := [.vector ⟨0⟩ .ud, .vector ⟨1⟩ .ud] },
    { op := .shr, dst := .vector ⟨1⟩ .ud, src := [.vector ⟨2⟩ .ud, .vector ⟨2⟩ .ud], execWidth := 4 },
    { op := .compare, src := [.vector ⟨1⟩ .ud, .vector ⟨0⟩ .ud], condition := .eq },
    { op := .endThread }]

/-- Five registers, of which four are the reserve. -/
def fiveRegisters : SweepConfig := ⟨160, 0, true, .longest, 0⟩

theorem spillCode_faithful_pressed : ∃ s k',
    Sweep.run pressed (Liveness.ofKernel pressed) fiveRegisters 128 0 = .ok s ∧ s.spilled = [⟨1⟩, ⟨0⟩] ∧
    pressed.insertSpillCode ⟨Liveness.ofKernel pressed, s.scratch, s.spilled, ⟨32, 128⟩⟩ = .ok k' ∧
    k'.code.length = 14 ∧
    ∃ groups, Insertion pressed ⟨Liveness.ofKernel pressed, s.scratch, s.spilled, ⟨32, 128⟩⟩ k' groups := by
  have outcome : (Sweep.run pressed (Liveness.ofKernel pressed) fiveRegisters 128 0).toOption.map (fun s =>
      (s.spilled, (pressed.insertSpillCode
        ⟨Liveness.ofKernel pressed, s.scratch, s.spilled, ⟨32, 128⟩⟩).toOption.map fun k' => k'.code.length)) =
      some ([⟨1⟩, ⟨0⟩], some 14) := by
    simp only [Sweep.run, Sweep.start, Liveness.ofKernel, Placement.sorted_insertion]
    decide +kernel
  obtain ⟨s, swept, rest⟩ := toOption_map_some.mp outcome
  obtain ⟨spilled, written⟩ := Prod.mk.inj rest
  obtain ⟨k', inserted, length⟩ := toOption_map_some.mp written
  have built : ∀ i ∈ pressed.code, NamesBelow pressed.next.toNat i :=
    emitAll_names _ fun _ none => by cases none
  exact ⟨s, k', swept, spilled, inserted, length,
    spillCode_faithful built (by decide +kernel) swept inserted⟩

/-- Two registers of a third of the 32-bit numbers each, and their sum. -/
def vast : Kernel := Kernel.emitAll { name := "vast", simdWidth := 8 }
  [{ op := .mov, dst := .payload ⟨0⟩ .ud 44739243, src := [.immediate .ud 1 false false] },
    { op := .mov, dst := .payload ⟨1⟩ .ud 44739243, src := [.immediate .ud 2 false false] },
    { op := .add, dst := .vector ⟨2⟩ .ud, src := [.payload ⟨0⟩ .ud 44739243, .payload ⟨1⟩ .ud 44739243] },
    { op := .endThread }]

/-- A register file for both registers, of any size. -/
def vastFile : SweepConfig := ⟨2863311552, 0, true, .longest, 0⟩

/-- What is reserved for them, once the product of its parts has wrapped. -/
def vastReserve : Reserve := Allocation.reserveFor vastFile (Liveness.ofKernel vast)

/-- The temporary of the second register in the instruction that writes it. -/
def vastTemp : SpillTemp := ⟨⟨1⟩, ⟨3⟩, 0, 1431655776, true, true⟩

/-- The end of a temporary wraps to zero, so the check against the reserve lets it pass: it takes more than
a gigabyte behind the reserve, which is the end of the register file. -/
theorem spillCode_past_reserve : ∃ s k',
    Sweep.run vast (Liveness.ofKernel vast) vastFile vastReserve.size 0 = .ok s ∧
    vast.insertSpillCode ⟨Liveness.ofKernel vast, s.scratch, s.spilled, vastReserve⟩ = .ok k' ∧
    k'.code.drop 1 = vastTemp.reloadInstruction 0 ::
      { op := .mov, dst := vastTemp.operand, src := [.immediate .ud 2 false false] } ::
      vastTemp.spillInstruction 0 :: k'.code.drop 4 ∧
    k'.pin? vastTemp.reg = some vastReserve.data ∧
    vastReserve.limit.toNat < vastReserve.data.toNat + vastTemp.size.toNat := by
  have outcome : (Sweep.run vast (Liveness.ofKernel vast) vastFile vastReserve.size 0).toOption.map (fun s =>
      (vast.insertSpillCode ⟨Liveness.ofKernel vast, s.scratch, s.spilled, vastReserve⟩).toOption.map fun k' =>
        (decide (k'.code.drop 1 = vastTemp.reloadInstruction 0 ::
          { op := .mov, dst := vastTemp.operand, src := [.immediate .ud 2 false false] } ::
          vastTemp.spillInstruction 0 :: k'.code.drop 4),
          k'.pin? vastTemp.reg)) = some (some (true, some vastReserve.data)) := by
    simp only [Sweep.run, Sweep.start, Liveness.ofKernel, Placement.sorted_insertion]
    decide +kernel
  obtain ⟨s, swept, rest⟩ := toOption_map_some.mp outcome
  obtain ⟨k', inserted, parts⟩ := toOption_map_some.mp rest
  obtain ⟨code, pinned⟩ := Prod.mk.inj parts
  exact ⟨s, k', swept, inserted, of_decide_eq_true code, pinned, by decide +kernel⟩

end GpuCodegen.SpillGroups
