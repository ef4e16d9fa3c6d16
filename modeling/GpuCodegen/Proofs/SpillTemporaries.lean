import Mathlib.Data.List.Nodup
import GpuCodegen.Proofs.ProductSelection

/-! The temporaries of one instruction. Every spilled register the instruction accesses gets one, which is
reloaded when the instruction reads the register or keeps part of it, and written back when it writes the
register. They lie side by side in the reserve as long as no place of one runs past the 32-bit numbers. -/

namespace GpuCodegen.SpillGroups
open Outcome LiveIntervals Products

/-! ## Renaming -/

/-- An instruction with its registers renamed. -/
def renamed (f : VReg → VReg) (i : Instruction) : Instruction :=
  { i with dst := i.dst.rename f, src := i.src.map fun o => o.rename f }

/-- The register that stands for another one in an instruction with temporaries. -/
def standIn (temps : List SpillTemp) (r : VReg) : VReg :=
  match temps.find? fun t => t.owner == r with
  | some t => t.reg
  | none => r

/-- The register a temporary stands for; every other register stands for itself. -/
def ownerIn (temps : List SpillTemp) (r : VReg) : VReg :=
  match temps.find? fun t => t.reg == r with
  | some t => t.owner
  | none => r

theorem find_key {α β : Type} [DecidableEq β] {key : α → β} {xs : List α} (distinct : (xs.map key).Nodup) {x : α}
    (member : x ∈ xs) : xs.find? (fun y => key y == key x) = some x := by
  cases found : xs.find? fun y => key y == key x with
  | none =>
    have absent := List.find?_eq_none.mp found x member
    simp at absent
  | some y =>
    have same : key y = key x := by simpa using List.find?_some found
    rw [List.inj_on_of_nodup_map distinct (List.mem_of_find?_eq_some found) member same]

section
variable {temps : List SpillTemp} {t : SpillTemp} {r : VReg}

theorem standIn_of_mem (distinct : (temps.map SpillTemp.owner).Nodup) (member : t ∈ temps) :
    standIn temps t.owner = t.reg := by
  rw [standIn, find_key distinct member]

theorem standIn_of_not_mem (absent : ∀ t ∈ temps, t.owner ≠ r) : standIn temps r = r := by
  rw [standIn, List.find?_eq_none.mpr fun t member => by simpa using absent t member]

theorem ownerIn_of_mem (distinct : (temps.map SpillTemp.reg).Nodup) (member : t ∈ temps) :
    ownerIn temps t.reg = t.owner := by
  rw [ownerIn, find_key distinct member]

theorem ownerIn_of_not_mem (absent : ∀ t ∈ temps, t.reg ≠ r) : ownerIn temps r = r := by
  rw [ownerIn, List.find?_eq_none.mpr fun t member => by simpa using absent t member]

end

/-- Operands name proper registers only. -/
theorem register_real {o : Operand} {x : RegisterOperand} (named : o.register? = some x) : x.reg ≠ .none := by
  rintro missing
  rw [register_of_named named] at named
  simp [Operand.register?, missing] at named

theorem register_rename {o : Operand} {x : RegisterOperand} (named : o.register? = some x) {f : VReg → VReg}
    (real : f x.reg ≠ .none) : (o.rename f).register? = some { x with reg := f x.reg } := by
  have old := register_real named
  rw [register_of_named named]
  simp [Operand.rename, Operand.register?, old, real]

theorem rename_unnamed {o : Operand} (unnamed : o.register? = none) (f : VReg → VReg) : o.rename f = o := by
  cases o with
  | absent t => rfl
  | immediate t bits negate absolute => rfl
  | register x =>
    by_cases missing : x.reg = .none
    · simp [Operand.rename, missing]
    · simp [Operand.register?, missing] at unnamed

theorem rename_back {o : Operand} {f g : VReg → VReg}
    (back : ∀ x, o.register? = some x → f x.reg ≠ .none ∧ g (f x.reg) = x.reg) :
    (o.rename f).rename g = o := by
  cases named : o.register? with
  | none => rw [rename_unnamed named, rename_unnamed named]
  | some x =>
    obtain ⟨real, same⟩ := back x named
    have old := register_real named
    rw [register_of_named named]
    simp [Operand.rename, old, real, same]

theorem mem_registers {i : Instruction} {x : RegisterOperand} :
    x ∈ i.registers ↔ i.dst.register? = some x ∨ ∃ o ∈ i.src, o.register? = some x := by
  rw [Instruction.registers, List.mem_append, Option.mem_toList, List.mem_filterMap]

/-- Renaming registers back gives the instruction. -/
theorem renamed_back {i : Instruction} {f g : VReg → VReg}
    (back : ∀ x ∈ i.registers, f x.reg ≠ .none ∧ g (f x.reg) = x.reg) : renamed g (renamed f i) = i := by
  have dst : (i.dst.rename f).rename g = i.dst :=
    rename_back fun x named => back x (mem_registers.mpr (.inl named))
  have src : (i.src.map fun o => o.rename f).map (fun o => o.rename g) = i.src := by
    rw [List.map_map]
    refine (List.map_congr_left fun o member => ?_).trans (List.map_id _)
    exact rename_back fun x named => back x (mem_registers.mpr (.inr ⟨o, member, named⟩))
  unfold renamed
  dsimp only
  rw [dst, src]

/-- The registers of a renamed instruction. -/
theorem registers_renamed {i : Instruction} {f : VReg → VReg} (real : ∀ x ∈ i.registers, f x.reg ≠ .none) :
    ∀ y ∈ (renamed f i).registers, ∃ x ∈ i.registers, y = { x with reg := f x.reg } := by
  have each (o : Operand) (member : ∀ x, o.register? = some x → x ∈ i.registers) (y : RegisterOperand)
      (named : (o.rename f).register? = some y) : ∃ x ∈ i.registers, y = { x with reg := f x.reg } := by
    cases old : o.register? with
    | none =>
      rw [rename_unnamed old, old] at named
      cases named
    | some x =>
      have known := member x old
      rw [register_rename old (real x known)] at named
      cases named
      exact ⟨x, known, rfl⟩
  intro y member
  rcases mem_registers.mp member with dst | ⟨o, source, src⟩
  · exact each i.dst (fun x named => mem_registers.mpr (.inl named)) y dst
  · obtain ⟨o', old, rfl⟩ := List.mem_map.mp source
    exact each o' (fun x named => mem_registers.mpr (.inr ⟨o', old, named⟩)) y src

/-! ## The reserve -/

/-- An instruction writes a register without overwriting all of it. -/
def PartlyDefines (k : Kernel) (i : Instruction) (r : VReg) : Prop :=
  ∃ dst, i.dst.register? = some dst ∧ dst.reg = r ∧ k.fullyDefines i dst = false

/-- The place and size of each temporary end within the 32-bit numbers. -/
def Unwrapped (out : Kernel) (temps : List SpillTemp) : Prop :=
  ∀ t ∈ temps, ∀ at_, out.pin? t.reg = some at_ → at_.toNat + t.size.toNat < 4294967296

/-- Temporaries one after the other in the data part of the reserve. -/
structure Packed (out : Kernel) (reserve : Reserve) (temps : List SpillTemp) : Prop where
  inside : ∀ t ∈ temps, ∀ at_, out.pin? t.reg = some at_ →
    reserve.data.toNat ≤ at_.toNat ∧ at_.toNat + t.size.toNat ≤ reserve.limit.toNat
  apart : temps.Pairwise fun t u => ∀ at_ next, out.pin? t.reg = some at_ → out.pin? u.reg = some next →
    at_.toNat + t.size.toNat ≤ next.toNat

/-- The scratch bytes of a spilled register. -/
def tempSize (plan : SpillPlan) (r : VReg) : UInt32 :=
  ((plan.liveness.intervalOf? r).map Sweep.scratchBytes).getD 32

/-! ## Temporaries of one instruction -/

/-- The temporaries of an instruction, of which the destination and the sources `seen` are dealt with. -/
structure Handed (k : Kernel) (plan : SpillPlan) (i : Instruction) (seen : List Operand)
    (temps : List SpillTemp) : Prop where
  distinct : (temps.map SpillTemp.owner).Nodup
  few : temps.length ≤ i.dst.register?.toList.length + (seen.filterMap Operand.register?).length
  spilled : ∀ t ∈ temps, t.owner ∈ plan.spilled
  slots : ∀ t ∈ temps, t.slot = plan.scratch.get t.owner ∧ t.size = tempSize plan t.owner
  reloads : ∀ t ∈ temps, t.reload = true ↔ (∃ o ∈ seen, o.names t.owner = true) ∨ PartlyDefines k i t.owner
  stores : ∀ t ∈ temps, t.store = true ↔ i.writes t.owner = true
  used : ∀ t ∈ temps, t.reload = true ∨ t.store = true
  owned : ∀ r ∈ plan.spilled, i.writes r = true ∨ (∃ o ∈ seen, o.names r = true) → ∃ t ∈ temps, t.owner = r

/-- The temporaries so far lie in the reserve, and the cursor is behind them. -/
structure Snug (plan : SpillPlan) (s : TempState) : Prop where
  packed : Packed s.out plan.reserve s.temps
  low : plan.reserve.data.toNat ≤ s.cursor.toNat
  ends : ∀ t ∈ s.temps, ∀ at_, s.out.pin? t.reg = some at_ → at_.toNat + t.size.toNat ≤ s.cursor.toNat

/-- The kernel and the reserve while temporaries are handed out. -/
structure Laid (plan : SpillPlan) (start : Kernel) (s : TempState) : Prop where
  out : s.out = { start with next := s.out.next, pinned := s.out.pinned }
  next : s.out.next.toNat = start.next.toNat + s.temps.length
  range : ∀ t ∈ s.temps, start.next.toNat ≤ t.reg.number.toNat ∧ t.reg.number.toNat < s.out.next.toNat
  numbered : (s.temps.map SpillTemp.reg).Nodup
  others : ∀ r, r.number.toNat < start.next.toNat → s.out.pin? r = start.pin? r
  pinned : ∀ t ∈ s.temps, ∃ at_, s.out.pin? t.reg = some at_ ∧ at_ + t.size ≤ plan.reserve.limit ∧
    (t.store = true → at_ = plan.reserve.data)
  snug : Unwrapped s.out s.temps → Snug plan s

/-- A temporary once its owner turns up among the sources. -/
def mark (r : VReg) (t : SpillTemp) : SpillTemp := if t.owner = r then { t with reload := true } else t

section
variable (r : VReg) (t : SpillTemp)

@[simp] theorem mark_owner : (mark r t).owner = t.owner := by
  unfold mark
  split <;> rfl

@[simp] theorem mark_reg : (mark r t).reg = t.reg := by
  unfold mark
  split <;> rfl

@[simp] theorem mark_slot : (mark r t).slot = t.slot := by
  unfold mark
  split <;> rfl

@[simp] theorem mark_size : (mark r t).size = t.size := by
  unfold mark
  split <;> rfl

@[simp] theorem mark_store : (mark r t).store = t.store := by
  unfold mark
  split <;> rfl

theorem mark_reload : (mark r t).reload = true ↔ t.reload = true ∨ t.owner = r := by
  unfold mark
  split <;> rename_i owner <;> simp [owner]

end

/-- The temporary that is handed out next for a register. -/
def nextTemp (plan : SpillPlan) (s : TempState) (r : VReg) (reload store : Bool) : SpillTemp :=
  { owner := r, reg := s.out.freshRegister, slot := plan.scratch.get r, size := tempSize plan r,
    reload := reload, store := store }

section
variable {plan : SpillPlan} {position : Nat} {k start : Kernel} {s s' : TempState} {r : VReg}
  {i : Instruction} {o : Operand} {seen : List Operand} {reload store : Bool}

theorem newTemp_made (made : TempState.newTemp plan position s r reload store = .ok s') :
    s.cursor + tempSize plan r ≤ plan.reserve.limit ∧
      s' = { out := s.out.allocRegister.pin s.out.freshRegister s.cursor,
             cursor := s.cursor + tempSize plan r,
             temps := s.temps ++ [nextTemp plan s r reload store] } := by
  unfold TempState.newTemp at made
  dsimp only at made
  split at made
  · cases made
  · rename_i fits
    cases made
    exact ⟨UInt32.not_lt.mp fits, rfl⟩

/-- What happens to the temporaries at one source. -/
theorem source_made (made : TempState.source plan position s o = .ok s') :
    (s' = s ∧ ∀ r ∈ plan.spilled, o.names r = false) ∨
      ∃ x, o.register? = some x ∧ x.reg ∈ plan.spilled ∧
        ((∃ t ∈ s.temps, t.owner = x.reg) ∧ s' = { s with temps := s.temps.map (mark x.reg) } ∨
          (∀ t ∈ s.temps, t.owner ≠ x.reg) ∧ TempState.newTemp plan position s x.reg true false = .ok s') := by
  unfold TempState.source at made
  split at made
  · rename_i unnamed
    cases made
    exact .inl ⟨rfl, fun r _ => by simp [Operand.names, unnamed]⟩
  · rename_i x named
    split at made
    · rename_i spilled
      refine .inr ⟨x, named, by simpa using spilled, ?_⟩
      split at made
      · rename_i t found
        cases made
        exact .inl ⟨⟨t, List.mem_of_find?_eq_some found, by simpa using List.find?_some found⟩, rfl⟩
      · rename_i missing
        exact .inr ⟨fun t member => by simpa using List.find?_eq_none.mp missing t member, made⟩
    · rename_i kept
      cases made
      refine .inl ⟨rfl, fun r spilled => ?_⟩
      simp only [Operand.names, named, beq_eq_false_iff_ne]
      rintro rfl
      exact kept (by simpa using spilled)

/-! ### Which temporaries there are -/

theorem names_register {x : RegisterOperand} (named : o.register? = some x) :
    o.names r = true ↔ x.reg = r := by
  simp [Operand.names, named]

theorem names_also {x : RegisterOperand} (named : o.register? = some x) :
    (∃ p ∈ seen ++ [o], p.names r = true) ↔ (∃ p ∈ seen, p.names r = true) ∨ r = x.reg := by
  rw [eq_comm]
  simp [or_and_right, exists_or, names_register named]

theorem Handed.skip {temps : List SpillTemp} (handed : Handed k plan i seen temps)
    (kept : ∀ r ∈ plan.spilled, o.names r = false) : Handed k plan i (seen ++ [o]) temps := by
  have same (r : VReg) (spilled : r ∈ plan.spilled) :
      (∃ p ∈ seen ++ [o], p.names r = true) ↔ ∃ p ∈ seen, p.names r = true := by
    simp [or_and_right, exists_or, kept r spilled]
  obtain ⟨distinct, few, spilled, slots, reloads, stores, used, owned⟩ := handed
  refine ⟨distinct, ?_, spilled, slots, ?_, stores, used, ?_⟩
  · rw [List.filterMap_append, List.length_append]
    omega
  · intro t member
    rw [same _ (spilled t member)]
    exact reloads t member
  · intro r member
    rw [same r member]
    exact owned r member

theorem Handed.mark {x : RegisterOperand} {temps : List SpillTemp} (handed : Handed k plan i seen temps)
    (named : o.register? = some x) (there : ∃ t ∈ temps, t.owner = x.reg) :
    Handed k plan i (seen ++ [o]) (temps.map (mark x.reg)) := by
  obtain ⟨distinct, few, spilled, slots, reloads, stores, used, owned⟩ := handed
  refine ⟨?_, ?_, ?_, ?_, ?_, ?_, ?_, ?_⟩
  · rw [List.map_map]
    exact (List.map_congr_left fun t _ => mark_owner x.reg t) ▸ distinct
  · rw [List.length_map, List.filterMap_append, List.length_append]
    omega
  · simpa using spilled
  · simpa using slots
  · intro u member
    obtain ⟨t, old, rfl⟩ := List.mem_map.mp member
    rw [mark_reload, reloads t old, mark_owner, names_also named]
    exact or_right_comm
  · simpa using stores
  · intro u member
    obtain ⟨t, old, rfl⟩ := List.mem_map.mp member
    rw [mark_reload, mark_store]
    exact (used t old).imp_left .inl
  · intro r member wanted
    rw [names_also named] at wanted
    have old : ∃ t ∈ temps, t.owner = r := by
      rcases wanted with writes | known | rfl
      · exact owned r member (.inl writes)
      · exact owned r member (.inr known)
      · exact there
    obtain ⟨t, old, owner⟩ := old
    exact ⟨_, List.mem_map_of_mem old, by rw [mark_owner, owner]⟩

/-- A temporary for one more source. -/
theorem Handed.add {x : RegisterOperand} (handed : Handed k plan i seen s.temps)
    (named : o.register? = some x) (spilled : x.reg ∈ plan.spilled) (absent : ∀ t ∈ s.temps, t.owner ≠ x.reg) :
    Handed k plan i (seen ++ [o]) (s.temps ++ [nextTemp plan s x.reg true false]) := by
  have unwritten : i.writes x.reg = false := by
    rw [Bool.eq_false_iff]
    intro writes
    obtain ⟨t, member, owner⟩ := handed.owned x.reg spilled (.inl writes)
    exact absent t member owner
  have cases {P : SpillTemp → Prop} (old : ∀ t ∈ s.temps, P t) (new : P (nextTemp plan s x.reg true false)) :
      ∀ t ∈ s.temps ++ [nextTemp plan s x.reg true false], P t := by
    intro t member
    rcases List.mem_append.mp member with old' | new'
    · exact old t old'
    · rwa [List.mem_singleton.mp new']
  refine ⟨?_, ?_, cases handed.spilled spilled, cases handed.slots ⟨rfl, rfl⟩, ?_, ?_,
    cases handed.used (.inl rfl), ?_⟩
  · rw [List.map_append, List.nodup_append]
    refine ⟨handed.distinct, List.nodup_singleton _, ?_⟩
    rintro r old r' new rfl
    obtain ⟨t, member, rfl⟩ := List.mem_map.mp old
    exact absent t member (List.mem_singleton.mp new)
  · have few := handed.few
    simp only [List.length_append, List.filterMap_append, List.length_singleton, List.filterMap_cons, named,
      List.filterMap_nil]
    omega
  · refine cases (fun t member => ?_) ?_
    · rw [names_also named, handed.reloads t member]
      simp only [absent t member, or_false]
    · exact ⟨fun _ => .inl ((names_also named).mpr (.inr rfl)), fun _ => rfl⟩
  · refine cases handed.stores ?_
    change false = true ↔ i.writes x.reg = true
    rw [unwritten]
  · intro r member wanted
    rw [names_also named] at wanted
    have known : (∃ t ∈ s.temps, t.owner = r) ∨ x.reg = r := by
      rcases wanted with writes | known | rfl
      · exact .inl (handed.owned r member (.inl writes))
      · exact .inl (handed.owned r member (.inr known))
      · exact .inr rfl
    rcases known with ⟨t, old, owner⟩ | rfl
    · exact ⟨t, List.mem_append_left _ old, owner⟩
    · exact ⟨_, List.mem_append_right _ List.mem_cons_self, rfl⟩

/-- The temporary of a destination. -/
theorem Handed.destination {dst : RegisterOperand} (named : i.dst.register? = some dst)
    (spilled : dst.reg ∈ plan.spilled) :
    Handed k plan i [] [nextTemp plan s dst.reg (!k.fullyDefines i dst || 1 < dst.spans) true] := by
  have partly : (!k.fullyDefines i dst || decide (1 < dst.spans)) = true ↔ PartlyDefines k i dst.reg := by
    have whole : k.fullyDefines i dst = true → ¬ 1 < dst.spans := by
      intro full
      simp only [Kernel.fullyDefines, Bool.and_eq_true, Bool.not_eq_true', decide_eq_false_iff_not] at full
      exact full.1.2
    rw [Bool.or_eq_true, Bool.not_eq_true', decide_eq_true_iff]
    constructor
    · rintro (part | many)
      · exact ⟨dst, named, rfl, part⟩
      · exact ⟨dst, named, rfl, Bool.eq_false_iff.mpr fun full => whole full many⟩
    · rintro ⟨d, named', -, part⟩
      rw [named] at named'
      cases named'
      exact .inl part
  have writes : i.writes dst.reg = true := (names_register named).mpr rfl
  refine ⟨List.nodup_singleton _, by simp [named], ?_, ?_, ?_, ?_, ?_, ?_⟩
  · simpa [nextTemp] using spilled
  · simp [nextTemp]
  · simpa [nextTemp] using partly
  · simpa [nextTemp] using writes
  · simp [nextTemp]
  · rintro r member (written | ⟨o, none, -⟩)
    · exact ⟨_, List.mem_cons_self, (names_register named).mp written⟩
    · cases none

theorem Handed.unspilled (kept : ∀ r ∈ plan.spilled, i.writes r = false) : Handed k plan i [] [] := by
  refine ⟨List.nodup_nil, Nat.zero_le _, nofun, nofun, nofun, nofun, nofun, ?_⟩
  rintro r member (written | ⟨o, none, -⟩)
  · rw [kept r member] at written
    cases written
  · cases none

theorem source_handed (handed : Handed k plan i seen s.temps)
    (made : TempState.source plan position s o = .ok s') : Handed k plan i (seen ++ [o]) s'.temps := by
  rcases source_made made with ⟨rfl, kept⟩ | ⟨x, named, spilled, ⟨there, rfl⟩ | ⟨absent, made⟩⟩
  · exact handed.skip kept
  · exact handed.mark named there
  · obtain ⟨-, rfl⟩ := newTemp_made made
    exact handed.add named spilled absent

/-! ### Where they are -/

@[simp] theorem pin_allocRegister (k : Kernel) (r q : VReg) (at_ : UInt32) :
    (k.allocRegister.pin r at_).pin? q = if q = r then some at_ else k.pin? q := by
  unfold Kernel.pin? Kernel.pin Kernel.allocRegister
  split
  · rename_i same
    rw [same]
    exact OrdMap.find?_insert_self _ _ _
  · rename_i differs
    exact OrdMap.find?_insert_of_ne _ (number_ne differs) _

theorem Laid.empty {out : Kernel} : Laid plan out { out := out, cursor := plan.reserve.data } where
  out := rfl
  next := rfl
  range := nofun
  numbered := List.nodup_nil
  others := fun _ _ => rfl
  pinned := nofun
  snug := fun _ => ⟨⟨nofun, .nil⟩, le_rfl, nofun⟩

/-- The cursor may move up. -/
theorem Laid.advance {cursor : UInt32} (laid : Laid plan start s) (later : s.cursor ≤ cursor) :
    Laid plan start { s with cursor := cursor } := by
  obtain ⟨out, next, range, numbered, others, pinned, snug⟩ := laid
  refine ⟨out, next, range, numbered, others, pinned, fun unwrapped => ?_⟩
  obtain ⟨packed, low, ends⟩ := snug unwrapped
  have up := UInt32.le_iff_toNat_le.mp later
  exact ⟨packed, low.trans up, fun t member at_ pinned => (ends t member at_ pinned).trans up⟩

theorem Laid.mark (laid : Laid plan start s) (r : VReg) :
    Laid plan start { s with temps := s.temps.map (mark r) } := by
  obtain ⟨out, next, range, numbered, others, pinned, snug⟩ := laid
  refine ⟨out, by simpa using next, by simpa using range, ?_, others, by simpa using pinned, ?_⟩
  · rw [List.map_map]
    exact (List.map_congr_left fun t _ => mark_reg r t) ▸ numbered
  · intro unwrapped
    obtain ⟨⟨inside, apart⟩, low, ends⟩ := snug (by simpa [Unwrapped] using unwrapped)
    refine ⟨⟨by simpa using inside, ?_⟩, low, by simpa using ends⟩
    rw [List.pairwise_map]
    simpa using apart

theorem pin_new (made : TempState.newTemp plan position s r reload store = .ok s') :
    s'.out.pin? s.out.freshRegister = some s.cursor := by
  obtain ⟨-, rfl⟩ := newTemp_made made
  rw [pin_allocRegister, if_pos rfl]

section
variable (laid : Laid plan start s) (made : TempState.newTemp plan position s r reload store = .ok s')
include laid made

theorem Laid.pin_old {t : SpillTemp} (member : t ∈ s.temps) :
    t.reg ≠ s.out.freshRegister ∧ s'.out.pin? t.reg = s.out.pin? t.reg := by
  obtain ⟨-, rfl⟩ := newTemp_made made
  have old : t.reg ≠ s.out.freshRegister := by
    intro same
    have small := (laid.range t member).2
    rw [same] at small
    exact Nat.lt_irrefl _ small
  exact ⟨old, by rw [pin_allocRegister, if_neg old]⟩

/-- Without wrapping, one more temporary comes behind the others. -/
theorem Laid.snug_add (unwrapped : Unwrapped s'.out s'.temps) : Snug plan s' := by
  have kept {t : SpillTemp} (member : t ∈ s.temps) := (laid.pin_old made member).2
  have here := pin_new made
  obtain ⟨fits, same⟩ := newTemp_made made
  have temps : s'.temps = s.temps ++ [nextTemp plan s r reload store] := by rw [same]
  have cursor : s'.cursor = s.cursor + tempSize plan r := by rw [same]
  rw [temps] at unwrapped
  obtain ⟨⟨inside, apart⟩, low, ends⟩ := laid.snug fun t member at_ pinned =>
    unwrapped t (List.mem_append_left _ member) at_ (by rw [kept member, pinned])
  have whole : s.cursor.toNat + (tempSize plan r).toNat < 4294967296 :=
    unwrapped _ (List.mem_append_right _ List.mem_cons_self) _ here
  have stop : s'.cursor.toNat = s.cursor.toNat + (tempSize plan r).toNat := by
    rw [cursor, UInt32.toNat_add]
    exact Nat.mod_eq_of_lt whole
  have limit : s'.cursor.toNat ≤ plan.reserve.limit.toNat := by
    rw [cursor]
    exact UInt32.le_iff_toNat_le.mp fits
  refine ⟨⟨?_, ?_⟩, by omega, ?_⟩
  all_goals rw [temps]
  · intro t member at_ pinned
    rcases List.mem_append.mp member with old | new
    · rw [kept old] at pinned
      exact inside t old at_ pinned
    · cases List.mem_singleton.mp new
      cases here.symm.trans pinned
      exact ⟨low, by change _ + (tempSize plan r).toNat ≤ _; omega⟩
  · rw [List.pairwise_append]
    refine ⟨apart.imp_of_mem ?_, List.pairwise_singleton _ _, ?_⟩
    · intro t u old old' apart
      rwa [kept old, kept old']
    · intro t old u new at_ next pinned pinned'
      cases List.mem_singleton.mp new
      cases here.symm.trans pinned'
      rw [kept old] at pinned
      exact ends t old at_ pinned
  · intro t member at_ pinned
    rcases List.mem_append.mp member with old | new
    · rw [kept old] at pinned
      have := ends t old at_ pinned
      omega
    · cases List.mem_singleton.mp new
      cases here.symm.trans pinned
      exact stop.ge

/-- One more temporary takes the next number and the bytes at the cursor. -/
theorem Laid.add (room : start.next.toNat + s.temps.length + 1 < 4294967296)
    (first : store = true → s.cursor = plan.reserve.data) : Laid plan start s' := by
  have kept {t : SpillTemp} (member : t ∈ s.temps) := laid.pin_old made member
  have here := pin_new made
  refine ⟨?_, ?_, ?_, ?_, ?_, ?_, laid.snug_add made⟩
  all_goals obtain ⟨fits, rfl⟩ := newTemp_made made
  all_goals obtain ⟨out, next, range, numbered, others, pinned, -⟩ := laid
  all_goals
    have grown : (s.out.next + 1).toNat = s.out.next.toNat + 1 := by
      rw [UInt32.toNat_add]
      change (s.out.next.toNat + 1) % 4294967296 = _
      omega
  · dsimp only
    rw [out]
    rfl
  · change (s.out.next + 1).toNat = _
    rw [grown, next, List.length_append]
    rfl
  · intro t member
    change _ ∧ _ < (s.out.next + 1).toNat
    rw [grown]
    rcases List.mem_append.mp member with known | new
    · have bounds := range t known
      omega
    · rw [List.mem_singleton.mp new]
      change _ ≤ s.out.next.toNat ∧ s.out.next.toNat < _
      omega
  · dsimp only
    rw [List.map_append, List.nodup_append]
    refine ⟨numbered, List.nodup_singleton _, ?_⟩
    rintro q known q' new rfl
    obtain ⟨t, member, rfl⟩ := List.mem_map.mp known
    exact (kept member).1 (List.mem_singleton.mp new)
  · intro q small
    dsimp only
    rw [pin_allocRegister, if_neg, others q small]
    rintro rfl
    change s.out.next.toNat < _ at small
    omega
  · intro t member
    rcases List.mem_append.mp member with known | new
    · rw [(kept known).2]
      exact pinned t known
    · rw [List.mem_singleton.mp new]
      exact ⟨s.cursor, here, fits, first⟩

end

theorem destination_made {out : Kernel}
    (made : k.spilledDestination plan position i { out := out, cursor := plan.reserve.data } = .ok s)
    (room : out.next.toNat + i.registers.length < 4294967296) :
    Handed k plan i [] s.temps ∧ Laid plan out s := by
  unfold Kernel.spilledDestination at made
  split at made
  · rename_i unnamed
    cases made
    exact ⟨.unspilled fun r _ => by simp [Instruction.writes, Operand.names, unnamed], .empty⟩
  · rename_i dst named
    split at made
    · rename_i spilled
      split at made
      · cases made
      · have one : 1 ≤ i.registers.length := by simp [Instruction.registers, named]
        refine ⟨?_, Laid.empty.add made (by simpa using by omega) fun _ => rfl⟩
        obtain ⟨-, rfl⟩ := newTemp_made made
        exact .destination named (by simpa using spilled)
    · rename_i kept
      cases made
      refine ⟨.unspilled fun r spilled => ?_, .empty⟩
      rw [Bool.eq_false_iff]
      intro writes
      cases (names_register named).mp writes
      exact kept (by simpa using spilled)

/-- The temporaries of an instruction. -/
theorem spillTemps_made {out : Kernel} (made : k.spillTemps plan position i out = .ok s)
    (room : out.next.toNat + i.registers.length < 4294967296) :
    Handed k plan i i.src s.temps ∧ Laid plan out s := by
  simp only [Kernel.spillTemps, bind_ok] at made
  obtain ⟨t, first, ran⟩ := made
  obtain ⟨handed, laid⟩ := destination_made first room
  -- The sources in order: those before are `seen`, and a temporary costs one of the operands of `i`.
  have along (rest seen : List Operand) (split : seen ++ rest = i.src) (t : TempState)
      (handed : Handed k plan i seen t.temps) (laid : Laid plan out t)
      (ran : rest.foldlM (TempState.source plan position) t = .ok s) :
      Handed k plan i i.src s.temps ∧ Laid plan out s := by
    induction rest generalizing seen t with
    | nil =>
      rw [List.foldlM_nil, pure_ok] at ran
      rw [List.append_nil] at split
      subst ran split
      exact ⟨handed, laid⟩
    | cons o rest ih =>
      rw [List.foldlM_cons, bind_ok] at ran
      obtain ⟨u, made, ran⟩ := ran
      refine ih (seen ++ [o]) (by rw [← split]; simp) u (source_handed handed made) ?_ ran
      rcases source_made made with ⟨rfl, -⟩ | ⟨x, named, -, ⟨-, rfl⟩ | ⟨-, made⟩⟩
      · exact laid
      · exact laid.mark x.reg
      · refine laid.add made ?_ (by rintro ⟨⟩)
        have few := handed.few
        have all : i.registers.length = i.dst.register?.toList.length + (seen.filterMap Operand.register?).length +
            (1 + (rest.filterMap Operand.register?).length) := by
          rw [Instruction.registers, ← split, List.length_append, List.filterMap_append, List.length_append,
            List.filterMap_cons, named]
          simp only [List.length_cons]
          omega
        omega
  refine along i.src [] rfl _ ?_ ?_ ran
  · exact handed
  · refine laid.advance ?_
    change t.cursor ≤ if t.cursor ≤ k.reserveInUse i plan.reserve then _ else _
    split
    · assumption
    · exact UInt32.le_refl _

end

end GpuCodegen.SpillGroups
