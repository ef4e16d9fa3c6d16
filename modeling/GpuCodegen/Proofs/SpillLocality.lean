import Mathlib.Data.Nat.Find
import GpuCodegen.Proofs.LivePaths
import GpuCodegen.Proofs.SpillGroups

/-! Where the temporaries of spill code live. A temporary is accessed in its own group only. It lives there
only, unless a loop around the group takes its reload for a partial definition. -/

namespace GpuCodegen.SpillGroups
open Outcome LiveIntervals LivePaths Products Placement

/-! ## Positions -/

/-- The position of the first instruction of a group. -/
def groupStart (gs : List Group) (p : Nat) : Nat := ((gs.take p).flatMap Group.code).length

/-- The position of the instruction on temporaries. -/
def mainAt (gs : List Group) (p : Nat) : Nat :=
  groupStart gs p + ((gs[p]?.map fun g => g.reloads.length).getD 0)

section
variable {gs : List Group} {p q n : Nat} {g : Group} {j : Instruction}

theorem groupStart_succ (here : gs[p]? = some g) : groupStart gs (p + 1) = groupStart gs p + g.code.length := by
  simp [groupStart, List.take_add_one, here]

theorem groupStart_mono (gs : List Group) (less : p ≤ q) : groupStart gs p ≤ groupStart gs q := by
  obtain ⟨n, rfl⟩ := Nat.exists_eq_add_of_le less
  rw [groupStart, groupStart, List.take_add, List.flatMap_append, List.length_append]
  exact Nat.le_add_right _ _

theorem getElem_groupStart (here : gs[p]? = some g) (inside : n < g.code.length) :
    (gs.flatMap Group.code)[groupStart gs p + n]? = g.code[n]? := by
  obtain ⟨small, rfl⟩ := List.getElem?_eq_some_iff.mp here
  have split : gs.flatMap Group.code =
      (gs.take p).flatMap Group.code ++ (gs[p].code ++ (gs.drop (p + 1)).flatMap Group.code) := by
    rw [← List.flatMap_cons, ← List.drop_eq_getElem_cons small, ← List.flatMap_append, List.take_append_drop]
  rw [split, groupStart, List.getElem?_append_right (Nat.le_add_right _ _), Nat.add_sub_cancel_left,
    List.getElem?_append_left inside]

/-- Every position lies in one group. -/
theorem locate (here : (gs.flatMap Group.code)[q]? = some j) :
    ∃ p g n, gs[p]? = some g ∧ g.code[n]? = some j ∧ q = groupStart gs p + n := by
  induction gs generalizing q with
  | nil => simp at here
  | cons g rest ih =>
    rw [List.flatMap_cons] at here
    by_cases first : q < g.code.length
    · rw [List.getElem?_append_left first] at here
      exact ⟨0, g, q, rfl, here, by simp [groupStart]⟩
    · rw [List.getElem?_append_right (by omega)] at here
      obtain ⟨p, h, n, found, inside, at_⟩ := ih here
      refine ⟨p + 1, h, n, found, inside, ?_⟩
      simp only [groupStart, List.take_succ_cons, List.flatMap_cons, List.length_append] at at_ ⊢
      omega

theorem code_length (g : Group) : g.code.length = g.reloads.length + 1 + g.stores.length := by
  rw [Group.code, List.length_append, List.length_append, List.length_singleton]

theorem mainAt_eq (here : gs[p]? = some g) : mainAt gs p = groupStart gs p + g.reloads.length := by
  simp [mainAt, here]

theorem mainAt_bounds (here : gs[p]? = some g) :
    groupStart gs p ≤ mainAt gs p ∧ mainAt gs p < groupStart gs (p + 1) := by
  have length := code_length g
  rw [mainAt_eq here, groupStart_succ here]
  omega

theorem getElem_mainAt (here : gs[p]? = some g) : (gs.flatMap Group.code)[mainAt gs p]? = some g.main := by
  have length := code_length g
  rw [mainAt_eq here, getElem_groupStart here (by omega), Group.code, List.append_assoc,
    List.getElem?_append_right (Nat.le_refl _), Nat.sub_self]
  rfl

/-- An instruction is in its group as a reload, the instruction on temporaries or a write-back. -/
theorem code_cases (here : g.code[n]? = some j) :
    (n < g.reloads.length ∧ ∃ t ∈ g.temps, t.reload = true ∧ j = t.reloadInstruction g.main.block) ∨
      (n = g.reloads.length ∧ j = g.main) ∨
      (g.reloads.length < n ∧ ∃ t ∈ g.temps, t.store = true ∧ j = t.spillInstruction g.main.block) := by
  rw [Group.code, List.append_assoc] at here
  by_cases before : n < g.reloads.length
  · rw [List.getElem?_append_left before] at here
    obtain ⟨t, member, rfl⟩ := List.mem_map.mp (List.mem_of_getElem? here)
    obtain ⟨held, reload⟩ := List.mem_filter.mp member
    exact .inl ⟨before, t, held, reload, rfl⟩
  · rw [List.getElem?_append_right (by omega)] at here
    cases at_ : n - g.reloads.length with
    | zero =>
      rw [at_] at here
      cases here
      exact .inr (.inl ⟨by omega, rfl⟩)
    | succ m =>
      rw [at_] at here
      obtain ⟨t, member, rfl⟩ := List.mem_map.mp (List.mem_of_getElem? here)
      obtain ⟨held, store⟩ := List.mem_filter.mp member
      exact .inr (.inr ⟨by omega, t, held, store, rfl⟩)

theorem code_of_reload {t : SpillTemp} (member : t ∈ g.temps) (reload : t.reload = true) :
    ∃ n < g.reloads.length, g.code[n]? = some (t.reloadInstruction g.main.block) := by
  have held : t.reloadInstruction g.main.block ∈ g.reloads :=
    List.mem_map_of_mem (List.mem_filter.mpr ⟨member, reload⟩)
  obtain ⟨n, small, same⟩ := List.getElem_of_mem held
  refine ⟨n, small, ?_⟩
  rw [Group.code, List.append_assoc, List.getElem?_append_left small, List.getElem?_eq_getElem small, same]

end

/-- Positions of groups and of what is in them come in the order of the instructions. -/
theorem mainAt_le {gs : List Group} {p q : Nat} (less : p < q) (held : q < gs.length) :
    mainAt gs p < groupStart gs q ∧ mainAt gs p < mainAt gs q := by
  have here : gs[p]? = some gs[p] := List.getElem?_eq_getElem (by omega)
  have there : gs[q]? = some gs[q] := List.getElem?_eq_getElem held
  have high := (mainAt_bounds here).2
  have low := (mainAt_bounds there).1
  have mono : groupStart gs (p + 1) ≤ groupStart gs q := groupStart_mono gs less
  omega

/-! ## First accesses -/

/-- An instruction accesses a register. -/
def Touches (j : Instruction) (r : VReg) : Prop := j.reads r = true ∨ j.writes r = true

theorem touches_iff {j : Instruction} {r : VReg} : Touches j r ↔ ∃ x ∈ j.registers, x.reg = r := by
  constructor
  · rintro (reads | writes)
    · obtain ⟨o, member, names⟩ := List.any_eq_true.mp reads
      cases named : o.register? with
      | none => simp [Operand.names, named] at names
      | some x => exact ⟨x, mem_registers.mpr (.inr ⟨o, member, named⟩), (names_register named).mp names⟩
    · cases named : j.dst.register? with
      | none => simp [Instruction.writes, Operand.names, named] at writes
      | some x => exact ⟨x, mem_registers.mpr (.inl named), (names_register named).mp writes⟩
  · rintro ⟨x, member, named⟩
    rcases mem_registers.mp member with dst | ⟨o, source, src⟩
    · exact .inr ((names_register dst).mpr named)
    · exact .inl (List.any_eq_true.mpr ⟨o, source, (names_register src).mpr named⟩)

/-- An instruction needs what was in a register before. -/
def Needs (k : Kernel) (j : Instruction) (r : VReg) : Prop := j.reads r = true ∨ PartlyDefines k j r

theorem Needs.touches {k : Kernel} {j : Instruction} {r : VReg} (needs : Needs k j r) : Touches j r := by
  rcases needs with reads | ⟨dst, named, reg, -⟩
  · exact .inl reads
  · exact .inr ((names_register named).mpr reg)

/-- Instructions read a register first when the first of them that accesses it needs its value. -/
theorem readsFirst_iff {k : Kernel} {r : VReg} {is : List Instruction} :
    k.readsFirst r is = true ↔ ∃ (n : Nat) (j : Instruction), is[n]? = some j ∧ Needs k j r ∧
      ∀ m j', m < n → is[m]? = some j' → ¬ Touches j' r := by
  induction is with
  | nil => simp [Kernel.readsFirst]
  | cons i rest ih =>
    have later : ¬ Touches i r → ((∃ (n : Nat) (j : Instruction), (i :: rest)[n]? = some j ∧ Needs k j r ∧
        ∀ m j', m < n → (i :: rest)[m]? = some j' → ¬ Touches j' r) ↔ k.readsFirst r rest = true) := by
      intro untouched
      rw [ih]
      constructor
      · rintro ⟨_ | n, j, here, needs, first⟩
        · cases here
          exact absurd needs.touches untouched
        · exact ⟨n, j, here, needs, fun m j' less => first (m + 1) j' (Nat.succ_lt_succ less)⟩
      · rintro ⟨n, j, here, needs, first⟩
        refine ⟨n + 1, j, here, needs, ?_⟩
        rintro (_ | m) j' less before
        · cases before
          exact untouched
        · exact first m j' (Nat.lt_of_succ_lt_succ less) before
    have now (needs : Needs k i r) : ∃ (n : Nat) (j : Instruction), (i :: rest)[n]? = some j ∧ Needs k j r ∧
        ∀ m j', m < n → (i :: rest)[m]? = some j' → ¬ Touches j' r :=
      ⟨0, i, rfl, needs, fun m j' less => absurd less (Nat.not_lt_zero m)⟩
    have never (touched : Touches i r) (free : ¬ Needs k i r) :
        ¬ ∃ (n : Nat) (j : Instruction), (i :: rest)[n]? = some j ∧ Needs k j r ∧
        ∀ m j', m < n → (i :: rest)[m]? = some j' → ¬ Touches j' r := by
      rintro ⟨_ | n, j, here, needs, first⟩
      · cases here
        exact free needs
      · exact first 0 i (Nat.zero_lt_succ n) rfl touched
    rw [Kernel.readsFirst]
    by_cases reads : i.reads r = true
    · rw [if_pos reads]
      exact ⟨fun _ => now (.inl reads), fun _ => rfl⟩
    · rw [if_neg reads]
      cases named : i.dst.register? with
      | none =>
        dsimp only
        refine (later ?_).symm
        rintro (read | writes)
        · exact reads read
        · simp [Instruction.writes, Operand.names, named] at writes
      | some dst =>
        dsimp only
        by_cases same : dst.reg = r
        · rw [if_pos same]
          by_cases full : k.fullyDefines i dst = true
          · rw [full]
            have free : ¬ Needs k i r := by
              rintro (read | ⟨d, named', -, part⟩)
              · exact reads read
              · rw [named] at named'
                cases named'
                rw [full] at part
                cases part
            have writes : Touches i r := .inr ((names_register named).mpr same)
            exact ⟨fun none => (by cases none), fun found => absurd found (never writes free)⟩
          · have part : k.fullyDefines i dst = false := Bool.eq_false_iff.mpr full
            rw [part]
            exact ⟨fun _ => now (.inr ⟨dst, named, same, part⟩), fun _ => rfl⟩
        · rw [if_neg same]
          refine (later ?_).symm
          rintro (read | writes)
          · exact reads read
          · exact same ((names_register named).mp writes)

/-- A loop carries a register when the first access in it needs the register's value. -/
theorem carries_iff {k : Kernel} {l : Loop} {r : VReg} :
    k.carries l r = true ↔ ∃ q j, l.header ≤ q ∧ q ≤ l.stop ∧ k.code[q]? = some j ∧ Needs k j r ∧
      ∀ m j', l.header ≤ m → m < q → k.code[m]? = some j' → ¬ Touches j' r := by
  have body (n : Nat) : (k.loopBody l)[n]? = if n < l.stop + 1 - l.header then k.code[l.header + n]? else none := by
    rw [Kernel.loopBody, List.getElem?_take]
    split
    · rw [List.getElem?_drop]
    · rfl
  rw [Kernel.carries, readsFirst_iff]
  constructor
  · rintro ⟨n, j, here, needs, first⟩
    rw [body] at here
    split at here
    · refine ⟨l.header + n, j, Nat.le_add_right _ _, by omega, here, needs, ?_⟩
      intro m j' low less before
      refine first (m - l.header) j' (by omega) ?_
      rw [body, if_pos (by omega), Nat.add_sub_cancel' low]
      exact before
    · cases here
  · rintro ⟨q, j, low, high, here, needs, first⟩
    refine ⟨q - l.header, j, ?_, needs, ?_⟩
    · rw [body, if_pos (by omega), Nat.add_sub_cancel' low]
      exact here
    · intro m j' less before
      rw [body, if_pos (by omega)] at before
      exact first (l.header + m) j' (Nat.le_add_right _ _) (by omega) before

/-- A register whose accesses up to some point of a loop all need its value is carried. -/
theorem carries_of_needs {k : Kernel} {l : Loop} {r : VReg} {q : Nat} {j : Instruction} (low : l.header ≤ q)
    (high : q ≤ l.stop) (here : k.code[q]? = some j) (touches : Touches j r)
    (needs : ∀ m j', l.header ≤ m → m ≤ q → k.code[m]? = some j' → Touches j' r → Needs k j' r) :
    k.carries l r = true := by
  classical
  have some_ : ∃ m, l.header ≤ m ∧ ∃ j, k.code[m]? = some j ∧ Touches j r := ⟨q, low, j, here, touches⟩
  obtain ⟨from_, j', there, touched⟩ := Nat.find_spec some_
  have early : Nat.find some_ ≤ q := Nat.find_min' some_ ⟨low, j, here, touches⟩
  refine carries_iff.mpr ⟨Nat.find some_, j', from_, early.trans high, there, needs _ j' from_ early there touched, ?_⟩
  intro m j'' after before at_ touched
  exact Nat.find_min some_ before ⟨after, j'', at_, touched⟩

/-! ## Loops of the new stream -/

theorem labelPosition_iff {k : Kernel} {label : Int} {p : Nat} : k.labelPosition? label = some p ↔
    (∃ i, k.code[p]? = some i ∧ i.op = .label ∧ i.label = label) ∧
      ∀ (q : Nat) (i : Instruction), k.code[q]? = some i → i.op = .label → i.label = label → q ≤ p := by
  unfold Kernel.labelPosition?
  generalize known : List.filter _ k.code.zipIdx = entries
  have listed (i : Instruction) (q : Nat) :
      (i, q) ∈ entries ↔ k.code[q]? = some i ∧ i.op = .label ∧ i.label = label := by
    rw [← known, List.mem_filter, List.mem_zipIdx_iff_getElem?]
    simp
  have ascending : entries.Pairwise fun a b => a.2 < b.2 := by
    rw [← known]
    refine List.Pairwise.sublist List.filter_sublist ?_
    rw [← List.pairwise_map (f := Prod.snd) (R := fun a b => a < b), List.zipIdx_map_snd]
    exact List.pairwise_lt_range'
  -- The last entry is the label that counts.
  have latest {i : Instruction} {p : Nat} (last : entries.getLast? = some (i, p)) :
      (k.code[p]? = some i ∧ i.op = .label ∧ i.label = label) ∧
        ∀ (q : Nat) (i : Instruction), k.code[q]? = some i → i.op = .label → i.label = label → q ≤ p := by
    refine ⟨(listed i p).mp (List.mem_of_getLast? last), fun q j here op same => ?_⟩
    have member := (listed j q).mpr ⟨here, op, same⟩
    obtain ⟨before, split⟩ := List.getLast?_eq_some_iff.mp last
    rw [split] at member ascending
    rcases List.mem_append.mp member with early | final
    · exact Nat.le_of_lt ((List.pairwise_append.mp ascending).2.2 _ early _ List.mem_cons_self)
    · cases List.mem_singleton.mp final
      exact Nat.le_refl _
  constructor
  · intro found
    obtain ⟨entry, last, rfl⟩ := Option.map_eq_some_iff.mp found
    obtain ⟨here, most⟩ := latest last
    exact ⟨⟨entry.1, here⟩, most⟩
  · rintro ⟨⟨i, here⟩, most⟩
    cases last : entries.getLast? with
    | none =>
      have member := (listed i p).mpr here
      rw [List.getLast?_eq_none_iff.mp last] at member
      cases member
    | some entry =>
      obtain ⟨there, latest⟩ := latest last
      have low := most entry.2 entry.1 there.1 there.2.1 there.2.2
      have high := latest p i here.1 here.2.1 here.2.2
      exact congrArg some (Nat.le_antisymm low high)

section
variable {k out : Kernel} {plan : SpillPlan} {gs : List Group}

theorem Stream.group (stream : Stream k plan out gs) {p : Nat} {g : Group} (here : gs[p]? = some g) :
    ∃ i, k.code[p]? = some i ∧ Faithful k plan out i g := by
  obtain ⟨small, rfl⟩ := List.getElem?_eq_some_iff.mp here
  have same := stream.each.length_eq
  have held : p < k.code.length := by omega
  exact ⟨k.code[p], List.getElem?_eq_getElem held, (List.forall₂_iff_get.mp stream.each).2 p held small⟩

theorem Stream.instruction (stream : Stream k plan out gs) {p : Nat} {i : Instruction} (here : k.code[p]? = some i) :
    ∃ g, gs[p]? = some g ∧ Faithful k plan out i g := by
  obtain ⟨held, rfl⟩ := List.getElem?_eq_some_iff.mp here
  have same := stream.each.length_eq
  have small : p < gs.length := by omega
  exact ⟨gs[p], List.getElem?_eq_getElem small, (List.forall₂_iff_get.mp stream.each).2 p held small⟩

/-- An instruction of a kind that spill code does not use stands where its own instruction went. -/
theorem Stream.main_of_op (stream : Stream k plan out gs) {q : Nat} {j : Instruction} (here : out.code[q]? = some j)
    (reload : j.op ≠ .reload) (spill : j.op ≠ .spill) :
    ∃ p i, k.code[p]? = some i ∧ q = mainAt gs p ∧ j.op = i.op ∧ j.label = i.label := by
  rw [stream.code] at here
  obtain ⟨p, g, n, group, inside, at_⟩ := locate here
  obtain ⟨i, old, faithful⟩ := stream.group group
  rcases code_cases inside with ⟨-, t, -, -, rfl⟩ | ⟨main, rfl⟩ | ⟨-, t, -, -, rfl⟩
  · exact absurd rfl reload
  · refine ⟨p, i, old, ?_, ?_, ?_⟩
    · rw [at_, main, mainAt_eq group]
    · rw [faithful.main]
      rfl
    · rw [faithful.main]
      rfl
  · exact absurd rfl spill

theorem Stream.main_there (stream : Stream k plan out gs) {p : Nat} {i : Instruction} (here : k.code[p]? = some i) :
    ∃ j, out.code[mainAt gs p]? = some j ∧ j.op = i.op ∧ j.label = i.label := by
  obtain ⟨g, group, faithful⟩ := stream.instruction here
  refine ⟨g.main, ?_, ?_, ?_⟩
  · rw [stream.code]
    exact getElem_mainAt group
  · rw [faithful.main]
    rfl
  · rw [faithful.main]
    rfl

theorem Stream.held (stream : Stream k plan out gs) {p : Nat} {i : Instruction} (here : k.code[p]? = some i) :
    p < gs.length := by
  have same := stream.each.length_eq
  have small := (List.getElem?_eq_some_iff.mp here).1
  omega

theorem mainAt_order {p q : Nat} (heldP : p < gs.length) (heldQ : q < gs.length) :
    (mainAt gs p ≤ mainAt gs q ↔ p ≤ q) ∧ (mainAt gs p < mainAt gs q ↔ p < q) := by
  rcases Nat.lt_trichotomy p q with less | rfl | more
  · have := (mainAt_le less heldQ).2
    omega
  · omega
  · have := (mainAt_le more heldP).2
    omega

theorem Stream.labelPosition (stream : Stream k plan out gs) {label : Int} {p : Nat} (held : p < gs.length) :
    out.labelPosition? label = some (mainAt gs p) ↔ k.labelPosition? label = some p := by
  rw [labelPosition_iff, labelPosition_iff]
  constructor
  · rintro ⟨⟨j, here, op, same⟩, most⟩
    obtain ⟨p', i, old, at_, op', label'⟩ := stream.main_of_op here (by simp [op]) (by simp [op])
    have equal : p = p' := by
      have up := (mainAt_order held (stream.held old)).1
      have down := (mainAt_order (stream.held old) held).1
      omega
    subst equal
    refine ⟨⟨i, old, op' ▸ op, label' ▸ same⟩, ?_⟩
    intro q j' there op same
    obtain ⟨j'', there', op'', label''⟩ := stream.main_there there
    exact (mainAt_order (stream.held there) held).1.mp (most _ j'' there' (op''.trans op) (label''.trans same))
  · rintro ⟨⟨i, here, op, same⟩, most⟩
    obtain ⟨j, there, op', label'⟩ := stream.main_there here
    refine ⟨⟨j, there, op'.trans op, label'.trans same⟩, ?_⟩
    intro q j' there' op'' same'
    obtain ⟨p', i', old, rfl, op3, label3⟩ := stream.main_of_op there' (by simp [op'']) (by simp [op''])
    exact (mainAt_order (stream.held old) held).1.mpr (most p' i' old (op3 ▸ op'') (label3 ▸ same'))

/-- The loops of the new stream are those of the one before. -/
theorem Stream.loops (stream : Stream k plan out gs) {l' : Loop} :
    l' ∈ out.loops ↔ ∃ l ∈ k.loops, l' = ⟨mainAt gs l.header, mainAt gs l.stop⟩ := by
  have label_held {label : Int} {p : Nat} (found : k.labelPosition? label = some p) : p < gs.length := by
    obtain ⟨⟨i, here, -⟩, -⟩ := labelPosition_iff.mp found
    exact stream.held here
  constructor
  · intro member
    obtain ⟨j, here, jumps, target, backward⟩ := mem_loops.mp member
    obtain ⟨stop, i, old, at_, op, label⟩ := stream.main_of_op here (by simp [jumps]) (by simp [jumps])
    obtain ⟨⟨j', there, labels, -⟩, -⟩ := labelPosition_iff.mp target
    obtain ⟨header, i', old', at', -, -⟩ := stream.main_of_op there (by simp [labels]) (by simp [labels])
    rw [at'] at target
    refine ⟨⟨header, stop⟩, mem_loops.mpr ⟨i, old, op ▸ jumps, ?_, ?_⟩, ?_⟩
    · rw [← label]
      exact (stream.labelPosition (stream.held old')).mp target
    · rw [at_, at'] at backward
      exact (mainAt_order (stream.held old') (stream.held old)).2.mp backward
    · cases l'
      exact congrArg₂ Loop.mk at' at_
  · rintro ⟨l, member, rfl⟩
    obtain ⟨i, old, jumps, target, backward⟩ := mem_loops.mp member
    obtain ⟨j, here, op, label⟩ := stream.main_there old
    refine mem_loops.mpr ⟨j, here, op.trans jumps, ?_, ?_⟩
    · rw [label]
      exact (stream.labelPosition (label_held target)).mpr target
    · exact (mainAt_order (label_held target) (stream.held old)).2.mpr backward

/-! ## Accesses of temporaries -/

/-- No two temporaries have one number. -/
theorem Stream.temp_unique (stream : Stream k plan out gs) {p q : Nat} {g h : Group} {t u : SpillTemp}
    (here : gs[p]? = some g) (there : gs[q]? = some h) (member : t ∈ g.temps) (member' : u ∈ h.temps)
    (same : t.reg = u.reg) : p = q ∧ t = u := by
  obtain ⟨smallP, rfl⟩ := List.getElem?_eq_some_iff.mp here
  obtain ⟨smallQ, rfl⟩ := List.getElem?_eq_some_iff.mp there
  have numbered := stream.numbered
  rw [List.map_flatMap, List.nodup_flatMap] at numbered
  obtain ⟨each, across⟩ := numbered
  have equal : p = q := by
    by_contra differs
    have apart : ∀ a b (smallA : a < gs.length) (smallB : b < gs.length), a < b →
        ∀ r ∈ gs[a].temps.map SpillTemp.reg, r ∉ gs[b].temps.map SpillTemp.reg :=
      fun a b smallA smallB less r first second =>
        List.pairwise_iff_getElem.mp across a b smallA smallB less first second
    rcases Nat.lt_or_gt_of_ne differs with less | more
    · exact apart p q smallP smallQ less t.reg (List.mem_map_of_mem member) (same ▸ List.mem_map_of_mem member')
    · exact apart q p smallQ smallP more u.reg (List.mem_map_of_mem member') (same ▸ List.mem_map_of_mem member)
  subst equal
  exact ⟨rfl, List.inj_on_of_nodup_map (each _ (List.getElem_mem smallP)) member member' same⟩

/-- Which registers an instruction on temporaries names. -/
theorem Stream.standIn_iff (stream : Stream k plan out gs) {g : Group} {i : Instruction} (here : g ∈ gs)
    (faithful : Faithful k plan out i g) {t : SpillTemp} (member : t ∈ g.temps) {r : VReg}
    (old : r.number.toNat < k.next.toNat) : standIn g.temps r = t.reg ↔ r = t.owner := by
  constructor
  · intro same
    rcases standIn_cases g.temps r with ⟨u, held, owner, stands⟩ | ⟨-, stands⟩
    · obtain ⟨p, small, rfl⟩ := List.getElem_of_mem here
      have there : gs[p]? = some gs[p] := List.getElem?_eq_getElem small
      rw [← (stream.temp_unique there there held member (stands.symm.trans same)).2, owner]
    · have low := (stream.numbers g here t member).1
      rw [← same, stands] at low
      omega
  · rintro rfl
    exact standIn_of_mem faithful.once member

theorem Stream.real_standIn (stream : Stream k plan out gs) {g : Group} (here : g ∈ gs) {r : VReg}
    (old : r.number.toNat < k.next.toNat) : standIn g.temps r ≠ .none := by
  rcases standIn_cases g.temps r with ⟨u, held, -, stands⟩ | ⟨-, stands⟩
  · rw [stands]
    exact (stream.numbers g here u held).2
  · rw [stands]
    have bound : k.next.toNat < 4294967296 := k.next.toNat_lt
    exact real_of_small (by omega)

theorem Stream.names_standIn (stream : Stream k plan out gs) {g : Group} {i : Instruction} (here : g ∈ gs)
    (faithful : Faithful k plan out i g) {t : SpillTemp} (member : t ∈ g.temps) {o : Operand}
    (old : Below k.next.toNat o) : (o.rename (standIn g.temps)).names t.reg = o.names t.owner := by
  cases named : o.register? with
  | none => simp [rename_unnamed named, Operand.names, named]
  | some x =>
    have real := stream.real_standIn here (old x named)
    rw [Bool.eq_iff_iff, names_register named, names_register (register_rename named real)]
    exact stream.standIn_iff here faithful member (old x named)

theorem Stream.main_reads (stream : Stream k plan out gs) {g : Group} {i : Instruction} (here : g ∈ gs)
    (old : i ∈ k.code) (faithful : Faithful k plan out i g) {t : SpillTemp} (member : t ∈ g.temps) :
    g.main.reads t.reg = i.reads t.owner ∧ g.main.writes t.reg = i.writes t.owner := by
  have names := stream.names i old
  rw [faithful.main]
  constructor
  · unfold Instruction.reads renamed
    rw [List.any_map, Bool.eq_iff_iff, List.any_eq_true, List.any_eq_true]
    refine exists_congr fun o => and_congr_right fun source => ?_
    rw [Function.comp_apply, stream.names_standIn here faithful member (names.src o source)]
  · exact stream.names_standIn here faithful member names.dst

/-- The instruction on temporaries overwrites as much of a temporary as the old one of its owner. -/
theorem Stream.needs_main (stream : Stream k plan out gs) {g : Group} {i : Instruction} (here : g ∈ gs)
    (old : i ∈ k.code) (faithful : Faithful k plan out i g) {t : SpillTemp} (member : t ∈ g.temps) :
    Needs out g.main t.reg ↔ Needs k i t.owner := by
  obtain ⟨reads, writes⟩ := stream.main_reads here old faithful member
  have width : out.widthOf g.main = k.widthOf i := by
    rw [Kernel.widthOf, Kernel.widthOf, stream.width, faithful.main]
    rfl
  unfold Needs
  rw [reads]
  refine or_congr_right ?_
  cases named : i.dst.register? with
  | none =>
    have unnamed : g.main.dst.register? = none := by
      rw [faithful.main]
      exact (congrArg Operand.register? (rename_unnamed named _)).trans named
    simp [PartlyDefines, named, unnamed]
  | some x =>
    have low := (stream.names i old).dst x named
    have real := stream.real_standIn here low
    have named' : g.main.dst.register? = some { x with reg := standIn g.temps x.reg } := by
      rw [faithful.main]
      exact register_rename named real
    have same := stream.standIn_iff here faithful member low
    have full (owner : x.reg = t.owner) : out.fullyDefines g.main { x with reg := standIn g.temps x.reg } =
        k.fullyDefines i x := by
      have predicated : g.main.predicated = i.predicated := by
        rw [faithful.main]
        rfl
      unfold Kernel.fullyDefines
      rw [predicated, width, stream.width, same.mpr owner, reads, owner]
      rfl
    constructor
    · rintro ⟨d, dst, reg, part⟩
      rw [named'] at dst
      cases dst
      have owner := same.mp reg
      exact ⟨x, named, owner, by rw [← full owner]; exact part⟩
    · rintro ⟨d, dst, reg, part⟩
      rw [named] at dst
      cases dst
      exact ⟨_, named', same.mpr reg, by rw [full reg]; exact part⟩

/-- A temporary is reloaded where the instruction needs what its owner holds. -/
theorem Faithful.reload_iff {i : Instruction} {g : Group} (faithful : Faithful k plan out i g) {t : SpillTemp}
    (member : t ∈ g.temps) : t.reload = true ↔ Needs k i t.owner := by
  constructor
  · intro reload
    exact ((faithful.reloaded t.owner).mp ⟨t, member, rfl, reload⟩).2
  · intro needs
    obtain ⟨u, held, owner, reload⟩ := (faithful.reloaded t.owner).mpr ⟨(faithful.used t member).1, needs⟩
    rw [← List.inj_on_of_nodup_map faithful.once held member owner]
    exact reload

theorem Faithful.touches {i : Instruction} {g : Group} (faithful : Faithful k plan out i g) {t : SpillTemp}
    (member : t ∈ g.temps) : Touches i t.owner := by
  rcases (faithful.used t member).2 with reload | store
  · exact ((faithful.reload_iff member).mp reload).touches
  · exact .inr ((faithful.stored t.owner).mp ⟨t, member, rfl, store⟩).2

/-- Where a temporary is accessed. -/
theorem Stream.touch_cases (stream : Stream k plan out gs) {p q : Nat} {g : Group} {j : Instruction} {t : SpillTemp}
    (here : gs[p]? = some g) (member : t ∈ g.temps) (there : out.code[q]? = some j) (touches : Touches j t.reg) :
    (groupStart gs p ≤ q ∧ q < mainAt gs p ∧ t.reload = true ∧ j = t.reloadInstruction g.main.block) ∨
      (q = mainAt gs p ∧ j = g.main) ∨
      (mainAt gs p < q ∧ q < groupStart gs (p + 1) ∧ t.store = true ∧ j = t.spillInstruction g.main.block) := by
  rw [stream.code] at there
  obtain ⟨p', g', n, group, inside, rfl⟩ := locate there
  have count := (List.getElem?_eq_some_iff.mp inside).1
  have main := mainAt_eq group
  have stop := groupStart_succ group
  obtain ⟨x, named, reg⟩ := touches_iff.mp touches
  have real (u : SpillTemp) (held : u ∈ g'.temps) : u.reg ≠ .none :=
    (stream.numbers g' (List.mem_of_getElem? group) u held).2
  rcases code_cases inside with ⟨early, u, held, reload, rfl⟩ | ⟨at_, rfl⟩ | ⟨late, u, held, store, rfl⟩
  · have only : x = payloadOf u := by
      simpa [Instruction.registers, SpillTemp.reloadInstruction, operand_register (real u held)] using named
    rw [only] at reg
    obtain ⟨rfl, rfl⟩ := stream.temp_unique here group member held reg.symm
    cases here.symm.trans group
    exact .inl ⟨Nat.le_add_right _ _, by omega, reload, rfl⟩
  · obtain ⟨i, old, faithful⟩ := stream.group group
    have known : ∀ y ∈ i.registers, standIn g'.temps y.reg ≠ .none := fun y operand =>
      stream.real_standIn (List.mem_of_getElem? group)
        (namesBelow_iff.mp (stream.names i (List.mem_of_getElem? old)) y operand)
    rcases faithful.main_registers known named with ⟨u, held, same⟩ | ⟨-, operand⟩
    · obtain ⟨rfl, rfl⟩ := stream.temp_unique here group member held (reg.symm.trans same)
      cases here.symm.trans group
      exact .inr (.inl ⟨by omega, rfl⟩)
    · have small := namesBelow_iff.mp (stream.names i (List.mem_of_getElem? old)) x operand
      have low := (stream.numbers g (List.mem_of_getElem? here) t member).1
      rw [reg] at small
      omega
  · have absent : (Operand.absent .ud).register? = none := rfl
    have only : x = payloadOf u := by
      simpa [Instruction.registers, SpillTemp.spillInstruction, operand_register (real u held), absent] using named
    rw [only] at reg
    obtain ⟨rfl, rfl⟩ := stream.temp_unique here group member held reg.symm
    cases here.symm.trans group
    exact .inr (.inr ⟨by omega, by omega, store, rfl⟩)

/-- A reload writes eight lanes of a temporary that it takes for one vector or more. -/
theorem Stream.reload_partly (stream : Stream k plan out gs) {g : Group} (here : g ∈ gs) {t : SpillTemp}
    (member : t ∈ g.temps) (block : Int) :
    PartlyDefines out (t.reloadInstruction block) t.reg ↔ ¬ (k.simdWidth ≤ 8 ∧ t.size.toNat ≤ 32) := by
  obtain ⟨iv, -, -, operand, bytes⟩ := stream.full g here t member
  have spans : 1 < (payloadOf t).spans ↔ 32 < t.size.toNat := by
    have parts : (payloadOf t).span = ((t.size.toNat / 32 : Nat) : Int) := by
      change (((t.size / 32).toNat : Nat) : Int) = _
      rw [UInt32.toNat_div]
      rfl
    have small : t.size.toNat < 4294967296 := t.size.toNat_lt
    have least : 1 ≤ (payloadOf t).spans ∧ (payloadOf t).spans < 134217728 := by
      unfold RegisterOperand.spans
      rw [parts]
      split <;> omega
    have sum : 4 * 8 * (payloadOf t).spans = t.size.toNat := by
      rw [← bytes]
      change _ = (4 * 8 * (payloadOf t).spans).bmod 18446744073709551616
      rw [Int.bmod_eq_of_le (by omega) (by omega)]
    omega
  have full : out.fullyDefines (t.reloadInstruction block) (payloadOf t) = false ↔
      ¬ (k.simdWidth ≤ 8 ∧ t.size.toNat ≤ 32) := by
    have width : out.widthOf (t.reloadInstruction block) = 8 := rfl
    have kind : out.fullyDefines (t.reloadInstruction block) (payloadOf t) =
        (!decide (1 < (payloadOf t).spans) && decide (k.simdWidth ≤ 8)) := by
      unfold Kernel.fullyDefines
      rw [width, stream.width]
      simp [SpillTemp.reloadInstruction, Instruction.reads, payloadOf]
    rw [kind, ← Bool.not_eq_true, Bool.and_eq_true, Bool.not_eq_true', decide_eq_false_iff_not, spans,
      decide_eq_true_iff, Nat.not_lt, and_comm]
  constructor
  · rintro ⟨d, dst, -, part⟩
    rw [show (t.reloadInstruction block).dst = t.operand from rfl, operand] at dst
    cases dst
    exact full.mp part
  · intro partly
    exact ⟨payloadOf t, operand, rfl, full.mpr partly⟩

/-- No loop around an instruction takes the reload of a temporary for a partial definition. -/
def Undisturbed (k : Kernel) (p : Nat) (t : SpillTemp) : Prop :=
  t.reload = true → ∀ l ∈ k.loops, l.header ≤ p → p ≤ l.stop →
    l.header < p ∧ k.simdWidth ≤ 8 ∧ t.size.toNat ≤ 32

/-- An interval goes nowhere beyond the group of an instruction. -/
def InGroup (gs : List Group) (p : Nat) (iv : Interval) : Prop :=
  (groupStart gs p : Int) ≤ iv.min ∧ iv.max < groupStart gs (p + 1)

theorem Stream.out_loop (stream : Stream k plan out gs) {l : Loop} (member : l ∈ k.loops) :
    ⟨mainAt gs l.header, mainAt gs l.stop⟩ ∈ out.loops := stream.loops.mpr ⟨l, member, rfl⟩

theorem Stream.loop_held (stream : Stream k plan out gs) {l : Loop} (member : l ∈ k.loops) :
    l.header < l.stop ∧ l.stop < gs.length := by
  obtain ⟨i, here, -, -, backward⟩ := mem_loops.mp member
  exact ⟨backward, stream.held here⟩

/-- The label of a loop stands in the group of an instruction only if it is that instruction. -/
theorem header_in_group {p h : Nat} {g : Group} (here : gs[p]? = some g) (held : h < gs.length)
    (low : groupStart gs p ≤ mainAt gs h) (high : mainAt gs h < groupStart gs (p + 1)) : h = p := by
  have small := (List.getElem?_eq_some_iff.mp here).1
  have bounds := mainAt_bounds here
  rcases Nat.lt_trichotomy h p with less | same | more
  · have := (mainAt_le less small).1
    omega
  · exact same
  · have there : gs[h]? = some gs[h] := List.getElem?_eq_getElem held
    have := (mainAt_bounds there).1
    have : groupStart gs (p + 1) ≤ groupStart gs h := groupStart_mono gs more
    omega

/-- A place of whole general registers is as large as what goes into it. -/
theorem slotSize_whole {size : UInt32} (large : 32 ≤ size.toNat) (grains : size.toNat % 32 = 0) :
    slotSize size = size := by
  have small : size.toNat < 4294967296 := size.toNat_lt
  have positive : size ≠ 0 := by
    rintro rfl
    exact absurd large (by decide)
  have wide : 32 ≤ size := by
    rw [UInt32.le_iff_toNat_le]
    exact large
  rw [slotSize, if_neg positive, if_pos wide]
  apply UInt32.toNat_inj.mp
  unfold alignUp
  rw [UInt32.toNat_mul, UInt32.toNat_div, UInt32.toNat_sub, UInt32.toNat_add]
  change ((4294967296 - 1 + (size.toNat + 32) % 4294967296) % 4294967296 / 32 * 32) % 4294967296 = size.toNat
  omega

section
variable (stream : Stream k plan out gs) {p : Nat} {g : Group} {t : SpillTemp} (here : gs[p]? = some g)
  (member : t ∈ g.temps)
include stream here member

theorem Stream.reload_accessed (reload : t.reload = true) :
    ∃ n < g.reloads.length, out.code[groupStart gs p + n]? = some (t.reloadInstruction g.main.block) ∧
      (⟨groupStart gs p + n, t.reloadInstruction g.main.block, payloadOf t⟩ : Access) ∈ accesses out := by
  obtain ⟨n, count, at_⟩ := code_of_reload member reload
  have placed : out.code[groupStart gs p + n]? = some (t.reloadInstruction g.main.block) := by
    rw [stream.code, getElem_groupStart here (by rw [code_length]; omega), at_]
  obtain ⟨iv, -, -, operand, -⟩ := stream.full g (List.mem_of_getElem? here) t member
  exact ⟨n, count, placed, mem_accesses.mpr ⟨placed, mem_registers.mpr (.inl operand)⟩⟩

/-- A loop whose first access of a temporary needs its value goes around a reload that defines it partly. -/
theorem Stream.carries_disturbed {l : Loop} (loop : l ∈ k.loops)
    (carries : out.carries ⟨mainAt gs l.header, mainAt gs l.stop⟩ t.reg = true) : ¬ Undisturbed k p t := by
  intro undisturbed
  obtain ⟨i, old, faithful⟩ := stream.group here
  obtain ⟨backward, held⟩ := stream.loop_held loop
  have small := (List.getElem?_eq_some_iff.mp here).1
  have bounds := mainAt_bounds here
  obtain ⟨q, j, low, high, there, needs, first⟩ := carries_iff.mp carries
  dsimp only at low high first
  rcases stream.touch_cases here member there needs.touches with
    ⟨start, early, reload, rfl⟩ | ⟨rfl, rfl⟩ | ⟨late, stop, store, rfl⟩
  · -- The reload itself: it defines the temporary partly.
    have inside : l.header < p := (mainAt_order (by omega) small).2.mp (by omega)
    have before : p ≤ l.stop := by
      by_contra above
      have := (mainAt_le (Nat.lt_of_not_le above) small).1
      omega
    have partly : PartlyDefines out (t.reloadInstruction g.main.block) t.reg := by
      rcases needs with reads | partly
      · cases reads
      · exact partly
    exact (stream.reload_partly (List.mem_of_getElem? here) member _).mp partly
      (undisturbed reload l loop (by omega) before).2
  · -- The instruction: the reload before it is not in the loop, so the instruction is its label.
    have reload := (faithful.reload_iff member).mpr
      ((stream.needs_main (List.mem_of_getElem? here) (List.mem_of_getElem? old) faithful member).mp needs)
    have header : l.header ≤ p := (mainAt_order (by omega) small).1.mp low
    have stop : p ≤ l.stop := (mainAt_order small held).1.mp high
    have inside := (undisturbed reload l loop header stop).1
    obtain ⟨n, count, placed, access⟩ := stream.reload_accessed here member reload
    have main := mainAt_eq here
    have start := (mainAt_le inside small).1
    exact first _ _ (by omega) (by omega) placed (touches_iff.mpr ⟨payloadOf t, (mem_accesses.mp access).2, rfl⟩)
  · -- The write-back: the instruction before it accesses the temporary.
    have main : out.code[mainAt gs p]? = some g.main := by
      rw [stream.code]
      exact getElem_mainAt here
    have outside : mainAt gs p < mainAt gs l.header := by
      by_contra inside
      refine first _ _ (Nat.le_of_not_lt inside) late main ?_
      obtain ⟨reads, writes⟩ := stream.main_reads (List.mem_of_getElem? here) (List.mem_of_getElem? old) faithful member
      unfold Touches
      rw [reads, writes]
      exact faithful.touches member
    have same : l.header = p := header_in_group here (by omega) (by omega) (by omega)
    rw [same] at outside
    exact Nat.lt_irrefl _ outside

/-- The places of a temporary's accesses. -/
theorem Stream.access_in_group {a : Access} (access : a ∈ accesses out) (named : a.operand.reg = t.reg) :
    groupStart gs p ≤ a.position ∧ a.position < groupStart gs (p + 1) ∧
      (t.reload = false → mainAt gs p ≤ a.position) := by
  obtain ⟨there, operand⟩ := mem_accesses.mp access
  have bounds := mainAt_bounds here
  rcases stream.touch_cases here member there (touches_iff.mpr ⟨_, operand, named⟩) with
    ⟨start, early, reload, -⟩ | ⟨at_, -⟩ | ⟨late, stop, -, -⟩
  · exact ⟨start, by omega, fun none => by rw [reload] at none; cases none⟩
  · omega
  · omega

theorem Stream.temp_accessed : ∃ a ∈ accesses out, a.position = mainAt gs p ∧ a.operand.reg = t.reg := by
  obtain ⟨i, old, faithful⟩ := stream.group here
  have main : out.code[mainAt gs p]? = some g.main := by
    rw [stream.code]
    exact getElem_mainAt here
  have touches : Touches g.main t.reg := by
    obtain ⟨reads, writes⟩ := stream.main_reads (List.mem_of_getElem? here) (List.mem_of_getElem? old) faithful member
    unfold Touches
    rw [reads, writes]
    exact faithful.touches member
  obtain ⟨x, operand, named⟩ := touches_iff.mp touches
  exact ⟨⟨mainAt gs p, g.main, x⟩, mem_accesses.mpr ⟨main, operand⟩, rfl, named⟩

/-- An undisturbed temporary stays in its group. -/
theorem Stream.undisturbed_local {iv : Interval} (other : t.reg ≠ out.stackPointer)
    (short : out.code.length ≤ 2147483648) (found : (Liveness.ofKernel out).intervalOf? t.reg = some iv)
    (undisturbed : Undisturbed k p t) : InGroup gs p iv := by
  have bounds := mainAt_bounds here
  have small := (List.getElem?_eq_some_iff.mp here).1
  have inside : mainAt gs p < out.code.length := by
    obtain ⟨a, access, at_, -⟩ := stream.temp_accessed here member
    rw [← at_]
    exact (List.getElem?_eq_some_iff.mp (mem_accesses.mp access).1).1
  have closed : ClosedRange out out.loops t.reg
      ((if t.reload = true then groupStart gs p else mainAt gs p : Nat) : Int) ((groupStart gs (p + 1) : Int) - 1) := by
    intro l' loop enters
    obtain ⟨l, old, rfl⟩ := stream.loops.mp loop
    obtain ⟨backward, held⟩ := stream.loop_held old
    dsimp only at enters ⊢
    rcases enters with ⟨low, high⟩ | carries
    · exfalso
      have same : l.header = p := header_in_group here (by omega) (by split at low <;> omega) (by omega)
      rw [same] at low backward
      cases reload : t.reload with
      | false =>
        rw [reload] at low
        exact absurd low (by simp)
      | true =>
        have inner := (undisturbed reload l old (by omega) (by omega)).1
        omega
    · exact absurd undisturbed (stream.carries_disturbed here member old carries)
  have within := intervalOf_within found other closed (by split <;> omega) ?_
  · unfold InGroup
    refine ⟨?_, by omega⟩
    have low := within.1
    split at low <;> omega
  · intro a access named
    obtain ⟨low, high, late⟩ := stream.access_in_group here member access named
    refine ⟨?_, by omega⟩
    cases reload : t.reload with
    | false =>
      have := late reload
      simpa using this
    | true => simpa using low

/-- A disturbed temporary lives all over a loop. -/
theorem Stream.local_undisturbed {iv : Interval}
    (found : (Liveness.ofKernel out).intervalOf? t.reg = some iv) (inside : InGroup gs p iv) : Undisturbed k p t := by
  intro reload l old header stop
  obtain ⟨covers, closed⟩ := intervalOf_spec found
  obtain ⟨backward, held⟩ := stream.loop_held old
  obtain ⟨n, early, placed, access⟩ := stream.reload_accessed here member reload
  obtain ⟨a, accessed, at_, named⟩ := stream.temp_accessed here member
  have first := (covers.within _ access rfl).1
  have main := (covers.within a accessed named).2
  have main_eq := mainAt_eq here
  have small := (List.getElem?_eq_some_iff.mp here).1
  rw [at_] at main
  dsimp only at first
  -- A loop the temporary enters is longer than the group.
  have outside : ¬ Enters out iv ⟨mainAt gs l.header, mainAt gs l.stop⟩ := by
    intro enters
    obtain ⟨low, high⟩ := closed _ (stream.out_loop old) enters
    dsimp only at low high
    obtain ⟨start, finish⟩ := inside
    rcases Nat.lt_or_eq_of_le stop with more | rfl
    · have there : gs[l.stop]? = some gs[l.stop] := List.getElem?_eq_getElem held
      have := (mainAt_bounds there).1
      have : groupStart gs (p + 1) ≤ groupStart gs l.stop := groupStart_mono gs more
      omega
    · have := (mainAt_le backward held).1
      omega
  have inner : l.header < p := by
    by_contra same
    have equal : l.header = p := by omega
    refine outside (.inl ?_)
    dsimp only
    rw [equal]
    omega
  refine ⟨inner, ?_⟩
  by_contra partly
  have before := (mainAt_le inner small).1
  have after : mainAt gs p ≤ mainAt gs l.stop := (mainAt_order small held).1.mpr stop
  refine outside (.inr ?_)
  rw [covers.reg]
  refine carries_of_needs (q := groupStart gs p + n) (by dsimp only; omega) (by dsimp only; omega) placed
    (touches_iff.mpr ⟨payloadOf t, (mem_accesses.mp access).2, rfl⟩) ?_
  intro m j low high there touches
  rcases stream.touch_cases here member there touches with ⟨-, -, -, rfl⟩ | ⟨late, -⟩ | ⟨late, -⟩
  · exact .inr ((stream.reload_partly (List.mem_of_getElem? here) member _).mpr partly)
  · omega
  · omega

theorem Stream.message_accessed : ∃ a ∈ accesses out, a.operand = payloadOf t ∧ out.widthOf a.instruction = 8 := by
  obtain ⟨i, -, faithful⟩ := stream.group here
  obtain ⟨iv, -, -, operand, -⟩ := stream.full g (List.mem_of_getElem? here) t member
  rcases (faithful.used t member).2 with reload | store
  · obtain ⟨n, -, -, access⟩ := stream.reload_accessed here member reload
    exact ⟨_, access, rfl, rfl⟩
  · have held : t.spillInstruction g.main.block ∈ out.code := by
      rw [stream.code]
      refine List.mem_flatMap.mpr ⟨g, List.mem_of_getElem? here, List.mem_append_right _ ?_⟩
      exact List.mem_map_of_mem (List.mem_filter.mpr ⟨member, store⟩)
    obtain ⟨q, there⟩ := List.mem_iff_getElem?.mp held
    exact ⟨⟨q, _, payloadOf t⟩, mem_accesses.mpr ⟨there, mem_registers.mpr (.inr ⟨_, List.mem_cons_self, operand⟩)⟩,
      rfl, rfl⟩

/-- Every access of a temporary needs at most its place, and its message all of it. -/
theorem Stream.temp_slot (lives : plan.liveness = Liveness.ofKernel k)
    (sizes : ∀ r iv, plan.liveness.intervalOf? r = some iv → iv.size.toNat + 32 < 4294967296) {iv : Interval}
    (found : (Liveness.ofKernel out).intervalOf? t.reg = some iv) : iv.slot = t.size := by
  obtain ⟨i, old, faithful⟩ := stream.group here
  obtain ⟨covers, -⟩ := intervalOf_spec found
  obtain ⟨ownerIv, owner, size, operand, bytes⟩ := stream.full g (List.mem_of_getElem? here) t member
  have ownerSmall := size_le_slotSize (sizes _ _ owner)
  have message : (payloadOf t).storage 8 = t.size := by
    have small : t.size.toNat < 4294967296 := t.size.toNat_lt
    rw [RegisterOperand.storage, bytes]
    apply UInt32.toNat_inj.mp
    change (UInt32.ofNat ((t.size.toNat : Int) % 4294967296).toNat).toNat = _
    rw [UInt32.toNat_ofNat']
    omega
  have known : ∀ x ∈ i.registers, standIn g.temps x.reg ≠ .none := fun x named =>
    stream.real_standIn (List.mem_of_getElem? here)
      (namesBelow_iff.mp (stream.names i (List.mem_of_getElem? old)) x named)
  have width : out.widthOf g.main = k.widthOf i := by
    rw [Kernel.widthOf, Kernel.widthOf, stream.width, faithful.main]
    rfl
  have most : ∀ a ∈ accesses out, a.operand.reg = t.reg → a.operand.storage (out.widthOf a.instruction) ≤ t.size := by
    intro a access named
    obtain ⟨there, inside⟩ := mem_accesses.mp access
    rcases stream.touch_cases here member there (touches_iff.mpr ⟨_, inside, named⟩) with
      ⟨-, -, -, same⟩ | ⟨-, same⟩ | ⟨-, -, -, same⟩
    all_goals rw [same] at inside ⊢
    · have only : a.operand = payloadOf t := by
        simpa [Instruction.registers, SpillTemp.reloadInstruction, operand] using inside
      rw [only]
      exact UInt32.le_of_eq message
    · rw [faithful.main] at inside
      obtain ⟨x, named', equal⟩ := registers_renamed known _ inside
      have below := namesBelow_iff.mp (stream.names i (List.mem_of_getElem? old)) x named'
      rw [equal] at named
      have owned := (stream.standIn_iff (List.mem_of_getElem? here) faithful member below).mp named
      rw [lives] at owner
      have least := (intervalOf_spec owner).1.size ⟨p, i, x⟩ (mem_accesses.mpr ⟨old, named'⟩) owned
      rw [width, equal]
      change x.storage (k.widthOf i) ≤ t.size
      rw [UInt32.le_iff_toNat_le] at least ⊢
      dsimp only at least
      omega
    · have absent : (Operand.absent .ud).register? = none := rfl
      have only : a.operand = payloadOf t := by
        simpa [Instruction.registers, SpillTemp.spillInstruction, operand, absent] using inside
      rw [only]
      exact UInt32.le_of_eq message
  obtain ⟨a, access, payload, eight⟩ := stream.message_accessed here member
  obtain ⟨b, access', named, attained⟩ := covers.attained
  have least := covers.size a access (by rw [payload]; rfl)
  rw [payload, eight, message, UInt32.le_iff_toNat_le] at least
  have greatest := most b access' named
  rw [← attained, UInt32.le_iff_toNat_le] at greatest
  have whole : iv.size = t.size := UInt32.toNat_inj.mp (Nat.le_antisymm greatest least)
  rw [Interval.slot, whole]
  refine slotSize_whole (by omega) ?_
  by_cases large : 32 ≤ (slotSize ownerIv.size).toNat
  · have grains := slotSize_grains large
    omega
  · omega

end

end

end GpuCodegen.SpillGroups
