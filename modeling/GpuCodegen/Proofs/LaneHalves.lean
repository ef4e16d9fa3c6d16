import GpuCodegen.Proofs.Footprints

/-! One instruction of sixteen lanes as two of eight. The first half writes before the second reads, so together
they are the whole as long as nothing the upper lanes read lies where the lower lanes write. What the lanes make of
the values they read does not matter, and the machine's own operations are among what they may make. -/

namespace GpuCodegen.SplitLanes
open Native Footprints

/-- A machine with another flag. -/
def withFlag (m : Machine) (flag : UInt32) : Machine := { m with flag := flag }

/-- Executes an instruction whose lanes make `f` of the values they read. A comparison sets flag bits besides, and a
selection takes one of its sources. -/
def execute (f : List UInt64 → UInt64) (m : Machine) (d : Decoded) : Machine :=
  match d.opcode with
  | .cmp => withFlag (m.map d f) (m.compare d).flag
  | .sel => m.select d
  | _ => m.map d f

theorem execute_compare {d : Decoded} (f : List UInt64 → UInt64) (m : Machine) (compares : d.opcode = .cmp) :
    execute f m d = withFlag (m.map d f) (m.compare d).flag := by
  rw [execute, compares]

theorem execute_select {d : Decoded} (f : List UInt64 → UInt64) (m : Machine) (selects : d.opcode = .sel) :
    execute f m d = m.select d := by
  rw [execute, selects]

theorem execute_map {d : Decoded} (f : List UInt64 → UInt64) (m : Machine) (compares : d.opcode ≠ .cmp)
    (selects : d.opcode ≠ .sel) : execute f m d = m.map d f := by
  unfold execute
  split
  · exact absurd ‹_› compares
  · exact absurd ‹_› selects
  · rfl

/-- Executes words in order. There is no result if one of them has no decoded form. -/
def executeAll (f : List UInt64 → UInt64) (l : Layout) (m : Machine) (ws : List Word) : Option Machine :=
  ws.foldlM (fun m w => (l.decode w).toOption.map (execute f m)) m

/-- Arithmetic of the machine is an execution. -/
theorem step_execute (m : Machine) {d : Decoded} {op : UInt64 → UInt64 → UInt64}
    (operation : Machine.arithmetic? d = some op) :
    m.step d = some (execute (fun values => op (values.getD 0 0) (values.getD 1 0)) m d) := by
  unfold Machine.step execute
  split <;> simp_all [Machine.arithmetic?]

theorem step_compare (m : Machine) {d : Decoded} (compares : d.opcode = .cmp) : m.step d = some (m.compare d) := by
  rw [Machine.step, compares]

theorem step_select (m : Machine) {d : Decoded} (selects : d.opcode = .sel) : m.step d = some (m.select d) := by
  rw [Machine.step, selects]

/-- Other operations are passed over or have no result. -/
theorem step_other (m : Machine) {d : Decoded} (operation : Machine.arithmetic? d = none) (compares : d.opcode ≠ .cmp)
    (selects : d.opcode ≠ .sel) :
    m.step d = if d.opcode ∈ [Native.Opcode.send, .wait, .nop, .jmpi] then some m else none := by
  unfold Machine.step
  split <;> simp_all

/-! ## Writes -/

section
variable {d d₀ d₁ : Decoded}

theorem put_flag (m : Machine) (r : Register) (lane : Nat) (value : UInt64) : (m.put r lane value).flag = m.flag := by
  unfold Machine.put
  dsimp only
  split
  · rfl
  · split <;> rfl

theorem write_flag (m : Machine) (d : Decoded) (chosen : Nat → Bool) (result : Nat → UInt64) :
    (m.write d chosen result).flag = m.flag := by
  unfold Machine.write
  induction d.lanes.filter chosen generalizing m with
  | nil => rfl
  | cons lane rest ih => rw [List.foldl_cons, ih, put_flag]

/-- The destinations of the halves are those of the lower and of the upper lanes. -/
def PutsHalves (r r₀ r₁ : Register) : Prop :=
  ∀ (m : Machine) (lane : Nat) (value : UInt64), lane < 8 →
    m.put r₀ lane value = m.put r lane value ∧ m.put r₁ lane value = m.put r (8 + lane) value

/-- The lanes of two halves, one after the other. -/
theorem range_halves : List.range 16 = List.range 8 ++ (List.range 8).map (8 + ·) := by decide

theorem write_halves {chosen chosen₀ chosen₁ : Nat → Bool} {result result₀ result₁ : Nat → UInt64}
    (whole : d.execSize = 16) (lower : d₀.execSize = 8) (upper : d₁.execSize = 8)
    (puts : PutsHalves d.dst d₀.dst d₁.dst)
    (first : ∀ lane < 8, chosen₀ lane = chosen lane ∧ result₀ lane = result lane)
    (second : ∀ lane < 8, chosen₁ lane = chosen (8 + lane) ∧ result₁ lane = result (8 + lane)) (m : Machine) :
    (m.write d₀ chosen₀ result₀).write d₁ chosen₁ result₁ = m.write d chosen result := by
  unfold Machine.write Decoded.lanes
  rw [whole, lower, upper]
  change _ = List.foldl _ m ((List.range 16).filter chosen)
  rw [range_halves, List.filter_append, List.foldl_append, List.filter_map, List.foldl_map]
  have left : (List.range 8).filter chosen₀ = (List.range 8).filter chosen :=
    List.filter_congr fun lane member => (first lane (List.mem_range.mp member)).1
  have right : (List.range 8).filter chosen₁ = (List.range 8).filter (chosen ∘ (8 + ·)) :=
    List.filter_congr fun lane member => (second lane (List.mem_range.mp member)).1
  have small {p : Nat → Bool} {lane : Nat} (member : lane ∈ (List.range 8).filter p) : lane < 8 :=
    List.mem_range.mp (List.mem_filter.mp member).1
  change List.foldl _ (List.foldl _ m ((List.range 8).filter chosen₀)) ((List.range 8).filter chosen₁) = _
  rw [left, right]
  have lowerLanes : ((List.range 8).filter chosen).foldl (fun acc lane => acc.put d₀.dst lane (result₀ lane)) m =
      ((List.range 8).filter chosen).foldl (fun acc lane => acc.put d.dst lane (result lane)) m :=
    List.foldl_ext _ _ m fun acc lane member => by
      rw [(first lane (small member)).2, (puts acc lane _ (small member)).1]
  rw [lowerLanes]
  exact List.foldl_ext _ _ _ fun acc lane member => by
    rw [(second lane (small member)).2, (puts acc lane _ (small member)).2]

/-! ## Flags -/

/-- A flag with one bit set or cleared. -/
def withBit (flag : UInt32) (bit : Nat) (on : Bool) : UInt32 :=
  if on then flag ||| UInt32.ofNat (1 <<< bit) else flag &&& ~~~UInt32.ofNat (1 <<< bit)

theorem testBit_withBit (flag : UInt32) {bit other : Nat} (on : Bool) (differ : other ≠ bit) :
    (withBit flag bit on).toNat.testBit other = flag.toNat.testBit other := by
  have clear : (UInt32.ofNat (1 <<< bit)).toNat.testBit other = false := by
    rw [UInt32.toNat_ofNat', Nat.testBit_mod_two_pow, Nat.one_shiftLeft, Nat.testBit_two_pow_of_ne differ.symm,
      Bool.and_false]
  by_cases inside : other < 32
  · unfold withBit
    split
    · rw [UInt32.toNat_or, Nat.testBit_or, clear, Bool.or_false]
    · rw [UInt32.toNat_and, Nat.testBit_and, UInt32.toNat_not]
      have complement : UInt32.size - 1 - (UInt32.ofNat (1 <<< bit)).toNat =
          2 ^ 32 - ((UInt32.ofNat (1 <<< bit)).toNat + 1) := by
        rw [show UInt32.size = 2 ^ 32 from rfl]
        omega
      rw [complement, Nat.testBit_two_pow_sub_succ (UInt32.ofNat (1 <<< bit)).toNat_lt, clear]
      simp [inside]
  · have beyond (v : UInt32) : v.toNat.testBit other = false :=
      Nat.testBit_lt_two_pow (Nat.lt_of_lt_of_le v.toNat_lt (Nat.pow_le_pow_right (by decide) (by omega)))
    rw [beyond, beyond]

/-- The outcome of a comparison in a lane. -/
def outcome (m : Machine) (d : Decoded) (lane : Nat) : Bool :=
  Machine.holds d.condition ((m.inputs d lane).getD 0 0) ((m.inputs d lane).getD 1 0)

theorem compare_flag (m : Machine) (d : Decoded) :
    (m.compare d).flag =
      d.lanes.foldl (fun flag lane => withBit flag (8 * d.quarter.toNat + lane) (outcome m d lane)) m.flag := by
  have along (lanes : List Nat) (n : Machine) :
      (lanes.foldl (fun acc lane => acc.setFlagBit d lane (outcome m d lane)) n).flag =
        lanes.foldl (fun flag lane => withBit flag (8 * d.quarter.toNat + lane) (outcome m d lane)) n.flag := by
    induction lanes generalizing n with
    | nil => rfl
    | cons lane rest ih => exact ih _
  exact along _ _

/-- A comparison changes nothing but the flag. -/
theorem compare_withFlag (m : Machine) (d : Decoded) : m.compare d = withFlag m (m.compare d).flag := by
  have along (lanes : List Nat) (n : Machine) :
      lanes.foldl (fun acc lane => acc.setFlagBit d lane (outcome m d lane)) n =
        withFlag n (lanes.foldl (fun acc lane => acc.setFlagBit d lane (outcome m d lane)) n).flag := by
    induction lanes generalizing n with
    | nil => rfl
    | cons lane rest ih => exact ih _
  exact along _ _

theorem testBit_compare (m : Machine) (d : Decoded) {bit : Nat}
    (outside : ∀ lane < d.execSize.toNat, bit ≠ 8 * d.quarter.toNat + lane) :
    (m.compare d).flag.toNat.testBit bit = m.flag.toNat.testBit bit := by
  rw [compare_flag]
  have along (lanes : List Nat) (apart : ∀ lane ∈ lanes, bit ≠ 8 * d.quarter.toNat + lane) (flag : UInt32) :
      (lanes.foldl (fun flag lane => withBit flag (8 * d.quarter.toNat + lane) (outcome m d lane)) flag).toNat.testBit
        bit = flag.toNat.testBit bit := by
    induction lanes generalizing flag with
    | nil => rfl
    | cons lane rest ih =>
      rw [List.foldl_cons, ih (fun l member => apart l (List.mem_cons_of_mem _ member)),
        testBit_withBit _ _ (apart lane List.mem_cons_self)]
  exact along _ (fun lane member => outside lane (List.mem_range.mp member)) _

/-! ## Halves -/

/-- Two instructions that do what the lower and the upper lanes of a third one do. -/
structure Halves (d d₀ d₁ : Decoded) : Prop where
  whole : d.execSize = 16 ∧ d.quarter = 0
  lower : d₀.execSize = 8 ∧ d₀.quarter = 0
  upper : d₁.execSize = 8 ∧ d₁.quarter = 1
  opcode : d₀.opcode = d.opcode ∧ d₁.opcode = d.opcode
  predicate : d₀.predicate = d.predicate ∧ d₁.predicate = d.predicate
  inverse : d₀.predInvert = d.predInvert ∧ d₁.predInvert = d.predInvert
  condition : d₀.condition = d.condition ∧ d₁.condition = d.condition
  type : d₀.dst.type = d.dst.type ∧ d₁.dst.type = d.dst.type
  firstType : d₀.firstType = d.firstType ∧ d₁.firstType = d.firstType
  puts : PutsHalves d.dst d₀.dst d₁.dst
  reads : ∀ (m : Machine) (lane : Nat), lane < 8 →
    m.inputs d₀ lane = m.inputs d lane ∧ m.inputs d₁ lane = m.inputs d (8 + lane)

/-- The upper lanes read nothing where the lower half writes. -/
def Undisturbed (d d₀ : Decoded) : Prop :=
  ∀ m m' : Machine,
    (∀ b, ¬ Lanes d₀.dst (strideElems d₀.dst.region.horizontal).toNat d₀.execSize.toNat b →
      m'.registers b = m.registers b) →
    ∀ lane < 8, m'.inputs d (8 + lane) = m.inputs d (8 + lane)

theorem Halves.enabled_lower (halves : Halves d d₀ d₁) (m : Machine) (lane : Nat) :
    m.enabled d₀ lane = m.enabled d lane := by
  simp only [Machine.enabled, Machine.flagBit, halves.predicate, halves.inverse, halves.lower, halves.whole]

theorem Halves.enabled_upper (halves : Halves d d₀ d₁) {m m' : Machine} {lane : Nat}
    (flag : m'.flag.toNat.testBit (8 + lane) = m.flag.toNat.testBit (8 + lane)) :
    m'.enabled d₁ lane = m.enabled d (8 + lane) := by
  have one : 8 * (1 : UInt32).toNat = 8 := rfl
  have zero : 8 * (0 : UInt32).toNat = 0 := rfl
  simp only [Machine.enabled, Machine.flagBit, halves.predicate, halves.inverse, halves.upper, halves.whole, one, zero,
    Nat.zero_add, flag]

/-- After a store of the first half the second reads what the whole instruction reads in its upper lanes. -/
theorem Halves.second_inputs (halves : Halves d d₀ d₁) (undisturbed : Undisturbed d d₀) {m m' : Machine}
    {chosen : Nat → Bool} {result : Nat → UInt64} (stored : m'.registers = (m.write d₀ chosen result).registers)
    {lane : Nat} (inside : lane < 8) : m'.inputs d₁ lane = m.inputs d (8 + lane) := by
  rw [(halves.reads m' lane inside).2]
  refine undisturbed m m' (fun b outside => ?_) lane inside
  rw [stored, write_outside outside]

theorem write_withFlag (m : Machine) (flag : UInt32) (d : Decoded) (chosen : Nat → Bool) (result : Nat → UInt64) :
    (withFlag m flag).write d chosen result = withFlag (m.write d chosen result) flag := by
  unfold Machine.write
  induction d.lanes.filter chosen generalizing m with
  | nil => rfl
  | cons lane rest ih =>
    rw [List.foldl_cons, List.foldl_cons, ← ih]
    congr 1
    unfold withFlag Machine.put
    dsimp only
    split
    · rfl
    · split <;> rfl

/-- Both halves store what the whole stores, also when the first changed flag bits of its own lanes. -/
theorem Halves.map (halves : Halves d d₀ d₁) (undisturbed : Undisturbed d d₀) (f : List UInt64 → UInt64) (m : Machine)
    {flag : UInt32} (kept : ∀ lane < 8, flag.toNat.testBit (8 + lane) = m.flag.toNat.testBit (8 + lane)) :
    (withFlag (m.map d₀ f) flag).map d₁ f = withFlag (m.map d f) flag := by
  change (withFlag (m.map d₀ f) flag).write d₁ _ _ = _
  rw [write_withFlag]
  refine congrArg (withFlag · flag) (write_halves halves.whole.1 halves.lower.1 halves.upper.1 halves.puts
    (fun lane inside => ?_) (fun lane inside => ?_) m)
  · rw [halves.enabled_lower, (halves.reads m lane inside).1]
    exact ⟨rfl, rfl⟩
  · have reads : (withFlag (m.map d₀ f) flag).inputs d₁ lane = m.inputs d (8 + lane) :=
      halves.second_inputs undisturbed rfl inside
    rw [halves.enabled_upper (m := m) (kept lane inside), reads]
    exact ⟨rfl, rfl⟩

theorem Halves.select (halves : Halves d d₀ d₁) (undisturbed : Undisturbed d d₀) (m : Machine) :
    (m.select d₀).select d₁ = m.select d := by
  refine write_halves halves.whole.1 halves.lower.1 halves.upper.1 halves.puts (fun lane inside => ?_)
    (fun lane inside => ?_) m
  · rw [halves.enabled_lower, (halves.reads m lane inside).1]
    exact ⟨rfl, rfl⟩
  · have flag : (m.select d₀).flag = m.flag := write_flag m d₀ _ _
    have reads : (m.select d₀).inputs d₁ lane = m.inputs d (8 + lane) := halves.second_inputs undisturbed rfl inside
    rw [halves.enabled_upper (m := m) (by rw [flag]), reads]
    exact ⟨rfl, rfl⟩

/-- Both halves set the flag bits the whole sets. -/
theorem Halves.compare (halves : Halves d d₀ d₁) {m m' : Machine} (flag : m'.flag = (m.compare d₀).flag)
    (reads : ∀ lane < 8, m'.inputs d₁ lane = m.inputs d (8 + lane)) : (m'.compare d₁).flag = (m.compare d).flag := by
  have one : 8 * (1 : UInt32).toNat = 8 := rfl
  have zero : 8 * (0 : UInt32).toNat = 0 := rfl
  have lower : d₀.lanes = List.range 8 := by rw [Decoded.lanes, halves.lower.1]; rfl
  have upper : d₁.lanes = List.range 8 := by rw [Decoded.lanes, halves.upper.1]; rfl
  have whole : d.lanes = List.range 8 ++ (List.range 8).map (8 + ·) := by
    rw [Decoded.lanes, halves.whole.1, ← range_halves]
    rfl
  rw [compare_flag, compare_flag, flag, compare_flag, whole, List.foldl_append, List.foldl_map, lower, upper,
    halves.lower.2, halves.upper.2, halves.whole.2, one, zero]
  have first : (List.range 8).foldl (fun flag lane => withBit flag (0 + lane) (outcome m d₀ lane)) m.flag =
      (List.range 8).foldl (fun flag lane => withBit flag (0 + lane) (outcome m d lane)) m.flag :=
    List.foldl_ext _ _ _ fun flag lane member => by
      rw [outcome, outcome, (halves.reads m lane (List.mem_range.mp member)).1, halves.condition.1]
  rw [first]
  exact List.foldl_ext _ _ _ fun flag lane member => by
    rw [outcome, outcome, reads lane (List.mem_range.mp member), halves.condition.2, Nat.zero_add]

/-- Executing the halves in order is executing the whole. -/
theorem Halves.execute (halves : Halves d d₀ d₁) (undisturbed : Undisturbed d d₀) (f : List UInt64 → UInt64)
    (m : Machine) : execute f (execute f m d₀) d₁ = execute f m d := by
  obtain ⟨lower, upper⟩ := halves.opcode
  by_cases compares : d.opcode = .cmp
  · have kept (lane : Nat) (inside : lane < 8) :
        (m.compare d₀).flag.toNat.testBit (8 + lane) = m.flag.toNat.testBit (8 + lane) := by
      refine testBit_compare m d₀ fun l small => ?_
      rw [halves.lower.1] at small
      rw [halves.lower.2]
      change l < 8 at small
      change 8 + lane ≠ 0 + l
      omega
    have flags : ((withFlag (m.map d₀ f) (m.compare d₀).flag).compare d₁).flag = (m.compare d).flag :=
      halves.compare rfl fun lane inside => halves.second_inputs undisturbed rfl inside
    rw [execute_compare f m (lower.trans compares), execute_compare f _ (upper.trans compares),
      execute_compare f m compares, flags, halves.map undisturbed f m kept]
    rfl
  · by_cases selects : d.opcode = .sel
    · rw [execute_select f m (lower.trans selects), execute_select f _ (upper.trans selects),
        execute_select f m selects, halves.select undisturbed]
    · rw [execute_map f m (lower ▸ compares) (lower ▸ selects), execute_map f _ (upper ▸ compares) (upper ▸ selects),
        execute_map f m compares selects]
      have flag (d : Decoded) : (m.map d f).flag = m.flag := write_flag m d _ _
      have kept (lane : Nat) (_ : lane < 8) :
          (m.map d₀ f).flag.toNat.testBit (8 + lane) = m.flag.toNat.testBit (8 + lane) :=
        congrArg (fun flag : UInt32 => flag.toNat.testBit (8 + lane)) (flag d₀)
      calc (m.map d₀ f).map d₁ f = withFlag (m.map d f) (m.map d₀ f).flag := halves.map undisturbed f m kept
        _ = m.map d f := by rw [flag d₀, ← flag d]; rfl

/-- The halves compute what the whole computes from the values of a lane. -/
theorem Halves.arithmetic (halves : Halves d d₀ d₁) :
    Machine.arithmetic? d₀ = Machine.arithmetic? d ∧ Machine.arithmetic? d₁ = Machine.arithmetic? d := by
  simp only [Machine.arithmetic?, Decoded.shiftMask, halves.opcode, halves.type, halves.firstType, and_self]

/-- Two steps of the machine, one for each half, are its step for the whole. -/
theorem Halves.step (halves : Halves d d₀ d₁) (undisturbed : Undisturbed d d₀) (m : Machine) :
    (m.step d₀).bind (fun m => m.step d₁) = m.step d := by
  obtain ⟨lower, upper⟩ := halves.opcode
  obtain ⟨operation, operation'⟩ := halves.arithmetic
  by_cases compares : d.opcode = .cmp
  · have stored : (m.compare d₀).registers = (m.write d₀ (fun _ => false) fun _ => 0).registers := by
      rw [compare_registers, Machine.write, List.filter_false, List.foldl_nil]
    have flag : ((m.compare d₀).compare d₁).flag = (m.compare d).flag :=
      halves.compare rfl fun lane inside => halves.second_inputs undisturbed stored inside
    rw [step_compare m (lower.trans compares), Option.bind_some, step_compare _ (upper.trans compares),
      step_compare m compares, compare_withFlag _ d₁, flag, compare_withFlag m d₀, compare_withFlag m d]
    rfl
  by_cases selects : d.opcode = .sel
  · rw [step_select m (lower.trans selects), Option.bind_some, step_select _ (upper.trans selects),
      step_select m selects, halves.select undisturbed]
  cases known : Machine.arithmetic? d with
  | some op =>
    rw [step_execute m (operation.trans known), Option.bind_some, step_execute _ (operation'.trans known),
      step_execute m known, halves.execute undisturbed]
  | none =>
    have first : m.step d₀ = m.step d := by
      rw [step_other m (operation.trans known) (lower ▸ compares) (lower ▸ selects),
        step_other m known compares selects, lower]
    have second (m : Machine) : m.step d₁ = m.step d := by
      rw [step_other m (operation'.trans known) (upper ▸ compares) (upper ▸ selects),
        step_other m known compares selects, upper]
    simp only [first, second, step_other _ known compares selects]
    split_ifs <;> rfl

end

end GpuCodegen.SplitLanes
