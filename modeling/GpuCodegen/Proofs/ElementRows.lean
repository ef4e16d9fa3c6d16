import GpuCodegen.Proofs.Footprints
import GpuCodegen.Proofs.QwordLanes

/-! Rows of elements of any size. A move or a two-source operation writes what it computes to the elements that lie
side by side from a byte on, one for each lane it works on, and leaves the bytes around them alone. -/

namespace GpuCodegen.Lanes
open Native Generation WordRoundTrip Outcome
open Footprints (Tame)

/-! ## Writing rows -/

/-- What is left of a machine when values were written to a row: the values in the lanes that are on, in as many bits
as an element has, what was there in the others, and nothing new around them. -/
structure Wrote (m m' : Machine) (first size lanes : Nat) (on : Nat → Bool) (value : Nat → UInt64) : Prop where
  flag : m'.flag = m.flag
  address : m'.address = m.address
  element : ∀ lane < lanes, (m'.registers.load (first + lane * size) size).toNat =
    if on lane then (value lane).toNat % 2 ^ (8 * size) else (m.registers.load (first + lane * size) size).toNat
  around : ∀ b, b < first ∨ first + lanes * size ≤ b → m'.registers b = m.registers b

/-- A destination whose lanes lie side by side from a byte on. -/
structure Target (r : Register) (first size lanes : Nat) : Prop where
  tame : Tame r
  short : size ≤ 8
  put : ∀ lane < lanes, ∀ (m : Machine) (value : UInt64), m.put (readDestination r) lane value =
    { m with registers := m.registers.store (first + lane * size) size value }

/-- Storing values lane by lane. -/
theorem Target.stores {r : Register} {first size lanes : Nat} (target : Target r first size lanes) (on : Nat → Bool)
    (value : Nat → UInt64) (m : Machine) :
    Wrote m (((List.range lanes).filter on).foldl (fun acc lane => acc.put (readDestination r) lane (value lane)) m)
      first size lanes on value := by
  have along (n : Nat) (few : n ≤ lanes) : Wrote m (((List.range n).filter on).foldl
      (fun acc lane => acc.put (readDestination r) lane (value lane)) m) first size n on value := by
    induction n with
    | zero => exact ⟨rfl, rfl, nofun, fun _ _ => rfl⟩
    | succ n ih =>
      obtain ⟨flag, kept, element, around⟩ := ih (by omega)
      rw [List.range_succ, List.filter_append, List.foldl_append]
      generalize ((List.range n).filter on).foldl
        (fun acc lane => acc.put (readDestination r) lane (value lane)) m = t at flag kept element around
      have room : (n + 1) * size = n * size + size := Nat.succ_mul n size
      have before {lane : Nat} (earlier : lane < n) : lane * size + size ≤ n * size := by
        rw [← Nat.succ_mul]
        exact Nat.mul_le_mul_right _ earlier
      by_cases here : on n
      · have single : [n].filter on = [n] := by simp [here]
        rw [single, List.foldl_cons, List.foldl_nil, target.put n few t]
        refine ⟨flag, kept, fun lane inside => ?_, fun b outside => ?_⟩
        · rcases Nat.lt_succ_iff_lt_or_eq.mp inside with earlier | rfl
          · have apart := before earlier
            rw [← element lane earlier]
            exact congrArg UInt64.toNat (Memory.load_store_of_apart _ _ (by omega))
          · rw [if_pos here]
            exact Memory.toNat_load_store _ _ target.short _
        · rw [← around b (by omega)]
          exact Memory.store_outside _ _ (by omega)
      · have none : [n].filter on = [] := by simp [here]
        rw [none, List.foldl_nil]
        refine ⟨flag, kept, fun lane inside => ?_, fun b outside => around b (by omega)⟩
        rcases Nat.lt_succ_iff_lt_or_eq.mp inside with earlier | rfl
        · exact element lane earlier
        · rw [if_neg here]
          refine congrArg UInt64.toNat (Memory.load_congr fun b above below => around b (.inr ?_))
          omega
  exact along lanes (Nat.le_refl _)

/-! ## Words -/

section
variable {g : Generation} {s : State} {dst src src0 src1 : Register} {first size lanes : Nat} {ws : List Word}
  {value value0 value1 : Machine → Nat → UInt64}

/-- Words that no fixup touches and that write a row, lane by lane. -/
def Writes (g : Generation) (ws : List Word) (first size lanes : Nat) (on : UInt32 → Nat → Bool)
    (value : Machine → Nat → UInt64) : Prop :=
  (∀ w ∈ ws, StraightLine.Steady g w) ∧
    ∀ m : Machine, ∃ m', m.run g.layout ws = some m' ∧ Wrote m m' first size lanes (on m.flag) (value m)

theorem decoded_writes {w : Word} {op : Native.Opcode} {sources : List Register} {f : UInt64 → UInt64 → UInt64}
    (decodes : g.layout.decode w = .ok { readHeader s op with dst := readDestination dst, sources := sources })
    (operation : Machine.arithmetic? { readHeader s op with dst := readDestination dst, sources := sources } = some f)
    (plain : op.isThreeSource = false ∧ op ≠ .send) (target : Target dst first size lanes)
    (width : s.execWidth.toNat = lanes)
    (computes : ∀ (m : Machine) (lane : Nat), lane < lanes →
      f ((sources.map fun r => m.source r lane).getD 0 0) ((sources.map fun r => m.source r lane).getD 1 0) =
        value m lane) : Writes g [w] first size lanes (lets s) value := by
  refine ⟨List.forall_mem_singleton.mpr ⟨_, decodes, plain.1, fun send => absurd send plain.2⟩, fun m => ?_⟩
  have ran := decoded_run decodes operation m
  generalize decoded : ({ readHeader s op with dst := readDestination dst, sources := sources } : Decoded) = d at ran
  have on : m.enabled d = lets s m.flag := by
    funext lane
    rw [← decoded]
    rfl
  have works : d.lanes = List.range lanes := by
    rw [← decoded, ← width]
    rfl
  have row : d.dst = readDestination dst := by rw [← decoded]
  have wrote := target.stores (lets s m.flag)
    (fun lane => f ((m.inputs d lane).getD 0 0) ((m.inputs d lane).getD 1 0)) m
  refine ⟨_, ran, ?_⟩
  rw [Machine.map, Machine.write, on, works, row]
  refine ⟨wrote.flag, wrote.address, fun lane inside => ?_, wrote.around⟩
  rw [wrote.element lane inside, ← computes m lane inside]
  simp only [Machine.inputs, ← decoded]

theorem mov_writes (state : StateFits s) (target : Target dst first size lanes) (width : s.execWidth.toNat = lanes)
    (reads : Reads s src lanes value) (made : g.assemble s (.mov dst src) = .ok ws) :
    Writes g ws first size lanes (lets s) value := by
  obtain ⟨w, built, rfl⟩ := map_ok.mp made
  have decodes := unaryWord_decodes state (by decide) rfl rfl (target.tame _) (reads.fits _) built
  exact decoded_writes decodes rfl ⟨rfl, nofun⟩ target width fun m lane inside => reads.value m lane inside

/-- Operations whose result does not depend on the types of their operands. -/
theorem binary_writes {op : BinaryOp} {f : UInt64 → UInt64 → UInt64} (state : StateFits s)
    (kind : ∀ d : Decoded, d.opcode = op.opcode → Machine.arithmetic? d = some f) (target : Target dst first size lanes)
    (width : s.execWidth.toNat = lanes) (reads0 : Reads s src0 lanes value0) (reads1 : Reads s src1 lanes value1)
    (made : g.assemble s (.binary op dst src0 src1) = .ok ws) :
    Writes g ws first size lanes (lets s) fun m lane => f (value0 m lane) (value1 m lane) := by
  obtain ⟨w, built, rfl⟩ := map_ok.mp made
  have decodes := binaryWord_decodes state (by cases op <;> decide) (by cases op <;> rfl)
    (by cases op <;> rfl) (by cases op <;> decide) (target.tame _) (reads0.fits _) (reads1.fits _) built
  refine decoded_writes decodes (kind _ rfl) (by cases op <;> exact ⟨rfl, nofun⟩) target width fun m lane inside => ?_
  rw [← reads0.value m lane inside, ← reads1.value m lane inside]
  rfl

end

end GpuCodegen.Lanes
