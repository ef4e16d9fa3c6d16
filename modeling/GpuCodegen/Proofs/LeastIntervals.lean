import Mathlib.Algebra.Group.Int.Defs
import Mathlib.Algebra.Group.Nat.Defs
import GpuCodegen.Proofs.LivePaths
import Mathlib.Data.List.ProdSigma
import Mathlib.Order.Bounds.Basic

/-! Live intervals without the walk and the passes that compute them. The interval of a register is the
least range that holds its accesses and covers every loop at whose header the register is live. Widening
reaches it in whatever order it visits loops and registers, because what it does over one loop stays
inside every range that is closed under all of them. -/

namespace GpuCodegen.LeastIntervals
open LiveIntervals LivePaths

/-- Some instruction names the register. -/
def Used (k : Kernel) (r : VReg) : Prop := ∃ a ∈ accesses k, a.operand.reg = r

/-- A range in which a register can live: it holds every access, for the stack pointer the whole
program, and covers every loop at whose header the register is live. -/
structure Encloses (k : Kernel) (r : VReg) (low high : Int) : Prop where
  points : ∀ a ∈ accesses k, a.operand.reg = r → low ≤ a.position ∧ a.position ≤ high
  program : r = k.stackPointer → low ≤ 0 ∧ (k.code.length : Int) - 1 ≤ high
  loops : ∀ l ∈ k.loops, (low < l.header ∧ l.header ≤ high) ∨ k.carries l r = true →
    low ≤ l.header ∧ l.stop ≤ high

/-- Every access of a register lies in one block, the register is not the stack pointer, and no loop has
taken its interval past the first or the last access. -/
structure StaysIn (k : Kernel) (r : VReg) (iv : Interval) (block : Int) : Prop where
  one : ∀ a ∈ accesses k, a.operand.reg = r → a.instruction.block = block
  other : r ≠ k.stackPointer
  first : ∃ a ∈ accesses k, a.operand.reg = r ∧ iv.min = a.position
  last : ∃ a ∈ accesses k, a.operand.reg = r ∧ iv.max = a.position

/-- The bytes the operands that name a register take. -/
def byteSizes (k : Kernel) (r : VReg) : Set Int :=
  {n | ∃ a ∈ accesses k, a.operand.reg = r ∧ n = a.operand.bytes (k.widthOf a.instruction)}

/-- The bytes the operands that name a register take, as 32-bit numbers. -/
def storageSizes (k : Kernel) (r : VReg) : Set UInt32 :=
  {n | ∃ a ∈ accesses k, a.operand.reg = r ∧ n = a.operand.storage (k.widthOf a.instruction)}

/-- What the interval of a register is. -/
structure IsLeastInterval (k : Kernel) (r : VReg) (iv : Interval) : Prop where
  reg : iv.reg = r
  live : iv.hole = false
  encloses : Encloses k r iv.min iv.max
  least : ∀ low high, Encloses k r low high → low ≤ iv.min ∧ iv.max ≤ high
  count : iv.accesses = (accesses k).countP fun a => a.operand.reg = r
  size : IsGreatest (storageSizes k r) iv.size
  -- Sizes below 2 ^ 32 are compared as the numbers they are.
  bytes : (∀ n ∈ byteSizes k r, 0 ≤ n ∧ n < 2 ^ 32) → IsGreatest (byteSizes k r) iv.size.toNat
  block : ∀ b, b ≠ noBlock → (iv.block = b ↔ StaysIn k r iv b)

/-! ## Before widening -/

/-- The interval of a register in use before widening. -/
def started (k : Kernel) (r : VReg) : Interval :=
  match k.walk.usage.find? r.number with
  | some u => Liveness.settle k u (k.walk.store.get u.index)
  | none => default

theorem used_known {k : Kernel} {r : VReg} (used : Used k r) :
    ∃ u, k.walk.usage.find? r.number = some u := by
  obtain ⟨a, member, named⟩ := used
  cases known : k.walk.usage.find? r.number with
  | none => exact absurd named ((walk_walked k).tracks.unused r known a member)
  | some u => exact ⟨u, rfl⟩

theorem started_known {k : Kernel} {r : VReg} {u : Usage} (known : k.walk.usage.find? r.number = some u) :
    started k r = Liveness.settle k u (k.walk.store.get u.index) := by
  simp only [started, known]

theorem settled_started {k : Kernel} {r : VReg} {u : Usage}
    (known : k.walk.usage.find? r.number = some u) :
    settled k u = Liveness.widen k k.loops (started k r) := by
  rw [started_known known, settled]

theorem position_lt {k : Kernel} {a : Access} (member : a ∈ accesses k) : a.position < k.code.length :=
  (List.getElem?_eq_some_iff.mp (mem_accesses.mp member).1).1

/-- The walk leaves the range from the first to the last access. Positions are below the start of a
fresh interval. -/
theorem walk_ends {k : Kernel} {r : VReg} {u : Usage} (short : k.code.length < 2 ^ 31)
    (known : k.walk.usage.find? r.number = some u) :
    (∃ a ∈ accesses k, a.operand.reg = r ∧ (k.walk.store.get u.index).min = a.position) ∧
      ∃ a ∈ accesses k, a.operand.reg = r ∧ (k.walk.store.get u.index).max = a.position := by
  have tracked := (walk_walked k).tracks.used r u known
  constructor
  · obtain ⟨a, member, named, began⟩ := tracked.began
    have small := position_lt member
    have first := tracked.first a member named
    exact ⟨a, member, named, by omega⟩
  · obtain ⟨a, member, named, last⟩ := tracked.last
    exact ⟨a, member, named, by rw [tracked.stop, last]⟩

theorem started_reg {k : Kernel} {r : VReg} {u : Usage} (known : k.walk.usage.find? r.number = some u) :
    (started k r).reg = r := by
  rw [started_known known]
  exact (widened_settle _ _ _).reg.trans ((walk_walked k).tracks.used r u known).reg

/-- A range that holds the accesses, and for the stack pointer the program, holds the interval before
widening. -/
theorem started_within {k : Kernel} {r : VReg} {low high : Int} (short : k.code.length < 2 ^ 31)
    (used : Used k r) (encloses : Encloses k r low high) :
    low ≤ (started k r).min ∧ (started k r).max ≤ high := by
  obtain ⟨u, known⟩ := used_known used
  obtain ⟨⟨a, member, named, first⟩, b, member', named', last⟩ := walk_ends short known
  have low_le := (encloses.points a member named).1
  have le_high := (encloses.points b member' named').2
  have reg := ((walk_walked k).tracks.used r u known).reg
  rw [started_known known]
  by_cases same : r = k.stackPointer
  · obtain ⟨start, stop⟩ := encloses.program same
    rw [settle_stackPointer (reg.trans same)]
    constructor <;> dsimp only <;> split <;> omega
  · rw [settle_other (by rw [reg]; exact same)]
    have inside : low ≤ (k.walk.store.get u.index).min ∧ (k.walk.store.get u.index).max ≤ high := by
      omega
    split <;> exact inside

theorem started_holds {k : Kernel} {r : VReg} {u : Usage} {a : Access}
    (known : k.walk.usage.find? r.number = some u) (member : a ∈ accesses k) (named : a.operand.reg = r) :
    (started k r).min ≤ a.position ∧ a.position ≤ (started k r).max := by
  have tracked := (walk_walked k).tracks.used r u known
  have wide := widened_settle k u (k.walk.store.get u.index)
  rw [← started_known known] at wide
  have low := wide.min
  have high := wide.max
  have first := tracked.first a member named
  have latest := tracked.latest a member named
  have stop := tracked.stop
  omega

theorem started_ends {k : Kernel} {r : VReg} {u : Usage} (short : k.code.length < 2 ^ 31)
    (known : k.walk.usage.find? r.number = some u) (other : r ≠ k.stackPointer) :
    (∃ a ∈ accesses k, a.operand.reg = r ∧ (started k r).min = a.position) ∧
      ∃ a ∈ accesses k, a.operand.reg = r ∧ (started k r).max = a.position := by
  have reg := ((walk_walked k).tracks.used r u known).reg
  rw [started_known known, settle_other (by rw [reg]; exact other)]
  split <;> exact walk_ends short known

theorem started_program {k : Kernel} (used : Used k k.stackPointer) :
    (started k k.stackPointer).min ≤ 0 ∧
      (k.code.length : Int) - 1 ≤ (started k k.stackPointer).max := by
  obtain ⟨u, known⟩ := used_known used
  rw [started_known known, settle_stackPointer ((walk_walked k).tracks.used _ u known).reg]
  constructor <;> dsimp only <;> split <;> omega

/-- Before widening the block is that of all accesses, if they share one. -/
theorem started_block {k : Kernel} {r : VReg} (used : Used k r) {b : Int} (some : b ≠ noBlock) :
    (started k r).block = b ↔
      r ≠ k.stackPointer ∧ ∀ a ∈ accesses k, a.operand.reg = r → a.instruction.block = b := by
  obtain ⟨u, known⟩ := used_known used
  have tracked := (walk_walked k).tracks.used r u known
  obtain ⟨a, member, named, final⟩ := tracked.tally.final
  rw [started_known known]
  by_cases same : r = k.stackPointer
  · rw [settle_stackPointer (tracked.reg.trans same)]
    exact ⟨fun block => absurd block.symm some, fun other => absurd same other.1⟩
  · rw [settle_other (by rw [tracked.reg]; exact same)]
    cases multi : u.multiBlock with
    | false =>
      have one := tracked.tally.one.mp multi
      constructor
      · rintro rfl
        exact ⟨same, one⟩
      · intro all
        exact final.symm.trans (all.2 a member named)
    | true =>
      constructor
      · intro block
        exact absurd (block.symm.trans tracked.tally.unsettled) some
      · intro all
        have one := tracked.tally.one.mpr fun x here name =>
          (all.2 x here name).trans ((all.2 a member named).symm.trans final)
        rw [multi] at one
        cases one

/-! ## Widening in any order -/

/-- The second interval is the first, or goes further and belongs to no block. -/
def Stretched (iv iv' : Interval) : Prop :=
  iv' = iv ∨ ∃ low high, (low < iv.min ∨ iv.max < high) ∧
    iv' = { iv with min := low, max := high, block := noBlock }

theorem widenOver_stretched (k : Kernel) (iv : Interval) (l : Loop) :
    Stretched iv (Liveness.widenOver k iv l) := by
  by_cases closed : Enters k iv l → CoversLoop iv l
  · exact .inl (widenOver_of_covers closed)
  · obtain ⟨enters, missing⟩ := Classical.not_imp.mp closed
    refine .inr ⟨_, _, ?_, widenOver_of_missing enters missing⟩
    simp only [CoversLoop] at missing
    split <;> split <;> omega

theorem widens_stretched {k : Kernel} {loops : List Loop} {iv iv' : Interval}
    (run : Relation.ReflTransGen (Widens k loops) iv iv') : Stretched iv iv' := by
  induction run with
  | refl => exact .inl rfl
  | @tail w _ before step ih =>
    obtain ⟨l, -, rfl⟩ := step
    have grown := widens_widened before
    rcases ih with rfl | ⟨low, high, further, rfl⟩
    · exact widenOver_stretched k _ l
    · rcases widenOver_stretched k { iv with min := low, max := high, block := noBlock } l with
        same | ⟨low', high', further', same⟩
      · rw [same]
        exact .inr ⟨low, high, further, rfl⟩
      · have grown' := widened_widenOver k { iv with min := low, max := high, block := noBlock } l
        rw [same] at grown' ⊢
        refine .inr ⟨low', high', ?_, rfl⟩
        have outer := grown'.min
        have outer' := grown'.max
        dsimp only at outer outer'
        omega

theorem Stretched.unique {iv a b : Interval} (stretchedA : Stretched iv a) (stretchedB : Stretched iv b)
    (min : a.min = b.min) (max : a.max = b.max) : a = b := by
  rcases stretchedA with rfl | ⟨low, high, further, rfl⟩ <;>
    rcases stretchedB with rfl | ⟨low', high', further', rfl⟩
  · rfl
  · dsimp only at min max
    omega
  · dsimp only at min max
    omega
  · dsimp only at min max
    rw [min, max]

/-- All widenings of an interval that end closed end alike: each stays inside the other. -/
theorem widens_unique {k : Kernel} {loops : List Loop} {iv a b : Interval}
    (runA : Relation.ReflTransGen (Widens k loops) iv a)
    (runB : Relation.ReflTransGen (Widens k loops) iv b) (closedA : Closed k loops a)
    (closedB : Closed k loops b) : a = b := by
  have inside {a b : Interval} (runA : Relation.ReflTransGen (Widens k loops) iv a)
      (runB : Relation.ReflTransGen (Widens k loops) iv b) (closedB : Closed k loops b) :
      b.min ≤ a.min ∧ a.max ≤ b.max := by
    have wide := widens_widened runB
    refine widens_within runA ?_ ⟨wide.min, wide.max⟩
    rw [← wide.reg]
    exact closedB
  have ab := inside runA runB closedB
  have ba := inside runB runA closedA
  apply (widens_stretched runA).unique (widens_stretched runB) <;> omega

/-- A visit of widening: the interval of one register is widened over one loop. -/
def visit (k : Kernel) (s : VReg → Interval) (v : Loop × VReg) : VReg → Interval :=
  Function.update s v.2 (Liveness.widenOver k (s v.2) v.1)

/-- A pass visits every loop with every register in use, in some order. -/
def IsPass (k : Kernel) (visits : List (Loop × VReg)) : Prop :=
  ∀ l r, (l, r) ∈ visits ↔ l ∈ k.loops ∧ Used k r

theorem exists_pass (k : Kernel) : ∃ visits, IsPass k visits := by
  refine ⟨k.loops ×ˢ (accesses k).map fun a => a.operand.reg, fun l r => ?_⟩
  simp [Used]

/-- The intervals after some passes, each with an order of its own. -/
def after (k : Kernel) (passes : Nat → List (Loop × VReg)) : Nat → VReg → Interval
  | 0 => started k
  | n + 1 => (passes n).foldl (visit k) (after k passes n)

/-- The loops a pass visits with a register. -/
def loopsOf (visits : List (Loop × VReg)) (r : VReg) : List Loop :=
  (visits.filter fun v => v.2 = r).map Prod.fst

theorem mem_loopsOf {k : Kernel} {visits : List (Loop × VReg)} (pass : IsPass k visits) {l : Loop}
    {r : VReg} : l ∈ loopsOf visits r ↔ l ∈ k.loops ∧ Used k r := by
  simp [loopsOf, ← pass l r]

/-- What a pass does to one register does not depend on the others. -/
theorem visits_register (k : Kernel) (visits : List (Loop × VReg)) (s : VReg → Interval) (r : VReg) :
    visits.foldl (visit k) s r = (loopsOf visits r).foldl (Liveness.widenOver k) (s r) := by
  induction visits generalizing s with
  | nil => rfl
  | cons v rest ih =>
    rw [List.foldl_cons, ih]
    by_cases here : v.2 = r
    · subst here
      simp [loopsOf, visit]
    · simp [loopsOf, visit, here, Function.update_of_ne (Ne.symm here)]

theorem foldl_of_closed {k : Kernel} {loops : List Loop} {iv : Interval} (closed : Closed k loops iv) :
    loops.foldl (Liveness.widenOver k) iv = iv := by
  induction loops with
  | nil => rfl
  | cons l rest ih =>
    rw [List.foldl_cons, widenOver_of_covers (closed l List.mem_cons_self)]
    exact ih fun x member => closed x (List.mem_cons_of_mem _ member)

theorem closed_loopsOf {k : Kernel} {visits : List (Loop × VReg)} (pass : IsPass k visits) {r : VReg}
    (used : Used k r) {iv : Interval} : Closed k (loopsOf visits r) iv ↔ Closed k k.loops iv := by
  simp only [Closed, mem_loopsOf pass, used, and_true]

section Passes

variable {k : Kernel} {passes : Nat → List (Loop × VReg)} {r : VReg}

theorem after_widens (all : ∀ n, IsPass k (passes n)) (n : Nat) (r : VReg) :
    Relation.ReflTransGen (Widens k k.loops) (started k r) (after k passes n r) := by
  induction n with
  | zero => exact .refl
  | succ n ih =>
    rw [after, visits_register]
    exact ih.trans (foldl_widens (fun l member => ((mem_loopsOf (all n)).mp member).1) _)

/-- A pass finds the interval of a register closed and leaves it, or covers a loop more. -/
theorem after_cases (all : ∀ n, IsPass k (passes n)) (used : Used k r) (n : Nat) :
    Closed k k.loops (after k passes n r) ∧ after k passes (n + 1) r = after k passes n r ∨
      ∃ l ∈ k.loops, ¬ CoversLoop (after k passes n r) l ∧
        CoversLoop (after k passes (n + 1) r) l := by
  rw [after, visits_register]
  rcases pass_cases k (loopsOf (passes n) r) (after k passes n r) with ⟨closed, same⟩ | more
  · exact .inl ⟨(closed_loopsOf (all n) used).mp closed, same⟩
  · obtain ⟨l, member, missing, covered⟩ := more
    exact .inr ⟨l, ((mem_loopsOf (all n)).mp member).1, missing, covered⟩

/-- After as many passes as there are loops the interval of every register in use is closed. -/
theorem after_closed (all : ∀ n, IsPass k (passes n)) (used : Used k r) :
    Closed k k.loops (after k passes k.loops.length r) := by
  have progress (n : Nat) : Closed k k.loops (after k passes n r) ∨
      n ≤ k.loops.countP fun l => decide (CoversLoop (after k passes n r) l) := by
    induction n with
    | zero => exact .inr (Nat.zero_le _)
    | succ n ih =>
      rcases after_cases all used n with ⟨closed, same⟩ | ⟨l, member, missing, covered⟩
      · rw [same]
        exact .inl closed
      · rcases ih with closed | enough
        · -- What is closed stays so.
          left
          rw [after, visits_register, foldl_of_closed ((closed_loopsOf (all n) used).mpr closed)]
          exact closed
        · right
          have wide : Widened (after k passes n r) (after k passes (n + 1) r) := by
            rw [after, visits_register]
            exact widened_pass k _ _
          have more := countP_lt_of_covers wide member missing covered
          omega
  rcases progress k.loops.length with closed | enough
  · exact closed
  · intro l member _
    have most := List.countP_le_length (p := fun l => decide (CoversLoop (after k passes k.loops.length r) l))
      (l := k.loops)
    simpa using List.countP_eq_length.mp (Nat.le_antisymm most enough) l member

/-- One pass more changes nothing, so widening ends. -/
theorem after_stable (all : ∀ n, IsPass k (passes n)) :
    after k passes (k.loops.length + 1) = after k passes k.loops.length := by
  funext r
  rw [after, visits_register]
  by_cases used : Used k r
  · exact foldl_of_closed ((closed_loopsOf (all _) used).mpr (after_closed all used))
  · have unvisited : loopsOf (passes k.loops.length) r = [] := by
      apply List.eq_nil_iff_forall_not_mem.mpr
      intro l member
      exact used ((mem_loopsOf (all _)).mp member).2
    rw [unvisited]
    rfl

/-- A pass that changes nothing finds every register in use at its interval. -/
theorem intervalOf_after (all : ∀ n, IsPass k (passes n)) {n : Nat}
    (stable : after k passes (n + 1) = after k passes n) (used : Used k r) :
    (Liveness.ofKernel k).intervalOf? r = some (after k passes n r) := by
  obtain ⟨u, known⟩ := used_known used
  rw [intervalOf_ofKernel, known, Option.map_some, settled_started known]
  have closed : Closed k k.loops (after k passes n r) := by
    rcases after_cases all used n with ⟨closed, -⟩ | ⟨l, -, missing, covered⟩
    · exact closed
    · rw [stable] at covered
      exact absurd covered missing
  rw [widens_unique (widen_widens k k.loops _) (after_widens all n r) (widen_closed k k.loops _) closed]

end Passes

/-! ## The interval of a register -/

theorem intervalOf_unused {k : Kernel} {r : VReg} (unused : ¬ Used k r) :
    (Liveness.ofKernel k).intervalOf? r = none := by
  rw [intervalOf_ofKernel]
  cases known : k.walk.usage.find? r.number with
  | none => rfl
  | some u =>
    obtain ⟨a, member, named, -⟩ := ((walk_walked k).tracks.used r u known).last
    exact absurd ⟨a, member, named⟩ unused

theorem storage_toNat {o : RegisterOperand} {width : Int}
    (fits : 0 ≤ o.bytes width ∧ o.bytes width < 2 ^ 32) :
    ((o.storage width).toNat : Int) = o.bytes width := by
  change ((UInt32.ofNat (o.bytes width % 4294967296).toNat).toNat : Int) = _
  rw [UInt32.toNat_ofNat']
  omega

theorem greatest_storage {k : Kernel} {r : VReg} {iv : Interval} (covers : Covers k r iv) :
    IsGreatest (storageSizes k r) iv.size := by
  obtain ⟨a, member, named, size⟩ := covers.attained
  refine ⟨⟨a, member, named, size⟩, ?_⟩
  rintro _ ⟨b, there, name, rfl⟩
  exact covers.size b there name

theorem greatest_bytes {k : Kernel} {r : VReg} {n : UInt32} (greatest : IsGreatest (storageSizes k r) n)
    (fits : ∀ n ∈ byteSizes k r, 0 ≤ n ∧ n < 2 ^ 32) : IsGreatest (byteSizes k r) n.toNat := by
  have exact_ {a : Access} (member : a ∈ accesses k) (named : a.operand.reg = r) :=
    storage_toNat (fits _ ⟨a, member, named, rfl⟩)
  obtain ⟨⟨a, member, named, rfl⟩, most⟩ := greatest
  refine ⟨⟨a, member, named, exact_ member named⟩, ?_⟩
  rintro _ ⟨b, there, name, rfl⟩
  have le := UInt32.le_iff_toNat_le.mp (most ⟨b, there, name, rfl⟩)
  rw [← exact_ there name]
  exact Int.ofNat_le.mpr le

/-- The block an interval ends up with. A loop that has taken it further has taken its block, and then an
end is not at an access. -/
theorem settled_block {k : Kernel} {r : VReg} {u : Usage} {b : Int} (short : k.code.length < 2 ^ 31)
    (used : Used k r) (known : k.walk.usage.find? r.number = some u) (some : b ≠ noBlock) :
    (settled k u).block = b ↔ StaysIn k r (settled k u) b := by
  have run := widen_widens k k.loops (started k r)
  rw [← settled_started known] at run
  rcases widens_stretched run with same | ⟨low, high, further, stretched⟩
  · rw [same, started_block used some]
    constructor
    · rintro ⟨other, all⟩
      obtain ⟨first, last⟩ := started_ends short known other
      exact ⟨all, other, first, last⟩
    · intro stays
      exact ⟨stays.other, stays.one⟩
  · rw [stretched]
    constructor
    · intro block
      exact absurd block.symm some
    · rintro ⟨-, -, ⟨x, member, named, first⟩, y, member', named', last⟩
      have low_le := (started_holds known member named).1
      have le_high := (started_holds known member' named').2
      dsimp only at first last
      omega

theorem intervalOf_used {k : Kernel} {r : VReg} (short : k.code.length < 2 ^ 31) (used : Used k r) :
    ∃ iv, (Liveness.ofKernel k).intervalOf? r = some iv ∧ IsLeastInterval k r iv := by
  obtain ⟨u, known⟩ := used_known used
  have found : (Liveness.ofKernel k).intervalOf? r = some (settled k u) := by
    rw [intervalOf_ofKernel, known, Option.map_some]
  obtain ⟨covers, closed⟩ := intervalOf_spec found
  have run := widen_widens k k.loops (started k r)
  rw [← settled_started known] at run
  have wide := widens_widened run
  refine ⟨settled k u, found, covers.reg, covers.live, ⟨covers.within, ?_, ?_⟩, ?_, ?_,
    greatest_storage covers, greatest_bytes (greatest_storage covers), fun b => settled_block short used known⟩
  · rintro rfl
    obtain ⟨low, high⟩ := started_program used
    exact ⟨Int.le_trans wide.min low, Int.le_trans high wide.max⟩
  · intro l member enters
    apply closed l member
    rw [Enters, covers.reg]
    exact enters
  · intro low high encloses
    apply widens_within run _ (started_within short used encloses)
    rw [started_reg known]
    exact encloses.loops
  · rw [wide.accesses, started_known known, (widened_settle _ _ _).accesses]
    exact ((walk_walked k).tracks.used r u known).tally.count

/-- Live intervals are least. The interval of a register in use is the least range that encloses its life;
and in whatever order its passes make their visits, widening is done after as many of them as there are
loops, and when a pass changes nothing it has reached these intervals. -/
theorem intervals_least (k : Kernel) (short : k.code.length < 2 ^ 31) :
    (∀ r, ¬ Used k r → (Liveness.ofKernel k).intervalOf? r = none) ∧
    (∀ r, Used k r → ∃ iv, (Liveness.ofKernel k).intervalOf? r = some iv ∧ IsLeastInterval k r iv) ∧
    ∀ passes : Nat → List (Loop × VReg), (∀ n, IsPass k (passes n)) →
      after k passes (k.loops.length + 1) = after k passes k.loops.length ∧
      ∀ n, after k passes (n + 1) = after k passes n → ∀ r, Used k r →
        (Liveness.ofKernel k).intervalOf? r = some (after k passes n r) := by
  refine ⟨fun r => intervalOf_unused, fun r => intervalOf_used short, ?_⟩
  intro passes all
  exact ⟨after_stable all, fun n stable r used => intervalOf_after all stable used⟩

/-- Two loops that cross: the second is entered only by an interval that covers the first. -/
def crossingLoops : Kernel where
  name := "crossing"
  simdWidth := 8
  code :=
    [{ op := .mov, dst := .vector ⟨0⟩ .ud, src := [.immediate .ud 1 false false] },
      { op := .label, label := 0, block := 1 },
      { op := .mov, dst := .vector ⟨1⟩ .ud, src := [.vector ⟨0⟩ .ud], block := 1 },
      { op := .label, label := 1, block := 2 },
      { op := .jump, label := 0, predicated := true, block := 2 },
      { op := .jump, label := 1, predicated := true, block := 3 },
      { op := .endThread, block := 4 }]

theorem intervals_least_crossing : crossingLoops.code.length < 2 ^ 31 ∧
    ∃ iv, (Liveness.ofKernel crossingLoops).intervalOf? ⟨0⟩ = some iv ∧
      IsLeastInterval crossingLoops ⟨0⟩ iv ∧ iv.min = 0 ∧ iv.max = 5 ∧
      ∃ passes, (∀ n, IsPass crossingLoops (passes n)) ∧ after crossingLoops passes 2 ⟨0⟩ = iv := by
  have short : crossingLoops.code.length < 2 ^ 31 := by decide
  have used : Used crossingLoops ⟨0⟩ := by
    refine ⟨⟨0, _, { reg := ⟨0⟩, type := .ud }⟩, mem_accesses.mpr ⟨rfl, ?_⟩, rfl⟩
    decide
  obtain ⟨visits, pass⟩ := exists_pass crossingLoops
  obtain ⟨-, least, order⟩ := intervals_least crossingLoops short
  obtain ⟨stable, reached⟩ := order (fun _ => visits) fun _ => pass
  obtain ⟨iv, found, isLeast⟩ := least ⟨0⟩ used
  have ends : ((Liveness.ofKernel crossingLoops).intervalOf? ⟨0⟩).map (fun iv => (iv.min, iv.max)) =
      some (0, 5) := by
    decide +kernel
  rw [found, Option.map_some, Option.some.injEq, Prod.mk.injEq] at ends
  refine ⟨short, iv, found, isLeast, ends.1, ends.2, fun _ => visits, fun _ => pass, ?_⟩
  have settled := reached _ stable ⟨0⟩ used
  rw [found, Option.some.injEq] at settled
  exact settled.symm

/-- A register of 134217729 vectors takes 2 ^ 32 + 32 bytes. -/
def longRun : Kernel where
  name := "longRun"
  simdWidth := 8
  code :=
    [{ op := .mov, dst := .register { reg := ⟨0⟩, type := .ud, span := 134217729 },
        src := [.immediate .ud 1 false false] },
      { op := .endThread }]

/-- The size of an interval is a 32-bit number, which the bytes of an operand need not fit. -/
theorem size_wraps :
    ¬ ∀ (k : Kernel) (r : VReg) (iv : Interval), k.code.length < 2 ^ 31 →
      (Liveness.ofKernel k).intervalOf? r = some iv → IsGreatest (byteSizes k r) iv.size.toNat := by
  intro all
  have member : (⟨0, _, { reg := ⟨0⟩, type := .ud, span := 134217729 }⟩ : Access) ∈ accesses longRun :=
    mem_accesses.mpr ⟨rfl, by decide⟩
  obtain ⟨iv, found⟩ := intervalOf_of_access member
  have most := (all longRun _ iv (by decide) found).2 ⟨_, member, rfl, rfl⟩
  have bytes : RegisterOperand.bytes { reg := ⟨0⟩, type := .ud, span := 134217729 } 8 = 4294967328 := by
    decide
  change RegisterOperand.bytes { reg := ⟨0⟩, type := .ud, span := 134217729 } 8 ≤ _ at most
  have small := iv.size.toNat_lt
  omega

end GpuCodegen.LeastIntervals
