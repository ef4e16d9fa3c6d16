import GpuCodegen.Lowering.Compile
import GpuCodegen.Proofs.Outcome
import GpuCodegen.Proofs.WordEffects

/-! Straight-line kernels of dword arithmetic. Selection keeps every instruction of theirs and at most
narrows it. -/

namespace GpuCodegen.StraightLine
open Native Generation Lanes Outcome WordRoundTrip

/-! ## Kernels -/

/-- A whole vector of dwords, without modifiers. -/
structure IsVector (o : RegisterOperand) : Prop where
  named : o.reg ≠ VReg.none
  type : IsDword o.type
  vector : o.scalar = false
  span : o.span ≤ 1
  part : o.part = 0
  negate : o.negate = false
  absolute : o.absolute = false

/-- A dword immediate, without modifiers. -/
def IsImmediate (o : Operand) : Prop := ∃ t bits, o = .immediate t bits false false ∧ IsDword t

/-- Arithmetic on vectors of dwords on all of `width` lanes: a width of zero stands for the kernel's,
and a larger one is cut down to it. Only the last source may be an immediate. -/
structure IsArithmetic (width : Int) (i : Instruction) : Prop where
  op : i.op ∈ operations
  unpredicated : i.predicated = false
  width : i.execWidth ≤ 0 ∨ width ≤ i.execWidth
  dst : ∃ d, i.dst = .register d ∧ IsVector d
  src : ∀ n o, i.src[n]? = some o →
    (∃ x, o = .register x ∧ IsVector x) ∨ n + 1 = i.src.length ∧ IsImmediate o

/-- A kernel of dword arithmetic that ends its thread after the instructions `body`. Every register is
written before it is read. -/
structure IsStraightLine (k : Kernel) (width : Int) (body : List Instruction) : Prop where
  simd : k.simdWidth = 8 ∨ k.simdWidth = 16
  unpinned : ∀ r, k.pin? r = none
  stackless : k.stackSize = 0
  code : ∃ last, k.code = body ++ [last] ∧ last.op = .endThread ∧ last.dst.register? = none
  arithmetic : ∀ i ∈ body, IsArithmetic width i
  defined : ∀ (p : Nat) (i : Instruction) (r : VReg), body[p]? = some i → i.reads r = true →
    ∃ (q : Nat) (j : Instruction), q < p ∧ body[q]? = some j ∧ j.writes r = true

theorem IsDword.not_int64 {t : Element} (dwords : IsDword t) : t.isInt64 = false ∧ t.is64 = false := by
  rcases dwords with rfl | rfl <;> exact ⟨rfl, rfl⟩

/-! ## Selection -/

/-- An instruction that selection passes on. -/
def Passes (i : Instruction) : Prop :=
  i.op ∈ operations ∧ i.dst.type.isInt64 = false ∨ i.op = .endThread

theorem counted_emit {i : Instruction} {n : Nat} {k : Kernel} {r : Unit × Kernel}
    (ran : (do liftM (Select.wantSources i n); Select.emit i : Select Unit).run k = .ok r) :
    r.2 = k.emit i ∧ i.src.length = n := by
  unfold Select.wantSources at ran
  by_cases count : i.src.length = n
  · rw [if_pos count] at ran
    cases ran
    exact ⟨rfl, count⟩
  · rw [if_neg count] at ran
    cases ran

theorem lower_passes {c : Context} {i : Instruction} {k : Kernel} {r : Unit × Kernel} (passes : Passes i)
    (lowered : (Select.lower c i).run k = .ok r) :
    r.2 = k.emit i ∧ Select.sourceCount? i.op = some i.src.length := by
  have emitted : ∃ n, Select.sourceCount? i.op = some n ∧
      (do liftM (Select.wantSources i n); Select.emit i : Select Unit).run k = .ok r := by
    simp only [Passes, operations, List.mem_cons, List.not_mem_nil, or_false] at passes
    rcases passes with ⟨op | op | op | op | op | op | op | op | op | op, narrow⟩ | op <;>
      simp only [Select.lower, op, Select.sourceCount?] at lowered ⊢ <;>
      refine ⟨_, rfl, ?_⟩
    case inl.inr.inr.inr.inl => simpa [narrow] using lowered
    all_goals exact lowered
  obtain ⟨n, count, ran⟩ := emitted
  obtain ⟨emitted, length⟩ := counted_emit ran
  exact ⟨emitted, by rw [count, length]⟩

theorem step_passes {c : Context} {entry : Instruction × Nat} {k : Kernel} {r : Unit × Kernel}
    (passes : Passes (Select.narrowed c entry.1)) (ran : Select.step c entry k = .ok r) :
    r.2 = k.emit (Select.narrowed c entry.1) ∧
      Select.sourceCount? (Select.narrowed c entry.1).op = some (Select.narrowed c entry.1).src.length := by
  unfold Select.step at ran
  dsimp only at ran
  split at ran
  · cases ran
  · split at ran
    · cases ran
    · rename_i lowered
      cases ran
      exact lower_passes passes lowered

/-- What selection adds to a kernel: instructions, and perhaps register numbers. -/
structure Extends (k k' : Kernel) (more : List Instruction) : Prop where
  code : k'.code = k.code ++ more
  simd : k'.simdWidth = k.simdWidth
  pinned : k'.pinned = k.pinned

theorem forM_passes {c : Context} (entries : List (Instruction × Nat)) {k : Kernel} {r : Unit × Kernel}
    (passes : ∀ e ∈ entries, Passes (Select.narrowed c e.1))
    (ran : (entries.forM (Select.step c)).run k = .ok r) :
    Extends k r.2 (entries.map fun e => Select.narrowed c e.1) ∧
      ∀ e ∈ entries, Select.sourceCount? (Select.narrowed c e.1).op =
        some (Select.narrowed c e.1).src.length := by
  induction entries generalizing k with
  | nil =>
    cases ran
    exact ⟨⟨by simp, rfl, rfl⟩, by simp⟩
  | cons e rest ih =>
    change (Select.step c e >>= fun _ => rest.forM (Select.step c)).run k = .ok r at ran
    rw [StateT.run_bind, bind_ok] at ran
    obtain ⟨first, here, later⟩ := ran
    obtain ⟨emitted, counted⟩ := step_passes (passes e List.mem_cons_self) here
    obtain ⟨⟨code, simd, pinned⟩, counts⟩ := ih (fun e member => passes e (List.mem_cons_of_mem _ member)) later
    rw [emitted] at code simd pinned
    refine ⟨⟨?_, simd, pinned⟩, ?_⟩
    · rw [code]
      simp [Kernel.emit]
    · intro x member
      rcases List.mem_cons.mp member with rfl | other
      · exact counted
      · exact counts x other

theorem select_passes {c : Context} {k : Kernel} (stackless : c.kernel.stackSize = 0)
    (passes : ∀ i ∈ c.kernel.code, Passes (Select.narrowed c i)) (selected : c.select = .ok k) :
    k.code = c.kernel.code.map (Select.narrowed c) ∧ k.simdWidth = c.simdWidth ∧
      k.pinned = c.kernel.pinned ∧ ∀ i ∈ k.code, Select.sourceCount? i.op = some i.src.length := by
  simp only [Context.select, bind_ok, pure_ok] at selected
  obtain ⟨_, -, ⟨u, s⟩, ran, same⟩ := selected
  cases same
  have bare : Select.all c = c.kernel.code.zipIdx.forM (Select.step c) := by
    simp [Select.all, stackless]
  rw [bare] at ran
  obtain ⟨⟨code, simd, pinned⟩, counts⟩ := forM_passes _
    (fun e member => passes e.1 (List.fst_mem_of_mem_zipIdx member)) ran
  have firsts : (c.kernel.code.zipIdx.map fun e => Select.narrowed c e.1) =
      c.kernel.code.map (Select.narrowed c) := by
    change c.kernel.code.zipIdx.map (Select.narrowed c ∘ Prod.fst) = _
    rw [← List.map_map, List.zipIdx_map_fst]
  rw [firsts] at code
  have whole : s.code = c.kernel.code.map (Select.narrowed c) := by
    simpa [Kernel.cloneEmpty] using code
  refine ⟨whole, simd, pinned, ?_⟩
  intro i member
  rw [whole, ← firsts] at member
  obtain ⟨e, entry, rfl⟩ := List.mem_map.mp member
  exact counts e entry

end GpuCodegen.StraightLine
