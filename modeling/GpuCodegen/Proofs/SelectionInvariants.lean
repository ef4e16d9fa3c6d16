import GpuCodegen.Lowering.Selection
import GpuCodegen.Proofs.Outcome

/-! Invariants of selection. Selection builds its kernel by appending instructions and handing out registers, so a
property of kernels that both keep holds of the selected kernel. -/

namespace GpuCodegen.Select
open Outcome

/-- A part of selection that keeps a property of the kernel, with what holds of its result. -/
def Keeps {α : Type} (I : Kernel → Prop) (m : Select α) (Q : α → Prop) : Prop :=
  ∀ (k k' : Kernel) (a : α), m.run k = .ok (a, k') → I k → I k' ∧ Q a

namespace Keeps

section
variable {I : Kernel → Prop} {α β : Type} {Q : α → Prop} {R : β → Prop}

theorem bind {m : Select α} {f : α → Select β} (first : Keeps I m Q) (next : ∀ a, Q a → Keeps I (f a) R) :
    Keeps I (m >>= f) R := by
  intro k k' b ran kept
  rw [StateT.run_bind, bind_ok] at ran
  obtain ⟨⟨a, t⟩, firstRan, nextRan⟩ := ran
  obtain ⟨middle, holds⟩ := first k t a firstRan kept
  exact next a holds t k' b nextRan middle

theorem mono {m : Select α} {P : α → Prop} (keeps : Keeps I m P) (weaker : ∀ a, P a → Q a) : Keeps I m Q := by
  intro k k' a ran kept
  obtain ⟨after, holds⟩ := keeps k k' a ran kept
  exact ⟨after, weaker a holds⟩

theorem map {m : Select α} {f : α → β} (first : Keeps I m Q) (result : ∀ a, Q a → R (f a)) :
    Keeps I (f <$> m) R := by
  intro k k' b ran kept
  rw [StateT.run_map] at ran
  cases outcome : m.run k with
  | error d =>
    rw [outcome] at ran
    cases ran
  | ok r =>
    rw [outcome] at ran
    cases ran
    obtain ⟨after, holds⟩ := first k r.2 r.1 outcome kept
    exact ⟨after, result _ holds⟩

theorem pure {a : α} (holds : Q a) : Keeps I (pure a : Select α) Q := by
  intro k k' b ran kept
  cases ran
  exact ⟨kept, holds⟩

theorem throw (d : Diagnostic) : Keeps I (throw d : Select α) Q := by
  intro k k' a ran
  cases ran

theorem stop (d : Diagnostic) (f : β → Select α) : Keeps I (MonadExcept.throw d >>= f) Q := by
  intro k k' a ran
  cases ran

theorem refuse {p : Prop} [Decidable p] {d : Diagnostic} {f : β → Select α} {m : Select α}
    (rest : ¬ p → Keeps I m Q) : Keeps I (if p then (MonadExcept.throw d >>= f) else m) Q := by
  split
  · exact .stop d f
  · rename_i passed
    exact rest passed

theorem lift (x : Except Diagnostic α) : Keeps I (liftM x : Select α) fun a => x = .ok a := by
  intro k k' a ran kept
  cases x with
  | error d => cases ran
  | ok v =>
    cases ran
    exact ⟨kept, rfl⟩

theorem get : Keeps I (get : Select Kernel) I := by
  intro k k' a ran kept
  cases ran
  exact ⟨kept, kept⟩

theorem appended {i : Instruction} (appends : ∀ k, I k → I (k.emit i)) : Keeps I (Select.emit i) fun _ => True := by
  intro k k' u ran kept
  cases ran
  exact ⟨appends k kept, trivial⟩

theorem fresh (hands : ∀ k, I k → I k.allocRegister) : Keeps I Select.fresh fun _ => True := by
  intro k k' r ran kept
  unfold Select.fresh at ran
  rw [StateT.run_bind] at ran
  change (if k.freshRegister = k.stackPointer then _ else _ : Select VReg).run k = _ at ran
  split at ran <;> cases ran
  · exact ⟨hands _ (hands _ kept), trivial⟩
  · exact ⟨hands _ kept, trivial⟩

theorem mapM {f : α → Select β} {S : α → β → Prop} {as : List α} (each : ∀ a ∈ as, Keeps I (f a) (S a)) :
    Keeps I (as.mapM f) (List.Forall₂ S as) := by
  induction as with
  | nil => exact .pure .nil
  | cons a as ih =>
    rw [List.mapM_cons]
    exact .bind (each a List.mem_cons_self) fun b here =>
      .bind (ih fun a' later => each a' (List.mem_cons_of_mem _ later)) fun bs rest => .pure (.cons here rest)

theorem forM {f : α → Select Unit} {as : List α} (each : ∀ a ∈ as, Keeps I (f a) fun _ => True) :
    Keeps I (as.forM f) fun _ => True := by
  induction as with
  | nil => exact .pure trivial
  | cons a as ih =>
    exact .bind (each a List.mem_cons_self) fun _ _ => ih fun a' later => each a' (List.mem_cons_of_mem _ later)

end

section
variable {c : Context} {I : Kernel → Prop}

/-- Selecting one instruction. -/
theorem step {entry : Instruction × Nat}
    (lowers : Select.checkTypes c (Select.narrowed c entry.1) = .ok () →
      Keeps I (Select.lower c (Select.narrowed c entry.1)) fun _ => True) :
    Keeps I (Select.step c entry) fun _ => True := by
  intro k k' u ran kept
  change Select.step c entry k = .ok (u, k') at ran
  unfold Select.step at ran
  dsimp only at ran
  split at ran
  · cases ran
  · rename_i types
    split at ran
    · cases ran
    · rename_i lowered
      cases ran
      exact lowers types k k' u lowered kept

/-- Selecting a kernel, from what setting up the stack and selecting each instruction keeps. -/
theorem select {k : Kernel} (selected : c.select = .ok k)
    (start : I { c.kernel.cloneEmpty with simdWidth := c.simdWidth })
    (stack : Keeps I (Select.stackSetup c) fun _ => True)
    (each : ∀ i ∈ c.kernel.code, Select.checkTypes c (Select.narrowed c i) = .ok () →
      Keeps I (Select.lower c (Select.narrowed c i)) fun _ => True) : I k := by
  simp only [Context.select, bind_ok, pure_ok] at selected
  obtain ⟨-, -, ⟨u, k'⟩, ran, rfl⟩ := selected
  have steps : Keeps I (c.kernel.code.zipIdx.forM (Select.step c)) fun _ => True :=
    .forM fun entry member => .step (each entry.1 (List.fst_mem_of_mem_zipIdx member))
  have all : Keeps I (Select.all c) fun _ => True := by
    unfold Select.all
    split
    · exact .bind stack fun _ _ => steps
    · exact steps
  exact (all _ k' u ran start).1

end

end Keeps

end GpuCodegen.Select
