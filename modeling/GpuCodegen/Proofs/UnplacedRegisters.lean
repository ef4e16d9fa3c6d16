import GpuCodegen.Proofs.FailureCauses

/-! Of all failures of emission only one names a register without a place, and it arises only for a
register that the allocation did not place: the assembler, the sequences and the resolution of jumps
have faults of their own kinds. -/

namespace GpuCodegen.Unplaced
open Failures

/-- A cause that calls a register unplaced only if the allocation has no place for it. -/
def Accounts (a : Allocation) (c : Cause) : Prop := ∀ r, c = .placement (.unplaced r) → a.offsets.lookup? r = none

theorem accounts_covers (a : Allocation) : Covers (Accounts a) := by
  constructor
  · rintro fault - r ⟨⟩
  · rintro gap r ⟨⟩

/-- Emission reports a register as unplaced only if the allocation has no place for it. -/
theorem emit_truthful (c : Context) (a : Allocation) (e : Stopped CompileEvent) (r : VReg)
    (failed : c.emit a = .error e) (named : stoppedCause e = .placement (.unplaced r)) :
    a.offsets.lookup? r = none := by
  have unplaced (r : VReg) (missing : a.offsets.lookup? r = none) : Accounts a (.placement (.unplaced r)) := by
    intro r' same
    cases same
    exact missing
  have fails : FailsWith (Accounts a) stoppedCause (c.emit a) :=
    emit_fails (accounts_covers a) c a fun i _ base =>
      ⟨instruction_fails (accounts_covers a) unplaced rfl i, fun j _ =>
        typed_unsupported (fun _ _ => nofun) c.generation j.command⟩
  exact fails e failed r named

end GpuCodegen.Unplaced
