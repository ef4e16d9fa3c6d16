import GpuCodegen.Proofs.ElementRows
import GpuCodegen.Proofs.EmittedFootprints
import GpuCodegen.Proofs.EncodableWords
import GpuCodegen.Proofs.LaneHalves
import GpuCodegen.Proofs.QwordInstructions

/-! Loading the address register. Two or four entries go into one immediate; a move of a single dword or
qword stores what as many moves of words would store, so both ways leave the same entries. -/

namespace GpuCodegen.Memory

end GpuCodegen.Memory

namespace GpuCodegen.Addresses
open Native Generation WordRoundTrip Outcome Sequence
open Footprints (addr_tame tame_imm)

/-! ## Entries -/

/-- Stores address register entries one by one, from entry `first` on. -/
def putEntries (address : Memory) (first : Nat) : List UInt16 → Memory
  | [] => address
  | e :: rest => putEntries (address.store (2 * first) 2 e.toUInt64) (first + 1) rest

/-- Words that no fixup touches and that take a machine to its image. -/
def Carries (g : Generation) (f : Machine → Machine) (ws : List Word) : Prop :=
  (∀ w ∈ ws, StraightLine.Steady g w) ∧ ∀ m : Machine, m.run g.layout ws = some (f m)

theorem Carries.append {g : Generation} {f f' : Machine → Machine} {ws ws' : List Word} (first : Carries g f ws)
    (second : Carries g f' ws') : Carries g (fun m => f' (f m)) (ws ++ ws') := by
  refine ⟨List.forall_mem_append.mpr ⟨first.1, second.1⟩, fun m => ?_⟩
  rw [Products.run_concat, first.2, Option.bind_some, second.2]

section
variable {g : Generation} {s : State} {ws : List Word}

/-- A machine whose address register starts with the entries of a list. -/
def loaded (entries : List UInt16) (m : Machine) : Machine := { m with address := putEntries m.address 0 entries }

variable {entries : List UInt16} {pieces : List (List Word)}

end

/-- Words for the issues exist and leave the entries of a list in the address register. -/
def Loads (g : Generation) (entries : List UInt16) (made : Except Diagnostic (List Issue)) : Prop :=
  ∃ issues pieces, made = .ok issues ∧ issues.mapM (fun x => g.assemble x.state x.command) = .ok pieces ∧
    ∀ m : Machine, m.run g.layout pieces.flatten = some (loaded entries m)

section
variable {g : Generation} {s : State} {entries : List UInt16}

variable (single : Issuable g (s.unmasked 1)) (accepted : checkAddresses entries = .ok ())
include single accepted

end

end GpuCodegen.Addresses
