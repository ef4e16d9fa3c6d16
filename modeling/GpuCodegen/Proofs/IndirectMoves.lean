import GpuCodegen.Proofs.AddressRegister

/-! Indirect moves. The entries of the address register name the byte of every lane's element; the move that
follows brings the elements to the lanes of its destination. -/

namespace GpuCodegen.Addresses
open Native Generation WordRoundTrip Outcome
open Footprints (placed_start destinationStride_row gather_tame placed_tame)
open Lanes (lets)

/-! ## Elements -/

section
variable {g : Generation} {s : State} {ws : List Word} {a : Allocation} {x : RegisterOperand} {offset : UInt32}
  {width : Int}

end

end GpuCodegen.Addresses
