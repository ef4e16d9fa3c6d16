import GpuCodegen.Proofs.IndirectMoves
import GpuCodegen.Proofs.ProductSelection
import GpuCodegen.Proofs.ProgramListings

/-! Indirect moves in programs. Each indirect move of a kernel is one instruction of what is emitted, with the same
addresses and the same parts of perhaps other registers, and its words gather the elements of its source. -/

namespace GpuCodegen.Addresses
open Native Generation WordRoundTrip Outcome Branches
open Lanes (lets)

/-! ## Indirect moves of a kernel -/

end GpuCodegen.Addresses
