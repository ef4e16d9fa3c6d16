import GpuCodegen.Lowering.Compile
import GpuCodegen.Machine.Basic
import GpuCodegen.Proofs.BitFields
import GpuCodegen.Proofs.WordRoundTrip
import GpuCodegen.Proofs.Outcome
import GpuCodegen.Proofs.LiveIntervals
import GpuCodegen.Proofs.FreeRanges
import GpuCodegen.Proofs.LivePaths
import GpuCodegen.Proofs.DeadHoles
import GpuCodegen.Proofs.SweepInvariant
import GpuCodegen.Proofs.RegistersApart
import GpuCodegen.Proofs.LiveRegisters
import GpuCodegen.Proofs.LaneArithmetic
import GpuCodegen.Proofs.WordEffects
import GpuCodegen.Proofs.StraightLine
import GpuCodegen.Proofs.ArithmeticWords
import GpuCodegen.Proofs.StraightLineSweep
import GpuCodegen.Proofs.PinnedSlots
import GpuCodegen.Proofs.CompiledLanes
import GpuCodegen.Proofs.FixupRemaps
import GpuCodegen.Proofs.ControlInstructions
import GpuCodegen.Proofs.BranchTargets
import GpuCodegen.Proofs.QwordLanes
import GpuCodegen.Proofs.QwordProducts
import GpuCodegen.Proofs.QwordInstructions
import GpuCodegen.Proofs.ProductSelection
import GpuCodegen.Proofs.ProductBlocks
import GpuCodegen.Proofs.ProgramListings
import GpuCodegen.Proofs.CompiledProducts
import GpuCodegen.Proofs.SpillLoop
import GpuCodegen.Proofs.FailureCauses
import GpuCodegen.Proofs.UnplacedRegisters
import GpuCodegen.Proofs.RegistersAccounted
import GpuCodegen.Proofs.SpillTemporaries
import GpuCodegen.Proofs.SpillGroups
import GpuCodegen.Proofs.SpillLocality
import GpuCodegen.Proofs.PinConflicts
import GpuCodegen.Proofs.TemporariesLocal
import GpuCodegen.Proofs.Footprints
import GpuCodegen.Proofs.OperandPlaces
import GpuCodegen.Proofs.EmittedFootprints
import GpuCodegen.Proofs.SlotAlignment
import GpuCodegen.Proofs.ScratchSlots
import GpuCodegen.Proofs.PinnedExclusive
import GpuCodegen.Proofs.OperandTypes
import GpuCodegen.Proofs.CommandTypes
import GpuCodegen.Proofs.SelectedTypes
import GpuCodegen.Proofs.SplitInstructions
import GpuCodegen.Proofs.SelectionInvariants
import GpuCodegen.Proofs.DestinationRoom
import GpuCodegen.Proofs.WindowSizes
import GpuCodegen.Proofs.SpilledRoom
import GpuCodegen.Proofs.OwnSlots
import GpuCodegen.Proofs.MemoryWrites
import GpuCodegen.Proofs.FencedWrites
import GpuCodegen.Proofs.EncodableWords
import GpuCodegen.Proofs.FullProducts
import GpuCodegen.Proofs.LeastIntervals
import GpuCodegen.Proofs.FirstFit
import GpuCodegen.Proofs.ScratchTiles
import GpuCodegen.Proofs.CompiledGathers
import GpuCodegen.Proofs.StackPointers
import GpuCodegen.Proofs.RegisterHistory
import GpuCodegen.Proofs.ReserveRoom
import GpuCodegen.Proofs.StatesRestored
import GpuCodegen.Proofs.ExistingRegisters
import GpuCodegen.Proofs.ImmediateValues
import GpuCodegen.Proofs.ScratchBudget
import GpuCodegen.Proofs.FreshRegisters
import GpuCodegen.Proofs.SimilarNames
import GpuCodegen.Proofs.StoredPrograms
import GpuCodegen.Proofs.QuarterLanes
