import GpuCodegen.Diagnostic.Trace
import GpuCodegen.Registers.FreePool
import GpuCodegen.Registers.Liveness
import GpuCodegen.Registers.RegisterMap
import GpuCodegen.Target.Settings

/-!
Linear scan placement. Intervals are visited by their start. Places of intervals that ended before
the current start go back to the free pool; then the current interval is placed:

* a pinned register takes its fixed offset or the sweep fails;
* an interval of one block that fits strictly inside an open hole borrows the owner's place;
* everything else takes the lowest aligned free offset, outside the bank of its conflict partner if
  it can.

When nothing fits, the interval with the longest remaining range goes to scratch memory.
-/

namespace GpuCodegen

/-- The window of the register file and the placement policy. -/
structure SweepConfig where
  /-- Register file bytes per thread. -/
  fileSize : UInt32
  /-- Bytes at offset zero that are never handed out. -/
  reservedLow : UInt32
  holeReuse : Bool := true
  policy : SpillPolicy := .longest
  /-- Scratch bytes per thread; zero is no limit. -/
  scratchLimit : UInt32 := 0
  deriving DecidableEq, Repr

/-- A step of the sweep worth telling. -/
inductive PlacementEvent where
  | placed (iv : Interval) (offset : UInt32)
  | pinned (iv : Interval) (offset : UInt32)
  | borrowed (iv : Interval) (owner : VReg) (hole : Interval)
  | spilled (iv : Interval) (offset : UInt32) (reused : Bool)
  deriving DecidableEq, Repr

/-- The trace line of an event. -/
def PlacementEvent.line : PlacementEvent → TraceLine
  | .placed iv offset =>
    { text := "%s -> byte %d (r%d.%d)"
      values := [iv.value, .word offset, .word (offset / 32), .word (offset % 32)] }
  | .pinned iv offset =>
    { text := "%s pinned at byte %d", values := [iv.value, .word offset] }
  | .borrowed iv owner hole =>
    { text := "%s reuses the slot of %s inside [%d,%d]"
      values := [iv.value, owner.value, .int hole.min, .int hole.max] }
  | .spilled iv offset reused =>
    { text := "spill %s to scratch byte %d (reused=%v)"
      values := [iv.value, .word offset, .truth reused] }

/-- An open hole: its store index, its owner's, and the last point at which it is borrowed. -/
structure OpenHole where
  hole : Nat
  owner : Nat
  busyUntil : Int
  deriving DecidableEq, Repr

/-- A sweep in progress. -/
structure Sweep where
  store : IntervalStore
  pool : FreePool
  /-- Store indices of the placed intervals that have not ended, in order of placement. -/
  active : List Nat := []
  holes : List OpenHole := []
  /-- Borrowing intervals with the intervals whose place they borrow. -/
  hosts : List (Nat × Nat) := []
  /-- Sizes of scratch slots by offset. -/
  slots : OrdMap UInt32 := .empty
  /-- Register file offsets. -/
  offsets : RegisterMap
  /-- Scratch offsets of spilled registers. -/
  scratch : RegisterMap
  scratchSize : UInt32
  /-- Spilled registers in order. -/
  spilled : List VReg := []
  holeReuses : Nat := 0
  /-- The intervals that may still expire, by their end. -/
  ending : List Nat
  log : List PlacementEvent := []
  deriving Repr

namespace Sweep

/-- Records an event. -/
def note (s : Sweep) (e : PlacementEvent) : Sweep := { s with log := s.log ++ [e] }

/-- A failure at this point of the sweep. -/
def stop (s : Sweep) (d : Diagnostic) : Stopped PlacementEvent := ⟨d, s.log⟩

/-- Whether an interval is placed. -/
def isPlaced (s : Sweep) (index : Nat) : Bool := s.active.contains index

/-- Ends an interval: a borrowed place stays with its owner, any other goes back to the pool. -/
def deactivate (s : Sweep) (index : Nat) : Sweep :=
  let s := { s with active := s.active.erase index }
  if (s.hosts.find? fun h => h.1 == index).isSome then
    { s with hosts := s.hosts.filter fun h => h.1 != index }
  else
    let iv := s.store.get index
    let offset := s.offsets.get iv.reg
    if s.pool.contains offset iv.slot then
      { s with pool := s.pool.release offset iv.slot }
    else
      s

/-- Ends an interval that was reached by the sweep. -/
def expireOne (s : Sweep) (index : Nat) : Sweep :=
  if (s.store.get index).hole then
    { s with holes := s.holes.eraseP fun h => h.hole == index }
  else if s.isPlaced index then
    s.deactivate index
  else
    s

/-- Ends every interval whose last point lies before `start`. -/
def expire (s : Sweep) (start : Int) : Sweep :=
  let ended := fun index => decide ((s.store.get index).max < start)
  let s' := (s.ending.takeWhile ended).foldl expireOne s
  { s' with ending := s.ending.dropWhile ended }

/-- Opens a hole if its owner is placed in a place of its own. -/
def openHole (s : Sweep) (lv : Liveness) (cfg : SweepConfig) (index : Nat) : Sweep :=
  let hole := s.store.get index
  match lv.indexOf? hole.reg with
  | some owner =>
    if cfg.holeReuse && s.isPlaced owner && !(s.store.get owner).reused then
      { s with holes := s.holes ++ [⟨index, owner, hole.min⟩] }
    else
      s
  | none => s

/-- Gives an interval a place. -/
def assign (s : Sweep) (index : Nat) (offset : UInt32) : Sweep :=
  { s with
    offsets := s.offsets.insert (s.store.get index).reg offset
    active := s.active ++ [index] }

/-- An active interval whose place overlaps a range. -/
def holder? (s : Sweep) (offset size : UInt32) : Option Nat :=
  s.active.find? fun a =>
    let iv := s.store.get a
    let o := s.offsets.get iv.reg
    o < offset + size && offset < o + iv.slot

/-- Why a pinned register's place cannot be taken. -/
def pinConflict (s : Sweep) (iv : Interval) (offset : UInt32) : Diagnostic :=
  match s.holder? offset iv.slot with
  | some h => .placement (.pinHeld iv.reg offset (s.store.get h).reg) iv.reg
  | none =>
    match s.offsets.registerAt? offset with
    | some r => .placement (.pinGiven iv.reg offset r) iv.reg
    | none => .placement (.pinOccupied iv.reg offset) iv.reg

/-- Places a pinned register. Inside the window its range has to be free, outside it must not
overlap an active interval. -/
def placePinned (s : Sweep) (index : Nat) (offset : UInt32) :
    Except (Stopped PlacementEvent) Sweep :=
  let iv := s.store.get index
  let done (s : Sweep) : Sweep := (s.assign index offset).note (.pinned iv offset)
  if s.pool.contains offset iv.slot then
    match s.pool.claim offset iv.slot with
    | some pool => .ok (done { s with pool := pool })
    | none => .error (s.stop (s.pinConflict iv offset))
  else if (s.holder? offset iv.slot).isSome then
    .error (s.stop (s.pinConflict iv offset))
  else
    .ok (done s)

/-- Whether an open hole takes an interval. -/
def holeTakes (s : Sweep) (iv : Interval) (h : OpenHole) : Bool :=
  let hole := s.store.get h.hole
  let owner := s.store.get h.owner
  hole.block == iv.block && iv.inside hole && h.busyUntil < iv.min && iv.slot ≤ owner.slot &&
    s.offsets.get owner.reg % iv.alignment == 0

/-- Marks a hole as borrowed up to a point. -/
def occupy (taken : OpenHole) (last : Int) (h : OpenHole) : OpenHole :=
  if h.hole = taken.hole then { h with busyUntil := last } else h

/-- Borrows the place of the first open hole that takes the interval. -/
def tryHole (s : Sweep) (cfg : SweepConfig) (index : Nat) : Option Sweep :=
  let iv := s.store.get index
  if !cfg.holeReuse || iv.block == noBlock then
    none
  else
    match s.holes.find? (s.holeTakes iv) with
    | none => none
    | some h =>
      let owner := s.store.get h.owner
      let s :=
        { s with
          store := s.store.modify index fun iv => { iv with reused := true }
          hosts := s.hosts ++ [(index, h.owner)]
          holes := s.holes.map (occupy h iv.max)
          holeReuses := s.holeReuses + 1 }
      some ((s.assign index (s.offsets.get owner.reg)).note
        (.borrowed (s.store.get index) owner.reg (s.store.get h.hole)))

/-- Whether an active interval may be sent to scratch memory: it is not pinned, borrows no place and
lends none. -/
def spillable (s : Sweep) (k : Kernel) (index : Nat) : Bool :=
  let iv := s.store.get index
  (k.pin? iv.reg).isNone && !iv.reused && !(s.hosts.any fun h => h.2 == index)

/-- The spillable active interval that ends last, if it ends after the current one. -/
def victim? (s : Sweep) (k : Kernel) (current : Interval) : Option Nat :=
  (s.active.foldl
    (fun (best : Option Nat × Int) a =>
      let stop := (s.store.get a).max
      if s.spillable k a && best.2 < stop then (some a, stop) else best)
    (none, current.max)).1

/-- A scratch slot large enough whose latest occupant ended before the interval starts. -/
def reusableSlot? (s : Sweep) (lv : Liveness) (iv : Interval) (size : UInt32) : Option UInt32 :=
  (s.scratch.reverseEntries.find? fun (offset, r) =>
    match lv.intervalOf? r with
    | some previous => decide (previous.max < iv.min) && size ≤ (s.slots.find? offset).getD 0
    | none => false).map (·.1)

/-- Takes an interval's place away, with the holes it lends. -/
def unplace (s : Sweep) (index : Nat) : Sweep :=
  if s.isPlaced index then
    let s := s.deactivate index
    { s with
      holes := s.holes.filter fun h => h.owner != index
      offsets := s.offsets.erase (s.store.get index).reg }
  else
    s

/-- The scratch bytes an interval takes: at least one general register. -/
def scratchBytes (iv : Interval) : UInt32 := if iv.slot < 32 then 32 else iv.slot

/-- Sends an interval to scratch memory. -/
def spill (s : Sweep) (lv : Liveness) (cfg : SweepConfig) (index : Nat) :
    Except (Stopped PlacementEvent) Sweep :=
  let iv := s.store.get index
  let s := s.unplace index
  let size := scratchBytes iv
  let reused := s.reusableSlot? lv iv size
  let offset := reused.getD s.scratchSize
  let s :=
    if reused.isSome then s
    else { s with scratchSize := s.scratchSize + size, slots := s.slots.insert offset size }
  if 0 < cfg.scratchLimit ∧ cfg.scratchLimit < s.scratchSize then
    .error (s.stop (.placement (.scratchLimit iv.reg s.scratchSize cfg.scratchLimit) iv.reg))
  else
    .ok ({ s with
           scratch := s.scratch.insert iv.reg offset
           spilled := s.spilled ++ [iv.reg] }.note (.spilled iv offset reused.isSome))

/-- The bank an interval should keep out of: that of its conflict partner while that is placed. -/
def avoidedBank (s : Sweep) (lv : Liveness) (iv : Interval) : Option Nat :=
  if iv.conflict = .none then
    none
  else
    match lv.indexOf? iv.conflict with
    | some p => if s.isPlaced p then some (bankOf (s.offsets.get iv.conflict)) else none
    | none => none

/-- Places an interval in the lowest free range, spilling one interval after another until it fits or
is itself spilled. Every spill of another interval takes it off the active ones, of which there are
`fuel`. -/
def placeOrSpill (k : Kernel) (lv : Liveness) (cfg : SweepConfig) (index : Nat)
    (avoid : Option Nat) : Nat → Sweep → Except (Stopped PlacementEvent) Sweep
  | fuel, s =>
    let iv := s.store.get index
    match s.pool.allocate iv.slot iv.alignment avoid with
    | some (offset, pool) =>
      .ok (({ s with pool := pool }.assign index offset).note (.placed iv offset))
    | none =>
      if cfg.policy = .never then
        .error (s.stop ((Diagnostic.placement (.exhausted iv.reg) iv.reg).withHelp
          s!"{s.pool.available} bytes free of {s.pool.limit - s.pool.base}"))
      else
        match fuel, s.victim? k iv with
        | fuel + 1, some v =>
          match s.spill lv cfg v with
          | .ok s => placeOrSpill k lv cfg index avoid fuel s
          | .error e => .error e
        | _, _ => s.spill lv cfg index

/-- Places an interval. -/
def place (s : Sweep) (k : Kernel) (lv : Liveness) (cfg : SweepConfig) (index : Nat) :
    Except (Stopped PlacementEvent) Sweep :=
  let iv := s.store.get index
  let window := s.pool.limit - s.pool.base
  match k.pin? iv.reg with
  | some offset => s.placePinned index offset
  | none =>
    if window < iv.slot then
      .error (s.stop (.placement (.oversized iv.reg iv.slot window) iv.reg))
    else
      match s.tryHole cfg index with
      | some s => .ok s
      | none => placeOrSpill k lv cfg index (s.avoidedBank lv iv) s.active.length s

/-- Visits one interval. -/
def visit (k : Kernel) (lv : Liveness) (cfg : SweepConfig) (s : Sweep) (index : Nat) :
    Except (Stopped PlacementEvent) Sweep :=
  let iv := s.store.get index
  let s := s.expire iv.min
  if iv.hole then .ok (s.openHole lv cfg index) else s.place k lv cfg index

/-- The sweep before the first interval. The top `reserve` bytes of the register file are kept for
spill code; scratch slots start at `scratchBase`. -/
def start (lv : Liveness) (cfg : SweepConfig) (reserve scratchBase : UInt32) : Sweep :=
  let fresh (iv : Interval) : Interval := { iv with reused := false }
  let store := { lv.store with intervals := lv.store.intervals.map fresh }.sorted
  { store := store
    pool := .new cfg.reservedLow (cfg.fileSize - reserve)
    offsets := (RegisterMap.ofCapacity lv.bound).enableReverse
    scratch := (RegisterMap.ofCapacity 0).enableReverse
    scratchSize := scratchBase
    ending := store.byEnd }

/-- Places every interval of a kernel. -/
def run (k : Kernel) (lv : Liveness) (cfg : SweepConfig) (reserve scratchBase : UInt32) :
    Except (Stopped PlacementEvent) Sweep :=
  if cfg.fileSize ≤ cfg.reservedLow + reserve then
    .error ⟨.config (.reserved cfg.fileSize cfg.reservedLow reserve), []⟩
  else
    let s := start lv cfg reserve scratchBase
    s.store.byStart.foldlM (visit k lv cfg) s

end Sweep

end GpuCodegen
