import GpuCodegen.Proofs.OperandPlaces
import GpuCodegen.Proofs.ScratchMessages

/-! Spills and reloads move a run of registers block by block. The blocks tile the run, and a block that
is copied to the registers after the header overwrites no register that is still to be stored; so each
register of the run ends up in its own range of scratch memory, and a reload brings it back. -/

namespace GpuCodegen.Scratch
open Native Generation WordRoundTrip Outcome ScratchMachine Sequence

/-! ## Blocks -/

/-- Blocks of registers that follow each other up to a last register. -/
inductive Tiles (last : Nat) : Nat → List (Nat × Nat) → Prop
  | done : Tiles last last []
  | next {first n : Nat} {rest : List (Nat × Nat)} : (n = 1 ∨ n = 2 ∨ n = 4) → Tiles last (first + n) rest →
      Tiles last first ((first, n) :: rest)

theorem blocks_tiles (first n : Nat) : Tiles (first + n) first (blocks first n) := by
  induction first, n using blocks.induct with
  | case1 first => exact .done
  | case2 first => exact .next (.inl rfl) .done
  | case3 first => exact .next (.inr (.inl rfl)) .done
  | case4 first => exact .next (.inr (.inl rfl)) (.next (.inl rfl) .done)
  | case5 first n ih =>
    have total : first + 4 + n = first + (n + 4) := by omega
    exact .next (.inr (.inr rfl)) (total ▸ ih)

theorem Tiles.le {last first : Nat} {bs : List (Nat × Nat)} (tiles : Tiles last first bs) : first ≤ last := by
  induction tiles with
  | done => exact Nat.le_refl _
  | next _ _ ih => omega

/-- Operands of a spill or a reload: a header, registers on one side of it, and a range of scratch memory
whose blocks are all in reach. -/
structure Transfers (g : Generation) (header data : Register) (registers : Nat) (offset : UInt32) : Prop where
  headed : Nameable g header
  named : Nameable g (data.retype .uw)
  apart : header.number.toNat + 1 ≤ data.number.toNat ∨ data.number.toNat + registers ≤ header.number.toNat
  inside : data.number.toNat + registers ≤ 128
  aligned : offset % grfSize = 0
  reach : ∀ block ∈ blocks 0 registers, blockOffset offset block.1 ≤ maxScratchOffset

section
variable {g : Generation} {s : State} {header data : Register} {registers : Nat} {offset : UInt32}

/-- Registers of the run, counted from its first. -/
theorem data_moved (named : Nameable g (data.retype .uw)) {k : Nat} (inside : data.number.toNat + k < 128) :
    Nameable g ((data.offset (UInt32.ofNat k) 0).retype .uw) ∧
      (data.offset (UInt32.ofNat k) 0).number.toNat = data.number.toNat + k := by
  have sub : data.sub.toNat < 32 := named.sub
  have size : grfSize.toNat = 32 := rfl
  have zero : (0 : UInt32).toNat = 0 := rfl
  have number : (data.offset (UInt32.ofNat k) 0).number.toNat = data.number.toNat + k := by
    simp only [Register.offset, UInt32.toNat_add, UInt32.toNat_div, UInt32.toNat_ofNat', size, zero]
    omega
  refine ⟨⟨named.file, named.direct, fun entry => ?_, ?_, ?_, named.type⟩, number⟩
  · obtain ⟨file, listed, -, address, vertical, width, horizontal⟩ := named.fits entry
    refine ⟨file, listed, fun architecture => ?_, address, vertical, width, horizontal⟩
    have general : data.file = .grf := named.file
    rw [show ((data.offset (UInt32.ofNat k) 0).retype .uw).file = data.file from rfl, general] at architecture
    cases architecture
  · change (data.offset (UInt32.ofNat k) 0).number.toNat < 128
    omega
  · exact data.offset_sub_lt (UInt32.ofNat k) 0

/-- Blocks of a run in reach start at whole registers of scratch memory. -/
theorem Transfers.block (fits : Transfers g header data registers offset) {block : Nat × Nat}
    (listed : block ∈ blocks 0 registers) : (blockOffset offset block.1).toNat = offset.toNat + 32 * block.1 ∧
      blockOffset offset block.1 % grfSize = 0 := by
  have size : grfSize.toNat = 32 := rfl
  have inside := fits.inside
  have within {first : Nat} {bs : List (Nat × Nat)} (tiles : Tiles registers first bs) :
      ∀ b ∈ bs, b.1 < registers := by
    induction tiles with
    | done => exact nofun
    | next kind rest ih =>
      have bound := rest.le
      intro b member
      rcases List.mem_cons.mp member with rfl | later
      · simp only
        omega
      · exact ih b later
  have tiles := blocks_tiles 0 registers
  rw [Nat.zero_add] at tiles
  have small := within tiles block listed
  have first : offset ≤ maxScratchOffset := by
    have start {bs : List (Nat × Nat)} (tiles : Tiles registers 0 bs) (some_ : block ∈ bs) :
        ∃ n, (0, n) ∈ bs := by
      cases tiles with
      | done => cases some_
      | next => exact ⟨_, List.mem_cons_self⟩
    obtain ⟨n, member⟩ := start tiles listed
    have reach := fits.reach _ member
    have zero : blockOffset offset 0 = offset := by simp [blockOffset]
    rwa [zero] at reach
  have bound : offset.toNat ≤ 131040 := UInt32.le_iff_toNat_le.mp first
  have place : (blockOffset offset block.1).toNat = offset.toNat + 32 * block.1 := by
    simp only [blockOffset, UInt32.toNat_add, UInt32.toNat_mul, UInt32.toNat_ofNat', size]
    omega
  have aligned := congrArg UInt32.toNat fits.aligned
  rw [UInt32.toNat_mod, size, UInt32.toNat_zero] at aligned
  refine ⟨place, ?_⟩
  rw [← UInt32.toNat_inj, UInt32.toNat_mod, place, size, UInt32.toNat_zero]
  omega

end

/-! ## Moving registers -/

/-- Stores a run of registers into the space that a header names. -/
def storeFrom (t : ScratchMachine) (header src offset n : Nat) : ScratchMachine :=
  { t with
    spaces := fun name =>
      if name = row t.machine header then (t.spaces name).copy offset t.machine.registers (32 * src) (32 * n)
      else t.spaces name }

/-- Machines that differ in the registers that follow a header, four at most. -/
structure SameBesides (header : Nat) (m m' : Machine) : Prop where
  registers : ∀ a, a < 32 * (header + 1) ∨ 32 * (header + 5) ≤ a → m'.registers a = m.registers a
  address : m'.address = m.address
  flag : m'.flag = m.flag

section
variable {t t' : ScratchMachine} {header dst src offset n k : Nat}

theorem copyRows_zero : copyRows t dst src 0 = t := by
  unfold copyRows
  rw [Nat.mul_zero, Memory.copy_none]

theorem copyRows_self : copyRows t dst dst n = t := by
  have same : t.machine.registers.copy (32 * dst) t.machine.registers (32 * dst) (32 * n) =
      t.machine.registers := by
    funext a
    unfold Memory.copy
    split
    · congr 1
      omega
    · rfl
  unfold copyRows
  rw [same]

/-- Ascending copies keep their sources when they go down or do not overlap. -/
theorem copyRows_append (order : dst ≤ src ∨ src + n + k ≤ dst) :
    copyRows (copyRows t dst src n) (dst + n) (src + n) k = copyRows t dst src (n + k) := by
  unfold copyRows
  simp only
  rw [Nat.mul_add, Nat.mul_add, Nat.mul_add, ← Memory.copy_append (32 * k)]
  congr 2
  refine Memory.copy_congr fun i small => Memory.copy_outside ?_
  omega

theorem row_congr {m m' : Machine}
    (same : ∀ a, 32 * header ≤ a → a < 32 * header + 32 → m'.registers a = m.registers a) :
    row m' header = row m header := by
  refine List.map_congr_left fun i member => same _ (by omega) ?_
  have small := List.mem_range.mp member
  omega

theorem load_zero : t.load header dst offset 0 = t := by
  unfold ScratchMachine.load
  rw [Nat.mul_zero, Memory.copy_none]

/-- Two loads side by side are one, as long as they spare the header. -/
theorem load_append (spared : header < dst ∨ dst + n ≤ header) :
    (t.load header dst offset n).load header (dst + n) (offset + 32 * n) k =
      t.load header dst offset (n + k) := by
  have name : row (t.load header dst offset n).machine header = row t.machine header :=
    row_congr fun a low high => Memory.copy_outside (by omega)
  unfold ScratchMachine.load at name ⊢
  simp only at name ⊢
  rw [name, Nat.mul_add, Nat.mul_add, Memory.copy_append]

/-- Two stores side by side are one. What lies between them may change registers, but not those of the
second store and not the header. -/
theorem storeFrom_append {m : Machine} (name : row m header = row t.machine header)
    (kept : ∀ i < 32 * k, m.registers (32 * (src + n) + i) = t.machine.registers (32 * (src + n) + i)) :
    (storeFrom { storeFrom t header src offset n with machine := m } header (src + n) (offset + 32 * n) k).spaces =
      (storeFrom t header src offset (n + k)).spaces := by
  funext space
  simp only [storeFrom, name]
  split
  · rw [Memory.copy_congr kept, Nat.mul_add, Nat.mul_add, Memory.copy_append]
  · rfl

theorem SameBesides.trans {m m' m'' : Machine} (first : SameBesides header m m') (second : SameBesides header m' m'') :
    SameBesides header m m'' :=
  ⟨fun a outside => (second.registers a outside).trans (first.registers a outside),
    second.address.trans first.address, second.flag.trans first.flag⟩

end

/-! ## Runs of blocks -/

section
variable {g : Generation} {s : State} {header data : Register} {registers : Nat} {offset : UInt32}

/-- The copies that stage a block move its registers as they are. -/
theorem executes_stage (first : UInt32) {n : Nat} (issuable : Issuable g s) (width : s.execWidth = 8)
    (always : s.predicate = 0) (order : header.number.toNat + 1 ≤ first.toNat ∨ first.toNat + n ≤ header.number.toNat)
    (staged : header.number.toNat + n < 128) (inside : first.toNat + n ≤ 128) :
    Executes g (under s (stageBlock header first n)) fun t t' =>
      t' = copyRows t (header.number.toNat + 1) first.toNat n := by
  induction n with
  | zero => exact executes_nil fun t => copyRows_zero.symm
  | succ n ih =>
    have one : (1 : UInt32).toNat = 1 := rfl
    have target : (header.number + 1 + UInt32.ofNat n).toNat = header.number.toNat + 1 + n := by
      simp only [UInt32.toNat_add, UInt32.toNat_ofNat', one]
      omega
    have source : (first + UInt32.ofNat n).toNat = first.toNat + n := by
      simp only [UInt32.toNat_add, UInt32.toNat_ofNat']
      omega
    have split : under s (stageBlock header first (n + 1)) = under s (stageBlock header first n) ++
        [⟨s, .mov (.ud8 (header.number + 1 + UInt32.ofNat n) 0) (.ud8 (first + UInt32.ofNat n) 0)⟩] := by
      simp [under, stageBlock, List.range_succ]
    rw [split]
    refine (ih (by omega) (by omega) (by omega)).append
      (executes_copy issuable width always (by omega) (by omega)) ?_
    rintro t _ _ rfl rfl
    rw [target, source]
    exact copyRows_append (by omega)

variable (issuable : Issuable g s) (width : s.execWidth = 8) (always : s.predicate = 0)
  (fits : Transfers g header data registers offset)
include issuable fits

/-- Reading blocks one after the other loads the rest of the run. -/
theorem executes_reloads {first : Nat} {bs : List (Nat × Nat)} (tiles : Tiles registers first bs)
    (listed : ∀ block ∈ bs, block ∈ blocks 0 registers) :
    Executes g (under s (bs.map (reloadBlock header data offset))) fun t t' =>
      t' = t.load header.number.toNat (data.number.toNat + first) (offset.toNat + 32 * first)
        (registers - first) := by
  induction tiles with
  | done =>
    refine executes_nil fun t => ?_
    rw [Nat.sub_self, load_zero]
  | @next first n rest size tiles ih =>
    have end_ := tiles.le
    have inside := fits.inside
    have apart := fits.apart
    obtain ⟨place, aligned⟩ := fits.block (listed _ List.mem_cons_self)
    obtain ⟨named, number⟩ := data_moved fits.named (k := first) (by omega)
    have read := executes_load issuable fits.headed size aligned (fits.reach _ (listed _ List.mem_cons_self)) named
    refine read.append (ih fun block member => listed block (List.mem_cons_of_mem _ member)) ?_
    rintro t _ _ rfl rfl
    have next : offset.toNat + 32 * (first + n) = offset.toNat + 32 * first + 32 * n := by omega
    have total : n + (registers - (first + n)) = registers - first := by omega
    rw [number, place, next, ← Nat.add_assoc, load_append (by omega), total]

include width always

/-- Writing a block stores its registers, wherever they are. -/
theorem executes_spillBlock {first n : Nat} (size : n = 1 ∨ n = 2 ∨ n = 4) (end_ : first + n ≤ registers)
    (listed : (first, n) ∈ blocks 0 registers) (staged : header.number.toNat + n < 128) :
    Executes g (under s (spillBlock header data offset (first, n))) fun t t' =>
      t' = (copyRows t (header.number.toNat + 1) (data.number.toNat + first) n).store header.number.toNat
        (offset.toNat + 32 * first) n := by
  have inside := fits.inside
  have apart := fits.apart
  obtain ⟨place, aligned⟩ := fits.block listed
  have source : (data.number + UInt32.ofNat first).toNat = data.number.toNat + first := by
    simp only [UInt32.toNat_add, UInt32.toNat_ofNat']
    omega
  have write := executes_store issuable fits.headed size aligned (fits.reach _ listed)
  have split (stage : List Command) : under s (stage ++ [.scratchWrite header (blockOffset offset first) n]) =
      under s stage ++ [⟨s, .scratchWrite header (blockOffset offset first) n⟩] := by simp [under]
  simp only [spillBlock]
  rw [split]
  split
  · -- a block right after the header stays where it is
    rename_i here
    have same : data.number.toNat + first = header.number.toNat + 1 := by
      have one : (1 : UInt32).toNat = 1 := rfl
      rw [← source, here, UInt32.toNat_add, one]
      omega
    refine write.mono ?_
    rintro t _ rfl
    rw [same, copyRows_self, place]
  · refine (executes_stage (data.number + UInt32.ofNat first) issuable width always (by omega) staged
      (by omega)).append write ?_
    rintro t _ _ rfl rfl
    rw [source, place]

/-- Writing blocks one after the other stores the rest of the run. -/
theorem executes_spills {first : Nat} {bs : List (Nat × Nat)} (tiles : Tiles registers first bs)
    (listed : ∀ block ∈ bs, block ∈ blocks 0 registers)
    (staged : ∀ block ∈ blocks 0 registers, header.number.toNat + block.2 < 128) :
    Executes g (under s (bs.flatMap (spillBlock header data offset))) fun t t' =>
      t'.spaces = (storeFrom t header.number.toNat (data.number.toNat + first) (offset.toNat + 32 * first)
        (registers - first)).spaces ∧ SameBesides header.number.toNat t.machine t'.machine := by
  induction tiles with
  | done =>
    refine executes_nil fun t => ⟨?_, fun _ _ => rfl, rfl, rfl⟩
    funext name
    simp only [storeFrom, Nat.sub_self, Nat.mul_zero, Memory.copy_none, ite_self]
  | @next first n rest size tiles ih =>
    have end_ := tiles.le
    have inside := fits.inside
    have apart := fits.apart
    have here := listed _ List.mem_cons_self
    have write := executes_spillBlock issuable width always fits size (by omega) here (staged _ here)
    have split : under s (((first, n) :: rest).flatMap (spillBlock header data offset)) =
        under s (spillBlock header data offset (first, n)) ++
          under s (rest.flatMap (spillBlock header data offset)) := by simp [under]
    rw [split]
    refine write.append (ih fun block member => listed block (List.mem_cons_of_mem _ member)) ?_
    rintro t _ t'' rfl ⟨spaces, same⟩
    -- staging spares the header and the registers that are still to be stored
    have spared (a : Nat) (outside : a < 32 * (header.number.toNat + 1) ∨ 32 * (header.number.toNat + 1 + n) ≤ a) :
        (copyRows t (header.number.toNat + 1) (data.number.toNat + first) n).machine.registers a =
          t.machine.registers a := Memory.copy_outside (by omega)
    have name : row (copyRows t (header.number.toNat + 1) (data.number.toNat + first) n).machine
        header.number.toNat = row t.machine header.number.toNat :=
      row_congr fun a low high => spared a (by omega)
    have stored : ((copyRows t (header.number.toNat + 1) (data.number.toNat + first) n).store
        header.number.toNat (offset.toNat + 32 * first) n).spaces =
        (storeFrom t header.number.toNat (data.number.toNat + first) (offset.toNat + 32 * first) n).spaces := by
      funext space
      simp only [ScratchMachine.store, storeFrom, name]
      split
      · refine Memory.copy_congr fun i small => ?_
        refine (Memory.copy_inside (by omega) (by omega)).trans ?_
        congr 1
        omega
      · rfl
    refine ⟨?_, ?_⟩
    · have next : offset.toNat + 32 * (first + n) = offset.toNat + 32 * first + 32 * n := by omega
      have total : n + (registers - (first + n)) = registers - first := by omega
      rw [spaces, next, ← Nat.add_assoc, ← total, ← storeFrom_append (m := (copyRows t (header.number.toNat + 1)
        (data.number.toNat + first) n).machine) name fun i small => spared _ (by omega)]
      simp only [storeFrom] at stored ⊢
      rw [stored]
      rfl
    · refine SameBesides.trans ⟨fun a outside => spared a (by omega), rfl, rfl⟩ same

end

/-! ## Spills and reloads -/

/-- Each register of a run went to its own range of the space that the thread header names, and no other
byte of scratch memory changed. -/
structure Spilled (data registers offset : Nat) (t t' : ScratchMachine) : Prop where
  stored : ∀ j < registers, ∀ i < 32,
    t'.spaces (row t.machine 0) (offset + 32 * j + i) = t.machine.registers (32 * (data + j) + i)
  around : ∀ name a, name ≠ row t.machine 0 ∨ a < offset ∨ offset + 32 * registers ≤ a →
    t'.spaces name a = t.spaces name a

/-- Each register of a run came from its own range of the space that the thread header names, and no other
register changed but the message header. -/
structure Reloaded (header data registers offset : Nat) (t t' : ScratchMachine) : Prop where
  loaded : ∀ j < registers, ∀ i < 32,
    t'.machine.registers (32 * (data + j) + i) = t.spaces (row t.machine 0) (offset + 32 * j + i)
  around : ∀ a, a < 32 * header ∨ 32 * header + 32 ≤ a → a < 32 * data ∨ 32 * (data + registers) ≤ a →
    t'.machine.registers a = t.machine.registers a
  address : t'.machine.address = t.machine.address
  flag : t'.machine.flag = t.machine.flag
  spaces : t'.spaces = t.spaces

/-- A run of registers holds what another one held. -/
def Restored (data data' registers : Nat) (t t' : ScratchMachine) : Prop :=
  ∀ j < registers, ∀ i < 32,
    t'.machine.registers (32 * (data' + j) + i) = t.machine.registers (32 * (data + j) + i)

section
variable {g : Generation} {s : State} {header data : Register} {registers : Nat} {offset : UInt32}

theorem unmasked_issuable (issuable : Issuable g s) : Issuable g (s.unmasked 8) :=
  ⟨⟨issuable.quarter, by change 0 < 16; decide⟩, .inr (.inr (.inl rfl)), issuable.flag⟩

/-- After a header was copied it names the space that the thread header names. -/
theorem row_header (t : ScratchMachine) (header : Nat) :
    row (copyRows t header 0 1).machine header = row t.machine 0 := by
  refine List.map_congr_left fun i member => ?_
  have small := List.mem_range.mp member
  refine (Memory.copy_inside (by omega) (by omega)).trans ?_
  congr 1
  omega

variable (issuable : Issuable g s) (fits : Transfers g header data registers offset)
include issuable fits

theorem executes_header : Executes g [⟨s.unmasked 8, scratchHeader header⟩] fun t t' =>
    t' = copyRows t header.number.toNat 0 1 :=
  executes_copy (unmasked_issuable issuable) rfl rfl fits.headed.number (by decide)

/-- Reading the blocks of a run loads the run. -/
theorem executes_reload : Executes g (reload s header data registers offset)
    (Reloaded header.number.toNat data.number.toNat registers offset.toNat) := by
  have inside := fits.inside
  have apart := fits.apart
  have tiles := blocks_tiles 0 registers
  rw [Nat.zero_add] at tiles
  refine (executes_header issuable fits).append
    (executes_reloads (unmasked_issuable issuable) fits tiles fun _ member => member) ?_
  rintro t _ _ rfl rfl
  simp only [Nat.mul_zero, Nat.add_zero, Nat.sub_zero]
  have name := row_header t header.number.toNat
  refine ⟨?_, ?_, rfl, rfl, rfl⟩
  · intro j small i byte
    refine (Memory.copy_inside (by omega) (by omega)).trans ?_
    rw [name]
    change t.spaces _ _ = _
    congr 1
    omega
  · intro a besidesHeader besidesData
    exact (Memory.copy_outside (by omega)).trans (Memory.copy_outside (by omega))

/-- Writing the blocks of a run stores the run, and the thread header stays. -/
theorem executes_spill (staged : ∀ block ∈ blocks 0 registers, header.number.toNat + block.2 < 128) :
    Executes g (spill s header data registers offset) fun t t' =>
      Spilled data.number.toNat registers offset.toNat t t' ∧ row t'.machine 0 = row t.machine 0 := by
  have inside := fits.inside
  have apart := fits.apart
  have tiles := blocks_tiles 0 registers
  rw [Nat.zero_add] at tiles
  refine (executes_header issuable fits).append
    (executes_spills (unmasked_issuable issuable) rfl rfl fits tiles (fun _ member => member) staged) ?_
  rintro t _ t' rfl ⟨spaces, same⟩
  simp only [Nat.mul_zero, Nat.add_zero, Nat.sub_zero] at spaces
  have name := row_header t header.number.toNat
  have kept (a : Nat) (besides : a < 32 * header.number.toNat ∨ 32 * header.number.toNat + 32 ≤ a) :
      (copyRows t header.number.toNat 0 1).machine.registers a = t.machine.registers a :=
    Memory.copy_outside (by omega)
  refine ⟨⟨?_, ?_⟩, ?_⟩
  · intro j small i byte
    rw [spaces]
    simp only [storeFrom, name, if_true]
    rw [Memory.copy_inside (by omega) (by omega), kept _ (by omega)]
    congr 1
    omega
  · intro space a outside
    rw [spaces]
    simp only [storeFrom, name]
    split
    · rename_i same
      exact Memory.copy_outside (by rcases outside with other | rest; exacts [absurd same other, by omega])
    · rfl
  · refine row_congr fun a low high => (same.registers a (by omega)).trans ?_
    by_cases first : header.number.toNat = 0
    · refine (Memory.copy_inside (by omega) (by omega)).trans ?_
      congr 1
      omega
    · exact kept a (by omega)

end

/-- **Spills and reloads.** The words of both exist. A spill stores each register of its run in a range of
its own and touches no other byte of scratch memory. A reload brings each register of its run from its
range and changes no other register but the header. So a reload after a spill restores the value. -/
theorem spill_reload {g : Generation} {s : State} {header data header' data' : Register} {registers : Nat}
    {offset : UInt32} (issuable : Issuable g s) (spills : Transfers g header data registers offset)
    (staged : ∀ block ∈ blocks 0 registers, header.number.toNat + block.2 < 128)
    (reloads : Transfers g header' data' registers offset) :
    Executes g (spill s header data registers offset) (Spilled data.number.toNat registers offset.toNat) ∧
    Executes g (reload s header' data' registers offset)
      (Reloaded header'.number.toNat data'.number.toNat registers offset.toNat) ∧
    Executes g (spill s header data registers offset ++ reload s header' data' registers offset)
      (Restored data.number.toNat data'.number.toNat registers) := by
  have stores := executes_spill issuable spills staged
  have loads := executes_reload issuable reloads
  refine ⟨stores.mono fun _ _ => And.left, loads, stores.append loads ?_⟩
  rintro t t' t'' ⟨spilled, thread⟩ reloaded j small i byte
  rw [reloaded.loaded j small i byte, thread, spilled.stored j small i byte]

/-- Seven registers right after their header take a block of each size; they come back below another
header. -/
theorem spill_reload_seven :
    Transfers .gen6 (.ud8 120 0) (.ud8 121 0) 7 64 ∧ Transfers .gen6 (.ud8 10 0) (.ud8 3 0) 7 64 ∧
      Executes .gen6 (spill { execWidth := 16 } (.ud8 120 0) (.ud8 121 0) 7 64) (Spilled 121 7 64) ∧
      Executes .gen6 (reload { execWidth := 16 } (.ud8 10 0) (.ud8 3 0) 7 64) (Reloaded 10 3 7 64) ∧
      Executes .gen6 (spill { execWidth := 16 } (.ud8 120 0) (.ud8 121 0) 7 64 ++
        reload { execWidth := 16 } (.ud8 10 0) (.ud8 3 0) 7 64) (Restored 121 3 7) := by
  have named (n : UInt32) (small : n.toNat < 128) : Nameable .gen6 ((Register.ud8 n 0).retype .uw) :=
    (ud8_vector small).nameable (by decide) (registerTypeCode_exists .gen6 (.inr rfl))
  have spills : Transfers .gen6 (.ud8 120 0) (.ud8 121 0) 7 64 :=
    ⟨ud8_nameable .gen6 (by decide), named 121 (by decide), by decide, by decide, rfl, by decide⟩
  have reloads : Transfers .gen6 (.ud8 10 0) (.ud8 3 0) 7 64 :=
    ⟨ud8_nameable .gen6 (by decide), named 3 (by decide), by decide, by decide, rfl, by decide⟩
  have issuable : Issuable .gen6 { execWidth := 16 } := ⟨⟨by decide, by decide⟩, by decide, ⟨_, rfl⟩⟩
  exact ⟨spills, reloads, spill_reload issuable spills (by decide) reloads⟩

end GpuCodegen.Scratch
