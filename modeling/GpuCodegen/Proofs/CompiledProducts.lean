import GpuCodegen.Proofs.PinnedSlots
import GpuCodegen.Proofs.ProductBlocks
import GpuCodegen.Proofs.ProgramListings

/-! Compiled 64-bit products. Where the target has no multiplication of qwords, every product of qwords is
a run of words that leaves in each lane the low or the high half of the product of its sources. -/

namespace GpuCodegen.Products
open Native Lanes LiveIntervals Outcome Placement

theorem Expands.not_jump {half : Half} {i : Instruction} {block : List Instruction} {handed : List VReg}
    (expands : Expands half i block handed) : ∀ j ∈ block, j.op ≠ .jump := by
  have move {o v : Operand} {load : List Instruction} {handed : List VReg} (loads : Loads i o v load handed) :
      ∀ j ∈ load, j.op ≠ .jump := by
    cases loads <;> simp [loadInto]
  have back {v : Operand} {copy : List Instruction} {handed : List VReg} (aims : Aims i v copy handed) :
      ∀ j ∈ copy, j.op ≠ .jump := by
    cases aims <;> simp [copyFrom]
  cases expands with
  | intro loadsLeft loadsRight aims length =>
    simp only [List.forall_mem_append, List.forall_mem_cons]
    refine ⟨move loadsLeft, move loadsRight, ?_, back aims⟩
    cases half <;> rintro ⟨⟩

theorem Expands.width {g : Generation} {f : Emission.Frame} {simd width : Int} {half : Half} {i : Instruction}
    {block : List Instruction} {handed : List VReg} {pieces : List (List Word)} (expands : Expands half i block handed)
    (base : f.base = StraightLine.plainState simd) (whole : width ≤ 8 ∨ width = 16)
    (lanes : f.allocation.kernel.widthOf i = width) (made : block.mapM (Branches.encoded g f) = .ok pieces) :
    IsWidth width := by
  rcases whole with narrow | rfl
  · cases expands with
    | @intro left right dst _ _ _ _ _ _ temps loadsLeft loadsRight aims length =>
      have same : f.allocation.kernel.widthOf (half.instruction i dst left right temps) = width := lanes
      simp only [List.mapM_append, List.mapM_cons, bind_ok] at made
      obtain ⟨_, -, _, ⟨_, -, _, ⟨piece, encoded, -⟩, -⟩, -⟩ := made
      exact product_width base rfl narrow same encoded
  · exact .inr (.inr (.inr rfl))

/-- The lanes an instruction works on in a program, which may be narrower than its kernel. -/
def lanesOf (simd : Int) (i : Instruction) : Int := min (i.width simd) simd

theorem widthOf_narrowed (c : Context) {k : Kernel} (simd : k.simdWidth = c.simdWidth) (positive : 0 < c.simdWidth)
    (i : Instruction) : k.widthOf (Select.narrowed c i) = lanesOf c.simdWidth i := by
  unfold Kernel.widthOf lanesOf Instruction.width Select.narrowed
  rw [simd]
  by_cases larger : c.simdWidth < i.execWidth
  · rw [if_pos larger, if_pos positive, if_pos (by omega)]
    dsimp only
    omega
  · rw [if_neg larger]
    split <;> omega

/-- A product of qwords on whole quarters, into a vector unless it has one lane only. -/
structure IsQwordProduct (simd : Int) (i : Instruction) (d : RegisterOperand) (o o' : Operand) : Prop where
  dst : i.dst = .register d
  src : i.src = [o, o']
  qwords : IsQwordRegister d
  left : IsFactor o
  right : IsFactor o'
  whole : lanesOf simd i ≤ 8 ∨ lanesOf simd i = 16
  vector : d.scalar = false ∨ lanesOf simd i = 1

/-- What an instruction of a kernel is selected as, with its words. Those of a product that is expanded compute it,
whatever the registers hold. -/
structure ComputesProduct (g : Generation) (c : Context) (compiled : Compilation) (i : Instruction)
    (block : Branches.Listing) : Prop where
  appends : Appends (Select.lower c (Select.narrowed c i)) (block.map Prod.fst)
  computes : ∀ half d o o', Multiplies g half i → IsQwordProduct compiled.program.simdWidth i d o o' →
    Computes g.layout compiled.allocation.offsets (lanesOf compiled.program.simdWidth i) half i d o o'
      (block.flatMap Prod.snd)

/-- A program is listed by the instructions of its kernel, each as the block it is selected as, after the setup of the
stack if there is one. The words of its products compute them. -/
def ComputesProducts (g : Generation) (c : Context) (compiled : Compilation) : Prop :=
  ∃ setup blocks, Branches.IsListing g compiled (setup ++ blocks.flatten) ∧ IsSetup c (setup.map Prod.fst) ∧
    List.Forall₂ (ComputesProduct g c compiled) c.kernel.code blocks

/-- A listing is cut where its instructions are. -/
theorem listing_blocks {lines : Branches.Listing} {blocks : List (List Instruction)}
    (code : lines.map Prod.fst = blocks.flatten) :
    ∃ groups : List Branches.Listing, lines = groups.flatten ∧ groups.map (List.map Prod.fst) = blocks := by
  induction blocks generalizing lines with
  | nil => exact ⟨[], List.map_eq_nil_iff.mp code, rfl⟩
  | cons block blocks ih =>
    obtain ⟨group, rest, rfl, here, others⟩ := List.map_eq_append_iff.mp code
    obtain ⟨groups, rfl, same⟩ := ih others
    exact ⟨group :: groups, rfl, by rw [List.map_cons, here, same]⟩

theorem compile_allotted {k : Kernel} {c : Context} {a : Allocation} {log : List AllocationEvent}
    (file : c.device.registerFileBytes = 4096)
    (allocated : Allocation.ofKernel k c.sweepConfig = .ok (a, log))
    (unspilled : a.spills = 0)
    (sums : ∀ reserve, Reserved a.kernel wholeFile reserve → SumsFit a.kernel wholeFile reserve)
    (pins : ∀ reserve, Reserved a.kernel wholeFile reserve → PinsAside a.kernel wholeFile reserve) :
    a.kernel = k ∧ Allotted ⟨c.flavor, a, StraightLine.plainState c.simdWidth⟩ c.simdWidth := by
  obtain ⟨-, -, -, -, kernel, -⟩ := StraightLine.ofKernel_unspilled allocated unspilled
  refine ⟨kernel,
    ofKernel_allotted c.flavor c.simdWidth allocated (fun reserve reserved => ?_) fun reserve reserved => ?_⟩
  · rw [kernel] at sums ⊢
    obtain ⟨slot, search, pin⟩ := sums reserve reserved
    exact ⟨slot, by rw [show c.sweepConfig.fileSize = wholeFile.fileSize from file]; exact search, pin⟩
  · rw [kernel] at pins ⊢
    intro r iv offset found pinned
    rw [show c.sweepConfig.fileSize = wholeFile.fileSize from file]
    exact pins reserve reserved r iv offset found pinned

/-- Products of qwords that a target has no multiplication for are computed all the same. The low half is
what a multiplication of qwords makes of the sources where there is one. -/
theorem products_computed (g : Generation) (k : Kernel) (settings : Settings) (variant : String)
    (compiled : Compilation) (log : List CompileEvent) (ran : k.compile g settings variant = .ok (compiled, log))
    (unspilled : compiled.allocation.spills = 0) (numbered : Numbered k)
    (sums : ∀ reserve, Reserved compiled.allocation.kernel wholeFile reserve →
      SumsFit compiled.allocation.kernel wholeFile reserve)
    (pins : ∀ reserve, Reserved compiled.allocation.kernel wholeFile reserve →
      PinsAside compiled.allocation.kernel wholeFile reserve) :
    (∃ c told, Context.new g k settings variant = .ok (c, told) ∧ ComputesProducts g c compiled) ∧
      ∀ d : Decoded, d.opcode = .mul → Machine.arithmetic? d = some Half.low.of := by
  obtain ⟨listing, lists⟩ := Branches.compile_listing ran
  obtain ⟨c, selected, events, told, ⟨rfl, rfl, wide, file, flavor, before, created⟩, simd, select, allocated, -⟩ :=
    StraightLine.compile_stages ran
  refine ⟨⟨c, before, created, ?_⟩, fun d mul => by rw [Machine.arithmetic?, mul]; rfl⟩
  obtain ⟨kernel, allotted⟩ := compile_allotted file allocated unspilled sums pins
  obtain ⟨width, setup, blocks, code, isSetup, selects⟩ := select_blocks numbered select
  rw [← kernel] at width code
  obtain ⟨early, late, rfl, rfl, rest⟩ := List.map_eq_append_iff.mp (lists.code.trans code)
  obtain ⟨groups, rfl, rfl⟩ := listing_blocks rest
  refine ⟨early, groups, lists, isSetup, List.forall₂_iff_zip.mpr ?_⟩
  obtain ⟨length, each⟩ := List.forall₂_iff_zip.mp (List.forall₂_map_right_iff.mp selects)
  refine ⟨length, fun {i group} pair => ⟨(each pair).appends, fun half d o o' multiplies product => ?_⟩⟩
  obtain ⟨member, listed⟩ := List.of_mem_zip pair
  obtain ⟨flavor', known, wordsOf⟩ := lists.each
  cases flavor.symm.trans known
  rw [simd] at product wordsOf ⊢
  obtain ⟨op, dst, src, predicated⟩ := StraightLine.narrowed_same c i
  have lanes := widthOf_narrowed c width (by omega) i
  have names := narrowed_below c (numbered.below member)
  have narrowed : Multiplies c.generation half (Select.narrowed c i) := by
    cases half <;> simpa only [Multiplies, op, dst] using multiplies
  obtain ⟨handed, expands, nodup, new⟩ := (each pair).expands half narrowed
  -- The block stands somewhere in the code, and its words are those it was emitted as.
  obtain ⟨first, last, rfl⟩ := List.append_of_mem listed
  have whole : compiled.allocation.kernel.code =
      (early.map Prod.fst ++ (first.flatten).map Prod.fst) ++ (group.map Prod.fst ++ last.flatten.map Prod.fst) := by
    rw [← lists.code]
    simp
  obtain ⟨pieces, made, same⟩ := Branches.WordsOf.block
    (fun line inside => wordsOf line (List.mem_append_right _ (List.mem_flatten_of_mem listed inside)))
    fun line inside => expands.not_jump _ (List.mem_map_of_mem inside)
  have runs : IsWidth (lanesOf c.simdWidth i) := expands.width allotted.base product.whole lanes made
  have target : (Select.narrowed c i).dst = .register d := dst.trans product.dst
  have sources : (Select.narrowed c i).src = [o, o'] := src.trans product.src
  have resolved :=
    expands.resolved target product.qwords product.vector sources product.left product.right names nodup new
  obtain ⟨steady, computes⟩ :=
    resolved.computes allotted target product.qwords product.vector product.left product.right
    (names.src o (by simp [sources])) (names.src o' (by simp [sources])) runs lanes whole made
  rw [same steady]
  have works : enabled (Select.narrowed c i) = enabled i := by
    unfold enabled
    rw [predicated]
  unfold Computes at computes ⊢
  rwa [works] at computes

/-- A predicated product on sixteen lanes whose destination is also a source, of a scalar, and the high half
of a product with an immediate on four lanes. -/
def powers : Kernel where
  name := "powers"
  simdWidth := 16
  next := 3
  code :=
    [{ op := .mul, dst := .vector ⟨0⟩ .l, src := [.scalar ⟨1⟩ .ul, .vector ⟨0⟩ .l], predicated := true },
      { op := .mulHi, dst := .vector ⟨2⟩ .ul, src := [.vector ⟨0⟩ .ul, .immediate .ul 0x300000000 false false],
        execWidth := 4 },
      { op := .endThread }]

theorem powers_numbered : Numbered powers := ⟨by decide, .inl rfl, by decide⟩

theorem powers_products (i : Instruction) (member : i ∈ powers.code.take 2) :
    ∃ half d o o', Multiplies .chv half i ∧ IsQwordProduct 16 i d o o' := by
  have named : ∀ n : Fin 3, (⟨UInt32.ofNat n⟩ : VReg) ≠ VReg.none := by decide
  have register (n : Fin 3) {t : Element} (scalar : Bool) (qwords : t = .ul ∨ t = .l) :
      IsQwordRegister { reg := ⟨UInt32.ofNat n⟩, type := t, scalar := scalar } :=
    ⟨named n, qwords, Int.zero_le_ofNat 1, rfl, rfl, rfl⟩
  simp only [powers, List.take_succ_cons, List.take_zero, List.mem_cons, List.not_mem_nil, or_false] at member
  rcases member with rfl | rfl
  · exact ⟨.low, _, _, _, ⟨rfl, rfl, rfl⟩, rfl, rfl, register 0 false (.inr rfl), register 1 true (.inl rfl),
      register 0 false (.inr rfl), .inr rfl, .inl rfl⟩
  · exact ⟨.high, _, _, _, rfl, rfl, rfl, register 2 false (.inl rfl), register 0 false (.inl rfl),
      ⟨.inl rfl, rfl, rfl⟩, .inl (by decide), .inl rfl⟩

/-- Compilation succeeds without spills, and no register is larger than four general registers. -/
theorem powers_outcome : ((powers.compile .chv {} "").toOption.map fun r =>
    (r.1.program.simdWidth, r.1.allocation.spills, r.1.allocation.kernel.pinned,
      (Allocation.reserveFor wholeFile (Liveness.ofKernel r.1.allocation.kernel)).size,
      (Liveness.ofKernel r.1.allocation.kernel).store.intervals.all fun iv => iv.size ≤ 128 ∧ iv.slot ≤ 128)) =
    some (16, 0, ⟨[]⟩, 800, true) := by
  simp only [Kernel.compile, Context.compile, Allocation.ofKernel, Allocation.sweep, Sweep.run, Sweep.start,
    Liveness.ofKernel, sorted_insertion]
  decide +kernel

theorem products_computed_powers :
    ∃ compiled log c told, powers.compile .chv {} "" = .ok (compiled, log) ∧
      (∀ i ∈ powers.code.take 2, ∃ half d o o', Multiplies .chv half i ∧
        IsQwordProduct compiled.program.simdWidth i d o o') ∧
      Context.new .chv powers {} "" = .ok (c, told) ∧ ComputesProducts .chv c compiled := by
  obtain ⟨⟨compiled, log⟩, ran, same⟩ := toOption_map_some.mp powers_outcome
  simp only [Prod.mk.injEq, List.all_eq_true, decide_eq_true_eq, UInt32.le_iff_toNat_le] at same
  obtain ⟨simd, unspilled, pinned, size, small⟩ := same
  have unpinned (r : VReg) : compiled.allocation.kernel.pin? r = none := by
    rw [Kernel.pin?, pinned]
    rfl
  have window {reserve : UInt32} (reserved : Reserved compiled.allocation.kernel wholeFile reserve) :
      (wholeFile.fileSize - reserve).toNat ≤ 4096 := by
    rcases reserved with rfl | rfl
    · decide
    · rw [size]
      decide
  have computed := products_computed .chv powers {} "" compiled log ran unspilled powers_numbered ?_
    fun _ _ => pinsAside_of_unpinned unpinned
  · obtain ⟨⟨c, told, created, computes⟩, -⟩ := computed
    exact ⟨compiled, log, c, told, ran, by rw [simd]; exact powers_products, created, computes⟩
  · intro reserve reserved
    have most := window reserved
    have bytes : (128 : UInt32).toNat = 128 := rfl
    refine sumsFit_of_unpinned unpinned fun r iv found => ?_
    have fits := small iv (mem_of_intervalOf found)
    omega

/-- A product of dwords and qwords. -/
def narrowFactor : Kernel where
  name := "narrowFactor"
  simdWidth := 8
  next := 3
  code :=
    [{ op := .mov, dst := .vector ⟨0⟩ .ud, src := [.immediate .ud 5 false false] },
      { op := .mov, dst := .vector ⟨1⟩ .ul, src := [.immediate .ul 3 false false] },
      { op := .mul, dst := .vector ⟨2⟩ .ul, src := [.vector ⟨0⟩ .ud, .vector ⟨1⟩ .ul] },
      { op := .endThread }]

/-- The first lane of the factors and of the product, after the program ran on cleared registers. -/
def narrowFactorLanes (g : Generation) : Option (List UInt64) := do
  let (compiled, _) ← (narrowFactor.compile g {} "").toOption
  let m ← (⟨fun _ => 0, fun _ => 0, 0⟩ : Machine).run g.layout compiled.program.words
  return [Operand.vector ⟨0⟩ .ud, .vector ⟨1⟩ .ul, .vector ⟨2⟩ .ul].map (valueIn compiled.allocation.offsets m 0)

/-- The expansion takes two dwords of the narrower factor for one qword. A multiplication of qwords does not. -/
theorem narrowFactor_misread :
    narrowFactorLanes .chv = some [5, 3, 0xf0000000f] ∧ narrowFactorLanes .gen8 = some [5, 3, 0xf] := by
  simp only [narrowFactorLanes, Kernel.compile, Context.compile, Allocation.ofKernel, Allocation.sweep, Sweep.run,
    Sweep.start, Liveness.ofKernel, sorted_insertion]
  decide +kernel

end GpuCodegen.Products
