import GpuCodegen.Proofs.BranchTargets

/-! Programs as listings: the instructions of a kernel, each beside its words. These are what fixups make of the words
the instruction was emitted as, and a jump knows how far it goes. Words that no fixup touches are in the program as they
were emitted. -/

namespace GpuCodegen.Branches
open Native Outcome WordRoundTrip

/-! ## Pieces -/

theorem start_mono (pieces : List (List Word)) {p q : Nat} (less : p ≤ q) : start pieces p ≤ start pieces q := by
  obtain ⟨n, rfl⟩ := Nat.exists_eq_add_of_le less
  rw [start, start, List.take_add, List.flatten_append, List.length_append]
  exact Nat.le_add_right _ _

/-- Cuts words into pieces as long as the given ones. -/
def cut : List (List Word) → List Word → List (List Word)
  | [], _ => []
  | piece :: pieces, words => words.take piece.length :: cut pieces (words.drop piece.length)

theorem cut_length (pieces : List (List Word)) (words : List Word) : (cut pieces words).length = pieces.length := by
  induction pieces generalizing words with
  | nil => rfl
  | cons piece pieces ih => rw [cut, List.length_cons, ih, List.length_cons]

theorem cut_flatten {pieces : List (List Word)} {words : List Word} (same : words.length = pieces.flatten.length) :
    (cut pieces words).flatten = words := by
  induction pieces generalizing words with
  | nil => exact (List.length_eq_zero_iff.mp same).symm
  | cons piece pieces ih =>
    rw [List.flatten_cons, List.length_append] at same
    rw [cut, List.flatten_cons, ih (by rw [List.length_drop]; omega), List.take_append_drop]

theorem cut_getElem (pieces : List (List Word)) (words : List Word) (p : Nat) :
    (cut pieces words)[p]? = pieces[p]?.map fun piece => (words.drop (start pieces p)).take piece.length := by
  induction pieces generalizing words p with
  | nil => rfl
  | cons piece pieces ih =>
    cases p with
    | zero => simp [cut]
    | succ p => simp [cut, ih, List.drop_drop]

/-! ## Jumps -/

theorem setSource1_immD {g : Generation} {s : State} {u : UInt32} {w₀ w : Word}
    (made : g.setSource1 s (.immD u) w₀ = .ok w) (v : UInt32) :
    g.setSource1 s (.immD v) w₀ = .ok (g.layout.imm32.set v w) := by
  have value (n : UInt32) : (Register.immD n).immediate.toUInt32 = n := by
    change n.toUInt64.toUInt32 = n
    simp
  have file (n : UInt32) : (Register.immD n).file = .imm := rfl
  have type (n : UInt32) : (Register.immD n).type = .d := rfl
  unfold Generation.setSource1 at made ⊢
  simp only [file, type, value] at made ⊢
  split at made
  · cases made
  · rename_i room
    rw [if_neg room]
    have narrow : DataType.d.is64 = false := rfl
    simp only [if_true, narrow, Bool.false_eq_true, if_false] at made ⊢
    obtain ⟨code, known, stored⟩ := bind_ok.mp made
    cases stored
    exact bind_ok.mpr ⟨code, known, congrArg Except.ok (Field.set_set _ _ _ _).symm⟩

/-- A jump that is given a distance is the jump over it. -/
theorem assemble_jump {g : Generation} {s : State} {w : Word} (made : g.assemble s (.jump 0) = .ok [w]) (d : UInt32) :
    g.assemble s (.jump d.toInt32) = .ok [g.layout.imm32.set d w] := by
  obtain ⟨v, built, same⟩ := map_ok.mp made
  cases same
  refine map_ok.mpr ⟨_, ?_, rfl⟩
  simp only [Generation.binaryWord, bind_ok] at built ⊢
  obtain ⟨v₁, header, v₂, target, v₃, first, second⟩ := built
  exact ⟨v₁, header, v₂, target, v₃, first, setSource1_immD second d⟩

/-! ## Listings -/

section
variable {g : Generation} {f : Emission.Frame} {fixups : List Fixup} {code : List Instruction}
  {pieces : List (List Word)} {m : Emitter} {width : Int}

/-- The words of an instruction in a program: what fixups make of those it was emitted as. A jump was emitted as one
over no distance. -/
inductive WordsOf (g : Generation) (f : Emission.Frame) (fixups : List Fixup) (i : Instruction) :
    List Word → Prop where
  | other (op : i.op ≠ .jump) {piece : List Word} (made : encoded g f i = .ok piece) :
    WordsOf g f fixups i (piece.flatMap (Fixup.fixed g fixups))
  | jump (op : i.op = .jump) (far : Int32) {words : List Word}
    (made : g.assemble (Emission.instructionState f.base i (f.allocation.kernel.widthOf i)) (.jump far) = .ok words) :
    WordsOf g f fixups i words

/-- The instructions of a kernel, each beside words. -/
abbrev Listing := List (Instruction × List Word)

/-- A compiled program, instruction by instruction. -/
structure IsListing (g : Generation) (compiled : Compilation) (listing : Listing) : Prop where
  code : listing.map Prod.fst = compiled.allocation.kernel.code
  words : listing.flatMap Prod.snd = compiled.program.words
  each : ∃ flavor, Flavor.ofGeneration g = .ok flavor ∧ ∀ line ∈ listing,
    WordsOf g ⟨flavor, compiled.allocation, StraightLine.plainState compiled.program.simdWidth⟩
      (Fixup.ofFlavor flavor) line.1 line.2

/-- Fixups leave words alone that none of them touches. -/
theorem fixed_steady {piece : List Word} (steady : ∀ w ∈ piece, StraightLine.Steady g w) (fixups : List Fixup) :
    piece.flatMap (Fixup.fixed g fixups) = piece := by
  rw [List.flatMap_congr fun w member => fixed_of_steady (steady w member) fixups, List.flatMap_singleton']

theorem WordsOf.fixed {i : Instruction} {words : List Word} (wordsOf : WordsOf g f fixups i words)
    (other : i.op ≠ .jump) : ∃ piece, encoded g f i = .ok piece ∧ words = piece.flatMap (Fixup.fixed g fixups) := by
  cases wordsOf with
  | other _ made => exact ⟨_, made, rfl⟩
  | jump op => exact absurd op other

theorem WordsOf.jumps {i : Instruction} {words : List Word} (wordsOf : WordsOf g f fixups i words) (op : i.op = .jump) :
    ∃ far, g.assemble (Emission.instructionState f.base i (f.allocation.kernel.widthOf i)) (.jump far) = .ok words := by
  cases wordsOf with
  | other other => exact absurd op other
  | jump _ far made => exact ⟨far, made⟩

/-- Instructions without a jump have the words they were emitted as, if no fixup touches these. -/
theorem WordsOf.block {lines : Listing} (each : ∀ line ∈ lines, WordsOf g f fixups line.1 line.2)
    (other : ∀ line ∈ lines, line.1.op ≠ .jump) :
    ∃ pieces, (lines.map Prod.fst).mapM (encoded g f) = .ok pieces ∧
      ((∀ w ∈ pieces.flatten, StraightLine.Steady g w) → lines.flatMap Prod.snd = pieces.flatten) := by
  induction lines with
  | nil => exact ⟨[], rfl, fun _ => rfl⟩
  | cons line rest ih =>
    obtain ⟨eachHere, eachRest⟩ := List.forall_mem_cons.mp each
    obtain ⟨otherHere, otherRest⟩ := List.forall_mem_cons.mp other
    obtain ⟨pieces, made, same⟩ := ih eachRest otherRest
    obtain ⟨piece, first, words⟩ := eachHere.fixed otherHere
    refine ⟨piece :: pieces, ?_, fun steady => ?_⟩
    · simp only [List.map_cons, List.mapM_cons, bind_ok, pure_ok]
      exact ⟨piece, first, pieces, made, rfl⟩
    · rw [List.flatten_cons] at steady ⊢
      obtain ⟨steadyHere, steadyRest⟩ := List.forall_mem_append.mp steady
      rw [List.flatMap_cons, same steadyRest, words, fixed_steady steadyHere]

/-- The words of an instruction that is not a jump are those that fixups make of it. -/
theorem Noted.piece (noted : Noted g f code pieces m) (base : f.base = StraightLine.plainState width) {r : Fixed}
    (replaces : Fixup.Replaces (Fixup.fixed g fixups) pieces.flatten r) {final : Assembler}
    (ran : m.jumps.foldlM (m.resolve r.remap) { m.assembler with words := r.words } = .ok final) {p : Nat}
    {i : Instruction} {piece : List Word} (here : code[p]? = some i) (other : i.op ≠ .jump)
    (found : pieces[p]? = some piece) :
    (cut (fixedPieces g fixups pieces) final.words)[p]? = some (piece.flatMap (Fixup.fixed g fixups)) := by
  obtain ⟨length, kept⟩ := noted.kept base replaces ran
  have fixed : (fixedPieces g fixups pieces)[p]? = some (piece.flatMap (Fixup.fixed g fixups)) := by
    rw [fixedPieces, List.getElem?_map, found, Option.map_some]
  rw [cut_getElem, fixed, Option.map_some]
  congr 1
  apply List.ext_getElem?
  intro n
  by_cases inside : n < (piece.flatMap (Fixup.fixed g fixups)).length
  · rw [List.getElem?_take_of_lt inside, List.getElem?_drop, ← flatten_start fixed inside]
    apply kept
    intro q j there jump index
    obtain ⟨w, at_, word⟩ := noted.single base there jump
    have single := start_add (fixedPieces_jump word at_ fixups)
    have next := start_add fixed
    rw [List.length_singleton] at single
    rcases Nat.lt_trichotomy q p with before | rfl | after
    · have least := start_mono (fixedPieces g fixups pieces) (show q + 1 ≤ p from before)
      omega
    · rw [here] at there
      cases there
      exact other jump
    · have most := start_mono (fixedPieces g fixups pieces) (show p + 1 ≤ q from after)
      omega
  · rw [List.getElem?_eq_none (by rw [List.length_take]; omega), List.getElem?_eq_none (by omega)]

/-- A jump is one word in the program. -/
theorem Noted.jumpPiece (noted : Noted g f code pieces m) (base : f.base = StraightLine.plainState width) {r : Fixed}
    (replaces : Fixup.Replaces (Fixup.fixed g fixups) pieces.flatten r) {final : Assembler}
    (ran : m.jumps.foldlM (m.resolve r.remap) { m.assembler with words := r.words } = .ok final) {p : Nat}
    {i : Instruction} (here : code[p]? = some i) (jump : i.op = .jump) :
    ∃ far w, g.assemble (Emission.instructionState f.base i (f.allocation.kernel.widthOf i)) (.jump far) = .ok [w] ∧
      (cut (fixedPieces g fixups pieces) final.words)[p]? = some [w] := by
  obtain ⟨w, q, j, at_, word, -, -, -, patch⟩ := noted.patched base replaces ran here jump
  obtain ⟨piece, found, made⟩ := mapM_getElem noted.encoded here
  rw [at_] at found
  cases found
  simp only [encoded, jump] at made
  generalize distance _ _ = far at patch
  refine ⟨_, _, assemble_jump made far, ?_⟩
  rw [cut_getElem, fixedPieces_jump word at_ fixups, Option.map_some]
  congr 1
  obtain ⟨inside, same⟩ := List.getElem?_eq_some_iff.mp patch
  rw [List.drop_eq_getElem_cons inside, same]
  rfl

/-- Each piece of the program is the words of its instruction. -/
theorem Noted.wordsOf (noted : Noted g f code pieces m) (base : f.base = StraightLine.plainState width) {r : Fixed}
    (replaces : Fixup.Replaces (Fixup.fixed g fixups) pieces.flatten r) {final : Assembler}
    (ran : m.jumps.foldlM (m.resolve r.remap) { m.assembler with words := r.words } = .ok final) {p : Nat}
    {i : Instruction} {words : List Word} (here : code[p]? = some i)
    (there : (cut (fixedPieces g fixups pieces) final.words)[p]? = some words) : WordsOf g f fixups i words := by
  by_cases jump : i.op = .jump
  · obtain ⟨far, w, made, at_⟩ := noted.jumpPiece base replaces ran here jump
    rw [there] at at_
    cases at_
    exact .jump jump far made
  · obtain ⟨piece, found, made⟩ := mapM_getElem noted.encoded here
    have at_ := noted.piece base replaces ran here jump found
    rw [there] at at_
    cases at_
    exact .other jump made

end

/-- Every compiled program has its listing. -/
theorem compile_listing {g : Generation} {k : Kernel} {settings : Settings} {variant : String}
    {compiled : Compilation} {log : List CompileEvent} (ran : k.compile g settings variant = .ok (compiled, log)) :
    ∃ listing, IsListing g compiled listing := by
  obtain ⟨c, selected, events, told, ⟨rfl, rfl, -, -, flavor, -⟩, simd, select, allocated, emitted⟩ :=
    StraightLine.compile_stages ran
  obtain ⟨pieces, m, r, final, noted, replaces, resolved, words⟩ := emit_noted emitted
  have length : (cut (fixedPieces c.generation (Fixup.ofFlavor c.flavor) pieces) final.words).length =
      compiled.allocation.kernel.code.length := by
    rw [cut_length, fixedPieces, List.length_map, (mapM_forall noted.encoded).length_eq]
  refine ⟨compiled.allocation.kernel.code.zip
      (cut (fixedPieces c.generation (Fixup.ofFlavor c.flavor) pieces) final.words),
    List.map_fst_zip length.ge, ?_, c.flavor, flavor, fun line member => ?_⟩
  · rw [List.flatMap_def, List.map_snd_zip length.le, cut_flatten (noted.kept rfl replaces resolved).1, words]
  · obtain ⟨p, here⟩ := List.mem_iff_getElem?.mp member
    obtain ⟨code, there⟩ := List.getElem?_zip_eq_some.mp here
    rw [simd]
    exact noted.wordsOf rfl replaces resolved code there

end GpuCodegen.Branches
