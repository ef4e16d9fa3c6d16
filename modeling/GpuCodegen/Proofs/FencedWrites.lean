import GpuCodegen.Proofs.MemoryWrites
import GpuCodegen.Proofs.QwordInstructions

/-! Sandy Bridge does not keep its render cache coherent with later reads, so its programs have a fence
right behind every memory write. The classification of words says which these are; the pass that adds the
fences looks at no other word, and leaving its fences out again gives the words that were emitted. -/

namespace GpuCodegen.MemoryWrites
open Native Outcome WordRoundTrip Branches

/-- A program without the word after each of its memory writes. -/
def unfenced (g : Generation) : List Word → List Word
  | w :: next :: rest => if g.writesMemory w then w :: unfenced g rest else w :: unfenced g (next :: rest)
  | ws => ws

/-- The second word is the first, or the first is a jump and the second gives it another distance. -/
def Patched (g : Generation) (w w' : Word) : Prop :=
  w' = w ∨ IsJump g w ∧ ∃ distance, w' = g.layout.imm32.set distance w

section
variable {g : Generation} {fence w w' : Word} {ws final : List Word}

theorem unfenced_write (writes : g.writesMemory w = true) (next : Word) (ws : List Word) :
    unfenced g (w :: next :: ws) = w :: unfenced g ws := by
  rw [unfenced, if_pos writes]

theorem unfenced_quiet (quiet : g.writesMemory w = false) (ws : List Word) :
    unfenced g (w :: ws) = w :: unfenced g ws := by
  cases ws with
  | nil => rfl
  | cons next rest => rw [unfenced, if_neg (by rw [quiet]; decide)]

theorem jump_opcode (jump : IsJump g w) : opcodeOf g w = .jmpi := by
  obtain ⟨d, decoded, opcode⟩ := jump
  rw [← opcode, (StraightLine.decode_opcode decoded).1]
  rfl

theorem patched_opcode (patched : Patched g w w') : opcodeOf g w' = opcodeOf g w := by
  rcases patched with rfl | ⟨-, distance, rfl⟩
  · rfl
  · exact opcodeOf_set (by simp [operandFields, immediateFields]) _ _

/-- A word that is no jump is not patched. -/
theorem patched_send (patched : Patched g w w') (message : opcodeOf g w = .send) : w' = w := by
  rcases patched with same | ⟨jump, -⟩
  · exact same
  · rw [jump_opcode jump] at message
    cases message

theorem patched_writesMemory (patched : Patched g w w') : g.writesMemory w' = g.writesMemory w := by
  by_cases message : opcodeOf g w = .send
  · rw [patched_send patched message]
  · have other : opcodeOf g w' ≠ .send := by rwa [patched_opcode patched]
    rw [writesMemory_eq, writesMemory_eq, beq_false_of_ne message, beq_false_of_ne other, Bool.false_and,
      Bool.false_and]

/-- Fences stand behind the memory writes and nowhere else. -/
theorem fenced_words (message : opcodeOf g fence = .send) (quiet : g.writesMemory fence = false)
    (patched : List.Forall₂ (Patched g) (ws.flatMap (Fixup.fenceWord g fence)) final) :
    List.Forall₂ (Patched g) ws (unfenced g final) ∧
      ∀ n w, final[n]? = some w → g.writesMemory w = true → final[n + 1]? = some fence := by
  induction ws generalizing final with
  | nil =>
    cases patched
    exact ⟨.nil, by simp⟩
  | cons w ws ih =>
    rw [List.flatMap_cons, Fixup.fenceWord] at patched
    by_cases writes : g.writesMemory w = true
    · rw [if_pos writes] at patched
      obtain ⟨v, _, first, later, rfl⟩ := List.forall₂_cons_left_iff.mp patched
      obtain ⟨f, rest, second, others, rfl⟩ := List.forall₂_cons_left_iff.mp later
      obtain rfl := patched_send second message
      obtain ⟨back, fenced⟩ := ih others
      refine ⟨?_, ?_⟩
      · rw [unfenced_write ((patched_writesMemory first).trans writes)]
        exact .cons first back
      · intro n x here counted
        rcases n with _ | _ | n
        · rfl
        · cases here
          rw [quiet] at counted
          cases counted
        · exact fenced n x here counted
    · rw [if_neg writes, List.singleton_append] at patched
      obtain ⟨v, rest, first, others, rfl⟩ := List.forall₂_cons_left_iff.mp patched
      obtain ⟨back, fenced⟩ := ih others
      have silent : g.writesMemory v = false := by
        rw [patched_writesMemory first]
        exact Bool.not_eq_true _ ▸ writes
      refine ⟨?_, ?_⟩
      · rw [unfenced_quiet silent]
        exact .cons first back
      · intro n x here counted
        cases n with
        | zero =>
          cases here
          rw [silent] at counted
          cases counted
        | succ n => exact fenced n x here counted

end

section
variable {c : Context} {a : Allocation} {words : List Word} {events : List CompileEvent}

/-- No instruction leaves a word to be split where the unit runs eight lanes only. -/
theorem encoded_narrow {g : Generation} {f : Emission.Frame} {i : Instruction} {piece : List Word}
    (narrow : g.supports .tripleSimd16 = false) (made : encoded g f i = .ok piece) :
    ∀ w ∈ piece, g.layout.isWideTriple w = false := by
  by_cases label : i.op = .label
  · simp only [encoded, label, Except.ok.injEq] at made
    subst made
    exact fun w none => absurd none List.not_mem_nil
  by_cases jump : i.op = .jump
  · simp only [encoded, jump] at made
    exact assemble_narrow narrow made
  · obtain ⟨issues, pieces, -, assembled, rfl⟩ := Products.encoded_ok label jump made
    intro w member
    obtain ⟨ws, listed, inside⟩ := List.mem_flatten.mp member
    obtain ⟨n, small, rfl⟩ := List.getElem_of_mem listed
    obtain ⟨length, each⟩ := List.forall₂_iff_get.mp (mapM_forall assembled)
    exact assemble_narrow narrow (each n (length ▸ small) small) w inside

/-- A compiled program is what the fixups make of the emitted words, with the jumps' distances put in. -/
theorem emit_patched (emitted : c.emit a = .ok (words, events)) :
    ∃ m pieces,
      a.kernel.code.zipIdx.foldlM (Emitter.step ⟨c.flavor, a, StraightLine.plainState c.simdWidth⟩)
        { assembler := { generation := c.generation, state := StraightLine.plainState c.simdWidth } } = .ok m ∧
      a.kernel.code.mapM (encoded c.generation ⟨c.flavor, a, StraightLine.plainState c.simdWidth⟩) = .ok pieces ∧
      m.assembler.words = pieces.flatten ∧
      List.Forall₂ (Patched c.generation)
        (m.assembler.words.flatMap (Fixup.fixed c.generation (Fixup.ofFlavor c.flavor))) words := by
  obtain ⟨m, r, final, ran, fixed, resolved, rfl⟩ := StraightLine.emit_run emitted
  obtain ⟨pieces, noted, emitted⟩ := run_noted ran
  have replaces := Fixup.applyAll_replaces c.generation (Fixup.ofFlavor c.flavor) m.assembler.words
  rw [← fixed, emitted] at replaces
  obtain ⟨length, kept⟩ := noted.kept rfl replaces resolved
  refine ⟨m, pieces, ran, noted.encoded, emitted, ?_⟩
  rw [emitted, ← flatten_fixedPieces]
  refine List.forall₂_iff_get.mpr ⟨length.symm, fun n small small' => ?_⟩
  simp only [List.get_eq_getElem]
  by_cases jump : ∃ (p : Nat) (i : Instruction), a.kernel.code[p]? = some i ∧ i.op = .jump ∧
      start (fixedPieces c.generation (Fixup.ofFlavor c.flavor) pieces) p = n
  · obtain ⟨p, i, here, op, rfl⟩ := jump
    obtain ⟨w, q, j, at_, word, -, -, -, patch⟩ := noted.patched rfl replaces resolved here op
    have before := getElem_start (fixedPieces_jump word at_ (Fixup.ofFlavor c.flavor))
    rw [List.getElem?_eq_getElem small, Option.some.injEq] at before
    rw [List.getElem?_eq_getElem small', Option.some.injEq] at patch
    rw [before, patch]
    exact .inr ⟨word, _, rfl⟩
  · have same := kept n fun p i here op at_ => jump ⟨p, i, here, op, at_⟩
    rw [List.getElem?_eq_getElem small, List.getElem?_eq_getElem small', Option.some.injEq] at same
    exact .inl same

end

/-- Where no word is left to be split, the fixups of Sandy Bridge only add fences. -/
theorem fixed_gen6 {fence w : Word} (made : Fixup.fence .gen6 = .ok fence)
    (narrow : Generation.gen6.layout.isWideTriple w = false) :
    Fixup.fixed .gen6 (Fixup.ofFlavor .gen6) w = Fixup.fenceWord .gen6 fence w := by
  have whole : Fixup.splitWord .gen6 w = [w] := by
    simp [Fixup.splitWord, Layout.split?, narrow]
  simp only [Fixup.fixed, Fixup.ofFlavor, List.foldl_cons, List.foldl_nil, Fixup.replacement, List.flatMap_singleton,
    whole, made]

/-- The fence of Sandy Bridge is a message to the render cache. -/
theorem fence_gen6 : ∃ fence d, Fixup.fence .gen6 = .ok fence ∧ Generation.gen6.layout.decode fence = .ok d ∧
    d.opcode = .send ∧
    d.message = some ⟨.renderCache, { function := 0x1c000, header := true, messageLength := 1 }⟩ :=
  ⟨_, _, rfl, rfl, rfl, rfl⟩

/-- Words are told to write memory exactly when their command stores to memory, on every generation and for
every command but messages with a descriptor of their own. In a program compiled for Sandy Bridge the word after
a memory write is the render cache fence, and without these fences the program is the emitted one, jump distances
apart. -/
theorem memoryWrites_fenced :
    (∀ (a : Assembler) (c : Command), (∀ target dst payload d, c ≠ .send target dst payload d) →
      ∃ ws, (a.issue c).1.words = a.words ++ ws ∧ ((a.issue c).2 = none ↔ ws = []) ∧
        ∀ w ∈ ws, a.generation.writesMemory w = storesMemory c) ∧
    ∀ (k : Kernel) (settings : Settings) (variant : String) (compiled : Compilation) (log : List CompileEvent),
      k.compile .gen6 settings variant = .ok (compiled, log) →
      ∃ fence d m, Fixup.fence .gen6 = .ok fence ∧ Generation.gen6.layout.decode fence = .ok d ∧ d.opcode = .send ∧
        d.message = some ⟨.renderCache, { function := 0x1c000, header := true, messageLength := 1 }⟩ ∧
        compiled.allocation.kernel.code.zipIdx.foldlM
          (Emitter.step ⟨.gen6, compiled.allocation, { execWidth := compiled.program.simdWidth }⟩)
          { assembler := { generation := .gen6, state := { execWidth := compiled.program.simdWidth } } } = .ok m ∧
        (∀ n w, compiled.program.words[n]? = some w → Generation.gen6.writesMemory w = true →
          compiled.program.words[n + 1]? = some fence) ∧
        List.Forall₂ (Patched .gen6) m.assembler.words (unfenced .gen6 compiled.program.words) := by
  refine ⟨fun a c described => issue_writesMemory a described, fun k settings variant compiled log ran => ?_⟩
  obtain ⟨c, selected, events, told, ⟨generation, -, -, -, flavor, -⟩, simd, -, -, emitted⟩ :=
    StraightLine.compile_stages ran
  obtain ⟨m, pieces, run, made, words, patched⟩ := emit_patched emitted
  have gen6 : c.flavor = .gen6 := by
    rw [show Flavor.ofGeneration .gen6 = .ok .gen6 from rfl] at flavor
    exact (Except.ok.inj flavor).symm
  obtain ⟨fence, d, fenced, decoded, opcode, message⟩ := fence_gen6
  rw [generation, gen6] at run patched made
  have narrow : ∀ w ∈ m.assembler.words, Generation.gen6.layout.isWideTriple w = false := by
    intro w member
    rw [words] at member
    obtain ⟨piece, listed, inside⟩ := List.mem_flatten.mp member
    obtain ⟨n, small, rfl⟩ := List.getElem_of_mem listed
    obtain ⟨length, each⟩ := List.forall₂_iff_get.mp (mapM_forall made)
    exact encoded_narrow rfl (each n (length ▸ small) small) w inside
  have fences : m.assembler.words.flatMap (Fixup.fixed .gen6 (Fixup.ofFlavor .gen6)) =
      m.assembler.words.flatMap (Fixup.fenceWord .gen6 fence) :=
    List.flatMap_congr fun w member => fixed_gen6 fenced (narrow w member)
  have quiet : Generation.gen6.writesMemory fence = false :=
    (fenceWord_of (c := .nop) fenced rfl).writesMemory
  rw [fences] at patched
  obtain ⟨back, behind⟩ := fenced_words (sendWord_opcode fenced) quiet patched
  rw [← simd] at run
  exact ⟨fence, d, m, fenced, decoded, opcode, message, run, behind, back⟩

theorem fencedLoop_writes : ((fencedLoop.compile .gen6 {} "").toOption.map fun r =>
    (r.1.program.words.map Generation.gen6.writesMemory, (unfenced .gen6 r.1.program.words).length)) =
      some ([false, false, false, false, true, false, false, false, false], 8) := by
  simp only [Kernel.compile, Context.compile, Allocation.ofKernel, Allocation.sweep, Sweep.run, Sweep.start,
    Liveness.ofKernel, Placement.sorted_insertion]
  decide +kernel

/-- A store on Sandy Bridge, and the loop that stores: its fifth word writes memory, the sixth is the fence, and
eight of its nine words were emitted. -/
theorem memoryWrites_fenced_fencedLoop :
    (∀ a : Assembler, a = { generation := .gen6, state := { execWidth := 8 } } →
      ∃ ws, (a.issue (.untypedWrite (.ud8 2 0) 7 1)).1.words = a.words ++ ws ∧ ws ≠ [] ∧
        ∀ w ∈ ws, a.generation.writesMemory w = true) ∧
    ∃ (compiled : Compilation) (log : List CompileEvent) (fence : Word) (m : Emitter),
      fencedLoop.compile .gen6 {} "" = .ok (compiled, log) ∧
      Fixup.fence .gen6 = .ok fence ∧ compiled.program.words[5]? = some fence ∧
      m.assembler.words.length = 8 ∧
      List.Forall₂ (Patched .gen6) m.assembler.words (unfenced .gen6 compiled.program.words) := by
  obtain ⟨told, fenced⟩ := memoryWrites_fenced
  refine ⟨?_, ?_⟩
  · intro a new
    obtain ⟨ws, words, none_, each⟩ := told a (.untypedWrite (.ud8 2 0) 7 1) fun _ _ _ _ same => by cases same
    have issued : (a.issue (.untypedWrite (.ud8 2 0) 7 1)).2 ≠ none := by
      rw [new]
      decide +kernel
    exact ⟨ws, words, fun empty => issued (none_.mpr empty), each⟩
  · obtain ⟨⟨compiled, log⟩, ran, same⟩ := toOption_map_some.mp fencedLoop_writes
    obtain ⟨writes, length⟩ := Prod.mk.inj same
    obtain ⟨fence, d, m, made, -, -, -, -, behind, back⟩ := fenced fencedLoop {} "" compiled log ran
    obtain ⟨w, here, counted⟩ : ∃ w, compiled.program.words[4]? = some w ∧ Generation.gen6.writesMemory w = true := by
      have fifth := congrArg (·[4]?) writes
      simpa using fifth
    exact ⟨compiled, log, fence, m, ran, made, behind 4 w here counted, by rw [back.length_eq, length], back⟩

end GpuCodegen.MemoryWrites
