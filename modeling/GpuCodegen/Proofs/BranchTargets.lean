import GpuCodegen.Proofs.ControlInstructions
import GpuCodegen.Proofs.FixupRemaps
import GpuCodegen.Proofs.LivePaths

/-! Branches of compiled programs. Emission notes at which word each label and each jump stands. Fixups
move words about, and every jump is then pointed to where the words after its label went. -/

namespace GpuCodegen.Branches
open Native Outcome WordRoundTrip LivePaths

/-! ## The words of instructions -/

/-- The words an instruction is emitted as. A label has none, and a jump does not know its distance
yet. -/
def encoded (g : Generation) (f : Emission.Frame) (i : Instruction) : Except Diagnostic (List Word) :=
  match i.op with
  | .label => .ok []
  | .jump => g.assemble (Emission.instructionState f.base i (f.allocation.kernel.widthOf i)) (.jump 0)
  | _ => do
    let issues ← (Emission.instruction f i).mapError (·.diagnostic)
    let pieces ← issues.mapM fun x => g.assemble x.state x.command
    return pieces.flatten

/-- The index of the first word of the instruction at a position, when `pieces` are the words of all
instructions in order. -/
def start (pieces : List (List Word)) (p : Nat) : Nat := (pieces.take p).flatten.length

@[simp] theorem start_zero (pieces : List (List Word)) : start pieces 0 = 0 := rfl

@[simp] theorem start_cons_succ (piece : List Word) (pieces : List (List Word)) (p : Nat) :
    start (piece :: pieces) (p + 1) = piece.length + start pieces p := by
  simp [start]

theorem start_le (pieces : List (List Word)) (p : Nat) : start pieces p ≤ pieces.flatten.length := by
  have split : pieces.flatten = (pieces.take p).flatten ++ (pieces.drop p).flatten := by
    rw [← List.flatten_append, List.take_append_drop]
  rw [split, List.length_append]
  exact Nat.le_add_right _ _

/-- The words of an instruction stand where it starts. -/
theorem start_add {pieces : List (List Word)} {p : Nat} {piece : List Word} (here : pieces[p]? = some piece) :
    start pieces (p + 1) = start pieces p + piece.length := by
  simp [start, List.take_add_one, here]

theorem flatten_start {pieces : List (List Word)} {p n : Nat} {piece : List Word} (here : pieces[p]? = some piece)
    (inside : n < piece.length) : pieces.flatten[start pieces p + n]? = piece[n]? := by
  obtain ⟨small, rfl⟩ := List.getElem?_eq_some_iff.mp here
  have split : pieces.flatten = (pieces.take p).flatten ++ (pieces[p] ++ (pieces.drop (p + 1)).flatten) := by
    rw [← List.flatten_cons, ← List.drop_eq_getElem_cons small, ← List.flatten_append, List.take_append_drop]
  rw [split, start, List.getElem?_append_right (Nat.le_add_right _ _), Nat.add_sub_cancel_left,
    List.getElem?_append_left inside]

theorem getElem_start {pieces : List (List Word)} {p : Nat} {w : Word} {rest : List Word}
    (here : pieces[p]? = some (w :: rest)) : pieces.flatten[start pieces p]? = some w :=
  flatten_start here (Nat.zero_lt_succ _)

/-- Labels and word indices of the instructions of one kind, counting words from `n`. -/
def marks (op : Opcode) : Nat → List Instruction → List (List Word) → List (Int × Nat)
  | n, i :: is, piece :: pieces =>
    (if i.op = op then [(i.label, n)] else []) ++ marks op (n + piece.length) is pieces
  | _, _, _ => []

theorem mem_marks {op : Opcode} {n : Nat} {is : List Instruction} {pieces : List (List Word)}
    (same : is.length = pieces.length) {l : Int} {at_ : Nat} :
    (l, at_) ∈ marks op n is pieces ↔
      ∃ p i, is[p]? = some i ∧ i.op = op ∧ i.label = l ∧ n + start pieces p = at_ := by
  induction is generalizing n pieces with
  | nil => simp [marks]
  | cons i is ih =>
    cases pieces with
    | nil => cases same
    | cons piece pieces =>
      rw [marks, List.mem_append, ih (Nat.succ.inj same)]
      constructor
      · rintro (here | ⟨p, j, found, kind, label, word⟩)
        · split at here
          · cases List.mem_singleton.mp here
            exact ⟨0, i, rfl, ‹_›, rfl, rfl⟩
          · cases here
        · exact ⟨p + 1, j, found, kind, label, by rw [start_cons_succ]; omega⟩
      · rintro ⟨_ | p, j, found, kind, label, word⟩
        · cases found
          rw [start_zero, Nat.add_zero] at word
          exact .inl (by simp [kind, label, word])
        · rw [start_cons_succ] at word
          exact .inr ⟨p, j, found, kind, label, by omega⟩

/-- Instructions of a kind that always has words start at ever later words. -/
theorem marks_ascending {op : Opcode} {n : Nat} {is : List Instruction} {pieces : List (List Word)}
    (some_ : ∀ (p : Nat) (i : Instruction) (piece : List Word), is[p]? = some i → i.op = op →
      pieces[p]? = some piece → piece ≠ []) :
    (marks op n is pieces).Pairwise (fun a b => a.2 < b.2) ∧ ∀ a ∈ marks op n is pieces, n ≤ a.2 := by
  induction is generalizing n pieces with
  | nil => simp [marks]
  | cons i is ih =>
    cases pieces with
    | nil => simp [marks]
    | cons piece pieces =>
      obtain ⟨rest, later⟩ : (marks op (n + piece.length) is pieces).Pairwise (fun a b => a.2 < b.2) ∧
          ∀ a ∈ marks op (n + piece.length) is pieces, n + piece.length ≤ a.2 :=
        ih fun p j piece here => some_ (p + 1) j piece here
      rw [marks]
      split
      · rename_i kind
        have positive : 0 < piece.length := List.length_pos_iff.mpr (some_ 0 i piece rfl kind rfl)
        refine ⟨List.pairwise_append.mpr ⟨List.pairwise_singleton .., rest, ?_⟩, ?_⟩
        · intro a member b after
          cases List.mem_singleton.mp member
          have := later b after
          omega
        · intro a member
          rcases List.mem_append.mp member with here | after
          · cases List.mem_singleton.mp here
            exact Nat.le_refl _
          · have := later a after
            omega
      · refine ⟨rest, fun a member => ?_⟩
        have := later a member
        omega

/-- The labels defined by instructions, in order. -/
def definedLabels (is : List Instruction) : List Int :=
  (controls is).filterMap fun c => if c.1 = .label then some c.2 else none

theorem definedLabels_cons (i : Instruction) (is : List Instruction) :
    definedLabels (i :: is) = (if i.op = .label then [i.label] else []) ++ definedLabels is := by
  by_cases label : i.op = .label
  · simp [definedLabels, controls, control?, label]
  · by_cases jump : i.op = .jump
    · simp [definedLabels, controls, control?, jump]
    · simp [definedLabels, controls, control?, label, jump]

theorem marks_labels (n : Nat) (is : List Instruction) (pieces : List (List Word))
    (same : is.length = pieces.length) :
    (marks .label n is pieces).map Prod.fst = definedLabels is := by
  induction is generalizing n pieces with
  | nil => rfl
  | cons i is ih =>
    cases pieces with
    | nil => cases same
    | cons piece pieces =>
      rw [marks, List.map_append, ih _ _ (Nat.succ.inj same), definedLabels_cons]
      split <;> rfl

theorem unique_of_nodup {k : Kernel} (nodup : (definedLabels k.code).Nodup) : UniqueLabels k := by
  have apart (is : List Instruction) (nodup : (definedLabels is).Nodup) :
      is.Pairwise fun i j => i.op = .label → j.op = .label → i.label ≠ j.label := by
    induction is with
    | nil => exact .nil
    | cons i is ih =>
      rw [definedLabels_cons] at nodup
      refine List.pairwise_cons.mpr ⟨?_, ih (List.nodup_append.mp nodup).2.1⟩
      intro j member labelI labelJ same
      rw [if_pos labelI] at nodup
      apply (List.nodup_cons.mp nodup).1
      rw [same]
      exact List.mem_filterMap.mpr ⟨(.label, j.label), List.mem_filterMap.mpr
        ⟨j, member, by simp [control?, labelJ]⟩, by simp⟩
  intro p q i j atP atQ labelI labelJ same
  obtain ⟨smallP, rfl⟩ := List.getElem?_eq_some_iff.mp atP
  obtain ⟨smallQ, rfl⟩ := List.getElem?_eq_some_iff.mp atQ
  have pairs := List.pairwise_iff_getElem.mp (apart k.code nodup)
  rcases Nat.lt_trichotomy p q with less | equal | more
  · exact absurd same (pairs p q smallP smallQ less labelI labelJ)
  · exact equal
  · exact absurd same.symm (pairs q p smallQ smallP more labelJ labelI)

/-! ## Emission -/

theorem run_failed {a : Assembler} {d : Diagnostic} (failed : a.error = some d) (i : Issue) :
    (a.run i).error = some d := by
  unfold Assembler.run Assembler.issue
  dsimp only
  cases a.generation.assemble i.state i.command with
  | error e => simp [Assembler.fail, failed]
  | ok ws => exact (StraightLine.commitAll_keeps _ ws).1.trans failed

/-- Commands that leave no failure behind appended the words of each of them. -/
theorem runAll_clean {a : Assembler} {issues : List Issue} (clean : (a.runAll issues).error = none) :
    ∃ pieces, issues.mapM (fun x => a.generation.assemble x.state x.command) = .ok pieces ∧
      (a.runAll issues).words = a.words ++ pieces.flatten ∧
      (a.runAll issues).generation = a.generation := by
  induction issues generalizing a with
  | nil => exact ⟨[], rfl, by simp [Assembler.runAll], rfl⟩
  | cons x rest ih =>
    have first : (a.run x).error = none := by
      cases failed : (a.run x).error with
      | none => rfl
      | some d =>
        have stays (is : List Issue) (a : Assembler) (failed : a.error = some d) :
            (a.runAll is).error = some d := by
          induction is generalizing a with
          | nil => exact failed
          | cons y is ih => exact ih (a.run y) (run_failed failed y)
        exact absurd ((stays rest _ failed).symm.trans clean) (by simp)
    obtain ⟨ws, assembled, words, generation⟩ := StraightLine.run_clean first
    obtain ⟨pieces, others, more, same⟩ := ih clean
    rw [generation] at others
    refine ⟨ws :: pieces, ?_, ?_, same.trans generation⟩
    · simp only [List.mapM_cons, bind_ok, pure_ok]
      exact ⟨ws, assembled, pieces, others, rfl⟩
    · change ((a.run x).runAll rest).words = _
      rw [more, words, List.append_assoc, List.flatten_cons]

/-- An emitter after some more instructions. -/
structure Extends (g : Generation) (f : Emission.Frame) (is : List Instruction) (pieces : List (List Word))
    (m m' : Emitter) : Prop where
  encoded : is.mapM (encoded g f) = .ok pieces
  words : m'.assembler.words = m.assembler.words ++ pieces.flatten
  generation : m'.assembler.generation = g
  labels : m'.labels = m.labels ++ marks .label m.assembler.words.length is pieces
  jumps : m'.jumps.map (fun j => (j.label, j.word)) =
    m.jumps.map (fun j => (j.label, j.word)) ++ marks .jump m.assembler.words.length is pieces
  nodup : (m'.labels.map Prod.fst).Nodup

theorem label_none {m : Emitter} {l : Int} (missing : m.label? l = none) : l ∉ m.labels.map Prod.fst := by
  intro member
  obtain ⟨e, known, rfl⟩ := List.mem_map.mp member
  rw [Emitter.label?, Option.map_eq_none_iff] at missing
  simpa using List.find?_eq_none.mp missing e known

theorem step_extends {g : Generation} {f : Emission.Frame} {m m' : Emitter} {i : Instruction} {position : Nat}
    (generation : m.assembler.generation = g) (nodup : (m.labels.map Prod.fst).Nodup)
    (stepped : Emitter.step f m (i, position) = .ok m') : ∃ piece, Extends g f [i] [piece] m m' := by
  have single {piece : List Word} (one : encoded g f i = .ok piece) : [i].mapM (encoded g f) = .ok [piece] := by
    simp only [List.mapM_cons, List.mapM_nil, bind_ok, pure_ok]
    exact ⟨piece, one, [], rfl, rfl⟩
  simp only [Emitter.step] at stepped
  split at stepped
  · rename_i label
    unfold Emitter.defineLabel at stepped
    split at stepped
    · cases stepped
    · rename_i missing
      obtain ⟨rfl, -⟩ := StraightLine.checkpoint_ok stepped
      refine ⟨[], single (by simp [encoded, label]), by simp, generation, by simp [marks, label],
        by simp [marks, label], ?_⟩
      rw [List.map_append]
      refine List.nodup_append.mpr ⟨nodup, List.pairwise_singleton .., ?_⟩
      rintro a known b new rfl
      cases List.mem_singleton.mp new
      exact label_none missing known
  · rename_i jump
    obtain ⟨rfl, clean⟩ := StraightLine.checkpoint_ok stepped
    obtain ⟨ws, assembled, words, same⟩ := StraightLine.run_clean clean
    rw [generation] at assembled same
    exact ⟨ws, single (by simpa [encoded, jump] using assembled), by simpa using words, same,
      by simp [marks, jump], by simp [marks, jump], nodup⟩
  · rename_i label jump
    split at stepped
    · rename_i issues emitted
      obtain ⟨rfl, clean⟩ := StraightLine.checkpoint_ok stepped
      obtain ⟨pieces, assembled, words, same⟩ := runAll_clean clean
      rw [generation] at assembled same
      refine ⟨pieces.flatten, single ?_, by simpa using words, same, by simpa [marks] using label,
        by simpa [marks] using jump, nodup⟩
      unfold encoded
      split
      · exact absurd ‹_› label
      · exact absurd ‹_› jump
      · simp only [emitted, Except.mapError, bind_ok, pure_ok]
        exact ⟨issues, rfl, pieces, assembled, rfl⟩
    · cases stepped

/-- Emission of instructions in order notes every label and jump at its word. -/
theorem steps_extend {g : Generation} {f : Emission.Frame} (entries : List (Instruction × Nat)) {m m' : Emitter}
    (generation : m.assembler.generation = g) (nodup : (m.labels.map Prod.fst).Nodup)
    (ran : entries.foldlM (Emitter.step f) m = .ok m') :
    ∃ pieces, Extends g f (entries.map Prod.fst) pieces m m' := by
  induction entries generalizing m with
  | nil =>
    rw [List.foldlM_nil, pure_ok] at ran
    subst ran
    exact ⟨[], rfl, by simp, generation, by simp [marks], by simp [marks], nodup⟩
  | cons e rest ih =>
    rw [List.foldlM_cons, bind_ok] at ran
    obtain ⟨t, first, others⟩ := ran
    obtain ⟨piece, one⟩ := step_extends generation nodup first
    obtain ⟨pieces, more⟩ := ih one.generation one.nodup others
    have words : t.assembler.words.length = m.assembler.words.length + piece.length := by
      rw [one.words]
      simp
    refine ⟨piece :: pieces, ?_, ?_, more.generation, ?_, ?_, more.nodup⟩
    · obtain ⟨here, -⟩ := List.forall₂_cons.mp (mapM_forall one.encoded)
      simp only [List.map_cons, List.mapM_cons, bind_ok, pure_ok]
      exact ⟨piece, here, pieces, more.encoded, rfl⟩
    · rw [more.words, one.words]
      simp
    · rw [more.labels, one.labels, words]
      simp [marks]
    · rw [more.jumps, one.jumps, words]
      simp [marks]

/-! ## Jumps -/

/-- A jump in its encoded form. -/
def IsJump (g : Generation) (w : Word) : Prop := ∃ d, g.layout.decode w = .ok d ∧ d.opcode = .jmpi

theorem IsJump.steady {g : Generation} {w : Word} (jump : IsJump g w) : StraightLine.Steady g w := by
  obtain ⟨d, decodes, opcode⟩ := jump
  refine ⟨d, decodes, by rw [opcode]; rfl, ?_⟩
  intro send
  rw [opcode] at send
  cases send

theorem fixed_of_steady {g : Generation} {w : Word} (steady : StraightLine.Steady g w) (fixups : List Fixup) :
    Fixup.fixed g fixups w = [w] := by
  apply Fixup.fixed_steady
  intro x
  cases x with
  | splitTriples => exact steady.split
  | fenceWrites =>
    simp only [Fixup.replacement]
    split
    · exact steady.fence _
    · rfl

/-- A jump is emitted as one word. -/
theorem encoded_jump {g : Generation} {f : Emission.Frame} {i : Instruction} {piece : List Word} {width : Int}
    (base : f.base = StraightLine.plainState width) (jump : i.op = .jump)
    (made : encoded g f i = .ok piece) : ∃ w, piece = [w] ∧ IsJump g w := by
  simp only [encoded, jump] at made
  have fits : StateFits (Emission.instructionState f.base i (f.allocation.kernel.widthOf i)) := by
    rw [base]
    constructor
    · exact show (0 : UInt32).toNat < 4 by decide
    · simp only [Emission.instructionState, StraightLine.plainState]
      split <;> decide
  have decodes := assemble_decodes fits (show CommandFits g (.jump 0) from trivial) made
  obtain ⟨w, -, rfl⟩ := map_ok.mp made
  exact ⟨w, rfl, _, (List.cons.inj decodes).1, rfl⟩

/-- The byte distance from the word after a jump to a target. -/
def distance (jump target : Nat) : UInt32 := UInt32.ofInt ((target : Int) - ((jump : Int) + 1)) * 16

theorem distance_toInt {jump target : Nat} (nearJump : jump + 1 < 2 ^ 27) (nearTarget : target < 2 ^ 27) :
    (distance jump target).toInt32.toInt = ((target : Int) - (jump + 1)) * 16 := by
  unfold distance
  generalize words : (target : Int) - (jump + 1) = v
  have product : UInt32.ofInt v * 16 = UInt32.ofInt (v * 16) := by
    rw [UInt32.ofInt_mul]
    rfl
  have signed : (UInt32.ofInt (v * 16)).toInt32 = Int32.ofInt (v * 16) := by
    apply Int32.toBitVec.inj
    apply BitVec.eq_of_toNat_eq
    change (UInt32.ofNat (v * 16 % 4294967296).toNat).toNat = (BitVec.ofInt 32 (v * 16)).toNat
    rw [UInt32.toNat_ofNat', BitVec.toNat_ofInt]
    omega
  rw [product, signed, Int32.toInt_ofInt_of_le (by omega) (by omega)]

theorem patchJump_ok {a a' : Assembler} {n t : Nat} (patched : a.patchJump n t = .ok a') :
    ∃ w, a.words[n]? = some w ∧
      a' = { a with words := a.words.set n (a.layout.imm32.set (distance n t) w) } := by
  unfold Assembler.patchJump at patched
  rw [if_neg (by omega), Int.toNat_natCast] at patched
  split at patched
  · cases patched
  · rename_i w found
    dsimp only at patched
    split at patched
    · cases patched
    · cases patched
      exact ⟨w, found, rfl⟩

/-- A jump that was patched goes to its target. -/
theorem jumpTarget_patched {a : Assembler} {n t : Nat} {w : Word} (nearJump : n + 1 < 2 ^ 27)
    (nearTarget : t < 2 ^ 27) (found : a.words[n]? = some (a.layout.imm32.set (distance n t) w)) :
    a.jumpTarget n = t := by
  have proper : a.layout.imm32.Proper ∧ a.layout.imm32.width = 32 := by
    rcases layout_cases a.generation with family | family <;>
      simp only [Assembler.layout, family] <;> decide
  unfold Assembler.jumpTarget
  rw [found, Option.getD_some, Field.get_set proper.1 _ _ (by rw [proper.2]; exact UInt32.toNat_lt _)]
  dsimp only
  rw [distance_toInt nearJump nearTarget, Int.mul_tdiv_cancel _ (by decide)]
  omega

/-- What resolving jumps changes: one word for each of them. -/
theorem resolve_words {m : Emitter} {remap : List Nat} (js : List PendingJump) {a final : Assembler}
    (apart : (js.map fun j => remap.getD j.word 0).Nodup)
    (ran : js.foldlM (m.resolve remap) a = .ok final) :
    final.generation = a.generation ∧ final.words.length = a.words.length ∧
      (∀ n, n ∉ js.map (fun j => remap.getD j.word 0) → final.words[n]? = a.words[n]?) ∧
      ∀ j ∈ js, ∃ target w, m.label? j.label = some target ∧ a.words[remap.getD j.word 0]? = some w ∧
        final.words[remap.getD j.word 0]? =
          some (a.layout.imm32.set (distance (remap.getD j.word 0) (remap.getD target 0)) w) := by
  induction js generalizing a with
  | nil =>
    rw [List.foldlM_nil, pure_ok] at ran
    subst ran
    simp
  | cons j rest ih =>
    rw [List.foldlM_cons, bind_ok] at ran
    obtain ⟨t, first, others⟩ := ran
    rw [List.map_cons, List.nodup_cons] at apart
    obtain ⟨generation, length, kept, patched⟩ := ih apart.2 others
    unfold Emitter.resolve at first
    split at first
    · cases first
    · rename_i target known
      obtain ⟨w, found, rfl⟩ := patchJump_ok (mapError_ok.mp first)
      refine ⟨generation, by simpa using length, ?_, ?_⟩
      · intro n outside
        rw [List.map_cons, List.mem_cons, not_or] at outside
        rw [kept n outside.2, List.getElem?_set_ne (Ne.symm outside.1)]
      · intro x member
        rcases List.mem_cons.mp member with rfl | later
        · refine ⟨target, w, known, found, ?_⟩
          rw [kept _ apart.1, List.getElem?_set_self (List.getElem?_eq_some_iff.mp found).1]
        · obtain ⟨target', w', known', found', here⟩ := patched x later
          have other : remap.getD j.word 0 ≠ remap.getD x.word 0 := by
            intro same
            apply apart.1
            rw [same]
            exact List.mem_map_of_mem later
          rw [List.getElem?_set_ne other] at found'
          exact ⟨target', w', known', found', here⟩

/-! ## Programs -/

theorem take_start (pieces : List (List Word)) (p : Nat) :
    pieces.flatten.take (start pieces p) = (pieces.take p).flatten := by
  have split : pieces.flatten = (pieces.take p).flatten ++ (pieces.drop p).flatten := by
    rw [← List.flatten_append, List.take_append_drop]
  rw [split, start, List.take_left]

/-- What fixups make of the words of each instruction. -/
def fixedPieces (g : Generation) (fixups : List Fixup) (pieces : List (List Word)) : List (List Word) :=
  pieces.map fun ws => ws.flatMap (Fixup.fixed g fixups)

theorem flatten_fixedPieces (g : Generation) (fixups : List Fixup) (pieces : List (List Word)) :
    (fixedPieces g fixups pieces).flatten = pieces.flatten.flatMap (Fixup.fixed g fixups) := by
  induction pieces with
  | nil => rfl
  | cons piece rest ih => rw [List.flatten_cons, List.flatMap_append, ← ih]; rfl

/-- Fixups move the start of an instruction's words to the start of what becomes of them. -/
theorem remap_start {g : Generation} {fixups : List Fixup} {pieces : List (List Word)} {r : Fixed}
    (replaces : Fixup.Replaces (Fixup.fixed g fixups) pieces.flatten r) (p : Nat) :
    r.remap.getD (start pieces p) 0 = start (fixedPieces g fixups pieces) p := by
  rw [List.getD_eq_getElem?_getD, replaces.remap _ (start_le pieces p), Option.getD_some, take_start,
    ← flatten_fixedPieces, start, fixedPieces, fixedPieces, List.map_take]

theorem fixedPieces_jump {g : Generation} {pieces : List (List Word)} {p : Nat} {w : Word} (jump : IsJump g w)
    (here : pieces[p]? = some [w]) (fixups : List Fixup) : (fixedPieces g fixups pieces)[p]? = some [w] := by
  rw [fixedPieces, List.getElem?_map, here, Option.map_some, List.flatMap_singleton, fixed_of_steady jump.steady]

/-- The words of a program whose instructions have the words `pieces`, but for the distances of jumps.
Every jump goes to the first word of the instructions after its label. -/
structure Resolved (g : Generation) (code : List Instruction) (pieces : List (List Word)) (words : List Word) :
    Prop where
  length : words.length = pieces.flatten.length
  others : ∀ n, (∀ (p : Nat) (i : Instruction), code[p]? = some i → i.op = .jump → start pieces p ≠ n) →
    words[n]? = pieces.flatten[n]?
  jumps : ∀ (p : Nat) (i : Instruction), code[p]? = some i → i.op = .jump →
    ∃ (w : Word) (distance : UInt32) (q : Nat) (j : Instruction), pieces[p]? = some [w] ∧ IsJump g w ∧
      words[start pieces p]? = some (g.layout.imm32.set distance w) ∧
      code[q]? = some j ∧ j.op = .label ∧ j.label = i.label ∧
      ∀ a : Assembler, a.generation = g → a.words = words →
        a.jumpTarget (start pieces p) = start pieces (q + 1)

/-- An emitter after all instructions. -/
abbrev Noted (g : Generation) (f : Emission.Frame) (code : List Instruction) (pieces : List (List Word))
    (m : Emitter) : Prop :=
  Extends g f code pieces { assembler := { generation := g, state := f.base } } m

section
variable {g : Generation} {f : Emission.Frame} {code : List Instruction} {pieces : List (List Word)}
  {m : Emitter} {width : Int}

theorem Noted.label (noted : Noted g f code pieces m) {l : Int} {n : Nat} (known : m.label? l = some n) :
    ∃ (q : Nat) (j : Instruction), code[q]? = some j ∧ j.op = .label ∧ j.label = l ∧
      start pieces (q + 1) = n := by
  obtain ⟨e, found, rfl⟩ := Option.map_eq_some_iff.mp known
  have named : e.1 = l := by simpa using List.find?_some found
  have member : (l, e.2) ∈ marks .label 0 code pieces := by
    rw [← named]
    exact (show m.labels = marks .label 0 code pieces from noted.labels) ▸ List.mem_of_find?_eq_some found
  obtain ⟨q, j, here, label, same, word⟩ := (mem_marks (mapM_forall noted.encoded).length_eq).mp member
  refine ⟨q, j, here, label, same, ?_⟩
  obtain ⟨piece, at_, made⟩ := mapM_getElem noted.encoded here
  simp only [Branches.encoded, label, Except.ok.injEq] at made
  rw [start_add at_, ← made, List.length_nil, ← word, Nat.add_zero, Nat.zero_add]

theorem Noted.jump (noted : Noted g f code pieces m) {l : Int} {n : Nat} :
    (l, n) ∈ m.jumps.map (fun j => (j.label, j.word)) ↔
      ∃ (p : Nat) (i : Instruction), code[p]? = some i ∧ i.op = .jump ∧ i.label = l ∧ start pieces p = n := by
  have jumps : m.jumps.map (fun j => (j.label, j.word)) = marks .jump 0 code pieces := noted.jumps
  rw [jumps, mem_marks (mapM_forall noted.encoded).length_eq]
  simp only [Nat.zero_add]

theorem Noted.single (noted : Noted g f code pieces m) (base : f.base = StraightLine.plainState width) {p : Nat}
    {i : Instruction} (here : code[p]? = some i) (jump : i.op = .jump) :
    ∃ w, pieces[p]? = some [w] ∧ IsJump g w := by
  obtain ⟨piece, found, made⟩ := mapM_getElem noted.encoded here
  obtain ⟨w, rfl, word⟩ := encoded_jump base jump made
  exact ⟨w, found, word⟩

theorem Noted.apart (noted : Noted g f code pieces m) (base : f.base = StraightLine.plainState width)
    {fixups : List Fixup} {r : Fixed} (replaces : Fixup.Replaces (Fixup.fixed g fixups) pieces.flatten r) :
    (m.jumps.map fun j => r.remap.getD j.word 0).Nodup := by
  have ascending : (marks .jump 0 code pieces).Pairwise fun a b => a.2 < b.2 :=
    (marks_ascending fun p i piece here jump found => by
      obtain ⟨w, same, -⟩ := noted.single base here jump
      rw [found] at same
      cases same
      simp).1
  have jumps : m.jumps.map (fun j => (j.label, j.word)) = marks .jump 0 code pieces := noted.jumps
  rw [← jumps, List.pairwise_map] at ascending
  refine List.pairwise_map.mpr (ascending.imp_of_mem ?_)
  intro x y _ member less
  obtain ⟨p, i, -, -, -, word⟩ := noted.jump.mp (List.mem_map_of_mem member)
  exact Nat.ne_of_lt (replaces.ascending (Fixup.fixed_ne_nil g fixups) less (word ▸ start_le pieces p))

/-- Resolving jumps changes no other word. -/
theorem Noted.kept (noted : Noted g f code pieces m) (base : f.base = StraightLine.plainState width)
    {fixups : List Fixup} {r : Fixed} (replaces : Fixup.Replaces (Fixup.fixed g fixups) pieces.flatten r)
    {final : Assembler}
    (ran : m.jumps.foldlM (m.resolve r.remap) { m.assembler with words := r.words } = .ok final) :
    final.words.length = (fixedPieces g fixups pieces).flatten.length ∧
      ∀ n, (∀ (p : Nat) (i : Instruction), code[p]? = some i → i.op = .jump →
        start (fixedPieces g fixups pieces) p ≠ n) → final.words[n]? = (fixedPieces g fixups pieces).flatten[n]? := by
  obtain ⟨-, length, kept, -⟩ := resolve_words m.jumps (noted.apart base replaces) ran
  have words : r.words = (fixedPieces g fixups pieces).flatten := by
    rw [replaces.words, flatten_fixedPieces]
  refine ⟨by rw [length, words], ?_⟩
  intro n outside
  rw [← words]
  apply kept
  intro member
  obtain ⟨x, known, rfl⟩ := List.mem_map.mp member
  obtain ⟨p, i, here, jump, -, index⟩ := noted.jump.mp (List.mem_map_of_mem known)
  apply outside p i here jump
  rw [← remap_start replaces, index]

/-- Every jump was noted, and its label too, so its word is given the distance between their places. -/
theorem Noted.patched (noted : Noted g f code pieces m) (base : f.base = StraightLine.plainState width)
    {fixups : List Fixup} {r : Fixed} (replaces : Fixup.Replaces (Fixup.fixed g fixups) pieces.flatten r)
    {final : Assembler}
    (ran : m.jumps.foldlM (m.resolve r.remap) { m.assembler with words := r.words } = .ok final) {p : Nat}
    {i : Instruction} (here : code[p]? = some i) (jump : i.op = .jump) :
    ∃ (w : Word) (q : Nat) (j : Instruction), pieces[p]? = some [w] ∧ IsJump g w ∧
      code[q]? = some j ∧ j.op = .label ∧ j.label = i.label ∧
      final.words[start (fixedPieces g fixups pieces) p]? =
        some (g.layout.imm32.set (distance (start (fixedPieces g fixups pieces) p)
          (start (fixedPieces g fixups pieces) (q + 1))) w) := by
  obtain ⟨-, -, -, patched⟩ := resolve_words m.jumps (noted.apart base replaces) ran
  have words : r.words = (fixedPieces g fixups pieces).flatten := by
    rw [replaces.words, flatten_fixedPieces]
  have layout : m.assembler.layout = g.layout := by
    rw [Assembler.layout, noted.generation]
  obtain ⟨w, at_, word⟩ := noted.single base here jump
  obtain ⟨x, member, same⟩ := List.mem_map.mp (noted.jump.mpr ⟨p, i, here, jump, rfl, rfl⟩)
  obtain ⟨target, w', known, found, patch⟩ := patched x member
  obtain ⟨label, index⟩ := Prod.mk.inj same
  rw [label] at known
  obtain ⟨q, j, there, labels, named, position⟩ := noted.label known
  rw [index, ← position, remap_start replaces, remap_start replaces] at patch
  rw [index, remap_start replaces] at found
  have unpatched : w' = w := by
    have first := getElem_start (fixedPieces_jump word at_ fixups)
    rw [← words] at first
    exact Option.some.inj (found.symm.trans first)
  rw [unpatched] at patch
  refine ⟨w, q, j, at_, word, there, labels, named, ?_⟩
  rw [patch, ← layout]
  rfl

/-- Jumps are resolved against the places their labels were moved to. -/
theorem Noted.resolved (noted : Noted g f code pieces m) (base : f.base = StraightLine.plainState width)
    {fixups : List Fixup} {r : Fixed} (replaces : Fixup.Replaces (Fixup.fixed g fixups) pieces.flatten r)
    {final : Assembler}
    (ran : m.jumps.foldlM (m.resolve r.remap) { m.assembler with words := r.words } = .ok final) :
    (∀ i ∈ code, i.op = .jump → ∃ j ∈ code, j.op = .label ∧ j.label = i.label) ∧
      (final.words.length < 2 ^ 27 →
        Resolved g code (fixedPieces g fixups pieces) final.words) := by
  obtain ⟨length, kept⟩ := noted.kept base replaces ran
  refine ⟨?_, fun short => ⟨length, kept, ?_⟩⟩
  · intro i member jump
    obtain ⟨p, here⟩ := List.getElem?_of_mem member
    obtain ⟨-, q, j, -, -, there, labels, named, -⟩ := noted.patched base replaces ran here jump
    exact ⟨j, List.mem_of_getElem? there, labels, named⟩
  · intro p i here jump
    obtain ⟨w, q, j, at_, word, there, labels, named, patch⟩ := noted.patched base replaces ran here jump
    refine ⟨w, _, q, j, fixedPieces_jump word at_ fixups, word, patch, there, labels, named, ?_⟩
    intro a generation same
    have inside := (List.getElem?_eq_some_iff.mp patch).1
    have bound := start_le (fixedPieces g fixups pieces) (q + 1)
    apply jumpTarget_patched (w := w) (by omega) (by omega)
    rw [same, patch, Assembler.layout, generation]

end

/-- A run over the instructions notes its labels and jumps. -/
theorem run_noted {g : Generation} {f : Emission.Frame} {code : List Instruction} {m : Emitter}
    (ran : code.zipIdx.foldlM (Emitter.step f) { assembler := { generation := g, state := f.base } } = .ok m) :
    ∃ pieces, Noted g f code pieces m ∧ m.assembler.words = pieces.flatten := by
  obtain ⟨pieces, noted⟩ := steps_extend (g := g) _ rfl (by exact List.nodup_nil) ran
  rw [List.zipIdx_map_fst] at noted
  exact ⟨pieces, noted, noted.words⟩

theorem emit_noted {c : Context} {a : Allocation} {words : List Word} {events : List CompileEvent}
    (emitted : c.emit a = .ok (words, events)) :
    ∃ pieces m r final,
      Noted c.generation ⟨c.flavor, a, StraightLine.plainState c.simdWidth⟩ a.kernel.code pieces m ∧
      Fixup.Replaces (Fixup.fixed c.generation (Fixup.ofFlavor c.flavor)) pieces.flatten r ∧
      m.jumps.foldlM (m.resolve r.remap) { m.assembler with words := r.words } = .ok final ∧
      final.words = words := by
  obtain ⟨m, r, final, ran, fixed, resolved, final_⟩ := StraightLine.emit_run emitted
  obtain ⟨pieces, noted, words_⟩ := run_noted ran
  have replaces := Fixup.applyAll_replaces c.generation (Fixup.ofFlavor c.flavor) m.assembler.words
  rw [← fixed, words_] at replaces
  exact ⟨pieces, m, r, final, noted, replaces, resolved, final_⟩

theorem emit_resolved {c : Context} {a : Allocation} {words : List Word} {events : List CompileEvent}
    (emitted : c.emit a = .ok (words, events)) :
    ∃ pieces, a.kernel.code.mapM (encoded c.generation ⟨c.flavor, a, { execWidth := c.simdWidth }⟩) = .ok pieces ∧
      (definedLabels a.kernel.code).Nodup ∧
      (∀ i ∈ a.kernel.code, i.op = .jump → ∃ j ∈ a.kernel.code, j.op = .label ∧ j.label = i.label) ∧
      (words.length < 2 ^ 27 → Resolved c.generation a.kernel.code
        (fixedPieces c.generation (Fixup.ofFlavor c.flavor) pieces) words) := by
  obtain ⟨pieces, m, r, final, noted, replaces, ran, rfl⟩ := emit_noted emitted
  obtain ⟨defined, whole⟩ := noted.resolved rfl replaces ran
  refine ⟨pieces, noted.encoded, ?_, defined, whole⟩
  have nodup := noted.nodup
  rw [show m.labels = marks .label 0 a.kernel.code pieces from noted.labels,
    marks_labels _ _ _ (mapM_forall noted.encoded).length_eq] at nodup
  exact nodup

theorem jumps_defined {is js : List Instruction} (same : controls is = controls js)
    (defined : ∀ i ∈ is, i.op = .jump → ∃ j ∈ is, j.op = .label ∧ j.label = i.label) :
    ∀ i ∈ js, i.op = .jump → ∃ j ∈ js, j.op = .label ∧ j.label = i.label := by
  have known {is js : List Instruction} (same : controls is = controls js) {i : Instruction} (member : i ∈ is)
      (kind : i.op = .label ∨ i.op = .jump) : ∃ j ∈ js, j.op = i.op ∧ j.label = i.label := by
    have here : (i.op, i.label) ∈ controls is := List.mem_filterMap.mpr ⟨i, member, by simp [control?, kind]⟩
    rw [same] at here
    obtain ⟨j, found, equal⟩ := List.mem_filterMap.mp here
    refine ⟨j, found, ?_⟩
    unfold control? at equal
    split at equal
    · exact Prod.mk.inj (Option.some.inj equal)
    · cases equal
  intro i member jump
  obtain ⟨i', inside, op, label⟩ := known same.symm member (.inr jump)
  obtain ⟨j', there, labels, named⟩ := defined i' inside (op.trans jump)
  obtain ⟨j, found, op', label'⟩ := known same there (.inl labels)
  exact ⟨j, found, op'.trans labels, by rw [label', named, label]⟩

/-- Compiled programs jump where their kernels say. Labels are unique and all jumps find theirs; labels and
jumps pass through selection and allocation; each fixup tells where every word went; and in the program
every jump goes to the first word of the instructions after its label, with nothing but its distance
changed in the words the fixups gave. -/
theorem branches_resolved (g : Generation) (k : Kernel) (settings : Settings) (variant : String)
    (compiled : Compilation) (log : List CompileEvent)
    (ran : k.compile g settings variant = .ok (compiled, log))
    (short : compiled.program.words.length < 2 ^ 27) :
    UniqueLabels k ∧
      (∀ i ∈ k.code, i.op = .jump → ∃ j ∈ k.code, j.op = .label ∧ j.label = i.label) ∧
      controls compiled.allocation.kernel.code = controls k.code ∧
      (∀ (x : Fixup) (ws : List Word), Fixup.Remaps g ws (x.apply g ws)) ∧
      ∃ flavor pieces, Flavor.ofGeneration g = .ok flavor ∧
        compiled.allocation.kernel.code.mapM
          (encoded g ⟨flavor, compiled.allocation, { execWidth := compiled.program.simdWidth }⟩) = .ok pieces ∧
        Resolved g compiled.allocation.kernel.code (fixedPieces g (Fixup.ofFlavor flavor) pieces)
          compiled.program.words := by
  obtain ⟨c, selected, events, told, ⟨rfl, rfl, -, -, flavor, -⟩, simd, select, allocated, emitted⟩ :=
    StraightLine.compile_stages ran
  have same : controls compiled.allocation.kernel.code = controls c.kernel.code :=
    (ofKernel_controls allocated).trans (select_controls select)
  obtain ⟨pieces, made, nodup, defined, resolved⟩ := emit_resolved emitted
  refine ⟨unique_of_nodup ?_, jumps_defined same defined, same,
    fun x ws => Fixup.apply_remaps c.generation ws x, c.flavor, pieces, flavor, ?_, resolved short⟩
  · rw [definedLabels, ← same]
    exact nodup
  · rw [simd]
    exact made

/-- A loop with an early exit. Sandy Bridge puts a fence behind the store of its body. -/
def fencedLoop : Kernel where
  name := "fencedLoop"
  simdWidth := 8
  code :=
    [{ op := .mov, dst := .vector ⟨0⟩ .ud, src := [.immediate .ud 64 false false] },
      { op := .label, label := 0 },
      { op := .jump, label := 1, predicated := true },
      { op := .store, src := [.vector ⟨0⟩ .ud, .vector ⟨0⟩ .ud] },
      { op := .jump, label := 0 },
      { op := .label, label := 1 },
      { op := .endThread },
      { op := .label, label := 2 }]

theorem fencedLoop_outcome : ((fencedLoop.compile .gen6 {} "").toOption.map fun r =>
    (r.1.program.words.length, r.2.contains (.fenced 1))) = some (9, true) := by
  simp only [Kernel.compile, Context.compile, Allocation.ofKernel, Allocation.sweep, Sweep.run, Sweep.start,
    Liveness.ofKernel, Placement.sorted_insertion]
  decide +kernel

theorem branches_resolved_fencedLoop :
    ∃ compiled log pieces, fencedLoop.compile .gen6 {} "" = .ok (compiled, log) ∧ .fenced 1 ∈ log ∧
      compiled.program.words.length = 9 ∧ UniqueLabels fencedLoop ∧
      Resolved .gen6 compiled.allocation.kernel.code
        (fixedPieces .gen6 [.splitTriples, .fenceWrites] pieces) compiled.program.words := by
  obtain ⟨⟨compiled, log⟩, ran, same⟩ := toOption_map_some.mp fencedLoop_outcome
  obtain ⟨length, fenced⟩ := Prod.mk.inj same
  obtain ⟨unique, -, -, -, flavor, pieces, known, -, resolved⟩ :=
    branches_resolved .gen6 fencedLoop {} "" compiled log ran (by rw [length]; decide)
  cases known
  exact ⟨compiled, log, pieces, ran, by simpa using fenced, length, unique, resolved⟩

end GpuCodegen.Branches
