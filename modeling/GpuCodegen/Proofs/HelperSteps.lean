import GpuCodegen.Proofs.EncodableWords
import GpuCodegen.Proofs.MemoryWrites

/-! The assembler's helpers step by step. A helper saves the state where its words need another one, changes it,
appends words as far as they can be built, records why one cannot, and restores what it saved. Seen from outside it
does what issuing its command does: all of its words or none, and the states as before. The helper that ends a
thread has two words to append and may fail between them; its message can be built wherever its move could. -/

namespace GpuCodegen

/-- Steps on an assembler. They return a value or stop with a failure, and what they did stays either way. -/
abbrev Steps := EStateM Diagnostic Assembler

namespace Steps
open Native Generation Outcome

/-- Saves the current state. -/
def push : Steps Unit := modify Assembler.push

/-- Restores the state saved last. -/
def pop : Steps Unit := modify Assembler.pop

/-- Changes the current state. -/
def adjust (f : State → State) : Steps Unit := modify fun a => { a with state := f a.state }

/-- Runs steps after some and before others, which follow also where they stop. -/
def between {σ α : Type} (before after : EStateM Diagnostic σ Unit) (body : EStateM Diagnostic σ α) :
    EStateM Diagnostic σ α := do
  before
  try body finally after

/-- Runs steps between a save of the state and its restoration. -/
def bracket {α : Type} (body : Steps α) : Steps α := between push pop body

/-- Appends a word and returns its index, or records why there is none. -/
def commit (word : Except Diagnostic Word) : Steps (Option Nat) := do
  match word with
  | .error d =>
    modify fun a => a.fail d
    return none
  | .ok w =>
    modify fun a => a.commit w
    return some ((← get).words.length - 1)

/-- Appends a word built under the current state. -/
def build (word : Generation → State → Except Diagnostic Word) : Steps (Option Nat) := do
  let a ← get
  commit (word a.generation a.state)

/-- A three-source instruction. Where it takes two words the index is that of the first. -/
def ternary (op : TernaryOp) (dst src0 src1 src2 : Register) : Steps (Option Nat) := do
  let a ← get
  match a.generation.tripleWord a.state op.opcode dst src0 src1 src2 with
  | .error d => commit (.error d)
  | .ok w =>
    if a.state.execWidth = 16 ∧ a.generation.supports .tripleSimd16 = false then
      let first ← commit (.ok (a.layout.lowerHalf w))
      let _ ← commit (.ok (a.layout.upperHalf w))
      return first
    else
      commit (.ok w)

/-- A jump, on a single unmasked lane under the current predicate. -/
def jump (distance : Int32) : Steps (Option Nat) := bracket do
  adjust fun s => { s with execWidth := 1, noMask := true }
  build fun g s => g.binaryWord s .jmpi .instructionPointer .instructionPointer (.immD distance.toUInt32)

/-- The register that the message to the thread spawner is sent from. -/
def lastRegister : Register := .ud8 127 0

/-- The message that ends a thread. -/
def farewell (g : Generation) (s : State) : Except Diagnostic Word :=
  g.sendWord s .threadSpawner .null lastRegister { function := 0x10, messageLength := 1, endOfThread := true }

/-- The end of a thread: a move of the thread header and the message. The index is that of the message. -/
def endThread : Steps (Option Nat) := bracket do
  adjust fun s => s.unmasked 8
  let copied ← build fun g s => g.unaryWord s .mov lastRegister (.ud8 0 0)
  if copied.isNone then
    return none
  build farewell

/-- The helper of a command. -/
def helper : Command → Steps (Option Nat)
  | .unary op dst src => build fun g s => g.unaryWord s op.opcode dst src
  | .binary op dst src0 src1 => build fun g s => g.binaryWord s op.opcode dst src0 src1
  | .compare condition dst src0 src1 => build fun g s => g.compareWord s condition dst src0 src1
  | .ternary op dst src0 src1 src2 => ternary op dst src0 src1 src2
  | .nop => build fun g s => g.headerWord s .nop
  | .jump distance => jump distance
  | .send target dst payload d => build fun g s => g.sendWord s target dst payload d
  | .barrier payload =>
    build fun g s => g.sendWord s .gateway .null payload { function := 0x4004, messageLength := 1 }
  | .wait => build fun g s => g.unaryWord s .wait (.notification 0) (.notification 0)
  | .fence dst payload flush => build fun g s => g.fenceWord s dst payload flush
  | .flushSampler dst payload => build fun g s =>
    g.sendWord s .sampler dst payload { function := 0x7f000, header := true, messageLength := 1, responseLength := 1 }
  | .atomic function dst payload surface length =>
    build fun g s => g.atomicWord s function dst payload surface length
  | .untypedRead dst address surface elements => build fun g s => g.untypedReadWord s dst address surface elements
  | .untypedWrite payload surface elements => build fun g s => g.untypedWriteWord s payload surface elements
  | .scratchRead dst header offset registers => build fun g s => g.scratchReadWord s dst header offset registers
  | .scratchWrite header offset registers => build fun g s => g.scratchWriteWord s header offset registers
  | .motion message dst payload surface => build fun g s => g.motionWord s message dst payload surface
  | .endThread => endThread

/-! ## What steps return -/

section
variable {σ α β : Type} {a b c e : σ} {x : α} {d : Diagnostic}

/-- Steps after others, seen from a state that the first get through with. -/
theorem bind_ok {p : EStateM Diagnostic σ α} (first : p a = .ok x b) (next : α → EStateM Diagnostic σ β) :
    (p >>= next) a = next x b := by
  change EStateM.bind p next a = _
  rw [EStateM.bind, first]

theorem bind_error {p : EStateM Diagnostic σ α} (first : p a = .error d b) (next : α → EStateM Diagnostic σ β) :
    (p >>= next) a = .error d b := by
  change EStateM.bind p next a = _
  rw [EStateM.bind, first]

section
variable {before after : EStateM Diagnostic σ Unit} {body : EStateM Diagnostic σ α}

theorem between_ok (opened : before a = .ok () b) (ran : body b = .ok x c) (closed : after c = .ok () e) :
    between before after body a = .ok x e := by
  unfold between
  rw [bind_ok opened]
  simp only [tryFinally, tryFinally', Functor.map, EStateM.map, ran, closed]

theorem between_error (opened : before a = .ok () b) (ran : body b = .error d c) (closed : after c = .ok () e) :
    between before after body a = .error d e := by
  unfold between
  rw [bind_ok opened]
  simp only [tryFinally, tryFinally', Functor.map, EStateM.map, ran, closed]

end
end

section
variable {α : Type} {a b : Assembler} {x : α}

/-- A bracket hands on what its steps return, with the saved state back in place. -/
theorem bracket_ok {body : Steps α} (ran : body a.push = .ok x b) : bracket body a = .ok x b.pop :=
  between_ok rfl ran rfl

/-- A bracket restores the state also where its steps stop. -/
theorem bracket_error {body : Steps α} {d : Diagnostic} (ran : body a.push = .error d b) :
    bracket body a = .error d b.pop :=
  between_error rfl ran rfl

theorem commit_error (d : Diagnostic) : commit (.error d) a = .ok none (a.fail d) := rfl

theorem commit_ok (w : Word) : commit (.ok w) a = .ok (some a.words.length) (a.commit w) := by
  change EStateM.Result.ok (some ((a.commit w).words.length - 1)) (a.commit w) = _
  simp [Assembler.commit]

end

/-! ## The message that ends a thread -/

section
variable {g : Generation} {s : State}

/-- Whether a header can be written does not depend on the opcode. -/
theorem headerWord_other {op : Native.Opcode} {w : Word} (written : g.headerWord s op = .ok w)
    (other : Native.Opcode) : ∃ w', g.headerWord s other = .ok w' := by
  simp only [headerWord, refuse_ok, Outcome.bind_ok, pure_ok] at written ⊢
  obtain ⟨width, flag, checked, -⟩ := written
  exact ⟨_, width, flag, checked, rfl⟩

theorem setDestination_null (g : Generation) (w : Word) : ∃ w', g.setDestination .null w = .ok w' := by
  obtain ⟨code, coded⟩ := WordRoundTrip.registerTypeCode_exists g (t := .ud) (.inl rfl)
  simp only [setDestination, refuse_ok, Outcome.bind_ok]
  exact ⟨_, by rintro ⟨⟩, (), rfl, code, coded, rfl⟩

theorem setSource0_last (g : Generation) (s : State) (w : Word) : ∃ w', g.setSource0 s lastRegister w = .ok w' := by
  obtain ⟨code, coded⟩ := WordRoundTrip.registerTypeCode_exists g (t := .ud) (.inl rfl)
  unfold setSource0
  rw [if_neg (show lastRegister.file ≠ .imm from nofun)]
  simp only [Outcome.bind_ok]
  exact ⟨_, (), rfl, code, coded, rfl⟩

theorem setDescriptor_farewell (g : Generation) (w : Word) : ∃ w', g.setDescriptor .threadSpawner
    { function := 0x10, messageLength := 1, endOfThread := true } w = .ok w' := by
  simp only [setDescriptor, refuse_ok, pure_ok]
  rcases WordRoundTrip.layout_cases g with layout | layout <;> rw [layout] <;>
    exact ⟨_, by decide, by decide, by decide, rfl⟩

/-- Where the thread header can be moved, the message can be sent. -/
theorem farewell_exists {w : Word} (moved : g.unaryWord s .mov lastRegister (.ud8 0 0) = .ok w) :
    ∃ w', farewell g s = .ok w' := by
  obtain ⟨w₀, headed, -⟩ := Outcome.bind_ok.mp moved
  obtain ⟨w₁, header⟩ := headerWord_other headed .send
  obtain ⟨w₂, destination⟩ := setDestination_null g w₁
  obtain ⟨w₃, source⟩ := setSource0_last g s w₂
  obtain ⟨w', described⟩ := setDescriptor_farewell g w₃
  simp only [farewell, sendWord, Outcome.bind_ok, refuse_ok]
  exact ⟨w', w₁, header, by decide, w₂, destination, w₃, source, described⟩

end

/-! ## Helpers -/

section
variable {a : Assembler} {c : Command}

theorem issue_refused {d : Diagnostic} (refused : a.generation.assemble a.state c = .error d) :
    a.issue c = (a.fail d, none) := by
  rw [Assembler.issue, refused]

theorem issue_made {ws : List Word} (made : a.generation.assemble a.state c = .ok ws) :
    a.issue c = (a.commitAll ws, some (a.words.length + Assembler.mainWord c)) := by
  rw [Assembler.issue, made]

/-- A helper that builds a single word under the current state. -/
theorem build_issue {word : Generation → State → Except Diagnostic Word}
    (single : a.generation.assemble a.state c = (word a.generation a.state).map ([·]))
    (main : Assembler.mainWord c = 0) : build word a = .ok (a.issue c).2 (a.issue c).1 := by
  change commit (word a.generation a.state) a = _
  cases outcome : word a.generation a.state with
  | error d =>
    rw [outcome] at single
    rw [issue_refused single]
    exact commit_error d
  | ok w =>
    rw [outcome] at single
    rw [issue_made single, main]
    exact commit_ok w

theorem ternary_issue (op : TernaryOp) (dst src0 src1 src2 : Register) :
    ternary op dst src0 src1 src2 a =
      .ok (a.issue (.ternary op dst src0 src1 src2)).2 (a.issue (.ternary op dst src0 src1 src2)).1 := by
  have assembles : a.generation.assemble a.state (.ternary op dst src0 src1 src2) =
      a.generation.tripleWords a.state op.opcode dst src0 src1 src2 := rfl
  unfold tripleWords at assembles
  unfold ternary
  rw [bind_ok (p := get) rfl]
  cases outcome : a.generation.tripleWord a.state op.opcode dst src0 src1 src2 with
  | error d =>
    rw [outcome] at assembles
    rw [issue_refused assembles]
    exact commit_error d
  | ok w =>
    rw [outcome] at assembles
    change _ = if _ then _ else _ at assembles
    dsimp only
    split
    · rename_i halves
      rw [if_pos halves] at assembles
      rw [issue_made assembles, bind_ok (commit_ok _), bind_ok (commit_ok _)]
      rfl
    · rename_i whole
      rw [if_neg whole] at assembles
      rw [issue_made assembles]
      exact commit_ok w

/-- A helper that builds a single word under a state it changes for that word. -/
theorem bracket_build_issue {f : State → State} {word : Generation → State → Except Diagnostic Word}
    (single : a.generation.assemble a.state c = (word a.generation (f a.state)).map ([·]))
    (main : Assembler.mainWord c = 0) :
    bracket (do adjust f; build word) a = .ok (a.issue c).2 (a.issue c).1 := by
  let inner : Assembler := { a.push with state := f a.state }
  have body : (do adjust f; build word : Steps (Option Nat)) a.push =
      commit (word a.generation (f a.state)) inner := rfl
  cases outcome : word a.generation (f a.state) with
  | error d =>
    rw [outcome] at single body
    rw [issue_refused single, bracket_ok (body.trans (commit_error d))]
    rfl
  | ok w =>
    rw [outcome] at single body
    rw [issue_made single, bracket_ok (body.trans (commit_ok w)), main]
    rfl

theorem endThread_issue : endThread a = .ok (a.issue .endThread).2 (a.issue .endThread).1 := by
  let s := a.state.unmasked 8
  let inner : Assembler := { a.push with state := s }
  have assembles : a.generation.assemble a.state .endThread = (do
      let copy ← a.generation.unaryWord s .mov lastRegister (.ud8 0 0)
      let message ← farewell a.generation s
      return [copy, message]) := rfl
  have moves : build (fun g s => g.unaryWord s .mov lastRegister (.ud8 0 0)) inner =
    commit (a.generation.unaryWord s .mov lastRegister (.ud8 0 0)) inner := rfl
  unfold endThread
  cases moved : a.generation.unaryWord s .mov lastRegister (.ud8 0 0) with
  | error d =>
    rw [moved] at assembles moves
    rw [issue_refused assembles, bracket_ok ((bind_ok (b := inner) rfl _).trans ((bind_ok moves _).trans rfl))]
    rfl
  | ok copy =>
    -- The message is built under the state that the move was built under.
    obtain ⟨message, sent⟩ := farewell_exists moved
    rw [moved, sent] at assembles
    rw [moved] at moves
    have sends : build farewell (inner.commit copy) = commit (farewell a.generation s) (inner.commit copy) := rfl
    rw [sent] at sends
    rw [issue_made assembles, bracket_ok ((bind_ok (b := inner) rfl _).trans
      ((bind_ok (moves.trans (commit_ok copy)) _).trans (sends.trans (commit_ok message))))]
    have second : (inner.commit copy).words.length = a.words.length + 1 := List.length_append
    rw [second]
    rfl

/-- Taking the steps of a helper is issuing its command. -/
theorem helper_issue (a : Assembler) (c : Command) : helper c a = .ok (a.issue c).2 (a.issue c).1 := by
  cases c with
  | ternary op dst src0 src1 src2 => exact ternary_issue op dst src0 src1 src2
  | jump distance => exact bracket_build_issue rfl rfl
  | endThread => exact endThread_issue
  | _ =>
    unfold helper
    refine build_issue ?_ ?_ <;> rfl

end

end Steps

/-! ## All or nothing -/

namespace Assembler
open Native Generation Outcome

/-- An assembler whose states, current and saved, are as before. -/
structure Restored (a b : Assembler) : Prop where
  generation : b.generation = a.generation
  state : b.state = a.state
  saved : b.saved = a.saved

theorem Restored.refl (a : Assembler) : Restored a a := ⟨rfl, rfl, rfl⟩

theorem Restored.trans {a b c : Assembler} (first : Restored a b) (second : Restored b c) : Restored a c :=
  ⟨second.generation.trans first.generation, second.state.trans first.state, second.saved.trans first.saved⟩

/-- How an assembler comes out of a helper, and the index it gives: with words appended and the index of one of
them, or with the words it had and a failure recorded, where an earlier one stays. -/
structure AllOrNothing (a : Assembler) (index? : Option Nat) (b : Assembler) : Prop extends Restored a b where
  nothing : index? = none → b.words = a.words ∧ ∃ d, b.error = a.error.or (some d)
  all : ∀ i, index? = some i →
    b.error = a.error ∧ ∃ ws, b.words = a.words ++ ws ∧ a.words.length ≤ i ∧ i < b.words.length

/-- An assembler put into other states. -/
def within (a : Assembler) (s : State) (k : List State) : Assembler := { a with state := s, saved := k }

section
variable {a : Assembler} {s : State} {k : List State}

theorem commitAll_within (ws : List Word) : (a.within s k).commitAll ws = (a.commitAll ws).within s k := by
  unfold commitAll
  induction ws generalizing a with
  | nil => rfl
  | cons w ws ih => exact ih (a := a.commit w)

theorem commitAll_restored (ws : List Word) : Restored a (a.commitAll ws) := by
  unfold commitAll
  induction ws generalizing a with
  | nil => exact .refl a
  | cons w ws ih => exact Restored.trans (b := a.commit w) ⟨rfl, rfl, rfl⟩ ih

/-- The word that stands for a command is among its words. -/
theorem mainWord_lt {g : Generation} {c : Command} {ws : List Word} (made : g.assemble s c = .ok ws) :
    mainWord c < ws.length := by
  cases c with
  | endThread =>
    simp only [assemble, endThreadWords, bind_ok, pure_ok] at made
    obtain ⟨copy, -, message, -, rfl⟩ := made
    exact Nat.one_lt_two
  | _ => exact List.length_pos_iff.mpr (MemoryWrites.assemble_ne_nil made)

theorem issue_allOrNothing (a : Assembler) (c : Command) : AllOrNothing a (a.issue c).2 (a.issue c).1 := by
  cases outcome : a.generation.assemble a.state c with
  | error d =>
    rw [Steps.issue_refused outcome]
    exact { Restored.refl a with nothing := fun _ => ⟨rfl, d, rfl⟩, all := nofun }
  | ok ws =>
    have main := mainWord_lt outcome
    have words := WordRoundTrip.commitAll_words a ws
    rw [Steps.issue_made outcome]
    refine { commitAll_restored ws with nothing := nofun, all := ?_ }
    rintro i ⟨⟩
    refine ⟨(StraightLine.commitAll_keeps a ws).1, ws, words, Nat.le_add_right _ _, ?_⟩
    dsimp only
    rw [words, List.length_append]
    exact Nat.add_lt_add_left main _

/-! ## Sequences -/

theorem Restored.within {b : Assembler} (restored : Restored a b) : b.within a.state a.saved = b := by
  rw [← restored.state, ← restored.saved]
  rfl

/-- Issuing under the current state. -/
theorem run_current (a : Assembler) (c : Command) : a.run ⟨a.state, c⟩ = (a.issue c).1 := by
  have same : (a.issue c).1.state = a.state := (issue_allOrNothing a c).state
  change { (a.issue c).1 with state := a.state } = (a.issue c).1
  rw [← same]

/-- What a command does does not depend on the states around it, for it comes with one of its own. -/
theorem run_within (i : Issue) : (a.within s k).run i = (a.run i).within s k := by
  let under : Assembler := { a with state := i.state }
  change ({ ((under.within i.state k).issue i.command).1 with state := s } : Assembler) =
    (under.issue i.command).1.within s k
  cases outcome : a.generation.assemble i.state i.command with
  | error d =>
    rw [Steps.issue_refused (a := under) outcome, Steps.issue_refused (a := under.within i.state k) outcome]
    rfl
  | ok ws =>
    rw [Steps.issue_made (a := under) outcome, Steps.issue_made (a := under.within i.state k) outcome]
    dsimp only
    rw [commitAll_within]
    rfl

theorem run_restored (a : Assembler) (i : Issue) : Restored a (a.run i) := by
  have issued := issue_allOrNothing { a with state := i.state } i.command
  exact ⟨issued.generation, rfl, issued.saved⟩

theorem runAll_restored (a : Assembler) (is : List Issue) : Restored a (a.runAll is) := by
  unfold runAll
  induction is generalizing a with
  | nil => exact .refl a
  | cons i is ih => exact (run_restored a i).trans (ih (a.run i))

theorem runAll_within (is : List Issue) : (a.within s k).runAll is = (a.runAll is).within s k := by
  unfold runAll
  induction is generalizing a with
  | nil => rfl
  | cons i is ih =>
    rw [List.foldl_cons, List.foldl_cons, run_within]
    exact ih

/-- Commands issued inside a bracket, seen after it. -/
theorem runAll_popped (is : List Issue) (t : State) :
    (((a.within s k).runAll is).within t (a.state :: a.saved)).pop = a.runAll is := by
  rw [runAll_within]
  exact (runAll_restored a is).within

theorem runAll_append (is js : List Issue) : a.runAll (is ++ js) = (a.runAll is).runAll js := List.foldl_append

end
end Assembler

end GpuCodegen
