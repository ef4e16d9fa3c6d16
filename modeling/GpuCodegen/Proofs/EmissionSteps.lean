import GpuCodegen.Proofs.FailureCauses
import GpuCodegen.Proofs.HelperSteps

/-! Emission step by step. A sequence saves the state, changes it once or several times, issues commands under what is
current and restores what it saved, also where an operand without a place stops it half-way. Each comes down to a
list of commands with the state that each is issued under, which is how emission is told elsewhere, and after each the
assembler has the states it had before. -/

namespace GpuCodegen.Steps
open Native Failures

/-! ## Sequences -/

/-- Issues a command. Its failure is left with the assembler. -/
def issue (c : Command) : Steps Unit := do
  let _ ← helper c

/-- Issues commands in order. -/
def issueAll (cs : List Command) : Steps Unit := cs.forM issue

/-- Sets the number of lanes. -/
def setWidth (width : Int) : Steps Unit := adjust fun s => { s with execWidth := width }

/-- Goes on to all lanes, so many of them. -/
def unmask (width : Int) : Steps Unit := adjust fun s => s.unmasked width

/-- Runs steps once for each of some quarters. -/
def eachQuarter (count : Nat) (body : Nat → Steps Unit) : Steps Unit :=
  (List.range count).forM fun q => do
    adjust fun s => { s with quarter := UInt32.ofNat q }
    body q

/-- Loads the address register, in quads or pairs of entries. -/
def setAddresses (v : Flavor) (entries : List UInt16) : Steps Unit := do
  MonadExcept.ofExcept (Sequence.checkAddresses entries)
  bracket do
    unmask 1
    issueAll (if v.writesAddressQuads then Sequence.addressQuads 0 entries else Sequence.addressPairs 0 entries)

/-- Moves a run of registers to or from scratch memory, block by block. -/
def scratchBlocks (header : Register) (registers : Nat) (move : Nat × Nat → List Command) : Steps Unit := bracket do
  unmask 8
  issue (Sequence.scratchHeader header)
  (Sequence.blocks 0 registers).forM fun block => issueAll (move block)

/-- Issues the commands of a sequence whose commands do not depend on the state. -/
def replay (sequence : State → List Issue) : Steps Unit := do
  let a ← get
  issueAll ((sequence a.state).map Issue.command)

/-- Loads the lane numbers into a dword vector. -/
def laneIds (lane : Register) (simd : Int) : Steps Unit := bracket do
  let lane := lane.retype .ud
  unmask 8
  issue (.mov lane (.immV 0x76543210))
  if simd = 16 then
    issue (.add (lane.offset 1 0) lane (.immUD 8))

/-- Multiplies lane numbers with a size. Qword pointers come out as dwords and are widened by quarters. -/
def scalePointer (simd : Int) (sp tmp lane : Register) (qword : Bool) : Steps Unit :=
  if qword then do
    issue (.mul lane tmp lane.unpackedWords)
    setWidth 8
    eachQuarter (simd.tdiv 8).toNat fun q =>
      issue (.mov ((sp.retype .ul).quarter (UInt32.ofNat q)) (lane.quarter (UInt32.ofNat q)))
  else
    issue (.mul (sp.retype .ud) tmp lane.unpackedWords)

/-- Computes the stack pointer of every lane, alternating between a single lane and all of them. -/
def stackPointer (simd : Int) (size : UInt32) (sp tmp lane : Register) (qword : Bool) : Steps Unit := do
  laneIds lane simd
  bracket do
    let tmp := tmp.toScalar.retype .ud
    let lane := lane.retype .ud
    adjust fun s => { s with noMask := true, predicate := 0 }
    setWidth 1
    issue (.and tmp Sequence.threadId (.immUD 0x1ff))
    issue (.mul tmp tmp (.immUW (UInt16.ofInt simd)))
    setWidth simd
    issue (.add lane lane tmp)
    setWidth 1
    issue (.mov tmp (.immUD size))
    setWidth simd
    scalePointer simd sp tmp lane qword

/-- Orders memory and waits for the commit by reading it. -/
def fence (dst : Register) (flushImages : Bool) : Steps Unit := bracket do
  unmask 8
  issue (.fence dst dst flushImages)
  issue (.mov dst dst)

/-- Signals the gateway on eight lanes and waits on one. -/
def barrierWait (payload : Register) (mask : UInt32) : Steps Unit := bracket do
  unmask 8
  issue (.and payload Sequence.barrierId (.immUD mask))
  issue (.barrier payload)
  setWidth 1
  issue .wait

/-- Invalidates the sampler cache and waits for it. -/
def samplerFlush (dst : Register) : Steps Unit := bracket do
  unmask 8
  issue (.flushSampler dst dst)
  issue (.mov dst dst)

/-- A barrier the way a flavor does it. -/
def barrier (v : Flavor) (dst payload : Register) (fences : Fences) : Steps Unit :=
  match v with
  | .gen6 => do
    if fences.global || fences.image then
      fence dst false
    barrierWait payload 0x0f000000
  | .gen7 | .gen8 | .chv => do
    if fences.global then
      fence dst fences.image
    barrierWait payload 0x0f000000
    if fences.image then
      samplerFlush dst
  | .gen9 | .bxt => do
    if fences.global then
      fence dst false
    if fences.image then
      fence dst true
    barrierWait payload 0x8f000000
    if fences.image then
      samplerFlush dst

/-! ## Instructions -/

section
variable (x : Allocation)

/-- An operand on its bytes, or a stop. -/
def operand (width : Int) (o : Operand) : Steps Register := MonadExcept.ofExcept (Emission.operand x width o)

/-- The source operands on their bytes. -/
def sources (width : Int) (i : Instruction) : Steps (List Register) :=
  MonadExcept.ofExcept (i.src.mapM (Emission.operand x width))

/-- The destination on its bytes; a missing one is the null register of a type. -/
def destination (width : Int) (t : Element) (o : Operand) : Steps Register :=
  MonadExcept.ofExcept (Emission.destination x width t o)

/-- Runs steps once per eight lanes where there are more than eight, and once otherwise. -/
def quarters (width : Int) (body : Nat → Steps Unit) : Steps Unit :=
  if width ≤ 8 then
    body 0
  else do
    setWidth 8
    eachQuarter (width.tdiv 8).toNat body

/-- An instruction of the arithmetic unit. -/
def alu (i : Instruction) (width : Int) : Steps Unit := do
  let src ← sources x width i
  let dst ← destination x width (Emission.resultType i) i.dst
  if Emission.isWide i width then
    quarters width fun q =>
      issue (Emission.aluCommand i (Emission.quarter dst q) (src.map fun r => Emission.quarter r q))
  else
    issue (Emission.aluCommand i dst src)

/-- An atomic on its payload. -/
def atomic (i : Instruction) (width : Int) : Steps Unit := do
  let dst ← destination x width .ud i.dst
  let source := i.src.getD 0 default
  let payload ← operand x width source
  let length := UInt32.ofInt ((wrap64 (source.spans * width)).tdiv 8)
  issue (.atomic i.atomic.code.toUInt32 dst payload i.surface length)

/-- An indirect move: the address register is loaded before the destination is looked up. -/
def indirect (v : Flavor) (i : Instruction) (width : Int) : Steps Unit := do
  let src := Emission.referenced (i.src.getD 0 default)
  let base ← MonadExcept.ofExcept (Emission.placeOf x src.reg)
  let base := base + UInt32.ofInt (src.part * src.type.size * width)
  setAddresses v (Emission.padEntries (i.addresses.map fun o => base.toUInt16 + o))
  let dst ← operand x width i.dst
  issue (.mov dst
    { Register.gather src.type.dataType 0 0 with negate := src.negate, absolute := src.absolute })

/-- The low half of a 64-bit product. -/
def multiply (i : Instruction) (width : Int) : Steps Unit := do
  let dst ← operand x width i.dst
  let src ← sources x width i
  quarters width fun q =>
    let part (n : Nat) : Register := Emission.quarter (src.getD n default) q
    replay fun s => Sequence.multiply s (Emission.quarter dst q) (part 0) (part 1) (part 2)

/-- The high half of a 64-bit product. -/
def multiplyHigh (i : Instruction) (width : Int) : Steps Unit := do
  let dst ← operand x width i.dst
  let src ← sources x width i
  quarters width fun q =>
    let part (n : Nat) : Register := Emission.quarter (src.getD n default) q
    replay fun s =>
      Sequence.fullMultiply s (part 0) (part 1) (Emission.quarter dst q) (part 2) (part 3) (part 4)

/-- A reload or spill. -/
def scratch (i : Instruction) : Steps Unit := do
  if !x.hasSpills then
    throw (.encoding (.noScratchHeader i.op))
  let header := Register.ud8 (x.header / grfSize) 0
  let value := if i.op = .spill then i.src.getD 0 default else i.dst
  let data ← operand x 8 value
  scratchBlocks header value.spans.toNat
    (if i.op = .reload then fun block => [Sequence.reloadBlock header data i.offset block]
      else Sequence.spillBlock header data i.offset)

/-- Fills a motion estimation payload. An operand without a place restores the saved state before it stops. -/
def fill (payload : Register) (entries : List (Operand × Nat)) : Steps Unit :=
  entries.forM fun (o, index) =>
    match Emission.operand x 1 o with
    | .error d => do
      pop
      throw d
    | .ok value => issue (Emission.motionDword payload index value)

/-- A motion estimation message. -/
def motion (i : Instruction) (width : Int) : Steps Unit := do
  let dst ← operand x width i.dst
  let payload ← operand x width (i.src.getD 0 default)
  if payload.sub ≠ 0 then
    throw (.encoding (.motionPayloadUnaligned payload.number payload.sub))
  push
  unmask 1
  fill x payload (i.src.drop 1).zipIdx
  issue (.mov (.ub1 payload.number Emission.motionThreadByte) (.ub1 0 Emission.motionThreadByte))
  pop
  issue (.motion i.motion.code.toUInt32 dst payload i.surface)

/-- Sets what the commands of an instruction share: the lanes and the predicate. -/
def prepare (i : Instruction) : Steps Unit := do
  setWidth (x.kernel.widthOf i)
  if i.predicated then
    adjust fun s => { s with predicate := 1 }
  if i.op == .select then
    adjust fun s => { s with predicate := 1 }

/-- The steps of an instruction other than a label or jump. -/
def body (v : Flavor) (i : Instruction) : Steps Unit :=
  let width := x.kernel.widthOf i
  match i.op with
  | .mov | .not | .add | .mul | .and | .or | .xor | .shl | .shr | .asr | .select | .mad | .lrp
  | .compare => alu x i width
  | .nop => issue .nop
  | .endThread => issue .endThread
  | .barrier => do
    let dst ← operand x 8 i.dst
    let payload ← operand x 8 (i.src.getD 0 default)
    barrier v (dst.retype .ud) (payload.retype .ud) i.fences
  | .atomicMessage => atomic x i width
  | .load => do
    let dst ← operand x width i.dst
    let address ← operand x width (i.src.getD 0 default)
    issue (.untypedRead (dst.retype .ud) address i.surface 1)
  | .storeMessage => do
    let payload ← operand x width (i.src.getD 0 default)
    issue (.untypedWrite payload i.surface 1)
  | .indirectMov => indirect x v i width
  | .mul64 => multiply x i width
  | .mulHi64 => multiplyHigh x i width
  | .stackSetup => do
    let sp ← operand x width i.dst
    let src ← sources x width i
    stackPointer width x.kernel.stackSize sp (src.getD 0 default) (src.getD 1 default) i.dst.type.is64
  | .reload | .spill => scratch x i
  | .motionMessage => motion x i width
  | .label | .jump | .mulHi | .atomic | .store | .motion | .unlisted _ =>
    throw (.encoding (.notLowered i.op))

end

/-! ## What steps come down to -/

/-- An outcome with the assembler it leaves. -/
def outcome {α : Type} : Except Diagnostic α → Assembler → EStateM.Result Diagnostic Assembler α
  | .ok v, a => .ok v a
  | .error d, a => .error d a

/-- From a current and saved states, steps come down to commands, have an outcome and go on to other states. -/
def Runs {α : Type} (p : Steps α) (s : State) (k : List State) (is : List Issue) (r : Except Diagnostic α)
    (s' : State) (k' : List State) : Prop :=
  ∀ a : Assembler, a.state = s → a.saved = k → p a = outcome r ((a.runAll is).within s' k')

section
variable {α β : Type} {p : Steps α} {s s₁ s₂ : State} {k k₁ k₂ : List State} {is js : List Issue}
  {r : Except Diagnostic β}

theorem Runs.bind {v : α} {f : α → Steps β} (first : Runs p s k is (.ok v) s₁ k₁)
    (next : Runs (f v) s₁ k₁ js r s₂ k₂) : Runs (p >>= f) s k (is ++ js) r s₂ k₂ := by
  intro a current saved
  rw [bind_ok (first a current saved), next _ rfl rfl, Assembler.runAll_within, Assembler.runAll_append]
  rfl

theorem Runs.stop {d : Diagnostic} (f : α → Steps β) (first : Runs p s k is (.error d) s₁ k₁) :
    Runs (p >>= f) s k is (.error d) s₁ k₁ := by
  intro a current saved
  rw [bind_error (first a current saved)]
  rfl

/-- Steps that get through, before others that stop at once. -/
theorem Runs.then_stop {v : α} {d : Diagnostic} {f : α → Steps β} (first : Runs p s k is (.ok v) s₁ k₁)
    (next : Runs (f v) s₁ k₁ [] (.error d) s₂ k₂) : Runs (p >>= f) s k is (.error d) s₂ k₂ := by
  have both := first.bind next
  rwa [List.append_nil] at both

theorem Runs.ofExcept (x : Except Diagnostic α) (s : State) (k : List State) :
    Runs (MonadExcept.ofExcept x) s k [] x s k := by
  rintro a rfl rfl
  cases x <;> rfl

theorem Runs.pure (v : α) (s : State) (k : List State) : Runs (pure v) s k [] (.ok v) s k := by
  rintro a rfl rfl
  rfl

theorem Runs.throw (d : Diagnostic) (s : State) (k : List State) : Runs (throw d : Steps α) s k [] (.error d) s k := by
  rintro a rfl rfl
  rfl

theorem push_runs (s : State) (k : List State) : Runs push s k [] (.ok ()) s (s :: k) := by
  rintro a rfl rfl
  rfl

theorem pop_runs (s t : State) (k : List State) : Runs pop s (t :: k) [] (.ok ()) t k := by
  intro a _ saved
  change EStateM.Result.ok () a.pop = .ok () (a.within t k)
  rw [Assembler.pop, saved]
  rfl

theorem adjust_runs (f : State → State) (s : State) (k : List State) : Runs (adjust f) s k [] (.ok ()) (f s) k := by
  rintro a rfl rfl
  rfl

theorem issue_runs (c : Command) (s : State) (k : List State) : Runs (issue c) s k [⟨s, c⟩] (.ok ()) s k := by
  rintro a rfl rfl
  have steps : issue c a = .ok () (a.issue c).1 := bind_ok (helper_issue a c) _
  change _ = EStateM.Result.ok () ((a.run ⟨a.state, c⟩).within a.state a.saved)
  rw [steps, Assembler.run_current, (Assembler.issue_allOrNothing a c).toRestored.within]

/-- A bracket comes out with the states it went in with. -/
theorem bracket_runs {body : Steps β} {t : State} (inner : Runs body s (s :: k) is r t (s :: k)) :
    Runs (bracket body) s k is r s k := by
  rintro a rfl rfl
  have ran := inner a.push rfl rfl
  have pushed : a.push.runAll is = (a.runAll is).within a.state (a.state :: a.saved) := Assembler.runAll_within is
  rw [pushed] at ran
  cases r with
  | ok v => exact bracket_ok ran
  | error d => exact bracket_error ran

end

section
variable {s s' t : State} {k : List State} {is js : List Issue}

section
variable {β : Type} {r : Except Diagnostic β} {f : Unit → Steps β} {k' : List State}

/-- A command in front. -/
theorem Runs.issue (c : Command) (rest : Runs (f ()) s k is r t k') :
    Runs (Steps.issue c >>= f) s k (⟨s, c⟩ :: is) r t k' :=
  .bind (issue_runs c s k) rest

/-- A change of state in front. -/
theorem Runs.adjust {g : State → State} (rest : Runs (f ()) (g s) k is r t k') :
    Runs (Steps.adjust g >>= f) s k is r t k' :=
  .bind (adjust_runs g s k) rest

/-- A save in front. -/
theorem Runs.push (rest : Runs (f ()) s (s :: k) is r t k') : Runs (Steps.push >>= f) s k is r t k' :=
  .bind (push_runs s k) rest

/-- A restoration in front. -/
theorem Runs.pop (rest : Runs (f ()) s k is r t k') : Runs (Steps.pop >>= f) s' (s :: k) is r t k' :=
  .bind (pop_runs s' s k) rest

end

/-- Steps at the end that are left out where a condition fails. -/
theorem Runs.perhaps {c : Prop} [Decidable c] {p : Steps Unit} (yes : Runs p s k is (.ok ()) s k) :
    Runs (if c then p else Pure.pure ()) s k (if c then is else []) (.ok ()) s k := by
  split
  · exact yes
  · exact .pure () s k

/-- Steps in front that are left out where a condition fails. -/
theorem Runs.perhaps_then {c : Prop} [Decidable c] {p q : Steps Unit} (yes : Runs p s k is (.ok ()) s k)
    (rest : Runs q s k js (.ok ()) t k) :
    Runs (if c then p >>= fun _ => q else q) s k ((if c then is else []) ++ js) (.ok ()) t k := by
  split
  · exact .bind yes rest
  · exact rest

theorem issueAll_runs (cs : List Command) (s : State) (k : List State) :
    Runs (issueAll cs) s k (Sequence.under s cs) (.ok ()) s k := by
  induction cs with
  | nil => exact .pure () s k
  | cons c cs ih => exact .issue c ih

theorem forM_runs {α : Type} {f : α → Steps Unit} {g : α → List Issue}
    (each : ∀ x, Runs (f x) s k (g x) (.ok ()) s k) (xs : List α) :
    Runs (xs.forM f) s k (xs.flatMap g) (.ok ()) s k := by
  induction xs with
  | nil => exact .pure () s k
  | cons x xs ih => exact .bind (each x) ih

/-- The quarter control stays where the last round put it. -/
theorem eachQuarter_runs {body : Nat → Steps Unit} {f : State → Nat → List Issue}
    (each : ∀ s q, Runs (body q) s k (f s q) (.ok ()) s k) (count : Nat) (s : State) :
    ∃ s', Runs (eachQuarter count body) s k
      ((List.range count).flatMap fun q => f { s with quarter := UInt32.ofNat q } q) (.ok ()) s' k := by
  have rounds (qs : List Nat) (s : State) : ∃ s', Runs
      (qs.forM fun q => do adjust (fun s => { s with quarter := UInt32.ofNat q }); body q) s k
      (qs.flatMap fun q => f { s with quarter := UInt32.ofNat q } q) (.ok ()) s' k := by
    induction qs generalizing s with
    | nil => exact ⟨s, .pure () s k⟩
    | cons q qs ih =>
      obtain ⟨s', others⟩ := ih { s with quarter := UInt32.ofNat q }
      exact ⟨s', .bind (.adjust (each _ q)) others⟩
  exact rounds (List.range count) s

/-! ## The sequences -/

theorem scratchBlocks_runs (header : Register) (registers : Nat) (move : Nat × Nat → List Command) (s : State)
    (k : List State) :
    Runs (scratchBlocks header registers move) s k (Sequence.under (s.unmasked 8)
      (Sequence.scratchHeader header :: (Sequence.blocks 0 registers).flatMap move)) (.ok ()) s k := by
  have blocks := forM_runs (fun block => issueAll_runs (move block) (s.unmasked 8) (s :: k))
    (Sequence.blocks 0 registers)
  have same : (Sequence.blocks 0 registers).flatMap (fun block => Sequence.under (s.unmasked 8) (move block)) =
      Sequence.under (s.unmasked 8) ((Sequence.blocks 0 registers).flatMap move) := List.map_flatMap.symm
  rw [same] at blocks
  exact bracket_runs (.adjust (.issue _ blocks))

theorem replay_runs {sequence : State → List Issue} {cs : List Command} (under : ∀ s, sequence s = Sequence.under s cs)
    (s : State) (k : List State) : Runs (replay sequence) s k (sequence s) (.ok ()) s k := by
  rintro a rfl rfl
  have commands : (sequence a.state).map Issue.command = cs := by
    rw [under, Sequence.under, List.map_map]
    exact List.map_id cs
  have steps : replay sequence a = issueAll ((sequence a.state).map Issue.command) a := rfl
  rw [steps, commands, under]
  exact issueAll_runs cs a.state a.saved a rfl rfl

theorem laneIds_runs (lane : Register) (simd : Int) (s : State) (k : List State) :
    Runs (laneIds lane simd) s k (Sequence.laneIds s lane simd) (.ok ()) s k := by
  have upper := Runs.perhaps (c := simd = 16)
    (issue_runs (.add ((lane.retype .ud).offset 1 0) (lane.retype .ud) (.immUD 8)) (s.unmasked 8) (s :: k))
  have commands : Sequence.laneIds s lane simd =
      ⟨s.unmasked 8, .mov (lane.retype .ud) (.immV 0x76543210)⟩ :: if simd = 16 then
        [⟨s.unmasked 8, .add ((lane.retype .ud).offset 1 0) (lane.retype .ud) (.immUD 8)⟩] else [] := by
    unfold Sequence.laneIds Sequence.under
    split <;> rfl
  rw [commands]
  exact bracket_runs (.adjust (.issue _ upper))

theorem scalePointer_runs (simd : Int) (sp tmp lane : Register) (qword : Bool) (s : State) (k : List State) :
    ∃ s', Runs (scalePointer simd sp tmp lane qword) s k
      (if qword then
        ⟨s, .mul lane tmp lane.unpackedWords⟩ :: (List.range (simd.tdiv 8).toNat).map fun q =>
          ⟨{ s with execWidth := 8, quarter := UInt32.ofNat q },
            .mov ((sp.retype .ul).quarter (UInt32.ofNat q)) (lane.quarter (UInt32.ofNat q))⟩
      else [⟨s, .mul (sp.retype .ud) tmp lane.unpackedWords⟩]) (.ok ()) s' k := by
  cases qword with
  | false => exact ⟨s, issue_runs _ s k⟩
  | true =>
    obtain ⟨s', quarters⟩ := eachQuarter_runs (k := k)
      (f := fun s q => [⟨s, .mov ((sp.retype .ul).quarter (UInt32.ofNat q)) (lane.quarter (UInt32.ofNat q))⟩])
      (fun s q => issue_runs _ s k) (simd.tdiv 8).toNat { s with execWidth := 8 }
    rw [← List.map_eq_flatMap] at quarters
    exact ⟨s', .issue _ (.adjust quarters)⟩

theorem stackPointer_runs (simd : Int) (size : UInt32) (sp tmp lane : Register) (qword : Bool) (s : State)
    (k : List State) : Runs (stackPointer simd size sp tmp lane qword) s k
      (Sequence.stackPointer s simd size sp tmp lane qword) (.ok ()) s k := by
  let broad : State := { s with execWidth := simd, noMask := true, predicate := 0 }
  obtain ⟨s', scaled⟩ := scalePointer_runs simd sp (tmp.toScalar.retype .ud) (lane.retype .ud) qword broad (s :: k)
  unfold Sequence.stackPointer
  rw [List.append_assoc]
  exact .bind (laneIds_runs lane simd s k) (bracket_runs (.adjust (.adjust (.issue _ (.issue _ (.adjust (.issue _
    (.adjust (.issue _ (.adjust scaled))))))))))

theorem fence_runs (dst : Register) (flush : Bool) (s : State) (k : List State) :
    Runs (fence dst flush) s k (Sequence.fence s dst flush) (.ok ()) s k :=
  bracket_runs (.adjust (.issue _ (issue_runs _ _ _)))

theorem barrierWait_runs (payload : Register) (mask : UInt32) (s : State) (k : List State) :
    Runs (barrierWait payload mask) s k (Sequence.barrierWait s payload mask) (.ok ()) s k :=
  bracket_runs (.adjust (.issue _ (.issue _ (.adjust (issue_runs _ _ _)))))

theorem samplerFlush_runs (dst : Register) (s : State) (k : List State) :
    Runs (samplerFlush dst) s k (Sequence.samplerFlush s dst) (.ok ()) s k :=
  bracket_runs (.adjust (.issue _ (issue_runs _ _ _)))

theorem barrier_runs (v : Flavor) (dst payload : Register) (fences : Fences) (s : State) (k : List State) :
    Runs (barrier v dst payload fences) s k (Sequence.barrier v s dst payload fences) (.ok ()) s k := by
  have closing (mask : UInt32) : Runs (do barrierWait payload mask; if fences.image then samplerFlush dst) s k
      (Sequence.barrierWait s payload mask ++ if fences.image then Sequence.samplerFlush s dst else []) (.ok ()) s k :=
    .bind (barrierWait_runs _ _ s k) (.perhaps (samplerFlush_runs _ s k))
  cases v with
  | gen6 => exact .perhaps_then (fence_runs _ _ s k) (barrierWait_runs _ _ s k)
  | gen7 | gen8 | chv =>
    unfold Sequence.barrier
    rw [List.append_assoc]
    exact .perhaps_then (fence_runs _ _ s k) (closing _)
  | gen9 | bxt =>
    simp only [Sequence.barrier, List.append_assoc]
    exact .perhaps_then (fence_runs _ _ s k) (.perhaps_then (fence_runs _ _ s k) (closing _))

theorem quarters_runs {body : Nat → Steps Unit} {f : State → Nat → List Issue}
    (each : ∀ s q, Runs (body q) s k (f s q) (.ok ()) s k) (width : Int) (s : State) :
    ∃ s', Runs (quarters width body) s k (Emission.quarters s width f) (.ok ()) s' k := by
  unfold quarters Emission.quarters
  split
  · exact ⟨s, each s 0⟩
  · obtain ⟨s', rounds⟩ := eachQuarter_runs each (width.tdiv 8).toNat { s with execWidth := 8 }
    exact ⟨s', .adjust rounds⟩

/-! ## The instructions -/

/-- How the steps of an instruction end. -/
def told : Emitted → Except Diagnostic Unit
  | .ok _ => .ok ()
  | .error e => .error e.diagnostic

/-- Steps come down to what an instruction is emitted as, and leave what is saved. -/
def Performs (p : Steps Unit) (s : State) (k : List State) (e : Emitted) : Prop :=
  ∃ s', Runs p s k (commandsOf e) (told e) s' k

theorem Performs.ok {p : Steps Unit} (ran : Runs p s k is (.ok ()) s' k) : Performs p s k (.ok is) := ⟨s', ran⟩

theorem Performs.fails {p : Steps Unit} {d : Diagnostic} (ran : Runs p s k is (.error d) s' k) :
    Performs p s k (.error ⟨d, is⟩) :=
  ⟨s', ran⟩

/-- A look-up in front. Where it fails, nothing has been done. -/
theorem Performs.check {α : Type} {x : Except Diagnostic α} {f : α → Steps Unit} {F : α → Emitted}
    (next : ∀ v, x = .ok v → Performs (f v) s k (F v)) :
    Performs (MonadExcept.ofExcept x >>= f) s k (Emission.checked x >>= F) := by
  cases x with
  | error d => exact .fails (.stop f (.ofExcept (.error d) s k))
  | ok v =>
    obtain ⟨s', ran⟩ := next v rfl
    exact ⟨s', .bind (.ofExcept (.ok v) s k) ran⟩

variable (x : Allocation) (i : Instruction) (width : Int)

theorem alu_performs (s : State) (k : List State) :
    Performs (alu x i width) s k (Emission.alu x s i width) := by
  refine .check fun src _ => .check fun dst _ => ?_
  split
  · obtain ⟨s', ran⟩ := quarters_runs (k := k)
      (f := fun s q => [⟨s, Emission.aluCommand i (Emission.quarter dst q) (src.map fun r => Emission.quarter r q)⟩])
      (fun s q => issue_runs _ s k) width s
    exact .ok ran
  · exact .ok (issue_runs _ s k)

theorem atomic_performs (s : State) (k : List State) :
    Performs (atomic x i width) s k (Emission.atomic x s i width) :=
  .check fun _ _ => .check fun _ _ => .ok (issue_runs _ s k)

theorem multiply_performs (s : State) (k : List State) :
    Performs (multiply x i width) s k (Emission.multiply x s i width) := by
  refine .check fun dst _ => .check fun src _ => ?_
  obtain ⟨s', ran⟩ := quarters_runs (k := k) (fun s q => replay_runs (fun s => rfl) s k) width s
  exact .ok ran

theorem multiplyHigh_performs (s : State) (k : List State) :
    Performs (multiplyHigh x i width) s k (Emission.multiplyHigh x s i width) := by
  refine .check fun dst _ => .check fun src _ => ?_
  obtain ⟨s', ran⟩ := quarters_runs (k := k) (fun s q => replay_runs (fun s => rfl) s k) width s
  exact .ok ran

theorem scratch_performs (s : State) (k : List State) :
    Performs (scratch x i) s k (Emission.scratch x s i) := by
  unfold scratch Emission.scratch
  dsimp only
  generalize (if i.op = .spill then i.src.getD 0 default else i.dst) = value
  split
  · exact .fails (.stop _ (.throw _ s k))
  · refine .check fun data _ => ?_
    split
    · have reload := scratchBlocks_runs (Register.ud8 (x.header / grfSize) 0) value.spans.toNat
        (fun block => [Sequence.reloadBlock (Register.ud8 (x.header / grfSize) 0) data i.offset block]) s k
      rw [← List.map_eq_flatMap] at reload
      exact .ok reload
    · exact .ok (scratchBlocks_runs _ _ _ s k)

/-- Loading the address register is refused before anything is saved. -/
theorem setAddresses_eq (v : Flavor) (s : State) (entries : List UInt16) :
    Sequence.setAddresses v s entries = do
      Sequence.checkAddresses entries
      return Sequence.under (s.unmasked 1)
        (if v.writesAddressQuads then Sequence.addressQuads 0 entries else Sequence.addressPairs 0 entries) := by
  unfold Sequence.setAddresses
  split <;> rfl

theorem setAddresses_runs {entries : List UInt16} (passed : Sequence.checkAddresses entries = .ok ()) (v : Flavor)
    (s : State) (k : List State) :
    Runs (setAddresses v entries) s k (Sequence.under (s.unmasked 1)
      (if v.writesAddressQuads then Sequence.addressQuads 0 entries else Sequence.addressPairs 0 entries))
      (.ok ()) s k := by
  unfold setAddresses
  rw [passed]
  exact .bind (.ofExcept _ s k) (bracket_runs (.adjust (issueAll_runs _ _ _)))

theorem setAddresses_refused {entries : List UInt16} {d : Diagnostic}
    (refused : Sequence.checkAddresses entries = .error d) (v : Flavor) (s : State) (k : List State) :
    Runs (setAddresses v entries) s k [] (.error d) s k := by
  unfold setAddresses
  rw [refused]
  exact .stop _ (.ofExcept _ s k)

theorem indirect_performs (f : Emission.Frame) (s : State) (k : List State) :
    Performs (indirect f.allocation f.flavor i width) s k (Emission.indirect f s i width) := by
  refine .check fun base _ => ?_
  dsimp only
  rw [setAddresses_eq]
  generalize Emission.padEntries _ = entries
  cases checks : Sequence.checkAddresses entries with
  | error d => exact .fails (.stop _ (setAddresses_refused checks f.flavor s k))
  | ok _ =>
    have setup := setAddresses_runs checks f.flavor s k
    cases found : Emission.operand f.allocation width i.dst with
    | error d =>
      have missing : Runs (operand f.allocation width i.dst) s k [] (.error d) s k := found ▸ .ofExcept _ s k
      exact .fails (.then_stop setup (.stop _ missing))
    | ok dst =>
      have place : Runs (operand f.allocation width i.dst) s k [] (.ok dst) s k := found ▸ .ofExcept _ s k
      exact .ok (.bind setup (.bind place (issue_runs _ s k)))

theorem fill_cons (payload : Register) (o : Operand) (index : Nat) (entries : List (Operand × Nat)) :
    fill x payload ((o, index) :: entries) =
      ((match Emission.operand x 1 o with
        | .error d => do pop; throw d
        | .ok value => issue (Emission.motionDword payload index value)) >>= fun _ => fill x payload entries) :=
  rfl

/-- Filling a payload goes on under the state it began with, or stops with the state saved last restored. -/
theorem fill_runs (payload : Register) (s t : State) (k : List State) (entries : List (Operand × Nat))
    (done : List Issue) :
    match Emission.motionPayload x s payload done entries with
    | .ok filled => ∃ is, filled = done ++ is ∧ Runs (fill x payload entries) s (t :: k) is (.ok ()) s (t :: k)
    | .error e => ∃ is, e.log = done ++ is ∧ Runs (fill x payload entries) s (t :: k) is (.error e.diagnostic) t k := by
  induction entries generalizing done with
  | nil => exact ⟨[], (List.append_nil done).symm, .pure () s _⟩
  | cons entry entries ih =>
    obtain ⟨o, index⟩ := entry
    unfold Emission.motionPayload
    rw [fill_cons]
    cases Emission.operand x 1 o with
    | error d => exact ⟨[], (List.append_nil done).symm, .stop _ (.bind (pop_runs s t k) (.throw d t k))⟩
    | ok value =>
      have rest := ih (done ++ [⟨s, Emission.motionDword payload index value⟩])
      dsimp only
      cases outcome : Emission.motionPayload x s payload
          (done ++ [⟨s, Emission.motionDword payload index value⟩]) entries with
      | ok filled =>
        rw [outcome] at rest
        obtain ⟨is, same, ran⟩ := rest
        exact ⟨_ :: is, by rw [same, List.append_assoc]; rfl, .bind (issue_runs _ s _) ran⟩
      | error e =>
        rw [outcome] at rest
        obtain ⟨is, same, ran⟩ := rest
        exact ⟨_ :: is, by rw [same, List.append_assoc]; rfl, .bind (issue_runs _ s _) ran⟩

theorem motion_performs (s : State) (k : List State) :
    Performs (motion x i width) s k (Emission.motion x s i width) := by
  refine .check fun dst _ => .check fun payload _ => ?_
  split
  · exact .fails (.stop _ (.throw _ s k))
  · have filling := fill_runs x payload (s.unmasked 1) s k (i.src.drop 1).zipIdx []
    dsimp only
    cases outcome : Emission.motionPayload x (s.unmasked 1) payload [] (i.src.drop 1).zipIdx with
    | ok filled =>
      rw [outcome] at filling
      obtain ⟨is, rfl, ran⟩ := filling
      exact .ok (.push (.adjust (.bind ran (.issue _ (.pop (issue_runs _ s k))))))
    | error e =>
      rw [outcome] at filling
      obtain ⟨is, same, ran⟩ := filling
      rw [List.nil_append] at same
      subst same
      exact .fails (.push (.adjust (.stop _ ran)))

/-- The steps of an instruction come down to the commands that emission tells of it. -/
theorem body_performs (f : Emission.Frame) (k : List State) :
    Performs (body f.allocation f.flavor i) (Emission.instructionState f.base i (f.allocation.kernel.widthOf i)) k
      (Emission.instruction f i) := by
  unfold body Emission.instruction
  dsimp only
  cases i.op with
  | mov | not | add | mul | and | or | xor | shl | shr | asr | select | mad | lrp | compare =>
    exact alu_performs _ i _ _ k
  | nop | endThread => exact .ok (issue_runs _ _ k)
  | barrier => exact .check fun _ _ => .check fun _ _ => .ok (barrier_runs _ _ _ _ _ k)
  | atomicMessage => exact atomic_performs _ i _ _ k
  | load => exact .check fun _ _ => .check fun _ _ => .ok (issue_runs _ _ k)
  | storeMessage => exact .check fun _ _ => .ok (issue_runs _ _ k)
  | indirectMov => exact indirect_performs i _ f _ k
  | mul64 => exact multiply_performs _ i _ _ k
  | mulHi64 => exact multiplyHigh_performs _ i _ _ k
  | stackSetup => exact .check fun _ _ => .check fun _ _ => .ok (stackPointer_runs _ _ _ _ _ _ _ k)
  | reload | spill => exact scratch_performs _ i _ k
  | motionMessage => exact motion_performs _ i _ _ k
  | label | jump | mulHi | atomic | store | motion | unlisted _ => exact .fails (.throw _ _ k)

theorem prepare_runs (base : State) (k : List State) :
    Runs (prepare x i) base k [] (.ok ()) (Emission.instructionState base i (x.kernel.widthOf i)) k := by
  rintro a rfl rfl
  unfold prepare Emission.instructionState
  cases i.predicated <;> cases i.op == .select <;> rfl

end

end GpuCodegen.Steps
