import GpuCodegen.Lowering.Compile
import GpuCodegen.Proofs.HelperSteps
import GpuCodegen.Proofs.Outcome

/-! What emission can complain about. Take any kind of causes that has in it every broken encoding rule
and every missing code path. A command fails for causes of that kind if the encoder's complaints about
the types of its operands are of that kind, and emission as a whole does if its instructions do and all
their commands do. What is left to show of a particular kind is about operand types and places only. -/

namespace GpuCodegen.Failures
open Outcome

/-- A computation that fails for causes of one kind only. -/
def FailsWith {ε α : Type} (P : Cause → Prop) (cause : ε → Cause) (x : Except ε α) : Prop :=
  ∀ e, x = .error e → P (cause e)

section
variable {ε δ α β : Type} {P : Cause → Prop} {cause : ε → Cause} {x : Except ε α}

theorem FailsWith.ok (a : α) : FailsWith P cause (.ok a) := nofun

theorem FailsWith.pure (a : α) : FailsWith P cause (pure a) := nofun

theorem FailsWith.of_ok {a : α} (ran : x = .ok a) : FailsWith P cause x := by
  rw [ran]
  exact .ok a

theorem FailsWith.error {e : ε} (kind : P (cause e)) : FailsWith P cause (.error e : Except ε α) := by
  intro e' failed
  cases failed
  exact kind

theorem FailsWith.throw {e : ε} (kind : P (cause e)) : FailsWith P cause (throw e : Except ε α) := .error kind

theorem FailsWith.bind {f : α → Except ε β} (first : FailsWith P cause x)
    (next : ∀ a, x = .ok a → FailsWith P cause (f a)) : FailsWith P cause (x >>= f) := by
  intro e failed
  cases x with
  | error d =>
    cases failed
    exact first _ rfl
  | ok a => exact next a rfl e failed

theorem FailsWith.ite {c : Prop} [Decidable c] {y : Except ε α} (met : c → FailsWith P cause x)
    (unmet : ¬ c → FailsWith P cause y) : FailsWith P cause (if c then x else y) := by
  split
  · rename_i holds
    exact met holds
  · rename_i fails
    exact unmet fails

theorem FailsWith.refuse {c : Prop} [Decidable c] {e : ε} {f : α → Except ε β} {y : Except ε β}
    (kind : c → P (cause e)) (rest : ¬ c → FailsWith P cause y) :
    FailsWith P cause (if c then (MonadExcept.throw e >>= f) else y) := by
  split
  · rename_i refused
    exact .error (kind refused)
  · rename_i passed
    exact rest passed

theorem FailsWith.map {f : α → β} (first : FailsWith P cause x) : FailsWith P cause (x.map f) := by
  intro e failed
  cases x with
  | error d =>
    cases failed
    exact first _ rfl
  | ok a => cases failed

theorem FailsWith.mapError {other : δ → Cause} {f : ε → δ} (same : ∀ e, other (f e) = cause e)
    (first : FailsWith P cause x) : FailsWith P other (x.mapError f) := by
  intro e failed
  cases x with
  | error d =>
    cases failed
    rw [same d]
    exact first d rfl
  | ok a => cases failed

theorem FailsWith.mapM {f : α → Except ε β} (each : ∀ a, FailsWith P cause (f a)) (as : List α) :
    FailsWith P cause (as.mapM f) := by
  induction as with
  | nil => exact .pure _
  | cons a as ih =>
    rw [List.mapM_cons]
    exact .bind (each a) fun _ _ => .bind ih fun _ _ => .pure _

theorem FailsWith.foldlM {f : β → α → Except ε β} (each : ∀ b a, FailsWith P cause (f b a)) (as : List α) (b : β) :
    FailsWith P cause (as.foldlM f b) := by
  induction as generalizing b with
  | nil => exact .pure _
  | cons a as ih =>
    rw [List.foldlM_cons]
    exact .bind (each b a) fun b' _ => ih b'

end

/-- A kind of causes with every broken encoding rule and every missing code path in it. States left pushed break no
rule of the encoding; there are none. -/
structure Covers (P : Cause → Prop) : Prop where
  encoding : ∀ fault, (∀ n, fault ≠ .statesLeftPushed n) → P (.encoding fault)
  unimplemented : ∀ gap, P (.unimplemented gap)

/-! ## The assembler -/

section
variable (P : Cause → Prop) (g : Generation)

/-- A step of the assembler that fails for causes of one kind only. -/
abbrev Encodes {α : Type} (x : Except Diagnostic α) : Prop := FailsWith P Diagnostic.cause x

/-- What the encoder says to the type of a source, which depends on whether it is an immediate. -/
def SourceType (r : Native.Register) : Prop :=
  if r.file = .imm then Encodes P (g.checkType r.type) ∧ Encodes P (g.immediateTypeCode r.type)
  else Encodes P (g.registerTypeCode r.type)

/-- What the three-source unit says to the type of a destination, and of sources that agree on theirs. -/
structure TripleTypes (dst src0 src1 src2 : Native.Register) : Prop where
  dst : dst.file = .grf → Encodes P (g.tripleTypeCode dst.type)
  src : src0.file = .grf → src1.file = .grf → src2.file = .grf → src1.type = src0.type → src2.type = src0.type →
    Encodes P (g.tripleTypeCode src0.type)

/-- The complaints about a command's operand types are of one kind. Operands that the assembler makes up
itself have types that every generation has. -/
def Typed : Command → Prop
  | .unary _ dst src => Encodes P (g.registerTypeCode dst.type) ∧ SourceType P g src
  | .binary _ dst src0 src1 | .compare _ dst src0 src1 =>
    Encodes P (g.registerTypeCode dst.type) ∧ SourceType P g src0 ∧ SourceType P g src1
  | .ternary _ dst src0 src1 src2 => TripleTypes P g dst src0 src1 src2
  | .send _ dst payload _ | .fence dst payload _ | .flushSampler dst payload | .atomic _ dst payload _ _
  | .untypedRead dst payload _ _ => Encodes P (g.registerTypeCode dst.type) ∧ SourceType P g payload
  | .barrier payload | .untypedWrite payload _ _ | .scratchRead _ payload _ _ | .scratchWrite payload _ _ =>
    SourceType P g payload
  | .motion _ _ payload _ =>
    (g.supports .motionEstimation = false → P (.unsupported .motion g.name)) ∧ SourceType P g payload
  | .nop | .jump _ | .wait | .endThread => True

end

/-- The types that every generation has. -/
def common : List Native.DataType := [.ud, .d, .uw, .w, .ub, .b, .f]

theorem layout_cases (g : Generation) : g.layout = .gen7 ∨ g.layout = .gen8 := by
  unfold Generation.layout Native.Layout.ofGeneration
  split
  · exact .inr rfl
  · exact .inl rfl

theorem checkType_common (g : Generation) {t : Native.DataType} (known : t ∈ common) : g.checkType t = .ok () := by
  simp only [common, List.mem_cons, List.not_mem_nil, or_false] at known
  rcases known with rfl | rfl | rfl | rfl | rfl | rfl | rfl <;> rfl

theorem registerTypeCode_common (g : Generation) {t : Native.DataType} (known : t ∈ common) :
    ∃ code, g.registerTypeCode t = .ok code := by
  have listed : ∀ l : Native.Layout, l = .gen7 ∨ l = .gen8 → ∀ t ∈ common,
      ∃ code, Native.Layout.codeOf? l.registerTypes t = some code := by
    rintro l (rfl | rfl) <;> simp [common, Native.Layout.codeOf?, Native.Layout.gen7, Native.Layout.gen8]
  obtain ⟨code, found⟩ := listed g.layout (layout_cases g) t known
  refine ⟨code, ?_⟩
  unfold Generation.registerTypeCode
  rw [checkType_common g known, found]
  rfl

section
variable {P : Cause → Prop} (covers : Covers P) (g : Generation) (s : State)
include covers

theorem checkRegister_encodes (role : Role) (r : Native.Register) : Encodes P (Generation.checkRegister role r) := by
  unfold Generation.checkRegister
  split
  · exact .ok _
  · split
    · exact .error (covers.encoding _ nofun)
    · split
      · exact .error (covers.encoding _ nofun)
      · exact .ok _

theorem checkedFlag_encodes : Encodes P (g.checkedFlag s) := by
  unfold Generation.checkedFlag
  split
  · split
    · exact .error (covers.encoding _ nofun)
    · split
      · exact .error (covers.encoding _ nofun)
      · exact .ok _
  · split
    · exact .error (covers.encoding _ nofun)
    · exact .ok _

theorem headerWord_encodes (op : Native.Opcode) : Encodes P (g.headerWord s op) := by
  unfold Generation.headerWord
  exact .refuse (fun _ => covers.unimplemented _) fun _ => .bind (checkedFlag_encodes covers g s) fun _ _ => .pure _

theorem setDestination_encodes {r : Native.Register} (type : Encodes P (g.registerTypeCode r.type))
    (w : Native.Word) : Encodes P (g.setDestination r w) := by
  unfold Generation.setDestination
  refine .refuse (fun _ => covers.encoding _ nofun) fun _ => .bind (checkRegister_encodes covers _ r) fun _ _ =>
    .bind type fun _ _ => ?_
  split
  · split
    · exact .pure _
    · exact .throw (covers.encoding _ nofun)
  · exact .pure _

theorem setSource0_encodes {r : Native.Register} (type : SourceType P g r) (w : Native.Word) :
    Encodes P (g.setSource0 s r w) := by
  unfold SourceType at type
  unfold Generation.setSource0
  dsimp only
  split
  · rename_i immediate
    rw [if_pos immediate] at type
    unfold Generation.setImmediate
    refine .bind type.1 fun _ _ => .bind type.2 fun _ _ => ?_
    split <;> exact .pure _
  · rename_i register
    rw [if_neg register] at type
    refine .bind (checkRegister_encodes covers _ r) fun _ _ => .bind type fun _ _ => ?_
    split
    · split
      · exact .pure _
      · exact .throw (covers.encoding _ nofun)
    · exact .pure _

theorem setSource1_encodes {r : Native.Register} (type : SourceType P g r) (w : Native.Word) :
    Encodes P (g.setSource1 s r w) := by
  unfold SourceType at type
  unfold Generation.setSource1
  refine .refuse (fun _ => covers.encoding _ (by split <;> nofun)) fun _ => ?_
  split
  · rename_i immediate
    rw [if_pos immediate] at type
    exact .refuse (fun _ => covers.encoding _ nofun) fun _ => .bind type.2 fun _ _ => .pure _
  · rename_i register
    rw [if_neg register] at type
    exact .refuse (fun _ => covers.encoding _ nofun) fun _ => .bind (checkRegister_encodes covers _ r) fun _ _ =>
      .bind type fun _ _ => .pure _

theorem unaryWord_encodes {dst src : Native.Register} (op : Native.Opcode)
    (type : Encodes P (g.registerTypeCode dst.type)) (source : SourceType P g src) :
    Encodes P (g.unaryWord s op dst src) :=
  .bind (headerWord_encodes covers g s op) fun _ _ => .bind (setDestination_encodes covers g type _) fun _ _ =>
    setSource0_encodes covers g s source _

theorem binaryWord_encodes {dst src0 src1 : Native.Register} (op : Native.Opcode)
    (type : Encodes P (g.registerTypeCode dst.type)) (left : SourceType P g src0) (right : SourceType P g src1) :
    Encodes P (g.binaryWord s op dst src0 src1) :=
  .bind (headerWord_encodes covers g s op) fun _ _ => .bind (setDestination_encodes covers g type _) fun _ _ =>
    .bind (setSource0_encodes covers g s left _) fun _ _ => setSource1_encodes covers g s right _

theorem compareWord_encodes {dst src0 src1 : Native.Register} (condition : UInt32)
    (type : Encodes P (g.registerTypeCode dst.type)) (left : SourceType P g src0) (right : SourceType P g src1) :
    Encodes P (g.compareWord s condition dst src0 src1) :=
  .bind (headerWord_encodes covers g s .cmp) fun _ _ => .refuse (fun _ => covers.encoding _ nofun) fun _ =>
    .bind (setDestination_encodes covers g type _) fun _ _ =>
      .bind (setSource0_encodes covers g s left _) fun _ _ => setSource1_encodes covers g s right _

theorem checkTriple_encodes (role : Role) (r : Native.Register) : Encodes P (Generation.checkTriple role r) := by
  unfold Generation.checkTriple
  split
  · exact .error (covers.encoding _ nofun)
  · split
    · exact .error (covers.encoding _ nofun)
    · split
      · exact .error (covers.encoding _ nofun)
      · exact .ok _

theorem checkTripleSource_encodes (first : Native.DataType) (index : Nat) (r : Native.Register) :
    Encodes P (Generation.checkTripleSource first index r) := by
  unfold Generation.checkTripleSource
  refine .bind (checkTriple_encodes covers _ r) fun _ _ => ?_
  split
  · exact .throw (covers.encoding _ nofun)
  · exact .pure _

omit covers in
theorem checkTriple_file {role : Role} {r : Native.Register} (passed : Generation.checkTriple role r = .ok ()) :
    r.file = .grf := by
  unfold Generation.checkTriple at passed
  split at passed
  · cases passed
  · rename_i direct
    exact not_not.mp fun other => direct (.inl other)

omit covers in
theorem checkTripleSource_file {first : Native.DataType} {index : Nat} {r : Native.Register}
    (passed : Generation.checkTripleSource first index r = .ok ()) : r.file = .grf ∧ r.type = first := by
  unfold Generation.checkTripleSource at passed
  obtain ⟨⟨⟩, direct, same⟩ := bind_ok.mp passed
  exact ⟨checkTriple_file direct, not_not.mp (reject_ok.mp same).1⟩

/-- The unit's checks come in an order: the types of the sources matter only once all of them are general
registers of one type. -/
theorem tripleWords_encodes {dst src0 src1 src2 : Native.Register} (op : Native.Opcode)
    (types : TripleTypes P g dst src0 src1 src2) : Encodes P (g.tripleWords s op dst src0 src1 src2) := by
  have single : Encodes P (g.tripleWord s op dst src0 src1 src2) :=
    .bind (headerWord_encodes covers g s op) fun _ _ => .bind (checkTriple_encodes covers _ dst) fun _ target =>
      .bind (types.dst (checkTriple_file target)) fun _ _ =>
        .bind (checkTripleSource_encodes covers _ _ _) fun _ first =>
      .bind (checkTripleSource_encodes covers _ _ _) fun _ second =>
      .bind (checkTripleSource_encodes covers _ _ _) fun _ third =>
      .bind (types.src (checkTripleSource_file first).1 (checkTripleSource_file second).1
        (checkTripleSource_file third).1
        (checkTripleSource_file second).2 (checkTripleSource_file third).2) fun _ _ => .pure _
  unfold Generation.tripleWords
  refine .bind single fun _ _ => ?_
  split <;> exact .pure _

theorem sendWord_encodes {dst payload : Native.Register} (target : Native.SharedFunction) (d : Native.Descriptor)
    (type : Encodes P (g.registerTypeCode dst.type)) (source : SourceType P g payload) :
    Encodes P (g.sendWord s target dst payload d) := by
  have descriptor (w : Native.Word) : Encodes P (g.setDescriptor target d w) := by
    unfold Generation.setDescriptor
    exact .refuse (fun _ => covers.encoding _ nofun) fun _ => .refuse (fun _ => covers.encoding _ nofun) fun _ =>
      .refuse (fun _ => covers.encoding _ nofun) fun _ => .pure _
  exact .bind (headerWord_encodes covers g s .send) fun _ _ => .refuse (fun _ => covers.encoding _ nofun) fun _ =>
    .bind (setDestination_encodes covers g type _) fun _ _ =>
      .bind (setSource0_encodes covers g s source _) fun _ _ => descriptor _

theorem untypedControl_encodes (elements : Int) : Encodes P (Generation.untypedControl s elements) := by
  unfold Generation.untypedControl
  dsimp only
  repeat' split
  all_goals first | exact .ok _ | exact .error (covers.unimplemented _)

theorem scratchFunction_encodes (write : Bool) (offset : UInt32) (registers : Int) :
    Encodes P (Generation.scratchFunction write offset registers) := by
  have rest (block : UInt32) : Encodes P (do
      if offset % Native.grfSize ≠ 0 ∨ Generation.maxScratchOffset < offset then
        throw (.encoding (.scratchOffset offset))
      return Generation.scratchCategory ||| (block <<< 12) ||| (offset / Native.grfSize) |||
        (if write then Generation.scratchWriteBit else 0)) :=
    .refuse (fun _ => covers.encoding _ nofun) fun _ => .pure _
  unfold Generation.scratchFunction
  dsimp only
  split
  · exact .bind (.pure _) fun _ _ => rest _
  · split
    · exact .bind (.pure _) fun _ _ => rest _
    · split
      · exact .bind (.pure _) fun _ _ => rest _
      · exact .bind (.throw (covers.unimplemented _)) fun _ _ => rest _

omit covers in
theorem common_encodes {t : Native.DataType} (known : t ∈ common) : Encodes P (g.registerTypeCode t) := by
  obtain ⟨code, coded⟩ := registerTypeCode_common g known
  exact .of_ok coded

omit covers in
theorem common_source {r : Native.Register} (register : r.file ≠ .imm) (known : r.type ∈ common) :
    SourceType P g r := by
  unfold SourceType
  rw [if_neg register]
  exact common_encodes g known

theorem motionWord_encodes {payload : Native.Register} (message : UInt32) (dst : Native.Register) (surface : UInt8)
    (supported : g.supports .motionEstimation = false → P (.unsupported .motion g.name))
    (source : SourceType P g payload) : Encodes P (g.motionWord s message dst payload surface) := by
  have rest (length : UInt32) : Encodes P (do
      if g.supports .motionEstimation = false then
        throw (.unsupported .motion g.name)
      g.sendWord s .checkRefine (dst.retype .uw) payload
        { function := surface.toUInt32 ||| (message <<< 13), header := true, messageLength := length
          responseLength := 7 }) :=
    .refuse supported fun _ => sendWord_encodes covers g s _ _ (common_encodes g (t := .uw) (by decide)) source
  unfold Generation.motionWord
  dsimp only
  split
  · exact .bind (.pure _) fun _ _ => rest _
  · split
    · exact .bind (.pure _) fun _ _ => rest _
    · exact .bind (.throw (covers.encoding _ nofun)) fun _ _ => rest _

/-- A command fails for causes of a kind if the complaints about its operand types are of that kind. -/
theorem assemble_encodes {c : Command} (typed : Typed P g c) : Encodes P (g.assemble s c) := by
  cases c with
  | unary op dst src => exact .map (unaryWord_encodes covers g s _ typed.1 typed.2)
  | binary op dst src0 src1 => exact .map (binaryWord_encodes covers g s _ typed.1 typed.2.1 typed.2.2)
  | compare condition dst src0 src1 => exact .map (compareWord_encodes covers g s _ typed.1 typed.2.1 typed.2.2)
  | ternary op dst src0 src1 src2 => exact tripleWords_encodes covers g s _ typed
  | nop => exact .map (headerWord_encodes covers g s _)
  | jump distance =>
    have distances : SourceType P g (.immD distance.toUInt32) := by
      have listed : ∀ l : Native.Layout, l = .gen7 ∨ l = .gen8 → ∃ code,
          Native.Layout.codeOf? l.immediateTypes (Native.Register.immD distance.toUInt32).type = some code := by
        rintro l (rfl | rfl) <;> exact ⟨_, rfl⟩
      obtain ⟨code, found⟩ := listed g.layout (layout_cases g)
      refine ⟨.ok _, .of_ok (a := code) ?_⟩
      unfold Generation.immediateTypeCode
      rw [found]
    exact .map (binaryWord_encodes covers g _ _ (common_encodes g (by decide))
      (common_source g (by decide) (by decide)) distances)
  | send target dst payload d => exact .map (sendWord_encodes covers g s _ _ typed.1 typed.2)
  | barrier payload => exact .map (sendWord_encodes covers g s _ _ (common_encodes g (by decide)) typed)
  | wait =>
    exact .map (unaryWord_encodes covers g s _ (common_encodes g (by decide)) (common_source g (by decide) (by decide)))
  | fence dst payload flush => exact .map (sendWord_encodes covers g s _ _ typed.1 typed.2)
  | flushSampler dst payload => exact .map (sendWord_encodes covers g s _ _ typed.1 typed.2)
  | atomic function dst payload surface length =>
    refine .map ?_
    unfold Generation.atomicWord
    split
    · exact .error (covers.encoding _ (by rintro _ ⟨⟩))
    · exact sendWord_encodes covers g s _ _ typed.1 typed.2
  | untypedRead dst address surface elements =>
    exact .map (.bind (untypedControl_encodes covers s _) fun _ _ => sendWord_encodes covers g s _ _ typed.1 typed.2)
  | untypedWrite payload surface elements =>
    exact .map (.bind (untypedControl_encodes covers s _) fun _ _ =>
      sendWord_encodes covers g s _ _ (common_encodes g (by decide)) typed)
  | scratchRead dst header offset registers =>
    exact .map (.bind (scratchFunction_encodes covers _ _ _) fun _ _ =>
      sendWord_encodes covers g s _ _ (common_encodes g (t := .uw) (by decide)) typed)
  | scratchWrite header offset registers =>
    exact .map (.bind (scratchFunction_encodes covers _ _ _) fun _ _ =>
      sendWord_encodes covers g s _ _ (common_encodes g (by decide)) typed)
  | motion message dst payload surface => exact .map (motionWord_encodes covers g s _ _ _ typed.1 typed.2)
  | endThread =>
    have thread : SourceType P g (.ud8 0 0) := common_source g (by decide) (by decide)
    exact .bind (unaryWord_encodes covers g _ _ (common_encodes g (by decide)) thread) fun _ _ =>
      .bind (sendWord_encodes covers g _ _ _ (common_encodes g (by decide))
        (common_source g (by decide) (by decide))) fun _ _ => .pure _

end

/-! ## Operand types -/

section
variable {P : Cause → Prop} (unsupported : ∀ feature name, P (.unsupported feature name)) (g : Generation)
include unsupported

theorem checkType_unsupported (t : Native.DataType) : Encodes P (g.checkType t) := by
  unfold Generation.checkType
  split <;> first | exact .ok _ | (split <;> first | exact .ok _ | exact .error (unsupported _ _))

theorem registerTypeCode_unsupported (t : Native.DataType) : Encodes P (g.registerTypeCode t) := by
  unfold Generation.registerTypeCode
  refine .bind (checkType_unsupported unsupported g t) fun _ _ => ?_
  split
  · exact .pure _
  · exact .throw (unsupported _ _)

theorem sourceType_unsupported (r : Native.Register) : SourceType P g r := by
  unfold SourceType
  split
  · refine ⟨checkType_unsupported unsupported g _, ?_⟩
    unfold Generation.immediateTypeCode
    split
    · exact .ok _
    · exact .error (unsupported _ _)
  · exact registerTypeCode_unsupported unsupported g _

theorem tripleTypes_unsupported (dst src0 src1 src2 : Native.Register) : TripleTypes P g dst src0 src1 src2 := by
  have code (t : Native.DataType) : Encodes P (g.tripleTypeCode t) := by
    unfold Generation.tripleTypeCode
    split
    · exact .ok _
    · exact .error (unsupported _ _)
  exact ⟨fun _ => code _, fun _ _ _ _ _ => code _⟩

/-- All that the encoder says to operand types is that a feature is missing. -/
theorem typed_unsupported (c : Command) : Typed P g c := by
  have register (t : Native.DataType) := registerTypeCode_unsupported unsupported g t
  have source (r : Native.Register) := sourceType_unsupported unsupported g r
  cases c with
  | unary op dst src => exact ⟨register _, source _⟩
  | binary op dst src0 src1 | compare condition dst src0 src1 => exact ⟨register _, source _, source _⟩
  | ternary op dst src0 src1 src2 => exact tripleTypes_unsupported unsupported g dst src0 src1 src2
  | nop | jump | wait | endThread => trivial
  | send | fence | flushSampler | atomic | untypedRead => exact ⟨register _, source _⟩
  | barrier | untypedWrite | scratchRead | scratchWrite => exact source _
  | motion message dst payload surface => exact ⟨fun _ => unsupported _ _, source _⟩

end

/-! ## Instructions -/

/-- The cause of a stopped computation. -/
def stoppedCause {ε : Type} (e : Stopped ε) : Cause := e.diagnostic.cause

section
variable {P : Cause → Prop} (covers : Covers P) {a : Allocation}
  (unplaced : ∀ r, a.offsets.lookup? r = none → P (.placement (.unplaced r)))

section
include unplaced

theorem placeOf_fails (r : VReg) : Encodes P (Emission.placeOf a r) := by
  unfold Emission.placeOf
  split
  · exact .ok _
  · rename_i missing
    exact .error (unplaced r missing)

include covers

theorem operand_fails (width : Int) (o : Operand) : Encodes P (Emission.operand a width o) := by
  cases o with
  | absent t => exact .ok _
  | register o => exact .bind (placeOf_fails unplaced o.reg) fun _ _ => .pure _
  | immediate t bits negate absolute =>
    unfold Emission.operand Emission.immediate
    dsimp only
    split <;> first | exact .ok _ | exact .error (covers.unimplemented _)

theorem destination_fails (width : Int) (t : Element) (o : Operand) : Encodes P (Emission.destination a width t o) := by
  unfold Emission.destination
  split
  · exact .ok _
  · exact operand_fails covers unplaced width o

end

theorem checked_fails {α : Type} {x : Except Diagnostic α} (fails : Encodes P x) :
    FailsWith P stoppedCause (Emission.checked x) :=
  .mapError (fun _ => rfl) fails

section
variable {f : Emission.Frame} (same : f.allocation = a)
include covers unplaced

theorem alu_fails (s : State) (i : Instruction) (width : Int) :
    FailsWith P stoppedCause (Emission.alu a s i width) := by
  unfold Emission.alu
  refine .bind (checked_fails (.mapM (operand_fails covers unplaced width) _)) fun _ _ =>
    .bind (checked_fails (destination_fails covers unplaced width _ _)) fun _ _ => ?_
  split <;> exact .pure _

theorem motionPayload_fails (s : State) (payload : Native.Register) (done : List Issue)
    (rest : List (Operand × Nat)) : FailsWith P stoppedCause (Emission.motionPayload a s payload done rest) := by
  induction rest generalizing done with
  | nil => exact .ok _
  | cons entry rest ih =>
    unfold Emission.motionPayload
    have fails := operand_fails covers unplaced 1 entry.1
    split
    · rename_i d failed
      exact .error (fails d failed)
    · exact ih _

theorem motion_fails (s : State) (i : Instruction) (width : Int) :
    FailsWith P stoppedCause (Emission.motion a s i width) := by
  unfold Emission.motion
  refine .bind (checked_fails (operand_fails covers unplaced width _)) fun _ _ =>
    .bind (checked_fails (operand_fails covers unplaced width _)) fun _ _ => ?_
  split
  · exact .error (covers.encoding _ nofun)
  · exact .bind (motionPayload_fails covers unplaced _ _ _ _) fun _ _ => .pure _

theorem scratch_fails (s : State) (i : Instruction) : FailsWith P stoppedCause (Emission.scratch a s i) := by
  unfold Emission.scratch
  dsimp only
  split
  · exact .bind (.error (covers.encoding _ nofun)) fun _ _ =>
      .bind (checked_fails (operand_fails covers unplaced 8 _)) fun _ _ => by split <;> exact .pure _
  · refine .bind (checked_fails (operand_fails covers unplaced 8 _)) fun _ _ => ?_
    split <;> exact .pure _

include same

theorem indirect_fails (s : State) (i : Instruction) (width : Int) :
    FailsWith P stoppedCause (Emission.indirect f s i width) := by
  subst same
  unfold Emission.indirect
  refine .bind (checked_fails (placeOf_fails unplaced _)) fun _ _ => .bind (checked_fails ?_) fun setup _ => ?_
  · have checks (entries : List UInt16) : Encodes P (Sequence.checkAddresses entries) := by
      unfold Sequence.checkAddresses
      split
      · exact .error (covers.encoding _ nofun)
      · split
        · exact .error (covers.encoding _ nofun)
        · exact .ok _
    unfold Sequence.setAddresses
    split <;> exact .bind (checks _) fun _ _ => .pure _
  · have fails := operand_fails covers unplaced width i.dst
    split
    · rename_i d failed
      exact .error (fails d failed)
    · exact .pure _

/-- An instruction fails for an unplaced register, a broken rule or a missing path, before its commands are
assembled. -/
theorem instruction_fails (i : Instruction) : FailsWith P stoppedCause (Emission.instruction f i) := by
  subst same
  have operands (o : Operand) (w : Int) :
      FailsWith P stoppedCause (Emission.checked (Emission.operand f.allocation w o)) :=
    checked_fails (operand_fails covers unplaced w o)
  have sources (w : Int) :
      FailsWith P stoppedCause (Emission.checked (i.src.mapM (Emission.operand f.allocation w))) :=
    checked_fails (.mapM (operand_fails covers unplaced w) _)
  unfold Emission.instruction
  dsimp only
  split
  all_goals first
    | exact alu_fails covers unplaced _ _ _
    | exact .ok _
    | exact indirect_fails covers unplaced rfl _ _ _
    | exact scratch_fails covers unplaced _ _
    | exact motion_fails covers unplaced _ _ _
    | exact .bind (operands _ _) fun _ _ => .bind (operands _ _) fun _ _ => .pure _
    | exact .bind (operands _ _) fun _ _ => .bind (sources _) fun _ _ => .pure _
    | exact .bind (operands _ _) fun _ _ => .pure _
    | exact .bind (checked_fails (destination_fails covers unplaced _ _ _)) fun _ _ =>
        .bind (operands _ _) fun _ _ => .pure _
    | exact .error (covers.encoding _ nofun)

end

end

/-! ## Whole programs -/

/-- The commands an instruction is emitted as, or those before it failed. -/
def commandsOf : Emitted → List Issue
  | .ok issues => issues
  | .error e => e.log

/-- An assembler for a generation that recorded failures of one kind only. -/
structure Recorded (P : Cause → Prop) (g : Generation) (m : Assembler) : Prop where
  generation : m.generation = g
  error : ∀ d, m.error = some d → P d.cause

section
variable {P : Cause → Prop} (covers : Covers P) {g : Generation}

section
include covers

theorem Recorded.run {m : Assembler} (recorded : Recorded P g m) {i : Issue} (typed : Typed P g i.command) :
    Recorded P g (m.run i) := by
  obtain ⟨rfl, clean⟩ := recorded
  have fails := assemble_encodes covers m.generation i.state typed
  unfold Assembler.run Assembler.issue
  dsimp only
  cases outcome : m.generation.assemble i.state i.command with
  | error d =>
    refine ⟨rfl, fun e found => ?_⟩
    simp only [Assembler.fail, Option.or_eq_some_iff] at found
    rcases found with before | ⟨-, now⟩
    · exact clean e before
    · cases now
      exact fails d outcome
  | ok ws =>
    obtain ⟨error, generation⟩ := StraightLine.commitAll_keeps { m with state := i.state } ws
    refine ⟨generation, fun e found => ?_⟩
    dsimp only at found
    rw [error] at found
    exact clean e found

theorem Recorded.runAll {is : List Issue} (typed : ∀ i ∈ is, Typed P g i.command) {m : Assembler}
    (recorded : Recorded P g m) : Recorded P g (m.runAll is) := by
  unfold Assembler.runAll
  induction is generalizing m with
  | nil => exact recorded
  | cons i is ih =>
    exact ih (fun j member => typed j (List.mem_cons_of_mem _ member))
      (recorded.run covers (typed i List.mem_cons_self))

end

/-- A step of emission that fails for causes of one kind only, and leaves an assembler that recorded no
others. -/
structure Goes (P : Cause → Prop) (g : Generation) (x : Except (Stopped CompileEvent) Emitter) : Prop where
  fails : FailsWith P stoppedCause x
  next : ∀ m, x = .ok m → Recorded P g m.assembler

theorem stopAt_goes (m : Emitter) {d : Diagnostic} (kind : P d.cause) (position : Nat) :
    Goes P g (.error (m.stopAt d position)) :=
  ⟨.error kind, fun m' stopped => by cases stopped⟩

theorem checkpoint_goes {m : Emitter} (recorded : Recorded P g m.assembler) (position : Nat) :
    Goes P g (m.checkpoint position) := by
  unfold Emitter.checkpoint
  split
  · rename_i d found
    exact stopAt_goes m (recorded.error d found) position
  · refine ⟨.ok _, ?_⟩
    rintro m' same
    cases same
    exact recorded

include covers

theorem step_goes {f : Emission.Frame} {m : Emitter} (recorded : Recorded P g m.assembler) {i : Instruction}
    (fails : FailsWith P stoppedCause (Emission.instruction f i))
    (typed : ∀ j ∈ commandsOf (Emission.instruction f i), Typed P g j.command) (position : Nat) :
    Goes P g (Emitter.step f m (i, position)) := by
  unfold Emitter.step
  dsimp only
  split
  · unfold Emitter.defineLabel
    split
    · exact stopAt_goes (d := .encoding (.duplicateLabel i.label)) m (covers.encoding _ nofun) position
    · refine checkpoint_goes ?_ _
      exact recorded
  · refine checkpoint_goes ?_ _
    exact recorded.run covers (i := ⟨_, .jump 0⟩) trivial
  · split
    · rename_i issues emitted
      rw [emitted] at typed
      refine checkpoint_goes ?_ _
      exact recorded.runAll covers typed
    · rename_i e failed
      exact stopAt_goes _ (fails e failed) position

theorem steps_fail {f : Emission.Frame} {entries : List (Instruction × Nat)}
    (each : ∀ entry ∈ entries, FailsWith P stoppedCause (Emission.instruction f entry.1) ∧
      ∀ j ∈ commandsOf (Emission.instruction f entry.1), Typed P g j.command)
    {m : Emitter} (recorded : Recorded P g m.assembler) :
    FailsWith P stoppedCause (entries.foldlM (Emitter.step f) m) := by
  induction entries generalizing m with
  | nil => exact .pure _
  | cons entry entries ih =>
    obtain ⟨fails, typed⟩ := each entry List.mem_cons_self
    obtain ⟨here, next⟩ := step_goes covers recorded fails typed entry.2
    rw [List.foldlM_cons]
    exact .bind here fun m' stepped => ih (fun e member => each e (List.mem_cons_of_mem _ member)) (next m' stepped)

omit covers in
/-- A step leaves the assembler's states as they were. -/
theorem step_restored {f : Emission.Frame} {m m' : Emitter} {entry : Instruction × Nat}
    (stepped : Emitter.step f m entry = .ok m') : m.assembler.Restored m'.assembler := by
  unfold Emitter.step at stepped
  dsimp only at stepped
  split at stepped
  · unfold Emitter.defineLabel at stepped
    split at stepped
    · cases stepped
    · rw [(StraightLine.checkpoint_ok stepped).1]
      exact .refl _
  · rw [(StraightLine.checkpoint_ok stepped).1]
    exact m.assembler.run_restored _
  · split at stepped
    · rw [(StraightLine.checkpoint_ok stepped).1]
      exact m.assembler.runAll_restored _
    · cases stepped

omit covers in
/-- No state is left pushed after the instructions. -/
theorem steps_depth {f : Emission.Frame} {entries : List (Instruction × Nat)} {m m' : Emitter}
    (ran : entries.foldlM (Emitter.step f) m = .ok m') : m'.assembler.depth = m.assembler.depth := by
  have restored : m.assembler.Restored m'.assembler :=
    foldlM_keeps (P := fun t => m.assembler.Restored t.assembler)
      (fun _ _ _ _ before stepped => before.trans (step_restored stepped)) (.refl _) ran
  exact congrArg List.length restored.saved

theorem resolve_fails (m : Emitter) (remap : List Nat) (x : Assembler) (j : PendingJump) :
    Encodes P (m.resolve remap x j) := by
  unfold Emitter.resolve
  split
  · exact .error (covers.encoding _ nofun)
  · refine .mapError (fun _ => rfl) (?_ : Encodes P _)
    unfold Assembler.patchJump
    split
    · exact .error (covers.encoding _ nofun)
    · split
      · exact .error (covers.encoding _ nofun)
      · dsimp only
        split
        · exact .error (covers.encoding _ nofun)
        · exact .ok _

/-- Emission fails for causes of a kind if its instructions do and the complaints about the operand types
of all their commands are of that kind. -/
theorem emit_fails (c : Context) (a : Allocation)
    (each : ∀ i ∈ a.kernel.code, ∀ base, FailsWith P stoppedCause (Emission.instruction ⟨c.flavor, a, base⟩ i) ∧
      ∀ j ∈ commandsOf (Emission.instruction ⟨c.flavor, a, base⟩ i), Typed P c.generation j.command) :
    FailsWith P stoppedCause (c.emit a) := by
  unfold Context.emit
  intro e failed
  cases made : Assembler.new c.generation c.simdWidth with
  | error d =>
    have created : Encodes P (Assembler.new c.generation c.simdWidth) := by
      unfold Assembler.new
      split
      · exact .ok _
      · exact .error (covers.unimplemented _)
    rw [made] at failed
    cases failed
    exact created d made
  | ok assembler =>
    rw [made] at failed
    obtain ⟨clean, depth⟩ : Recorded P c.generation assembler ∧ assembler.depth = 0 := by
      unfold Assembler.new at made
      split at made
      · cases made
        exact ⟨⟨rfl, fun d found => by cases found⟩, rfl⟩
      · cases made
    have steps : FailsWith P stoppedCause
        (a.kernel.code.zipIdx.foldlM (Emitter.step ⟨c.flavor, a, assembler.state⟩) { assembler := assembler }) :=
      steps_fail covers (fun entry member => each entry.1 (List.fst_mem_of_mem_zipIdx member) _) clean
    refine FailsWith.bind steps (fun m ran => ?_) e failed
    have none : m.assembler.depth = 0 := (steps_depth ran).trans depth
    refine .refuse (fun left => absurd none left) fun _ => .bind ?_ fun _ _ => .pure _
    exact .mapError (fun _ => rfl) (.foldlM (resolve_fails covers m _) _ _)

end

end GpuCodegen.Failures
