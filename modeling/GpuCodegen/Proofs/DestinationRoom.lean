import GpuCodegen.Proofs.CompiledProducts
import GpuCodegen.Proofs.EmittedFootprints
import GpuCodegen.Proofs.SelectionInvariants
import GpuCodegen.Proofs.SpillTemporaries

/-! Room for what is written. A destination is as long as its type, its lanes and its span say, and what the words of
an instruction write has to fit. Selection keeps it so: the registers it adds have the room that the instructions it
makes need. -/

namespace GpuCodegen.Footprints
open Native Outcome Products

/-- An operand selects one of the vectors of its register. -/
def HasPart (x : RegisterOperand) : Prop := 0 ≤ x.part ∧ x.part < x.spans

/-- A destination has room for what an operation on a number of lanes writes: an element for each lane, the registers
of a response, or one register of a barrier. What a motion estimation answers has a size of its own, and a store has no
destination. An end of thread has none either: it would write the last general register, whatever the destination is. -/
def Accommodates (op : Opcode) (lanes : Int) (x : RegisterOperand) : Prop :=
  match op with
  | .load | .atomic => HasPart x ∧ 32 * laneRows lanes ≤ room x lanes
  | .barrier => HasPart x ∧ 32 ≤ room x 8
  | .motion | .store | .nop | .label | .jump => True
  | .endThread => False
  | _ => HasPart x ∧ (x.scalar = true → lanes = 1)

/-- The destination of an instruction has room for what is written, and a barrier leaves its payload, which it writes
too, to selection. -/
structure Spacious (lanes : Int) (i : Instruction) : Prop where
  dst : ∀ x, i.dst.register? = some x → Accommodates i.op lanes x
  payload : i.op = .barrier → (i.src.getD 0 default).isRegister = false

/-- The bytes of an operand's register, rounded up to whole general registers, are a 32-bit number. -/
def Counted (width : Int) (x : RegisterOperand) : Prop := partBytes x width * x.spans ≤ 4294967264

instance (width : Int) (x : RegisterOperand) : Decidable (Counted width x) :=
  inferInstanceAs (Decidable (partBytes x width * x.spans ≤ 4294967264))

/-- The bytes of an instruction's registers are 32-bit numbers; those of a barrier as for eight lanes. -/
def Sized (lanes : Int) (i : Instruction) : Prop := ∀ x ∈ i.registers, Counted (if i.op = .barrier then 8 else lanes) x

instance (lanes : Int) (i : Instruction) : Decidable (Sized lanes i) :=
  inferInstanceAs (Decidable (∀ x ∈ i.registers, Counted (if i.op = .barrier then 8 else lanes) x))

/-- An instruction of a known shape, if it writes anything, and registers with parts to write. -/
structure Roomy (simd : Int) (j : Instruction) : Prop where
  shaped : writesNone j.op = false → ∀ x, j.dst.register? = some x → HasPart x ∧ Shaped simd j x
  work : ∀ y, Operand.register y ∈ workspace j → HasPart y

/-- An instruction as selection makes it. -/
structure Sound (simd : Int) (j : Instruction) : Prop extends Roomy simd j where
  counted : ∀ x ∈ j.registers, Counted (j.width simd) x
  other : j.op ≠ .spill

/-- A kernel of such instructions, without pins. -/
structure Selected (simd : Int) (k : Kernel) : Prop where
  sound : ∀ j ∈ k.code, Sound simd j
  width : k.simdWidth = simd
  unpinned : ∀ r, k.pin? r = none

/-- The bytes of an operand's register as far as it is one. -/
def Short (width : Int) (o : Operand) : Prop := ∀ x, o.register? = some x → Counted width x

/-- The instruction has some lanes, at most sixteen, and registers of limited size. -/
structure Modest (simd : Int) (i : Instruction) : Prop where
  some_ : 0 < i.width simd
  few : i.width simd ≤ 16
  short : ∀ o ∈ i.dst :: i.src, Short (i.width simd) o

/-! ## Operands that selection adds -/

theorem hasPart_whole {x : RegisterOperand} (first : x.part = 0) : HasPart x := by
  unfold HasPart RegisterOperand.spans
  rw [first]
  split <;> omega

section
variable {width : Int} (lanes : 0 ≤ width ∧ width ≤ 16)
include lanes

/-- A run of some million vectors is far shorter than the 32-bit numbers. -/
theorem short_register {x : RegisterOperand} (small : x.span ≤ 8388608) : Short width (.register x) := by
  intro y named
  cases register_of_named named
  have part : 0 ≤ partBytes x width ∧ partBytes x width ≤ 128 := by
    have size : x.type.size ≤ 8 := by
      cases x.type <;> decide
    have few : 0 ≤ x.lanes width ∧ x.lanes width ≤ 16 := by
      unfold RegisterOperand.lanes
      split <;> omega
    constructor
    · exact Int.mul_nonneg (Int.natCast_nonneg _) few.1
    · exact Int.mul_le_mul (show (x.type.size : Int) ≤ 8 by omega) few.2 few.1 (by decide)
  have spans : 0 ≤ x.spans ∧ x.spans ≤ 8388608 := by
    unfold RegisterOperand.spans
    split <;> omega
  exact Int.le_trans (Int.mul_le_mul part.2 spans.2 spans.1 (by decide)) (by decide)

theorem short_vector (r : VReg) (t : Element) : Short width (.vector r t) :=
  short_register lanes (show (0 : Int) ≤ 8388608 by decide)

theorem short_scalar (r : VReg) (t : Element) : Short width (.scalar r t) :=
  short_register lanes (show (0 : Int) ≤ 8388608 by decide)

end

theorem short_absent (width : Int) (t : Element) : Short width (.absent t) := nofun

/-- The room of some vectors of dwords. -/
theorem dwords_room (r : VReg) {span : Int} (some_ : 1 < span) (width : Int) :
    room { reg := r, type := .ud, span := span } width = 4 * width * span := by
  have spans : (if span < 1 then 1 else span) = span := if_neg (by omega)
  simp [room, partBytes, RegisterOperand.lanes, RegisterOperand.spans, Element.size, spans]

/-! ## Selection -/

/-- A part of selection that appends such instructions only. -/
abbrev KeepsSound {α : Type} (simd : Int) (m : Select α) (Q : α → Prop) : Prop :=
  Select.Keeps (Selected simd) m Q

section
variable {simd : Int} {i j : Instruction} {o : Operand}

theorem Selected.emit {k : Kernel} (kept : Selected simd k) (sound : Sound simd j) :
    Selected simd (k.emit j) := by
  refine ⟨fun i member => ?_, kept.width, kept.unpinned⟩
  rcases List.mem_append.mp member with before | here
  · exact kept.sound i before
  · cases List.mem_singleton.mp here
    exact sound

theorem emit_sound (sound : Sound simd j) : KeepsSound simd (Select.emit j) fun _ => True :=
  .appended fun _ kept => kept.emit sound

theorem fresh_sound : KeepsSound simd Select.fresh fun _ => True :=
  .fresh fun _ kept => ⟨kept.sound, kept.width, kept.unpinned⟩

theorem temp_sound {t : Element} : KeepsSound simd (Select.temp t) fun v => ∃ r, v = .vector r t :=
  .bind fresh_sound fun r _ => .pure ⟨r, rfl⟩

theorem Modest.lanes (modest : Modest simd i) : 0 ≤ i.width simd ∧ i.width simd ≤ 16 :=
  ⟨Int.le_of_lt modest.some_, modest.few⟩

theorem Modest.counted (modest : Modest simd j) : ∀ x ∈ j.registers, Counted (j.width simd) x := by
  intro x member
  rcases SpillGroups.mem_registers.mp member with named | ⟨o, source, named⟩
  · exact modest.short _ List.mem_cons_self x named
  · exact modest.short o (List.mem_cons_of_mem _ source) x named

/-- An instruction without a workspace, by its destination. -/
theorem plain_sound (modest : Modest simd j) (alone : workspace j = []) (other : j.op ≠ .spill)
    (shaped : writesNone j.op = false → ∀ x, j.dst.register? = some x → HasPart x ∧ Shaped simd j x) :
    Sound simd j := by
  refine ⟨⟨shaped, fun y member => ?_⟩, modest.counted, other⟩
  rw [alone] at member
  cases member

theorem lanes_sound (modest : Modest simd j) (op : onLanes j.op = true)
    (target : ∀ x, j.dst.register? = some x → HasPart x ∧ (x.scalar = true → j.width simd = 1)) :
    Sound simd j := by
  have alone : workspace j = [] := by
    unfold workspace
    split <;> rename_i other <;> first | rfl | (rw [other] at op; cases op)
  have other : j.op ≠ .spill := by
    intro spill
    rw [spill] at op
    cases op
  exact plain_sound modest alone other fun _ x named => ⟨(target x named).1, .lanes op (target x named).2 modest.few⟩

theorem Modest.source (modest : Modest simd i) (n : Nat) : Short (i.width simd) (i.src.getD n default) := by
  rw [List.getD_eq_getElem?_getD]
  cases here : i.src[n]? with
  | none => exact short_absent _ .ud
  | some o => exact modest.short o (List.mem_cons_of_mem _ (List.mem_of_getElem? here))

/-- A move of one operand to a whole register that selection hands out. -/
theorem move_sound (some_ : 0 < j.width simd) (few : j.width simd ≤ 16) (op : j.op = .mov) (src : j.src = [o])
    (short : Short (j.width simd) o) {x : RegisterOperand} (dst : j.dst = .register x) (small : x.span ≤ 8388608)
    (part : HasPart x) (lone : x.scalar = true → j.width simd = 1) : Sound simd j := by
  refine lanes_sound ⟨some_, few, ?_⟩ (by rw [op]; rfl) fun y named => ?_
  · rw [dst, src]
    simp only [List.forall_mem_cons, List.not_mem_nil, false_implies, implies_true, and_true]
    exact ⟨short_register ⟨Int.le_of_lt some_, few⟩ small, short⟩
  · rw [dst] at named
    cases register_of_named named
    exact ⟨part, lone⟩

theorem vector_sound (modest : Modest simd i) (short : Short (i.width simd) o) :
    KeepsSound simd (Select.vector o i) fun v => Short (i.width simd) v ∧ ∃ x, v = .register x := by
  unfold Select.vector
  split
  · rename_i plain
    refine .pure ⟨short, ?_⟩
    unfold Select.isPlainVector at plain
    split at plain
    · rename_i x named
      exact ⟨x, register_of_named named⟩
    · cases plain
  · refine .bind temp_sound fun v ⟨r, made⟩ => ?_
    subst made
    exact .bind (emit_sound (move_sound modest.some_ modest.few rfl rfl short rfl (show (0 : Int) ≤ 8388608 by decide)
      (hasPart_whole rfl) nofun)) fun _ _ => .pure ⟨short_vector modest.lanes r _, _, rfl⟩

theorem scalar_sound (modest : Modest simd i) (short : Short (i.width simd) o) :
    KeepsSound simd (Select.scalar o i) (Short (i.width simd)) := by
  unfold Select.scalar
  split
  · rename_i immediate
    refine .bind fresh_sound fun r _ => ?_
    have unnamed : Short 1 o := by
      intro x named
      rw [register_of_named named] at immediate
      cases immediate
    exact .bind (emit_sound (move_sound (show (0 : Int) < 1 by decide) (show (1 : Int) ≤ 16 by decide) rfl rfl unnamed
      rfl (show (0 : Int) ≤ 8388608 by decide) (hasPart_whole rfl) fun _ => rfl)) fun _ _ =>
        .pure (short_scalar modest.lanes r _)
  · exact .pure short

/-- What room a destination has to have for an operation that writes an element for each lane. -/
theorem Spacious.lanes (spacious : Spacious (i.width simd) i) (op : onLanes i.op = true ∨ i.op = .mulHi) :
    ∀ x, i.dst.register? = some x → HasPart x ∧ (x.scalar = true → i.width simd = 1) := by
  intro x named
  have room := spacious.dst x named
  unfold Accommodates at room
  split at room
  all_goals first | exact room | (rename_i other; rw [other] at op; rcases op with op | op <;> cases op)

theorem copyBack_sound (modest : Modest simd i) {result : Operand} (short : Short (i.width simd) result)
    (target : ∀ x, i.dst.register? = some x → HasPart x ∧ (x.scalar = true → i.width simd = 1)) :
    KeepsSound simd (Select.copyBack i result) fun _ => True := by
  unfold Select.copyBack
  split
  · split
    · exact .pure trivial
    · refine emit_sound (lanes_sound ⟨modest.some_, modest.few, ?_⟩ rfl target)
      simp only [List.forall_mem_cons, List.not_mem_nil, false_implies, implies_true, and_true]
      exact ⟨modest.short _ List.mem_cons_self, short⟩
  · exact .pure trivial

/-- A fresh vector of qwords. -/
theorem qwordLanes_vector (r : VReg) {t : Element} (qwords : t.size = 8) (width : Int) :
    QwordLanes width { reg := r, type := t } := ⟨nofun, qwords⟩

/-- A product of qwords, by what it is made of. -/
theorem product_sound_emitted (modest : Modest simd i) {op : Opcode} {a b dst : Operand} {temps : List Operand}
    (kind : op = .mul64 ∧ temps.length = 1 ∨ op = .mulHi64 ∧ temps.length = 3)
    (left : Short (i.width simd) a ∧ ∃ x, a = .register x) (right : Short (i.width simd) b ∧ ∃ x, b = .register x)
    (fresh : ∀ v ∈ temps, ∃ r, v = .vector r .ul) (short : Short (i.width simd) dst)
    (target : ∀ x, dst.register? = some x → HasPart x ∧ QwordLanes (i.width simd) x) :
    Sound simd
      { op := op, dst := dst, src := [a, b] ++ temps, execWidth := i.execWidth, block := i.block,
        predicated := i.predicated } := by
  obtain ⟨shortA, l, rfl⟩ := left
  obtain ⟨shortB, r, rfl⟩ := right
  have temporaries : ∀ v ∈ temps, ∃ x, v = .register x ∧ HasPart x ∧ QwordLanes (i.width simd) x := by
    intro v member
    obtain ⟨t, rfl⟩ := fresh v member
    exact ⟨_, rfl, hasPart_whole rfl, qwordLanes_vector t rfl _⟩
  refine ⟨⟨fun _ => ?_, ?_⟩, Modest.counted ⟨modest.some_, modest.few, ?_⟩, ?_⟩
  · intro x named
    obtain ⟨part, qwords⟩ := target x named
    refine ⟨part, ?_⟩
    rcases kind with ⟨rfl, count⟩ | ⟨rfl, count⟩
    · obtain ⟨v, rfl⟩ := List.length_eq_one_iff.mp count
      obtain ⟨t, rfl, -, wide⟩ := temporaries v (by simp)
      refine .low l r t rfl modest.few rfl ?_
      simp only [List.forall_mem_cons, List.not_mem_nil, false_implies, implies_true, and_true]
      exact ⟨qwords, wide⟩
    · obtain ⟨v, v', v'', rfl⟩ := List.length_eq_three.mp count
      obtain ⟨t, rfl, -, wide⟩ := temporaries v (by simp)
      obtain ⟨t', rfl, -, wide'⟩ := temporaries v' (by simp)
      obtain ⟨t'', rfl, -, wide''⟩ := temporaries v'' (by simp)
      refine .high l r t t' t'' rfl modest.few rfl ?_
      simp only [List.forall_mem_cons, List.not_mem_nil, false_implies, implies_true, and_true]
      exact ⟨qwords, wide, wide', wide''⟩
  · intro y member
    have added : Operand.register y ∈ temps := by
      rcases kind with ⟨rfl, -⟩ | ⟨rfl, -⟩ <;> exact member
    obtain ⟨x, same, part, -⟩ := temporaries _ added
    cases same
    exact part
  · simp only [List.forall_mem_cons, List.cons_append, List.nil_append]
    refine ⟨short, shortA, shortB, fun v member => ?_⟩
    obtain ⟨t, rfl⟩ := fresh v member
    exact short_vector modest.lanes t .ul
  · rcases kind with ⟨rfl, -⟩ | ⟨rfl, -⟩ <;> nofun

theorem product_sound (modest : Modest simd i) (spacious : Spacious (i.width simd) i) {op : Opcode} {scratch : Nat}
    (kind : op = .mul64 ∧ scratch = 1 ∨ op = .mulHi64 ∧ scratch = 3) (product : i.op = .mul ∨ i.op = .mulHi)
    {type : Element} (same : i.dst.type = type) (qwords : type.size = 8) :
    KeepsSound simd (Select.product op scratch i type) fun _ => True := by
  have target := spacious.lanes (product.imp_left fun mul => by rw [mul]; rfl)
  have temps : KeepsSound simd ((List.replicate scratch Element.ul).mapM Select.temp) fun vs =>
      (op = .mul64 ∧ vs.length = 1 ∨ op = .mulHi64 ∧ vs.length = 3) ∧ ∀ v ∈ vs, ∃ r, v = .vector r .ul := by
    refine (Select.Keeps.mapM fun t member => temp_sound (t := t)).mono fun vs made => ?_
    obtain ⟨length, each⟩ := List.forall₂_iff_get.mp made
    rw [List.length_replicate] at length
    refine ⟨by rwa [← length], fun v member => ?_⟩
    obtain ⟨n, small, rfl⟩ := List.getElem_of_mem member
    have here := each n (by rw [List.length_replicate, length]; exact small) small
    simpa only [List.get_eq_getElem, List.getElem_replicate] using here
  unfold Select.product
  refine .bind (vector_sound modest (modest.source 0)) fun a left =>
    .bind (vector_sound modest (modest.source 1)) fun b right => ?_
  split
  · refine .bind temp_sound fun dst ⟨r, made⟩ => .bind temps fun vs ⟨count, fresh⟩ => ?_
    subst made
    refine .bind
      (emit_sound (product_sound_emitted modest count left right fresh (short_vector modest.lanes r type) ?_))
      fun _ _ => copyBack_sound modest (short_vector modest.lanes r type) target
    intro x named
    cases register_of_named named
    exact ⟨hasPart_whole rfl, qwordLanes_vector r qwords _⟩
  · refine .bind (.pure (Q := fun dst => dst = i.dst) rfl) fun dst here => .bind temps fun vs ⟨count, fresh⟩ => ?_
    subst here
    refine .bind
      (emit_sound (product_sound_emitted modest count left right fresh (modest.short _ List.mem_cons_self) ?_))
      fun _ _ => .pure trivial
    intro x named
    have wide : x.type.size = 8 := by
      rw [register_of_named named] at same
      rw [show x.type = type from same, qwords]
    exact ⟨(target x named).1, (target x named).2, wide⟩

theorem ternary_sound (c : Context) (modest : Modest simd i) (spacious : Spacious (i.width simd) i)
    (op : onLanes i.op = true) : KeepsSound simd (Select.ternary c i) fun _ => True := by
  unfold Select.ternary
  refine .refuse fun _ => .bind (.mapM fun o member => scalar_sound modest (modest.short o
    (List.mem_cons_of_mem _ member))) fun vs each =>
    emit_sound (lanes_sound ⟨modest.some_, modest.few, ?_⟩ op (spacious.lanes (.inl op)))
  refine List.forall_mem_cons.mpr ⟨modest.short _ List.mem_cons_self, fun v member => ?_⟩
  obtain ⟨length, same⟩ := List.forall₂_iff_get.mp each
  obtain ⟨n, small, rfl⟩ := List.getElem_of_mem member
  exact same n (length ▸ small) small

/-- The parts of a payload are moved into place. -/
theorem stagePayload_sound (modest : Modest simd i) {parts : List Operand}
    (short : ∀ o ∈ parts, Short (i.width simd) o) (few : parts.length ≤ 8388608) :
    KeepsSound simd (Select.stagePayload i parts) fun _ => True := by
  refine .bind fresh_sound fun p _ => .bind (.forM fun entry member => ?_) fun _ _ => .pure trivial
  have index := List.snd_lt_of_mem_zipIdx member
  refine emit_sound (move_sound modest.some_ modest.few rfl rfl (short entry.1 (List.fst_mem_of_mem_zipIdx member)) rfl
    (show (parts.length : Int) ≤ 8388608 by omega) ?_ nofun)
  unfold HasPart RegisterOperand.spans
  dsimp only
  split <;> omega

theorem atomic_sound (c : Context) (modest : Modest simd i) (spacious : Spacious (i.width simd) i)
    (op : i.op = .atomic) :
    KeepsSound simd (Select.atomic c i) fun _ => True := by
  have message (few : i.src.length ≤ 8388608) : KeepsSound simd (do
      let p ← Select.stagePayload i i.src
      Select.emit
        { op := .atomicMessage, dst := i.dst, src := [.payload p .ud i.src.length],
          execWidth := i.execWidth, block := i.block, predicated := i.predicated, atomic := i.atomic,
          surface := i.surface }) fun _ => True := by
    refine .bind (stagePayload_sound modest (fun o member => modest.short o (List.mem_cons_of_mem _ member)) few)
      fun p _ => emit_sound (plain_sound ⟨modest.some_, modest.few, ?_⟩ rfl nofun fun _ x named => ?_)
    · simp only [List.forall_mem_cons, List.not_mem_nil, false_implies, implies_true, and_true]
      refine ⟨modest.short _ List.mem_cons_self, short_register modest.lanes ?_⟩
      change (i.src.length : Int) ≤ 8388608
      omega
    · have room := spacious.dst x named
      rw [op] at room
      exact ⟨room.1, .response (.inl rfl) room.2⟩
  unfold Select.atomic
  dsimp only
  split
  · exact .refuse fun _ => .stop _ _
  · refine .refuse fun _ => .refuse fun _ => .bind (.lift _) fun _ counted => ?_
    have count : i.src.length = 1 + i.atomic.operands := by
      unfold Select.wantSources at counted
      split at counted
      · assumption
      · cases counted
    have few : i.atomic.operands ≤ 2 := by
      unfold AtomicOp.operands
      split <;> decide
    split
    · exact .stop _ _
    · exact message (by omega)

theorem load_sound (modest : Modest simd i) (spacious : Spacious (i.width simd) i) (op : i.op = .load) :
    KeepsSound simd (Select.load i) fun _ => True := by
  refine .refuse fun _ => .bind (vector_sound modest (modest.source 0)) fun address ⟨short, _⟩ =>
    emit_sound (plain_sound ⟨modest.some_, modest.few, ?_⟩ (by unfold workspace; rw [op])
      (by rw [op]; nofun) fun _ x named => ?_)
  · simp only [List.forall_mem_cons, List.not_mem_nil, false_implies, implies_true, and_true]
    exact ⟨modest.short _ List.mem_cons_self, short⟩
  · have room := spacious.dst x named
    rw [op] at room
    exact ⟨room.1, .response (.inr op) room.2⟩

theorem store_sound (modest : Modest simd i) : KeepsSound simd (Select.store i) fun _ => True := by
  refine .refuse fun _ => .bind (stagePayload_sound modest ?_ (show 2 ≤ 8388608 by decide)) fun p _ =>
    emit_sound (plain_sound ⟨modest.some_, modest.few, ?_⟩ rfl nofun nofun)
  · simp only [List.forall_mem_cons, List.not_mem_nil, false_implies, implies_true, and_true]
    exact ⟨modest.source 0, modest.source 1⟩
  · simp only [List.forall_mem_cons, List.not_mem_nil, false_implies, implies_true, and_true]
    exact ⟨short_absent _ .ud, short_register modest.lanes (show (2 : Int) ≤ 8388608 by decide)⟩

theorem indirectMov_sound (c : Context) (modest : Modest simd i) (spacious : Spacious (i.width simd) i)
    (op : i.op = .indirectMov) : KeepsSound simd (Select.indirectMov c i) fun _ => True := by
  have lanes : onLanes i.op = true := by rw [op]; rfl
  have sound : Sound simd i := lanes_sound modest lanes (spacious.lanes (.inl lanes))
  unfold Select.indirectMov
  dsimp only
  split
  · exact .refuse fun _ => .refuse fun _ => .refuse fun _ => emit_sound sound
  · exact .stop _ _

theorem motion_sound (c : Context) (simd_ : c.simdWidth = simd) (modest : Modest simd i) :
    KeepsSound simd (Select.motion c i) fun _ => True := by
  unfold Select.motion
  dsimp only
  refine .refuse fun _ => .refuse fun listed => .refuse fun sixteen => ?_
  rw [simd_, not_not] at sixteen
  split
  · exact .throw _
  · rename_i d named
    refine .bind (.lift _) fun _ counted => ?_
    have count : i.src.length = i.motion.payloadRegs * 8 := by
      unfold Select.wantSources at counted
      split at counted
      · assumption
      · cases counted
    have registers : i.motion.payloadRegs = 8 ∨ i.motion.payloadRegs = 6 := by
      revert listed
      cases i.motion <;> simp [Motion.payloadRegs]
    split
    · exact .stop _ _
    · refine .bind fresh_sound fun p _ => emit_sound ⟨⟨fun _ x target => ?_, fun y member => ?_⟩,
        Modest.counted ⟨modest.some_, modest.few, ?_⟩, nofun⟩
      · cases register_of_named target
        refine ⟨hasPart_whole rfl, .motion _ _ i.motion.payloadRegs rfl ?_ rfl (by omega) (by omega) ?_⟩
        · change 32 * 7 ≤ room { reg := d.reg, type := .ud, span := (4 : Nat) } (i.width simd)
          rw [dwords_room _ (by decide), sixteen]
          decide
        · change _ ≤ room { reg := p, type := .ud, span := (i.motion.payloadRegs / 2 : Nat) } (i.width simd)
          rw [dwords_room _ (by omega), sixteen]
          rcases registers with eight | six
          · rw [eight]
            decide
          · rw [six]
            decide
      · cases List.mem_singleton.mp member
        exact hasPart_whole rfl
      · simp only [List.forall_mem_cons]
        refine ⟨short_register modest.lanes (show (4 : Int) ≤ 8388608 by decide), short_register modest.lanes ?_,
          fun o member => modest.short o (List.mem_cons_of_mem _ member)⟩
        change ((i.motion.payloadRegs / 2 : Nat) : Int) ≤ 8388608
        omega

/-- A register with room for what fences answer. -/
def Fence (dst : Operand) : Prop := ∃ x, dst = .register x ∧ Short 8 dst ∧ HasPart x ∧ 32 ≤ room x 8

theorem barrier_sound (spacious : Spacious (i.width simd) i) (short : Short 8 i.dst) (op : i.op = .barrier) :
    KeepsSound simd (Select.barrier i) fun _ => True := by
  have eight : (0 : Int) ≤ 8 ∧ (8 : Int) ≤ 16 := by decide
  -- The instruction's own fence or an added one, and an added payload.
  have emitted {dst : Operand} {p : VReg} (target : Fence dst) :
      KeepsSound simd (Select.emit { i with execWidth := 8, dst := dst, src := [.vector p .ud] }) fun _ => True := by
    obtain ⟨x, rfl, short, part, fits⟩ := target
    refine emit_sound ⟨⟨fun _ z named => ?_, fun z member => ?_⟩,
      Modest.counted ⟨show (0 : Int) < 8 by decide, show (8 : Int) ≤ 16 by decide, ?_⟩, fun spill => ?_⟩
    · cases register_of_named named
      exact ⟨part, .barrier _ op rfl fits [] rfl (show (32 : Int) ≤ 32 * 1 by decide)⟩
    · unfold workspace at member
      dsimp only at member
      rw [op] at member
      cases List.mem_singleton.mp member
      exact hasPart_whole rfl
    · simp only [List.forall_mem_cons, List.not_mem_nil, false_implies, implies_true, and_true]
      exact ⟨short, short_vector eight p .ud⟩
    · cases op.symm.trans spill
  have payload : KeepsSound simd ((fun t => [t]) <$> Select.temp .ud) fun src => ∃ p, src = [.vector p .ud] := by
    refine .map temp_sound ?_
    rintro v ⟨p, rfl⟩
    exact ⟨p, rfl⟩
  have fence : KeepsSound simd (Select.temp .ud) Fence := by
    refine temp_sound.mono ?_
    rintro v ⟨r, rfl⟩
    exact ⟨_, rfl, short_vector eight r .ud, hasPart_whole rfl, show (32 : Int) ≤ 32 * 1 by decide⟩
  have own (register : i.dst.isRegister = true) : Fence i.dst := by
    obtain ⟨x, named⟩ := Option.isSome_iff_exists.mp register
    have room := spacious.dst x named
    rw [op] at room
    exact ⟨x, register_of_named named, short, room⟩
  unfold Select.barrier
  dsimp only
  simp only [spacious.payload op, Bool.false_eq_true, if_false]
  split
  · rename_i register
    refine .bind (Q := Fence) (.pure (own register)) fun _ target => .bind payload fun _ made => ?_
    obtain ⟨p, rfl⟩ := made
    exact emitted target
  · refine .bind fence fun _ target => .bind payload fun _ made => ?_
    obtain ⟨p, rfl⟩ := made
    exact emitted target

theorem stackSetup_sound (c : Context) (wide : simd = 8 ∨ simd = 16) :
    KeepsSound simd (Select.stackSetup c) fun _ => True := by
  refine .bind Select.Keeps.get fun k _ => .bind fresh_sound fun tmp _ => .bind fresh_sound fun lane _ => emit_sound ?_
  have some_ : 0 < simd := by omega
  have few : simd ≤ 16 := by omega
  have lanes : 0 ≤ simd ∧ simd ≤ 16 := by omega
  refine ⟨⟨fun _ x named => ?_, fun y member => ?_⟩, Modest.counted ⟨some_, few, ?_⟩, nofun⟩
  · cases register_of_named named
    refine ⟨hasPart_whole rfl, .stack _ _ rfl rfl ⟨wide, rfl, ?_, ⟨rfl, rfl⟩, ⟨rfl, rfl⟩⟩⟩
    change (if k.pointerSize = 8 then Element.ul else .ud) = .ud ∨ (if k.pointerSize = 8 then Element.ul else .ud) = .ul
    split
    · exact .inr rfl
    · exact .inl rfl
  · simp only [workspace, List.mem_cons, List.not_mem_nil, or_false] at member
    rcases member with same | same <;> cases same <;> exact hasPart_whole rfl
  · simp only [List.forall_mem_cons, List.not_mem_nil, false_implies, implies_true, and_true]
    exact ⟨short_vector lanes _ _, short_scalar lanes _ _, short_vector lanes _ _⟩

/-- Selection keeps room for what is written, whatever it makes of an instruction. -/
theorem lower_sound (c : Context) (simd_ : c.simdWidth = simd) (some_ : 0 < i.width simd) (few : i.width simd ≤ 16)
    (spacious : Spacious (i.width simd) i) (sized : Sized (i.width simd) i) :
    KeepsSound simd (Select.lower c i) fun _ => True := by
  have short (o : Operand) (member : o ∈ i.dst :: i.src) :
      Short (if i.op = .barrier then 8 else i.width simd) o := by
    intro x named
    refine sized x (SpillGroups.mem_registers.mpr ?_)
    rcases List.mem_cons.mp member with rfl | source
    · exact .inl named
    · exact .inr ⟨o, source, named⟩
  by_cases fence : i.op = .barrier
  · rw [fence, if_pos rfl] at short
    have selected := barrier_sound spacious (short _ List.mem_cons_self) fence
    unfold Select.lower
    rw [fence]
    exact selected
  rw [if_neg fence] at short
  have modest : Modest simd i := ⟨some_, few, short⟩
  have given (op : onLanes i.op = true) : Sound simd i :=
    lanes_sound modest op (spacious.lanes (.inl op))
  unfold Select.lower
  cases op : i.op
  all_goals dsimp only [Select.sourceCount?]
  case mul =>
    refine .bind (.lift _) fun _ _ => ?_
    split
    · rename_i wide
      simp only [Bool.and_eq_true] at wide
      have qwords : i.dst.type.size = 8 := by
        have int64 := wide.1
        revert int64
        cases i.dst.type <;> first | exact fun _ => rfl | nofun
      exact product_sound modest spacious (.inl ⟨rfl, rfl⟩) (.inl op) rfl qwords
    · exact emit_sound (given (by rw [op]; rfl))
  case mulHi =>
    refine .bind (.lift _) fun _ _ => ?_
    unfold Select.mulHi
    split
    · rename_i type
      exact product_sound modest spacious (.inr ⟨rfl, rfl⟩) (.inr op) type rfl
    · exact .throw _
  case mad | lrp => exact .bind (.lift _) fun _ _ => ternary_sound c modest spacious (by rw [op]; rfl)
  case atomic => exact atomic_sound c modest spacious op
  case load => exact .bind (.lift _) fun _ _ => load_sound modest spacious op
  case store => exact .bind (.lift _) fun _ _ => store_sound modest
  case indirectMov => exact .bind (.lift _) fun _ _ => indirectMov_sound c modest spacious op
  case barrier => exact absurd op fence
  case motion => exact motion_sound c simd_ modest
  case compare =>
    refine .bind (.lift _) fun _ _ => ?_
    split
    · exact emit_sound (given (by rw [op]; rfl))
    · exact .throw _
  case mul64 | mulHi64 | atomicMessage | storeMessage | stackSetup | reload | spill | motionMessage | unlisted =>
    exact .throw _
  case nop | label | jump =>
    refine .bind (.lift _) fun _ _ => emit_sound (plain_sound modest ?_ (by rw [op]; nofun) fun writes => ?_)
    · unfold workspace
      rw [op]
    · rw [op] at writes
      cases writes
  case endThread =>
    refine .bind (.lift _) fun _ _ => emit_sound (plain_sound modest ?_ (by rw [op]; nofun) fun _ x named => ?_)
    · unfold workspace
      rw [op]
    · have room := spacious.dst x named
      rw [op] at room
      exact room.elim
  all_goals exact .bind (.lift _) fun _ _ => emit_sound (given (by rw [op]; rfl))

end

/-! ## Selected kernels -/

section
variable {c : Context} {k : Kernel}

/-- If the sizes of registers are 32-bit numbers in a kernel without pins and what is written has room, the same holds
of all that is selected. -/
theorem select_sound (wide : c.simdWidth = 8 ∨ c.simdWidth = 16)
    (spacious : ∀ i ∈ c.kernel.code, Spacious (lanesOf c.simdWidth i) i)
    (sized : ∀ i ∈ c.kernel.code, Sized (lanesOf c.simdWidth i) i) (unpinned : ∀ r, c.kernel.pin? r = none)
    (selected : c.select = .ok k) : Selected c.simdWidth k := by
  refine Select.Keeps.select selected ⟨by simp [Kernel.cloneEmpty], rfl, unpinned⟩ (stackSetup_sound c wide)
    fun i member _ => ?_
  have positive : 0 < c.simdWidth := by omega
  have lanes : (Select.narrowed c i).width c.simdWidth = lanesOf c.simdWidth i :=
    widthOf_narrowed c (k := { c.kernel with simdWidth := c.simdWidth }) rfl positive i
  obtain ⟨op, dst, src, -⟩ := StraightLine.narrowed_same c i
  have some_ : 0 < lanesOf c.simdWidth i := by
    unfold lanesOf Instruction.width
    split <;> omega
  refine lower_sound c rfl ?_ ?_ ⟨?_, ?_⟩ ?_
  · rw [lanes]
    exact some_
  · rw [lanes]
    unfold lanesOf
    omega
  · rw [lanes, op, dst]
    exact (spacious i member).dst
  · rw [op, src]
    exact (spacious i member).payload
  · unfold Sized Instruction.registers
    rw [lanes, op, dst, src]
    exact sized i member

end

end GpuCodegen.Footprints
