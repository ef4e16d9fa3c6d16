import GpuCodegen.Lowering.Selection
import GpuCodegen.Proofs.FailureCauses
import GpuCodegen.Proofs.SpillTemporaries

/-! Selection as a program of few operations. It reads the kernel, appends instructions on registers that it
knows, hands out registers and fails; everything else it does is pure. What holds of these operations and
carries over to sequences therefore holds of selection, and a run of it hands out its registers in an order. -/

namespace GpuCodegen

/-- The registers that the instructions of a kernel name. -/
def Kernel.named (k : Kernel) : List VReg := k.code.flatMap fun i => i.registers.map RegisterOperand.reg

theorem Kernel.mem_named {k : Kernel} {r : VReg} : r ∈ k.named ↔ ∃ i ∈ k.code, ∃ x ∈ i.registers, x.reg = r := by
  simp [Kernel.named]

namespace Select
open Failures Outcome

/-! ## Operations -/

/-- Causes that are not about places. -/
def Placeless (c : Cause) : Prop := ∀ fault, c ≠ .placement fault

/-- Whether the register of an operand, if it has one, is known. -/
def Known (known : List VReg) (o : Operand) : Prop := ∀ x, o.register? = some x → x.reg ∈ known

/-- An instruction on known registers. -/
structure Draws (known : List VReg) (i : Instruction) : Prop where
  dst : Known known i.dst
  src : ∀ o ∈ i.src, Known known o

/-- A part of selection whose failures are at a position of the kernel. -/
def located {α : Type} (position : Nat) (m : Select α) : Select α := fun k =>
  (m.run k).mapError fun d => d.atPosition position

/-- The programs that selection consists of, by the registers that are known before, and what holds of the
registers known afterwards and the result. Handing out a register makes it known. Whatever the programs fail
for is not about places. -/
inductive Program : {α : Type} → List VReg → Select α → (List VReg → α → Prop) → Prop where
  | pure {α : Type} {known : List VReg} {Q : List VReg → α → Prop} {a : α} :
      Q known a → Program known (pure a) Q
  | throw {α : Type} {known : List VReg} {Q : List VReg → α → Prop} {d : Diagnostic} :
      Placeless d.cause → Program known (throw d) Q
  | lift {α : Type} {known : List VReg} {Q : List VReg → α → Prop} {x : Except Diagnostic α} :
      Encodes Placeless x → (∀ a, Q known a) → Program known (liftM x) Q
  | get {known : List VReg} {Q : List VReg → Kernel → Prop} :
      (∀ k : Kernel, k.stackPointer ∈ known → Q known k) → Program known get Q
  | emit {known : List VReg} {Q : List VReg → Unit → Prop} {i : Instruction} :
      Draws known i → Q known () → Program known (Select.emit i) Q
  | fresh {known : List VReg} {Q : List VReg → VReg → Prop} :
      (∀ r, Q (known ++ [r]) r) → Program known Select.fresh Q
  | bind {α β : Type} {known : List VReg} {P : List VReg → α → Prop} {Q : List VReg → β → Prop} {m : Select α}
      {f : α → Select β} : Program known m P →
      (∀ more a, known ⊆ more → P more a → Program more (f a) Q) → Program known (m >>= f) Q
  | located {α : Type} {known : List VReg} {Q : List VReg → α → Prop} {m : Select α} (position : Nat) :
      Program known m Q → Program known (Select.located position m) Q

/-- Runs of selection, with the numbers taken from the kernel and the registers handed out, both in order. The
number of the stack pointer is taken and passed over. -/
inductive Run : {α : Type} → Select α → Kernel → α → Kernel → List VReg → List VReg → Prop where
  | pure {α : Type} (a : α) (k : Kernel) : Run (pure a : Select α) k a k [] []
  | lift {α : Type} {x : Except Diagnostic α} {a : α} (k : Kernel) :
      x = .ok a → Run (liftM x : Select α) k a k [] []
  | get (k : Kernel) : Run (get : Select Kernel) k k k [] []
  | emit (i : Instruction) (k : Kernel) : Run (Select.emit i) k () (k.emit i) [] []
  | fresh {k : Kernel} : k.freshRegister ≠ k.stackPointer →
      Run Select.fresh k k.freshRegister k.allocRegister [k.freshRegister] [k.freshRegister]
  | skip {k : Kernel} : k.freshRegister = k.stackPointer →
      Run Select.fresh k k.allocRegister.freshRegister k.allocRegister.allocRegister
        [k.freshRegister, k.allocRegister.freshRegister] [k.allocRegister.freshRegister]
  | bind {α β : Type} {m : Select α} {f : α → Select β} {k t k' : Kernel} {a : α} {b : β}
      {taken more handed others : List VReg} : Run m k a t taken handed → Run (f a) t b k' more others →
      Run (m >>= f) k b k' (taken ++ more) (handed ++ others)
  | located {α : Type} {m : Select α} (position : Nat) {k k' : Kernel} {a : α} {taken handed : List VReg} :
      Run m k a k' taken handed → Run (Select.located position m) k a k' taken handed

/-- Selecting an instruction is checking its types and lowering it, with failures at its position. -/
theorem step_located (c : Context) (entry : Instruction × Nat) :
    Select.step c entry = located entry.2 (do
      liftM (checkTypes c (narrowed c entry.1))
      lower c (narrowed c entry.1)) := by
  funext k
  change _ = (StateT.run (liftM (checkTypes c (narrowed c entry.1)) >>= fun _ =>
    lower c (narrowed c entry.1)) k).mapError _
  unfold Select.step
  dsimp only
  cases checkTypes c (narrowed c entry.1) with
  | error d => rfl
  | ok u =>
    change _ = ((lower c (narrowed c entry.1)).run k).mapError _
    cases (lower c (narrowed c entry.1)).run k <;> rfl

/-- From one kernel to another, the instructions added are on known registers. -/
def Drawn (known : List VReg) (k k' : Kernel) : Prop := k'.named ⊆ k.named ++ known

section
variable {known more : List VReg} {k t k' : Kernel} {i : Instruction} {o : Operand} {r : VReg} {type : Element}

theorem Drawn.same (code : k'.code = k.code) : Drawn known k k' := by
  have same : k'.named = k.named := by rw [Kernel.named, code, ← Kernel.named]
  rw [Drawn, same]
  exact List.subset_append_left _ _

theorem Drawn.mono (drawn : Drawn known k k') (grows : known ⊆ more) : Drawn more k k' :=
  List.Subset.trans drawn
    (List.append_subset.mpr ⟨List.subset_append_left _ _, List.Subset.trans grows (List.subset_append_right _ _)⟩)

theorem Drawn.trans (first : Drawn known k t) (second : Drawn known t k') : Drawn known k k' := by
  refine List.Subset.trans second fun r member => ?_
  rcases List.mem_append.mp member with before | here
  · exact first before
  · exact List.mem_append_right _ here

theorem Draws.registers (draws : Draws known i) : ∀ x ∈ i.registers, x.reg ∈ known := by
  intro x member
  rcases SpillGroups.mem_registers.mp member with named | ⟨o, source, named⟩
  · exact draws.dst x named
  · exact draws.src o source x named

theorem Draws.emit (draws : Draws known i) (k : Kernel) : Drawn known k (k.emit i) := by
  have named : (k.emit i).named = k.named ++ i.registers.map RegisterOperand.reg := by
    simp [Kernel.named, Kernel.emit]
  rw [Drawn, named]
  refine List.append_subset.mpr ⟨List.subset_append_left _ _, fun r member => List.mem_append_right _ ?_⟩
  obtain ⟨x, operand, rfl⟩ := List.mem_map.mp member
  exact draws.registers x operand

theorem draws_named (member : i ∈ k.code) : Draws k.named i := by
  constructor
  · exact fun x named => Kernel.mem_named.mpr ⟨i, member, x, SpillGroups.mem_registers.mpr (.inl named), rfl⟩
  · exact fun o source x named =>
      Kernel.mem_named.mpr ⟨i, member, x, SpillGroups.mem_registers.mpr (.inr ⟨o, source, named⟩), rfl⟩

theorem Known.mono (before : Known known o) (grows : known ⊆ more) : Known more o :=
  fun x named => grows (before x named)

theorem Draws.mono (draws : Draws known i) (grows : known ⊆ more) : Draws more i :=
  ⟨draws.dst.mono grows, fun o member => (draws.src o member).mono grows⟩

theorem known_absent : Known known (.absent type) := by
  rintro x ⟨⟩

/-- An operand on a known register, however much of the register it names. -/
theorem known_register {x : RegisterOperand} (member : x.reg ∈ known) : Known known (.register x) := by
  intro y named
  rw [Operand.register?] at named
  split at named
  · cases named
  · cases named
    exact member

theorem Draws.source (draws : Draws known i) (n : Nat) : Known known (i.src.getD n default) := by
  rw [List.getD_eq_getElem?_getD]
  cases here : i.src[n]? with
  | none => exact known_absent
  | some o => exact draws.src o (List.mem_of_getElem? here)

theorem known_one (first : Known known o) : ∀ p ∈ [o], Known known p := by
  simpa using first

end

namespace Program

section
variable {α β : Type} {known : List VReg} {m : Select α} {Q : List VReg → α → Prop}

/-- What a program of selection does is a run of it. -/
theorem runs (program : Program known m Q) {k k' : Kernel} {a : α} (pointer : k.stackPointer ∈ known)
    (ran : m.run k = .ok (a, k')) : ∃ taken handed, Run m k a k' taken handed ∧ Q (known ++ handed) a ∧
      Drawn (known ++ handed) k k' ∧ k'.stackPointer = k.stackPointer := by
  induction program generalizing k k' with
  | pure holds =>
    cases ran
    exact ⟨_, _, .pure _ k, by simpa using holds, .same rfl, rfl⟩
  | throw kind => cases ran
  | @lift _ _ _ x kind holds =>
    cases outcome : x with
    | error d =>
      rw [outcome] at ran
      cases ran
    | ok v =>
      rw [outcome] at ran
      cases ran
      exact ⟨_, _, .lift k rfl, by simpa using holds _, .same rfl, rfl⟩
  | get holds =>
    cases ran
    exact ⟨_, _, .get k, by simpa using holds k pointer, .same rfl, rfl⟩
  | emit draws holds =>
    cases ran
    exact ⟨_, _, .emit _ k, by simpa using holds, by simpa using draws.emit k, rfl⟩
  | fresh holds =>
    unfold Select.fresh at ran
    rw [StateT.run_bind] at ran
    change (if k.freshRegister = k.stackPointer then _ else _ : Select VReg).run k = _ at ran
    split at ran
    · rename_i taken
      cases ran
      exact ⟨_, _, .skip taken, holds _, .same rfl, rfl⟩
    · rename_i other
      cases ran
      exact ⟨_, _, .fresh other, holds _, .same rfl, rfl⟩
  | bind _ _ first next =>
    rw [StateT.run_bind, bind_ok] at ran
    obtain ⟨⟨a, t⟩, firstRan, nextRan⟩ := ran
    obtain ⟨taken, handed, here, holds, drawn, same⟩ := first pointer firstRan
    -- The rest knows what the first part handed out.
    obtain ⟨more, others, later, result, drawn', same'⟩ := next _ a (List.subset_append_left _ handed) holds
      (by rw [same]; exact List.mem_append_left _ pointer) nextRan
    rw [List.append_assoc] at result drawn'
    refine ⟨_, _, .bind here later, result, (drawn.mono ?_).trans drawn', same'.trans same⟩
    rw [← List.append_assoc]
    exact List.subset_append_left _ others
  | located position _ ih =>
    obtain ⟨taken, handed, here, rest⟩ := ih pointer (mapError_ok.mp ran)
    exact ⟨taken, handed, .located position here, rest⟩

/-- No program of selection fails for places. -/
theorem placeless (program : Program known m Q) {k : Kernel} (pointer : k.stackPointer ∈ known) :
    Encodes Placeless (m.run k) := by
  induction program generalizing k with
  | pure holds => exact .pure _
  | throw kind => exact .error kind
  | lift kind holds => exact .bind kind fun _ _ => .pure _
  | get holds => exact .ok _
  | emit draws holds => exact .ok _
  | fresh holds =>
    unfold Select.fresh
    rw [StateT.run_bind]
    change Encodes Placeless ((if k.freshRegister = k.stackPointer then _ else _ : Select VReg).run k)
    split <;> exact .ok _
  | bind program _ first next =>
    rw [StateT.run_bind]
    refine .bind (first pointer) fun r ran => ?_
    -- The rest is a program only for results that the first part can have.
    obtain ⟨-, handed, -, holds, -, same⟩ := program.runs pointer ran
    exact next _ r.1 (List.subset_append_left _ handed) holds
      (by rw [same]; exact List.mem_append_left _ pointer)
  | located position _ ih => exact .mapError (fun _ => rfl) (ih pointer)

theorem stop {d : Diagnostic} (kind : Placeless d.cause) (f : β → Select α) :
    Program known (MonadExcept.throw d >>= f) Q := by
  have same : (MonadExcept.throw d >>= f : Select α) = MonadExcept.throw d := rfl
  rw [same]
  exact .throw kind

theorem refuse {p : Prop} [Decidable p] {d : Diagnostic} {f : β → Select α} (rest : Program known m Q)
    (kind : Placeless d.cause) : Program known (if p then (MonadExcept.throw d >>= f) else m) Q := by
  split
  · exact .stop kind f
  · exact rest

theorem map {f : α → β} {R : List VReg → β → Prop} (program : Program known m Q)
    (result : ∀ more a, Q more a → R more (f a)) : Program known (f <$> m) R := by
  rw [← bind_pure_comp]
  exact .bind program fun more a _ holds => .pure (result more a holds)

/-- Operands one after the other; those that are known stay known. -/
theorem mapM {f : α → Select Operand} {as : List α}
    (each : ∀ a ∈ as, ∀ more, known ⊆ more → Program more (f a) Known) :
    Program known (as.mapM f) fun more os => ∀ o ∈ os, Known more o := by
  induction as generalizing known with
  | nil => exact .pure (by simp)
  | cons a as ih =>
    rw [List.mapM_cons]
    refine .bind (each a List.mem_cons_self known (List.Subset.refl _)) fun more o grows here => ?_
    refine .bind
      (ih fun b later most grows' => each b (List.mem_cons_of_mem _ later) most (List.Subset.trans grows grows')) ?_
    intro most os grows' rest
    exact .pure (List.forall_mem_cons.mpr ⟨here.mono grows', rest⟩)

theorem forM {f : α → Select Unit} {as : List α}
    (each : ∀ a ∈ as, ∀ more, known ⊆ more → Program more (f a) fun _ _ => True) :
    Program known (as.forM f) fun _ _ => True := by
  induction as generalizing known with
  | nil => exact .pure trivial
  | cons a as ih =>
    refine .bind (each a List.mem_cons_self known (List.Subset.refl _)) fun more _ grows _ => ?_
    exact ih fun b later most grows' => each b (List.mem_cons_of_mem _ later) most (List.Subset.trans grows grows')

end

/-! ## The parts of selection -/

section
variable {known : List VReg} {i : Instruction} {o : Operand}

/-- Appending an instruction as the last thing. -/
theorem append (draws : Draws known i) : Program known (Select.emit i) fun _ _ => True := .emit draws trivial

theorem wantSources (i : Instruction) (n : Nat) :
    Program known (liftM (Select.wantSources i n) : Select Unit) fun _ _ => True := by
  refine .lift ?_ fun _ => trivial
  unfold Select.wantSources
  split
  · exact .ok _
  · exact .error (by rintro _ ⟨⟩)

theorem checkTypes (c : Context) (i : Instruction) :
    Program known (liftM (Select.checkTypes c i) : Select Unit) fun _ _ => True := by
  have type (t : Element) (immediate : Bool) : Encodes Placeless (Select.checkType c t immediate) := by
    unfold Select.checkType
    repeat' split
    all_goals first | exact .ok _ | exact .error (by rintro _ ⟨⟩)
  have sources (os : List Operand) :
      Encodes Placeless (os.forM fun o => Select.checkType c o.type o.isImmediate) := by
    induction os with
    | nil => exact .pure _
    | cons o os ih => exact .bind (type _ _) fun _ _ => ih
  refine .lift ?_ fun _ => trivial
  unfold Select.checkTypes
  split
  · exact .bind (type _ _) fun _ _ => sources _
  · exact sources _

theorem register : Program known Select.fresh fun more r => r ∈ more := .fresh fun r => by simp

theorem temp (t : Element) : Program known (Select.temp t) Known :=
  .bind .register fun _ _ _ member => .pure (known_register member)

theorem vector (i : Instruction) (source : Known known o) : Program known (Select.vector o i) Known := by
  unfold Select.vector
  split
  · exact .pure source
  · refine .bind (.temp _) fun more v grows here => ?_
    exact .bind (.append ⟨here, known_one (source.mono grows)⟩) fun _ _ grows' _ => .pure (here.mono grows')

theorem scalar (i : Instruction) (source : Known known o) : Program known (Select.scalar o i) Known := by
  unfold Select.scalar
  split
  · refine .bind .register fun more r grows member => ?_
    have here : Known more (.scalar r o.type) := known_register member
    exact .bind (.append ⟨here, known_one (source.mono grows)⟩) fun _ _ grows' _ => .pure (here.mono grows')
  · exact .pure source

theorem copyBack {result : Operand} (target : Known known i.dst) (source : Known known result) :
    Program known (Select.copyBack i result) fun _ _ => True := by
  unfold Select.copyBack
  split
  · split
    · exact .pure trivial
    · exact .append ⟨target, known_one source⟩
  · exact .pure trivial

theorem product (op : Opcode) (scratch : Nat) (t : Element) (draws : Draws known i) :
    Program known (Select.product op scratch i t) fun _ _ => True := by
  unfold Select.product
  refine .bind (.vector i (draws.source 0)) fun known₁ a grows₁ left => ?_
  replace draws := draws.mono grows₁
  refine .bind (.vector i (draws.source 1)) fun known₂ b grows₂ right => ?_
  replace draws := draws.mono grows₂
  have expands (more : List VReg) (dst : Operand) (grows : known₂ ⊆ more) (here : Known more dst) {last : Select Unit}
      (ends : ∀ most, more ⊆ most → Program most last fun _ _ => True) :
      Program more (do
        let temps ← (List.replicate scratch Element.ul).mapM Select.temp
        Select.emit
          { op := op, dst := dst, src := [a, b] ++ temps, execWidth := i.execWidth, block := i.block,
            predicated := i.predicated }
        last) fun _ _ => True := by
    refine .bind (.mapM fun t _ _ _ => .temp t) fun known₃ temps grows₃ others => ?_
    have kept := List.Subset.trans grows grows₃
    have sources : ∀ o ∈ [a, b] ++ temps, Known known₃ o := by
      simp only [List.cons_append, List.nil_append, List.forall_mem_cons]
      exact ⟨(left.mono grows₂).mono kept, right.mono kept, others⟩
    exact .bind (.append ⟨here.mono grows₃, sources⟩) fun most _ grows₄ _ =>
      ends most (List.Subset.trans grows₃ grows₄)
  dsimp only
  split
  · refine .bind (.temp t) fun more dst grows here => expands more dst grows here fun most grows' => ?_
    exact .copyBack ((draws.dst.mono grows).mono grows') (here.mono grows')
  · exact .bind (.pure draws.dst) fun more dst grows here => expands more dst grows here fun _ _ => .pure trivial

theorem stagePayload (i : Instruction) {parts : List Operand} (sources : ∀ o ∈ parts, Known known o) :
    Program known (Select.stagePayload i parts) fun more r => r ∈ more := by
  refine .bind .register fun more r grows member => ?_
  refine .bind (.forM fun part here more' grows' => ?_) fun _ _ grows' _ => .pure (grows' member)
  refine .append ⟨known_register (grows' member), known_one ?_⟩
  exact ((sources _ (List.fst_mem_of_mem_zipIdx here)).mono grows).mono grows'

variable (c : Context) (draws : Draws known i)
include draws

theorem ternary : Program known (Select.ternary c i) fun _ _ => True := by
  refine .refuse (.bind (.mapM fun o member more grows => .scalar i ((draws.src o member).mono grows)) ?_)
    (by rintro _ ⟨⟩)
  exact fun _ _ grows sources => .append ⟨draws.dst.mono grows, sources⟩

theorem load : Program known (Select.load i) fun _ _ => True := by
  refine .refuse (.bind (.vector i (draws.source 0)) fun _ _ grows address => ?_) (by rintro _ ⟨⟩)
  exact .append ⟨draws.dst.mono grows, known_one address⟩

theorem store : Program known (Select.store i) fun _ _ => True := by
  have parts : ∀ o ∈ [i.src.getD 0 default, i.src.getD 1 default], Known known o := by
    simpa using ⟨draws.source 0, draws.source 1⟩
  refine .refuse (.bind (.stagePayload i parts) fun _ _ _ member => ?_) (by rintro _ ⟨⟩)
  exact .append ⟨known_absent, known_one (known_register member)⟩

theorem atomic : Program known (Select.atomic c i) fun _ _ => True := by
  unfold Select.atomic
  dsimp only
  split
  · exact .refuse (.stop (by rintro _ ⟨⟩) _) (by rintro _ ⟨⟩)
  · refine .refuse (.refuse (.bind (.wantSources i _) fun _ _ grows _ => ?_) (by rintro _ ⟨⟩)) (by rintro _ ⟨⟩)
    replace draws := draws.mono grows
    split
    · exact .stop (by rintro _ ⟨⟩) _
    · refine .bind (.stagePayload i draws.src) fun _ _ grows member => ?_
      exact .append ⟨draws.dst.mono grows, known_one (known_register member)⟩

theorem indirectMov : Program known (Select.indirectMov c i) fun _ _ => True := by
  unfold Select.indirectMov
  dsimp only
  split
  · exact .refuse (.refuse (.refuse (.append draws) (by rintro _ ⟨⟩)) (by rintro _ ⟨⟩)) (by rintro _ ⟨⟩)
  · exact .stop (by rintro _ ⟨⟩) _

theorem motion : Program known (Select.motion c i) fun _ _ => True := by
  unfold Select.motion
  dsimp only
  refine .refuse (.refuse (.refuse ?_ (by rintro _ ⟨⟩)) (by rintro _ ⟨⟩)) (by rintro _ ⟨⟩)
  split
  · exact .throw (by rintro _ ⟨⟩)
  · rename_i dst named
    have written : dst.reg ∈ known := draws.dst dst named
    refine .bind (.wantSources i _) fun _ _ grows _ => ?_
    replace draws := draws.mono grows
    replace written := grows written
    split
    · exact .stop (by rintro _ ⟨⟩) _
    · refine .bind .register fun _ _ grows member => ?_
      refine .append ⟨known_register (grows written), ?_⟩
      exact List.forall_mem_cons.mpr ⟨known_register member, fun o source => (draws.src o source).mono grows⟩

theorem barrier : Program known (Select.barrier i) fun _ _ => True := by
  have sends {more : List VReg} {dst : Operand} {src : List Operand} (here : Known more dst)
      (sources : ∀ o ∈ src, Known more o) :
      Program more (Select.emit { i with execWidth := 8, dst := dst, src := src }) fun _ _ => True :=
    .append ⟨here, sources⟩
  have payload (more : List VReg) (dst : Operand) (grows : known ⊆ more) (here : Known more dst) :
      Program more (if (i.src.getD 0 default).isRegister then
          Pure.pure i.src >>= fun src => Select.emit { i with execWidth := 8, dst := dst, src := src }
        else
          (fun t => [t]) <$> Select.temp .ud >>= fun src =>
            Select.emit { i with execWidth := 8, dst := dst, src := src }) fun _ _ => True := by
    split
    · exact .bind (P := fun more os => ∀ o ∈ os, Known more o) (.pure (draws.mono grows).src)
        fun _ _ grows' sources => sends (here.mono grows') sources
    · exact .bind (P := fun more os => ∀ o ∈ os, Known more o) (.map (.temp .ud) fun _ _ => known_one)
        fun _ _ grows' sources => sends (here.mono grows') sources
  unfold Select.barrier
  dsimp only
  split
  · exact .bind (.pure draws.dst) payload
  · exact .bind (.temp .ud) payload

omit draws in
theorem stackSetup : Program known (Select.stackSetup c) fun _ _ => True := by
  refine .bind (P := fun more k => k.stackPointer ∈ more) (.get fun _ => id) fun _ k _ pointer => ?_
  refine .bind .register fun _ tmp grows member => .bind .register fun _ lane grows' member' => ?_
  refine .append ⟨known_register (grows' (grows pointer)), List.forall_mem_cons.mpr ⟨?_, known_one ?_⟩⟩
  · exact known_register (grows' member)
  · exact known_register member'

theorem lower : Program known (Select.lower c i) fun _ _ => True := by
  have refused (more : List VReg) (op : Opcode) :
      Program more (MonadExcept.throw (.encoding (.notAnInput op)) : Select Unit) fun _ _ => True :=
    .throw (by rintro _ ⟨⟩)
  unfold Select.lower
  cases op : i.op
  all_goals dsimp only [Select.sourceCount?]
  case mul =>
    refine .bind (.wantSources i _) fun _ _ grows _ => ?_
    split
    · exact .product _ _ _ (draws.mono grows)
    · exact .append (draws.mono grows)
  case mulHi =>
    refine .bind (.wantSources i _) fun _ _ grows _ => ?_
    unfold Select.mulHi
    split
    · exact .product _ _ _ (draws.mono grows)
    · exact .throw (by rintro _ ⟨⟩)
  case mad | lrp => exact .bind (.wantSources i _) fun _ _ grows _ => .ternary c (draws.mono grows)
  case atomic => exact .atomic c draws
  case load => exact .bind (.wantSources i _) fun _ _ grows _ => .load (draws.mono grows)
  case store => exact .bind (.wantSources i _) fun _ _ grows _ => .store (draws.mono grows)
  case indirectMov => exact .bind (.wantSources i _) fun _ _ grows _ => .indirectMov c (draws.mono grows)
  case barrier => exact .barrier draws
  case motion => exact .motion c draws
  case compare =>
    refine .bind (.wantSources i _) fun _ _ grows _ => ?_
    split
    · exact .append (draws.mono grows)
    · exact .throw (by rintro _ ⟨⟩)
  case mul64 | mulHi64 | atomicMessage | storeMessage | stackSetup | reload | spill | motionMessage =>
    exact refused _ _
  case unlisted => exact .throw (by rintro _ ⟨⟩)
  all_goals exact .bind (.wantSources i _) fun _ _ grows _ => .append (draws.mono grows)

end

theorem step {known : List VReg} (c : Context) {entry : Instruction × Nat} (draws : Draws known entry.1) :
    Program known (Select.step c entry) fun _ _ => True := by
  have same : Draws known (narrowed c entry.1) := by
    unfold narrowed
    split
    · exact ⟨draws.dst, draws.src⟩
    · exact draws
  rw [step_located]
  exact .located _ (.bind (.checkTypes c _) fun _ _ grows _ => .lower c (same.mono grows))

/-- Selection of a kernel is a program on its stack pointer and the registers that its instructions name. -/
theorem all (c : Context) : Program (c.kernel.stackPointer :: c.kernel.named) (Select.all c) fun _ _ => True := by
  have steps (more : List VReg) (grows : c.kernel.named ⊆ more) :
      Program more (c.kernel.code.zipIdx.forM (Select.step c)) fun _ _ => True :=
    .forM fun _ member _ grows' =>
      .step c (((draws_named (List.fst_mem_of_mem_zipIdx member)).mono grows).mono grows')
  unfold Select.all
  split
  · exact .bind (.stackSetup c) fun more _ grows _ => steps more (List.subset_of_cons_subset grows)
  · exact steps _ (List.subset_cons_self _ _)

end Program

end Select

end GpuCodegen
