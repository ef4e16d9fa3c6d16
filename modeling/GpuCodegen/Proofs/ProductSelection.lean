import GpuCodegen.Proofs.ControlInstructions
import GpuCodegen.Proofs.QwordInstructions

/-! Registers that selection hands out. They come from the numbers no instruction uses yet, so each is new
to the kernel and handed out once. A product is selected as moves into such registers, the product
itself with its temporaries, and a move to a destination that is also a source. -/

namespace GpuCodegen.Products
open Outcome

/-! ## Register numbers -/

theorem register_of_named {o : Operand} {x : RegisterOperand} (named : o.register? = some x) : o = .register x := by
  cases o with
  | absent t => cases named
  | immediate t bits negate absolute => cases named
  | register y =>
    change (if y.reg = VReg.none then none else some y) = some x at named
    by_cases missing : y.reg = VReg.none
    · rw [if_pos missing] at named
      cases named
    · rw [if_neg missing] at named
      cases named
      rfl

/-- The register an operand names has a number below a bound. -/
def Below (bound : Nat) (o : Operand) : Prop := ∀ x, o.register? = some x → x.reg.number.toNat < bound

theorem Below.mono {bound next : Nat} {o : Operand} (below : Below bound o) (grows : bound ≤ next) :
    Below next o :=
  fun x named => Nat.lt_of_lt_of_le (below x named) grows

theorem below_absent (bound : Nat) (t : Element) : Below bound (.absent t) := nofun

theorem below_register {bound : Nat} {x : RegisterOperand} (small : x.reg.number.toNat < bound) :
    Below bound (.register x) := by
  intro y named
  cases register_of_named named
  exact small

/-- The registers an instruction names have numbers below a bound. -/
structure NamesBelow (bound : Nat) (i : Instruction) : Prop where
  dst : Below bound i.dst
  src : ∀ o ∈ i.src, Below bound o

section
variable {bound next : Nat} {i : Instruction}

theorem NamesBelow.mono (names : NamesBelow bound i) (grows : bound ≤ next) : NamesBelow next i :=
  ⟨names.dst.mono grows, fun o member => (names.src o member).mono grows⟩

theorem NamesBelow.source (names : NamesBelow bound i) (n : Nat) : Below bound (i.src.getD n default) := by
  rw [List.getD_eq_getElem?_getD]
  cases here : i.src[n]? with
  | none => exact below_absent bound .ud
  | some o => exact names.src o (List.mem_of_getElem? here)

/-- An instruction of known registers does not raise the next number. -/
theorem NamesBelow.emit {k : Kernel} (names : NamesBelow k.next.toNat i) : (k.emit i).next = k.next := by
  have kept (os : List RegisterOperand) (below : ∀ o ∈ os, o.reg.number.toNat < k.next.toNat) :
      os.foldl (fun next o => Kernel.noteRegister next o.reg) k.next = k.next := by
    induction os with
    | nil => rfl
    | cons o os ih =>
      have small := below o List.mem_cons_self
      have high : ¬ k.next ≤ o.reg.number := by
        rw [UInt32.le_iff_toNat_le]
        omega
      rw [List.foldl_cons, Kernel.noteRegister, if_neg high]
      exact ih fun x member => below x (List.mem_cons_of_mem _ member)
  refine kept i.registers fun o member => ?_
  rcases List.mem_append.mp member with dst | src
  · exact names.dst o (Option.mem_toList.mp dst)
  · obtain ⟨s, source, named⟩ := List.mem_filterMap.mp src
    exact names.src s source o named

end

/-! ## Parts of selection -/

/-- What a part of selection did to a kernel: it appended instructions and handed out at most `n` numbers,
among them some registers, each once. -/
structure Handed (n : Nat) (k k' : Kernel) (added : List Instruction) (handed : List VReg) : Prop where
  code : k'.code = k.code ++ added
  simd : k'.simdWidth = k.simdWidth
  grows : k.next.toNat ≤ k'.next.toNat
  few : k'.next.toNat ≤ k.next.toNat + n
  range : ∀ r ∈ handed, k.next.toNat ≤ r.number.toNat ∧ r.number.toNat < k'.next.toNat
  nodup : handed.Nodup

theorem Handed.trans {n j : Nat} {k t k' : Kernel} {added more : List Instruction} {handed others : List VReg}
    (first : Handed n k t added handed) (second : Handed j t k' more others) :
    Handed (n + j) k k' (added ++ more) (handed ++ others) := by
  have growsFirst := first.grows
  have growsSecond := second.grows
  have fewFirst := first.few
  have fewSecond := second.few
  refine ⟨by rw [second.code, first.code, List.append_assoc], second.simd.trans first.simd, by omega, by omega, ?_, ?_⟩
  · intro r member
    rcases List.mem_append.mp member with early | late
    · have range := first.range r early
      omega
    · have range := second.range r late
      omega
  · refine List.nodup_append.mpr ⟨first.nodup, second.nodup, ?_⟩
    rintro r early _ late rfl
    have before := first.range r early
    have after := second.range r late
    omega

theorem Handed.nothing (n : Nat) (k : Kernel) : Handed n k k [] [] :=
  ⟨by simp, rfl, Nat.le_refl _, Nat.le_add_right _ _, by simp, .nil⟩

/-- A part of selection that starts when all numbers below a bound are taken, with what holds of the next
number, of the instructions it appends, of the registers it hands out and of its result. -/
def Hands {α : Type} (bound n : Nat) (m : Select α) (Q : Nat → List Instruction → List VReg → α → Prop) : Prop :=
  ∀ (k k' : Kernel) (a : α), m.run k = .ok (a, k') → bound ≤ k.next.toNat → k.next.toNat + n < 2 ^ 32 →
    ∃ added handed, Handed n k k' added handed ∧ Q k'.next.toNat added handed a

/-- A part of selection of which only the numbers matter. -/
abbrev Keeps {α : Type} (bound n : Nat) (m : Select α) : Prop := Hands bound n m fun _ _ _ _ => True

section
variable {α β : Type} {bound n j : Nat} {P Q : Nat → List Instruction → List VReg → α → Prop}
  {R : Nat → List Instruction → List VReg → β → Prop}

theorem Hands.imp {m : Select α} (hands : Hands bound n m P) (few : n ≤ j)
    (weaker : ∀ next added handed a, bound ≤ next → P next added handed a → handed.Nodup →
      (∀ r ∈ handed, bound ≤ r.number.toNat ∧ r.number.toNat < next) → Q next added handed a) :
    Hands bound j m Q := by
  intro k k' a ran low room
  obtain ⟨added, handed, taken, holds⟩ := hands k k' a ran low (by omega)
  have grows := taken.grows
  have most := taken.few
  refine ⟨added, handed, ⟨taken.code, taken.simd, grows, by omega, taken.range, taken.nodup⟩,
    weaker _ _ _ _ (by omega) holds taken.nodup fun r member => ?_⟩
  have range := taken.range r member
  omega

theorem Hands.bind {m : Select α} {f : α → Select β} (first : Hands bound n m P)
    (rest : ∀ next added handed a, bound ≤ next → P next added handed a →
      Hands next j (f a) fun next more others b => R next (added ++ more) (handed ++ others) b) :
    Hands bound (n + j) (m >>= f) R := by
  intro k k' b ran low room
  rw [StateT.run_bind, bind_ok] at ran
  obtain ⟨⟨a, t⟩, firstRan, restRan⟩ := ran
  obtain ⟨added, handed, taken, holds⟩ := first k t a firstRan low (by omega)
  have grows := taken.grows
  have few := taken.few
  obtain ⟨more, others, further, result⟩ :=
    rest _ added handed a (by omega) holds t k' b restRan (Nat.le_refl _) (by omega)
  exact ⟨added ++ more, handed ++ others, taken.trans further, result⟩

theorem Hands.pure (a : α) (holds : ∀ next, bound ≤ next → Q next [] [] a) :
    Hands bound n (pure a : Select α) Q := by
  intro k k' b ran low room
  cases ran
  exact ⟨[], [], .nothing n k, holds _ low⟩

theorem Hands.throw (d : Diagnostic) : Hands bound n (throw d : Select α) Q := by
  intro k k' a ran
  cases ran

theorem Hands.stop (d : Diagnostic) (f : β → Select α) : Hands bound n (MonadExcept.throw d >>= f) Q := by
  intro k k' a ran
  cases ran

theorem Hands.refuse {c : Prop} [Decidable c] {d : Diagnostic} {f : β → Select α} {m : Select α}
    (rest : Hands bound n m Q) : Hands bound n (if c then (MonadExcept.throw d >>= f) else m) Q := by
  split
  · exact .stop d f
  · exact rest

theorem Hands.lift (x : Except Diagnostic α) :
    Hands bound 0 (liftM x : Select α) fun _ added handed a => added = [] ∧ handed = [] ∧ x = .ok a := by
  intro k k' a ran low room
  cases x with
  | error d => cases ran
  | ok v =>
    cases ran
    exact ⟨[], [], .nothing 0 k, rfl, rfl, rfl⟩

theorem Hands.emit {i : Instruction} (names : NamesBelow bound i) :
    Hands bound 0 (Select.emit i) fun _ added handed _ => added = [i] ∧ handed = [] := by
  intro k k' u ran low room
  cases ran
  have same := (names.mono low).emit
  refine ⟨[i], [], ⟨rfl, rfl, ?_, ?_, by simp, .nil⟩, rfl, rfl⟩
  · change k.next.toNat ≤ (k.emit i).next.toNat
    rw [same]
  · change (k.emit i).next.toNat ≤ _
    rw [same]
    exact Nat.le_add_right _ _

end

theorem fresh_hands (bound : Nat) :
    Hands bound 2 Select.fresh fun next added handed r =>
      added = [] ∧ handed = [r] ∧ bound ≤ r.number.toNat ∧ r.number.toNat < next := by
  intro k k' r ran low room
  unfold Select.fresh at ran
  rw [StateT.run_bind] at ran
  change (if k.freshRegister = k.stackPointer then _ else _ : Select VReg).run k = _ at ran
  have one : (1 : UInt32).toNat = 1 := rfl
  have first : (k.next + 1).toNat = k.next.toNat + 1 := by
    rw [UInt32.toNat_add, one]
    omega
  have second : (k.next + 1 + 1).toNat = k.next.toNat + 2 := by
    rw [UInt32.toNat_add, first, one]
    omega
  split at ran
  · cases ran
    refine ⟨[], _, ⟨?_, rfl, ?_, ?_, ?_, List.pairwise_singleton ..⟩, rfl, rfl, ?_, ?_⟩
    all_goals simp [Kernel.allocRegister, Kernel.freshRegister, first, second]
    omega
  · cases ran
    refine ⟨[], _, ⟨?_, rfl, ?_, ?_, ?_, List.pairwise_singleton ..⟩, rfl, rfl, low, ?_⟩
    all_goals simp [Kernel.allocRegister, Kernel.freshRegister, first]

theorem temp_hands (bound : Nat) (t : Element) :
    Hands bound 2 (Select.temp t) fun next added handed v =>
      ∃ r : VReg, added = [] ∧ handed = [r] ∧ v = .vector r t ∧ bound ≤ r.number.toNat ∧
        r.number.toNat < next := by
  refine .bind (j := 0) (fresh_hands bound) ?_
  rintro next _ _ r - ⟨rfl, rfl, new, small⟩
  exact .pure _ fun later grows => ⟨r, rfl, rfl, rfl, new, by omega⟩

/-- The move of a source to a vector. -/
def loadInto (i : Instruction) (v o : Operand) : Instruction where
  op := .mov
  dst := v
  src := [o]
  execWidth := i.execWidth
  block := i.block

/-- A source as a vector: in its own register, or moved to one that was handed out. -/
inductive Loads (i : Instruction) (o : Operand) : Operand → List Instruction → List VReg → Prop where
  | plain (vector : Select.isPlainVector o = true) : Loads i o o [] []
  | moved (r : VReg) : Loads i o (.vector r o.type) [loadInto i (.vector r o.type) o] [r]

section
variable {bound : Nat} {i : Instruction} {o : Operand}

theorem vector_hands (below : Below bound o) :
    Hands bound 2 (Select.vector o i) fun next added handed v =>
      Loads i o v added handed ∧ Below next v := by
  unfold Select.vector
  split
  · rename_i plain
    exact .pure o fun next grows => ⟨.plain plain, below.mono grows⟩
  · refine .bind (n := 2) (j := 0) (temp_hands bound o.type) ?_
    rintro next _ _ v grows ⟨r, rfl, rfl, rfl, -, small⟩
    have known : Below next (.vector r o.type) := below_register small
    refine .bind (n := 0) (j := 0) (.emit ⟨known, ?_⟩) ?_
    · intro s member
      obtain rfl := List.mem_singleton.mp member
      exact below.mono grows
    · rintro later _ _ _ further ⟨rfl, rfl⟩
      exact .pure _ fun last more => ⟨.moved r, known.mono (by omega)⟩

theorem scalar_hands (below : Below bound o) :
    Hands bound 2 (Select.scalar o i) fun next _ _ v => Below next v := by
  unfold Select.scalar
  split
  · refine .bind (n := 2) (j := 0) (fresh_hands bound) ?_
    rintro next _ _ r grows ⟨rfl, rfl, -, small⟩
    have known : Below next (.scalar r o.type) := below_register small
    refine .bind (n := 0) (j := 0) (.emit ⟨known, ?_⟩) ?_
    · intro s member
      obtain rfl := List.mem_singleton.mp member
      exact below.mono grows
    · rintro later _ _ _ further -
      exact .pure _ fun last more => known.mono (by omega)
  · exact .pure o fun next grows => below.mono grows

end

/-- Operands that are made one after the other. -/
theorem mapM_hands {α : Type} {f : α → Select Operand} {n bound : Nat} (as : List α)
    (each : ∀ a ∈ as, ∀ next, bound ≤ next → Hands next n (f a) fun last _ _ v => Below last v) :
    Hands bound (n * as.length) (as.mapM f) fun next _ _ vs => ∀ v ∈ vs, Below next v := by
  induction as generalizing bound with
  | nil => exact .pure _ fun _ _ _ member => absurd member List.not_mem_nil
  | cons a rest ih =>
    rw [List.mapM_cons, List.length_cons, Nat.mul_succ, Nat.add_comm]
    refine .bind (each a List.mem_cons_self bound (Nat.le_refl _)) ?_
    intro next _ _ v grows known
    refine .bind (j := 0) (ih fun b member later further =>
      each b (List.mem_cons_of_mem _ member) later (by omega)) ?_
    intro later _ _ vs further others
    refine .pure _ fun last more w member => ?_
    rcases List.mem_cons.mp member with rfl | inside
    · exact known.mono (by omega)
    · exact (others w inside).mono more

theorem emits_hands {α : Type} {f : α → Instruction} {bound : Nat} (as : List α)
    (each : ∀ a ∈ as, NamesBelow bound (f a)) : Keeps bound 0 (as.forM fun a => Select.emit (f a)) := by
  induction as generalizing bound with
  | nil => exact .pure _ fun _ _ => trivial
  | cons a rest ih =>
    refine .bind (n := 0) (j := 0) (.emit (each a List.mem_cons_self)) ?_
    intro next _ _ _ grows _
    exact ih fun b member => (each b (List.mem_cons_of_mem _ member)).mono grows

theorem stagePayload_hands {bound : Nat} {i : Instruction} {parts : List Operand}
    (below : ∀ o ∈ parts, Below bound o) :
    Hands bound 2 (Select.stagePayload i parts) fun next _ _ r => r.number.toNat < next := by
  refine .bind (n := 2) (j := 0) (fresh_hands bound) ?_
  rintro next _ _ r grows ⟨rfl, rfl, -, small⟩
  refine .bind (n := 0) (j := 0) (emits_hands _ ?_) fun later _ _ _ further _ =>
    .pure _ fun last more => by omega
  rintro ⟨o, n⟩ member
  refine ⟨below_register small, ?_⟩
  intro s source
  obtain rfl := List.mem_singleton.mp source
  exact (below s (List.fst_mem_of_mem_zipIdx member)).mono grows

/-! ## Products -/

/-- The move of a product to its destination. -/
def copyFrom (i : Instruction) (v : Operand) : Instruction where
  op := .mov
  dst := i.dst
  src := [v]
  execWidth := i.execWidth
  block := i.block
  predicated := i.predicated

/-- Where a product is computed: in its destination, or in a register that was handed out and is then
copied to a destination that is also a source. -/
inductive Aims (i : Instruction) : Operand → List Instruction → List VReg → Prop where
  | direct (free : i.aliased = false) : Aims i i.dst [] []
  | copied (aliased : i.aliased = true) (r : VReg) : Aims i (.vector r i.dst.type)
      [copyFrom i (.vector r i.dst.type)] [r]

/-- The product of two vectors, with its temporaries. -/
def Half.instruction (half : Half) (i : Instruction) (dst left right : Operand) (temps : List VReg) : Instruction where
  op := half.opcode
  dst := dst
  src := [left, right] ++ temps.map (Operand.vector · .ul)
  execWidth := i.execWidth
  block := i.block
  predicated := i.predicated

/-- What a product is selected as, and the registers that are handed out for it. -/
inductive Expands (half : Half) (i : Instruction) : List Instruction → List VReg → Prop where
  | intro {left right dst : Operand} {loadLeft loadRight copy : List Instruction}
      {handedLeft handedRight handedDst temps : List VReg}
      (loadsLeft : Loads i (i.src.getD 0 default) left loadLeft handedLeft)
      (loadsRight : Loads i (i.src.getD 1 default) right loadRight handedRight)
      (aims : Aims i dst copy handedDst) (length : temps.length = half.temporaries) :
      Expands half i
        (loadLeft ++ (loadRight ++ half.instruction i dst left right temps :: copy))
        (handedLeft ++ (handedRight ++ (handedDst ++ temps)))

theorem temps_hands {bound : Nat} (count : Nat) :
    Hands bound (2 * count) ((List.replicate count Element.ul).mapM Select.temp) fun next added handed vs =>
      added = [] ∧ handed.length = count ∧ vs = handed.map (Operand.vector · .ul) ∧
        ∀ v ∈ vs, Below next v := by
  induction count generalizing bound with
  | zero => exact .pure _ fun _ _ => ⟨rfl, rfl, rfl, by simp⟩
  | succ n ih =>
    rw [List.replicate_succ, List.mapM_cons, Nat.mul_succ, Nat.add_comm]
    refine .bind (temp_hands bound .ul) ?_
    rintro next _ _ v grows ⟨r, rfl, rfl, rfl, -, small⟩
    refine .bind (j := 0) ih ?_
    rintro later _ temps _ further ⟨rfl, length, rfl, below⟩
    refine .pure _ fun last more => ⟨rfl, by simp [length], by simp, ?_⟩
    intro x member
    rcases List.mem_cons.mp member with rfl | inside
    · exact (below_register small).mono (by omega)
    · exact (below x inside).mono more

theorem aliased_register {i : Instruction} (aliased : i.aliased = true) :
    ∃ d, i.dst = .register d ∧ i.dst.register? = some d ∧ i.reads d.reg = true := by
  unfold Instruction.aliased at aliased
  cases named : i.dst.register? with
  | none =>
    rw [named] at aliased
    cases aliased
  | some d =>
    rw [named] at aliased
    exact ⟨d, register_of_named named, rfl, aliased⟩

/-- A product is selected as its expansion. -/
theorem product_hands (half : Half) {bound : Nat} {i : Instruction} (names : NamesBelow bound i) :
    Hands bound 12 (Select.product half.opcode half.temporaries i i.dst.type) fun _ added handed _ =>
      Expands half i added handed := by
  have room : 2 + (2 + (2 + (2 * half.temporaries + (0 + 0)))) ≤ 12 := by
    cases half <;> decide
  refine Hands.imp (P := fun _ added handed _ => Expands half i added handed) ?_ room
    fun _ _ _ _ _ holds _ _ => holds
  unfold Select.product
  refine .bind (vector_hands (names.source 0)) ?_
  rintro next loadLeft handedLeft left grows ⟨loadsLeft, belowLeft⟩
  refine .bind (vector_hands ((names.source 1).mono grows)) ?_
  rintro next' loadRight handedRight right grows' ⟨loadsRight, belowRight⟩
  have emits {bound : Nat} {dst : Operand} {temps : List VReg} (grows : next' ≤ bound) (below : Below bound dst)
      (known : ∀ v ∈ temps.map (Operand.vector · .ul), Below bound v) :
      NamesBelow bound (half.instruction i dst left right temps) := by
    refine ⟨below, ?_⟩
    intro o member
    rcases List.mem_append.mp member with operand | temp
    · simp only [List.mem_cons, List.not_mem_nil, or_false] at operand
      rcases operand with rfl | rfl
      · exact belowLeft.mono (by omega)
      · exact belowRight.mono grows
    · exact known o temp
  dsimp only
  split
  · rename_i aliased
    obtain ⟨d, register, named, -⟩ := aliased_register aliased
    refine .bind (temp_hands next' i.dst.type) ?_
    rintro later _ _ _ further ⟨r, rfl, rfl, rfl, new, small⟩
    refine .bind (temps_hands half.temporaries) ?_
    rintro last _ temps _ more ⟨rfl, length, rfl, known⟩
    refine .bind (.emit (emits (by omega) ((below_register small).mono more) known)) ?_
    rintro final _ _ _ most ⟨rfl, rfl⟩
    have differs : r ≠ d.reg := by
      rintro rfl
      have old := names.dst d named
      omega
    have copies : Select.copyBack i (.vector r i.dst.type) = Select.emit (copyFrom i (.vector r i.dst.type)) := by
      simp only [Select.copyBack, Operand.vector, copyFrom, register, if_neg differs]
    rw [copies]
    refine (Hands.emit ⟨?_, ?_⟩).imp (Nat.le_refl _) ?_
    · exact names.dst.mono (by omega)
    · intro o member
      obtain rfl := List.mem_singleton.mp member
      exact (below_register small).mono (by omega)
    · rintro _ _ _ _ - ⟨rfl, rfl⟩ - -
      have expands := Expands.intro loadsLeft loadsRight (.copied aliased r) length
      simpa [Half.instruction] using expands
  · rename_i free
    refine .bind (n := 2) (P := fun _ added handed dst => added = [] ∧ handed = [] ∧ dst = i.dst)
      (.pure i.dst fun _ _ => ⟨rfl, rfl, rfl⟩) ?_
    rintro later _ _ _ further ⟨rfl, rfl, rfl⟩
    refine .bind (temps_hands half.temporaries) ?_
    rintro last _ temps _ more ⟨rfl, length, rfl, known⟩
    refine .bind (.emit (emits (by omega) (names.dst.mono (by omega)) known)) ?_
    rintro final _ _ _ most ⟨rfl, rfl⟩
    refine .pure _ fun _ _ => ?_
    have expands := Expands.intro loadsLeft loadsRight (.direct (by simpa using free)) length
    simpa [Half.instruction] using expands

/-! ## Other instructions -/

theorem emit_keeps {bound n : Nat} {i : Instruction} (names : NamesBelow bound i) : Keeps bound n (Select.emit i) :=
  (Hands.emit names).imp (Nat.zero_le n) fun _ _ _ _ _ _ _ _ => trivial

theorem below_singleton {bound : Nat} {o : Operand} (below : Below bound o) : ∀ v ∈ [o], Below bound v := by
  intro v member
  obtain rfl := List.mem_singleton.mp member
  exact below

section
variable {bound : Nat} {i : Instruction} (names : NamesBelow bound i)
include names

theorem ternary_hands (c : Context) (count : i.src.length = 3) : Keeps bound 6 (Select.ternary c i) := by
  have sources : Hands bound 6 (i.src.mapM fun o => Select.scalar o i) fun next _ _ vs => ∀ v ∈ vs, Below next v := by
    have made := mapM_hands (f := fun o => Select.scalar o i) (n := 2) i.src fun o member next grows =>
      scalar_hands ((names.src o member).mono grows)
    rw [count] at made
    exact made
  refine .refuse (.bind (j := 0) sources ?_)
  intro next _ _ src grows below
  exact emit_keeps ⟨names.dst.mono grows, below⟩

theorem load_hands : Keeps bound 2 (Select.load i) := by
  refine .refuse (.bind (n := 2) (j := 0) (vector_hands (names.source 0)) ?_)
  rintro next _ _ v grows ⟨-, below⟩
  exact emit_keeps ⟨names.dst.mono grows, below_singleton below⟩

theorem barrier_hands : Keeps bound 4 (Select.barrier i) := by
  have temp {bound : Nat} : Hands bound 2 (Select.temp .ud) fun next _ _ v => Below next v :=
    (temp_hands bound .ud).imp (Nat.le_refl _) fun next _ _ v _ ⟨r, _, _, same, _, small⟩ _ _ =>
      same ▸ below_register small
  have source {bound : Nat} : Hands bound 2 ((fun t => [t]) <$> Select.temp .ud) fun next _ _ vs =>
      ∀ v ∈ vs, Below next v := by
    rw [← bind_pure_comp]
    exact .bind (j := 0) temp fun next _ _ v grows below =>
      .pure _ fun last more => below_singleton (below.mono more)
  have given {bound : Nat} (names : NamesBelow bound i) : Hands bound 2 (pure i.src : Select (List Operand))
      fun next _ _ vs => ∀ v ∈ vs, Below next v :=
    .pure _ fun next grows => (names.mono grows).src
  have aim : Hands bound 2 (pure i.dst : Select Operand) fun next _ _ v => Below next v :=
    .pure _ fun next grows => names.dst.mono grows
  have finish {next later : Nat} {dst : Operand} {src : List Operand} (below : Below next dst) (further : next ≤ later)
      (known : ∀ v ∈ src, Below later v) :
      Keeps later 0 (Select.emit { i with execWidth := 8, dst := dst, src := src }) :=
    emit_keeps ⟨below.mono further, known⟩
  unfold Select.barrier
  dsimp only
  split
  · refine .bind (n := 2) (j := 2) aim fun next _ _ dst grows below => ?_
    split
    · exact .bind (n := 2) (j := 0) (given (names.mono grows)) fun _ _ _ _ further known => finish below further known
    · exact .bind (n := 2) (j := 0) source fun _ _ _ _ further known => finish below further known
  · refine .bind (n := 2) (j := 2) temp fun next _ _ dst grows below => ?_
    split
    · exact .bind (n := 2) (j := 0) (given (names.mono grows)) fun _ _ _ _ further known => finish below further known
    · exact .bind (n := 2) (j := 0) source fun _ _ _ _ further known => finish below further known

theorem indirectMov_hands (c : Context) : Keeps bound 0 (Select.indirectMov c i) := by
  unfold Select.indirectMov
  dsimp only
  split
  · exact .refuse (.refuse (.refuse (emit_keeps names)))
  · exact .stop _ _

theorem store_hands : Keeps bound 2 (Select.store i) := by
  have parts : ∀ o ∈ [i.src.getD 0 default, i.src.getD 1 default], Below bound o := by
    intro o member
    simp only [List.mem_cons, List.not_mem_nil, or_false] at member
    rcases member with rfl | rfl
    · exact names.source 0
    · exact names.source 1
  refine .refuse (.bind (n := 2) (j := 0) (stagePayload_hands parts) ?_)
  intro next _ _ r grows small
  exact emit_keeps ⟨below_absent _ _, below_singleton (below_register small)⟩

theorem atomic_hands (c : Context) : Keeps bound 2 (Select.atomic c i) := by
  have message {bound : Nat} (names : NamesBelow bound i) : Keeps bound 2 (do
      let p ← Select.stagePayload i i.src
      Select.emit
        { op := .atomicMessage, dst := i.dst, src := [.payload p .ud i.src.length],
          execWidth := i.execWidth, block := i.block, predicated := i.predicated, atomic := i.atomic,
          surface := i.surface }) := by
    refine .bind (n := 2) (j := 0) (stagePayload_hands names.src) ?_
    intro next _ _ r grows small
    refine emit_keeps ⟨?_, below_singleton (below_register small)⟩
    exact names.dst.mono grows
  unfold Select.atomic
  dsimp only
  split
  · exact .refuse (.stop _ _)
  · refine .refuse (.refuse (.bind (n := 0) (j := 2) (.lift _) fun next _ _ _ grows _ => ?_))
    split
    · exact .stop _ _
    · exact message (names.mono grows)

theorem motion_hands (c : Context) : Keeps bound 2 (Select.motion c i) := by
  unfold Select.motion
  dsimp only
  refine .refuse (.refuse (.refuse ?_))
  split
  · exact .throw _
  · rename_i dst named
    refine .bind (n := 0) (j := 2) (.lift _) fun next _ _ _ grows _ => ?_
    split
    · exact .stop _ _
    · refine .bind (n := 2) (j := 0) (fresh_hands next) ?_
      rintro later _ _ r further ⟨-, -, -, small⟩
      refine emit_keeps ⟨?_, ?_⟩
      · exact below_register (Nat.lt_of_lt_of_le (names.dst dst named) (by omega))
      · intro o member
        rcases List.mem_cons.mp member with rfl | source
        · exact below_register small
        · exact (names.src o source).mono (by omega)

end

/-! ## Selection -/

/-- A product that is expanded: of 64-bit integers where the target has none of its own, or a high half. -/
def Multiplies (g : Generation) : Half → Instruction → Prop
  | .low, i => i.op = .mul ∧ i.dst.type.isInt64 = true ∧ g.supports .nativeInt64Mul = false
  | .high, i => i.op = .mulHi

/-- Sources are counted before anything else happens. -/
theorem Hands.counted {bound n count : Nat} {i : Instruction} {m : Select Unit}
    {Q : Nat → List Instruction → List VReg → Unit → Prop} (rest : i.src.length = count → Hands bound n m Q) :
    Hands bound n (liftM (Select.wantSources i count) >>= fun _ => m) Q := by
  by_cases length : i.src.length = count
  · have passed : Select.wantSources i count = .ok () := if_pos length
    rw [passed]
    exact rest length
  · have failed : Select.wantSources i count = .error _ := if_neg length
    rw [failed]
    intro k k' u ran
    cases ran

/-- Selection of one instruction. Of products it makes their expansions. -/
theorem lower_hands (c : Context) {bound : Nat} {i : Instruction} (names : NamesBelow bound i) :
    Hands bound 12 (Select.lower c i) fun _ added handed _ =>
      ∀ half, Multiplies c.generation half i → Expands half i added handed := by
  have other {n : Nat} {op : Opcode} {m : Select Unit} (few : n ≤ 12) (same : i.op = op) (mul : op ≠ .mul)
      (mulHi : op ≠ .mulHi) (keeps : Keeps bound n m) :
      Hands bound 12 m fun _ added handed _ =>
        ∀ half, Multiplies c.generation half i → Expands half i added handed := by
    refine keeps.imp few fun _ _ _ _ _ _ _ _ half multiplies => ?_
    cases half with
    | low => exact absurd (same.symm.trans multiplies.1) mul
    | high => exact absurd (same.symm.trans multiplies) mulHi
  unfold Select.lower
  cases op : i.op
  all_goals dsimp only [Select.sourceCount?]
  case mul =>
    refine .counted fun _ => ?_
    split
    · refine (product_hands .low names).imp (Nat.le_refl _) fun _ _ _ _ _ expands _ _ half multiplies => ?_
      cases half with
      | low => exact expands
      | high => cases op.symm.trans multiplies
    · rename_i native
      refine (emit_keeps (n := 12) names).imp (Nat.le_refl _) fun _ _ _ _ _ _ _ _ half multiplies => ?_
      cases half with
      | low =>
        obtain ⟨-, qwords, lacking⟩ := multiplies
        exact absurd (by simp [qwords, Context.supports, lacking]) native
      | high => cases op.symm.trans multiplies
  case mulHi =>
    refine .counted fun _ => ?_
    unfold Select.mulHi
    split
    · rename_i type
      have expands := product_hands .high names
      rw [type] at expands
      refine expands.imp (Nat.le_refl _) fun _ _ _ _ _ expands _ _ half multiplies => ?_
      cases half with
      | low => cases op.symm.trans multiplies.1
      | high => exact expands
    · exact .throw _
  case mad | lrp =>
    exact .counted fun count => other (by decide) op (by decide) (by decide) (ternary_hands names c count)
  case atomic => exact other (by decide) op (by decide) (by decide) (atomic_hands names c)
  case load => exact .counted fun _ => other (by decide) op (by decide) (by decide) (load_hands names)
  case store => exact .counted fun _ => other (by decide) op (by decide) (by decide) (store_hands names)
  case indirectMov => exact .counted fun _ => other (by decide) op (by decide) (by decide) (indirectMov_hands names c)
  case barrier => exact other (by decide) op (by decide) (by decide) (barrier_hands names)
  case motion => exact other (by decide) op (by decide) (by decide) (motion_hands names c)
  case compare =>
    refine .counted fun _ => ?_
    split
    · exact other (Nat.zero_le _) op (by decide) (by decide) (emit_keeps names)
    · exact .throw _
  case mul64 | mulHi64 | atomicMessage | storeMessage | stackSetup | reload | spill | motionMessage |
      unlisted =>
    exact .throw _
  all_goals exact .counted fun _ => other (Nat.zero_le 12) op (by decide) (by decide) (emit_keeps names)

/-- A part of selection and the instructions it appends to some kernel. -/
def Appends (m : Select Unit) (block : List Instruction) : Prop :=
  ∃ k k' : Kernel, m.run k = .ok ((), k') ∧ k'.code = k.code ++ block

/-- The instructions a selected kernel begins with: those that compute the stack pointer, if there is a stack. -/
def IsSetup (c : Context) (setup : List Instruction) : Prop :=
  if 0 < c.kernel.stackSize ∧ c.kernel.stackPointer ≠ .none then Appends (Select.stackSetup c) setup else setup = []

/-- The block of instructions that an instruction is selected as. The registers of a product's expansion are new and
differ. -/
structure Selects (c : Context) (bound : Nat) (i : Instruction) (block : List Instruction) : Prop where
  appends : Appends (Select.lower c i) block
  expands : ∀ half, Multiplies c.generation half i → ∃ handed, Expands half i block handed ∧ handed.Nodup ∧
    ∀ r ∈ handed, bound ≤ r.number.toNat ∧ r ≠ VReg.none

theorem Selects.mono {c : Context} {bound next : Nat} {i : Instruction} {block : List Instruction}
    (selects : Selects c next i block) (grows : bound ≤ next) : Selects c bound i block := by
  refine ⟨selects.appends, fun half multiplies => ?_⟩
  obtain ⟨handed, expands, nodup, range⟩ := selects.expands half multiplies
  exact ⟨handed, expands, nodup, fun r member => ⟨Nat.le_trans grows (range r member).1, (range r member).2⟩⟩

theorem narrowed_below {bound : Nat} (c : Context) {i : Instruction} (names : NamesBelow bound i) :
    NamesBelow bound (Select.narrowed c i) := by
  obtain ⟨-, dst, src, -⟩ := StraightLine.narrowed_same c i
  exact ⟨by rw [dst]; exact names.dst, by rw [src]; exact names.src⟩

theorem step_hands (c : Context) {bound : Nat} {entry : Instruction × Nat} (names : NamesBelow bound entry.1) :
    Hands bound 12 (Select.step c entry) fun _ added _ _ =>
      Selects c bound (Select.narrowed c entry.1) added := by
  intro k k' u ran low room
  change Select.step c entry k = .ok (u, k') at ran
  unfold Select.step at ran
  dsimp only at ran
  split at ran
  · cases ran
  · split at ran
    · cases ran
    · rename_i lowered
      cases ran
      obtain ⟨added, handed, taken, expands⟩ :=
        lower_hands c (narrowed_below c names) k k' u lowered low room
      refine ⟨added, handed, taken, ⟨k, k', lowered, taken.code⟩,
        fun half multiplies => ⟨handed, expands half multiplies, taken.nodup, ?_⟩⟩
      intro r member
      have range := taken.range r member
      refine ⟨by omega, ?_⟩
      rintro rfl
      have largest : VReg.none.number.toNat = 2 ^ 32 - 1 := rfl
      have small := k'.next.toNat_lt
      omega

/-- Every instruction is selected as a block of its own. -/
theorem steps_hands (c : Context) {bound : Nat} (entries : List (Instruction × Nat))
    (names : ∀ e ∈ entries, NamesBelow bound e.1) :
    Hands bound (12 * entries.length) (entries.forM (Select.step c)) fun _ added _ _ =>
      ∃ blocks, added = blocks.flatten ∧
        List.Forall₂ (fun e => Selects c bound (Select.narrowed c e.1)) entries blocks := by
  induction entries generalizing bound with
  | nil => exact .pure _ fun _ _ => ⟨[], rfl, .nil⟩
  | cons e rest ih =>
    rw [List.length_cons, Nat.mul_succ, Nat.add_comm]
    refine .bind (step_hands c (names e List.mem_cons_self)) ?_
    intro next added _ _ grows selects
    refine (ih fun x member => (names x (List.mem_cons_of_mem _ member)).mono grows).imp (Nat.le_refl _) ?_
    rintro later _ _ _ - ⟨blocks, rfl, others⟩ - -
    exact ⟨added :: blocks, by simp, .cons selects (others.imp fun _ _ later => later.mono grows)⟩

/-- Every register a kernel names was handed out, and selection does not run out of numbers. -/
structure Numbered (k : Kernel) : Prop where
  code : ∀ i ∈ k.code, ∀ o ∈ i.registers, o.reg.number < k.next
  stack : k.stackPointer = VReg.none ∨ k.stackPointer.number < k.next
  room : k.next.toNat + 12 * (k.code.length + 1) < 2 ^ 32

theorem Numbered.below {k : Kernel} (numbered : Numbered k) {i : Instruction} (member : i ∈ k.code) :
    NamesBelow k.next.toNat i := by
  have small := numbered.code i member
  simp only [UInt32.lt_iff_toNat_lt] at small
  refine ⟨fun x named => small x ?_, fun o source x named => small x ?_⟩
  · simp [Instruction.registers, named]
  · exact List.mem_append_right _ (List.mem_filterMap.mpr ⟨o, source, named⟩)

theorem stackSetup_handed {c : Context} {k k' : Kernel} {u : Unit} (stack : k.stackPointer.number.toNat < k.next.toNat)
    (room : k.next.toNat + 4 < 2 ^ 32) (ran : (Select.stackSetup c).run k = .ok (u, k')) :
    ∃ added handed, Handed 4 k k' added handed ∧ Appends (Select.stackSetup c) added := by
  have rest : Keeps k.next.toNat 4 (do
      let tmp ← Select.fresh
      let lane ← Select.fresh
      Select.emit
        { op := .stackSetup, dst := .vector k.stackPointer (if k.pointerSize = 8 then Element.ul else .ud),
          src := [.scalar tmp .ud, .vector lane .ud],
          block := (c.kernel.code.head?.map (·.block)).getD 0 }) := by
    refine .bind (n := 2) (j := 2) (fresh_hands _) ?_
    rintro next _ _ tmp grows ⟨-, -, -, smallTmp⟩
    refine .bind (n := 2) (j := 0) (fresh_hands _) ?_
    rintro later _ _ lane further ⟨-, -, -, smallLane⟩
    refine emit_keeps ⟨?_, ?_⟩
    · exact (below_register stack).mono (by omega)
    · intro o member
      simp only [List.mem_cons, List.not_mem_nil, or_false] at member
      rcases member with rfl | rfl
      · exact (below_register smallTmp).mono further
      · exact below_register smallLane
  obtain ⟨added, handed, taken, -⟩ := rest k k' u ran (Nat.le_refl _) room
  exact ⟨added, handed, taken, k, k', ran, taken.code⟩

/-- A selected kernel is a block for each instruction, perhaps after the setup of the stack. -/
theorem select_blocks {c : Context} {k : Kernel} (numbered : Numbered c.kernel) (selected : c.select = .ok k) :
    k.simdWidth = c.simdWidth ∧ ∃ setup blocks, k.code = setup ++ blocks.flatten ∧ IsSetup c setup ∧
      List.Forall₂ (fun i => Selects c c.kernel.next.toNat (Select.narrowed c i)) c.kernel.code blocks := by
  simp only [Context.select, bind_ok, pure_ok] at selected
  obtain ⟨_, -, ⟨u, s⟩, ran, same⟩ := selected
  cases same
  generalize start : ({ c.kernel.cloneEmpty with simdWidth := c.simdWidth } : Kernel) = k₀ at ran
  have next : k₀.next = c.kernel.next := by rw [← start]; rfl
  have empty : k₀.code = [] := by rw [← start]; rfl
  have room := numbered.room
  have steps {t : Kernel} (low : c.kernel.next.toNat ≤ t.next.toNat) (few : t.next.toNat ≤ c.kernel.next.toNat + 4)
      (ran : (c.kernel.code.zipIdx.forM (Select.step c)).run t = .ok (u, s)) :
      s.simdWidth = t.simdWidth ∧ ∃ blocks, s.code = t.code ++ blocks.flatten ∧
        List.Forall₂ (fun i => Selects c c.kernel.next.toNat (Select.narrowed c i)) c.kernel.code blocks := by
    have hands := steps_hands c c.kernel.code.zipIdx fun e member =>
      numbered.below (List.fst_mem_of_mem_zipIdx member)
    rw [List.length_zipIdx] at hands
    obtain ⟨added, handed, taken, blocks, rfl, selects⟩ := hands t s u ran low (by omega)
    have whole := (List.forall₂_map_left_iff (f := Prod.fst)
      (R := fun i => Selects c c.kernel.next.toNat (Select.narrowed c i))).mpr selects
    rw [List.zipIdx_map_fst] at whole
    exact ⟨taken.simd, blocks, taken.code, whole⟩
  unfold Select.all at ran
  split at ran
  · rename_i stacked
    rw [StateT.run_bind, bind_ok] at ran
    obtain ⟨⟨v, t⟩, setup, rest⟩ := ran
    have pointer : k₀.stackPointer.number.toNat < k₀.next.toNat := by
      rw [next, ← start, ← UInt32.lt_iff_toNat_lt]
      exact numbered.stack.resolve_left stacked.2
    obtain ⟨added, handed, taken, appends⟩ := stackSetup_handed pointer (by rw [next]; omega) setup
    have grows := taken.grows
    have few := taken.few
    rw [next] at grows few
    obtain ⟨simd, blocks, code, selects⟩ := steps grows few rest
    refine ⟨by rw [simd, taken.simd, ← start], added, blocks, ?_, ?_, selects⟩
    · rw [code, taken.code, empty, List.nil_append]
    · rwa [IsSetup, if_pos stacked]
  · rename_i flat
    obtain ⟨simd, blocks, code, selects⟩ := steps (by rw [next]) (by rw [next]; omega) ran
    exact ⟨by rw [simd, ← start], [], blocks, by rw [code, empty], by rw [IsSetup, if_neg flat], selects⟩

end GpuCodegen.Products
