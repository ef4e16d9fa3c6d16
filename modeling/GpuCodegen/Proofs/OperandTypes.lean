import GpuCodegen.Proofs.FailureCauses
import GpuCodegen.Proofs.QuarterLanes

/-! Selection and the encoder check operand types separately: selection by the features of the target,
the encoder by the codes its layout has. The types that selection lets pass have codes, so a selected
instruction whose operands were checked is emitted as commands that no missing feature stops. -/

namespace GpuCodegen.Features
open Outcome Failures

/-- Causes other than a feature the target lacks. -/
def Available (c : Cause) : Prop := c.category ≠ .unsupported

theorem available_covers : Covers Available :=
  ⟨fun _ _ => by simp [Available, Cause.category], fun _ => by simp [Available, Cause.category]⟩

/-! ## Generations -/

theorem family_of_int64 {g : Generation} (has : g.supports .int64 = true) : g.isGen8Family = true := by
  cases g <;> simp_all [Generation.supports, Generation.withFeature, Generation.since, Generation.all,
    Generation.number, Generation.isGen8Family]

theorem family_of_imm64 {g : Generation} (has : g.supports .imm64 = true) : g.isGen8Family = true :=
  family_of_int64 has

theorem layout_of_family {g : Generation} (family : g.isGen8Family = true) : g.layout = .gen8 := by
  unfold Generation.layout Native.Layout.ofGeneration
  rw [if_pos family]

/-- A flavor that writes address entries in qwords belongs to generations that have them. -/
theorem int64_of_quads {g : Generation} {f : Flavor} (flavored : Flavor.ofGeneration? g = some f)
    (quads : f.writesAddressQuads = true) : g.supports .int64 = true := by
  cases g <;> simp only [Flavor.ofGeneration?, Option.some.injEq, reduceCtorEq] at flavored <;> subst flavored <;>
    first | rfl | cases quads

/-- Selection asks the flavor for three-source types and the encoder the generation; they agree. -/
theorem tripleTakes_unit {g : Generation} {f : Flavor} (flavored : Flavor.ofGeneration? g = some f) {t : Element}
    (takes : f.tripleTakes t = true) : g.tripleUnitTakes t.dataType = true := by
  cases g <;> simp only [Flavor.ofGeneration?, Option.some.injEq, reduceCtorEq] at flavored <;> subst flavored <;>
    cases t <;> first | rfl | cases takes

theorem tripleTypeCode_taken {g : Generation} {t : Native.DataType} (takes : g.tripleUnitTakes t = true) :
    ∃ code, g.tripleTypeCode t = .ok code := by
  have type : t ∈ ([.f, .d, .ud, .df] : List Native.DataType) := by
    unfold Generation.tripleUnitTakes at takes
    split at takes
    · simp_all
    · split at takes <;> simp at takes <;> rcases takes with ((rfl | rfl) | rfl) | rfl <;> simp
  have listed : ∀ l : Native.Layout, l = .gen7 ∨ l = .gen8 → ∀ t ∈ ([.f, .d, .ud, .df] : List Native.DataType),
      ∃ code, Native.Layout.codeOf? l.tripleTypes t = some code := by
    rintro l (rfl | rfl) <;> simp [Native.Layout.codeOf?, Native.Layout.gen7, Native.Layout.gen8]
  obtain ⟨code, found⟩ := listed g.layout (layout_cases g) t type
  refine ⟨code, ?_⟩
  unfold Generation.tripleTypeCode
  rw [if_pos takes, found]

/-! ## Types -/

section
variable {c : Context} {t : Element}

/-- The features that a type needs: 64-bit integers, doubles, their immediates, and half floats. -/
structure HasType (c : Context) (t : Element) (immediate : Bool) : Prop where
  int64 : t.isInt64 = true → c.supports .int64 = true
  doubles : t = .df → c.supports .fp64 = true
  immediates : t = .df → immediate = true → c.supports .imm64 = true
  halves : t = .hf → c.generation.isGen8Family = true

theorem checkType_ok {immediate : Bool} : Select.checkType c t immediate = .ok () ↔ HasType c t immediate := by
  unfold Select.checkType
  constructor
  · intro passed
    split at passed
    · cases passed
    · rename_i int64
      split at passed
      · cases passed
      · rename_i doubles
        split at passed
        · cases passed
        · rename_i immediates
          split at passed
          · cases passed
          · rename_i halves
            simp only [Bool.and_eq_true, Bool.not_eq_true', beq_iff_eq, not_and, Bool.not_eq_false]
              at int64 doubles immediates halves
            exact ⟨int64, doubles, fun type constant => immediates ⟨type, constant⟩, halves⟩
  · rintro ⟨int64, doubles, immediates, halves⟩
    cases t <;> simp_all [Element.isInt64]

theorem HasType.register {immediate : Bool} (has : HasType c t immediate) : HasType c t false :=
  ⟨has.int64, has.doubles, nofun, has.halves⟩

theorem hasType_common {immediate : Bool} (known : t ∈ [Element.ud, .d, .uw, .w, .ub, .b, .f]) :
    HasType c t immediate := by
  simp only [List.mem_cons, List.not_mem_nil, or_false] at known
  rcases known with rfl | rfl | rfl | rfl | rfl | rfl | rfl <;> exact ⟨nofun, nofun, nofun, nofun⟩

theorem hasType_qword (int64 : c.supports .int64 = true) : HasType c .ul false :=
  ⟨fun _ => int64, nofun, nofun, nofun⟩

theorem checkType_qword {type : Native.DataType} (int64 : c.supports .int64 = true) (is : type = .ul ∨ type = .l) :
    c.generation.checkType type = .ok () := by
  have has : c.generation.supports .int64 = true := int64
  rcases is with rfl | rfl <;> simp [Generation.checkType, has]

theorem checkType_double (doubles : c.supports .fp64 = true) : c.generation.checkType .df = .ok () := by
  have has : c.generation.supports .fp64 = true := doubles
  simp [Generation.checkType, has]

theorem registerTypeCode_listed {g : Generation} {type : Native.DataType} (checked : g.checkType type = .ok ())
    (listed : ∃ code, Native.Layout.codeOf? g.layout.registerTypes type = some code) :
    ∃ code, g.registerTypeCode type = .ok code := by
  obtain ⟨code, found⟩ := listed
  refine ⟨code, ?_⟩
  unfold Generation.registerTypeCode
  rw [checked, found]
  rfl

/-- The type of a register that selection lets pass has a code. -/
theorem registerTypeCode_checked (has : HasType c t false) :
    ∃ code, c.generation.registerTypeCode t.dataType = .ok code := by
  cases t with
  | ud | unknown | d | uw | w | ub | b | f => exact registerTypeCode_common _ (by decide)
  | ul =>
    have int64 := has.int64 rfl
    refine registerTypeCode_listed (checkType_qword int64 (.inl rfl)) ?_
    rw [layout_of_family (family_of_int64 int64)]
    exact ⟨8, rfl⟩
  | l =>
    have int64 := has.int64 rfl
    refine registerTypeCode_listed (checkType_qword int64 (.inr rfl)) ?_
    rw [layout_of_family (family_of_int64 int64)]
    exact ⟨9, rfl⟩
  | hf =>
    refine registerTypeCode_listed rfl ?_
    rw [layout_of_family (has.halves rfl)]
    exact ⟨10, rfl⟩
  | df =>
    refine registerTypeCode_listed (checkType_double (has.doubles rfl)) ?_
    rcases layout_cases c.generation with layout | layout <;> rw [layout] <;> exact ⟨6, rfl⟩

theorem register_encodes (has : HasType c t false) : Encodes Available (c.generation.registerTypeCode t.dataType) := by
  obtain ⟨code, coded⟩ := registerTypeCode_checked has
  exact .of_ok coded

theorem immediate_listed {g : Generation} {type : Native.DataType} (checked : g.checkType type = .ok ())
    (listed : ∃ code, Native.Layout.codeOf? g.layout.immediateTypes type = some code) :
    Encodes Available (g.checkType type) ∧ Encodes Available (g.immediateTypeCode type) := by
  obtain ⟨code, found⟩ := listed
  refine ⟨.of_ok checked, .of_ok (a := code) ?_⟩
  unfold Generation.immediateTypeCode
  rw [found]

/-- The types of immediates that every generation takes. -/
def commonImmediates : List Native.DataType := [.ud, .d, .uw, .w, .f, .v]

theorem immediate_common (g : Generation) {t : Native.DataType} (known : t ∈ commonImmediates) :
    Encodes Available (g.checkType t) ∧ Encodes Available (g.immediateTypeCode t) := by
  simp only [commonImmediates, List.mem_cons, List.not_mem_nil, or_false] at known
  refine immediate_listed ?_ ?_
  · rcases known with rfl | rfl | rfl | rfl | rfl | rfl <;> rfl
  · rcases layout_cases g with layout | layout <;> rw [layout] <;>
      rcases known with rfl | rfl | rfl | rfl | rfl | rfl <;> exact ⟨_, rfl⟩

theorem immediate_qword (int64 : c.supports .int64 = true) {type : Native.DataType} (is : type = .ul ∨ type = .l) :
    Encodes Available (c.generation.checkType type) ∧ Encodes Available (c.generation.immediateTypeCode type) := by
  refine immediate_listed (checkType_qword int64 is) ?_
  rw [layout_of_family (family_of_int64 int64)]
  rcases is with rfl | rfl
  · exact ⟨_, rfl⟩
  · exact ⟨_, rfl⟩

/-- A dword or word source, whatever file it is in. -/
theorem source_common (g : Generation) {r : Native.Register} {t : Native.DataType} (same : r.type = t)
    (known : t ∈ common ∧ t ∈ commonImmediates) : SourceType Available g r := by
  unfold SourceType
  rw [same]
  split
  · exact immediate_common g known.2
  · exact common_encodes g known.1

/-- A qword source, whatever file it is in. -/
theorem source_qword (int64 : c.supports .int64 = true) {r : Native.Register} (same : r.type = .ul) :
    SourceType Available c.generation r := by
  unfold SourceType
  rw [same]
  split
  · exact immediate_qword int64 (.inl rfl)
  · exact register_encodes (t := .ul) (hasType_qword int64)

/-- An immediate operand that selection lets pass is one the encoder takes. -/
theorem immediate_source {bits : UInt64} {negate : Bool} {r : Native.Register} (has : HasType c t true)
    (made : Emission.immediate t bits negate = .ok r) : SourceType Available c.generation r := by
  cases t with
  | ud | d | uw | w | ub | b | f =>
    obtain ⟨type, value, rfl, known⟩ : ∃ type value, r = .imm type value ∧ type ∈ commonImmediates := by
      cases made
      exact ⟨_, _, rfl, by decide⟩
    exact immediate_common _ known
  | df =>
    cases made
    refine immediate_listed (checkType_double (has.doubles rfl)) ?_
    rw [layout_of_family (family_of_imm64 (has.immediates rfl rfl))]
    exact ⟨10, rfl⟩
  | ul =>
    cases made
    exact immediate_qword (has.int64 rfl) (.inl rfl)
  | l =>
    cases made
    exact immediate_qword (has.int64 rfl) (.inr rfl)
  | hf | unknown => cases made

end

/-! ## Operands -/

/-- Selection takes the type of an operand. -/
def Checked (c : Context) (o : Operand) : Prop := HasType c o.type o.isImmediate

theorem checkTypes_ok {c : Context} {i : Instruction} : Select.checkTypes c i = .ok () ↔
    (i.dst.isAbsent = false → HasType c i.dst.type false) ∧ ∀ o ∈ i.src, Checked c o := by
  have sources (os : List Operand) :
      (os.forM fun o => Select.checkType c o.type o.isImmediate) = .ok () ↔ ∀ o ∈ os, Checked c o := by
    induction os with
    | nil => simp [pure_ok]
    | cons o os ih =>
      change (Select.checkType c o.type o.isImmediate >>= fun _ => os.forM _) = .ok () ↔ _
      rw [seq_ok, ih, checkType_ok, List.forall_mem_cons, Checked]
  unfold Select.checkTypes
  cases absent : i.dst.isAbsent
  · simp only [Bool.not_false, if_true, seq_ok, checkType_ok, sources, forall_const]
  · simp only [Bool.not_true, Bool.false_eq_true, if_false, sources, reduceCtorEq, false_implies, true_and]

section
variable {c : Context} {a : Allocation} {width : Int} {o : Operand} {r : Native.Register}

theorem placed_shape {x : RegisterOperand} (placed : Emission.placed a x width = .ok r) :
    r.file = .grf ∧ r.type = x.type.dataType := by
  simp only [Emission.placed, bind_ok, pure_ok] at placed
  obtain ⟨offset, -, rfl⟩ := placed
  split <;> exact ⟨rfl, rfl⟩

theorem register_source {g : Generation} (file : r.file = .grf) (code : Encodes Available (g.registerTypeCode r.type)) :
    SourceType Available g r := by
  unfold SourceType
  rw [file]
  exact code

/-- A source that selection lets pass is one the encoder takes. -/
theorem operand_source (checked : Checked c o) (made : Emission.operand a width o = .ok r) :
    SourceType Available c.generation r := by
  cases o with
  | absent t =>
    cases made
    exact common_source _ (by decide) (by decide)
  | immediate t bits negate absolute => exact immediate_source checked made
  | register x =>
    obtain ⟨file, type⟩ := placed_shape made
    exact register_source file (by rw [type]; exact register_encodes checked)

/-- A destination that selection lets pass is one the encoder takes. -/
theorem operand_register (has : o.isAbsent = false → HasType c o.type false)
    (made : Emission.operand a width o = .ok r) : Encodes Available (c.generation.registerTypeCode r.type) := by
  cases o with
  | absent t =>
    cases made
    exact common_encodes _ (t := .ud) (by decide)
  | register x =>
    rw [(placed_shape made).2]
    exact register_encodes (has rfl)
  | immediate t bits negate absolute =>
    have named : r.type ∈ common ∨ r.type = t.dataType := by
      cases t <;> cases made <;> first | exact .inr rfl | exact .inl (List.mem_of_elem_eq_true rfl)
    rcases named with known | same
    · exact common_encodes _ known
    · rw [same]
      exact register_encodes (has rfl)

theorem destination_register {t : Element} (result : HasType c t false)
    (has : o.isAbsent = false → HasType c o.type false) (made : Emission.destination a width t o = .ok r) :
    Encodes Available (c.generation.registerTypeCode r.type) := by
  cases o with
  | absent t' =>
    cases made
    exact register_encodes result
  | register x => exact operand_register has (show Emission.operand a width (.register x) = .ok r from made)
  | immediate t' bits negate absolute =>
    exact operand_register has (show Emission.operand a width (.immediate t' bits negate absolute) = .ok r from made)

theorem operand_grf (made : Emission.operand a width o = .ok r) (file : r.file = .grf) :
    r.type = o.type.dataType := by
  cases o with
  | absent t =>
    cases made
    cases file
  | register x => exact (placed_shape made).2
  | immediate t bits negate absolute => cases t <;> cases made <;> cases file

theorem destination_grf {t : Element} (made : Emission.destination a width t o = .ok r) (file : r.file = .grf) :
    r.type = o.type.dataType := by
  cases o with
  | absent t' =>
    cases made
    cases file
  | register x => exact operand_grf (show Emission.operand a width (.register x) = .ok r from made) file
  | immediate t' bits negate absolute =>
    exact operand_grf (show Emission.operand a width (.immediate t' bits negate absolute) = .ok r from made) file

theorem quarter_shape (r : Native.Register) (q : Nat) :
    (Emission.quarter r q).file = r.file ∧ (Emission.quarter r q).type = r.type := by
  unfold Emission.quarter
  split
  · exact ⟨rfl, rfl⟩
  · obtain ⟨file, type, -, -⟩ := r.quarter_shape (UInt32.ofNat q)
    exact ⟨file, type⟩

/-- The physical form of a source: one that the encoder takes, and in general registers of the same type. -/
structure Stands (c : Context) (o : Operand) (r : Native.Register) : Prop where
  source : SourceType Available c.generation r
  type : r.file = .grf → r.type = o.type.dataType

theorem operand_stands (checked : Checked c o) (made : Emission.operand a width o = .ok r) : Stands c o r :=
  ⟨operand_source checked made, operand_grf made⟩

theorem operands_stand {os : List Operand} {rs : List Native.Register} (checked : ∀ o ∈ os, Checked c o)
    (made : os.mapM (Emission.operand a width) = .ok rs) : List.Forall₂ (Stands c) os rs := by
  obtain ⟨length, each⟩ := List.forall₂_iff_get.mp (mapM_forall made)
  exact List.forall₂_iff_get.mpr ⟨length, fun n small small' =>
    operand_stands (checked _ (List.get_mem os ⟨n, small⟩)) (each n small small')⟩

theorem Stands.quarter (stands : Stands c o r) (q : Nat) : Stands c o (Emission.quarter r q) := by
  obtain ⟨file, type⟩ := quarter_shape r q
  obtain ⟨source, same⟩ := stands
  unfold SourceType at source
  refine ⟨?_, by rw [file, type]; exact same⟩
  unfold SourceType
  rw [file, type]
  exact source

end

end GpuCodegen.Features
