import GpuCodegen.Proofs.ProductSequences
import GpuCodegen.Proofs.VectorOperands

/-! Stack pointers. Lanes are numbered, the number of the thread is put in front, and the product with the size is
formed in a dword. -/

namespace GpuCodegen.Stacks
open Native Generation WordRoundTrip Outcome Lanes Vectors
open Footprints (tame_imm)

/-! ## Dwords and immediates -/

/-- The dword at a byte. -/
def dword (m : Machine) (address : Nat) : Nat := (m.registers.load address 4).toNat

theorem dword_congr {m m' : Machine} {address : Nat}
    (same : ∀ b, address ≤ b → b < address + 4 → m'.registers b = m.registers b) :
    dword m' address = dword m address :=
  congrArg UInt64.toNat (Memory.load_congr same)

/-- The word at a byte is the lower half of the dword. -/
theorem load_word (m : Memory) (address : Nat) :
    (DataType.extend .uw (m.load address 2)).toNat = (m.load address 4).toNat % 65536 := by
  change ((m.load address 2).toUInt16.toUInt64).toNat = _
  rw [UInt16.toNat_toUInt64, UInt64.toNat_toUInt16]
  apply Nat.eq_of_testBit_eq
  intro i
  rw [show 65536 = 2 ^ 16 from rfl, Nat.testBit_mod_two_pow, Nat.testBit_mod_two_pow,
    Memory.testBit_load _ _ (by decide), Memory.testBit_load _ _ (by decide)]
  by_cases low : i < 16
  · have wide : i < 8 * 4 := by omega
    rw [decide_eq_true low, decide_eq_true wide]
  · rw [decide_eq_false low, Bool.false_and, Bool.false_and]

/-- The packed immediate that numbers eight lanes. -/
theorem laneIds_read (s : State) : Reads s (.immV 0x76543210) 8 fun _ lane => UInt64.ofNat lane := by
  have parts : ∀ lane < 8, packedLane (0x76543210 : UInt32).toUInt64.toUInt32.toUInt64 lane = UInt64.ofNat lane := by
    decide
  exact ⟨tame_imm _ _, fun m lane inside => parts lane inside⟩

/-- The word immediate with the number of lanes. -/
theorem width_reads (s : State) {simd : Int} (wide : simd = 8 ∨ simd = 16) (lanes : Nat) :
    Reads s (.immUW (UInt16.ofInt simd)) lanes fun _ _ => UInt64.ofNat simd.toNat := by
  have eight : DataType.extend .uw (Register.replicated (UInt16.ofInt 8)).toUInt32.toUInt64 = 8 := by decide
  have sixteen : DataType.extend .uw (Register.replicated (UInt16.ofInt 16)).toUInt32.toUInt64 = 16 := by decide
  rcases wide with rfl | rfl
  · exact ⟨tame_imm _ _, fun m lane _ => eight⟩
  · exact ⟨tame_imm _ _, fun m lane _ => sixteen⟩

/-! ## Steps -/

/-- Issues that have words, and what these do to any machine. -/
def Runs (g : Generation) (issues : List Issue) (P : Machine → Machine → Prop) : Prop :=
  ∃ pieces, issues.mapM (fun x => g.assemble x.state x.command) = .ok pieces ∧
    ∀ m : Machine, ∃ m', m.run g.layout pieces.flatten = some m' ∧ P m m'

section
variable {g : Generation} {xs ys : List Issue} {P Q : Machine → Machine → Prop}

theorem Runs.append (first : Runs g xs P) (second : Runs g ys Q) :
    Runs g (xs ++ ys) fun m m' => ∃ t, P m t ∧ Q t m' := by
  obtain ⟨pieces, made, runs⟩ := first
  obtain ⟨pieces', made', runs'⟩ := second
  refine ⟨pieces ++ pieces', ?_, fun m => ?_⟩
  · simp only [List.mapM_append, bind_ok, pure_ok]
    exact ⟨_, made, _, made', rfl⟩
  · obtain ⟨t, ran, holds⟩ := runs m
    obtain ⟨m', ran', holds'⟩ := runs' t
    refine ⟨m', ?_, t, holds, holds'⟩
    rw [List.flatten_append, Products.run_concat, ran, Option.bind_some, ran']

theorem Runs.mono (runs : Runs g xs P) (weaker : ∀ m m', P m m' → Q m m') : Runs g xs Q := by
  obtain ⟨pieces, made, runs⟩ := runs
  refine ⟨pieces, made, fun m => ?_⟩
  obtain ⟨m', ran, holds⟩ := runs m
  exact ⟨m', ran, weaker m m' holds⟩

theorem Runs.single {x : Issue} {ws : List Word} (made : g.assemble x.state x.command = .ok ws)
    (runs : ∀ m : Machine, ∃ m', m.run g.layout ws = some m' ∧ P m m') : Runs g [x] P := by
  refine ⟨[ws], ?_, fun m => ?_⟩
  · simp only [List.mapM_cons, List.mapM_nil, bind_ok, pure_ok]
    exact ⟨_, made, _, rfl, rfl⟩
  · simpa using runs m

variable {s : State} {dst src src0 src1 : Register} {first size lanes : Nat}
  {value value0 value1 : Machine → Nat → UInt64}

theorem mov_runs (state : StateFits s) (always : s.predicate = 0) (target : Target dst first size lanes)
    (width : s.execWidth.toNat = lanes) (reads : Reads s src lanes value)
    (made : ∃ ws, g.assemble s (.mov dst src) = .ok ws) :
    Runs g [⟨s, .mov dst src⟩] fun m m' => Wrote m m' first size lanes (fun _ => true) (value m) := by
  obtain ⟨ws, made⟩ := made
  have writes := (mov_writes state target width reads made).2
  simp only [lets_always always] at writes
  exact .single made writes

theorem binary_runs (op : BinaryOp) {f : UInt64 → UInt64 → UInt64} (issuable : Issuable g s) (always : s.predicate = 0)
    (kind : ∀ d : Decoded, d.opcode = op.opcode → Machine.arithmetic? d = some f) (target : Target dst first size lanes)
    (width : s.execWidth.toNat = lanes) (reads0 : Reads s src0 lanes value0) (reads1 : Reads s src1 lanes value1)
    (operates : Operates g (.binary op dst src0 src1)) :
    Runs g [⟨s, .binary op dst src0 src1⟩] fun m m' =>
      Wrote m m' first size lanes (fun _ => true) fun lane => f (value0 m lane) (value1 m lane) := by
  obtain ⟨ws, made⟩ := assemble_exists issuable operates
  have writes := (binary_writes issuable.toStateFits kind target width reads0 reads1 made).2
  simp only [lets_always always] at writes
  exact .single made writes

/-- Dwords side by side that were written, and the registers around them, which were not. -/
structure Dwords (m m' : Machine) (first lanes : Nat) (value : Nat → Nat) : Prop where
  value : ∀ i < lanes, dword m' (first + i * 4) = value i
  around : ∀ b, b < first ∨ first + lanes * 4 ≤ b → m'.registers b = m.registers b

theorem dwords_of_wrote {m m' : Machine} {v : Nat → UInt64} {value : Nat → Nat}
    (wrote : Wrote m m' first 4 lanes (fun _ => true) v)
    (same : ∀ i < lanes, (v i).toNat % 4294967296 = value i) : Dwords m m' first lanes value :=
  ⟨fun i inside => (wrote.element i inside).trans (same i inside), wrote.around⟩

theorem Dwords.kept {m m' : Machine} {value : Nat → Nat} (dwords : Dwords m m' first lanes value) {address : Nat}
    (apart : address + 4 ≤ first ∨ first + lanes * 4 ≤ address) : dword m' address = dword m address :=
  dword_congr fun b above below => dwords.around b (by omega)

end

/-! ## The sequence -/

section
variable {g : Generation} {s : State} {simd : Int} {lane tmp : Register} {l t : Nat}

theorem unmasked_issuable (issuable : Issuable g (s.unmasked 8)) {width : Int}
    (wide : width = 1 ∨ width = 4 ∨ width = 8 ∨ width = 16) : Issuable g (s.unmasked width) :=
  ⟨⟨issuable.quarter, issuable.predicate⟩, wide, issuable.flag⟩

theorem add_computes (d : Decoded) (op : d.opcode = .add) : Machine.arithmetic? d = some fun a b => a + b := by
  rw [Machine.arithmetic?, op]

theorem mul_computes (d : Decoded) (op : d.opcode = .mul) : Machine.arithmetic? d = some fun a b => a * b := by
  rw [Machine.arithmetic?, op]

theorem and_computes (d : Decoded) (op : d.opcode = .and) : Machine.arithmetic? d = some fun a b => a &&& b := by
  rw [Machine.arithmetic?, op]

theorem immediate_second (g : Generation) (v : UInt32) : IsSecond g (.immUD v) :=
  .inr ⟨rfl, rfl, immediateTypeCode_exists g (.inl rfl)⟩

/-- A sum of dwords in a dword. -/
theorem toNat_add_dwords {a b : UInt64} {x y : Nat} (left : a.toNat = x) (right : b.toNat = y) (small : x < 4294967296)
    (small' : y < 4294967296) : (a + b).toNat = x + y := by
  rw [UInt64.toNat_add, left, right]
  omega

/-- Lane numbers. -/
theorem laneIds_runs (issuable : Issuable g (s.unmasked 8)) (wide : simd = 8 ∨ simd = 16)
    (vector : IsVector lane l (4 * simd.toNat)) :
    Runs g (Sequence.laneIds s lane simd) fun m m' => Dwords m m' l simd.toNat fun i => i := by
  have coded := registerTypeCode_exists g (t := .ud) (.inl rfl)
  have ids : Runs g [⟨s.unmasked 8, .mov (lane.retype .ud) (.immV 0x76543210)⟩] fun m m' =>
      Dwords m m' l 8 fun i => i := by
    have made := movImmediate_exists (0x76543210 : UInt32).toUInt64 issuable
      (setDestination_exists (vector.nameable (by omega) coded)) (t := .v) rfl
      (immediateTypeCode_exists g (.inr (.inr rfl)))
    have moved := mov_runs issuable.toStateFits rfl (vector.target .ud (by decide) 8) rfl (laneIds_read _) made
    refine moved.mono fun m m' wrote => dwords_of_wrote wrote fun i inside => ?_
    rw [UInt64.toNat_ofNat']
    omega
  rcases wide with rfl | rfl
  · exact ids
  have upper : IsVector (lane.offset 1 0) (l + 32) 32 := (show IsVector lane l (32 + 32) from vector).next
  have operates : Operates g (.add ((lane.offset 1 0).retype .ud) (lane.retype .ud) (.immUD 8)) :=
    ⟨upper.nameable (by decide) coded, vector.nameable (by decide) coded, immediate_second g 8⟩
  have others := binary_runs .add issuable rfl add_computes (upper.target .ud (by decide) 8) rfl
    (vector.reads _ (by decide)) (immediate_reads _ 8 8) operates
  refine (ids.append others).mono fun m m' => ?_
  rintro ⟨m₁, lower, wrote⟩
  have above : Dwords m₁ m' (l + 32) 8 fun i => i + 8 := by
    refine dwords_of_wrote wrote fun i inside => ?_
    rw [toNat_add_dwords (lower.value i inside) (show (8 : UInt32).toUInt64.toNat = 8 from rfl) (by omega) (by decide)]
    omega
  refine ⟨fun i inside => ?_, fun b outside => ?_⟩
  · change i < 16 at inside
    by_cases first : i < 8
    · rw [above.kept (by omega), lower.value i first]
    · have place : l + i * 4 = l + 32 + (i - 8) * 4 := by omega
      rw [place, above.value (i - 8) (by omega)]
      omega
  · change b < l ∨ l + 16 * 4 ≤ b at outside
    rw [above.around b (by omega), lower.around b (by omega)]

/-- The number of the hardware thread. -/
def threadNumber (m : Machine) : Nat := (m.registers.load 20 4 &&& 0x1ff).toNat

theorem threadNumber_lt (m : Machine) : threadNumber m < 512 := by
  rw [threadNumber, UInt64.toNat_and]
  exact Nat.lt_of_le_of_lt Nat.and_le_right (by decide)

/-- The commands between numbering lanes and the product. -/
def numbering (s : State) (simd : Int) (size : UInt32) (tmp lane : Register) : List Issue :=
  [⟨s.unmasked 1, .and (tmp.toScalar.retype .ud) Sequence.threadId (.immUD 0x1ff)⟩,
    ⟨s.unmasked 1, .mul (tmp.toScalar.retype .ud) (tmp.toScalar.retype .ud) (.immUW (UInt16.ofInt simd))⟩,
    ⟨s.unmasked simd, .add (lane.retype .ud) (lane.retype .ud) (tmp.toScalar.retype .ud)⟩,
    ⟨s.unmasked 1, .mov (tmp.toScalar.retype .ud) (.immUD size)⟩]

theorem threadId_dword : IsDword Sequence.threadId 20 := by
  refine ⟨⟨rfl, rfl, rfl, by decide⟩, by decide, ⟨rfl, rfl⟩, by decide⟩

/-- The commands between numbering lanes and the product number the lanes of all threads. -/
theorem numbering_runs (issuable : Issuable g (s.unmasked 8)) (wide : simd = 8 ∨ simd = 16)
    (vector : IsVector lane l (4 * simd.toNat)) (scalar : IsDword tmp t)
    (apart : t + 4 ≤ l ∨ l + 4 * simd.toNat ≤ t) (header : 24 ≤ l) (size : UInt32) :
    Runs g (Sequence.laneIds s lane simd ++ numbering s simd size tmp lane) fun m m' =>
      (∀ i < simd.toNat, dword m' (l + i * 4) = threadNumber m * simd.toNat + i) ∧ dword m' t = size.toNat ∧
        ∀ b, (b < l ∨ l + 4 * simd.toNat ≤ b) → (b < t ∨ t + 4 ≤ b) → m'.registers b = m.registers b := by
  have coded := registerTypeCode_exists g (t := .ud) (.inl rfl)
  have one := unmasked_issuable issuable (.inl rfl)
  have all : Issuable g (s.unmasked simd) := unmasked_issuable issuable (by omega)
  have lanes : simd.toNat ≤ 16 := by omega
  have ids := laneIds_runs issuable wide vector
  have thread := binary_runs .and one rfl and_computes scalar.target rfl (threadId_dword.reads _ (by decide))
    (immediate_reads _ 0x1ff 1) ⟨scalar.nameable g, threadId_dword.nameable g, immediate_second g _⟩
  have scaled := binary_runs .mul one rfl mul_computes scalar.target rfl (scalar.reads _ (by decide))
    (width_reads _ wide 1)
    ⟨scalar.nameable g, scalar.nameable g, .inr ⟨rfl, rfl, immediateTypeCode_exists g (.inr (.inl rfl))⟩⟩
  have summed := binary_runs .add all rfl add_computes (vector.target .ud (by decide) simd.toNat) rfl
    (vector.reads _ lanes) (scalar.reads _ lanes)
    ⟨vector.nameable (by omega) coded, vector.nameable (by omega) coded, .inl (scalar.nameable g)⟩
  have sized := mov_runs one.toStateFits rfl scalar.target rfl (immediate_reads _ size 1)
    (movImmediate_exists _ one (setDestination_exists (scalar.nameable g)) rfl (immediateTypeCode_exists g (.inl rfl)))
  refine (ids.append (thread.append (scaled.append (summed.append sized)))).mono fun m m' => ?_
  rintro ⟨m₁, ids, m₂, thread, m₃, scaled, m₄, summed, sized⟩
  have small := threadNumber_lt m
  have header₁ : m₁.registers.load 20 4 = m.registers.load 20 4 :=
    Memory.load_congr fun b above below => ids.around b (by omega)
  have d₂ : Dwords m₁ m₂ t 1 fun _ => threadNumber m := by
    refine dwords_of_wrote thread fun i _ => ?_
    rw [header₁]
    exact Nat.mod_eq_of_lt (by change threadNumber m < 4294967296; omega)
  have few : threadNumber m * simd.toNat ≤ 512 * 16 := Nat.mul_le_mul (by omega) lanes
  have d₃ : Dwords m₂ m₃ t 1 fun _ => threadNumber m * simd.toNat := by
    refine dwords_of_wrote scaled fun i _ => ?_
    have before : (m₂.registers.load t 4).toNat = threadNumber m := d₂.value 0 (by decide)
    rw [UInt64.toNat_mul, before, UInt64.toNat_ofNat', Nat.mod_eq_of_lt (a := simd.toNat) (by omega)]
    omega
  have d₄ : Dwords m₃ m₄ l simd.toNat fun i => threadNumber m * simd.toNat + i := by
    refine dwords_of_wrote summed fun i inside => ?_
    have lane : (m₃.registers.load (l + i * 4) 4).toNat = i := by
      change dword m₃ (l + i * 4) = i
      rw [d₃.kept (by omega), d₂.kept (by omega), ids.value i inside]
    have before : (m₃.registers.load t 4).toNat = threadNumber m * simd.toNat := d₃.value 0 (by decide)
    rw [toNat_add_dwords lane before (by omega) (by omega)]
    omega
  have d₅ : Dwords m₄ m' t 1 fun _ => size.toNat := by
    refine dwords_of_wrote sized fun i _ => ?_
    rw [UInt32.toNat_toUInt64]
    exact Nat.mod_eq_of_lt size.toNat_lt
  refine ⟨fun i inside => ?_, d₅.value 0 (by decide), fun b lane scalar => ?_⟩
  · rw [d₅.kept (by omega), d₄.value i inside]
  · rw [d₅.around b (by omega), d₄.around b (by omega), d₃.around b (by omega), d₂.around b (by omega),
      ids.around b (by omega)]

/-- The product with the size, in a dword. -/
theorem product_runs {dst : Register} {d : Nat} (all : Issuable g (s.unmasked simd)) (wide : simd = 8 ∨ simd = 16)
    (vector : IsVector lane l (4 * simd.toNat)) (scalar : IsDword tmp t)
    (target : IsVector dst d (4 * simd.toNat)) :
    Runs g [⟨s.unmasked simd, .mul (dst.retype .ud) (tmp.toScalar.retype .ud) (lane.retype .ud).unpackedWords⟩]
      fun m m' => Dwords m m' d simd.toNat fun i => dword m t * (dword m (l + i * 4) % 65536) % 4294967296 := by
  have coded := registerTypeCode_exists g (t := .ud) (.inl rfl)
  have lanes : simd.toNat ≤ 16 := by omega
  have words := words_read (r := lane.retype .ud) (s := s.unmasked simd) (vector.place.retype .ud) vector.plain lanes
  have inside := vector.inside
  have second : Nameable g (lane.retype .ud).unpackedWords :=
    nameable_at ⟨vector.place.file, vector.place.direct, vector.place.sum, vector.place.small⟩ (by omega) vector.sub
      words.fits (registerTypeCode_exists g (.inr rfl))
  have multiplied := binary_runs .mul all rfl mul_computes (target.target .ud (by decide) simd.toNat) rfl
    (scalar.reads _ lanes) words ⟨target.nameable (by omega) coded, scalar.nameable g, .inl second⟩
  refine multiplied.mono fun m m' wrote => dwords_of_wrote wrote fun i _ => ?_
  rw [UInt64.toNat_mul, load_word]
  change dword m t * (dword m (l + i * 4) % 65536) % 2 ^ 64 % 4294967296 = _
  exact Nat.mod_mod_of_dvd _ (by decide)

/-- One quarter is widened. -/
theorem widened_runs {sp : Register} {p q : Nat} {s : State} (issuable : Issuable g s) (always : s.predicate = 0)
    (width : s.execWidth = 8) (known : g.isKnown = true) (family : g.isGen8Family = true)
    (vector : IsVector lane l (8 * q * 4 + 32)) (target : IsVector sp p (8 * q * 8 + 64)) :
    Runs g [⟨s, .mov ((sp.retype .ul).quarter (UInt32.ofNat q)) ((lane.retype .ud).quarter (UInt32.ofNat q))⟩]
      fun m m' => (∀ i < 8, (m'.registers.load (p + (8 * q + i) * 8) 8).toNat = dword m (l + (8 * q + i) * 4)) ∧
        ∀ b, b < p + 8 * q * 8 ∨ p + 8 * q * 8 + 64 ≤ b → m'.registers b = m.registers b := by
  obtain ⟨source, typed⟩ := IsVector.quarter (t := .ud) vector
  obtain ⟨wide, typed'⟩ := IsVector.quarter (t := .ul) target
  have read := source.reads s (show 8 ≤ 16 by decide)
  have coded := registerTypeCode_exists g (t := .ud) (.inl rfl)
  have coded' := registerTypeCode_qword known family (t := .ul) (.inl rfl)
  rw [typed, typed']
  have operates : Operates g (.mov (((sp.retype .ul).quarter (UInt32.ofNat q)).retype .ul)
      (((lane.retype .ud).quarter (UInt32.ofNat q)).retype .ud)) :=
    ⟨wide.nameable (by decide) coded', source.nameable (by decide) coded⟩
  refine (mov_runs issuable.toStateFits always (wide.target .ul (by decide) 8) (by rw [width]; rfl) read
    (assemble_exists issuable operates)).mono fun m m' wrote => ⟨fun i inside => ?_, fun b outside => ?_⟩
  · have place : p + (8 * q + i) * 8 = p + 8 * q * 8 + i * 8 := by omega
    have place' : l + (8 * q + i) * 4 = l + 8 * q * 4 + i * 4 := by omega
    have element := wrote.element i inside
    rw [if_pos rfl] at element
    rw [place, place', dword]
    refine element.trans (Nat.mod_eq_of_lt ?_)
    exact Nat.lt_trans (m.registers.load_dword_lt _) (by decide)
  · exact wrote.around b (by change b < p + 8 * q * 8 ∨ p + 8 * q * 8 + 8 * 8 ≤ b; omega)

/-- All quarters are widened. -/
theorem quarters_run {sp : Register} {p : Nat} (issuable : Issuable g (s.unmasked 8)) (wide : simd = 8 ∨ simd = 16)
    (known : g.isKnown = true) (family : g.isGen8Family = true) (vector : IsVector lane l (4 * simd.toNat))
    (target : IsVector sp p (8 * simd.toNat)) (apart : p + 8 * simd.toNat ≤ l ∨ l + 4 * simd.toNat ≤ p) :
    Runs g ((List.range (simd.tdiv 8).toNat).map fun q =>
        ⟨{ s.unmasked 8 with quarter := UInt32.ofNat q },
          .mov ((sp.retype .ul).quarter (UInt32.ofNat q)) ((lane.retype .ud).quarter (UInt32.ofNat q))⟩)
      fun m m' => (∀ i < simd.toNat, (m'.registers.load (p + i * 8) 8).toNat = dword m (l + i * 4)) ∧
        ∀ b, b < p ∨ p + 8 * simd.toNat ≤ b → m'.registers b = m.registers b := by
  have single (q : Nat) (few : q < 4) (lanes : IsVector lane l (8 * q * 4 + 32))
      (lanes' : IsVector sp p (8 * q * 8 + 64)) :=
    widened_runs (s := { s.unmasked 8 with quarter := UInt32.ofNat q }) (q := q)
      ⟨⟨by change (UInt32.ofNat q).toNat < 4; rw [UInt32.toNat_ofNat']; omega, issuable.predicate⟩, issuable.width,
        issuable.flag⟩ rfl rfl known family lanes lanes'
  rcases wide with rfl | rfl
  · refine (single 0 (by decide) vector target).mono fun m m' => ?_
    rintro ⟨values, around⟩
    refine ⟨fun i inside => ?_, fun b outside => around b ?_⟩
    · simpa using values i inside
    · change b < p ∨ p + 8 * 8 ≤ b at outside
      omega
  · have half : IsVector lane l (8 * 0 * 4 + 32) := { vector with
      inside := by
        have inside := vector.inside
        change l + 4 * 16 ≤ 4096 at inside
        omega }
    have half' : IsVector sp p (8 * 0 * 8 + 64) := { target with
      inside := by
        have inside := target.inside
        change p + 8 * 16 ≤ 4096 at inside
        omega }
    refine ((single 0 (by decide) half half').append (single 1 (by decide) vector target)).mono fun m m' => ?_
    rintro ⟨m₁, ⟨first, around⟩, second, around'⟩
    change p + 8 * 16 ≤ l ∨ l + 4 * 16 ≤ p at apart
    refine ⟨fun i inside => ?_, fun b outside => ?_⟩
    · change i < 16 at inside
      by_cases lower : i < 8
      · have value := first i lower
        rw [Nat.mul_zero, Nat.zero_add] at value
        rw [← value]
        refine congrArg UInt64.toNat (Memory.load_congr fun b above below => around' b ?_)
        omega
      · obtain ⟨j, rfl⟩ : ∃ j, i = 8 * 1 + j := ⟨i - 8, by omega⟩
        rw [second j (by omega)]
        exact dword_congr fun b above below => around b (by omega)
    · change b < p ∨ p + 8 * 16 ≤ b at outside
      rw [around' b (by omega), around b (by omega)]

/-- What the stack pointer of a lane stands for. -/
def stackOffset (m : Machine) (simd : Int) (size : UInt32) (i : Nat) : Nat :=
  (threadNumber m * simd.toNat + i) * size.toNat

/-- The bytes of a stack pointer. -/
def pointerBytes (qword : Bool) : Nat := if qword then 8 else 4

/-- The words that set up stack pointers exist, and leave the product of lane number and size as a dword. -/
theorem stackPointer_runs {sp : Register} {p : Nat} (qword : Bool) (issuable : Issuable g (s.unmasked 8))
    (wide : simd = 8 ∨ simd = 16) (target : IsVector sp p (pointerBytes qword * simd.toNat))
    (scalar : IsDword tmp t) (vector : IsVector lane l (4 * simd.toNat)) (header : 24 ≤ l)
    (apart : t + 4 ≤ l ∨ l + 4 * simd.toNat ≤ t)
    (apart' : p + pointerBytes qword * simd.toNat ≤ l ∨ l + 4 * simd.toNat ≤ p)
    (pointers : qword = true → g.isKnown = true ∧ g.isGen8Family = true) (size : UInt32) :
    Runs g (Sequence.stackPointer s simd size sp tmp lane qword) fun m m' =>
      ∀ i < simd.toNat, (m'.registers.load (p + i * pointerBytes qword) (pointerBytes qword)).toNat =
        stackOffset m simd size i % 4294967296 := by
  have numbered := numbering_runs issuable wide vector scalar apart header size
  have all : Issuable g (s.unmasked simd) := unmasked_issuable issuable (by omega)
  have product {m m₁ : Machine} {i : Nat} (inside : i < simd.toNat)
      (lanes : dword m₁ (l + i * 4) = threadNumber m * simd.toNat + i) (tmp : dword m₁ t = size.toNat) :
      dword m₁ t * (dword m₁ (l + i * 4) % 65536) % 4294967296 = stackOffset m simd size i % 4294967296 := by
    have few : threadNumber m * simd.toNat ≤ 511 * 16 :=
      Nat.mul_le_mul (Nat.le_of_lt_succ (threadNumber_lt m)) (by omega)
    rw [lanes, tmp, stackOffset, Nat.mul_comm, Nat.mod_eq_of_lt (a := threadNumber m * simd.toNat + i) (by omega)]
  cases qword with
  | false =>
    refine (numbered.append (product_runs all wide vector scalar target)).mono fun m m' => ?_
    rintro ⟨m₁, ⟨lanes, tmp, -⟩, value, -⟩ i inside
    exact (value i inside).trans (product inside (lanes i inside) tmp)
  | true =>
    obtain ⟨known, family⟩ := pointers rfl
    refine (numbered.append ((product_runs all wide vector scalar vector).append
      (quarters_run issuable wide known family vector target apart'))).mono fun m m' => ?_
    rintro ⟨m₁, ⟨lanes, tmp, -⟩, m₂, ⟨value, -⟩, widened, -⟩ i inside
    exact (widened i inside).trans ((value i inside).trans (product inside (lanes i inside) tmp))

end

/-- The words that set up stack pointers exist, and leave in every lane the product of lane number and size in as many
bits as a dword has, also in pointers of eight bytes: those are right exactly where the product fits a dword. With
eight lanes and stacks of at most a mebibyte it does. -/
theorem stackPointers_exact (g : Generation) (s : State) (simd : Int) (size : UInt32) (sp tmp lane : Register)
    (qword : Bool) (p t l : Nat) (issuable : Issuable g (s.unmasked 8)) (wide : simd = 8 ∨ simd = 16)
    (pointers : qword = true → g.isKnown = true ∧ g.isGen8Family = true)
    (target : IsVector sp p (pointerBytes qword * simd.toNat)) (scalar : IsDword tmp t)
    (vector : IsVector lane l (4 * simd.toNat)) (header : 24 ≤ l) (apart : t + 4 ≤ l ∨ l + 4 * simd.toNat ≤ t)
    (apart' : p + pointerBytes qword * simd.toNat ≤ l ∨ l + 4 * simd.toNat ≤ p) :
    ∃ pieces, (Sequence.stackPointer s simd size sp tmp lane qword).mapM (fun x => g.assemble x.state x.command) =
        .ok pieces ∧
      ∀ m : Machine, ∃ m', m.run g.layout pieces.flatten = some m' ∧ ∀ i < simd.toNat,
        (m'.registers.load (p + i * pointerBytes qword) (pointerBytes qword)).toNat =
            stackOffset m simd size i % 4294967296 ∧
          ((m'.registers.load (p + i * pointerBytes qword) (pointerBytes qword)).toNat = stackOffset m simd size i ↔
            stackOffset m simd size i < 4294967296) ∧
          (simd = 8 → size.toNat ≤ 1048576 → stackOffset m simd size i < 4294967296) := by
  obtain ⟨pieces, made, runs⟩ :=
    stackPointer_runs qword issuable wide target scalar vector header apart apart' pointers size
  refine ⟨pieces, made, fun m => ?_⟩
  obtain ⟨m', ran, values⟩ := runs m
  refine ⟨m', ran, fun i inside => ⟨values i inside, ?_, ?_⟩⟩
  · rw [values i inside]
    constructor
    · intro same
      rw [← same]
      exact Nat.mod_lt _ (by decide)
    · exact Nat.mod_eq_of_lt
  · rintro rfl small
    have thread := threadNumber_lt m
    have few : threadNumber m * Int.toNat 8 + i ≤ 4095 := by
      change threadNumber m * 8 + i ≤ 4095
      change i < 8 at inside
      omega
    exact Nat.lt_of_le_of_lt (Nat.mul_le_mul few small) (by decide)

/-- Qword pointers in the eleventh register and on, a temporary dword and lane numbers. -/
theorem pointers_placed : IsVector (.vec8 10 0 .ul) 320 128 ∧ IsDword (.ud1 20 0) 640 ∧ IsVector (.ud8 30 0) 960 64 :=
  ⟨⟨⟨rfl, rfl, rfl, by decide⟩, by decide, ⟨8, .inr (.inl rfl), rfl⟩, ⟨rfl, rfl⟩, by decide⟩,
    ⟨⟨rfl, rfl, rfl, by decide⟩, by decide, ⟨rfl, rfl⟩, by decide⟩,
    ⟨⟨rfl, rfl, rfl, by decide⟩, by decide, ⟨8, .inr (.inl rfl), rfl⟩, ⟨rfl, rfl⟩, by decide⟩⟩

theorem pointers_issuable : Issuable .gen9 (State.unmasked { execWidth := 16 } 8) :=
  ⟨⟨by decide, by decide⟩, .inr (.inr (.inl rfl)), ⟨(0, 0), rfl⟩⟩

theorem stackPointers_exact_gen9 : ∃ pieces,
    (Sequence.stackPointer { execWidth := 16 } 16 256 (.vec8 10 0 .ul) (.ud1 20 0) (.ud8 30 0) true).mapM
        (fun x => Generation.gen9.assemble x.state x.command) = .ok pieces ∧
      ∀ m : Machine, ∃ m', m.run (layout .gen9) pieces.flatten = some m' ∧
        ∀ i < 16, (m'.registers.load (320 + i * 8) 8).toNat = stackOffset m 16 256 i % 4294967296 := by
  obtain ⟨vector, scalar, lanes⟩ := pointers_placed
  obtain ⟨pieces, made, runs⟩ := stackPointers_exact .gen9 { execWidth := 16 } 16 256 _ _ _ true 320 640 960
    pointers_issuable (.inr rfl) (fun _ => ⟨rfl, rfl⟩) vector scalar lanes (by decide) (by decide) (by decide)
  refine ⟨pieces, made, fun m => ?_⟩
  obtain ⟨m', ran, values⟩ := runs m
  exact ⟨m', ran, fun i inside => (values i inside).1⟩

/-- The last hardware thread. -/
def lastThread : Machine where
  registers := Memory.store (fun _ => 0) 20 4 0x1ff
  address _ := 0
  flag := 0

/-- With sixteen lanes and a mebibyte for each, the last thread has no pointer right. -/
theorem stackPointers_wrap : ∃ pieces m',
    (Sequence.stackPointer { execWidth := 16 } 16 1048576 (.vec8 10 0 .ul) (.ud1 20 0) (.ud8 30 0) true).mapM
        (fun x => Generation.gen9.assemble x.state x.command) = .ok pieces ∧
      lastThread.run (layout .gen9) pieces.flatten = some m' ∧ ∀ i < 16,
        (m'.registers.load (320 + i * 8) 8).toNat + 4294967296 =
          ((lastThread.registers.load 20 4 &&& 0x1ff).toNat * 16 + i) * 1048576 := by
  obtain ⟨vector, scalar, lanes⟩ := pointers_placed
  obtain ⟨pieces, made, runs⟩ := stackPointer_runs true pointers_issuable (.inr rfl) vector scalar lanes
    (by decide) (by decide) (by decide) (fun _ => ⟨rfl, rfl⟩) 1048576
  obtain ⟨m', ran, values⟩ := runs lastThread
  refine ⟨pieces, m', made, ran, fun i inside => ?_⟩
  have value := values i inside
  have thread : threadNumber lastThread = 511 := by decide
  change (m'.registers.load (320 + i * 8) 8).toNat = (threadNumber lastThread * 16 + i) * 1048576 % 4294967296 at value
  change _ = (threadNumber lastThread * 16 + i) * 1048576
  rw [value, thread]
  omega

end GpuCodegen.Stacks
