import GpuCodegen.Proofs.QwordLanes

/-! Products of qwords from dwords. The sequences for the low and the high half of a 64-bit product are
followed in one lane as assignments to its qwords; where operands and temporaries are apart, the words
of a sequence leave the product in every lane they work on. -/

namespace GpuCodegen.Lanes
open Native Generation WordRoundTrip Outcome

/-! ## One lane -/

namespace Part

@[simp] theorem whole_get (v : UInt64) : whole.get v = v := rfl

@[simp] theorem whole_set (old v : UInt64) : whole.set old v = v := rfl

theorem low_toNat (v : UInt64) : (low.get v).toNat = v.toNat % 2 ^ 32 := rfl

theorem high_toNat (v : UInt64) : (high.get v).toNat = v.toNat / 2 ^ 32 := rfl

@[simp] theorem low_get_set (old v : UInt64) : low.get (low.set old v) = low.get v := by
  rw [← UInt64.toNat_inj]
  simp only [get, set, UInt64.toNat_mod, UInt64.toNat_add, UInt64.toNat_mul, UInt64.toNat_div]
  change (old.toNat / 4294967296 * 4294967296 % 2 ^ 64 + v.toNat % 4294967296) % 2 ^ 64 % 4294967296 =
    v.toNat % 4294967296
  omega

@[simp] theorem low_get_high (v : UInt64) : low.get (high.get v) = high.get v := by
  rw [← UInt64.toNat_inj, low_toNat, high_toNat]
  have bound := v.toNat_lt
  omega

theorem join (v : UInt64) : v = high.get v * 0x100000000 + low.get v := by
  rw [← UInt64.toNat_inj, UInt64.toNat_add, UInt64.toNat_mul, low_toNat, high_toNat]
  have bound := v.toNat_lt
  change _ = (v.toNat / 2 ^ 32 * 4294967296 % 2 ^ 64 + v.toNat % 2 ^ 32) % 2 ^ 64
  omega

end Part

theorem shl_32 (a : UInt64) : qwordResult .shl a 32 = a * 0x100000000 := by
  rw [← UInt64.toNat_inj]
  simp [qwordResult, UInt64.toNat_shiftLeft, Nat.shiftLeft_eq]

theorem shr_32 (a : UInt64) : qwordResult .shr a 32 = Part.high.get a := by
  rw [← UInt64.toNat_inj]
  simp [qwordResult, UInt64.toNat_shiftRight, Nat.shiftRight_eq_div_pow, Part.high_toNat]

/-- A product needs three of the four products of dwords. -/
theorem product_low (a b : UInt64) :
    Part.low.get a * Part.low.get b + Part.low.get a * Part.high.get b * 0x100000000 +
      Part.high.get a * Part.low.get b * 0x100000000 = a * b := by
  conv => rhs; rw [Part.join a, Part.join b]
  generalize Part.low.get a = al
  generalize Part.low.get b = bl
  generalize Part.high.get a = ah
  generalize Part.high.get b = bh
  grind

/-- A word that copies part of a row. -/
def copies (target : Nat) (part : Part) (source : Value) : Assignment :=
  ⟨target, part, fun a _ => a, source, .constant 0⟩

/-- A word that computes whole qwords of a row. -/
def computes (target : Nat) (op : BinaryOp) (first second : Value) : Assignment :=
  ⟨target, .whole, qwordResult op, first, second⟩

/-- The words of a low product, on the rows of its operands and of a temporary. -/
def lowSteps (dst a b tmp : Nat) : List Assignment :=
  [computes dst .mul (.row a .low) (.row b .low),
    copies tmp .low (.row b .high),
    computes tmp .mul (.row a .low) (.row tmp .low),
    computes tmp .shl (.row tmp .whole) (.constant 32),
    computes dst .add (.row dst .whole) (.row tmp .whole),
    copies tmp .low (.row a .high),
    computes tmp .mul (.row tmp .low) (.row b .low),
    computes tmp .shl (.row tmp .whole) (.constant 32),
    computes dst .add (.row dst .whole) (.row tmp .whole)]

theorem lowSteps_product {dst a b tmp : Nat} (nodup : [dst, tmp].Nodup) (outA : a ∉ [dst, tmp])
    (outB : b ∉ [dst, tmp]) (cells : Nat → UInt64) :
    (lowSteps dst a b tmp).foldl Assignment.apply cells dst = cells a * cells b := by
  simp only [List.nodup_cons, List.mem_cons, List.not_mem_nil, or_false, not_or] at nodup outA outB
  obtain ⟨apart, -⟩ := nodup
  simp only [lowSteps, copies, computes, List.foldl_cons, List.foldl_nil, Assignment.apply, Value.of, if_true,
    if_neg apart, if_neg (Ne.symm apart), if_neg outA.1, if_neg outA.2, if_neg outB.1, if_neg outB.2,
    Part.whole_get, Part.whole_set, Part.low_get_set, Part.low_get_high, shl_32]
  exact product_low (cells a) (cells b)

/-- The words of a high product. The low product and two temporaries are overwritten on the way. -/
def highSteps (dst a b low t0 t1 : Nat) : List Assignment :=
  [copies t0 .low (.row a .high),
    copies low .low (.row b .high),
    computes dst .mul (.row t0 .low) (.row low .low),
    computes t1 .mul (.row t0 .low) (.row b .low),
    computes t0 .mul (.row a .low) (.row low .low),
    computes low .mul (.row a .low) (.row b .low),
    computes t1 .add (.row t1 .whole) (.row t0 .low),
    computes t0 .shr (.row t0 .whole) (.constant 32),
    computes dst .add (.row dst .whole) (.row t0 .low),
    copies t0 .low (.row low .high),
    computes t1 .add (.row t1 .whole) (.row t0 .low),
    computes t0 .shl (.row t1 .whole) (.constant 32),
    copies low .high (.row t0 .high),
    computes t0 .shr (.row t1 .whole) (.constant 32),
    computes dst .add (.row dst .whole) (.row t0 .whole)]

/-- An assignment that adds. -/
def IsSum (x : Assignment) : Prop := x.op = qwordResult .add

theorem copies_isSum (target : Nat) (part : Part) (source : Value) : ¬ IsSum (copies target part source) := by
  intro sum
  have values : (0 : UInt64) = qwordResult .add 0 1 := congrFun (congrFun sum 0) 1
  exact absurd values (by decide)

theorem computes_isSum (target : Nat) (op : BinaryOp) (first second : Value) :
    IsSum (computes target op first second) ↔ op = .add := by
  constructor
  · intro sum
    have values : qwordResult op 0 1 = qwordResult .add 0 1 := congrFun (congrFun sum 0) 1
    cases op <;> first | rfl | exact absurd values (by decide)
  · rintro rfl
    rfl

/-- No sum among assignments leaves 64 bits, in a lane that has given qwords before them. -/
def StepsFit (cells : Nat → UInt64) : List Assignment → Prop
  | [] => True
  | x :: rest =>
    (IsSum x → (x.first.of cells).toNat + (x.second.of cells).toNat < 2 ^ 64) ∧ StepsFit (x.apply cells) rest

/-- Whether sums fit depends only on the rows that are named. -/
theorem StepsFit.congr {rows : List Nat} {xs : List Assignment} (named : ∀ x ∈ xs, ∀ a ∈ x.rows, a ∈ rows)
    {cells cells' : Nat → UInt64} (same : ∀ a ∈ rows, cells a = cells' a) (fits : StepsFit cells xs) :
    StepsFit cells' xs := by
  induction xs generalizing cells cells' with
  | nil => trivial
  | cons x rest ih =>
    obtain ⟨here, later⟩ := fits
    have names := named x List.mem_cons_self
    have first : x.first.of cells = x.first.of cells' :=
      Assignment.value_congr fun a used => same a (names a (by simp [Assignment.rows, used]))
    have second : x.second.of cells = x.second.of cells' :=
      Assignment.value_congr fun a used => same a (names a (by simp [Assignment.rows, used]))
    refine ⟨by rw [← first, ← second]; exact here, ?_⟩
    exact ih (fun y member => named y (List.mem_cons_of_mem _ member))
      (Assignment.foldl_congr [x] (by simpa using names) same) later

/-- The middle products of dwords, with the carries from below. -/
def middle (a b : UInt64) : UInt64 :=
  Part.high.get a * Part.low.get b + Part.low.get (Part.low.get a * Part.high.get b) +
    Part.high.get (Part.low.get a * Part.low.get b)

/-- The results of a lane, and the sums that are computed on the way. -/
theorem highSteps_lane {dst a b low t0 t1 : Nat} (nodup : [dst, low, t0, t1].Nodup)
    (outA : a ∉ [dst, low, t0, t1]) (outB : b ∉ [dst, low, t0, t1]) (cells : Nat → UInt64) :
    (highSteps dst a b low t0 t1).foldl Assignment.apply cells dst =
        Part.high.get (cells a) * Part.high.get (cells b) +
          Part.high.get (Part.low.get (cells a) * Part.high.get (cells b)) +
          Part.high.get (middle (cells a) (cells b)) ∧
      (highSteps dst a b low t0 t1).foldl Assignment.apply cells low =
        Part.high.set (Part.low.get (cells a) * Part.low.get (cells b))
          (Part.high.get (middle (cells a) (cells b) * 0x100000000)) ∧
      (StepsFit cells (highSteps dst a b low t0 t1) ↔
        (Part.high.get (cells a) * Part.low.get (cells b)).toNat +
            (Part.low.get (Part.low.get (cells a) * Part.high.get (cells b))).toNat < 2 ^ 64 ∧
          (Part.high.get (cells a) * Part.high.get (cells b)).toNat +
            (Part.high.get (Part.low.get (cells a) * Part.high.get (cells b))).toNat < 2 ^ 64 ∧
          (Part.high.get (cells a) * Part.low.get (cells b) +
              Part.low.get (Part.low.get (cells a) * Part.high.get (cells b))).toNat +
            (Part.high.get (Part.low.get (cells a) * Part.low.get (cells b))).toNat < 2 ^ 64 ∧
          (Part.high.get (cells a) * Part.high.get (cells b) +
              Part.high.get (Part.low.get (cells a) * Part.high.get (cells b))).toNat +
            (Part.high.get (middle (cells a) (cells b))).toNat < 2 ^ 64) := by
  simp only [List.nodup_cons, List.mem_cons, List.not_mem_nil, or_false, not_or] at nodup outA outB
  obtain ⟨⟨dstLow, dstT0, dstT1⟩, ⟨lowT0, lowT1⟩, t0T1, -⟩ := nodup
  obtain ⟨dstA, lowA, t0A, t1A⟩ := outA
  obtain ⟨dstB, lowB, t0B, t1B⟩ := outB
  simp only [highSteps, StepsFit, copies_isSum, computes_isSum, reduceCtorEq, false_implies, true_and, forall_const,
    and_true, List.foldl_cons, List.foldl_nil]
  simp only [copies, computes]
  simp only [Assignment.apply, Value.of, if_true,
    if_neg dstA, if_neg lowA, if_neg t0A, if_neg t1A, if_neg dstB, if_neg lowB, if_neg t0B, if_neg t1B,
    if_neg dstLow, if_neg dstT0, if_neg dstT1, if_neg lowT0, if_neg lowT1, if_neg t0T1,
    if_neg (Ne.symm dstLow), if_neg (Ne.symm dstT0), if_neg (Ne.symm dstT1), if_neg (Ne.symm lowT0),
    if_neg (Ne.symm lowT1), if_neg (Ne.symm t0T1), Part.whole_get, Part.whole_set, Part.low_get_set,
    Part.low_get_high, shl_32, shr_32]
  exact ⟨rfl, rfl, Iff.rfl⟩

/-- The high half of a product. -/
def highProduct (a b : UInt64) : UInt64 := UInt64.ofNat (a.toNat * b.toNat / 2 ^ 64)

/-- A product of qwords as the sum of four products of dwords. -/
structure DwordProducts (a b high left right low : Nat) : Prop where
  whole : a * b = high * 2 ^ 64 + (left + right) * 2 ^ 32 + low
  high : high ≤ (2 ^ 32 - 1) * (2 ^ 32 - 1)
  left : left ≤ (2 ^ 32 - 1) * (2 ^ 32 - 1)
  right : right ≤ (2 ^ 32 - 1) * (2 ^ 32 - 1)
  low : low ≤ (2 ^ 32 - 1) * (2 ^ 32 - 1)

theorem dwordProducts (a b : UInt64) : DwordProducts a.toNat b.toNat
    ((Part.high.get a * Part.high.get b).toNat) ((Part.high.get a * Part.low.get b).toNat)
    ((Part.low.get a * Part.high.get b).toNat) ((Part.low.get a * Part.low.get b).toNat) := by
  have dwords {x y : Nat} (smallX : x < 2 ^ 32) (smallY : y < 2 ^ 32) : x * y ≤ (2 ^ 32 - 1) * (2 ^ 32 - 1) :=
    Nat.mul_le_mul (by omega) (by omega)
  have boundA := a.toNat_lt
  have boundB := b.toNat_lt
  have hh := dwords (show a.toNat / 2 ^ 32 < 2 ^ 32 by omega) (show b.toNat / 2 ^ 32 < 2 ^ 32 by omega)
  have hl := dwords (show a.toNat / 2 ^ 32 < 2 ^ 32 by omega) (show b.toNat % 2 ^ 32 < 2 ^ 32 by omega)
  have lh := dwords (show a.toNat % 2 ^ 32 < 2 ^ 32 by omega) (show b.toNat / 2 ^ 32 < 2 ^ 32 by omega)
  have ll := dwords (show a.toNat % 2 ^ 32 < 2 ^ 32 by omega) (show b.toNat % 2 ^ 32 < 2 ^ 32 by omega)
  have splitA : a.toNat = a.toNat / 2 ^ 32 * 2 ^ 32 + a.toNat % 2 ^ 32 := by omega
  have splitB : b.toNat = b.toNat / 2 ^ 32 * 2 ^ 32 + b.toNat % 2 ^ 32 := by omega
  have fits {n : Nat} (small : n ≤ (2 ^ 32 - 1) * (2 ^ 32 - 1)) : n % 2 ^ 64 = n := Nat.mod_eq_of_lt (by omega)
  simp only [UInt64.toNat_mul, Part.low_toNat, Part.high_toNat, fits hh, fits hl, fits lh, fits ll]
  refine ⟨?_, hh, hl, lh, ll⟩
  generalize a.toNat / 2 ^ 32 = ah at splitA ⊢
  generalize a.toNat % 2 ^ 32 = al at splitA ⊢
  generalize b.toNat / 2 ^ 32 = bh at splitB ⊢
  generalize b.toNat % 2 ^ 32 = bl at splitB ⊢
  rw [splitA, splitB]
  grind

/-- A product by the four products of dwords. The sum of the middle ones with the carry from below fits
64 bits. -/
theorem product_high (a b : UInt64) :
    Part.high.get a * Part.high.get b + Part.high.get (Part.low.get a * Part.high.get b) +
        Part.high.get (Part.high.get a * Part.low.get b + Part.low.get (Part.low.get a * Part.high.get b) +
          Part.high.get (Part.low.get a * Part.low.get b)) = highProduct a b := by
  obtain ⟨whole, hh, hl, lh, ll⟩ := dwordProducts a b
  rw [← UInt64.toNat_inj]
  simp only [highProduct, UInt64.toNat_add, Part.low_toNat, Part.high_toNat, UInt64.toNat_ofNat', whole]
  omega

/-- The low half of a product takes the middle products from its second dword on. -/
theorem product_joined (a b : UInt64) :
    Part.high.set (Part.low.get a * Part.low.get b) (Part.high.get (middle a b * 0x100000000)) = a * b := by
  obtain ⟨whole, hh, hl, lh, ll⟩ := dwordProducts a b
  unfold middle
  generalize Part.high.get a * Part.high.get b = x at *
  generalize Part.high.get a * Part.low.get b = y at *
  generalize Part.low.get a * Part.high.get b = z at *
  generalize Part.low.get a * Part.low.get b = t at *
  have radix : UInt64.toNat 0x100000000 = 2 ^ 32 := rfl
  rw [← UInt64.toNat_inj]
  simp only [Part.set, UInt64.toNat_add, UInt64.toNat_mod, UInt64.toNat_mul, Part.low_toNat, Part.high_toNat, radix,
    whole]
  omega

section
variable {dst a b low t0 t1 : Nat} (nodup : [dst, low, t0, t1].Nodup) (outA : a ∉ [dst, low, t0, t1])
  (outB : b ∉ [dst, low, t0, t1]) (cells : Nat → UInt64)
include nodup outA outB

theorem highSteps_product :
    (highSteps dst a b low t0 t1).foldl Assignment.apply cells dst = highProduct (cells a) (cells b) :=
  (highSteps_lane nodup outA outB cells).1.trans (product_high (cells a) (cells b))

theorem highSteps_low : (highSteps dst a b low t0 t1).foldl Assignment.apply cells low = cells a * cells b :=
  (highSteps_lane nodup outA outB cells).2.1.trans (product_joined (cells a) (cells b))

/-- No sum of a high product leaves 64 bits. The middle one reaches 2^64 - 1 at most. -/
theorem highSteps_fit : StepsFit cells (highSteps dst a b low t0 t1) := by
  obtain ⟨whole, hh, hl, lh, ll⟩ := dwordProducts (cells a) (cells b)
  rw [(highSteps_lane nodup outA outB cells).2.2, middle]
  generalize Part.high.get (cells a) * Part.high.get (cells b) = x at *
  generalize Part.high.get (cells a) * Part.low.get (cells b) = y at *
  generalize Part.low.get (cells a) * Part.high.get (cells b) = z at *
  generalize Part.low.get (cells a) * Part.low.get (cells b) = t at *
  simp only [UInt64.toNat_add, Part.low_toNat, Part.high_toNat]
  omega

end

/-! ## Operands -/

/-- A qword operand of a word: a vector, or the single element of one lane. -/
structure IsQwords (r : Register) (address lanes : Nat) : Prop where
  file : r.file = .grf
  direct : r.indirect = none
  negate : r.negate = false
  absolute : r.absolute = false
  type : r.type = .ul ∨ r.type = .l
  region : r.region = .ofCounts 4 4 1 ∨ r.region = .scalar ∧ lanes ≤ 1
  sub : r.sub.toNat < 32
  base : r.number.toNat * 32 + r.sub.toNat = address

section
variable {r : Register} {address lanes : Nat}

theorem byteOffset_toNat {r : Register} (number : r.number.toNat < 128) (sub : r.sub.toNat < 64) :
    r.byteOffset.toNat = r.number.toNat * 32 + r.sub.toNat := by
  have size : grfSize.toNat = 32 := rfl
  simp only [Register.byteOffset, UInt32.toNat_add, UInt32.toNat_mul, size]
  omega

/-- The whole qwords of an operand, under either type. -/
theorem IsQwords.whole (qwords : IsQwords r address lanes) (number : r.number.toNat < 128) {t : DataType}
    (type : t = .ul ∨ t = .l) : IsRow (r.retype t) address .whole lanes := by
  have size : t.size = 8 := by rcases type with rfl | rfl <;> rfl
  have sub := qwords.sub
  have rows (lane : Nat) : (Region.ofCounts 4 4 1).element lane = lane := by
    have vertical : (strideElems (Region.ofCounts 4 4 1).vertical).toNat = 4 := by decide
    have horizontal : (strideElems (Region.ofCounts 4 4 1).horizontal).toNat = 1 := by decide
    have width : Nat.pow 2 (Region.ofCounts 4 4 1).width.toNat = 4 := by decide
    rw [Region.element, vertical, horizontal, width]
    omega
  refine ⟨qwords.file, qwords.direct, qwords.negate, qwords.absolute, .inl ⟨rfl, type⟩, ?_, ?_, ?_, ?_, ?_, ?_, ?_⟩
  · change r.byteOffset.toNat = address
    rw [byteOffset_toNat number (by omega), qwords.base]
  · rcases qwords.region with vector | ⟨single, -⟩
    · left
      simp only [Register.retype, vector]
      decide
    · exact .inr single
  · intro lane inside
    change r.region.element lane * t.size = 8 * lane
    rcases qwords.region with vector | ⟨-, few⟩
    · rw [vector, rows, size]
      omega
    · obtain rfl : lane = 0 := by omega
      simp [Region.element]
  · intro lane inside
    change lane * (strideElems (destinationStride (r.retype t))).toNat * t.size = 8 * lane
    rcases qwords.region with vector | ⟨-, few⟩
    · have stride : (strideElems (destinationStride (r.retype t))).toNat = 1 := by
        simp only [destinationStride, Register.retype, vector]
        rw [if_neg (by decide)]
        decide
      rw [stride, size]
      omega
    · obtain rfl : lane = 0 := by omega
      simp
  · rcases qwords.region with vector | ⟨single, -⟩
    · simp only [Register.retype, vector]
      decide
    · simp only [Register.retype, single]
      decide
  · rcases qwords.region with vector | ⟨single, -⟩
    · simp only [Register.retype, vector]
      decide
    · simp only [Register.retype, single]
      decide
  · rcases qwords.region with vector | ⟨single, -⟩
    · simp only [Register.retype, vector]
      decide
    · simp only [Register.retype, single]
      decide

theorem IsQwords.unpacked (qwords : IsQwords r address lanes) (number : r.number.toNat < 128)
    (few : lanes ≤ 8) {n : UInt32} {part : Part} (half : part ≠ .whole) (shift : (4 * n).toNat = part.offset) :
    IsRow (r.unpackedDwords n) address part lanes := by
  have rows {lane : Nat} (inside : lane < lanes) : (Region.ofCounts 16 8 2).element lane = 2 * lane := by
    have single : lane < 8 := Nat.lt_of_lt_of_le inside few
    have vertical : (strideElems (Region.ofCounts 16 8 2).vertical).toNat = 16 := by decide
    have horizontal : (strideElems (Region.ofCounts 16 8 2).horizontal).toNat = 2 := by decide
    have width : Nat.pow 2 (Region.ofCounts 16 8 2).width.toNat = 8 := by decide
    rw [Region.element, vertical, horizontal, width]
    omega
  have small : part.offset ≤ 4 := by cases part <;> decide
  have sub := qwords.sub
  have moved : (r.sub + 4 * n).toNat = r.sub.toNat + part.offset := by
    rw [UInt32.toNat_add, shift]
    omega
  refine ⟨qwords.file, qwords.direct, qwords.negate, qwords.absolute, .inr ⟨half, rfl⟩, ?_,
    .inl (show (Region.ofCounts 16 8 2).width ≠ 0 by decide), ?_, ?_,
    show (Region.ofCounts 16 8 2).vertical.toNat < 16 by decide,
    show (Region.ofCounts 16 8 2).width.toNat < 8 by decide,
    show (Region.ofCounts 16 8 2).horizontal.toNat < 4 by decide⟩
  · have place : (r.unpackedDwords n).byteOffset.toNat = r.number.toNat * 32 + (r.sub + 4 * n).toNat :=
      byteOffset_toNat number (show (r.sub + 4 * n).toNat < 64 by omega)
    rw [place, moved, ← qwords.base]
    omega
  · intro lane inside
    change (Region.ofCounts 16 8 2).element lane * 4 = _
    rw [rows inside]
    omega
  · intro lane inside
    have stride : (strideElems (destinationStride (r.unpackedDwords n))).toNat = 2 := by
      have horizontal : (r.unpackedDwords n).region.horizontal = 2 :=
        show (Region.ofCounts 16 8 2).horizontal = 2 by decide
      rw [destinationStride, horizontal, if_neg (by decide)]
      decide
    change lane * (strideElems (destinationStride (r.unpackedDwords n))).toNat * 4 = _
    rw [stride]
    omega

theorem IsQwords.row {r : Register} {address lanes : Nat} (qwords : IsQwords r address lanes)
    (number : r.number.toNat < 128) : IsRow r address .whole lanes :=
  qwords.whole number qwords.type

/-- The low dwords of an operand of at most eight lanes. -/
theorem IsQwords.low (qwords : IsQwords r address lanes) (number : r.number.toNat < 128) (few : lanes ≤ 8) :
    IsRow (Sequence.low r) address .low lanes :=
  qwords.unpacked number few nofun rfl

/-- The high dwords of an operand of at most eight lanes. -/
theorem IsQwords.high (qwords : IsQwords r address lanes) (number : r.number.toNat < 128) (few : lanes ≤ 8) :
    IsRow (Sequence.high r) address .high lanes :=
  qwords.unpacked number few nofun rfl

end

/-! ## Sequences -/

/-- The registers of a word of one or two sources. -/
def operands : Command → List Register
  | .unary _ dst src => [dst, src]
  | .binary _ dst src0 src1 => [dst, src0, src1]
  | _ => []

@[simp] theorem operands_mov (dst src : Register) : operands (.mov dst src) = [dst, src] := rfl

@[simp] theorem operands_mul (dst src0 src1 : Register) : operands (.mul dst src0 src1) = [dst, src0, src1] := rfl

/-- A word only names general registers that exist. -/
theorem assemble_number {g : Generation} {s : State} {c : Command} {ws : List Word} {r : Register}
    (made : g.assemble s c = .ok ws) (member : r ∈ operands c) (file : r.file = .grf)
    (direct : r.indirect = none) : r.number.toNat < 128 := by
  have general : r.file ≠ .imm := by
    rw [file]
    nofun
  have checked {role : Role} {u : Unit} (passed : checkRegister role r = .ok u) : r.number.toNat < 128 := by
    have other : ¬ (r.file = .arf ∨ r.indirect.isSome = true) := by
      simp [file, direct]
    rw [checkRegister, if_neg other] at passed
    split at passed
    · cases passed
    · rename_i small
      rw [UInt32.not_le, UInt32.lt_iff_toNat_lt] at small
      exact small
  have destination {w w' : Word} (stored : g.setDestination r w = .ok w') : r.number.toNat < 128 := by
    simp only [setDestination, refuse_ok, bind_ok] at stored
    obtain ⟨-, u, passed, -⟩ := stored
    exact checked passed
  have first {w w' : Word} (stored : g.setSource0 s r w = .ok w') : r.number.toNat < 128 := by
    simp only [setSource0, if_neg general, bind_ok] at stored
    obtain ⟨u, passed, -⟩ := stored
    exact checked passed
  have second {w w' : Word} (stored : g.setSource1 s r w = .ok w') : r.number.toNat < 128 := by
    simp only [setSource1, refuse_ok, if_neg general, bind_ok] at stored
    obtain ⟨-, -, u, passed, -⟩ := stored
    exact checked passed
  cases c with
  | unary op dst src =>
    obtain ⟨w, built, -⟩ := map_ok.mp made
    simp only [unaryWord, bind_ok] at built
    obtain ⟨_, _, _, stored, stored0⟩ := built
    simp only [operands, List.mem_cons, List.not_mem_nil, or_false] at member
    rcases member with rfl | rfl
    · exact destination stored
    · exact first stored0
  | binary op dst src0 src1 =>
    obtain ⟨w, built, -⟩ := map_ok.mp made
    simp only [binaryWord, bind_ok] at built
    obtain ⟨_, _, _, stored, _, stored0, stored1⟩ := built
    simp only [operands, List.mem_cons, List.not_mem_nil, or_false] at member
    rcases member with rfl | rfl | rfl
    · exact destination stored
    · exact first stored0
    · exact second stored1
  | _ => cases member

section
variable {g : Generation} {s : State} {lanes : Nat} {dst src src0 src1 : Register} {target a b : Nat}
  {part part0 part1 : Part} {ws : List Word} (state : StateFits s) (width : s.execWidth.toNat = lanes)
include state width

/-- A command that becomes one word, which carries out an assignment. -/
def Carries (g : Generation) (s : State) (lanes : Nat) (c : Command) (x : Assignment) : Prop :=
  ∀ ws, g.assemble s c = .ok ws →
    ∃ w, ws = [w] ∧ StraightLine.Steady g w ∧ Performs g.layout lanes (lets s) w x

theorem carries_mov (row : IsRow dst target part lanes) (read : IsRow src a part0 lanes) :
    Carries g s lanes (.mov dst src) (copies target part (.row a part0)) :=
  fun _ made => mov_assigns state row width (read.reads s) made

theorem carries_mul (row : IsRow dst target .whole lanes) (read0 : IsRow src0 a part0 lanes)
    (read1 : IsRow src1 b part1 lanes) :
    Carries g s lanes (.mul dst src0 src1) (computes target .mul (.row a part0) (.row b part1)) :=
  fun _ made => binary_assigns state row width (read0.reads s) (read1.reads s) (.inr (.inl rfl)) made

theorem carries_add (row : IsRow dst target .whole lanes) (read0 : IsRow src0 a part0 lanes)
    (read1 : IsRow src1 b part1 lanes) :
    Carries g s lanes (.add dst src0 src1) (computes target .add (.row a part0) (.row b part1)) :=
  fun _ made => binary_assigns state row width (read0.reads s) (read1.reads s) (.inl rfl) made

theorem carries_shl (row : IsRow dst target .whole lanes) (read0 : IsRow src0 a .whole lanes) :
    Carries g s lanes (.shl dst src0 (.immUD 32)) (computes target .shl (.row a .whole) (.constant 32)) :=
  fun _ made => binary_assigns state row width (read0.reads s) (reads_shift s lanes)
    (.inr (.inr ⟨.inl rfl, a, read0⟩)) made

theorem carries_shr (row : IsRow dst target .whole lanes) (read0 : IsRow src0 a .whole lanes) :
    Carries g s lanes (.shr dst src0 (.immUD 32)) (computes target .shr (.row a .whole) (.constant 32)) :=
  fun _ made => binary_assigns state row width (read0.reads s) (reads_shift s lanes)
    (.inr (.inr ⟨.inr rfl, a, read0⟩)) made

end

section
variable {g : Generation} {s : State} {lanes : Nat} {cs : List Command} {pieces : List (List Word)}

theorem under_performs {xs : List Assignment} (carries : List.Forall₂ (Carries g s lanes) cs xs)
    (made : (Sequence.under s cs).mapM (fun x => g.assemble x.state x.command) = .ok pieces) :
    (∀ w ∈ pieces.flatten, StraightLine.Steady g w) ∧
      List.Forall₂ (Performs g.layout lanes (lets s)) pieces.flatten xs := by
  induction carries generalizing pieces with
  | nil =>
    rw [Sequence.under, List.map_nil, List.mapM_nil, pure_ok] at made
    subst made
    exact ⟨by simp, .nil⟩
  | cons first rest ih =>
    simp only [Sequence.under, List.map_cons, List.mapM_cons, bind_ok, pure_ok] at made
    obtain ⟨ws, assembled, others, later, rfl⟩ := made
    obtain ⟨w, rfl, steady, performs⟩ := first ws assembled
    obtain ⟨steadies, more⟩ := ih later
    refine ⟨?_, .cons performs more⟩
    intro v member
    rcases List.mem_cons.mp member with rfl | after
    · exact steady
    · exact steadies v after

theorem under_number (made : (Sequence.under s cs).mapM (fun x => g.assemble x.state x.command) = .ok pieces)
    {c : Command} (member : c ∈ cs) {r : Register} (operand : r ∈ operands c) (file : r.file = .grf)
    (direct : r.indirect = none) : r.number.toNat < 128 := by
  obtain ⟨n, here⟩ := List.getElem?_of_mem (List.mem_map_of_mem (f := fun c => (⟨s, c⟩ : Issue)) member)
  obtain ⟨ws, -, assembled⟩ := mapM_getElem made here
  exact assemble_number assembled operand file direct

end

section
variable {g : Generation} {s : State} {lanes dst a b low t0 t1 : Nat} {rDst rA rB rLow r0 r1 : Register}
  (state : StateFits s) (width : s.execWidth.toNat = lanes) (few : lanes ≤ 8)
  (qDst : IsQwords rDst dst lanes) (qA : IsQwords rA a lanes) (qB : IsQwords rB b lanes)
include state width few qDst qA qB

/-- The commands of a low product carry out its steps. -/
theorem multiply_carries (q0 : IsQwords r0 t0 lanes)
    (numbers : ∀ r ∈ [rDst, rA, rB, r0], r.number.toNat < 128) :
    List.Forall₂ (Carries g s lanes) ((Sequence.multiply s rDst rA rB r0).map (·.command))
      (lowSteps dst a b t0) := by
  simp only [List.forall_mem_cons, List.not_mem_nil, false_implies, implies_true, and_true] at numbers
  obtain ⟨nDst, nA, nB, n0⟩ := numbers
  have rowDst := qDst.whole nDst (.inl rfl)
  have row0 := q0.whole n0 (.inl rfl)
  have low0 := q0.low n0 few
  exact
    .cons (carries_mul state width rowDst (qA.low nA few) (qB.low nB few)) <|
    .cons (carries_mov state width low0 (qB.high nB few)) <|
    .cons (carries_mul state width row0 (qA.low nA few) low0) <|
    .cons (carries_shl state width row0 row0) <|
    .cons (carries_add state width rowDst rowDst row0) <|
    .cons (carries_mov state width low0 (qA.high nA few)) <|
    .cons (carries_mul state width row0 low0 (qB.low nB few)) <|
    .cons (carries_shl state width row0 row0) <|
    .cons (carries_add state width rowDst rowDst row0) .nil

/-- The commands of a full product carry out its steps. -/
theorem fullMultiply_carries (qLow : IsQwords rLow low lanes) (q0 : IsQwords r0 t0 lanes)
    (q1 : IsQwords r1 t1 lanes) (numbers : ∀ r ∈ [rDst, rA, rB, rLow, r0, r1], r.number.toNat < 128) :
    List.Forall₂ (Carries g s lanes) ((Sequence.fullMultiply s rA rB rDst rLow r0 r1).map (·.command))
      (highSteps dst a b low t0 t1) := by
  simp only [List.forall_mem_cons, List.not_mem_nil, false_implies, implies_true, and_true] at numbers
  obtain ⟨nDst, nA, nB, nLow, n0, n1⟩ := numbers
  have rowDst := qDst.whole nDst (.inl rfl)
  have rowLow := qLow.whole nLow (.inl rfl)
  have row0 := q0.whole n0 (.inl rfl)
  have row1 := q1.whole n1 (.inl rfl)
  have low0 := q0.low n0 few
  have lowLow := qLow.low nLow few
  exact
    .cons (carries_mov state width low0 (qA.high nA few)) <|
    .cons (carries_mov state width lowLow (qB.high nB few)) <|
    .cons (carries_mul state width rowDst low0 lowLow) <|
    .cons (carries_mul state width row1 low0 (qB.low nB few)) <|
    .cons (carries_mul state width row0 (qA.low nA few) lowLow) <|
    .cons (carries_mul state width rowLow (qA.low nA few) (qB.low nB few)) <|
    .cons (carries_add state width row1 row1 low0) <|
    .cons (carries_shr state width row0 row0) <|
    .cons (carries_add state width rowDst rowDst low0) <|
    .cons (carries_mov state width low0 (qLow.high nLow few)) <|
    .cons (carries_add state width row1 row1 low0) <|
    .cons (carries_shl state width row0 row1) <|
    .cons (carries_mov state width (qLow.high nLow few) (q0.high n0 few)) <|
    .cons (carries_shr state width row0 row1) <|
    .cons (carries_add state width rowDst rowDst row0) .nil

end

/-! ## Filled lanes -/

/-- Words that give lanes of a row their values, `count` lanes from `first` on, where the flag lets them.
Nothing changes but these lanes of a few rows. -/
def Fills (l : Layout) (ws : List Word) (first count : Nat) (on : UInt32 → Nat → Bool) (dst : Nat)
    (rows : List Nat) (value : Machine → Nat → UInt64) : Prop :=
  ∀ m : Machine, ∃ m', m.run l ws = some m' ∧ m'.flag = m.flag ∧
    (∀ lane, first ≤ lane → lane < first + count → on m.flag lane = true → qword m' dst lane = value m lane) ∧
    ∀ b, (∀ row ∈ rows, b < row + 8 * first ∨ row + 8 * (first + count) ≤ b) → m'.registers b = m.registers b

/-- Rows of a number of lanes that share no byte. -/
def RowsApart (lanes a b : Nat) : Prop := a + 8 * lanes ≤ b ∨ b + 8 * lanes ≤ a

theorem qword_shift (m : Machine) (address first lane : Nat) :
    qword m (address + 8 * first) lane = qword m address (first + lane) := by
  rw [qword, qword, show address + 8 * first + 8 * lane = address + 8 * (first + lane) by omega]

theorem performs_fills {l : Layout} {ws : List Word} {xs : List Assignment} {s : State}
    {first count lanes dst : Nat} {on : UInt32 → Nat → Bool} {rows targets : List Nat}
    {value : Machine → Nat → UInt64} (inside : first + count ≤ lanes)
    (apart : ∀ a ∈ rows, ∀ b ∈ rows, a ≠ b → RowsApart lanes a b)
    (performs : List.Forall₂ (Performs l count (lets s)) ws xs)
    (gate : ∀ flag lane, lets s flag lane = on flag (first + lane))
    (named : ∀ x ∈ xs, ∀ a ∈ x.rows, a ∈ rows.map (· + 8 * first))
    (written : ∀ x ∈ xs, x.target ∈ targets.map (· + 8 * first)) (known : dst ∈ rows)
    (result : ∀ cells : Nat → UInt64, ∀ m lane, (∀ a, cells (a + 8 * first) = qword m a lane) →
      xs.foldl Assignment.apply cells (dst + 8 * first) = value m lane) :
    Fills l ws first count on dst targets value := by
  intro m
  have shifted : ∀ a ∈ rows.map (· + 8 * first), ∀ b ∈ rows.map (· + 8 * first), a ≠ b →
      a + 8 * count ≤ b ∨ b + 8 * count ≤ a := by
    intro a memberA b memberB differ
    obtain ⟨a, rowA, rfl⟩ := List.mem_map.mp memberA
    obtain ⟨b, rowB, rfl⟩ := List.mem_map.mp memberB
    have away := apart a rowA b rowB (by rintro rfl; exact differ rfl)
    unfold RowsApart at away
    omega
  obtain ⟨m', ran, flag, cells, around⟩ := run_lanes shifted performs named m
  refine ⟨m', ran, flag, ?_, ?_⟩
  · intro lane low high works
    obtain ⟨k, rfl⟩ : ∃ k, lane = first + k := ⟨lane - first, by omega⟩
    rw [← qword_shift, cells k (by omega) _ (List.mem_map_of_mem known), if_pos (by rw [gate]; exact works)]
    exact result _ m (first + k) fun a => qword_shift m a first k
  · intro b outside
    refine around b ?_
    intro x member
    obtain ⟨t, target, same⟩ := List.mem_map.mp (written x member)
    have away := outside t target
    omega

section
variable {g : Generation} {s : State} {first count lanes dst a b low t0 t1 : Nat}
  {on : UInt32 → Nat → Bool} {rDst rA rB rLow r0 r1 : Register} {pieces : List (List Word)}
  (state : StateFits s) (width : s.execWidth.toNat = count) (few : count ≤ 8) (inside : first + count ≤ lanes)
  (gate : ∀ flag lane, lets s flag lane = on flag (first + lane))
  (qDst : IsQwords rDst (dst + 8 * first) count) (qA : IsQwords rA (a + 8 * first) count)
  (qB : IsQwords rB (b + 8 * first) count)
include state width few inside gate qDst qA qB

/-- The words of a low product fill the destination with products. -/
theorem multiply_fills (q0 : IsQwords r0 (t0 + 8 * first) count)
    (apart : ∀ x ∈ [dst, a, b, t0], ∀ y ∈ [dst, a, b, t0], x ≠ y → RowsApart lanes x y)
    (nodup : [dst, t0].Nodup) (outA : a ∉ [dst, t0]) (outB : b ∉ [dst, t0])
    (made : (Sequence.multiply s rDst rA rB r0).mapM (fun x => g.assemble x.state x.command) = .ok pieces) :
    (∀ w ∈ pieces.flatten, StraightLine.Steady g w) ∧
      Fills g.layout pieces.flatten first count on dst [dst, t0] fun m lane => qword m a lane * qword m b lane := by
  have number {c : Command} {r : Register} := under_number (c := c) (r := r) made
  have nDst : rDst.number.toNat < 128 :=
    number List.mem_cons_self (r := rDst.retype .ul) (by simp) qDst.file qDst.direct
  have nA : rA.number.toNat < 128 :=
    number List.mem_cons_self (r := Sequence.low rA) (by simp) qA.file qA.direct
  have nB : rB.number.toNat < 128 :=
    number List.mem_cons_self (r := Sequence.low rB) (by simp) qB.file qB.direct
  have n0 : r0.number.toNat < 128 :=
    number (List.mem_cons_of_mem _ List.mem_cons_self) (r := Sequence.low (r0.retype .ul)) (by simp)
      q0.file q0.direct
  have carries : List.Forall₂ (Carries g s count) ((Sequence.multiply s rDst rA rB r0).map (·.command)) _ :=
    multiply_carries state width few qDst qA qB q0 (by simp [nDst, nA, nB, n0])
  obtain ⟨steady, performs⟩ := under_performs carries made
  refine ⟨steady, performs_fills inside apart performs gate ?_ ?_ (by simp) ?_⟩
  · simp [lowSteps, copies, computes, Assignment.rows, Value.rows]
  · simp [lowSteps, copies, computes]
  · intro cells m lane same
    rw [lowSteps_product (by simpa using nodup) (by simpa using outA) (by simpa using outB), same, same]

/-- The words of a high product fill the destination with the high halves of products. -/
theorem fullMultiply_fills (qLow : IsQwords rLow (low + 8 * first) count)
    (q0 : IsQwords r0 (t0 + 8 * first) count) (q1 : IsQwords r1 (t1 + 8 * first) count)
    (apart : ∀ x ∈ [dst, a, b, low, t0, t1], ∀ y ∈ [dst, a, b, low, t0, t1], x ≠ y → RowsApart lanes x y)
    (nodup : [dst, low, t0, t1].Nodup) (outA : a ∉ [dst, low, t0, t1]) (outB : b ∉ [dst, low, t0, t1])
    (made : (Sequence.fullMultiply s rA rB rDst rLow r0 r1).mapM (fun x => g.assemble x.state x.command) =
      .ok pieces) :
    (∀ w ∈ pieces.flatten, StraightLine.Steady g w) ∧
      Fills g.layout pieces.flatten first count on dst [dst, low, t0, t1] fun m lane =>
        highProduct (qword m a lane) (qword m b lane) := by
  have number {c : Command} {r : Register} := under_number (c := c) (r := r) made
  have nA : rA.number.toNat < 128 :=
    number List.mem_cons_self (r := Sequence.high rA) (by simp) qA.file qA.direct
  have n0 : r0.number.toNat < 128 :=
    number List.mem_cons_self (r := Sequence.low (r0.retype .ul)) (by simp) q0.file q0.direct
  have nB : rB.number.toNat < 128 :=
    number (List.mem_cons_of_mem _ List.mem_cons_self) (r := Sequence.high rB) (by simp) qB.file qB.direct
  have nLow : rLow.number.toNat < 128 :=
    number (List.mem_cons_of_mem _ List.mem_cons_self) (r := Sequence.low (rLow.retype .ul)) (by simp)
      qLow.file qLow.direct
  have nDst : rDst.number.toNat < 128 :=
    number (List.mem_cons_of_mem _ (List.mem_cons_of_mem _ List.mem_cons_self)) (r := rDst.retype .ul) (by simp)
      qDst.file qDst.direct
  have n1 : r1.number.toNat < 128 :=
    number (List.mem_cons_of_mem _ (List.mem_cons_of_mem _ (List.mem_cons_of_mem _ List.mem_cons_self)))
      (r := r1.retype .ul) (by simp) q1.file q1.direct
  have carries : List.Forall₂ (Carries g s count)
      ((Sequence.fullMultiply s rA rB rDst rLow r0 r1).map (·.command)) _ :=
    fullMultiply_carries state width few qDst qA qB qLow q0 q1 (by simp [nDst, nA, nB, nLow, n0, n1])
  obtain ⟨steady, performs⟩ := under_performs carries made
  refine ⟨steady, performs_fills inside apart performs gate ?_ ?_ (by simp) ?_⟩
  · simp [highSteps, copies, computes, Assignment.rows, Value.rows]
  · simp [highSteps, copies, computes]
  · intro cells m lane same
    rw [highSteps_product (by simpa using nodup) (by simpa using outA) (by simpa using outB), same, same]

end

end GpuCodegen.Lanes
