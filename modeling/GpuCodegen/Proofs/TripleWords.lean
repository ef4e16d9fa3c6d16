import GpuCodegen.Proofs.WordFields

/-! Three-source words have operand fields of their own, and a word of sixteen lanes becomes two words
of eight where the unit has no more lanes. -/

namespace GpuCodegen.WordRoundTrip
open Native Native.Layout Generation Outcome

/-- The fields of one source of a three-source word. -/
def tripleSourceFields (f : TripleSourceFields) : List Field :=
  [f.number, f.sub, f.swizzle, f.abs, f.neg, f.replicate]

/-- The fields of a three-source word that all sources share, without the access mode. -/
def tripleSharedFields (l : Layout) : List Field :=
  [l.header.opcode, l.header.execSize, l.header.quarterControl, l.header.maskControl,
    l.header.predControl, l.header.predInvert, l.header.condition, l.header.saturate,
    l.triple.flagReg, l.triple.flagSubreg, l.header.accessMode, l.triple.srcType, l.triple.dstType,
    l.triple.dstNumber, l.triple.dstSub, l.triple.writemask]

/-- What a source's fields say of it. -/
structure TripleSource (f : TripleSourceFields) (w : Word) (r : Register) : Prop where
  number : f.number.get w = r.number
  sub : f.sub.get w * 4 = r.sub
  absolute : f.abs.isOne w = r.absolute
  negate : f.neg.isOne w = r.negate
  replicate : f.replicate.isOne w = (r.region.vertical == 0)

theorem TripleSource.congr {f : TripleSourceFields} {w w' : Word} {r : Register}
    (reading : TripleSource f w r) (same : ∀ x ∈ tripleSourceFields f, x.get w' = x.get w) :
    TripleSource f w' r := by
  simp only [tripleSourceFields, List.mem_cons, List.not_mem_nil, or_false, forall_eq_or_imp,
    forall_eq] at same
  obtain ⟨number, sub, -, abs, neg, replicate⟩ := same
  refine ⟨?_, ?_, ?_, ?_, ?_⟩
  · rw [number, reading.number]
  · rw [sub, reading.sub]
  · rw [Field.isOne, abs, ← Field.isOne, reading.absolute]
  · rw [Field.isOne, neg, ← Field.isOne, reading.negate]
  · rw [Field.isOne, replicate, ← Field.isOne, reading.replicate]

/-- Where the fields of a source lie relative to each other, and how wide they are. -/
structure TripleSourceShape (f : TripleSourceFields) : Prop where
  number : f.number.Proper ∧ 2 ^ f.number.width = 256
  sub : f.sub.Proper ∧ 2 ^ f.sub.width = 8
  abs : f.abs.Proper ∧ f.abs.width = 1
  neg : f.neg.Proper ∧ f.neg.width = 1
  replicate : f.replicate.Proper ∧ f.replicate.width = 1
  numberClear : AllClear [f.number] [f.sub, f.swizzle, f.abs, f.neg, f.replicate]
  subClear : AllClear [f.sub] [f.swizzle, f.abs, f.neg, f.replicate]
  absClear : AllClear [f.abs] [f.neg, f.replicate]
  negClear : AllClear [f.neg] [f.replicate]

theorem tripleSource_shape (g : Generation) : ∀ f ∈ g.layout.triple.sources, TripleSourceShape f := by
  rcases layout_cases g with family | family <;> rw [family] <;> intro f member <;>
    simp only [TripleFields.sources, List.mem_cons, List.not_mem_nil, or_false] at member <;>
    rcases member with rfl | rfl | rfl <;> constructor <;> decide

/-- A checked operand of a three-source word names a dword of a general register. -/
theorem checkTriple_ok {role : Role} {r : Register} {u : Unit} (checked : checkTriple role r = .ok u) :
    r.number.toNat < 128 ∧ (r.sub / 4).toNat < 8 ∧ r.sub / 4 * 4 = r.sub := by
  unfold checkTriple at checked
  split at checked
  · cases checked
  · split at checked
    · cases checked
    · rename_i number
      split at checked
      · cases checked
      · rename_i aligned
        simp only [UInt32.not_le, UInt32.lt_iff_toNat_lt] at number
        change r.number.toNat < 128 at number
        simp only [not_or, Decidable.not_not, UInt32.not_le, UInt32.lt_iff_toNat_lt] at aligned
        obtain ⟨multiple, small⟩ := aligned
        change r.sub.toNat < 32 at small
        have remainder : r.sub.toNat % 4 = 0 := by
          have := congrArg UInt32.toNat multiple
          simpa using this
        refine ⟨number, ?_, ?_⟩
        · simp only [UInt32.toNat_div, UInt32.reduceToNat]
          omega
        · apply UInt32.toNat_inj.mp
          simp only [UInt32.toNat_mul, UInt32.toNat_div, UInt32.reduceToNat]
          omega

theorem setTripleSource_reads {f : TripleSourceFields} {r : Register} (shape : TripleSourceShape f)
    (number : r.number.toNat < 128) (sub : (r.sub / 4).toNat < 8) (whole : r.sub / 4 * 4 = r.sub)
    (w : Word) : TripleSource f (setTripleSource f r w) r := by
  unfold setTripleSource
  have numberClear := shape.numberClear _ (List.mem_singleton.mpr rfl)
  have subClear := shape.subClear _ (List.mem_singleton.mpr rfl)
  have absClear := shape.absClear _ (List.mem_singleton.mpr rfl)
  have negClear := shape.negClear _ (List.mem_singleton.mpr rfl)
  simp only [List.mem_cons, List.not_mem_nil, or_false, forall_eq_or_imp, forall_eq]
    at numberClear subClear absClear negClear
  refine ⟨?_, ?_, ?_, ?_, ?_⟩
  · rw [get_setBool_clear numberClear.2.2.2.2, get_setBool_clear numberClear.2.2.2.1,
      get_setBool_clear numberClear.2.2.1, get_set_clear numberClear.2.1, get_set_clear numberClear.1,
      get_set_lt 256 shape.number (by omega)]
  · rw [get_setBool_clear subClear.2.2.2, get_setBool_clear subClear.2.2.1,
      get_setBool_clear subClear.2.1, get_set_clear subClear.1, get_set_lt 8 shape.sub sub, whole]
  · rw [isOne_setBool_clear absClear.2, isOne_setBool_clear absClear.1, isOne_setBool shape.abs]
  · rw [isOne_setBool_clear negClear, isOne_setBool shape.neg]
  · rw [isOne_setBool shape.replicate]

theorem setTripleSource_stored (f : TripleSourceFields) (r : Register) (w : Word) :
    Stored (tripleSourceFields f) w (setTripleSource f r w) := by
  unfold setTripleSource Field.setBool
  repeat' first | exact .same | refine .store _ (by simp [tripleSourceFields]) ?_

/-- What the shared fields of a three-source word say. -/
structure TripleShared (g : Generation) (w : Word) (h : Decoded) (dst : Register) (type : DataType) :
    Prop where
  header : { g.layout.decodeHeader w with
    flag := g.layout.triple.flagReg.get w
    subFlag := g.layout.triple.flagSubreg.get w } = h
  sourceType : typeOf? g.layout.tripleTypes (g.layout.triple.srcType.get w) = some type
  type : typeOf? g.layout.tripleTypes (g.layout.triple.dstType.get w) = some dst.type
  number : g.layout.triple.dstNumber.get w = dst.number
  sub : g.layout.triple.dstSub.get w * 4 = dst.sub
  writemask : g.layout.triple.writemask.get w = 0xf

theorem TripleShared.congr {g : Generation} {w w' : Word} {h : Decoded} {dst : Register}
    {type : DataType} (reading : TripleShared g w h dst type)
    (same : ∀ x ∈ tripleSharedFields g.layout, x.get w' = x.get w) : TripleShared g w' h dst type := by
  simp only [tripleSharedFields, List.mem_cons, List.not_mem_nil, or_false, forall_eq_or_imp,
    forall_eq] at same
  refine ⟨?_, ?_, ?_, ?_, ?_, ?_⟩
  · rw [← reading.header]
    simp [decodeHeader, Field.isOne, same]
  · simpa only [same] using reading.sourceType
  · simpa only [same] using reading.type
  · simpa only [same] using reading.number
  · simpa only [same] using reading.sub
  · simpa only [same] using reading.writemask

/-- Everything a three-source word says of its operands. -/
structure TripleWord (g : Generation) (w : Word) (h : Decoded) (dst src0 src1 src2 : Register) :
    Prop where
  shared : TripleShared g w h dst src0.type
  source0 : TripleSource g.layout.triple.src0 w src0
  source1 : TripleSource g.layout.triple.src1 w src1
  source2 : TripleSource g.layout.triple.src2 w src2

/-- What decoding gives for a source of a three-source word: one element for all lanes, or one row. -/
def readTripleSource (type : DataType) (r : Register) : Register :=
  let place := Register.vec8 r.number r.sub type
  { (if r.region.vertical = 0 then place.toScalar else place) with
    absolute := r.absolute, negate := r.negate }

/-- What decoding gives for a three-source word. -/
def readTriple (h : Decoded) (dst src0 src1 src2 : Register) : Decoded :=
  { h with
    dst := .vec8 dst.number dst.sub dst.type
    writemask := 0xf
    sources := [src0, src1, src2].map (readTripleSource src0.type) }

theorem decodeTripleSource_reads {f : TripleSourceFields} {w : Word} {r : Register} (type : DataType)
    (reading : TripleSource f w r) : decodeTripleSource f w type = readTripleSource type r := by
  simp [decodeTripleSource, readTripleSource, reading.number, reading.sub, reading.absolute,
    reading.negate, reading.replicate]

theorem TripleWord.decodes {g : Generation} {w : Word} {h : Decoded} {dst src0 src1 src2 : Register}
    (reading : TripleWord g w h dst src0 src1 src2) (triple : h.opcode.isThreeSource = true) :
    g.layout.decode w = .ok (readTriple h dst src0 src1 src2) := by
  have opcode : (g.layout.decodeHeader w).opcode = h.opcode := by rw [← reading.shared.header]
  simp only [decode, opcode, triple, ↓reduceIte, decodeTriple, reading.shared.sourceType,
    reading.shared.type, Option.getD_some, reading.shared.number, reading.shared.sub,
    reading.shared.writemask, TripleFields.sources, List.map_cons, List.map_nil,
    decodeTripleSource_reads _ reading.source0, decodeTripleSource_reads _ reading.source1,
    decodeTripleSource_reads _ reading.source2, readTriple]
  rw [← reading.shared.header]

theorem tripleTypeCode_ok {g : Generation} {t : DataType} {code : UInt32}
    (known : g.tripleTypeCode t = .ok code) :
    typeOf? g.layout.tripleTypes code = some t ∧ code.toNat < 2 ^ g.layout.triple.srcType.width ∧
      code.toNat < 2 ^ g.layout.triple.dstType.width := by
  unfold tripleTypeCode at known
  split at known
  · rename_i c found
    cases known
    split at found
    · have distinct : g.layout.tripleTypes.Pairwise fun a b => a.2 ≠ b.2 := by
        rcases layout_cases g with family | family <;> rw [family] <;> decide
      have narrow : ∀ entry ∈ g.layout.tripleTypes,
          entry.2.toNat < 2 ^ g.layout.triple.srcType.width ∧
            entry.2.toNat < 2 ^ g.layout.triple.dstType.width := by
        rcases layout_cases g with family | family <;> rw [family] <;> decide
      obtain ⟨type, member⟩ := typeOf_codeOf distinct found
      exact ⟨type, narrow _ member⟩
    · cases found
  · cases known

/-- The stores of a three-source word before its sources. -/
def tripleBase (l : Layout) (dst : Register) (dstCode srcCode : UInt32) (w : Word) : Word :=
  let t := l.triple
  t.writemask.set 0xf (t.dstSub.set (dst.sub / 4) (t.dstNumber.set dst.number
    (t.srcType.set srcCode (t.dstType.set dstCode (t.dstFile.set 0 (l.header.accessMode.set 1 w))))))

theorem tripleWord_ok {g : Generation} {s : State} {op : Native.Opcode}
    {dst src0 src1 src2 : Register} {w : Word}
    (encoded : g.tripleWord s op dst src0 src1 src2 = .ok w) :
    ∃ w₀ dstCode srcCode, g.headerWord s op = .ok w₀ ∧ g.tripleTypeCode dst.type = .ok dstCode ∧
      g.tripleTypeCode src0.type = .ok srcCode ∧ src1.type = src0.type ∧ src2.type = src0.type ∧
      (∀ r ∈ [dst, src0, src1, src2],
        r.number.toNat < 128 ∧ (r.sub / 4).toNat < 8 ∧ r.sub / 4 * 4 = r.sub) ∧
      w = setTripleSource g.layout.triple.src2 src2 (setTripleSource g.layout.triple.src1 src1
        (setTripleSource g.layout.triple.src0 src0
          (tripleBase g.layout dst dstCode srcCode w₀))) := by
  simp only [tripleWord, checkTripleSource, bind_ok, reject_ok, pure_ok, Decidable.not_not] at encoded
  obtain ⟨w₀, header, _, checkedDst, dstCode, dstKnown, _, ⟨_, checked0, -⟩, _,
    ⟨_, checked1, same1, -⟩, _, ⟨_, checked2, same2, -⟩, srcCode, srcKnown, rfl⟩ := encoded
  refine ⟨w₀, dstCode, srcCode, header, dstKnown, srcKnown, same1, same2, ?_, rfl⟩
  simp only [List.mem_cons, List.not_mem_nil, or_false, forall_eq_or_imp, forall_eq]
  exact ⟨checkTriple_ok checkedDst, checkTriple_ok checked0, checkTriple_ok checked1,
    checkTriple_ok checked2⟩

/-- No source of a three-source word is stored into the fields of another or into the shared ones. -/
theorem triple_clear (g : Generation) :
    AllClear (tripleSharedFields g.layout) (tripleSourceFields g.layout.triple.src0 ++
        tripleSourceFields g.layout.triple.src1 ++ tripleSourceFields g.layout.triple.src2) ∧
      AllClear (tripleSourceFields g.layout.triple.src0) (tripleSourceFields g.layout.triple.src1 ++
        tripleSourceFields g.layout.triple.src2) ∧
      AllClear (tripleSourceFields g.layout.triple.src1) (tripleSourceFields g.layout.triple.src2) := by
  rcases layout_cases g with family | family <;> rw [family] <;> decide

/-- The header a three-source word begins with, its flag register from the fields of three-source
words. -/
def tripleHeader (l : Layout) (w : Word) : Decoded :=
  { l.decodeHeader w with
    accessMode := 1
    flag := l.triple.flagReg.get w
    subFlag := l.triple.flagSubreg.get w }

theorem tripleBase_shared {g : Generation} {dst : Register} {w : Word} {dstCode srcCode : UInt32}
    {type : DataType} (dstKnown : g.tripleTypeCode dst.type = .ok dstCode)
    (srcKnown : g.tripleTypeCode type = .ok srcCode) (number : dst.number.toNat < 128)
    (sub : (dst.sub / 4).toNat < 8) (whole : dst.sub / 4 * 4 = dst.sub) :
    TripleShared g (tripleBase g.layout dst dstCode srcCode w) (tripleHeader g.layout w) dst type := by
  obtain ⟨dstType, -, dstFits⟩ := tripleTypeCode_ok dstKnown
  obtain ⟨srcType, srcFits, -⟩ := tripleTypeCode_ok srcKnown
  have number : dst.number.toNat < 256 := by omega
  rcases layout_cases g with family | family <;>
    rw [family] at dstType dstFits srcType srcFits <;> constructor <;> rw [family] <;>
    simp (disch := first | decide | assumption) [tripleBase, tripleHeader, decodeHeader, get_set_clear,
      isOne_set_clear, Field.get_set, get_set_lt 8, get_set_lt 256, dstType, srcType, whole]

/-- A three-source word keeps the header it begins with and says what its operands were. -/
theorem tripleWord_begun {g : Generation} {s : State} {op : Native.Opcode}
    {dst src0 src1 src2 : Register} {w : Word}
    (encoded : g.tripleWord s op dst src0 src1 src2 = .ok w) :
    ∃ w₀, g.headerWord s op = .ok w₀ ∧
      TripleWord g w (tripleHeader g.layout w₀) dst src0 src1 src2 := by
  obtain ⟨w₀, dstCode, srcCode, header, dstKnown, srcKnown, -, -, checked, rfl⟩ := tripleWord_ok encoded
  refine ⟨w₀, header, ?_⟩
  simp only [List.mem_cons, List.not_mem_nil, or_false, forall_eq_or_imp, forall_eq] at checked
  obtain ⟨⟨number, sub, whole⟩, ⟨number0, sub0, whole0⟩, ⟨number1, sub1, whole1⟩,
    number2, sub2, whole2⟩ := checked
  obtain ⟨sharedClear, clear0, clear1⟩ := triple_clear g
  have shape := tripleSource_shape g
  have shared := tripleBase_shared (w := w₀) dstKnown srcKnown number sub whole
  generalize tripleBase g.layout dst dstCode srcCode w₀ = base at shared ⊢
  have stored0 := setTripleSource_stored g.layout.triple.src0 src0 base
  have reads0 := setTripleSource_reads (shape g.layout.triple.src0 (by simp [TripleFields.sources]))
    number0 sub0 whole0 base
  generalize setTripleSource g.layout.triple.src0 src0 base = first at stored0 reads0 ⊢
  have stored1 := setTripleSource_stored g.layout.triple.src1 src1 first
  have reads1 := setTripleSource_reads (shape g.layout.triple.src1 (by simp [TripleFields.sources]))
    number1 sub1 whole1 first
  generalize setTripleSource g.layout.triple.src1 src1 first = second at stored1 reads1 ⊢
  have stored2 := setTripleSource_stored g.layout.triple.src2 src2 second
  have reads2 := setTripleSource_reads (shape g.layout.triple.src2 (by simp [TripleFields.sources]))
    number2 sub2 whole2 second
  generalize setTripleSource g.layout.triple.src2 src2 second = third at stored2 reads2 ⊢
  refine ⟨shared.congr ?_, reads0.congr ?_, reads1.congr ?_, reads2⟩
  · intro x member
    rw [get_stored stored2 fun y m => sharedClear x member y (by simp [m]),
      get_stored stored1 fun y m => sharedClear x member y (by simp [m]),
      get_stored stored0 fun y m => sharedClear x member y (by simp [m])]
  · intro x member
    rw [get_stored stored2 fun y m => clear0 x member y (by simp [m]),
      get_stored stored1 fun y m => clear0 x member y (by simp [m])]
  · intro x member
    rw [get_stored stored2 fun y m => clear1 x member y m]

/-- A three-source word says what it was encoded from. -/
theorem tripleWord_reads {g : Generation} {s : State} {op : Native.Opcode}
    {dst src0 src1 src2 : Register} {w : Word} (fits : StateFits s)
    (known : op ∈ Native.Opcode.all) (triple : op.isThreeSource = true)
    (encoded : g.tripleWord s op dst src0 src1 src2 = .ok w) :
    TripleWord g w { readHeader s op with accessMode := 1 } dst src0 src1 src2 := by
  obtain ⟨w₀, header, reading⟩ := tripleWord_begun encoded
  rw [← decodeHeader_tripleHeader fits known triple header]
  exact reading

/-! ## Halves of a three-source word -/

/-- A register operand of the upper eight lanes: rows advance by one register, single elements stay. -/
def upperOperand (r : Register) : Register :=
  if r.region.vertical = 0 then r else { r with number := r.number + 1 }

/-- The lower half keeps the operands. -/
theorem TripleWord.lowerHalf {g : Generation} {w : Word} {h : Decoded}
    {dst src0 src1 src2 : Register} (reading : TripleWord g w h dst src0 src1 src2) :
    TripleWord g (g.layout.lowerHalf w) { h with execSize := 8, quarter := 0 } dst src0 src1 src2 := by
  obtain ⟨shared, source0, source1, source2⟩ := reading
  have clear : AllClear (tripleSourceFields g.layout.triple.src0 ++
      tripleSourceFields g.layout.triple.src1 ++ tripleSourceFields g.layout.triple.src2 ++
      [g.layout.triple.srcType, g.layout.triple.dstType, g.layout.triple.dstNumber,
        g.layout.triple.dstSub, g.layout.triple.writemask])
      [g.layout.header.execSize, g.layout.header.quarterControl] := by
    rcases layout_cases g with family | family <;> rw [family] <;> decide
  have kept (x : Field) (member : x ∈ tripleSourceFields g.layout.triple.src0 ++
      tripleSourceFields g.layout.triple.src1 ++ tripleSourceFields g.layout.triple.src2 ++
      [g.layout.triple.srcType, g.layout.triple.dstType, g.layout.triple.dstNumber,
        g.layout.triple.dstSub, g.layout.triple.writemask]) :
      x.get (g.layout.lowerHalf w) = x.get w := by
    rw [Layout.lowerHalf, get_set_clear (clear x member _ (by simp)),
      get_set_clear (clear x member _ (by simp))]
  refine ⟨⟨?_, ?_, ?_, ?_, ?_, ?_⟩, source0.congr fun x m => kept x (by simp [m]),
    source1.congr fun x m => kept x (by simp [m]), source2.congr fun x m => kept x (by simp [m])⟩
  · rw [← shared.header]
    rcases layout_cases g with family | family <;> rw [family] <;>
      simp (disch := decide) [Layout.lowerHalf, decodeHeader, get_set_clear, isOne_set_clear,
        Field.get_set, show execSizeOfCode (execSizeCode 8) = 8 from rfl]
  · rw [kept _ (by simp), shared.sourceType]
  · rw [kept _ (by simp), shared.type]
  · rw [kept _ (by simp), shared.number]
  · rw [kept _ (by simp), shared.sub]
  · rw [kept _ (by simp), shared.writemask]

theorem get_advanceSource (f : TripleSourceFields) {x : Field} (w : Word) (clear : Clear x f.number) :
    x.get (advanceSource f w) = x.get w := by
  unfold advanceSource advance
  split
  · exact get_set_clear clear _ _
  · rfl

theorem advanceSource_reads {f : TripleSourceFields} {w : Word} {r : Register}
    (shape : TripleSourceShape f) (reading : TripleSource f w r) (number : r.number.toNat < 128) :
    TripleSource f (advanceSource f w) (upperOperand r) := by
  have clear : ∀ x ∈ [f.sub, f.abs, f.neg, f.replicate], Clear x f.number := by
    intro x member
    have numberClear := shape.numberClear _ (List.mem_singleton.mpr rfl)
    simp only [List.mem_cons, List.not_mem_nil, or_false, forall_eq_or_imp, forall_eq] at numberClear member
    rcases member with rfl | rfl | rfl | rfl
    · exact numberClear.1.symm
    · exact numberClear.2.2.1.symm
    · exact numberClear.2.2.2.1.symm
    · exact numberClear.2.2.2.2.symm
  have kept (x : Field) (member : x ∈ [f.sub, f.abs, f.neg, f.replicate]) :
      x.get (advanceSource f w) = x.get w := get_advanceSource f w (clear x member)
  have bit : (f.replicate.get w).toNat < 2 := by
    have small := Field.get_lt shape.replicate.1 w
    rwa [shape.replicate.2] at small
  have replicated : f.replicate.get w = 0 ↔ r.region.vertical ≠ 0 := by
    have reads := reading.replicate
    rw [Field.isOne] at reads
    by_cases zero : f.replicate.get w = 0
    · simpa [zero] using reads.symm
    · have one : f.replicate.get w = 1 := by
        apply UInt32.toNat_inj.mp
        have nonzero : (f.replicate.get w).toNat ≠ 0 := fun h => zero (UInt32.toNat_inj.mp h)
        change (f.replicate.get w).toNat = 1
        omega
      simpa [one] using reads.symm
  refine ⟨?_, ?_, ?_, ?_, ?_⟩
  · unfold advanceSource upperOperand advance
    by_cases zero : r.region.vertical = 0
    · rw [if_neg (by simpa [replicated] using zero), if_pos zero, reading.number]
    · rw [if_pos (replicated.mpr zero), if_neg zero, reading.number]
      apply get_set_lt 256 shape.number
      simp only [UInt32.toNat_add, UInt32.reduceToNat]
      omega
  · rw [kept _ (by simp), reading.sub]
    unfold upperOperand
    split <;> rfl
  · rw [Field.isOne, kept _ (by simp), ← Field.isOne, reading.absolute]
    unfold upperOperand
    split <;> rfl
  · rw [Field.isOne, kept _ (by simp), ← Field.isOne, reading.negate]
    unfold upperOperand
    split <;> rfl
  · rw [Field.isOne, kept _ (by simp), ← Field.isOne, reading.replicate]
    unfold upperOperand
    split <;> rfl

@[simp] theorem upperOperand_type (r : Register) : (upperOperand r).type = r.type := by
  unfold upperOperand
  split <;> rfl

/-- Numbering the lanes and the destination of the upper half. -/
theorem TripleShared.upper {g : Generation} {w : Word} {h : Decoded} {dst : Register} {type : DataType}
    (reading : TripleShared g w h dst type) (number : dst.number.toNat < 128) :
    TripleShared g (advance g.layout.triple.dstNumber (g.layout.header.quarterControl.set 1 w))
      { h with quarter := 1 } { dst with number := dst.number + 1 } type := by
  have next : (dst.number + 1).toNat < 256 := by
    simp only [UInt32.toNat_add, UInt32.reduceToNat]
    omega
  have same : g.layout.triple.dstNumber.get (g.layout.header.quarterControl.set 1 w) = dst.number := by
    rw [← reading.number]
    rcases layout_cases g with family | family <;> rw [family] <;>
      simp (disch := decide) only [get_set_clear]
  have sourceType := reading.sourceType
  have dstType := reading.type
  have sub := reading.sub
  have writemask := reading.writemask
  unfold advance
  rw [same, ← reading.header]
  rcases layout_cases g with family | family <;>
    rw [family] at sourceType dstType sub writemask <;> constructor <;> rw [family] <;>
    simp (disch := first | decide | assumption) [decodeHeader, get_set_clear, isOne_set_clear,
      Field.get_set, get_set_lt 256, sourceType, dstType, sub, writemask]

/-- The upper half advances the destination and every source that is a row. -/
theorem TripleWord.upperHalf {g : Generation} {w : Word} {h : Decoded}
    {dst src0 src1 src2 : Register} (reading : TripleWord g w h dst src0 src1 src2)
    (number : dst.number.toNat < 128) (number0 : src0.number.toNat < 128)
    (number1 : src1.number.toNat < 128) (number2 : src2.number.toNat < 128) :
    TripleWord g (g.layout.upperHalf w) { h with execSize := 8, quarter := 1 }
      { dst with number := dst.number + 1 } (upperOperand src0) (upperOperand src1)
      (upperOperand src2) := by
  obtain ⟨shared, source0, source1, source2⟩ := reading.lowerHalf
  have shape := tripleSource_shape g
  have numbered := shared.upper number
  have clear : AllClear (tripleSourceFields g.layout.triple.src0 ++
      tripleSourceFields g.layout.triple.src1 ++ tripleSourceFields g.layout.triple.src2)
      [g.layout.header.quarterControl, g.layout.triple.dstNumber] := by
    rcases layout_cases g with family | family <;> rw [family] <;> decide
  have kept (x : Field) (member : x ∈ tripleSourceFields g.layout.triple.src0 ++
      tripleSourceFields g.layout.triple.src1 ++ tripleSourceFields g.layout.triple.src2) :
      x.get (advance g.layout.triple.dstNumber
        (g.layout.header.quarterControl.set 1 (g.layout.lowerHalf w))) =
        x.get (g.layout.lowerHalf w) := by
    rw [advance, get_set_clear (clear x member _ (by simp)),
      get_set_clear (clear x member _ (by simp))]
  have reads0 := source0.congr fun x m => kept x (by simp [m])
  have reads1 := source1.congr fun x m => kept x (by simp [m])
  have reads2 := source2.congr fun x m => kept x (by simp [m])
  simp only [Layout.upperHalf, TripleFields.sources, List.foldl_cons, List.foldl_nil]
  generalize advance g.layout.triple.dstNumber
    (g.layout.header.quarterControl.set 1 (g.layout.lowerHalf w)) = base at numbered reads0 reads1 reads2 ⊢
  obtain ⟨sharedClear, clear0, clear1⟩ := triple_clear g
  have numberMember (f : TripleSourceFields) : f.number ∈ tripleSourceFields f := by
    simp [tripleSourceFields]
  -- The sources are advanced one after the other; each time all other fields are clear of the number.
  have numbered := numbered.congr fun x m =>
    get_advanceSource g.layout.triple.src0 base (sharedClear x m _ (by simp [numberMember]))
  have reads0 := advanceSource_reads (shape g.layout.triple.src0 (by simp [TripleFields.sources]))
    reads0 number0
  have reads1 := reads1.congr fun x m =>
    get_advanceSource g.layout.triple.src0 base (clear0 _ (numberMember _) x (by simp [m])).symm
  have reads2 := reads2.congr fun x m =>
    get_advanceSource g.layout.triple.src0 base (clear0 _ (numberMember _) x (by simp [m])).symm
  generalize advanceSource g.layout.triple.src0 base = first at numbered reads0 reads1 reads2 ⊢
  have numbered := numbered.congr fun x m =>
    get_advanceSource g.layout.triple.src1 first (sharedClear x m _ (by simp [numberMember]))
  have reads0 := reads0.congr fun x m =>
    get_advanceSource g.layout.triple.src1 first (clear0 x m _ (by simp [numberMember]))
  have reads1 := advanceSource_reads (shape g.layout.triple.src1 (by simp [TripleFields.sources]))
    reads1 number1
  have reads2 := reads2.congr fun x m =>
    get_advanceSource g.layout.triple.src1 first (clear1 _ (numberMember _) x m).symm
  generalize advanceSource g.layout.triple.src1 first = second at numbered reads0 reads1 reads2 ⊢
  have numbered := numbered.congr fun x m =>
    get_advanceSource g.layout.triple.src2 second (sharedClear x m _ (by simp [numberMember]))
  have reads0 := reads0.congr fun x m =>
    get_advanceSource g.layout.triple.src2 second (clear0 x m _ (by simp [numberMember]))
  have reads1 := reads1.congr fun x m =>
    get_advanceSource g.layout.triple.src2 second (clear1 x m _ (numberMember _))
  have reads2 := advanceSource_reads (shape g.layout.triple.src2 (by simp [TripleFields.sources]))
    reads2 number2
  refine ⟨?_, reads0, reads1, reads2⟩
  rw [upperOperand_type]
  exact numbered

/-- What decoding gives for a three-source instruction: one word, or two of eight lanes each where the
unit has no sixteen. -/
def readTriples (g : Generation) (s : State) (op : Native.Opcode) (dst src0 src1 src2 : Register) :
    List Decoded :=
  let h := { readHeader s op with accessMode := 1 }
  if s.execWidth = 16 ∧ g.supports .tripleSimd16 = false then
    [readTriple { h with execSize := 8, quarter := 0 } dst src0 src1 src2,
      readTriple { h with execSize := 8, quarter := 1 } { dst with number := dst.number + 1 }
        (upperOperand src0) (upperOperand src1) (upperOperand src2)]
  else
    [readTriple h dst src0 src1 src2]

end GpuCodegen.WordRoundTrip
