import GpuCodegen.Assembler.Basic
import GpuCodegen.Proofs.TripleWords

/-! Decoding inverts encoding: every word an assembler appends for a command decodes to the command's
operation, operands and message under the state it was issued in. -/

namespace GpuCodegen.WordRoundTrip
open Native Native.Layout Generation Outcome

/-! ## Whole words -/

/-- A word that holds a header and nothing of its operands yet. -/
structure Begun (g : Generation) (w : Word) (h : Decoded) : Prop where
  header : g.layout.decodeHeader w = h
  destination : g.layout.dst.addressMode.get w = 0
  source : g.layout.src0.addressMode.get w = 0

theorem begun_headerWord {g : Generation} {s : State} {op : Native.Opcode} {w : Word}
    (fits : StateFits s) (known : op ∈ Native.Opcode.all) (plain : op.isThreeSource = false)
    (encoded : g.headerWord s op = .ok w) : Begun g w (readHeader s op) :=
  ⟨decodeHeader_headerWord fits known plain encoded,
    headerWord_fresh plain encoded _ (by simp [destinationFields]),
    headerWord_fresh plain encoded _ (by simp)⟩

/-- The condition field also holds the shared function of a message. -/
theorem decodeHeader_condition {g : Generation} {w : Word} {code : UInt32} (small : code.toNat < 16) :
    g.layout.decodeHeader (g.layout.header.condition.set code w) =
      { g.layout.decodeHeader w with condition := code } := by
  rcases layout_cases g with family | family <;> rw [family] <;>
    simp (disch := first | decide | assumption) [decodeHeader, get_set_clear, isOne_set_clear,
      get_set_lt 16]

theorem begun_condition {g : Generation} {w : Word} {h : Decoded} {code : UInt32}
    (begun : Begun g w h) (small : code.toNat < 16) :
    Begun g (g.layout.header.condition.set code w) { h with condition := code } := by
  have clear : AllClear [g.layout.dst.addressMode, g.layout.src0.addressMode]
      [g.layout.header.condition] := by
    rcases layout_cases g with family | family <;> rw [family] <;> decide
  refine ⟨?_, ?_, ?_⟩
  · rw [decodeHeader_condition small, begun.header]
  · rw [get_set_clear (clear _ (by simp) _ (by simp)), begun.destination]
  · rw [get_set_clear (clear _ (by simp) _ (by simp)), begun.source]

/-- A word with a header and a destination. -/
structure Aimed (g : Generation) (w : Word) (h : Decoded) (dst : Register) : Prop where
  header : g.layout.decodeHeader w = h
  destination : g.layout.decodeDst w = .ok (readDestination dst)
  source : g.layout.src0.addressMode.get w = 0

theorem Begun.aimed {g : Generation} {w w' : Word} {h : Decoded} {dst : Register}
    (begun : Begun g w h) (fits : Fits g.layout.dst.addressEntry dst)
    (encoded : g.setDestination dst w = .ok w') : Aimed g w' h dst := by
  have stored := setDestination_stored encoded
  refine ⟨?_, decodeDst_setDestination fits begun.destination encoded, ?_⟩
  · rw [← begun.header]
    exact decodeHeader_congr fun f member =>
      get_stored stored fun x stores => header_clear g f member x (by simp [stores])
  · rw [← begun.source]
    exact get_stored stored fun x stores =>
      source0_clear g _ (by simp [source0Fields]) x (by simp [stores])

/-- A word with a header, a destination and a first source. -/
structure Fed (g : Generation) (s : State) (w : Word) (h : Decoded) (dst src : Register) : Prop where
  header : g.layout.decodeHeader w = h
  destination : g.layout.decodeDst w = .ok (readDestination dst)
  source : g.layout.decodeSrc0 w = .ok (readSource s src)

theorem Aimed.fed {g : Generation} {s : State} {w w' : Word} {h : Decoded} {dst src : Register}
    (aimed : Aimed g w h dst) (fits : Fits g.layout.src0AddressEntry src)
    (encoded : g.setSource0 s src w = .ok w') : Fed g s w' h dst src := by
  have stored : Stored (source0Fields g.layout ++ immediateFields g.layout) w w' := by
    by_cases immediate : src.file = .imm
    · exact setSource0_immediate_stored immediate encoded
    · exact (setSource0_register_stored immediate encoded).mono fun f member =>
        List.mem_append_left _ member
  refine ⟨?_, ?_, ?_⟩
  · rw [← aimed.header]
    exact decodeHeader_congr fun f member => get_stored stored fun x stores =>
      header_clear g f member x (by rcases List.mem_append.mp stores with m | m <;> simp [m])
  · rw [← aimed.destination]
    exact decodeDst_congr fun f member => get_stored stored fun x stores =>
      destination_clear g f member x (by rcases List.mem_append.mp stores with m | m <;> simp [m])
  · by_cases immediate : src.file = .imm
    · exact decodeSrc0_immediate immediate encoded
    · exact decodeSrc0_register fits (isOne_of_get_zero aimed.source) immediate encoded

/-- A second source leaves what the word says of the others. -/
theorem Fed.second {g : Generation} {s : State} {w w' : Word} {h : Decoded} {dst src src1 : Register}
    (fed : Fed g s w h dst src) (encoded : g.setSource1 s src1 w = .ok w') : Fed g s w' h dst src := by
  have stored := setSource1_stored encoded
  have register : fileAt g.layout.src0.file w ≠ .imm := by
    simp only [setSource1, refuse_ok] at encoded
    exact encoded.1
  refine ⟨?_, ?_, ?_⟩
  · rw [← fed.header]
    exact decodeHeader_congr fun f member => get_stored stored fun x stores =>
      header_clear g f member x (by simp [stores])
  · rw [← fed.destination]
    exact decodeDst_congr fun f member => get_stored stored fun x stores =>
      destination_clear g f member x (by simp [stores])
  · rw [← fed.source]
    exact decodeSrc0_congr (fun f member => get_stored stored fun x stores =>
      source0_clear g f member x (by simp [stores])) register

theorem decodeDescriptor_setDescriptor {g : Generation} {target : SharedFunction} {d : Descriptor}
    {w w' : Word} (encoded : g.setDescriptor target d w = .ok w') :
    g.layout.decodeDescriptor w' = d := by
  simp only [setDescriptor, refuse_ok, pure_ok] at encoded
  obtain ⟨length, response, function, encoded⟩ := encoded
  rw [not_or, Bool.not_eq_false] at length
  rw [Bool.not_eq_false] at response function
  subst encoded
  rcases layout_cases g with family | family <;> rw [family] at length response function ⊢ <;>
    rw [Field.fits_iff (by decide)] at length response function <;>
    obtain ⟨-, length⟩ := length <;>
    simp (disch := first | decide | assumption) [decodeDescriptor, get_set_clear, get_setBool_clear,
      isOne_set_clear, isOne_setBool_clear, isOne_setBool, Field.get_set]

/-! ## Commands -/

theorem decode_one {l : Layout} {w : Word} {h : Decoded} {dst src : Register}
    (header : l.decodeHeader w = h) (plain : h.opcode.isThreeSource = false)
    (aligned : h.accessMode = 0) (one : h.opcode.sources = 1)
    (destination : l.decodeDst w = .ok dst) (source : l.decodeSrc0 w = .ok src) :
    l.decode w = .ok { h with dst := dst, sources := [src] } := by
  have message : h.opcode ≠ .send := by
    intro same
    simp [same, Native.Opcode.sources] at one
  simp [decode, header, plain, aligned, destination, source, one, message, bind, Except.bind, pure,
    Except.pure]

theorem decode_two {l : Layout} {w : Word} {h : Decoded} {dst src0 src1 : Register}
    (header : l.decodeHeader w = h) (plain : h.opcode.isThreeSource = false)
    (aligned : h.accessMode = 0) (two : h.opcode.sources = 2) (message : h.opcode ≠ .send)
    (destination : l.decodeDst w = .ok dst) (source : l.decodeSrc0 w = .ok src0)
    (register : src0.file ≠ .imm) (second : l.decodeSrc1 w = .ok src1) :
    l.decode w = .ok { h with dst := dst, sources := [src0, src1] } := by
  simp [decode, header, plain, aligned, destination, source, two, message, register, second, bind,
    Except.bind, pure, Except.pure]

theorem decode_message {l : Layout} {w : Word} {h : Decoded} {dst src : Register}
    (header : l.decodeHeader w = h) (aligned : h.accessMode = 0) (message : h.opcode = .send)
    (destination : l.decodeDst w = .ok dst) (source : l.decodeSrc0 w = .ok src) :
    l.decode w = .ok { h with
      dst := dst
      condition := 0
      sources := [src]
      message := some ⟨.ofCode h.condition.toUInt8, l.decodeDescriptor w⟩ } := by
  have plain : Native.Opcode.isThreeSource .send = false := rfl
  have two : Native.Opcode.sources .send ≠ 0 := by decide
  simp [decode, header, aligned, destination, source, message, plain, two, bind, Except.bind, pure,
    Except.pure]

@[simp] theorem readSource_file (s : State) (r : Register) : (readSource s r).file = r.file := by
  unfold readSource
  split
  · rename_i immediate
    rw [immediate]
    rfl
  · rfl

theorem unaryWord_decodes {g : Generation} {s : State} {op : Native.Opcode} {dst src : Register}
    {w : Word} (state : StateFits s) (known : op ∈ Native.Opcode.all) (one : op.sources = 1)
    (plain : op.isThreeSource = false) (fitsDst : Fits g.layout.dst.addressEntry dst)
    (fitsSrc : Fits g.layout.src0AddressEntry src) (encoded : g.unaryWord s op dst src = .ok w) :
    g.layout.decode w = .ok
      { readHeader s op with dst := readDestination dst, sources := [readSource s src] } := by
  simp only [unaryWord, bind_ok] at encoded
  obtain ⟨w₀, header, w₁, destination, source⟩ := encoded
  have fed := ((begun_headerWord state known plain header).aimed fitsDst destination).fed fitsSrc source
  exact decode_one fed.header plain rfl one fed.destination fed.source

/-- The file of a first source is the one its file field names. -/
theorem decodeSrc0_file {l : Layout} {w : Word} {r : Register} (read : l.decodeSrc0 w = .ok r) :
    r.file = fileAt l.src0.file w := by
  simp only [decodeSrc0] at read
  split at read
  · rename_i immediate
    rw [immediate]
    split at read
    · cases read
    · split at read <;> cases read <;> rfl
  · split at read
    · cases read
    · split at read <;> cases read <;> rfl

/-- The sources of a two-source word whose header is there. -/
theorem sources_decode {g : Generation} {s : State} {dst src0 src1 : Register} {h : Decoded}
    {w₀ w₁ w₂ w : Word} (begun : Begun g w₀ h) (plain : h.opcode.isThreeSource = false)
    (aligned : h.accessMode = 0) (two : h.opcode.sources = 2) (message : h.opcode ≠ .send)
    (fitsDst : Fits g.layout.dst.addressEntry dst) (fits0 : Fits g.layout.src0AddressEntry src0)
    (fits1 : Fits g.layout.src0AddressEntry src1) (destination : g.setDestination dst w₀ = .ok w₁)
    (source : g.setSource0 s src0 w₁ = .ok w₂) (second : g.setSource1 s src1 w₂ = .ok w) :
    g.layout.decode w = .ok
      { h with dst := readDestination dst, sources := [readSource s src0, readSource s src1] } := by
  have fed := (begun.aimed fitsDst destination).fed fits0 source
  have register : src0.file ≠ .imm := by
    -- An immediate would be seen in the file field, where the second source is refused.
    intro immediate
    simp only [setSource1, refuse_ok] at second
    apply second.1
    rw [← decodeSrc0_file fed.source, readSource_file, immediate]
  have fed := fed.second second
  exact decode_two fed.header plain aligned two message fed.destination fed.source
    (by simpa using register) (decodeSrc1_setSource1 fits1 second)

theorem binaryWord_decodes {g : Generation} {s : State} {op : Native.Opcode}
    {dst src0 src1 : Register} {w : Word} (state : StateFits s) (known : op ∈ Native.Opcode.all)
    (two : op.sources = 2) (plain : op.isThreeSource = false) (message : op ≠ .send)
    (fitsDst : Fits g.layout.dst.addressEntry dst) (fits0 : Fits g.layout.src0AddressEntry src0)
    (fits1 : Fits g.layout.src0AddressEntry src1) (encoded : g.binaryWord s op dst src0 src1 = .ok w) :
    g.layout.decode w = .ok { readHeader s op with
      dst := readDestination dst, sources := [readSource s src0, readSource s src1] } := by
  simp only [binaryWord, bind_ok] at encoded
  obtain ⟨w₀, header, w₁, destination, w₂, source, second⟩ := encoded
  exact sources_decode (begun_headerWord state known plain header) plain rfl two message fitsDst fits0
    fits1 destination source second

theorem compareWord_decodes {g : Generation} {s : State} {condition : UInt32}
    {dst src0 src1 : Register} {w : Word} (state : StateFits s)
    (fitsDst : Fits g.layout.dst.addressEntry dst) (fits0 : Fits g.layout.src0AddressEntry src0)
    (fits1 : Fits g.layout.src0AddressEntry src1)
    (encoded : g.compareWord s condition dst src0 src1 = .ok w) :
    g.layout.decode w = .ok { readHeader s .cmp with
      condition := condition
      dst := readDestination dst
      sources := [readSource s src0, readSource s src1] } := by
  simp only [compareWord, bind_ok, refuse_ok] at encoded
  obtain ⟨w₀, header, valid, w₁, destination, w₂, source, second⟩ := encoded
  have small : condition.toNat < 16 := by
    have most : ¬ 6 < condition := fun h => valid (.inr h)
    simp only [UInt32.not_lt, UInt32.le_iff_toNat_le] at most
    change condition.toNat ≤ 6 at most
    omega
  have begun := begun_condition (begun_headerWord state (by decide) rfl header) small
  exact sources_decode begun rfl rfl rfl (by simp [readHeader]) fitsDst fits0 fits1 destination source
    second

/-- A descriptor only stores into the condition field and the fields behind the operands. -/
theorem setDescriptor_stored {g : Generation} {target : SharedFunction} {d : Descriptor} {w w' : Word}
    (encoded : g.setDescriptor target d w = .ok w') :
    Stored (descriptorFields g.layout) (g.layout.header.condition.set target.code.toUInt32 w) w' := by
  simp only [setDescriptor, refuse_ok, pure_ok] at encoded
  obtain ⟨_, _, _, encoded⟩ := encoded
  subst encoded
  unfold Field.setBool
  repeat' first | exact .same | refine .store _ (by simp [descriptorFields]) ?_

theorem header_clear_descriptor (g : Generation) :
    AllClear (headerFields g.layout) (descriptorFields g.layout) := by
  rcases layout_cases g with family | family <;> rw [family] <;> decide

/-- A descriptor puts the shared function in place of the condition and leaves the operands. -/
theorem Fed.message {g : Generation} {s : State} {w w' : Word} {h : Decoded} {dst src : Register}
    {target : SharedFunction} {d : Descriptor} (fed : Fed g s w h dst src) (register : src.file ≠ .imm)
    (small : target.code.toNat < 16) (encoded : g.setDescriptor target d w = .ok w') :
    Fed g s w' { h with condition := target.code.toUInt32 } dst src := by
  have stored := setDescriptor_stored encoded
  have file : fileAt g.layout.src0.file w ≠ .imm := by
    rw [← decodeSrc0_file fed.source, readSource_file]
    exact register
  refine ⟨?_, ?_, ?_⟩
  · rw [← fed.header, ← decodeHeader_condition (by simpa using small)]
    exact decodeHeader_congr fun f member => get_stored stored fun x stores =>
      header_clear_descriptor g f member x stores
  · rw [← fed.destination]
    refine decodeDst_congr fun f member => ?_
    rw [get_stored stored fun x stores => destination_clear g f member x (by simp [stores]),
      get_set_clear (destination_clear g f member _ (by simp))]
  · rw [← fed.source]
    refine decodeSrc0_congr (fun f member => ?_) file
    rw [get_stored stored fun x stores => source0_clear g f member x (by simp [stores]),
      get_set_clear (source0_clear g f member _ (by simp [headerFields]))]

theorem sendWord_decodes {g : Generation} {s : State} {target : SharedFunction}
    {dst payload : Register} {d : Descriptor} {w : Word} (state : StateFits s)
    (small : target.code.toNat < 16) (listed : SharedFunction.ofCode target.code = target)
    (fitsDst : Fits g.layout.dst.addressEntry dst) (fitsSrc : Fits g.layout.src0AddressEntry payload)
    (encoded : g.sendWord s target dst payload d = .ok w) :
    g.layout.decode w = .ok { readHeader s .send with
      dst := readDestination dst
      sources := [readSource s payload]
      message := some ⟨target, d⟩ } := by
  simp only [sendWord, bind_ok, refuse_ok] at encoded
  obtain ⟨w₀, header, payloadFile, w₁, destination, w₂, source, descriptor⟩ := encoded
  have register : payload.file ≠ .imm := by
    intro immediate
    simp [immediate] at payloadFile
  have begun := begun_headerWord state (by decide) rfl header
  have fed := ((begun.aimed fitsDst destination).fed fitsSrc source).message register small descriptor
  rw [decode_message fed.header rfl rfl fed.destination fed.source,
    decodeDescriptor_setDescriptor descriptor]
  simp [readHeader, listed]

theorem nopWord_decodes {g : Generation} {s : State} {w : Word} (state : StateFits s)
    (encoded : g.headerWord s .nop = .ok w) : g.layout.decode w = .ok (readHeader s .nop) := by
  have begun := begun_headerWord state (by decide) rfl encoded
  have fresh := headerWord_fresh rfl encoded
  have destination : g.layout.decodeDst w = .ok {} := by
    simp only [destinationFields, List.mem_cons, List.not_mem_nil, or_false, forall_eq_or_imp,
      forall_eq] at fresh
    have unsigned : typeOf? g.layout.registerTypes 0 = some .ud := by
      rcases layout_cases g with family | family <;> rw [family] <;> decide
    simp [decodeDst, fileAt, Field.isOne, fresh, unsigned]
    decide
  simp [decode, begun.header, destination, bind, Except.bind, pure, Except.pure, readHeader,
    Native.Opcode.isThreeSource, Native.Opcode.sources]

theorem tripleWords_decode {g : Generation} {s : State} {op : Native.Opcode}
    {dst src0 src1 src2 : Register} {ws : List Word} (state : StateFits s)
    (known : op ∈ Native.Opcode.all) (triple : op.isThreeSource = true)
    (encoded : g.tripleWords s op dst src0 src1 src2 = .ok ws) :
    ws.map g.layout.decode = (readTriples g s op dst src0 src1 src2).map .ok := by
  simp only [tripleWords, bind_ok] at encoded
  obtain ⟨w, encoded, halves⟩ := encoded
  have reading := tripleWord_reads state known triple encoded
  obtain ⟨-, -, -, -, -, -, -, -, checked, -⟩ := tripleWord_ok encoded
  simp only [List.mem_cons, List.not_mem_nil, or_false, forall_eq_or_imp, forall_eq] at checked
  obtain ⟨⟨number, -⟩, ⟨number0, -⟩, ⟨number1, -⟩, number2, -⟩ := checked
  unfold readTriples
  split at halves <;> rw [pure_ok] at halves <;> subst halves
  · rename_i narrow
    simp only [narrow, and_self, ↓reduceIte, List.map_cons, List.map_nil]
    rw [reading.lowerHalf.decodes triple,
      (reading.upperHalf number number0 number1 number2).decodes triple]
  · rename_i wide
    simp only [wide, ↓reduceIte, List.map_cons, List.map_nil]
    rw [reading.decodes triple]

/-- The parts of a command that encoding does not check fit their fields. The messages with a
descriptor of their own are left to `sendWord_decodes`. -/
def CommandFits (g : Generation) : Command → Prop
  | .unary _ dst src => Fits g.layout.dst.addressEntry dst ∧ Fits g.layout.src0AddressEntry src
  | .binary _ dst src0 src1 | .compare _ dst src0 src1 =>
    Fits g.layout.dst.addressEntry dst ∧ Fits g.layout.src0AddressEntry src0 ∧
      Fits g.layout.src0AddressEntry src1
  | .send target dst payload _ =>
    target.code.toNat < 16 ∧ SharedFunction.ofCode target.code = target ∧
      Fits g.layout.dst.addressEntry dst ∧ Fits g.layout.src0AddressEntry payload
  | .ternary .. | .nop | .jump _ => True
  | _ => False

/-- What decoding gives for the words of a command issued under a state. -/
def readCommand (g : Generation) (s : State) : Command → List Decoded
  | .unary op dst src =>
    [{ readHeader s op.opcode with dst := readDestination dst, sources := [readSource s src] }]
  | .binary op dst src0 src1 =>
    [{ readHeader s op.opcode with
       dst := readDestination dst, sources := [readSource s src0, readSource s src1] }]
  | .compare condition dst src0 src1 =>
    [{ readHeader s .cmp with
       condition := condition
       dst := readDestination dst
       sources := [readSource s src0, readSource s src1] }]
  | .ternary op dst src0 src1 src2 => readTriples g s op.opcode dst src0 src1 src2
  | .nop => [readHeader s .nop]
  | .jump distance =>
    let s := { s with execWidth := 1, noMask := true }
    [{ readHeader s .jmpi with
       dst := readDestination .instructionPointer
       sources := [readSource s .instructionPointer, .immD distance.toUInt32] }]
  | .send target dst payload d =>
    [{ readHeader s .send with
       dst := readDestination dst, sources := [readSource s payload], message := some ⟨target, d⟩ }]
  | _ => []

theorem instructionPointer_fits (f : Field) : Fits f .instructionPointer := by
  constructor <;> simp [Register.instructionPointer, Register.arf1, Register.vec1, Register.vec] <;>
    decide

theorem immD_fits (f : Field) (v : UInt32) : Fits f (.immD v) := by
  constructor <;> simp [Register.immD, Register.imm] <;> decide

theorem assemble_decodes {g : Generation} {s : State} {c : Command} {ws : List Word}
    (state : StateFits s) (fits : CommandFits g c) (encoded : g.assemble s c = .ok ws) :
    ws.map g.layout.decode = (readCommand g s c).map .ok := by
  cases c with
  | unary op dst src =>
    obtain ⟨w, built, rfl⟩ := map_ok.mp encoded
    simp only [List.map_cons, List.map_nil, readCommand]
    rw [unaryWord_decodes state (by cases op <;> decide) (by cases op <;> rfl) (by cases op <;> rfl)
      fits.1 fits.2 built]
  | binary op dst src0 src1 =>
    obtain ⟨w, built, rfl⟩ := map_ok.mp encoded
    simp only [List.map_cons, List.map_nil, readCommand]
    rw [binaryWord_decodes state (by cases op <;> decide) (by cases op <;> rfl) (by cases op <;> rfl)
      (by cases op <;> decide) fits.1 fits.2.1 fits.2.2 built]
  | compare condition dst src0 src1 =>
    obtain ⟨w, built, rfl⟩ := map_ok.mp encoded
    simp only [List.map_cons, List.map_nil, readCommand]
    rw [compareWord_decodes state fits.1 fits.2.1 fits.2.2 built]
  | ternary op dst src0 src1 src2 =>
    exact tripleWords_decode state (by cases op <;> decide) (by cases op <;> rfl) encoded
  | nop =>
    obtain ⟨w, built, rfl⟩ := map_ok.mp encoded
    simp only [List.map_cons, List.map_nil, readCommand]
    rw [nopWord_decodes state built]
  | jump distance =>
    obtain ⟨w, built, rfl⟩ := map_ok.mp encoded
    simp only [List.map_cons, List.map_nil, readCommand]
    have known : Native.Opcode.jmpi ∈ Native.Opcode.all := by decide
    have unmasked : StateFits { s with execWidth := 1, noMask := true } :=
      ⟨state.quarter, state.predicate⟩
    rw [binaryWord_decodes unmasked known rfl rfl nofun
      (instructionPointer_fits _) (instructionPointer_fits _) (immD_fits _ _) built]
    simp [readSource, Register.immD, Register.imm]
  | send target dst payload d =>
    obtain ⟨w, built, rfl⟩ := map_ok.mp encoded
    obtain ⟨small, listed, fitsDst, fitsSrc⟩ := fits
    simp only [List.map_cons, List.map_nil, readCommand]
    rw [sendWord_decodes state small listed fitsDst fitsSrc built]
  | _ => exact fits.elim

theorem commitAll_words (a : Assembler) (ws : List Word) : (a.commitAll ws).words = a.words ++ ws := by
  induction ws generalizing a with
  | nil => simp [Assembler.commitAll]
  | cons w ws ih =>
    have rest := ih (a.commit w)
    simpa [Assembler.commitAll, Assembler.commit] using rest

/-- A command either appends nothing and gives no index, or appends words that decode to it: its
opcode, the state's controls, and the operands in the form they are written. -/
theorem issue_decodes (a : Assembler) (c : Command) (state : StateFits a.state)
    (fits : CommandFits a.generation c) :
    ∃ ws, (a.issue c).1.words = a.words ++ ws ∧
      (ws = [] ∧ (a.issue c).2 = none ∨
        (a.issue c).2 = some a.words.length ∧
          ws.map a.layout.decode = (readCommand a.generation a.state c).map .ok) := by
  unfold Assembler.issue
  cases encoded : a.generation.assemble a.state c with
  | error d => exact ⟨[], by simp [Assembler.fail], .inl ⟨rfl, rfl⟩⟩
  | ok ws =>
    refine ⟨ws, commitAll_words a ws, .inr ⟨?_, assemble_decodes state fits encoded⟩⟩
    cases c with
    | endThread => exact fits.elim
    | _ => rfl

/-- A sixteen-lane multiply-add on Haswell: two words, the second a register further on except for the
replicated source. -/
theorem issue_decodes_split_triple :
    let a : Assembler := { generation := .gen75, state := { execWidth := 16, quarter := 2 } }
    let c := Command.ternary .mad (.vec16 10 0 .f) (.vec16 20 0 .f) (.vec1 30 4 .f) (.vec16 40 0 .f)
    (a.issue c).2 = some 0 ∧ ∃ ws, (a.issue c).1.words = a.words ++ ws ∧
      (ws = [] ∧ (a.issue c).2 = none ∨
        (a.issue c).2 = some a.words.length ∧
          ws.map a.layout.decode = (readCommand a.generation a.state c).map .ok) :=
  ⟨by decide +kernel, issue_decodes _ _ ⟨by decide, by decide⟩ trivial⟩

end GpuCodegen.WordRoundTrip
