import GpuCodegen.Machine.Basic
import GpuCodegen.Proofs.ArithmeticWords
import GpuCodegen.Proofs.FixupRemaps

/-! The bytes of general registers that words write. A word of the arithmetic unit writes an element for each
lane, a message the registers of its response. What the words of a command write is known from the command,
and fixups add nothing to it. -/

namespace GpuCodegen.Footprints
open Native WordRoundTrip Generation Outcome

/-! ## Words -/

/-- The bytes of one element per lane, neighbouring lanes `step` elements apart. An indirect operand may be
anywhere. -/
def Lanes (r : Register) (step lanes b : Nat) : Prop :=
  r.file = .grf ∧ (r.indirect = none → ∃ lane < lanes,
    r.byteOffset.toNat + lane * step * r.type.size ≤ b ∧
      b < r.byteOffset.toNat + lane * step * r.type.size + r.type.size)

/-- The bytes of whole registers, from the one an operand begins in. -/
def Rows (r : Register) (rows b : Nat) : Prop :=
  r.file = .grf ∧ (r.indirect = none → 32 * r.number.toNat ≤ b ∧ b < 32 * (r.number.toNat + rows))

/-- The number of registers that answer a message. -/
def responseRows (d : Decoded) : Nat :=
  match d.message with
  | some m => m.descriptor.responseLength.toNat
  | none => 0

/-- The bytes of general registers that an instruction may write: the response of a message, else an element
for each lane. -/
def Written (d : Decoded) (b : Nat) : Prop :=
  if d.opcode = .send then Rows d.dst (responseRows d) b
  else Lanes d.dst (strideElems d.dst.region.horizontal).toNat d.execSize.toNat b

theorem put_outside {m : Machine} {r : Register} {lane lanes b : Nat} {value : UInt64} (inside : lane < lanes)
    (outside : ¬ Lanes r (strideElems r.region.horizontal).toNat lanes b) :
    (m.put r lane value).registers b = m.registers b := by
  unfold Machine.put
  dsimp only
  split
  · rename_i file
    refine Memory.store_outside _ value ?_
    by_contra held
    exact outside ⟨file, fun _ => ⟨lane, inside, by omega, by omega⟩⟩
  · split <;> rfl

theorem write_outside {m : Machine} {d : Decoded} {chosen : Nat → Bool} {result : Nat → UInt64} {b : Nat}
    (outside : ¬ Lanes d.dst (strideElems d.dst.region.horizontal).toNat d.execSize.toNat b) :
    (m.write d chosen result).registers b = m.registers b := by
  have along (lanes : List Nat) (inside : ∀ lane ∈ lanes, lane < d.execSize.toNat) (n : Machine) :
      (lanes.foldl (fun acc lane => acc.put d.dst lane (result lane)) n).registers b = n.registers b := by
    induction lanes generalizing n with
    | nil => rfl
    | cons lane rest ih =>
      rw [List.foldl_cons, ih (fun l member => inside l (List.mem_cons_of_mem _ member)),
        put_outside (inside lane List.mem_cons_self) outside]
  refine along _ (fun lane member => ?_) m
  exact List.mem_range.mp (List.mem_filter.mp member).1

theorem compare_registers (m : Machine) (d : Decoded) : (m.compare d).registers = m.registers := by
  have along (lanes : List Nat) (on : Nat → Bool) (n : Machine) :
      (lanes.foldl (fun acc lane => acc.setFlagBit d lane (on lane)) n).registers = n.registers := by
    induction lanes generalizing n with
    | nil => rfl
    | cons lane rest ih => exact ih _
  exact along _ _ m

/-- Executing an instruction changes no other byte. -/
theorem step_outside {m m' : Machine} {d : Decoded} {b : Nat} (stepped : m.step d = some m')
    (outside : ¬ Written d b) : m'.registers b = m.registers b := by
  unfold Written at outside
  unfold Machine.step at stepped
  split at stepped
  · cases stepped
    rfl
  · cases stepped
    rfl
  · cases stepped
    rfl
  · cases stepped
    rfl
  · cases stepped
    rw [compare_registers]
  · rename_i sel
    cases stepped
    rw [if_neg (by rw [sel]; decide)] at outside
    exact write_outside outside
  · rename_i send _ _ _ _ _
    rw [if_neg send] at outside
    obtain ⟨f, -, rfl⟩ := Option.map_eq_some_iff.mp stepped
    exact write_outside outside

/-- A run of words changes no byte outside what each of them may write. -/
theorem run_outside {l : Layout} {ws : List Word} {m m' : Machine} {b : Nat} (ran : m.run l ws = some m')
    (outside : ∀ w ∈ ws, ∀ d, l.decode w = .ok d → ¬ Written d b) : m'.registers b = m.registers b := by
  induction ws generalizing m with
  | nil =>
    cases ran
    rfl
  | cons w rest ih =>
    rw [Machine.run, List.foldlM_cons, Option.bind_eq_bind, Option.bind_eq_some_iff] at ran
    obtain ⟨t, first, later⟩ := ran
    obtain ⟨d, decoded, stepped⟩ := Option.bind_eq_some_iff.mp first
    have word : l.decode w = .ok d := by
      cases read : l.decode w with
      | error e =>
        rw [read] at decoded
        cases decoded
      | ok x =>
        rw [read] at decoded
        cases decoded
        rfl
    rw [ih later fun v member => outside v (List.mem_cons_of_mem _ member),
      step_outside stepped (outside w List.mem_cons_self d word)]

/-! ## Commands -/

/-- The bytes from where an operand begins. -/
def Stretch (r : Register) (bytes b : Nat) : Prop :=
  r.file = .grf ∧ (r.indirect = none → r.byteOffset.toNat ≤ b ∧ b < r.byteOffset.toNat + bytes)

/-- The bytes a command may write. -/
def Reached (x : Issue) : Nat → Prop :=
  match x.command with
  | .unary _ dst _ | .binary _ dst _ _ | .compare _ dst _ _ =>
    Lanes dst (strideElems (destinationStride dst)).toNat x.state.execWidth.toNat
  | .ternary _ dst _ _ _ => Stretch dst (x.state.execWidth.toNat * dst.type.size)
  | .send _ dst _ d => Rows dst d.responseLength.toNat
  | .fence dst _ _ | .flushSampler dst _ => Rows dst 1
  | .atomic _ dst _ _ _ => Rows dst x.state.laneRegisters.toNat
  | .untypedRead dst _ _ elements => Rows dst (UInt32.ofInt elements * x.state.laneRegisters).toNat
  | .scratchRead dst _ _ registers => Rows dst (UInt32.ofInt registers).toNat
  | .motion _ dst _ _ => Rows dst 7
  | .endThread => Rows (.ud8 127 0) 1
  | .nop | .jump _ | .barrier _ | .wait | .untypedWrite .. | .scratchWrite .. => fun _ => False

/-- The operands of a command. -/
def operands : Command → List Register
  | .unary _ dst src => [dst, src]
  | .binary _ dst src0 src1 | .compare _ dst src0 src1 => [dst, src0, src1]
  | .ternary _ dst src0 src1 src2 => [dst, src0, src1, src2]
  | .send _ dst payload _ | .fence dst payload _ | .flushSampler dst payload
  | .atomic _ dst payload _ _ | .untypedRead dst payload _ _ | .scratchRead dst payload _ _
  | .motion _ dst payload _ => [dst, payload]
  | .barrier payload | .untypedWrite payload _ _ | .scratchWrite payload _ _ => [payload]
  | .nop | .jump _ | .wait | .endThread => []

/-- An operand fits a word wherever it stands. -/
abbrev Tame (r : Register) : Prop := ∀ f, Fits f r

/-- The shared functions that messages go to have codes of their own. -/
def IsTarget (f : SharedFunction) : Prop := f.code.toNat < 16 ∧ SharedFunction.ofCode f.code = f

/-- The parts of a command that encoding does not check fit a word. -/
def Encodable (c : Command) : Prop :=
  (∀ r ∈ operands c, Tame r) ∧
    match c with
    | .send target _ _ _ => IsTarget target
    | _ => True

/-- A word that decodes, writes only bytes of a set and is not split. -/
def StaysIn (g : Generation) (inside : Nat → Prop) (w : Word) : Prop :=
  ∃ d, g.layout.decode w = .ok d ∧ (∀ b, Written d b → inside b) ∧
    (d.opcode.isThreeSource = true → d.execSize = 16 → g.supports .tripleSimd16 = true)

theorem StaysIn.mono {g : Generation} {inside within : Nat → Prop} {w : Word} (stays : StaysIn g inside w)
    (included : ∀ b, inside b → within b) : StaysIn g within w := by
  obtain ⟨d, decoded, written, split⟩ := stays
  exact ⟨d, decoded, fun b writes => included b (written b writes), split⟩

/-- A word of the arithmetic unit, by what its decoded form is made of. -/
theorem stays_lanes {g : Generation} {w : Word} {d : Decoded} {dst : Register} (decoded : g.layout.decode w = .ok d)
    (target : d.dst = readDestination dst) (plain : d.opcode.isThreeSource = false) (other : d.opcode ≠ .send) :
    StaysIn g (Lanes dst (strideElems (destinationStride dst)).toNat d.execSize.toNat) w := by
  refine ⟨d, decoded, fun b writes => ?_, fun triple => ?_⟩
  · unfold Written at writes
    rw [if_neg other, target] at writes
    refine ⟨writes.1, fun direct => ?_⟩
    have held := writes.2 direct
    simpa [readDestination, direct, Register.byteOffset] using held
  · rw [plain] at triple
    cases triple

/-- A message, by what its decoded form is made of. -/
theorem stays_rows {g : Generation} {w : Word} {d : Decoded} {dst : Register} (decoded : g.layout.decode w = .ok d)
    (target : d.dst = readDestination dst) (message : d.opcode = .send) : StaysIn g (Rows dst (responseRows d)) w := by
  refine ⟨d, decoded, fun b writes => ?_, fun triple => ?_⟩
  · unfold Written at writes
    rw [if_pos message, target] at writes
    refine ⟨writes.1, fun direct => ?_⟩
    have held := writes.2 direct
    simpa [readDestination, direct] using held
  · rw [message] at triple
    cases triple

theorem memoryFunction_isTarget (g : Generation) : IsTarget g.memoryFunction := by
  unfold memoryFunction
  split <;> exact ⟨by decide, by decide⟩

theorem untypedFunction_isTarget (g : Generation) : IsTarget g.untypedFunction := by
  unfold untypedFunction
  split
  · exact ⟨by decide, by decide⟩
  · split <;> exact ⟨by decide, by decide⟩

theorem stays_message {g : Generation} {s : State} {target : SharedFunction} {dst payload : Register} {d : Descriptor}
    {w : Word} (state : StateFits s) (known : IsTarget target) (fitsDst : Tame dst) (fitsSrc : Tame payload)
    (encoded : g.sendWord s target dst payload d = .ok w) : StaysIn g (Rows dst d.responseLength.toNat) w :=
  stays_rows (sendWord_decodes state known.1 known.2 (fitsDst _) (fitsSrc _) encoded) rfl rfl

/-- A response to the null register writes nothing. -/
theorem rows_null {r : Register} (null : r.isNull = true) (rows b : Nat) : ¬ Rows r rows b := by
  rintro ⟨file, -⟩
  simp [Register.isNull, file] at null

theorem lanes_architecture {r : Register} (file : r.file = .arf) (step lanes b : Nat) : ¬ Lanes r step lanes b := by
  rintro ⟨general, -⟩
  rw [file] at general
  cases general

theorem tame_retype {r : Register} (tame : Tame r) (t : DataType) : Tame (r.retype t) :=
  fun f => ⟨(tame f).file, (tame f).listed, (tame f).place, (tame f).address, (tame f).vertical, (tame f).width,
    (tame f).horizontal⟩

/-- An operand with small codes in its region, if indirect from the first address register entry on. -/
theorem tame_shape {r : Register} (file : r.file = .grf ∨ r.file = .imm ∨ r.file = .arf ∧ r.number.toNat < 256 ∧
      r.sub.toNat < 32) (address : ∀ a, r.indirect = some a → a.entry = 0) (vertical : r.region.vertical.toNat < 16)
    (width : r.region.width.toNat < 8) (horizontal : r.region.horizontal.toNat < 4) : Tame r := by
  intro f
  refine ⟨?_, ?_, ?_, ?_, vertical, width, horizontal⟩
  · rcases file with file | file | ⟨file, -⟩ <;> rw [file] <;> decide
  · rcases file with file | file | ⟨file, -⟩ <;> rw [file] <;> decide
  · intro arf
    rcases file with file | file | ⟨-, place⟩
    · rw [arf] at file
      cases file
    · rw [arf] at file
      cases file
    · exact place
  · intro a indirect
    rw [address a indirect]
    exact Nat.two_pow_pos _

theorem tame_direct {r : Register} (file : r.file = .grf ∨ r.file = .imm ∨ r.file = .arf ∧ r.number.toNat < 256 ∧
      r.sub.toNat < 32) (direct : r.indirect = none) (vertical : r.region.vertical.toNat < 16)
    (width : r.region.width.toNat < 8) (horizontal : r.region.horizontal.toNat < 4) : Tame r := by
  refine tame_shape file (fun a address => ?_) vertical width horizontal
  rw [direct] at address
  cases address

theorem countCode_small (n : Int) : ((countCode? n).getD 0).toNat ≤ 5 := by
  unfold countCode?
  split_ifs <;> decide

theorem tame_vec (number sub : UInt32) (t : DataType) (vertical width horizontal : Int) :
    Tame (.vec number sub t vertical width horizontal) := by
  refine tame_direct (.inl rfl) rfl ?_ ?_ ?_
  · change (verticalCode vertical).toNat < 16
    unfold verticalCode
    split
    · decide
    · have small := countCode_small vertical
      rw [UInt8.toNat_add]
      change (_ + 1) % 256 < 16
      omega
  · have small := countCode_small width
    change ((countCode? width).getD 0).toNat < 8
    omega
  · change (horizontalCode horizontal).toNat < 4
    unfold horizontalCode
    split_ifs <;> decide

theorem tame_null : Tame .null :=
  tame_direct (.inr (.inr ⟨rfl, by decide, by decide⟩)) rfl (by decide) (by decide) (by decide)

theorem tame_notification (sub : UInt32) (small : sub.toNat < 32) : Tame (.notification sub) :=
  tame_direct (.inr (.inr ⟨rfl, show (0x90 : UInt32).toNat < 256 by decide, small⟩)) rfl
    (show (0 : UInt8).toNat < 16 by decide)
    (show (0 : UInt8).toNat < 8 by decide) (show (0 : UInt8).toNat < 4 by decide)

theorem motionWord_sends {g : Generation} {s : State} {message : UInt32} {dst payload : Register} {surface : UInt8}
    {w : Word} (built : g.motionWord s message dst payload surface = .ok w) :
    ∃ d : Descriptor, d.responseLength = 7 ∧ g.sendWord s .checkRefine (dst.retype .uw) payload d = .ok w := by
  unfold motionWord at built
  dsimp only at built
  split at built
  · simp only [pure_bind, refuse_ok] at built
    exact ⟨_, rfl, built.2⟩
  · split at built
    · simp only [pure_bind, refuse_ok] at built
      exact ⟨_, rfl, built.2⟩
    · cases built

theorem tripleUnitTakes_size {g : Generation} {t : DataType} (takes : g.tripleUnitTakes t = true) : 4 ≤ t.size := by
  cases t <;> first | decide | (unfold tripleUnitTakes at takes; split_ifs at takes <;> simp at takes)

/-- The destination of a three-source word that was built. -/
theorem tripleWord_destination {g : Generation} {s : State} {op : Native.Opcode} {dst src0 src1 src2 : Register}
    {w : Word} (encoded : g.tripleWord s op dst src0 src1 src2 = .ok w) :
    dst.file = .grf ∧ dst.number.toNat < 128 ∧ dst.sub.toNat < 32 ∧ 4 ≤ dst.type.size := by
  simp only [tripleWord, bind_ok] at encoded
  obtain ⟨-, -, _, checked, code, known, -⟩ := encoded
  refine ⟨?_, (checkTriple_ok checked).1, ?_, ?_⟩
  · by_contra other
    simp [checkTriple, other] at checked
  · unfold checkTriple at checked
    split at checked
    · cases checked
    · split at checked
      · cases checked
      · split at checked
        · cases checked
        · rename_i aligned
          exact UInt32.lt_iff_toNat_lt.mp (UInt32.not_le.mp fun large => aligned (.inr large))
  · unfold tripleTypeCode at known
    by_cases takes : g.tripleUnitTakes dst.type = true
    · exact tripleUnitTakes_size takes
    · simp [takes] at known

/-- A three-source word writes one row after the other. -/
theorem stays_triple {g : Generation} {h : Decoded} {r src0 src1 src2 : Register} {w : Word} {inside : Nat → Prop}
    (decoded : g.layout.decode w = .ok (readTriple h r src0 src1 src2)) (other : h.opcode ≠ .send)
    (narrow : h.execSize = 16 → g.supports .tripleSimd16 = true)
    (included : ∀ b, (r.number * grfSize + r.sub).toNat ≤ b →
      b < (r.number * grfSize + r.sub).toNat + h.execSize.toNat * r.type.size → inside b) : StaysIn g inside w := by
  refine ⟨_, decoded, fun b writes => ?_, fun _ => narrow⟩
  unfold Written at writes
  rw [if_neg (by exact other)] at writes
  obtain ⟨lane, few, low, high⟩ := writes.2 rfl
  change (r.number * grfSize + r.sub).toNat + lane * 1 * r.type.size ≤ b at low
  change b < (r.number * grfSize + r.sub).toNat + lane * 1 * r.type.size + r.type.size at high
  change lane < h.execSize.toNat at few
  rw [Nat.mul_one] at low high
  have lanes : (lane + 1) * r.type.size ≤ h.execSize.toNat * r.type.size := Nat.mul_le_mul_right _ few
  rw [Nat.succ_mul] at lanes
  exact included b (by omega) (by omega)

theorem stays_triples {g : Generation} {s : State} {op : Native.Opcode} {dst src0 src1 src2 : Register} {ws : List Word}
    (state : StateFits s) (known : op ∈ Native.Opcode.all) (triple : op.isThreeSource = true)
    (encoded : g.tripleWords s op dst src0 src1 src2 = .ok ws) :
    ∀ w ∈ ws, StaysIn g (Stretch dst (s.execWidth.toNat * dst.type.size)) w := by
  have decoded := tripleWords_decode state known triple encoded
  have message : op ≠ .send := by
    rintro rfl
    cases triple
  simp only [tripleWords, bind_ok] at encoded
  obtain ⟨_, built, -⟩ := encoded
  obtain ⟨file, number, sub, size⟩ := tripleWord_destination built
  have grf : grfSize.toNat = 32 := rfl
  have base (n : UInt32) (small : n.toNat ≤ 128) : (n * grfSize + dst.sub).toNat = n.toNat * 32 + dst.sub.toNat := by
    rw [UInt32.toNat_add, UInt32.toNat_mul, grf]
    omega
  have next : (dst.number + 1).toNat = dst.number.toNat + 1 := by
    rw [UInt32.toNat_add]
    change (_ + 1) % 4294967296 = _
    omega
  intro w member
  have read := List.mem_map_of_mem (f := g.layout.decode) member
  rw [decoded, readTriples] at read
  split at read
  · rename_i halves
    obtain ⟨sixteen, -⟩ := halves
    have lanes : s.execWidth.toNat = 16 := by rw [sixteen]; rfl
    have eight : ¬ (8 : Int) = 16 := by decide
    simp only [List.map_cons, List.map_nil, List.mem_cons, List.not_mem_nil, or_false] at read
    rcases read with lower | upper
    · refine stays_triple lower message (fun wide => absurd wide eight) fun b low high => ?_
      change b < _ + 8 * _ at high
      refine ⟨file, fun _ => ⟨low, ?_⟩⟩
      change b < (dst.number * grfSize + dst.sub).toNat + _
      rw [lanes]
      omega
    · refine stays_triple upper message (fun wide => absurd wide eight) fun b low high => ?_
      change b < _ + 8 * _ at high
      dsimp only at low high
      rw [base _ (by omega), next] at low high
      refine ⟨file, fun _ => ?_⟩
      change (dst.number * grfSize + dst.sub).toNat ≤ b ∧ b < (dst.number * grfSize + dst.sub).toNat + _
      rw [base _ (by omega), lanes]
      omega
  · rename_i whole
    simp only [List.map_cons, List.map_nil, List.mem_singleton] at read
    refine stays_triple read message (fun wide => ?_) fun b low high => ⟨file, fun _ => ⟨low, high⟩⟩
    by_contra lacking
    exact whole ⟨wide, by simpa using lacking⟩

/-- What the words of a command write is known from the command. -/
theorem assemble_stays {g : Generation} {x : Issue} {ws : List Word} (state : StateFits x.state)
    (encodable : Encodable x.command) (encoded : g.assemble x.state x.command = .ok ws) :
    ∀ w ∈ ws, StaysIn g (Reached x) w := by
  obtain ⟨s, c⟩ := x
  obtain ⟨tame, target⟩ := encodable
  dsimp only at state tame target encoded
  have single {made : Except Diagnostic Word} {inside : Nat → Prop} (encoded : made.map ([·]) = .ok ws)
      (each : ∀ w, made = .ok w → StaysIn g inside w) : ∀ w ∈ ws, StaysIn g inside w := by
    obtain ⟨w, built, rfl⟩ := map_ok.mp encoded
    intro v member
    obtain rfl := List.mem_singleton.mp member
    exact each v built
  cases c with
  | unary op dst src =>
    refine single encoded fun w built => ?_
    have plain : op.opcode.isThreeSource = false := by cases op <;> rfl
    have other : op.opcode ≠ .send := by cases op <;> decide
    exact stays_lanes (unaryWord_decodes state (by cases op <;> decide) (by cases op <;> rfl) plain
      (tame dst (by simp [operands]) _) (tame src (by simp [operands]) _) built) rfl plain other
  | binary op dst src0 src1 =>
    refine single encoded fun w built => ?_
    have plain : op.opcode.isThreeSource = false := by cases op <;> rfl
    have other : op.opcode ≠ .send := by cases op <;> decide
    exact stays_lanes (binaryWord_decodes state (by cases op <;> decide) (by cases op <;> rfl) plain other
      (tame dst (by simp [operands]) _) (tame src0 (by simp [operands]) _) (tame src1 (by simp [operands]) _) built)
      rfl plain other
  | compare condition dst src0 src1 =>
    refine single encoded fun w built => ?_
    have other : Native.Opcode.cmp ≠ .send := by decide
    exact stays_lanes (compareWord_decodes state (tame dst (by simp [operands]) _) (tame src0 (by simp [operands]) _)
      (tame src1 (by simp [operands]) _) built) rfl rfl other
  | ternary op dst src0 src1 src2 =>
    exact stays_triples state (by cases op <;> decide) (by cases op <;> rfl) encoded
  | nop =>
    refine single encoded fun w built => ?_
    exact ⟨_, nopWord_decodes state built, fun b writes => lanes_architecture rfl _ _ b writes, nofun⟩
  | jump distance =>
    refine single encoded fun w built => ?_
    have unmasked : StateFits { s with execWidth := 1, noMask := true } := ⟨state.quarter, state.predicate⟩
    have other : Native.Opcode.jmpi ≠ .send := by decide
    have stays := stays_lanes (binaryWord_decodes unmasked (by decide) rfl rfl other (instructionPointer_fits _)
      (instructionPointer_fits _) (immD_fits _ _) built) rfl rfl other
    exact stays.mono fun b lanes => lanes_architecture rfl _ _ b lanes
  | send target dst payload d =>
    refine single encoded fun w built => ?_
    have stays := stays_message state target (tame dst (by simp [operands])) (tame payload (by simp [operands])) built
    exact stays
  | barrier payload =>
    refine single encoded fun w built => ?_
    have stays := stays_message state ⟨by decide, by decide⟩ tame_null (tame payload (by simp [operands])) built
    exact stays.mono fun b rows => rows_null rfl _ b rows
  | wait =>
    refine single encoded fun w built => ?_
    have fits := tame_notification 0 (by decide)
    have other : Native.Opcode.wait ≠ .send := by decide
    have stays := stays_lanes (unaryWord_decodes state (by decide) rfl rfl (fits _) (fits _) built) rfl rfl other
    exact stays.mono fun b lanes => lanes_architecture rfl _ _ b lanes
  | fence dst payload flush =>
    refine single encoded fun w built => ?_
    have stays := stays_message state (memoryFunction_isTarget g) (tame dst (by simp [operands]))
      (tame payload (by simp [operands])) built
    refine stays.mono fun b rows => ?_
    dsimp only at rows
    split at rows
    · exact absurd rows (rows_null ‹_› _ b)
    · exact rows
  | flushSampler dst payload =>
    refine single encoded fun w built => ?_
    have stays := stays_message state ⟨by decide, by decide⟩ (tame dst (by simp [operands]))
      (tame payload (by simp [operands])) built
    exact stays
  | atomic function dst payload surface length =>
    refine single encoded fun w built => ?_
    unfold atomicWord at built
    split at built
    · cases built
    · have stays := stays_message state (untypedFunction_isTarget g) (tame dst (by simp [operands]))
        (tame payload (by simp [operands])) built
      refine stays.mono fun b rows => ?_
      dsimp only at rows
      split at rows
      · exact absurd rows (rows_null ‹_› _ b)
      · exact rows
  | untypedRead dst address surface elements =>
    refine single encoded fun w built => ?_
    simp only [untypedReadWord, bind_ok] at built
    obtain ⟨control, -, built⟩ := built
    have stays := stays_message state (untypedFunction_isTarget g) (tame dst (by simp [operands]))
      (tame address (by simp [operands])) built
    exact stays
  | untypedWrite payload surface elements =>
    refine single encoded fun w built => ?_
    simp only [untypedWriteWord, bind_ok] at built
    obtain ⟨control, -, built⟩ := built
    have stays := stays_message state (untypedFunction_isTarget g) (tame_retype tame_null _)
      (tame payload (by simp [operands])) built
    exact stays.mono fun b rows => rows_null rfl _ b rows
  | scratchRead dst header offset registers =>
    refine single encoded fun w built => ?_
    simp only [scratchReadWord, bind_ok] at built
    obtain ⟨function, -, built⟩ := built
    have stays := stays_message state (memoryFunction_isTarget g) (tame_retype (tame dst (by simp [operands])) _)
      (tame header (by simp [operands])) built
    exact stays
  | scratchWrite header offset registers =>
    refine single encoded fun w built => ?_
    simp only [scratchWriteWord, bind_ok] at built
    obtain ⟨function, -, built⟩ := built
    have stays := stays_message state (memoryFunction_isTarget g) (tame_retype tame_null _)
      (tame header (by simp [operands])) built
    exact stays.mono fun b rows => rows_null rfl _ b rows
  | motion message dst payload surface =>
    refine single encoded fun w built => ?_
    obtain ⟨d, length, sent⟩ := motionWord_sends built
    have stays := stays_message state ⟨by decide, by decide⟩ (tame_retype (tame dst (by simp [operands])) _)
      (tame payload (by simp [operands])) sent
    rw [length] at stays
    exact stays
  | endThread =>
    simp only [assemble, endThreadWords, bind_ok, pure_ok] at encoded
    obtain ⟨copy, copied, message, sent, rfl⟩ := encoded
    have unmasked : StateFits (s.unmasked 8) := ⟨state.quarter, show (0 : UInt32).toNat < 16 by decide⟩
    have whole (n : UInt32) : Tame (.ud8 n 0) := tame_vec n 0 .ud 8 8 1
    have other : Native.Opcode.mov ≠ .send := by decide
    have last := stays_lanes (unaryWord_decodes unmasked (by decide) rfl rfl (whole 127 _) (whole 0 _) copied)
      rfl rfl other
    have quiet := stays_message unmasked ⟨by decide, by decide⟩ tame_null (whole 127) sent
    simp only [List.forall_mem_cons, List.not_mem_nil, false_implies, implies_true, and_true]
    refine ⟨last.mono fun b lanes => ?_, quiet.mono fun b rows => absurd rows (rows_null rfl _ b)⟩
    refine ⟨rfl, fun _ => ?_⟩
    obtain ⟨lane, inside, low, high⟩ := lanes.2 rfl
    have lanes : (readHeader (s.unmasked 8) .mov).execSize.toNat = 8 := rfl
    change 4064 + lane * 1 * 4 ≤ b at low
    change b < 4064 + lane * 1 * 4 + 4 at high
    change 4064 ≤ b ∧ b < 4096
    change lane < 8 at inside
    omega

/-! ## Fixups -/

theorem decode_execSize {l : Layout} {w : Word} {d : Decoded} (decoded : l.decode w = .ok d)
    (triple : d.opcode.isThreeSource = true) : d.execSize = (l.decodeHeader w).execSize := by
  rw [(StraightLine.decode_opcode decoded).1] at triple
  simp only [Layout.decode, triple, ↓reduceIte, Layout.decodeTriple] at decoded
  split at decoded
  · cases decoded
  · cases decoded
    rfl

/-- A fixup leaves a word as it is, or puts a fence behind it that writes nothing. -/
theorem StaysIn.replacement {g : Generation} {inside : Nat → Prop} {w : Word} (stays : StaysIn g inside w) (x : Fixup) :
    ∀ v ∈ x.replacement g w, StaysIn g inside v := by
  have self : ∀ v ∈ [w], StaysIn g inside v := fun v member => by rwa [List.mem_singleton.mp member]
  obtain ⟨d, decoded, -, narrow⟩ := stays
  cases x with
  | splitTriples =>
    have same : Fixup.splitWord g w = [w] := by
      unfold Fixup.splitWord
      split
      · rfl
      · rename_i lacking
        have single : g.layout.isWideTriple w = false := by
          by_contra wide
          rw [Bool.not_eq_false, Layout.isWideTriple, Bool.and_eq_true, beq_iff_eq] at wide
          have triple : d.opcode.isThreeSource = true := by
            rw [(StraightLine.decode_opcode decoded).1]
            exact wide.1
          exact lacking (narrow triple ((decode_execSize decoded triple).trans wide.2))
        simp [Layout.split?, single]
    rw [Fixup.replacement, same]
    exact self
  | fenceWrites =>
    simp only [Fixup.replacement]
    split
    · rename_i fence built
      have state : StateFits { execWidth := 8, noMask := true } := ⟨by decide, by decide⟩
      have quiet : StaysIn g inside fence := by
        have stays := stays_message state (memoryFunction_isTarget g) tame_null (tame_vec 0 0 .ud 8 8 1) built
        exact stays.mono fun b rows => absurd rows (rows_null rfl _ b)
      unfold Fixup.fenceWord
      split
      · simp only [List.forall_mem_cons, List.not_mem_nil, false_implies, implies_true, and_true]
        exact ⟨self w (List.mem_singleton_self w), quiet⟩
      · exact self
    · exact self

theorem StaysIn.fixed {g : Generation} {inside : Nat → Prop} {w : Word} (stays : StaysIn g inside w)
    (fixups : List Fixup) :
    ∀ v ∈ Fixup.fixed g fixups w, StaysIn g inside v := by
  have along (become : Word → List Word) (each : ∀ v ∈ become w, StaysIn g inside v) :
      ∀ v ∈ fixups.foldl (fun become x w => (become w).flatMap (x.replacement g)) become w, StaysIn g inside v := by
    induction fixups generalizing become with
    | nil => exact each
    | cons x rest ih =>
      refine ih _ fun v member => ?_
      obtain ⟨u, old, new⟩ := List.mem_flatMap.mp member
      exact (each u old).replacement x v new
  exact along _ fun v member => by rwa [List.mem_singleton.mp member]

end GpuCodegen.Footprints
