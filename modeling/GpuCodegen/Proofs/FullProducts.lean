import GpuCodegen.Proofs.MemoryWrites
import GpuCodegen.Proofs.ProductSequences

/-! The word sequence of full products. In the lanes that are let through its two result rows hold the
128-bit product, and none of its additions leaves 64 bits on the way: the sum of the middle products of
dwords with the carry from below is at most 2^64 - 1. -/

namespace GpuCodegen.Products
open Native Generation Lanes Outcome WordRoundTrip

/-- The two halves make the whole product. -/
theorem product_whole (a b : UInt64) :
    (highProduct a b).toNat * 2 ^ 64 + (a * b).toNat = a.toNat * b.toNat := by
  have bound : a.toNat * b.toNat < 2 ^ 64 * 2 ^ 64 := Nat.mul_lt_mul'' a.toNat_lt b.toNat_lt
  rw [highProduct, UInt64.toNat_ofNat', UInt64.toNat_mul]
  omega

/-! ## Additions -/

/-- No addition of a run leaves 64 bits, in the lanes it works on. -/
def AdditionsFit (l : Layout) (ws : List Word) (m : Machine) : Prop :=
  ∀ before w after mid d, ws = before ++ w :: after → m.run l before = some mid → l.decode w = .ok d →
    d.opcode = .add → ∀ lane < d.execSize.toNat, mid.enabled d lane = true →
      ((mid.inputs d lane).map UInt64.toNat).sum < 2 ^ 64

/-- A word that, if it adds, adds what its assignment says. -/
def Adds (l : Layout) (s : State) (lanes : Nat) (w : Word) (x : Assignment) : Prop :=
  ∀ d, l.decode w = .ok d → d.opcode = .add →
    IsSum x ∧ d.execSize.toNat = lanes ∧ (∀ m : Machine, m.enabled d = lets s m.flag) ∧
      ∀ (m : Machine) (lane : Nat), lane < lanes → m.inputs d lane =
        [x.first.of fun a => qword m a lane, x.second.of fun a => qword m a lane]

/-- Where the sums of the assignments fit, no addition of their words leaves 64 bits. -/
theorem additions_fit {l : Layout} {s : State} {lanes : Nat} {rows : List Nat}
    (apart : ∀ a ∈ rows, ∀ b ∈ rows, a ≠ b → RowsApart lanes a b) {ws : List Word} {xs : List Assignment}
    (performs : List.Forall₂ (Performs l lanes (lets s)) ws xs) (adds : List.Forall₂ (Adds l s lanes) ws xs)
    (named : ∀ x ∈ xs, ∀ a ∈ x.rows, a ∈ rows) (m : Machine)
    (fits : ∀ lane < lanes, lets s m.flag lane = true → StepsFit (fun a => qword m a lane) xs) :
    AdditionsFit l ws m := by
  induction performs generalizing m with
  | nil =>
    intro before w after mid d split
    simp at split
  | @cons v x ws xs first rest ih =>
    cases adds with
    | cons here later =>
    intro before w after mid d split ran decoded addition
    cases before with
    | nil =>
      obtain ⟨rfl, rfl⟩ := List.cons.inj split
      obtain rfl : m = mid := Option.some.inj ran
      obtain ⟨sum, size, works, inputs⟩ := here d decoded addition
      intro lane inside on
      rw [size] at inside
      rw [works] at on
      rw [inputs m lane inside]
      have small := (fits lane inside on).1 sum
      simpa using small
    | cons head tail =>
      obtain ⟨rfl, rfl⟩ := List.cons.inj split
      obtain ⟨m₁, stepped, flag, cells, -⟩ := performs_cells apart first (named x List.mem_cons_self) m
      rw [run_cons, stepped, Option.bind_some] at ran
      have names : ∀ y ∈ xs, ∀ a ∈ y.rows, a ∈ rows := fun y member => named y (List.mem_cons_of_mem _ member)
      refine ih later names m₁ ?_ tail w after mid d rfl ran decoded addition
      intro lane inside on
      rw [flag] at on
      refine (fits lane inside on).2.congr names fun a known => ?_
      rw [cells lane inside a known, if_pos on]

section
variable {g : Generation} {s : State} {lanes : Nat} {dst src0 src1 : Register} {target a b : Nat}
  {part0 part1 : Part} {c : Command} {x : Assignment} {ws : List Word}

/-- The operation of a command on general registers. -/
def operation : Command → Native.Opcode
  | .unary op _ _ => op.opcode
  | .binary op _ _ _ => op.opcode
  | _ => .nop

/-- A command that becomes words which add what an assignment says, if they add. -/
def CarriesSums (g : Generation) (s : State) (lanes : Nat) (c : Command) (x : Assignment) : Prop :=
  ∀ w, g.assemble s c = .ok [w] → Adds g.layout s lanes w x

/-- A command that does not add becomes a word that does not. -/
theorem carriesSums_other (operates : Operates g c) (other : operation c ≠ .add) (x : Assignment) :
    CarriesSums g s lanes c x := by
  intro w made d decoded addition
  have named : MemoryWrites.opcodeOf g w = operation c := by
    cases c with
    | unary op dst src =>
      obtain ⟨v, built, same⟩ := map_ok.mp made
      obtain rfl := List.singleton_inj.mp same
      have known : op.opcode ∈ Native.Opcode.all := by cases op <;> decide
      exact MemoryWrites.unaryWord_opcode known built
    | binary op dst src0 src1 =>
      obtain ⟨v, built, same⟩ := map_ok.mp made
      obtain rfl := List.singleton_inj.mp same
      have known : op.opcode ∈ Native.Opcode.all := by cases op <;> decide
      exact MemoryWrites.binaryWord_opcode known built
    | _ => cases operates
  have opcode : d.opcode = MemoryWrites.opcodeOf g w := (StraightLine.decode_opcode decoded).1
  exact absurd (named.symm.trans (opcode.symm.trans addition)) other

/-- An addition of rows. -/
theorem carriesSums_add (state : StateFits s) (width : s.execWidth.toNat = lanes)
    (row : IsRow dst target .whole lanes) (read0 : IsRow src0 a part0 lanes) (read1 : IsRow src1 b part1 lanes) :
    CarriesSums g s lanes (.add dst src0 src1) (computes target .add (.row a part0) (.row b part1)) := by
  intro w made d decoded addition
  obtain ⟨v, built, same⟩ := map_ok.mp made
  obtain rfl := List.singleton_inj.mp same
  have decodes := binaryWord_decodes state (by decide) rfl rfl (by decide) (row.fits _) (read0.fits _)
    (read1.fits _) built
  obtain rfl := Except.ok.inj (decoded.symm.trans decodes)
  refine ⟨rfl, width, fun m => rfl, ?_⟩
  intro m lane inside
  change [m.source (readSource s src0) lane, m.source (readSource s src1) lane] = _
  rw [(read0.reads s).value m lane inside, (read1.reads s).value m lane inside]
  rfl

theorem under_adds {cs : List Command} {xs : List Assignment} {pieces : List (List Word)}
    (carries : List.Forall₂ (Carries g s lanes) cs xs) (sums : List.Forall₂ (CarriesSums g s lanes) cs xs)
    (made : (Sequence.under s cs).mapM (fun x => g.assemble x.state x.command) = .ok pieces) :
    List.Forall₂ (Adds g.layout s lanes) pieces.flatten xs := by
  induction carries generalizing pieces with
  | nil =>
    rw [Sequence.under, List.map_nil, List.mapM_nil, pure_ok] at made
    subst made
    exact .nil
  | cons first rest ih =>
    cases sums with
    | cons here later =>
    simp only [Sequence.under, List.map_cons, List.mapM_cons, bind_ok, pure_ok] at made
    obtain ⟨ws, assembled, others, after, rfl⟩ := made
    obtain ⟨w, rfl, -⟩ := first ws assembled
    exact .cons (here w assembled) (ih later after)

end

/-! ## Sequences -/

section
variable {g : Generation} {s : State} {lanes high low a b t0 t1 : Nat} {rHigh rLow rA rB r0 r1 : Register}
  (few : lanes ≤ 8) (positive : 0 < lanes) (qHigh : IsAligned rHigh high lanes) (qLow : IsAligned rLow low lanes)
  (qA : IsAligned rA a lanes) (qB : IsAligned rB b lanes) (q0 : IsAligned r0 t0 lanes) (q1 : IsAligned r1 t1 lanes)
include few positive qHigh qLow qA qB q0 q1

/-- Every command of a full product has a word. -/
theorem fullMultiply_operates (known : g.isKnown = true) (family : g.isGen8Family = true) :
    ∀ c ∈ (Sequence.fullMultiply s rA rB rHigh rLow r0 r1).map (·.command), Operates g c := by
  have target := qHigh.whole_nameable known family positive
  have lower := qLow.whole_nameable known family positive
  have whole0 := q0.whole_nameable known family positive
  have whole1 := q1.whole_nameable known family positive
  have lowA := qA.low_nameable known family positive few
  have highA := qA.high_nameable known family positive few
  have lowB := qB.low_nameable known family positive few
  have highB := qB.high_nameable known family positive few
  have lowLower := qLow.low_nameable known family positive few
  have highLower := qLow.high_nameable known family positive few
  have low0 := q0.low_nameable known family positive few
  have high0 := q0.high_nameable known family positive few
  change ∀ c ∈ [_, _, _, _, _, _, _, _, _, _, _, _, _, _, _], Operates g c
  simp only [List.forall_mem_cons, List.not_mem_nil, false_implies, implies_true, and_true]
  exact ⟨⟨low0, highA⟩, ⟨lowLower, highB⟩, ⟨target, low0, .inl lowLower⟩, ⟨whole1, low0, .inl lowB⟩,
    ⟨whole0, lowA, .inl lowLower⟩, ⟨lower, lowA, .inl lowB⟩, ⟨whole1, whole1, .inl low0⟩,
    ⟨whole0, whole0, shift_second g⟩, ⟨target, target, .inl low0⟩, ⟨low0, highLower⟩, ⟨whole1, whole1, .inl low0⟩,
    ⟨whole0, whole1, shift_second g⟩, ⟨highLower, high0⟩, ⟨whole0, whole1, shift_second g⟩,
    ⟨target, target, .inl whole0⟩⟩

omit qLow qA qB in
/-- Four of the commands add. -/
theorem fullMultiply_sums (state : StateFits s) (width : s.execWidth.toNat = lanes)
    (operates : ∀ c ∈ (Sequence.fullMultiply s rA rB rHigh rLow r0 r1).map (·.command), Operates g c) :
    List.Forall₂ (CarriesSums g s lanes) ((Sequence.fullMultiply s rA rB rHigh rLow r0 r1).map (·.command))
      (highSteps high a b low t0 t1) := by
  have target := qHigh.whole (qHigh.number positive) (.inl rfl)
  have whole0 := q0.whole (q0.number positive) (.inl rfl)
  have whole1 := q1.whole (q1.number positive) (.inl rfl)
  have low0 := q0.low (q0.number positive) few
  change ∀ c ∈ [_, _, _, _, _, _, _, _, _, _, _, _, _, _, _], Operates g c at operates
  simp only [List.forall_mem_cons, List.not_mem_nil, false_implies, implies_true, and_true] at operates
  obtain ⟨c0, c1, c2, c3, c4, c5, -, c7, -, c9, -, c11, c12, c13, -⟩ := operates
  exact
    .cons (carriesSums_other c0 nofun _) <|
    .cons (carriesSums_other c1 nofun _) <|
    .cons (carriesSums_other c2 nofun _) <|
    .cons (carriesSums_other c3 nofun _) <|
    .cons (carriesSums_other c4 nofun _) <|
    .cons (carriesSums_other c5 nofun _) <|
    .cons (carriesSums_add state width whole1 whole1 low0) <|
    .cons (carriesSums_other c7 nofun _) <|
    .cons (carriesSums_add state width target target low0) <|
    .cons (carriesSums_other c9 nofun _) <|
    .cons (carriesSums_add state width whole1 whole1 low0) <|
    .cons (carriesSums_other c11 nofun _) <|
    .cons (carriesSums_other c12 nofun _) <|
    .cons (carriesSums_other c13 nofun _) <|
    .cons (carriesSums_add state width target target whole0) .nil

end

/-- The words of a full product exist. In the lanes that the predicate lets through they leave the exact
product of the unsigned qwords in two rows, and none of their additions leaves 64 bits. The other lanes of
the result keep their qwords, and nothing changes but the results and the temporaries. -/
theorem fullMultiply_lanes {g : Generation} {s : State} {lanes high low a b t0 t1 : Nat}
    {rHigh rLow rA rB r0 r1 : Register} (known : g.isKnown = true) (family : g.isGen8Family = true)
    (issuable : Issuable g s) (width : s.execWidth.toNat = lanes) (few : lanes ≤ 8)
    (qHigh : IsAligned rHigh high lanes) (qLow : IsAligned rLow low lanes) (qA : IsAligned rA a lanes)
    (qB : IsAligned rB b lanes) (q0 : IsAligned r0 t0 lanes) (q1 : IsAligned r1 t1 lanes)
    (apart : ProductRows lanes high a b [low, t0, t1]) :
    ∃ pieces, (Sequence.fullMultiply s rA rB rHigh rLow r0 r1).mapM (fun x => g.assemble x.state x.command) =
        .ok pieces ∧
      ∀ m : Machine, ∃ m', m.run g.layout pieces.flatten = some m' ∧ m'.flag = m.flag ∧
        (∀ lane < lanes, lets s m.flag lane = true →
          (qword m' high lane).toNat * 2 ^ 64 + (qword m' low lane).toNat =
            (qword m a lane).toNat * (qword m b lane).toNat) ∧
        (∀ lane < lanes, lets s m.flag lane = false →
          qword m' high lane = qword m high lane ∧ qword m' low lane = qword m low lane) ∧
        SameOutside [high, low, t0, t1] lanes m m' ∧ AdditionsFit g.layout pieces.flatten m := by
  have positive : 0 < lanes := by
    have widths := issuable.width
    omega
  have operates : ∀ c ∈ (Sequence.fullMultiply s rA rB rHigh rLow r0 r1).map (·.command), Operates g c :=
    fullMultiply_operates few positive qHigh qLow qA qB q0 q1 known family
  obtain ⟨pieces, made⟩ : ∃ pieces, (Sequence.fullMultiply s rA rB rHigh rLow r0 r1).mapM
      (fun x => g.assemble x.state x.command) = .ok pieces := under_exists issuable operates
  have carries :
      List.Forall₂ (Carries g s lanes) ((Sequence.fullMultiply s rA rB rHigh rLow r0 r1).map (·.command)) _ :=
    fullMultiply_carries issuable.toStateFits width few qHigh.toIsQwords qA.toIsQwords qB.toIsQwords qLow.toIsQwords
      q0.toIsQwords q1.toIsQwords (by simp [qHigh.number positive, qA.number positive, qB.number positive,
        qLow.number positive, q0.number positive, q1.number positive])
  obtain ⟨-, performs⟩ := under_performs carries made
  have adds := under_adds carries
    (fullMultiply_sums few positive qHigh q0 q1 issuable.toStateFits width operates) made
  have named : ∀ x ∈ highSteps high a b low t0 t1, ∀ row ∈ x.rows, row ∈ [high, a, b, low, t0, t1] := by
    simp [highSteps, copies, computes, Assignment.rows, Value.rows]
  have written : ∀ x ∈ highSteps high a b low t0 t1, x.target ∈ [high, low, t0, t1] := by
    simp [highSteps, copies, computes]
  refine ⟨pieces, made, ?_⟩
  intro m
  obtain ⟨m', ran, flag, cells, around⟩ := performs_rows apart.apart performs named written m
  refine ⟨m', ran, flag, ?_, ?_, around, ?_⟩
  · intro lane inside on
    rw [cells lane inside high (by simp), cells lane inside low (by simp), if_pos on, if_pos on,
      highSteps_product apart.fresh apart.left apart.right, highSteps_low apart.fresh apart.left apart.right]
    exact product_whole _ _
  · intro lane inside off
    have skipped : ¬ lets s m.flag lane = true := by simp [off]
    rw [cells lane inside high (by simp), cells lane inside low (by simp), if_neg skipped, if_neg skipped]
    exact ⟨rfl, rfl⟩
  · exact additions_fit apart.apart performs adds named m fun lane inside on =>
      highSteps_fit apart.fresh apart.left apart.right _

/-- The lanes eight to fifteen of a thread, where the predicate does not hold. -/
def upperUnset : State := { execWidth := 8, quarter := 1, predicate := 1, inversePredicate := true }

/-- Both sources may be the same vector. -/
theorem fullMultiply_lanes_square :
    Issuable .glk upperUnset ∧
      (∀ n ∈ [256, 320, 384, 448, 512], IsAligned (qwordsAt (UInt32.ofNat n) .ul false) n 8) ∧
      ProductRows 8 256 384 384 [320, 448, 512] ∧
      ∃ pieces, (Sequence.fullMultiply upperUnset (qwordsAt 384 .ul false) (qwordsAt 384 .ul false)
          (qwordsAt 256 .ul false) (qwordsAt 320 .ul false) (qwordsAt 448 .ul false)
          (qwordsAt 512 .ul false)).mapM (fun x => Generation.glk.assemble x.state x.command) = .ok pieces ∧
        ∀ m : Machine, ∃ m', m.run Generation.glk.layout pieces.flatten = some m' ∧ m'.flag = m.flag ∧
          (∀ lane < 8, lets upperUnset m.flag lane = true →
            (qword m' 256 lane).toNat * 2 ^ 64 + (qword m' 320 lane).toNat =
              (qword m 384 lane).toNat * (qword m 384 lane).toNat) ∧
          (∀ lane < 8, lets upperUnset m.flag lane = false →
            qword m' 256 lane = qword m 256 lane ∧ qword m' 320 lane = qword m 320 lane) ∧
          SameOutside [256, 320, 448, 512] 8 m m' ∧ AdditionsFit Generation.glk.layout pieces.flatten m := by
  have issuable : Issuable .glk upperUnset := ⟨⟨by decide, by decide⟩, by decide, ⟨_, rfl⟩⟩
  have vectors : ∀ n ∈ [256, 320, 384, 448, 512], IsAligned (qwordsAt (UInt32.ofNat n) .ul false) n 8 := by
    have each {n : Nat} (small : n < 2 ^ 32) (aligned : n % 32 = 0) (inside : n + 8 * 8 ≤ 4096) :
        IsAligned (qwordsAt (UInt32.ofNat n) .ul false) n 8 := by
      have number : (UInt32.ofNat n).toNat = n := UInt32.toNat_ofNat_of_lt small
      have qwords : IsQwords (qwordsAt (UInt32.ofNat n) .ul false) (UInt32.ofNat n).toNat 8 :=
        qwordsAt_isQwords (.inl rfl) nofun
      rw [number] at qwords
      exact ⟨qwords, aligned, inside⟩
    simp only [List.forall_mem_cons, List.not_mem_nil, false_implies, implies_true, and_true]
    exact ⟨each (by decide) (by decide) (by decide), each (by decide) (by decide) (by decide),
      each (by decide) (by decide) (by decide), each (by decide) (by decide) (by decide),
      each (by decide) (by decide) (by decide)⟩
  have apart : ProductRows 8 256 384 384 [320, 448, 512] :=
    ⟨by unfold RowsApart; decide, by decide, by decide, by decide⟩
  have at_ {n : Nat} (member : n ∈ [256, 320, 384, 448, 512]) := vectors n member
  exact ⟨issuable, vectors, apart, fullMultiply_lanes rfl rfl issuable rfl (by decide) (at_ (by decide))
    (at_ (by decide)) (at_ (by decide)) (at_ (by decide)) (at_ (by decide)) (at_ (by decide)) apart⟩

end GpuCodegen.Products
