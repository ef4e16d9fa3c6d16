import GpuCodegen.Proofs.LiveIntervals
import Mathlib.Data.List.Chain
import Mathlib.Logic.Relation

/-! Liveness along control flow. A value travels on the paths from a write of its register to a read
of it that pass no full definition in between. Intervals come from one walk over the instructions and
are widened over loops, so a path can leave its register's interval only through a backward jump whose
loop the widening does not see. -/

namespace GpuCodegen.LivePaths
open LiveIntervals

/-! ## Paths -/

/-- Control passes from one instruction to the next, or from a jump to its label. A jump that is not
predicated is always taken. -/
inductive Edge (k : Kernel) : Nat → Nat → Prop where
  | next {p : Nat} {i j : Instruction} (here : k.code[p]? = some i)
      (falls : i.op = .jump → i.predicated = true) (there : k.code[p + 1]? = some j) :
      Edge k p (p + 1)
  | jump {p q : Nat} {i j : Instruction} (here : k.code[p]? = some i) (jumps : i.op = .jump)
      (there : k.code[q]? = some j) (labels : j.op = .label) (same : j.label = i.label) : Edge k p q

/-- No label is defined twice. -/
def UniqueLabels (k : Kernel) : Prop :=
  ∀ (p q : Nat) (i j : Instruction), k.code[p]? = some i → k.code[q]? = some j → i.op = .label →
    j.op = .label → i.label = j.label → p = q

/-- The instruction at a position writes a register. -/
def WritesAt (k : Kernel) (r : VReg) (p : Nat) : Prop :=
  ∃ i, k.code[p]? = some i ∧ i.writes r = true

/-- The instruction at a position reads a register. -/
def ReadsAt (k : Kernel) (r : VReg) (p : Nat) : Prop :=
  ∃ i, k.code[p]? = some i ∧ i.reads r = true

/-- The instruction at a position overwrites every byte of a register. -/
def DefinesAt (k : Kernel) (r : VReg) (p : Nat) : Prop :=
  ∃ i d, k.code[p]? = some i ∧ i.dst.register? = some d ∧ d.reg = r ∧ k.fullyDefines i d = true

/-- A path on which a value of a register travels from a write to a read. -/
structure LivePath (k : Kernel) (r : VReg) (path : List Nat) : Prop where
  edges : path.IsChain (Edge k)
  start : ∃ p, path.head? = some p ∧ WritesAt k r p
  stop : ∃ p, path.getLast? = some p ∧ ReadsAt k r p
  free : ∀ p ∈ path.tail.dropLast, ¬ DefinesAt k r p

/-- Every position of a path lies in the interval of a register. -/
def Inside (k : Kernel) (r : VReg) (path : List Nat) : Prop :=
  ∃ iv, (Liveness.ofKernel k).intervalOf? r = some iv ∧ ∀ p ∈ path, iv.min ≤ p ∧ p ≤ iv.max

/-- A written value of a register can get to a position. -/
inductive Reaches (k : Kernel) (r : VReg) : Nat → Prop where
  | write {p : Nat} (writes : WritesAt k r p) : Reaches k r p
  | step {p q : Nat} (before : Reaches k r p) (edge : Edge k p q) (kept : ¬ DefinesAt k r q) :
      Reaches k r q

/-- The value a register has at a position can be read. -/
inductive LiveAt (k : Kernel) (r : VReg) : Nat → Prop where
  | read {p : Nat} (reads : ReadsAt k r p) : LiveAt k r p
  | step {p q : Nat} (edge : Edge k p q) (kept : ¬ DefinesAt k r p) (after : LiveAt k r q) :
      LiveAt k r p

/-- Widening sees that a register is live at the header of a loop: the loop reads it before a
definition, or its interval goes on across the header or already covers the loop from there. -/
def Seen (k : Kernel) (r : VReg) (l : Loop) : Prop :=
  ∃ iv, (Liveness.ofKernel k).intervalOf? r = some iv ∧
    (k.carries l r = true ∨ (iv.min < l.header ∧ l.header ≤ iv.max) ∨
      (iv.min = l.header ∧ l.stop ≤ iv.max))

theorem reaches_path {k : Kernel} {r : VReg} {p : Nat} (reaches : Reaches k r p) :
    ∃ path, (path ++ [p]).IsChain (Edge k) ∧
      (∃ q, (path ++ [p]).head? = some q ∧ WritesAt k r q) ∧
      ∀ q ∈ (path ++ [p]).tail, ¬ DefinesAt k r q := by
  induction reaches with
  | @write p writes => exact ⟨[], by simp, ⟨p, rfl, writes⟩, by simp⟩
  | @step p q _ edge kept ih =>
    obtain ⟨path, edges, ⟨first, head, writes⟩, free⟩ := ih
    refine ⟨path ++ [p], ?_, ⟨first, ?_, writes⟩, ?_⟩
    · refine List.isChain_append.mpr ⟨edges, by simp, ?_⟩
      intro x last y here
      simp only [List.getLast?_append, List.getLast?_singleton, Option.some_or, Option.mem_def,
        Option.some.injEq, List.head?_cons] at last here
      subst last here
      exact edge
    · rw [List.head?_append, head]
      rfl
    · intro x member
      rw [List.tail_append_of_ne_nil (by simp)] at member
      rcases List.mem_append.mp member with old | new
      · exact free x old
      · rw [List.mem_singleton.mp new]
        exact kept

theorem liveAt_path {k : Kernel} {r : VReg} {p : Nat} (live : LiveAt k r p) :
    ∃ path, (p :: path).IsChain (Edge k) ∧
      (∃ q, (p :: path).getLast? = some q ∧ ReadsAt k r q) ∧
      ∀ q ∈ (p :: path).dropLast, ¬ DefinesAt k r q := by
  induction live with
  | @read p reads => exact ⟨[], by simp, ⟨p, rfl, reads⟩, by simp⟩
  | @step p q edge kept _ ih =>
    obtain ⟨path, edges, ⟨final, last, reads⟩, free⟩ := ih
    refine ⟨q :: path, List.isChain_cons_cons.mpr ⟨edge, edges⟩, ⟨final, ?_, reads⟩, ?_⟩
    · rw [List.getLast?_cons_cons]
      exact last
    · intro x member
      rcases List.mem_cons.mp member with rfl | later
      · exact kept
      · exact free x later

/-- A value that can get to a position and be read after the next one travels over the edge between
them. -/
theorem livePath_through {k : Kernel} {r : VReg} {p q : Nat} (reaches : Reaches k r p)
    (edge : Edge k p q) (live : LiveAt k r q) :
    ∃ path, LivePath k r path ∧ p ∈ path ∧ q ∈ path := by
  obtain ⟨before, edges, ⟨first, head, writes⟩, free⟩ := reaches_path reaches
  obtain ⟨after, edges', ⟨final, last, reads⟩, free'⟩ := liveAt_path live
  refine ⟨(before ++ [p]) ++ q :: after, ⟨?_, ⟨first, ?_, writes⟩, ⟨final, ?_, reads⟩, ?_⟩, by simp,
    by simp⟩
  · refine List.isChain_append.mpr ⟨edges, edges', ?_⟩
    intro x ending y starting
    simp only [List.getLast?_append, List.getLast?_singleton, Option.some_or, Option.mem_def,
      Option.some.injEq, List.head?_cons] at ending starting
    subst ending starting
    exact edge
  · rw [List.head?_append, head]
    rfl
  · rw [List.getLast?_append, last]
    rfl
  · intro x member
    rw [List.tail_append_of_ne_nil (by simp), List.dropLast_append_of_ne_nil (by simp)] at member
    rcases List.mem_append.mp member with early | late
    · exact free x early
    · exact free' x late

/-- On a path of a value every edge starts where the value gets to and ends where it can be read. -/
theorem livePath_edges {k : Kernel} {r : VReg} {path : List Nat} (live : LivePath k r path) :
    path.IsChain fun p q => Edge k p q ∧ Reaches k r p ∧ LiveAt k r q := by
  obtain ⟨edges, ⟨p, head, writes⟩, ⟨q, last, reads⟩, free⟩ := live
  have alive (p : Nat) (rest : List Nat) (edges : (p :: rest).IsChain (Edge k))
      (last : (p :: rest).getLast? = some q) (free : ∀ x ∈ (p :: rest).dropLast, ¬ DefinesAt k r x) :
      LiveAt k r p := by
    induction rest generalizing p with
    | nil =>
      cases last
      exact .read reads
    | cons next rest ih =>
      obtain ⟨edge, edges⟩ := List.isChain_cons_cons.mp edges
      rw [List.getLast?_cons_cons] at last
      exact .step edge (free p (by simp)) (ih next edges last fun x m => free x (by simp [m]))
  have along (p : Nat) (rest : List Nat) (reaches : Reaches k r p)
      (edges : (p :: rest).IsChain (Edge k)) (last : (p :: rest).getLast? = some q)
      (free : ∀ x ∈ rest.dropLast, ¬ DefinesAt k r x) :
      (p :: rest).IsChain fun p q => Edge k p q ∧ Reaches k r p ∧ LiveAt k r q := by
    induction rest generalizing p with
    | nil => simp
    | cons next rest ih =>
      obtain ⟨edge, edges⟩ := List.isChain_cons_cons.mp edges
      rw [List.getLast?_cons_cons] at last
      refine List.isChain_cons_cons.mpr ⟨⟨edge, reaches, alive next rest edges last free⟩, ?_⟩
      cases rest with
      | nil => simp
      | cons next' rest =>
        exact ih next (reaches.step edge (free next (by simp))) edges last
          fun x m => free x (by simp [m])
  cases path with
  | nil => cases head
  | cons first rest =>
    cases head
    exact along p rest (.write writes) edges last free

/-! ## Loops -/

theorem labelPosition_of_label {k : Kernel} (unique : UniqueLabels k) {p : Nat} {i : Instruction}
    (here : k.code[p]? = some i) (labels : i.op = .label) : k.labelPosition? i.label = some p := by
  unfold Kernel.labelPosition?
  generalize known : List.filter _ k.code.zipIdx = entries
  have listed : (i, p) ∈ entries := by
    rw [← known]
    refine List.mem_filter.mpr ⟨List.mem_zipIdx_iff_getElem?.mpr here, ?_⟩
    simp [labels]
  cases last : entries.getLast? with
  | none =>
    rw [List.getLast?_eq_none_iff.mp last] at listed
    cases listed
  | some entry =>
    have final := List.mem_of_getLast? last
    rw [← known] at final
    obtain ⟨member, named⟩ := List.mem_filter.mp final
    simp only [Bool.and_eq_true, beq_iff_eq] at named
    have there := List.mem_zipIdx_iff_getElem?.mp member
    rw [unique p entry.2 i entry.1 here there labels named.1 named.2.symm]
    rfl

theorem mem_loops {k : Kernel} {l : Loop} : l ∈ k.loops ↔
    ∃ i, k.code[l.stop]? = some i ∧ i.op = .jump ∧ k.labelPosition? i.label = some l.header ∧
      l.header < l.stop := by
  simp only [Kernel.loops, List.mem_filterMap, Prod.exists]
  constructor
  · rintro ⟨i, position, member, found⟩
    have here := List.mem_zipIdx_iff_getElem?.mp member
    split at found
    · rename_i jumps
      split at found
      · rename_i header target
        split at found
        · rename_i backward
          cases found
          exact ⟨i, here, jumps, target, backward⟩
        · cases found
      · cases found
    · cases found
  · rintro ⟨i, here, jumps, target, backward⟩
    refine ⟨i, l.stop, List.mem_zipIdx_iff_getElem?.mpr here, ?_⟩
    simp [jumps, target, backward]

/-- The backward edges are the jumps that close a loop. -/
theorem loop_of_backward {k : Kernel} (unique : UniqueLabels k) {p q : Nat} (edge : Edge k p q)
    (backward : q < p) : ⟨q, p⟩ ∈ k.loops := by
  cases edge with
  | next here falls there => omega
  | jump here jumps there labels same =>
    refine mem_loops.mpr ⟨_, here, jumps, ?_, backward⟩
    rw [← same]
    exact labelPosition_of_label unique there labels

theorem edge_of_loop {k : Kernel} {l : Loop} (member : l ∈ k.loops) :
    Edge k l.stop l.header ∧ l.header < l.stop := by
  obtain ⟨i, here, jumps, target, backward⟩ := mem_loops.mp member
  refine ⟨?_, backward⟩
  unfold Kernel.labelPosition? at target
  obtain ⟨entry, last, at_⟩ := Option.map_eq_some_iff.mp target
  obtain ⟨listed, named⟩ := List.mem_filter.mp (List.mem_of_getLast? last)
  simp only [Bool.and_eq_true, beq_iff_eq] at named
  have there := List.mem_zipIdx_iff_getElem?.mp listed
  rw [at_] at there
  exact .jump here jumps there named.1 named.2

/-! ## Widening -/

/-- An interval goes over a whole loop. -/
def CoversLoop (iv : Interval) (l : Loop) : Prop := iv.min ≤ l.header ∧ l.stop ≤ iv.max

/-- An interval is live at the header of a loop as widening sees it. -/
def Enters (k : Kernel) (iv : Interval) (l : Loop) : Prop :=
  (iv.min < l.header ∧ l.header ≤ iv.max) ∨ k.carries l iv.reg = true

/-- Every loop the interval enters is covered. -/
def Closed (k : Kernel) (loops : List Loop) (iv : Interval) : Prop :=
  ∀ l ∈ loops, Enters k iv l → CoversLoop iv l

theorem widenOver_of_covers {k : Kernel} {iv : Interval} {l : Loop}
    (closed : Enters k iv l → CoversLoop iv l) : Liveness.widenOver k iv l = iv := by
  simp only [Liveness.widenOver]
  split
  · rename_i test
    simp only [Bool.and_eq_true, Bool.or_eq_true, decide_eq_true_eq] at test
    obtain ⟨low, high⟩ := closed test.1
    omega
  · rfl

theorem widenOver_of_missing {k : Kernel} {iv : Interval} {l : Loop} (enters : Enters k iv l)
    (missing : ¬ CoversLoop iv l) :
    Liveness.widenOver k iv l =
      { iv with
        max := if iv.max < l.stop then l.stop else iv.max
        min := if (l.header : Int) < iv.min then l.header else iv.min
        block := noBlock } := by
  simp only [CoversLoop] at missing
  simp only [Liveness.widenOver]
  apply if_pos
  simp only [Bool.and_eq_true, Bool.or_eq_true, decide_eq_true_eq]
  exact ⟨enters, by omega⟩

theorem widenOver_cases (k : Kernel) (iv : Interval) (l : Loop) :
    (Enters k iv l → CoversLoop iv l) ∧ Liveness.widenOver k iv l = iv ∨
      ¬ CoversLoop iv l ∧ CoversLoop (Liveness.widenOver k iv l) l := by
  by_cases closed : Enters k iv l → CoversLoop iv l
  · exact .inl ⟨closed, widenOver_of_covers closed⟩
  · obtain ⟨enters, missing⟩ := Classical.not_imp.mp closed
    refine .inr ⟨missing, ?_⟩
    rw [widenOver_of_missing enters missing]
    constructor <;> dsimp only <;> split <;> omega

theorem CoversLoop.widened {iv iv' : Interval} {l : Loop} (covers : CoversLoop iv l)
    (wide : Widened iv iv') : CoversLoop iv' l :=
  ⟨Int.le_trans wide.min covers.1, Int.le_trans covers.2 wide.max⟩

/-- A pass over the loops finds the interval closed or covers a loop more. -/
theorem pass_cases (k : Kernel) (loops : List Loop) (iv : Interval) :
    Closed k loops iv ∧ loops.foldl (Liveness.widenOver k) iv = iv ∨
      ∃ l ∈ loops, ¬ CoversLoop iv l ∧ CoversLoop (loops.foldl (Liveness.widenOver k) iv) l := by
  induction loops with
  | nil => exact .inl ⟨by simp [Closed], rfl⟩
  | cons l rest ih =>
    rw [List.foldl_cons]
    rcases widenOver_cases k iv l with ⟨closed, same⟩ | ⟨missing, covered⟩
    · rw [same]
      rcases ih with ⟨closedRest, sameRest⟩ | ⟨l', member, missing, covered⟩
      · refine .inl ⟨?_, sameRest⟩
        intro x here
        rcases List.mem_cons.mp here with rfl | later
        · exact closed
        · exact closedRest x later
      · exact .inr ⟨l', List.mem_cons_of_mem _ member, missing, covered⟩
    · exact .inr ⟨l, List.mem_cons_self, missing, covered.widened (widened_pass k rest _)⟩

instance (iv : Interval) (l : Loop) : Decidable (CoversLoop iv l) :=
  inferInstanceAs (Decidable (iv.min ≤ l.header ∧ l.stop ≤ iv.max))

theorem countP_lt_of_covers {loops : List Loop} {iv iv' : Interval} (wide : Widened iv iv') {l : Loop}
    (member : l ∈ loops) (missing : ¬ CoversLoop iv l) (covered : CoversLoop iv' l) :
    loops.countP (fun l => decide (CoversLoop iv l)) <
      loops.countP fun l => decide (CoversLoop iv' l) := by
  induction loops with
  | nil => cases member
  | cons head rest ih =>
    have grows : rest.countP (fun l => decide (CoversLoop iv l)) ≤
        rest.countP fun l => decide (CoversLoop iv' l) :=
      List.countP_mono_left fun x _ here => by
        simpa using CoversLoop.widened (by simpa using here) wide
    rw [List.countP_cons, List.countP_cons]
    rcases List.mem_cons.mp member with rfl | later
    · simp only [missing, covered, decide_false, decide_true, Bool.false_eq_true, ↓reduceIte]
      omega
    · have more := ih later
      by_cases here : CoversLoop iv head
      · have there := here.widened wide
        simp only [here, there, decide_true, ↓reduceIte]
        omega
      · simp only [here, decide_false, Bool.false_eq_true, ↓reduceIte]
        omega

/-- After as many passes as there are loops the interval is closed: every pass before covers a loop
more. -/
theorem widen_closed (k : Kernel) (loops : List Loop) (iv : Interval) :
    Closed k loops (Liveness.widen k loops iv) := by
  have passes (rest : List Loop) (iv : Interval)
      (enough : loops.length ≤ rest.length + loops.countP fun l => decide (CoversLoop iv l)) :
      Closed k loops (rest.foldl (fun iv _ => loops.foldl (Liveness.widenOver k) iv) iv) := by
    induction rest generalizing iv with
    | nil =>
      intro l member _
      have all : loops.countP (fun l => decide (CoversLoop iv l)) = loops.length := by
        have most := List.countP_le_length (p := fun l => decide (CoversLoop iv l)) (l := loops)
        simp only [List.length_nil, Nat.zero_add] at enough
        omega
      simpa using List.countP_eq_length.mp all l member
    | cons _ rest ih =>
      rw [List.foldl_cons]
      rcases pass_cases k loops iv with ⟨closed, same⟩ | ⟨l, member, missing, covered⟩
      · rw [same]
        have stays (rest : List Loop) :
            rest.foldl (fun iv _ => loops.foldl (Liveness.widenOver k) iv) iv = iv := by
          induction rest with
          | nil => rfl
          | cons _ rest ih => rw [List.foldl_cons, same, ih]
        rw [stays]
        exact closed
      · apply ih
        have more := countP_lt_of_covers (widened_pass k loops iv) member missing covered
        rw [List.length_cons] at enough
        omega
  exact passes loops iv (by omega)

/-- A range from `low` to `high` that covers every loop a register with accesses all over it would enter. -/
def ClosedRange (k : Kernel) (loops : List Loop) (r : VReg) (low high : Int) : Prop :=
  ∀ l ∈ loops, (low < l.header ∧ l.header ≤ high) ∨ k.carries l r = true → low ≤ l.header ∧ l.stop ≤ high

/-- An interval is widened over one of the loops. -/
def Widens (k : Kernel) (loops : List Loop) (iv iv' : Interval) : Prop :=
  ∃ l ∈ loops, iv' = Liveness.widenOver k iv l

theorem foldl_widens {k : Kernel} {loops ls : List Loop} (all : ls ⊆ loops) (iv : Interval) :
    Relation.ReflTransGen (Widens k loops) iv (ls.foldl (Liveness.widenOver k) iv) := by
  induction ls generalizing iv with
  | nil => exact .refl
  | cons l rest ih =>
    obtain ⟨here, later⟩ := List.cons_subset.mp all
    exact .head ⟨l, here, rfl⟩ (ih later _)

theorem widen_widens (k : Kernel) (loops : List Loop) (iv : Interval) :
    Relation.ReflTransGen (Widens k loops) iv (Liveness.widen k loops iv) := by
  have passes (rest : List Loop) (iv : Interval) : Relation.ReflTransGen (Widens k loops) iv
      (rest.foldl (fun iv _ => loops.foldl (Liveness.widenOver k) iv) iv) := by
    induction rest generalizing iv with
    | nil => exact .refl
    | cons _ rest ih => exact (foldl_widens (List.Subset.refl loops) iv).trans (ih _)
  exact passes loops iv

theorem widenOver_within {k : Kernel} {loops : List Loop} {l : Loop} {iv : Interval} {low high : Int}
    (member : l ∈ loops) (closed : ClosedRange k loops iv.reg low high)
    (inside : low ≤ iv.min ∧ iv.max ≤ high) :
    low ≤ (Liveness.widenOver k iv l).min ∧ (Liveness.widenOver k iv l).max ≤ high := by
  unfold Liveness.widenOver
  dsimp only
  split
  · rename_i enters
    simp only [Bool.and_eq_true, Bool.or_eq_true, decide_eq_true_eq] at enters
    have covered := closed l member (enters.1.imp_left fun across => by omega)
    dsimp only
    refine ⟨?_, ?_⟩ <;> split <;> omega
  · exact inside

theorem widens_widened {k : Kernel} {loops : List Loop} {iv iv' : Interval}
    (run : Relation.ReflTransGen (Widens k loops) iv iv') : Widened iv iv' := by
  induction run with
  | refl => exact .refl iv
  | @tail w _ _ step ih =>
    obtain ⟨l, -, rfl⟩ := step
    exact ih.trans (widened_widenOver k w l)

/-- Widening does not leave a closed range. -/
theorem widens_within {k : Kernel} {loops : List Loop} {iv iv' : Interval} {low high : Int}
    (run : Relation.ReflTransGen (Widens k loops) iv iv') (closed : ClosedRange k loops iv.reg low high)
    (inside : low ≤ iv.min ∧ iv.max ≤ high) : low ≤ iv'.min ∧ iv'.max ≤ high := by
  induction run with
  | refl => exact inside
  | @tail w _ before step ih =>
    obtain ⟨l, member, rfl⟩ := step
    exact widenOver_within member (by rw [(widens_widened before).reg]; exact closed) ih

/-! ## Paths and intervals -/

theorem intervalOf_spec {k : Kernel} {r : VReg} {iv : Interval}
    (found : (Liveness.ofKernel k).intervalOf? r = some iv) :
    Covers k r iv ∧ Closed k k.loops iv := by
  rw [intervalOf_ofKernel] at found
  obtain ⟨u, known, rfl⟩ := Option.map_eq_some_iff.mp found
  exact ⟨settled_covers known, widen_closed k k.loops _⟩

theorem intervalOf_of_access {k : Kernel} {a : Access} (member : a ∈ accesses k) :
    ∃ iv, (Liveness.ofKernel k).intervalOf? a.operand.reg = some iv := by
  obtain ⟨n, index⟩ := access_indexed member
  exact ⟨_, by rw [Liveness.intervalOf?, index]; rfl⟩

/-- The interval of a register lies in every closed range of its accesses. Only the stack pointer lives
longer. -/
theorem intervalOf_within {k : Kernel} {r : VReg} {iv : Interval} {low high : Int}
    (found : (Liveness.ofKernel k).intervalOf? r = some iv) (other : r ≠ k.stackPointer)
    (closed : ClosedRange k k.loops r low high) (early : low ≤ 2147483647)
    (inside : ∀ a ∈ accesses k, a.operand.reg = r → low ≤ a.position ∧ a.position ≤ high) :
    low ≤ iv.min ∧ iv.max ≤ high := by
  rw [intervalOf_ofKernel] at found
  obtain ⟨u, known, rfl⟩ := Option.map_eq_some_iff.mp found
  have tracked := (walk_walked k).tracks.used r u known
  have reg := (widened_settle k u (k.walk.store.get u.index)).reg.trans tracked.reg
  refine widens_within (widen_widens k k.loops _) (by rw [reg]; exact closed) ?_
  obtain ⟨a, member, name, began⟩ := tracked.began
  obtain ⟨b, member', name', last⟩ := tracked.last
  have stop := tracked.stop
  have first := (inside a member name).1
  have final := (inside b member' name').2
  have bounds : low ≤ (k.walk.store.get u.index).min ∧ (k.walk.store.get u.index).max ≤ high := by
    omega
  rw [settle_other (by rw [tracked.reg]; exact other)]
  split <;> exact bounds

/-- A path between two points of an interval stays in it if its backward edges do. -/
theorem chain_inside {iv : Interval} {path : List Nat}
    (edges : path.IsChain fun (p q : Nat) => p ≤ q ∨ (iv.min ≤ q ∧ p ≤ iv.max))
    (start : ∀ p : Nat, path.head? = some p → iv.min ≤ p)
    (stop : ∀ p : Nat, path.getLast? = some p → p ≤ iv.max) :
    ∀ p ∈ path, iv.min ≤ p ∧ p ≤ iv.max := by
  induction path with
  | nil => simp
  | cons p rest ih =>
    have low := start p rfl
    cases rest with
    | nil =>
      intro x member
      rw [List.mem_singleton.mp member]
      exact ⟨low, stop p rfl⟩
    | cons q rest =>
      obtain ⟨edge, edges⟩ := List.isChain_cons_cons.mp edges
      have later := ih edges
        (by
          intro x head
          cases head
          rcases edge with forward | backward <;> omega)
        (by
          intro x last
          exact stop x (by rw [List.getLast?_cons_cons]; exact last))
      intro x member
      rcases List.mem_cons.mp member with rfl | here
      · refine ⟨low, ?_⟩
        have high := (later q List.mem_cons_self).2
        rcases edge with forward | backward <;> omega
      · exact later x here

/-- The values of a register stay in its interval on all their paths exactly when widening sees every
loop around which one of them is carried. -/
theorem livePaths_inside_iff (k : Kernel) (unique : UniqueLabels k) (r : VReg) :
    (∀ path, LivePath k r path → Inside k r path) ↔
      ∀ l ∈ k.loops, Reaches k r l.stop → LiveAt k r l.header → Seen k r l := by
  constructor
  · intro inside l member reaches live
    obtain ⟨edge, backward⟩ := edge_of_loop member
    obtain ⟨path, livePath, stop, header⟩ := livePath_through reaches edge live
    obtain ⟨iv, found, within⟩ := inside path livePath
    have low := (within _ header).1
    have high := (within _ stop).2
    refine ⟨iv, found, .inr ?_⟩
    by_cases across : iv.min < l.header
    · exact .inl ⟨across, by omega⟩
    · exact .inr ⟨by omega, high⟩
  · intro seen path live
    obtain ⟨first, head, i, atFirst, writes⟩ := live.start
    obtain ⟨final, last, j, atFinal, reads⟩ := live.stop
    obtain ⟨a, memberA, atA, namedA⟩ := access_of_writes atFirst writes
    obtain ⟨b, memberB, atB, namedB⟩ := access_of_reads atFinal reads
    obtain ⟨iv, found⟩ := intervalOf_of_access memberA
    rw [namedA] at found
    obtain ⟨covers, closed⟩ := intervalOf_spec found
    refine ⟨iv, found, chain_inside ?_ ?_ ?_⟩
    · refine List.IsChain.imp (fun p q edge => ?_) (livePath_edges live)
      obtain ⟨edge, reaches, alive⟩ := edge
      by_cases backward : q < p
      · -- The loop this edge closes is seen, and what is seen is covered.
        have member := loop_of_backward unique edge backward
        obtain ⟨iv', found', entered⟩ := seen ⟨q, p⟩ member reaches alive
        rw [found] at found'
        cases found'
        have covered : CoversLoop iv ⟨q, p⟩ := by
          rcases entered with carried | across | ⟨low, high⟩
          · exact closed _ member (.inr (by rw [covers.reg]; exact carried))
          · exact closed _ member (.inl across)
          · exact ⟨Int.le_of_eq low, high⟩
        exact .inr covered
      · exact .inl (by omega)
    · intro p here
      rw [head] at here
      cases here
      have within := (covers.within a memberA namedA).1
      rwa [atA] at within
    · intro p here
      rw [last] at here
      cases here
      have within := (covers.within b memberB namedB).2
      rwa [atB] at within

/-- A loop in which a predicated jump leads past the definition of a register. -/
def skippedDefinition : Kernel where
  name := "skipped"
  simdWidth := 8
  code :=
    [{ op := .label, label := 0 },
      { op := .jump, label := 1, predicated := true },
      { op := .mov, dst := .vector ⟨0⟩ .ud, src := [.immediate .ud 1 false false], block := 1 },
      { op := .label, label := 1, block := 2 },
      { op := .mov, dst := .vector ⟨1⟩ .ud, src := [.vector ⟨0⟩ .ud], block := 2 },
      { op := .jump, label := 0, predicated := true, block := 2 },
      { op := .endThread, block := 3 }]

theorem skippedDefinition_unique : UniqueLabels skippedDefinition := by
  have distinct : ∀ p < 7, ∀ q < 7, ∀ i ∈ skippedDefinition.code[p]?, ∀ j ∈ skippedDefinition.code[q]?,
      i.op = .label → j.op = .label → i.label = j.label → p = q := by
    decide
  intro p q i j here there
  have small {p : Nat} {i : Instruction} (here : skippedDefinition.code[p]? = some i) : p < 7 :=
    (List.getElem?_eq_some_iff.mp here).1
  exact distinct p (small here) q (small there) i here j there

/-- The register defined in the loop keeps its value from one iteration to the next when the jump is
taken, and its interval does not reach back to the header. -/
theorem livePath_outside :
    ¬ ∀ k r path, UniqueLabels k → LivePath k r path → Inside k r path := by
  intro inside
  have edge {p q : Nat} (taken : q = p + 1 ∧ q < 7 ∨ p = 5 ∧ q = 0 ∨ p = 1 ∧ q = 3) :
      Edge skippedDefinition p q := by
    rcases taken with ⟨rfl, small⟩ | ⟨rfl, rfl⟩ | ⟨rfl, rfl⟩
    · match p with
      | 0 | 1 | 2 | 3 | 4 | 5 => exact .next rfl (by decide) rfl
    · exact .jump rfl rfl rfl rfl rfl
    · exact .jump rfl rfl rfl rfl rfl
  have live : LivePath skippedDefinition ⟨0⟩ [2, 3, 4, 5, 0, 1, 3, 4] := by
    refine ⟨?_, ⟨2, rfl, _, rfl, by decide⟩, ⟨4, rfl, _, rfl, by decide⟩, ?_⟩
    · repeat' first | exact .singleton _ | refine .cons_cons (edge (by decide)) ?_
    · intro p member defines
      obtain ⟨i, d, here, dst, named, -⟩ := defines
      have free : ∀ p ∈ [3, 4, 5, 0, 1, 3], ∀ i ∈ skippedDefinition.code[p]?,
          ∀ d ∈ i.dst.register?, d.reg ≠ ⟨0⟩ := by
        decide
      exact free p member i here d dst named
  obtain ⟨iv, found, within⟩ := inside _ _ _ skippedDefinition_unique live
  have interval : ((Liveness.ofKernel skippedDefinition).intervalOf? ⟨0⟩).map Interval.min = some 2 := by
    decide +kernel
  rw [found, Option.map_some, Option.some.injEq] at interval
  have low := (within 0 (by simp)).1
  omega

/-- In the same kernel the loop is not seen, and some path leaves the interval. -/
theorem livePaths_inside_iff_skipped :
    (∀ path, LivePath skippedDefinition ⟨0⟩ path → Inside skippedDefinition ⟨0⟩ path) ↔
      ∀ l ∈ skippedDefinition.loops, Reaches skippedDefinition ⟨0⟩ l.stop →
        LiveAt skippedDefinition ⟨0⟩ l.header → Seen skippedDefinition ⟨0⟩ l :=
  livePaths_inside_iff skippedDefinition skippedDefinition_unique ⟨0⟩

end GpuCodegen.LivePaths
