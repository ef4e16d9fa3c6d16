import Mathlib.Order.Bounds.Basic
import GpuCodegen.Text.EditDistance

/-! The edit distance as the least number of edits. An edit inserts, deletes or substitutes one byte
anywhere. The recursion on two strings, first byte against first byte, takes as many edits as it says
(`leastEdits_edits`) and no edit changes it by more than one (`leastEdits_edit`), so that it is the least
number. The rows that are computed hold the values of this recursion on reversed prefixes, and reading both
strings backwards changes no number of edits. What a distance has to satisfy then follows from edits alone. -/

namespace GpuCodegen.EditDistance
open Text

/-! ## Edits -/

/-- One insertion, deletion or substitution of a byte. -/
inductive Edit : List UInt8 → List UInt8 → Prop where
  | insert (before : List UInt8) (c : UInt8) (after : List UInt8) :
      Edit (before ++ after) (before ++ c :: after)
  | delete (before : List UInt8) (c : UInt8) (after : List UInt8) :
      Edit (before ++ c :: after) (before ++ after)
  | substitute (before : List UInt8) (c d : UInt8) (after : List UInt8) :
      Edit (before ++ c :: after) (before ++ d :: after)

/-- A number of edits, one after another. -/
inductive Edits : Nat → List UInt8 → List UInt8 → Prop where
  | done (a : List UInt8) : Edits 0 a a
  | more {n : Nat} {a b c : List UInt8} : Edit a b → Edits n b c → Edits (n + 1) a c

/-- The least number of edits by recursion: the first bytes are deleted, inserted, or one takes the place of
the other. -/
def leastEdits : List UInt8 → List UInt8 → Nat
  | [], b => b.length
  | c :: a, [] => (c :: a).length
  | c :: a, d :: b =>
    min (min (leastEdits a (d :: b) + 1) (leastEdits (c :: a) b + 1))
      (leastEdits a b + if c = d then 0 else 1)
termination_by a b => a.length + b.length

theorem Edit.symm {a b : List UInt8} : Edit a b → Edit b a
  | .insert before c after => .delete before c after
  | .delete before c after => .insert before c after
  | .substitute before c d after => .substitute before d c after

theorem Edit.cons {a b : List UInt8} (x : UInt8) : Edit a b → Edit (x :: a) (x :: b)
  | .insert before c after => .insert (x :: before) c after
  | .delete before c after => .delete (x :: before) c after
  | .substitute before c d after => .substitute (x :: before) c d after

theorem Edit.reverse {a b : List UInt8} (edit : Edit a b) : Edit a.reverse b.reverse := by
  cases edit with
  | insert before c after => simpa using Edit.insert after.reverse c before.reverse
  | delete before c after => simpa using Edit.delete after.reverse c before.reverse
  | substitute before c d after => simpa using Edit.substitute after.reverse c d before.reverse

section
variable {m n : Nat} {a b c : List UInt8}

theorem Edits.single (edit : Edit a b) : Edits 1 a b := .more edit (.done b)

theorem Edits.trans (first : Edits m a b) (second : Edits n b c) : Edits (m + n) a c := by
  induction first with
  | done a => rwa [Nat.zero_add]
  | more edit _ ih =>
    rw [Nat.add_right_comm]
    exact .more edit (ih second)

theorem Edits.symm (edits : Edits n a b) : Edits n b a := by
  induction edits with
  | done a => exact .done a
  | more edit _ ih => exact ih.trans (.single edit.symm)

theorem Edits.map (f : List UInt8 → List UInt8) (keeps : ∀ {a b}, Edit a b → Edit (f a) (f b))
    (edits : Edits n a b) : Edits n (f a) (f b) := by
  induction edits with
  | done a => exact .done _
  | more edit _ ih => exact .more (keeps edit) ih

theorem Edits.cons (x : UInt8) (edits : Edits n a b) : Edits n (x :: a) (x :: b) :=
  edits.map (List.cons x) (.cons x)

theorem Edits.reverse (edits : Edits n a b) : Edits n a.reverse b.reverse :=
  edits.map List.reverse .reverse

theorem edits_zero : Edits 0 a b ↔ a = b := by
  constructor
  · intro edits
    cases edits
    rfl
  · rintro rfl
    exact .done a

/-- Every byte of a string can be inserted. -/
theorem edits_length (b : List UInt8) : Edits b.length [] b := by
  induction b with
  | nil => exact .done []
  | cons d b ih => exact ih.trans (.single (.insert [] d b))

/-- Byte against byte, and the rest of the longer string by itself. -/
theorem edits_max (a b : List UInt8) : Edits (max a.length b.length) a b := by
  induction a generalizing b with
  | nil =>
    rw [List.length_nil, Nat.zero_max]
    exact edits_length b
  | cons c a ih =>
    cases b with
    | nil =>
      rw [List.length_nil, Nat.max_zero]
      exact (edits_length (c :: a)).symm
    | cons d b =>
      rw [List.length_cons, List.length_cons, Nat.add_max_add_right]
      exact .more (.substitute [] c d a) ((ih b).cons d)

end

/-! ## The recursion is the least number -/

@[simp] theorem leastEdits_nil_left (b : List UInt8) : leastEdits [] b = b.length := by
  rw [leastEdits]

@[simp] theorem leastEdits_nil_right (a : List UInt8) : leastEdits a [] = a.length := by
  cases a with
  | nil => exact leastEdits_nil_left []
  | cons c a => rw [leastEdits]

theorem leastEdits_cons (c d : UInt8) (a b : List UInt8) :
    leastEdits (c :: a) (d :: b) =
      min (min (leastEdits a (d :: b) + 1) (leastEdits (c :: a) b + 1))
        (leastEdits a b + if c = d then 0 else 1) := by
  rw [leastEdits]

/-- As many edits as the recursion says are enough. -/
theorem leastEdits_edits (a b : List UInt8) : Edits (leastEdits a b) a b := by
  induction a, b using leastEdits.induct with
  | case1 b =>
    rw [leastEdits_nil_left]
    exact edits_length b
  | case2 c a =>
    rw [leastEdits_nil_right]
    exact (edits_length (c :: a)).symm
  | case3 c a d b deleted inserted substituted =>
    have delete : Edits (leastEdits a (d :: b) + 1) (c :: a) (d :: b) :=
      .more (.delete [] c a) deleted
    have insert : Edits (leastEdits (c :: a) b + 1) (c :: a) (d :: b) :=
      inserted.trans (.single (.insert [] d b))
    have substitute : Edits (leastEdits a b + if c = d then 0 else 1) (c :: a) (d :: b) := by
      split
      · rename_i same
        exact same ▸ substituted.cons c
      · exact .more (.substitute [] c d a) (substituted.cons d)
    rw [leastEdits_cons]
    exact min_rec' (Edits · (c :: a) (d :: b)) (min_rec' (Edits · (c :: a) (d :: b)) delete insert) substitute

section
variable (c d : UInt8) (a b : List UInt8)

/-! One byte more or another one, in front of either string, changes the number by at most one. -/

theorem leastEdits_cons_right : leastEdits a (d :: b) ≤ leastEdits a b + 1 := by
  cases a with
  | nil => simp
  | cons c a =>
    rw [leastEdits_cons]
    omega

theorem leastEdits_cons_left : leastEdits (c :: a) b ≤ leastEdits a b + 1 := by
  cases b with
  | nil => simp
  | cons d b =>
    rw [leastEdits_cons]
    omega

theorem leastEdits_le_cons : leastEdits a b ≤ leastEdits (c :: a) b + 1 := by
  induction b with
  | nil =>
    rw [leastEdits_nil_right, leastEdits_nil_right, List.length_cons]
    omega
  | cons d b ih =>
    have longer := leastEdits_cons_right d a b
    rw [leastEdits_cons]
    omega

theorem leastEdits_substitute : leastEdits (c :: a) b ≤ leastEdits (d :: a) b + 1 := by
  induction b with
  | nil => simp
  | cons e b ih =>
    rw [leastEdits_cons, leastEdits_cons]
    split <;> split <;> omega

end

/-- What holds of two strings holds with the same bytes in front of both. -/
theorem leastEdits_append {s t : List UInt8} (near : ∀ c, leastEdits s c ≤ leastEdits t c + 1)
    (before : List UInt8) (c : List UInt8) :
    leastEdits (before ++ s) c ≤ leastEdits (before ++ t) c + 1 := by
  induction before generalizing c with
  | nil => exact near c
  | cons x before ih =>
    rw [List.cons_append, List.cons_append]
    -- Inserting a byte leaves the bytes in front as they are, so the other string needs an induction too.
    induction c with
    | nil =>
      have lengths := ih []
      simp only [leastEdits_nil_right, List.length_cons] at lengths ⊢
      omega
    | cons y c inserted =>
      have deleted := ih (y :: c)
      have both := ih c
      rw [leastEdits_cons, leastEdits_cons]
      omega

/-- An edit changes the number by at most one. -/
theorem leastEdits_edit {a b : List UInt8} (edit : Edit a b) (c : List UInt8) :
    leastEdits a c ≤ leastEdits b c + 1 := by
  cases edit with
  | insert before x after => exact leastEdits_append (leastEdits_le_cons x after) before c
  | delete before x after => exact leastEdits_append (leastEdits_cons_left x after) before c
  | substitute before x y after => exact leastEdits_append (leastEdits_substitute x y after) before c

theorem leastEdits_self (a : List UInt8) : leastEdits a a = 0 := by
  induction a with
  | nil => rw [leastEdits_nil_left, List.length_nil]
  | cons c a ih => rw [leastEdits_cons, if_pos rfl, ih, Nat.min_zero]

/-- Fewer edits than the recursion says are not enough. -/
theorem leastEdits_le {n : Nat} {a b : List UInt8} (edits : Edits n a b) : leastEdits a b ≤ n := by
  induction edits with
  | done a => exact Nat.le_of_eq (leastEdits_self a)
  | @more n a b c edit _ ih => exact Nat.le_trans (leastEdits_edit edit c) (Nat.succ_le_succ ih)

theorem leastEdits_isLeast (a b : List UInt8) : IsLeast { n | Edits n a b } (leastEdits a b) :=
  ⟨leastEdits_edits a b, fun _ edits => leastEdits_le edits⟩

/-- Read backwards, two strings are as many edits apart. -/
theorem leastEdits_reverse (a b : List UInt8) : leastEdits a.reverse b.reverse = leastEdits a b := by
  apply Nat.le_antisymm
  · exact leastEdits_le (leastEdits_edits a b).reverse
  · have back := (leastEdits_edits a.reverse b.reverse).reverse
    rw [List.reverse_reverse, List.reverse_reverse] at back
    exact leastEdits_le back

/-! ## The rows -/

/-- The numbers from a string to longer and longer ones: `done` and one, two and more bytes of the other
list. The string and `done` have their last byte first, because a row is computed for one more byte at
the end of the string and its entries for one more byte at the end of the target. -/
def extended (a done : List UInt8) : List UInt8 → List Nat
  | [] => []
  | d :: ds => leastEdits a (d :: done) :: extended a (d :: done) ds

/-- The row of a string, given with its last byte first: the numbers to all prefixes of the target. -/
def row (a target : List UInt8) : List Nat := leastEdits a [] :: extended a [] target

theorem rowTail_extended (c : UInt8) (a done ds : List UInt8) :
    rowTail c (leastEdits (c :: a) done) (leastEdits a done) ds (extended a done ds) =
      extended (c :: a) done ds := by
  induction ds generalizing done with
  | nil => rfl
  | cons d ds ih =>
    rw [extended, extended, rowTail, ← leastEdits_cons]
    exact congrArg _ (ih (d :: done))

theorem nextRow_row (c : UInt8) (a target : List UInt8) :
    nextRow target (row a target) c = row (c :: a) target := by
  have first : leastEdits a [] + 1 = leastEdits (c :: a) [] := by
    rw [leastEdits_nil_right, leastEdits_nil_right, List.length_cons]
  rw [row, nextRow, first, rowTail_extended]
  rfl

/-- Byte by byte, the rows are those of longer and longer prefixes. -/
theorem foldl_nextRow (s a target : List UInt8) :
    s.foldl (nextRow target) (row a target) = row (s.reverse ++ a) target := by
  induction s generalizing a with
  | nil => rfl
  | cons c s ih => rw [List.foldl_cons, nextRow_row, ih, List.reverse_cons, List.append_assoc]; rfl

theorem extended_nil (done ds : List UInt8) : extended [] done ds = List.range' (done.length + 1) ds.length := by
  induction ds generalizing done with
  | nil => rfl
  | cons d ds ih =>
    rw [extended, ih, leastEdits_nil_left, List.length_cons, List.length_cons, List.range'_succ]

theorem range_row (target : List UInt8) : List.range (target.length + 1) = row [] target := by
  rw [row, extended_nil, leastEdits_nil_left, List.range_eq_range', List.range'_succ]
  rfl

theorem getLastD_extended (a done ds : List UInt8) :
    (extended a done ds).getLastD (leastEdits a done) = leastEdits a (ds.reverse ++ done) := by
  induction ds generalizing done with
  | nil => rfl
  | cons d ds ih =>
    rw [extended, List.getLastD_cons, ih, List.reverse_cons, List.append_assoc]
    rfl

/-- The last entry of the last row is the value of the recursion. -/
theorem lastEntry_eq (a b : List UInt8) : lastEntry a b = leastEdits a b := by
  rw [lastEntry, range_row, foldl_nextRow, row, List.getLastD_cons, getLastD_extended,
    List.append_nil, List.append_nil, leastEdits_reverse]

/-- The lengths returned where a string is empty are what the rows would end in. -/
theorem byteDistance_rows (a b : List UInt8) : byteDistance a b = lastEntry a b := by
  rw [lastEntry_eq]
  cases a with
  | nil => exact (leastEdits_nil_left b).symm
  | cons c a =>
    cases b with
    | nil => exact (leastEdits_nil_right (c :: a)).symm
    | cons d b => exact lastEntry_eq (c :: a) (d :: b)

theorem byteDistance_eq (a b : List UInt8) : byteDistance a b = leastEdits a b :=
  (byteDistance_rows a b).trans (lastEntry_eq a b)

/-! ## Distances -/

theorem byteDistance_isLeast (a b : List UInt8) : IsLeast { n | Edits n a b } (byteDistance a b) :=
  (byteDistance_eq a b).symm ▸ leastEdits_isLeast a b

theorem byteDistance_eq_zero {a b : List UInt8} : byteDistance a b = 0 ↔ a = b := by
  have least := byteDistance_isLeast a b
  constructor
  · intro zero
    exact edits_zero.mp (zero ▸ least.1)
  · intro same
    exact Nat.le_zero.mp (least.2 (edits_zero.mpr same))

private theorem toList_loop (bytes : ByteArray) (i : Nat) (collected : List UInt8) :
    ByteArray.toList.loop bytes i collected = collected.reverse ++ bytes.data.toList.drop i := by
  induction i, collected using ByteArray.toList.loop.induct bytes with
  | case1 i collected inside ih =>
    have here : bytes.get! i = bytes.data.toList[i] := getElem!_pos bytes.data i inside
    have next : bytes.data.toList.drop i = bytes.get! i :: bytes.data.toList.drop (i + 1) := by
      rw [here, List.drop_eq_getElem_cons]
    rw [ByteArray.toList.loop, if_pos inside, ih, next, List.reverse_cons, List.append_assoc]
    rfl
  | case2 i collected outside =>
    have none : bytes.data.toList.drop i = [] := List.drop_of_length_le (Nat.not_lt.mp outside)
    rw [ByteArray.toList.loop, if_neg outside, none, List.append_nil]

theorem distance_eq_zero {a b : String} : distance a b = 0 ↔ a = b := by
  rw [distance, byteDistance_eq_zero, ByteArray.toList, ByteArray.toList, toList_loop, toList_loop]
  constructor
  · intro same
    exact String.toByteArray_inj.mp (ByteArray.ext (Array.toList_inj.mp same))
  · rintro rfl
    rfl

/-- The distance of two byte strings is the least number of single-byte insertions, deletions and substitutions
that turn one into the other, which is also what the recursion on their first bytes gives. So it is symmetric,
zero exactly between equal strings, at most the length of the longer one, and no detour makes it shorter. -/
theorem byteDistance_leastEdits (a b : List UInt8) :
    byteDistance a b = leastEdits a b ∧
    IsLeast { n | Edits n a b } (byteDistance a b) ∧
    byteDistance a b = byteDistance b a ∧
    (byteDistance a b = 0 ↔ a = b) ∧
    byteDistance a b ≤ max a.length b.length ∧
    ∀ c, byteDistance a c ≤ byteDistance a b + byteDistance b c := by
  have least := byteDistance_isLeast
  refine ⟨byteDistance_eq a b, least a b, ?_, byteDistance_eq_zero, ?_, fun c => ?_⟩
  · apply Nat.le_antisymm
    · exact (least a b).2 (least b a).1.symm
    · exact (least b a).2 (least a b).1.symm
  · exact (least a b).2 (edits_max a b)
  · exact (least a c).2 ((least a b).1.trans (least b c).1)

example : distance "kitten" "sitting" = 3 := by decide +kernel

end GpuCodegen.EditDistance
