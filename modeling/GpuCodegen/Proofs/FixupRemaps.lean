import GpuCodegen.Lowering.Compile
import GpuCodegen.Proofs.Outcome

/-! Fixups word by word. A fixup puts one or two words in the place of each word, whatever its
neighbours are, so its remap counts the words before each position; and fixups one after another act
like one that replaces every word by all that becomes of it. -/

namespace GpuCodegen.Fixup
open Native

/-- The words a fixup puts in the place of a word. -/
def replacement (g : Generation) : Fixup → Word → List Word
  | .splitTriples, w => splitWord g w
  | .fenceWrites, w =>
    match fence g with
    | .ok f => fenceWord g f w
    | .error _ => [w]

/-- A word stays, becomes two halves, or is followed by a fence. -/
theorem replacement_cases (g : Generation) (x : Fixup) (w : Word) :
    x.replacement g w = [w] ∨
      (g.layout.isWideTriple w = true ∧ x.replacement g w = [g.layout.lowerHalf w, g.layout.upperHalf w]) ∨
      ∃ f, fence g = .ok f ∧ g.writesMemory w = true ∧ x.replacement g w = [w, f] := by
  cases x with
  | splitTriples =>
    simp only [replacement, splitWord, Layout.split?]
    by_cases native : g.supports .tripleSimd16 = true
    · exact .inl (if_pos native)
    · rw [if_neg native]
      by_cases wide : g.layout.isWideTriple w = true
      · exact .inr (.inl ⟨wide, by simp [wide]⟩)
      · exact .inl (by simp [wide])
  | fenceWrites =>
    simp only [replacement]
    cases fenced : fence g with
    | error d => exact .inl rfl
    | ok f =>
      simp only [fenceWord]
      by_cases writes : g.writesMemory w = true
      · exact .inr (.inr ⟨f, rfl, writes, if_pos writes⟩)
      · exact .inl (if_neg writes)

theorem replacement_ne_nil (g : Generation) (x : Fixup) (w : Word) : x.replacement g w ≠ [] := by
  rcases replacement_cases g x w with same | ⟨-, halves⟩ | ⟨f, -, -, fenced⟩
  · simp [same]
  · simp [halves]
  · simp [fenced]

/-! ## One fixup -/

theorem remapFrom_length (first : Nat) (pieces : List (List Word)) :
    (remapFrom first pieces).length = pieces.length + 1 := by
  induction pieces generalizing first with
  | nil => rfl
  | cons piece rest ih => rw [remapFrom, List.length_cons, ih, List.length_cons]

theorem remapFrom_getElem (first : Nat) (pieces : List (List Word)) {n : Nat} (small : n ≤ pieces.length) :
    (remapFrom first pieces)[n]? = some (first + (pieces.take n).flatten.length) := by
  induction pieces generalizing first n with
  | nil =>
    obtain rfl : n = 0 := by simpa using small
    rfl
  | cons piece rest ih =>
    cases n with
    | zero => rfl
    | succ n =>
      rw [List.length_cons] at small
      rw [remapFrom, List.getElem?_cons_succ, ih _ (by omega), List.take_succ_cons, List.flatten_cons,
        List.length_append, Nat.add_assoc]

/-- A fixup replaces every word on its own. -/
theorem apply_replaces (g : Generation) (ws : List Word) (x : Fixup) :
    (x.apply g ws).words = (ws.map (x.replacement g)).flatten ∧
      (x.apply g ws).remap = remapFrom 0 (ws.map (x.replacement g)) := by
  cases x with
  | splitTriples => exact ⟨rfl, rfl⟩
  | fenceWrites =>
    cases fenced : fence g with
    | ok f =>
      have same : replacement g .fenceWrites = fenceWord g f := by
        funext w
        simp only [replacement, fenced]
      simp only [apply, fenced, same]
      exact ⟨rfl, rfl⟩
    | error d =>
      have same : replacement g .fenceWrites = fun w => [w] := by
        funext w
        simp only [replacement, fenced]
      have steady (first : Nat) :
          remapFrom first (ws.map fun w => [w]) = List.range' first (ws.length + 1) := by
        induction ws generalizing first with
        | nil => rfl
        | cons w rest ih => rw [List.map_cons, remapFrom, ih, List.length_cons, List.range'_succ]; rfl
      simp only [apply, fenced, same, steady, identity, List.range_eq_range', and_true]
      rw [← List.flatMap_def, List.flatMap_singleton']

theorem apply_words (g : Generation) (ws : List Word) (x : Fixup) :
    (x.apply g ws).words = ws.flatMap (x.replacement g) := by
  rw [(apply_replaces g ws x).1, List.flatMap_def]

/-- The new position of every word, and of the end: the number of words before it. -/
theorem apply_remap_getElem (g : Generation) (ws : List Word) (x : Fixup) {n : Nat}
    (small : n ≤ ws.length) :
    (x.apply g ws).remap[n]? = some ((ws.take n).flatMap (x.replacement g)).length := by
  rw [(apply_replaces g ws x).2, remapFrom_getElem 0 _ (by simpa using small), Nat.zero_add, ← List.map_take,
    List.flatMap_def]

/-- What a fixup tells about its words: where each of them went and what follows it there. -/
structure Remaps (g : Generation) (ws : List Word) (r : Fixed) : Prop where
  length : r.remap.length = ws.length + 1
  ascending : r.remap.Pairwise (· < ·)
  first : r.remap.head? = some 0
  last : r.remap.getLast? = some r.words.length
  pieces : ∀ (n : Nat) (w : Word), ws[n]? = some w → ∃ start stop : Nat,
    r.remap[n]? = some start ∧ r.remap[n + 1]? = some stop ∧
    ((r.words.drop start).take (stop - start) = [w] ∨
      (g.layout.isWideTriple w = true ∧
        (r.words.drop start).take (stop - start) = [g.layout.lowerHalf w, g.layout.upperHalf w]) ∨
      ∃ f, fence g = .ok f ∧ g.writesMemory w = true ∧
        (r.words.drop start).take (stop - start) = [w, f])

theorem apply_remaps (g : Generation) (ws : List Word) (x : Fixup) : Remaps g ws (x.apply g ws) := by
  have length : (x.apply g ws).remap.length = ws.length + 1 := by
    rw [(apply_replaces g ws x).2, remapFrom_length, List.length_map]
  have at_ {n : Nat} (small : n ≤ ws.length) := apply_remap_getElem g ws x small
  refine ⟨length, ?_, ?_, ?_, ?_⟩
  · rw [(apply_replaces g ws x).2]
    generalize 0 = first
    clear length at_
    induction ws generalizing first with
    | nil => simp [remapFrom]
    | cons w rest ih =>
      refine List.pairwise_cons.mpr ⟨?_, ih _⟩
      intro n member
      have positive : 0 < (x.replacement g w).length :=
        List.length_pos_iff.mpr (replacement_ne_nil g x w)
      obtain ⟨i, here⟩ := List.getElem?_of_mem member
      have small : i ≤ (rest.map (x.replacement g)).length := by
        have bound := (List.getElem?_eq_some_iff.mp here).1
        rw [remapFrom_length] at bound
        omega
      rw [remapFrom_getElem _ _ small] at here
      cases here
      omega
  · rw [List.head?_eq_getElem?, at_ (Nat.zero_le _)]
    rfl
  · rw [List.getLast?_eq_getElem?, length, Nat.add_sub_cancel, at_ (Nat.le_refl _), List.take_length,
      apply_words]
  · intro n w here
    obtain ⟨small, rfl⟩ := List.getElem?_eq_some_iff.mp here
    refine ⟨_, _, at_ (Nat.le_of_lt small), at_ small, ?_⟩
    have piece : ((x.apply g ws).words.drop ((ws.take n).flatMap (x.replacement g)).length).take
        (((ws.take (n + 1)).flatMap (x.replacement g)).length -
          ((ws.take n).flatMap (x.replacement g)).length) = x.replacement g ws[n] := by
      have words : (x.apply g ws).words = (ws.take n).flatMap (x.replacement g) ++
          (x.replacement g ws[n] ++ (ws.drop (n + 1)).flatMap (x.replacement g)) := by
        rw [apply_words, ← List.flatMap_cons, ← List.flatMap_append, ← List.drop_eq_getElem_cons small,
          List.take_append_drop]
      have longer : ((ws.take (n + 1)).flatMap (x.replacement g)).length =
          ((ws.take n).flatMap (x.replacement g)).length + (x.replacement g ws[n]).length := by
        rw [← List.take_append_getElem small, List.flatMap_append, List.length_append,
          List.flatMap_singleton]
      rw [words, List.drop_left, longer, Nat.add_sub_cancel_left, List.take_left]
    rw [piece]
    exact replacement_cases g x ws[n]

/-! ## Fixups in order -/

/-- The words that stand for a word after fixups in order. -/
def fixed (g : Generation) (fixups : List Fixup) : Word → List Word :=
  fixups.foldl (fun become x w => (become w).flatMap (x.replacement g)) fun w => [w]

/-- Words in which every word was replaced by what it becomes, and where each went. -/
structure Replaces (become : Word → List Word) (ws : List Word) (f : Fixed) : Prop where
  words : f.words = ws.flatMap become
  length : f.remap.length = ws.length + 1
  remap : ∀ n ≤ ws.length, f.remap[n]? = some ((ws.take n).flatMap become).length

theorem Replaces.andThen {become : Word → List Word} {ws : List Word} {f : Fixed}
    (replaces : Replaces become ws f) (g : Generation) (x : Fixup) :
    Replaces (fun w => (become w).flatMap (x.replacement g)) ws (andThen g f x) := by
  refine ⟨?_, ?_, ?_⟩
  · simp only [Fixup.andThen, apply_words, replaces.words, List.flatMap_assoc]
  · simp only [Fixup.andThen, compose, List.length_map, replaces.length]
  · intro n small
    have inside : (ws.flatMap become).take ((ws.take n).flatMap become).length =
        (ws.take n).flatMap become := by
      have split : ws.flatMap become = (ws.take n).flatMap become ++ (ws.drop n).flatMap become := by
        rw [← List.flatMap_append, List.take_append_drop]
      rw [split, List.take_left]
    have bound : ((ws.take n).flatMap become).length ≤ (ws.flatMap become).length := by
      rw [← inside]
      exact List.length_take_le' ..
    simp only [Fixup.andThen, compose, List.getElem?_map, replaces.remap n small, Option.map_some,
      replaces.words, List.getD_eq_getElem?_getD, apply_remap_getElem g _ x bound, Option.getD_some,
      inside, List.flatMap_assoc]

/-- Fixups in order replace every word by what becomes of it, and the remap counts what becomes of the
words before. -/
theorem applyAll_replaces (g : Generation) (fixups : List Fixup) (ws : List Word) :
    Replaces (fixed g fixups) ws (applyAll g fixups ws) := by
  have along (become : Word → List Word) (f : Fixed) (replaces : Replaces become ws f) :
      Replaces (fixups.foldl (fun become x w => (become w).flatMap (x.replacement g)) become) ws
        (fixups.foldl (Fixup.andThen g) f) := by
    induction fixups generalizing become f with
    | nil => exact replaces
    | cons x rest ih => exact ih _ _ (replaces.andThen g x)
  refine along _ _ ⟨(List.flatMap_singleton' ws).symm, by simp [identity], ?_⟩
  intro n small
  simp only [identity, List.flatMap_singleton', List.length_take]
  rw [List.getElem?_range (by omega), Nat.min_eq_left small]

theorem fixed_ne_nil (g : Generation) (fixups : List Fixup) (w : Word) : fixed g fixups w ≠ [] := by
  have along (become : Word → List Word) (some_ : become w ≠ []) :
      fixups.foldl (fun become x w => (become w).flatMap (x.replacement g)) become w ≠ [] := by
    induction fixups generalizing become with
    | nil => exact some_
    | cons x rest ih =>
      apply ih
      obtain ⟨v, others, same⟩ := List.exists_cons_of_ne_nil some_
      simp [same, replacement_ne_nil]
  exact along _ (by simp)

/-- Where no word vanishes, later words go to later places. -/
theorem Replaces.ascending {become : Word → List Word} {ws : List Word} {f : Fixed}
    (replaces : Replaces become ws f) (some_ : ∀ w, become w ≠ []) {n n' : Nat} (less : n < n')
    (small : n' ≤ ws.length) : f.remap.getD n 0 < f.remap.getD n' 0 := by
  rw [List.getD_eq_getElem?_getD, List.getD_eq_getElem?_getD, replaces.remap n (by omega),
    replaces.remap n' small, Option.getD_some, Option.getD_some]
  have inside : n < ws.length := by omega
  obtain ⟨more, rest⟩ : ∃ more, ws.take n' = ws.take n ++ ws[n] :: more := by
    refine ⟨(ws.take n').drop (n + 1), ?_⟩
    have there : (ws.take n')[n]? = some ws[n] := by
      rw [List.getElem?_take_of_lt less, List.getElem?_eq_getElem inside]
    obtain ⟨bound, same⟩ := List.getElem?_eq_some_iff.mp there
    rw [← same, ← List.drop_eq_getElem_cons bound, ← Nat.min_eq_left (Nat.le_of_lt less), ← List.take_take,
      Nat.min_eq_left (Nat.le_of_lt less), List.take_append_drop]
  rw [rest, List.flatMap_append, List.length_append, List.flatMap_cons, List.length_append]
  have positive := List.length_pos_iff.mpr (some_ ws[n])
  omega

/-- A word that no fixup of the generation replaces stays through all of them. -/
theorem fixed_steady {g : Generation} {w : Word} (steady : ∀ x, replacement g x w = [w])
    (fixups : List Fixup) : fixed g fixups w = [w] := by
  have along (become : Word → List Word) (same : become w = [w]) :
      fixups.foldl (fun become x w => (become w).flatMap (x.replacement g)) become w = [w] := by
    induction fixups generalizing become with
    | nil => exact same
    | cons x rest ih =>
      apply ih
      simp [same, steady]
  exact along _ rfl

end GpuCodegen.Fixup
