import Mathlib
import GpuCodegen.Target.Name
import GpuCodegen.Proofs.LeastEdits

/-! Which names are suggested for a misspelt one. A table of names has no order of its own; it is given as a
list of its entries in any order. `Suggests` says what the suggestions are without an order of the table: the
near names, the closest of each value, in the order of distance and alphabet. There is only one such list, since
names in a table differ and so no two suggestions are alike in that order. What is suggested therefore depends
on the entries of the table alone, and so does the answer to an unknown generation. -/

namespace GpuCodegen.SimilarNames
open Text EditDistance

/-- At a smaller distance, or at the same distance and earlier in the alphabet. -/
def Closer (s t : Suggestion) : Prop :=
  s.distance < t.distance ∨ s.distance = t.distance ∧ s.name < t.name

/-- A name of a table that is one to three edits away. -/
structure IsNear (name : String) (table : List (String × Int)) (s : Suggestion) : Prop where
  listed : (s.name, s.value) ∈ table
  measured : s.distance = distance name s.name
  differs : 1 ≤ s.distance
  near : s.distance ≤ 3

/-- All suggestions for a name: the near names of a table that no other near name of the same value comes
before, in order. -/
structure Suggests (name : String) (table : List (String × Int)) (closest : List Suggestion) : Prop where
  ordered : closest.Pairwise Closer
  mem_iff : ∀ s, s ∈ closest ↔
    IsNear name table s ∧ ∀ t, IsNear name table t → t.value = s.value → t ≠ s → Closer s t

theorem Closer.asymm {s t : Suggestion} (before : Closer s t) : ¬ Closer t s := by
  rintro (less | ⟨same, earlier⟩)
  · rcases before with less' | ⟨same', -⟩ <;> omega
  · rcases before with less' | ⟨-, earlier'⟩
    · omega
    · exact String.lt_irrefl _ (String.lt_trans earlier earlier')

theorem Closer.trans {s t u : Suggestion} (first : Closer s t) (second : Closer t u) : Closer s u := by
  rcases first with less | ⟨same, earlier⟩ <;> rcases second with less' | ⟨same', earlier'⟩
  · exact .inl (by omega)
  · exact .inl (by omega)
  · exact .inl (by omega)
  · exact .inr ⟨by omega, String.lt_trans earlier earlier'⟩

theorem Closer.distance_le {s t : Suggestion} : Closer s t → s.distance ≤ t.distance
  | .inl less => Nat.le_of_lt less
  | .inr ⟨same, _⟩ => Nat.le_of_eq same

theorem Closer.total {s t : Suggestion} (apart : s.name ≠ t.name) : Closer s t ∨ Closer t s := by
  rcases Nat.lt_trichotomy s.distance t.distance with less | same | more
  · exact .inl (.inl less)
  · by_cases earlier : s.name < t.name
    · exact .inl (.inr ⟨same, earlier⟩)
    · refine .inr (.inr ⟨same.symm, Decidable.byContradiction fun later => apart ?_⟩)
      exact String.le_antisymm (String.not_lt.mp later) (String.not_lt.mp earlier)
  · exact .inr (.inl more)

instance : Std.Irrefl Closer where
  irrefl _ before := before.asymm before

instance : Std.Antisymm Closer where
  antisymm _ _ before after := absurd after before.asymm

section
variable {name : String} {table order : List (String × Int)} {closest other : List Suggestion}

theorem Suggests.unique (first : Suggests name table closest) (second : Suggests name table other) :
    closest = other :=
  first.ordered.eq_of_mem_iff second.ordered fun s => (first.mem_iff s).trans (second.mem_iff s).symm

/-! ## The order of the entries -/

theorem isNear_perm (same : order.Perm table) (s : Suggestion) :
    IsNear name order s ↔ IsNear name table s :=
  ⟨fun h => ⟨same.mem_iff.mp h.listed, h.measured, h.differs, h.near⟩,
    fun h => ⟨same.mem_iff.mpr h.listed, h.measured, h.differs, h.near⟩⟩

theorem Suggests.perm (same : order.Perm table) (suggests : Suggests name order closest) :
    Suggests name table closest where
  ordered := suggests.ordered
  mem_iff s := by
    rw [suggests.mem_iff]
    simp only [isNear_perm same]

/-! ## The names that are collected -/

/-- The near names of a table, as they come. -/
def nearNames (name : String) (table : List (String × Int)) : List Suggestion :=
  table.filterMap fun (candidate, value) =>
    let d := distance name candidate
    if 0 < d ∧ d ≤ suggestionLimit then some ⟨d, candidate, value⟩ else none

theorem mem_nearNames {s : Suggestion} : s ∈ nearNames name table ↔ IsNear name table s := by
  rw [nearNames, List.mem_filterMap]
  constructor
  · rintro ⟨⟨candidate, value⟩, listed, found⟩
    dsimp only at found
    split at found
    · rename_i near
      cases found
      exact ⟨listed, rfl, near.1, near.2⟩
    · cases found
  · rintro ⟨listed, measured, differs, near⟩
    refine ⟨(s.name, s.value), listed, ?_⟩
    rw [measured] at differs near
    have close : 0 < distance name s.name ∧ distance name s.name ≤ suggestionLimit := ⟨differs, near⟩
    dsimp only
    rw [if_pos close, ← measured]

theorem nearNames_names (keyed : (table.map Prod.fst).Nodup) :
    (nearNames name table).Pairwise fun s t => s.name ≠ t.name := by
  rw [nearNames, List.pairwise_filterMap]
  refine (List.pairwise_map.mp keyed).imp fun {a b} apart s first t second => ?_
  dsimp only at first second
  split at first
  · split at second
    · cases first
      cases second
      exact apart
    · cases second
  · cases first

/-- However the near names are sorted, names in a table differ and so the order is strict. -/
theorem closer_of_sorted (keyed : (table.map Prod.fst).Nodup) {sorted : List Suggestion}
    (same : sorted.Perm (nearNames name table)) (inOrder : sorted.Pairwise fun s t => ¬ Closer t s) :
    sorted.Pairwise Closer := by
  have names : sorted.Pairwise fun s t => s.name ≠ t.name :=
    same.symm.pairwise (nearNames_names keyed) fun {_ _} apart => apart.symm
  exact (inOrder.and names).imp fun {s t} ⟨notAfter, apart⟩ => (Closer.total apart).resolve_right notAfter

theorem before_iff {s t : Suggestion} :
    s.before t = true ↔ s.distance < t.distance ∨ s.distance = t.distance ∧ s.name ≤ t.name := by
  simp only [Suggestion.before, Bool.or_eq_true, Bool.and_eq_true, decide_eq_true_eq, beq_iff_eq]

theorem before_trans (s t u : Suggestion) (first : s.before t = true) (second : t.before u = true) :
    s.before u = true := by
  rw [before_iff] at *
  rcases first with less | ⟨same, earlier⟩ <;> rcases second with less' | ⟨same', earlier'⟩
  · exact .inl (by omega)
  · exact .inl (by omega)
  · exact .inl (by omega)
  · exact .inr ⟨by omega, String.le_trans earlier earlier'⟩

theorem before_total (s t : Suggestion) : (s.before t || t.before s) = true := by
  rw [Bool.or_eq_true, before_iff, before_iff]
  rcases Nat.lt_trichotomy s.distance t.distance with less | same | more
  · exact .inl (.inl less)
  · exact (String.le_total s.name t.name).imp (fun earlier => .inr ⟨same, earlier⟩)
      fun earlier => .inr ⟨same.symm, earlier⟩
  · exact .inr (.inl more)

theorem not_closer_of_before {s t : Suggestion} (before : s.before t = true) : ¬ Closer t s := by
  rintro (less | ⟨same, later⟩)
  · rcases before_iff.mp before with less' | ⟨same', -⟩ <;> omega
  · rcases before_iff.mp before with less' | ⟨-, earlier⟩
    · omega
    · exact String.not_lt.mpr earlier later

end

/-! ## The first of each value -/

theorem firstPerValue_sublist (l : List Suggestion) : (firstPerValue l).Sublist l := by
  induction l with
  | nil => exact .slnil
  | cons s rest ih => exact .cons_cons s (List.filter_sublist.trans ih)

/-- Of an ordered list those are kept that come before all others of their value. -/
theorem mem_firstPerValue {l : List Suggestion} (sorted : l.Pairwise Closer) {s : Suggestion} :
    s ∈ firstPerValue l ↔ s ∈ l ∧ ∀ t ∈ l, t.value = s.value → t ≠ s → Closer s t := by
  induction l with
  | nil => simp [firstPerValue]
  | cons head rest ih =>
    obtain ⟨first, sorted⟩ := List.pairwise_cons.mp sorted
    rw [firstPerValue, List.mem_cons, List.mem_filter, ih sorted, bne_iff_ne]
    constructor
    · rintro (rfl | ⟨⟨later, least⟩, apart⟩)
      · refine ⟨List.mem_cons_self, fun t listed _ other => ?_⟩
        exact first t (List.mem_of_ne_of_mem other listed)
      · refine ⟨List.mem_cons_of_mem _ later, fun t listed same other => ?_⟩
        rcases List.mem_cons.mp listed with rfl | listed
        · exact absurd same.symm apart
        · exact least t listed same other
    · rintro ⟨listed, least⟩
      rcases List.mem_cons.mp listed with rfl | later
      · exact .inl rfl
      · refine .inr ⟨⟨later, fun t listed => least t (List.mem_cons_of_mem _ listed)⟩, fun same => ?_⟩
        have before := first s later
        have after := least head List.mem_cons_self same.symm (by
          rintro rfl
          exact before.asymm before)
        exact before.asymm after

/-- Every value is kept, by an element that is not later. -/
theorem firstPerValue_represents {l : List Suggestion} (sorted : l.Pairwise Closer) {t : Suggestion}
    (listed : t ∈ l) : ∃ s ∈ firstPerValue l, s.value = t.value ∧ (s = t ∨ Closer s t) := by
  induction l with
  | nil => cases listed
  | cons head rest ih =>
    obtain ⟨first, sorted⟩ := List.pairwise_cons.mp sorted
    rw [firstPerValue]
    by_cases same : head.value = t.value
    · refine ⟨head, List.mem_cons_self, same, ?_⟩
      rcases List.mem_cons.mp listed with rfl | later
      · exact .inl rfl
      · exact .inr (first t later)
    · have later : t ∈ rest := List.mem_of_ne_of_mem (fun equal => same (equal ▸ rfl)) listed
      obtain ⟨s, kept, value, position⟩ := ih sorted later
      refine ⟨s, List.mem_cons_of_mem _ (List.mem_filter.mpr ⟨kept, ?_⟩), value, position⟩
      rw [bne_iff_ne, value]
      exact Ne.symm same

/-! ## What is suggested -/

section
variable {name : String} {table order : List (String × Int)} {closest : List Suggestion}

/-- The first of each value among the near names, however they are sorted, are what is to be suggested. -/
theorem firstPerValue_suggests (keyed : (table.map Prod.fst).Nodup) {sorted : List Suggestion}
    (same : sorted.Perm (nearNames name table)) (inOrder : sorted.Pairwise fun s t => ¬ Closer t s) :
    Suggests name table (firstPerValue sorted) where
  ordered := (closer_of_sorted keyed same inOrder).sublist (firstPerValue_sublist _)
  mem_iff s := by
    rw [mem_firstPerValue (closer_of_sorted keyed same inOrder)]
    simp only [same.mem_iff, mem_nearNames]

/-- The near names in order. -/
def arranged (name : String) (table : List (String × Int)) : List Suggestion :=
  (nearNames name table).mergeSort Suggestion.before

theorem similarNames_eq (limit : Nat) :
    similarNames name table limit = ((firstPerValue (arranged name table)).take limit).map (·.name) :=
  rfl

theorem arranged_perm : (arranged name table).Perm (nearNames name table) := List.mergeSort_perm _ _

theorem arranged_sorted : (arranged name table).Pairwise fun s t => ¬ Closer t s :=
  (List.pairwise_mergeSort before_trans before_total _).imp not_closer_of_before

theorem arranged_suggests (keyed : (table.map Prod.fst).Nodup) :
    Suggests name table (firstPerValue (arranged name table)) :=
  firstPerValue_suggests keyed arranged_perm arranged_sorted

theorem keyed_perm (keyed : (table.map Prod.fst).Nodup) (same : order.Perm table) :
    (order.map Prod.fst).Nodup :=
  (same.map Prod.fst).nodup_iff.mpr keyed

theorem value_unique (keyed : (table.map Prod.fst).Nodup) {n : String} {v w : Int} (first : (n, v) ∈ table)
    (second : (n, w) ∈ table) : v = w :=
  congrArg Prod.snd (List.inj_on_of_nodup_map keyed first second rfl)

variable (suggests : Suggests name table closest)
include suggests

theorem Suggests.similarNames (keyed : (table.map Prod.fst).Nodup) (same : order.Perm table) (limit : Nat) :
    similarNames name order limit = (closest.take limit).map (·.name) := by
  have found : Suggests name order (firstPerValue (arranged name order)) :=
    arranged_suggests (keyed_perm keyed same)
  rw [similarNames_eq, (found.perm same).unique suggests]

/-- Every near name gives way to a suggestion only if that one has its value and comes before it. -/
theorem Suggests.represents (keyed : (table.map Prod.fst).Nodup) {t : Suggestion} (near : IsNear name table t) :
    ∃ s ∈ closest, s.value = t.value ∧ (s = t ∨ Closer s t) := by
  rw [suggests.unique (arranged_suggests keyed)]
  exact firstPerValue_represents (closer_of_sorted keyed arranged_perm arranged_sorted)
    (arranged_perm.mem_iff.mpr (mem_nearNames.mpr near))

theorem Suggests.values : closest.Pairwise fun s t => s.value ≠ t.value := by
  refine suggests.ordered.imp_of_mem fun {s t} first second before same => ?_
  obtain ⟨near, -⟩ := (suggests.mem_iff s).mp first
  obtain ⟨-, least⟩ := (suggests.mem_iff t).mp second
  refine before.asymm (least s near same ?_)
  rintro rfl
  exact before.asymm before

/-- What is cut off is not closer than what is kept. -/
theorem Suggests.cut {limit : Nat} {s t : Suggestion} (kept : s ∈ closest.take limit) (listed : t ∈ closest)
    (omitted : t ∉ closest.take limit) : Closer s t := by
  rw [← List.take_append_drop limit closest] at listed
  have split := suggests.ordered
  rw [← List.take_append_drop limit closest, List.pairwise_append] at split
  exact split.2.2 s kept t ((List.mem_append.mp listed).resolve_left omitted)

/-- The first suggestion is the near name that comes before all others. -/
theorem Suggests.head (keyed : (table.map Prod.fst).Nodup) {s : Suggestion} :
    closest.head? = some s ↔ IsNear name table s ∧ ∀ t, IsNear name table t → t ≠ s → Closer s t := by
  have sorted := suggests.ordered
  constructor
  · intro first
    obtain ⟨rest, rfl⟩ := List.head?_eq_some_iff.mp first
    refine ⟨((suggests.mem_iff s).mp List.mem_cons_self).1, fun t near other => ?_⟩
    obtain ⟨u, listed, -, position⟩ := suggests.represents keyed near
    rcases List.mem_cons.mp listed with rfl | later
    · exact position.resolve_left other.symm
    · have before := (List.pairwise_cons.mp sorted).1 u later
      rcases position with rfl | after
      · exact before
      · exact before.trans after
  · rintro ⟨near, least⟩
    have listed : s ∈ closest := (suggests.mem_iff s).mpr ⟨near, fun t near _ other => least t near other⟩
    cases closest with
    | nil => cases listed
    | cons first rest =>
      rcases List.mem_cons.mp listed with rfl | later
      · rfl
      · have before := (List.pairwise_cons.mp sorted).1 s later
        have near := ((suggests.mem_iff first).mp List.mem_cons_self).1
        refine absurd (least first near ?_) before.asymm
        rintro rfl
        exact before.asymm before

/-- Suggested names stand for different values. -/
theorem Suggests.distinct (keyed : (table.map Prod.fst).Nodup) (limit : Nat) :
    ((closest.take limit).map (·.name)).Pairwise
      fun n m => ∀ v w, (n, v) ∈ table → (m, w) ∈ table → v ≠ w := by
  rw [List.pairwise_map]
  refine (suggests.values.sublist (List.take_sublist limit closest)).imp_of_mem
    fun {s t} first second differ v w listed listed' same => differ ?_
  have near := ((suggests.mem_iff s).mp (List.mem_of_mem_take first)).1
  have near' := ((suggests.mem_iff t).mp (List.mem_of_mem_take second)).1
  rw [value_unique keyed near.listed listed, value_unique keyed near'.listed listed', same]

/-- A name other than the one that was asked for, with a value that no suggested name has, is not closer than
those that are suggested. -/
theorem Suggests.not_farther (keyed : (table.map Prod.fst).Nodup) {limit : Nat} {n m : String} {v : Int}
    (suggested : n ∈ (closest.take limit).map (·.name)) (listed : (m, v) ∈ table) (other : m ≠ name)
    (unrepresented : ∀ k ∈ (closest.take limit).map (·.name), (k, v) ∉ table) :
    distance name n ≤ distance name m := by
  obtain ⟨s, kept, rfl⟩ := List.mem_map.mp suggested
  have near := ((suggests.mem_iff s).mp (List.mem_of_mem_take kept)).1
  rw [← near.measured]
  by_cases far : 3 < distance name m
  · exact Nat.le_of_lt (Nat.lt_of_le_of_lt near.near far)
  · have apart : distance name m ≠ 0 := fun zero => other (distance_eq_zero.mp zero).symm
    have near' : IsNear name table ⟨distance name m, m, v⟩ :=
      ⟨listed, rfl, Nat.pos_of_ne_zero apart, Nat.not_lt.mp far⟩
    obtain ⟨u, among, value, position⟩ := suggests.represents keyed near'
    have omitted : u ∉ closest.take limit := by
      intro kept
      have named := ((suggests.mem_iff u).mp among).1.listed
      rw [value] at named
      exact unrepresented u.name (List.mem_map_of_mem kept) named
    have before := (suggests.cut kept among omitted).distance_le
    rcases position with rfl | after
    · exact before
    · exact Nat.le_trans before after.distance_le

end

/-- The name that is suggested first, if any, is the near name that comes before all others. -/
theorem head_similarNames {name : String} {table : List (String × Int)} (keyed : (table.map Prod.fst).Nodup)
    {limit : Nat} (positive : limit ≠ 0) {n : String} :
    (similarNames name table limit).head? = some n ↔
      ∃ s, s.name = n ∧ IsNear name table s ∧ ∀ t, IsNear name table t → t ≠ s → Closer s t := by
  have head {s : Suggestion} := (@arranged_suggests name table keyed).head keyed (s := s)
  rw [similarNames_eq, List.head?_map, List.head?_take, if_neg positive, Option.map_eq_some_iff]
  simp only [head, and_comm]

/-- The spellings of generations with the numbers they stand for. -/
def spellings (aliases : List (String × Generation)) : List (String × Int) :=
  aliases.map fun entry => (entry.1, entry.2.number)

theorem ofName_error {text : String} {e : Generation.NameError} (unknown : Generation.ofName text = .error e) :
    e = ⟨text, (similarNames (lower (trim text)) (spellings Generation.aliases) 3).head?⟩ := by
  unfold Generation.ofName at unknown
  dsimp only at unknown
  split at unknown
  · cases unknown
  · cases unknown
    rfl

theorem aliases_keyed : ((spellings Generation.aliases).map Prod.fst).Nodup := by decide +kernel

/-- For every table of names, in whatever order its entries come and however the near ones are sorted, the
suggestions for a name are the near names, the first of each value, closest first and cut to a number. So their
values differ, no other name is closer unless its value is suggested, and the answer to an unknown generation is
the same for every order of the spellings: it names the closest one. -/
theorem similarNames_determined {table : List (String × Int)} (keyed : (table.map Prod.fst).Nodup)
    (name : String) (limit : Nat) :
    (∃ closest, Suggests name table closest ∧ ∀ order, order.Perm table →
      similarNames name order limit = (closest.take limit).map (·.name) ∧
      ∀ sorted, sorted.Perm (nearNames name order) → sorted.Pairwise (fun s t => ¬ Closer t s) →
        firstPerValue sorted = closest) ∧
    (similarNames name table limit).Pairwise
      (fun n m => ∀ v w, (n, v) ∈ table → (m, w) ∈ table → v ≠ w) ∧
    (∀ n ∈ similarNames name table limit, ∀ m v, (m, v) ∈ table → m ≠ name →
      (∀ k ∈ similarNames name table limit, (k, v) ∉ table) → distance name n ≤ distance name m) ∧
    ∀ text e, Generation.ofName text = .error e → ∀ order, order.Perm Generation.aliases →
      e = ⟨text, (similarNames (lower (trim text)) (spellings order) 3).head?⟩ ∧
      ∀ n, e.closest = some n ↔ ∃ s, s.name = n ∧ IsNear (lower (trim text)) (spellings order) s ∧
        ∀ t, IsNear (lower (trim text)) (spellings order) t → t ≠ s → Closer s t := by
  have suggests := @arranged_suggests name table keyed
  have result := suggests.similarNames keyed (.refl table) limit
  refine ⟨⟨_, suggests, fun order same => ⟨suggests.similarNames keyed same limit, fun sorted among inOrder => ?_⟩⟩,
    ?_, ?_, ?_⟩
  · exact ((firstPerValue_suggests (keyed_perm keyed same) among inOrder).perm same).unique suggests
  · rw [result]
    exact suggests.distinct keyed limit
  · intro n suggested m v listed other unrepresented
    rw [result] at suggested unrepresented
    exact suggests.not_farther keyed suggested listed other unrepresented
  · intro text e unknown order same
    have numbered : (spellings order).Perm (spellings Generation.aliases) := same.map _
    have keyed := keyed_perm aliases_keyed numbered
    have answer : e = ⟨text, (similarNames (lower (trim text)) (spellings order) 3).head?⟩ := by
      have suggests := @arranged_suggests (lower (trim text)) _ keyed
      rw [ofName_error unknown, suggests.similarNames keyed numbered.symm, similarNames_eq]
    refine ⟨answer, fun n => ?_⟩
    rw [answer]
    exact head_similarNames keyed (by decide)

/-- Of the three near names the two at distance one stand for different values and are suggested, whatever the order
of the table. An unlisted generation is answered with the first of those at distance two, whatever the order of
the spellings. -/
theorem similarNames_determined_shared :
    ([("gen8", 4), ("gen9", 6), ("bdw", 4), ("gem8", 4)].map Prod.fst).Nodup ∧
    (∀ order : List (String × Int), order.Perm [("gen8", 4), ("gen9", 6), ("bdw", 4), ("gem8", 4)] →
      similarNames "gen" order 2 = ["gen8", "gen9"]) ∧
    ∃ e, Generation.ofName " Gen10" = .error e ∧ e.closest = some "gen6" ∧
      ∀ order, order.Perm Generation.aliases → some "gen6" = (similarNames "gen10" (spellings order) 3).head? := by
  have keyed : ([("gen8", 4), ("gen9", 6), ("bdw", 4), ("gem8", 4)].map (Prod.fst : String × Int → String)).Nodup := by
    decide
  obtain ⟨⟨closest, -, determined⟩, -, -, answered⟩ := similarNames_determined keyed "gen" 2
  have suggested : similarNames "gen" [("gen8", 4), ("gen9", 6), ("bdw", 4), ("gem8", 4)] 2 = ["gen8", "gen9"] := by
    cbv
  have key : lower (trim " Gen10") = "gen10" := by decide +kernel
  have missing : (Generation.aliases.find? fun entry => entry.1 == "gen10") = none := by decide +kernel
  have unknown : Generation.ofName " Gen10" =
      .error ⟨" Gen10", (similarNames "gen10" (spellings Generation.aliases) 3).head?⟩ := by
    unfold Generation.ofName
    rw [key]
    dsimp only
    rw [missing]
    rfl
  have nearest : ∀ entry ∈ Generation.aliases, entry.1 = "gen6" ∨ 2 < distance "gen10" entry.1 ∨
      2 = distance "gen10" entry.1 ∧ "gen6" < entry.1 := by decide +kernel
  have first : (similarNames "gen10" (spellings Generation.aliases) 3).head? = some "gen6" := by
    obtain ⟨-, answer⟩ := answered _ _ unknown _ (.refl _)
    rw [key] at answer
    have gen6 : IsNear "gen10" (spellings Generation.aliases) ⟨2, "gen6", 1⟩ :=
      ⟨List.mem_cons_self, by decide +kernel, by decide, by decide⟩
    refine (answer "gen6").mpr ⟨_, rfl, gen6, fun t near other => ?_⟩
    obtain ⟨entry, listed, same⟩ := List.mem_map.mp near.listed
    have closer := nearest entry listed
    rw [show entry.1 = t.name from congrArg Prod.fst same, ← near.measured] at closer
    refine closer.resolve_left fun named => other (Suggestion.mk.injEq .. ▸ ⟨?_, named, ?_⟩)
    · exact near.measured.trans (named ▸ gen6.measured.symm)
    · exact value_unique aliases_keyed near.listed (named ▸ gen6.listed)
  refine ⟨keyed, fun order same => ?_, _, unknown, first, fun order same => ?_⟩
  · rw [(determined order same).1, ← suggested, (determined _ (.refl _)).1]
  · have answer := congrArg Generation.NameError.closest (answered _ _ unknown order same).1
    rw [key] at answer
    exact first.symm.trans answer

end GpuCodegen.SimilarNames
