import Mathlib.Data.List.Forall2

/-! What is known of a computation that ran through: each of its parts ran through, and none of the
refusals on the way applied. -/

namespace GpuCodegen.Outcome

variable {ε δ α β : Type} {b : β}

/-- A sequence runs through exactly if its first part does and the rest does on its result. -/
theorem bind_ok {x : Except ε α} {f : α → Except ε β} :
    x >>= f = .ok b ↔ ∃ a, x = .ok a ∧ f a = .ok b := by
  cases x with
  | error e => simp [bind, Except.bind]
  | ok a => simp [bind, Except.bind]

/-- A check in front of a computation passed if the whole ran through. -/
theorem seq_ok {x : Except ε Unit} {f : Unit → Except ε β} : x >>= f = .ok b ↔ x = .ok () ∧ f () = .ok b := by
  cases x with
  | error e => simp [bind, Except.bind]
  | ok u => simp [bind, Except.bind]

/-- A refusal in front of a computation did not apply if the whole ran through. -/
theorem refuse_ok {c : Prop} [Decidable c] {e : ε} {f : α → Except ε β} {x : Except ε β} :
    (if c then (throw e >>= f) else x) = .ok b ↔ ¬c ∧ x = .ok b := by
  by_cases refused : c
  · simp [refused, throw, throwThe, MonadExceptOf.throw, bind, Except.bind]
  · simp [refused]

theorem reject_ok {c : Prop} [Decidable c] {e : ε} {x : Except ε β} :
    (if c then throw e else x) = .ok b ↔ ¬c ∧ x = .ok b := by
  by_cases rejected : c
  · simp [rejected, throw, throwThe, MonadExceptOf.throw]
  · simp [rejected]

/-- A computation behind a check ran through if the check held and it ran through. -/
theorem accept_ok {c : Prop} [Decidable c] {e : ε} {x : Except ε β} :
    (if c then x else throw e) = .ok b ↔ c ∧ x = .ok b := by
  by_cases accepted : c
  · simp [accepted]
  · simp [accepted, throw, throwThe, MonadExceptOf.throw]

theorem throw_ok {e : ε} : (throw e : Except ε β) = .ok b ↔ False := by
  simp [throw, throwThe, MonadExceptOf.throw]

theorem pure_ok {a : β} : (pure a : Except ε β) = .ok b ↔ a = b := by
  simp [pure, Except.pure]

theorem map_ok {x : Except ε α} {f : α → β} : x.map f = .ok b ↔ ∃ a, x = .ok a ∧ f a = b := by
  cases x with
  | error e => simp [Except.map]
  | ok a => simp [Except.map]

theorem toOption_map_some {x : Except ε α} {f : α → β} :
    x.toOption.map f = some b ↔ ∃ a, x = .ok a ∧ f a = b := by
  cases x <;> simp [Except.toOption]

/-- The error of a computation, from what is kept of it. -/
theorem mapError_map_error {x : Except ε α} {f : ε → δ} {g : α → β} {d : δ} :
    (x.mapError f).map g = .error d ↔ ∃ e, x = .error e ∧ f e = d := by
  cases x <;> simp [Except.mapError, Except.map]

theorem mapError_ok {x : Except ε β} {f : ε → δ} : x.mapError f = .ok b ↔ x = .ok b := by
  cases x with
  | error e => simp [Except.mapError]
  | ok a => simp [Except.mapError]

/-- A computation on every entry of a list ran through if it did on each of them. -/
theorem mapM_ok {f : α → Except ε β} {g : α → β} {xs : List α} {ys : List β}
    (each : ∀ x ∈ xs, ∀ y, f x = .ok y → y = g x) (ran : xs.mapM f = .ok ys) :
    ys = xs.map g ∧ ∀ x ∈ xs, f x = .ok (g x) := by
  induction xs generalizing ys with
  | nil =>
    rw [List.mapM_nil, pure_ok] at ran
    exact ⟨ran.symm, by simp⟩
  | cons x xs ih =>
    simp only [List.mapM_cons, bind_ok, pure_ok] at ran
    obtain ⟨y, first, zs, others, same⟩ := ran
    obtain ⟨rest, all⟩ := ih (fun x member => each x (List.mem_cons_of_mem _ member)) others
    have here := each x List.mem_cons_self y first
    refine ⟨by rw [← same, rest, here, List.map_cons], ?_⟩
    intro z member
    rcases List.mem_cons.mp member with rfl | later
    · rw [first, here]
    · exact all z later

/-- The results of a computation on every entry of a list, entry by entry. -/
theorem mapM_forall {f : α → Except ε β} {xs : List α} {ys : List β} (ran : xs.mapM f = .ok ys) :
    List.Forall₂ (fun x y => f x = .ok y) xs ys := by
  induction xs generalizing ys with
  | nil =>
    rw [List.mapM_nil, pure_ok] at ran
    subst ran
    exact .nil
  | cons x xs ih =>
    simp only [List.mapM_cons, bind_ok, pure_ok] at ran
    obtain ⟨y, first, rest, others, rfl⟩ := ran
    exact .cons first (ih others)

theorem mapM_getElem {f : α → Except ε β} {xs : List α} {ys : List β} (ran : xs.mapM f = .ok ys) {p : Nat}
    {x : α} (here : xs[p]? = some x) : ∃ y, ys[p]? = some y ∧ f x = .ok y := by
  obtain ⟨length, each⟩ := List.forall₂_iff_get.mp (mapM_forall ran)
  obtain ⟨small, rfl⟩ := List.getElem?_eq_some_iff.mp here
  exact ⟨ys[p], List.getElem?_eq_getElem (length ▸ small), each p small (length ▸ small)⟩

/-- What every step keeps holds at the end. -/
theorem foldlM_keeps {P : β → Prop} {f : β → α → Except ε β} {xs : List α} {s s' : β}
    (each : ∀ x ∈ xs, ∀ t t', P t → f t x = .ok t' → P t') (start : P s) (ran : xs.foldlM f s = .ok s') : P s' := by
  induction xs generalizing s with
  | nil =>
    rw [List.foldlM_nil, pure_ok] at ran
    exact ran ▸ start
  | cons x xs ih =>
    rw [List.foldlM_cons, bind_ok] at ran
    obtain ⟨t, first, others⟩ := ran
    exact ih (fun y member => each y (List.mem_cons_of_mem _ member)) (each x List.mem_cons_self s t start first) others

end GpuCodegen.Outcome
