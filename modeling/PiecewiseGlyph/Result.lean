/-!
# Results

What is computed in steps, each of which may fail, succeeds if all steps do, and fails with the
first.

* `bind_eq_ok`, `map_eq_ok` and `mapError_eq_ok` take a success apart into the successes of its
  steps;
* `bind_eq_error` and `map_eq_error` say which step failed;
* `isOk_eq_true_iff` and `isOk_mapError` are about success alone.
-/

namespace PiecewiseGlyph

variable {ε α β : Type}

/-- A composite succeeds if both parts do. -/
theorem bind_eq_ok {x : Except ε α} {f : α → Except ε β} {b : β} :
    (x >>= f) = .ok b ↔ ∃ a, x = .ok a ∧ f a = .ok b := by
  cases x <;> simp [bind, Except.bind]

/-- A composite fails if the first part does, or the second after a success of the first. -/
theorem bind_eq_error {x : Except ε α} {f : α → Except ε β} {e : ε} :
    (x >>= f) = .error e ↔ x = .error e ∨ ∃ a, x = .ok a ∧ f a = .error e := by
  cases x <;> simp [bind, Except.bind]

/-- The image of a result is a result. -/
theorem map_eq_ok {x : Except ε α} {f : α → β} {b : β} :
    x.map f = .ok b ↔ ∃ a, x = .ok a ∧ f a = b := by
  cases x <;> simp [Except.map]

/-- The image of a failure is that failure. -/
theorem map_eq_error {x : Except ε α} {f : α → β} {e : ε} : x.map f = .error e ↔ x = .error e := by
  cases x <;> simp [Except.map]

/-- What is said of failures does not matter to a success. -/
theorem mapError_eq_ok {δ : Type} {x : Except ε α} {f : ε → δ} {a : α} :
    x.mapError f = .ok a ↔ x = .ok a := by
  cases x with
  | error e => exact ⟨nofun, nofun⟩
  | ok a' => exact ⟨fun h => congrArg _ (Except.ok.inj h), fun h => congrArg _ (Except.ok.inj h)⟩

/-- Work without a result succeeds, or fails. -/
theorem isOk_eq_true_iff {x : Except ε Unit} : x.isOk = true ↔ x = .ok () := by
  cases x with
  | error e => exact ⟨nofun, nofun⟩
  | ok a => exact ⟨fun _ => rfl, fun _ => rfl⟩

theorem isOk_mapError {δ : Type} (f : ε → δ) (x : Except ε α) : (x.mapError f).isOk = x.isOk := by
  cases x <;> rfl

end PiecewiseGlyph
