/-!
# Results and failures

A computation that gives a result gave one at each of its steps, and its failure is one of theirs.
-/

namespace CssMedia

variable {ε ε' α β : Type}

theorem eq_ok_of_toOption {r : Except ε α} {a : α} (h : r.toOption = some a) : r = .ok a := by
  cases r with
  | error e => cases h
  | ok b => rw [Option.some.inj h]

theorem exists_of_map_eq_ok {f : α → β} {r : Except ε α} {b : β} (h : r.map f = .ok b) :
    ∃ a, r = .ok a ∧ f a = b := by
  cases r with
  | error e => cases h
  | ok a => exact ⟨a, rfl, Except.ok.inj h⟩

theorem eq_error_of_map {f : α → β} {r : Except ε α} {e : ε} (h : r.map f = .error e) :
    r = .error e := by
  cases r with
  | error e' => rw [Except.error.inj h]
  | ok a => cases h

theorem exists_of_bind_eq_ok {f : α → Except ε β} {r : Except ε α} {b : β}
    (h : r >>= f = .ok b) : ∃ a, r = .ok a ∧ f a = .ok b := by
  cases r with
  | error e => cases h
  | ok a => exact ⟨a, rfl, h⟩

theorem mapError_bind (g : ε → ε') (r : Except ε α) (f : α → Except ε β) :
    (r >>= f).mapError g = r.mapError g >>= fun a => (f a).mapError g := by
  cases r <;> rfl

theorem mapError_map (g : ε → ε') (r : Except ε α) (f : α → β) :
    (r.map f).mapError g = (r.mapError g).map f := by
  cases r <;> rfl

end CssMedia
