import QueryGate.Rejection

/-! # Checks in sequence

A sequence of checks passes when each of them does, on what the ones before it found.
-/

namespace QueryGate

variable {α β γ : Type}

instance decidableEqVerdict [DecidableEq α] : DecidableEq (Except Rejection α)
  | .ok one, .ok other => decidable_of_iff (one = other) (by simp)
  | .error one, .error other => decidable_of_iff (one = other) (by simp)
  | .ok _, .error _ => .isFalse (by simp)
  | .error _, .ok _ => .isFalse (by simp)

theorem exists_of_isOk {ε : Type} {check : Except ε α} (passes : check.isOk = true) :
    ∃ found, check = .ok found := by
  cases check with
  | error rejection => cases passes
  | ok found => exact ⟨found, rfl⟩

theorem bind_eq_ok_iff {ε : Type} {check : Except ε α} {rest : α → Except ε β} {result : β} :
    check >>= rest = .ok result ↔ ∃ found, check = .ok found ∧ rest found = .ok result := by
  cases check with
  | error rejection => simp [bind, Except.bind]
  | ok found => simp [bind, Except.bind]

theorem bind_eq_error_iff {ε : Type} {check : Except ε α} {rest : α → Except ε β}
    {fault : ε} :
    check >>= rest = .error fault ↔
      check = .error fault ∨ ∃ found, check = .ok found ∧ rest found = .error fault := by
  cases check with
  | error other => simp [bind, Except.bind]
  | ok found => simp [bind, Except.bind]

theorem exists_bind_eq_ok_iff {ε : Type} {check : Except ε α} {rest : α → Except ε β} :
    (∃ result, check >>= rest = .ok result) ↔
      ∃ found, check = .ok found ∧ ∃ result, rest found = .ok result := by
  simp only [bind_eq_ok_iff]
  exact exists_comm.trans (by simp only [exists_and_left])

theorem exists_pure_eq_ok {ε : Type} {found : α} :
    (∃ result, (pure found : Except ε α) = .ok result) ↔ True :=
  ⟨fun _ => trivial, fun _ => ⟨found, rfl⟩⟩

theorem mapError_eq_ok_iff {ε ε' : Type} {check : Except ε α} {f : ε → ε'} {found : α} :
    check.mapError f = .ok found ↔ check = .ok found := by
  cases check with
  | error fault =>
      change Except.error (f fault) = _ ↔ _
      simp
  | ok other =>
      change Except.ok other = _ ↔ _
      simp

theorem map_eq_ok_iff {check : Except Rejection α} {f : α → β} {result : β} :
    check.map f = .ok result ↔ ∃ found, check = .ok found ∧ f found = result := by
  cases check with
  | error rejection => simp [Except.map]
  | ok found => simp [Except.map]

theorem isOk_map (check : Except Rejection α) (f : α → β) : (check.map f).isOk = check.isOk := by
  cases check <;> rfl

theorem map_eq_error_iff {check : Except Rejection α} {f : α → β} {rejection : Rejection} :
    check.map f = .error rejection ↔ check = .error rejection := by
  cases check with
  | error other => simp [Except.map]
  | ok found => simp [Except.map]

theorem map_map (check : Except Rejection α) (f : α → β) (g : β → γ) :
    (check.map f).map g = check.map (g ∘ f) := by
  cases check <;> rfl

end QueryGate
