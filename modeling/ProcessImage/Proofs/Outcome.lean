/-!
# Operations that may be refused

An operation yields an item or a fault.  The lemmas below take successful
sequences of operations apart, so that no other proof has to unfold how they
are chained.
-/

namespace ProcessImage.Outcome

universe u v

variable {ε : Type u} {α β : Type v}

@[simp]
theorem ok_bind (item : α) (next : α → Except ε β) : (Except.ok item >>= next) = next item :=
  rfl

@[simp]
theorem error_bind (fault : ε) (next : α → Except ε β) :
    (Except.error fault >>= next) = .error fault :=
  rfl

@[simp]
theorem pure_eq_ok (item : α) : (pure item : Except ε α) = .ok item :=
  rfl

/-- A sequence succeeds exactly when its first part does and the rest succeeds
on what that yields. -/
theorem bind_eq_ok_iff {first : Except ε α} {next : α → Except ε β} {result : β} :
    (first >>= next) = .ok result ↔ ∃ item, first = .ok item ∧ next item = .ok result := by
  cases first with
  | ok item => simp
  | error fault => simp

/-- A sequence fails where its first part or the rest does. -/
theorem bind_eq_error_iff {first : Except ε α} {next : α → Except ε β} {fault : ε} :
    (first >>= next) = .error fault ↔
      first = .error fault ∨ ∃ item, first = .ok item ∧ next item = .error fault := by
  cases first with
  | ok item => simp
  | error fault => simp

/-- Mapping the outcome of a sequence maps that of its last part. -/
theorem map_bind {γ : Type v} (first : Except ε α) (next : α → Except ε β) (change : β → γ) :
    (first >>= next).map change = first >>= fun item => (next item).map change := by
  cases first <;> rfl

/-- A mapped outcome is a success exactly when the outcome is one. -/
theorem map_eq_ok_iff {outcome : Except ε α} {change : α → β} {result : β} :
    outcome.map change = .ok result ↔ ∃ item, outcome = .ok item ∧ change item = result := by
  cases outcome with
  | ok item => simp [Except.map]
  | error fault => simp [Except.map]

/-! ## Programs in place -/

/-- A program in place goes on with what its first part yields in the state that this
part leaves, unless it failed. -/
theorem program_bind_apply {ε σ α β : Type} (first : EStateM ε σ α)
    (next : α → EStateM ε σ β) (state : σ) :
    (first >>= next) state =
      match first state with
      | .ok item after => next item after
      | .error fault after => .error fault after := by
  change EStateM.bind first next state = _
  unfold EStateM.bind
  cases first state <;> rfl

end ProcessImage.Outcome
