import ProcessImage.Cache

/-!
# Callbacks that do not write

The calls of a station leave the state of a cache: a callback cannot drop the
value there, and what it writes comes back by way of the channel.  A cache whose
callbacks have no write left stays one through all calls.
-/

namespace ProcessImage.Cache

variable {cache : Cache}

/-- A call by which the value is kept changes no state. -/
@[simp]
theorem state_call_keep (cache : Cache) (snapshot : Snapshot) (callback : Nat × Reaction) :
    (cache.call keep snapshot callback).1.state = cache.state := by
  rcases callback with ⟨number, reaction⟩
  cases reaction with
  | clear =>
      unfold Cache.call react
      cases snapshot.value.isEmpty <;> rfl
  | _ => rfl

@[simp]
theorem state_advance (cache : Cache) (number : Nat) :
    (cache.advance number).state = cache.state :=
  rfl

/-- Whether no callback has a write left. -/
def Quiet (cache : Cache) : Prop :=
  ∀ callback ∈ cache.callbacks, callback.2.writesLeft = 0

/-- A new cache has no callbacks. -/
theorem quiet_new : Quiet {} := by
  intro callback inside
  cases inside

theorem Quiet.planned? (quiet : cache.Quiet) (number : Nat) : cache.planned? number = none := by
  unfold Cache.planned?
  cases found : cache.callbacks.lookup number with
  | none => rfl
  | some reaction =>
      obtain ⟨before, after, callbacks, _⟩ := List.lookup_eq_some_iff.mp found
      have none := quiet (number, reaction) (by simp [callbacks])
      cases reaction with
      | write plan =>
          cases plan with
          | nil => rfl
          | cons entry rest => simp [Reaction.writesLeft] at none
      | _ => rfl

theorem Quiet.unsubscribe (quiet : cache.Quiet) (number : Nat) :
    (cache.unsubscribe number).1.Quiet := by
  intro callback inside
  exact quiet callback (List.mem_filter.mp inside).1

theorem Quiet.advance (quiet : cache.Quiet) (number : Nat) : (cache.advance number).Quiet := by
  intro callback inside
  obtain ⟨⟨other, reaction⟩, isCallback, rfl⟩ := List.mem_map.mp inside
  have none := quiet (other, reaction) isCallback
  by_cases same : other = number
  · cases reaction with
    | write plan =>
        cases plan with
        | nil => simp [Reaction.advance, Reaction.writesLeft]
        | cons entry rest => simp [Reaction.writesLeft] at none
    | _ => simp [Reaction.advance, Reaction.writesLeft]
  · simpa [same] using none

theorem Quiet.subscribe (quiet : cache.Quiet) {reaction : Reaction}
    (none : reaction.writesLeft = 0) : (cache.subscribe reaction).1.Quiet := by
  intro callback inside
  rcases List.mem_append.mp inside with old | new
  · exact quiet callback old
  · rw [List.mem_singleton.mp new]
    exact none

theorem Quiet.call (quiet : cache.Quiet) (snapshot : Snapshot) (callback : Nat × Reaction) :
    (cache.call keep snapshot callback).1.Quiet := by
  rcases callback with ⟨number, reaction⟩
  cases reaction with
  | removeSelf => exact quiet.unsubscribe number
  | remove target => exact quiet.unsubscribe target
  | add => exact quiet.subscribe rfl
  | clear =>
      unfold Cache.call react
      cases snapshot.value.isEmpty <;> exact quiet
  | _ => exact quiet

end ProcessImage.Cache
