import Mathlib.Algebra.Order.BigOperators.Group.List
import Mathlib.Algebra.Order.Ring.Nat
import ProcessImage.Cache

/-!
# Spending planned writes

Each call of a callback uses up an entry of its plan, so a call that is about to
write leaves fewer writes than before.  No call adds a write.
-/

namespace ProcessImage.Cache

variable {cache : Cache} {number : Nat} {value : Value}

namespace Reaction

theorem writesLeft_advance (reaction : Reaction) :
    reaction.advance.writesLeft = reaction.writesLeft - 1 := by
  cases reaction <;> simp [advance, writesLeft]

theorem writesLeft_pos {reaction : Reaction} (planned : reaction.planned? = some value) :
    0 < reaction.writesLeft := by
  cases reaction with
  | write plan =>
      cases plan with
      | nil => cases planned
      | cons entry rest => simp [writesLeft]
  | _ => cases planned

end Reaction

/-- A callback with a planned write has a write left. -/
theorem exists_of_planned? (planned : cache.planned? number = some value) :
    ∃ reaction, (number, reaction) ∈ cache.callbacks ∧ 0 < reaction.writesLeft := by
  obtain ⟨reaction, found, isPlanned⟩ := Option.bind_eq_some_iff.mp planned
  obtain ⟨before, after, callbacks, _⟩ := List.lookup_eq_some_iff.mp found
  exact ⟨reaction, by simp [callbacks], Reaction.writesLeft_pos isPlanned⟩

theorem writesLeft_eq_sum (cache : Cache) :
    cache.writesLeft = (cache.callbacks.map (·.2.writesLeft)).sum := by
  simp [writesLeft, List.sum_eq_foldr, List.foldr_map]

/-! ## Calls of one callback -/

theorem writesLeft_advance_eq_sum (cache : Cache) (number : Nat) :
    (cache.advance number).writesLeft = (cache.callbacks.map fun callback =>
      callback.2.writesLeft - if callback.1 = number then 1 else 0).sum := by
  rw [writesLeft_eq_sum, advance, List.map_map]
  congr 1
  apply List.map_congr_left
  rintro ⟨other, reaction⟩ _
  by_cases same : other = number <;> simp [same, Reaction.writesLeft_advance]

theorem writesLeft_advance_le (cache : Cache) (number : Nat) :
    (cache.advance number).writesLeft ≤ cache.writesLeft := by
  rw [writesLeft_advance_eq_sum, writesLeft_eq_sum]
  exact List.sum_le_sum fun _ _ => Nat.sub_le ..

/-- A planned write is used up. -/
theorem writesLeft_advance_lt (planned : cache.planned? number = some value) :
    (cache.advance number).writesLeft < cache.writesLeft := by
  obtain ⟨reaction, isCallback, positive⟩ := exists_of_planned? planned
  rw [writesLeft_advance_eq_sum, writesLeft_eq_sum]
  refine List.sum_lt_sum _ _ (fun _ _ => Nat.sub_le ..) ⟨_, isCallback, ?_⟩
  simp only [if_true]
  omega

theorem writesLeft_unsubscribe_eq_sum (cache : Cache) (number : Nat) :
    (cache.unsubscribe number).1.writesLeft = (cache.callbacks.map fun callback =>
      if callback.1 = number then 0 else callback.2.writesLeft).sum := by
  rw [writesLeft_eq_sum, unsubscribe]
  induction cache.callbacks with
  | nil => rfl
  | cons callback rest ih =>
      by_cases same : callback.1 = number <;> simpa [same] using ih

theorem writesLeft_unsubscribe_le (cache : Cache) (number : Nat) :
    (cache.unsubscribe number).1.writesLeft ≤ cache.writesLeft := by
  rw [writesLeft_unsubscribe_eq_sum, writesLeft_eq_sum]
  exact List.sum_le_sum fun _ _ => by split <;> omega

/-- A planned write is lost with its callback. -/
theorem writesLeft_unsubscribe_lt (planned : cache.planned? number = some value) :
    (cache.unsubscribe number).1.writesLeft < cache.writesLeft := by
  obtain ⟨reaction, isCallback, positive⟩ := exists_of_planned? planned
  rw [writesLeft_unsubscribe_eq_sum, writesLeft_eq_sum]
  refine List.sum_lt_sum _ _ (fun _ _ => by split <;> omega) ⟨_, isCallback, ?_⟩
  simpa using positive

theorem planned?_unsubscribe {target : Nat} (ne : number ≠ target) :
    (cache.unsubscribe target).1.planned? number = cache.planned? number := by
  unfold planned? unsubscribe
  congr 1
  induction cache.callbacks with
  | nil => rfl
  | cons callback rest ih =>
      rcases callback with ⟨other, reaction⟩
      by_cases same : other = target
      · simpa [same, List.lookup_cons, beq_false_of_ne ne] using ih
      · simp [same, List.lookup_cons, ih]

/-- A new callback that takes notice changes no plan. -/
theorem planned?_subscribe_record (planned : cache.planned? number = some value) :
    (cache.subscribe .record).1.planned? number = some value := by
  obtain ⟨reaction, found, isPlanned⟩ := Option.bind_eq_some_iff.mp planned
  simp [planned?, subscribe, List.lookup_append, found, isPlanned]

theorem writesLeft_subscribe_record (cache : Cache) :
    (cache.subscribe .record).1.writesLeft = cache.writesLeft := by
  simp [writesLeft_eq_sum, subscribe, Reaction.writesLeft]

/-- A call adds no write, and leaves a planned one unless it removes the callback. -/
theorem writesLeft_call (cache : Cache) (snapshot : Snapshot) (callback : Nat × Reaction) :
    (cache.call keep snapshot callback).1.writesLeft ≤ cache.writesLeft ∧
      ∀ value, cache.planned? callback.1 = some value →
        (cache.call keep snapshot callback).1.planned? callback.1 = some value ∨
        (cache.call keep snapshot callback).1.writesLeft < cache.writesLeft := by
  rcases callback with ⟨number, reaction⟩
  cases reaction with
  | removeSelf =>
      exact ⟨writesLeft_unsubscribe_le ..,
        fun _ planned => .inr (writesLeft_unsubscribe_lt planned)⟩
  | remove target =>
      refine ⟨writesLeft_unsubscribe_le .., fun _ planned => ?_⟩
      by_cases same : number = target
      · subst same
        exact .inr (writesLeft_unsubscribe_lt planned)
      · exact .inl ((planned?_unsubscribe same).trans planned)
  | add =>
      exact ⟨(writesLeft_subscribe_record cache).le,
        fun _ planned => .inl (planned?_subscribe_record planned)⟩
  | clear =>
      unfold call react
      cases snapshot.value.isEmpty <;> exact ⟨Nat.le_refl _, fun _ => .inl⟩
  | _ => exact ⟨Nat.le_refl _, fun _ => .inl⟩

/-- A call and the advance after it add no write, and they use up a planned one. -/
theorem writesLeft_advance_call (cache : Cache) (snapshot : Snapshot)
    (callback : Nat × Reaction) :
    ((cache.call keep snapshot callback).1.advance callback.1).writesLeft ≤ cache.writesLeft ∧
      ∀ value, cache.planned? callback.1 = some value →
        ((cache.call keep snapshot callback).1.advance callback.1).writesLeft <
          cache.writesLeft := by
  obtain ⟨called, planned⟩ := cache.writesLeft_call snapshot callback
  have advanced := (cache.call keep snapshot callback).1.writesLeft_advance_le callback.1
  refine ⟨advanced.trans called, fun value isPlanned => ?_⟩
  rcases planned value isPlanned with still | fewer
  · exact (writesLeft_advance_lt still).trans_le called
  · exact advanced.trans_lt fewer

end ProcessImage.Cache
