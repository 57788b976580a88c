import ProcessImage.Proofs.Cache.History
import ProcessImage.Proofs.Value.Interchange

/-!
# Merged updates

An update of places is merged into a valid value where all of the places exist in both
values, and replaces the value where one is missing.  A merge assigns the places one
after the other, each in what the assignments before it have left.  None of these
assignments can fail, whatever places lie above or below others, and their order and
their repetition do not count.
-/

namespace ProcessImage

/-- A value with a place below its top is present. -/
theorem Value.isEmpty_of_hasPath {value : Value} {place : Path} (below : place ≠ [])
    (known : value.hasPath place = true) : value.isEmpty = false := by
  cases place with
  | nil => exact absurd rfl below
  | cons name rest =>
      obtain ⟨part, isPart, _⟩ := (hasPath_cons ..).mp known
      obtain ⟨structName, before, after, rfl, _⟩ := exists_struct_of_field? isPart
      rfl

namespace Cache

/-! ## What a merge leaves -/

/-- What is known of a value into which places of a new value were merged. -/
structure Merges (old new : Value) (changed : List Path) (merged : Value) : Prop where
  /-- Each listed place is as in the new value. -/
  listed : ∀ place ∈ changed, merged.get? place = new.get? place
  /-- A place that lies neither above nor below a listed one is as it was. -/
  unlisted : ∀ elsewhere, (∀ place ∈ changed, ¬ place <+: elsewhere ∧ ¬ elsewhere <+: place) →
    merged.get? elsewhere = old.get? elsewhere
  present : merged ≠ .empty
  /-- Each assignment succeeds on what those before it have left. -/
  assigned : ∀ before place after, changed = before ++ place :: after →
    ∃ part, new.get? place = some part ∧
      (old.adopt new before).set? part place = some (old.adopt new (before ++ [place]))

/-- Adopting places that exist on both sides merges them. -/
theorem merges_adopt {old new : Value} {changed : List Path} (listed : changed ≠ [])
    (below : ∀ place ∈ changed, place ≠ [])
    (found : ∀ place ∈ changed, new.hasPath place = true)
    (known : ∀ place ∈ changed, old.hasPath place = true) :
    Merges old new changed (old.adopt new changed) := by
  constructor
  case listed => exact fun place => Value.get?_adopt known found
  case unlisted => exact fun elsewhere => Value.get?_adopt_of_apart
  case present =>
    obtain ⟨place, inside⟩ := List.exists_mem_of_ne_nil changed listed
    have present := Value.isEmpty_of_hasPath (below place inside) (known place inside)
    rw [ne_eq, ← Value.isEmpty_iff, Value.isEmpty_adopt below present]
    exact Bool.false_ne_true
  case assigned =>
    rintro before place after rfl
    rw [List.forall_mem_append, List.forall_mem_cons] at found known
    have stays := Value.hasPath_adopt known.1 found.1 known.2.1 found.2.1
    obtain ⟨part, isPart⟩ := Option.isSome_iff_exists.mp found.2.1
    obtain ⟨result, set⟩ := Value.exists_set?_of_hasPath stays part
    refine ⟨part, isPart, ?_⟩
    rw [Value.adopt_append, Value.adopt_cons, Value.adopt_nil, Value.adoptAt, isPart,
      Option.bind_some, set]
    rfl

/-! ## Updates -/

namespace State

variable {state : State} {value : Value} {changed : List Path}

/-- An update of places below the top of a valid value is merged exactly where they
exist on both sides. -/
theorem isPartial_iff (valid : state.valid = true) (listed : changed ≠ [])
    (below : ∀ place ∈ changed, place ≠ []) :
    state.isPartial value changed = true ↔
      ∀ place ∈ changed,
        value.hasPath place = true ∧ state.snapshot.value.hasPath place = true := by
  simp only [isPartial, Bool.and_eq_true, List.all_eq_true]
  constructor
  · rintro ⟨_, places⟩ place inside
    exact ⟨(places place inside).1.2, (places place inside).2⟩
  · intro places
    obtain ⟨place, inside⟩ := List.exists_mem_of_ne_nil changed listed
    have oldPresent := Value.isEmpty_of_hasPath (below place inside) (places place inside).2
    have newPresent := Value.isEmpty_of_hasPath (below place inside) (places place inside).1
    refine ⟨by simp [valid, oldPresent, newPresent, listed], fun place inside => ?_⟩
    exact ⟨⟨by simp [below place inside], (places place inside).1⟩, (places place inside).2⟩

/-- Only the set of the places decides whether an update is merged. -/
theorem isPartial_congr {others : List Path}
    (same : ∀ place, place ∈ others ↔ place ∈ changed) :
    state.isPartial value others = state.isPartial value changed := by
  have sameEmpty : others.isEmpty = changed.isEmpty := by
    rw [Bool.eq_iff_iff, List.isEmpty_iff, List.isEmpty_iff, List.eq_nil_iff_forall_not_mem,
      List.eq_nil_iff_forall_not_mem]
    exact forall_congr' fun place => not_congr (same place)
  have sameAll (property : Path → Bool) : others.all property = changed.all property := by
    rw [Bool.eq_iff_iff, List.all_eq_true, List.all_eq_true]
    exact forall_congr' fun place => imp_congr_left (same place)
  rw [isPartial, isPartial, sameEmpty, sameAll]

/-- Only the set of the places counts for an update. -/
theorem update_congr {others : List Path} (same : ∀ place, place ∈ others ↔ place ∈ changed)
    (metadata : Metadata) :
    state.update value others metadata = state.update value changed metadata := by
  simp only [update, isPartial_congr same, Value.adopt_congr same]

theorem value_update (metadata : Metadata) :
    (state.update value changed metadata).snapshot.value =
      if state.isPartial value changed then state.snapshot.value.adopt value changed
      else value := by
  unfold update
  split <;> rfl

end State

/-! ## Callbacks that leave the value -/

/-- A callback that drops no value changes no state. -/
theorem state_call_of_ne_clear (clear : Cache → Cache × History) (snapshot : Snapshot)
    {callback : Nat × Reaction} (keeps : callback.2 ≠ .clear) (cache : Cache) :
    (cache.call clear snapshot callback).1.state = cache.state := by
  rcases callback with ⟨number, reaction⟩
  cases reaction with
  | clear => exact absurd rfl keeps
  | _ => rfl

theorem state_callAll_of_ne_clear (clear : Cache → Cache × History) (snapshot : Snapshot)
    {callbacks : List (Nat × Reaction)} (keep : ∀ callback ∈ callbacks, callback.2 ≠ .clear)
    (cache : Cache) : (callAll clear snapshot callbacks cache).1.state = cache.state := by
  induction callbacks generalizing cache with
  | nil => rfl
  | cons callback rest ih =>
      rw [List.forall_mem_cons] at keep
      exact (ih keep.2 _).trans (state_call_of_ne_clear clear snapshot keep.1 cache)

/-- Without callbacks that drop it, what a change leaves stays. -/
theorem state_receive_of_ne_clear {cache : Cache}
    (keep : ∀ callback ∈ cache.callbacks, callback.2 ≠ .clear) (change : Change) :
    (cache.receive change).1.state = cache.state.after change :=
  state_callAll_of_ne_clear _ _ keep _

/-! ## Merging -/

/-- An update of places below the top of a valid value merges them, if all of them exist
in the old value and in the new one, and otherwise replaces the value.  Its effect is the
same for any list with the same places, and it stays until a callback drops the value. -/
theorem update_merges {cache : Cache} (valid : cache.state.valid = true) (value : Value)
    {changed : List Path} (listed : changed ≠ []) (below : ∀ place ∈ changed, place ≠ [])
    (metadata : Metadata) :
    let old := cache.state.snapshot.value
    let after := cache.state.after (.updated value changed metadata)
    ((∀ place ∈ changed, value.hasPath place = true ∧ old.hasPath place = true) →
      Merges old value changed after.snapshot.value) ∧
    ((∃ place ∈ changed, ¬ (value.hasPath place = true ∧ old.hasPath place = true)) →
      after.snapshot.value = value) ∧
    (∀ others, (∀ place, place ∈ others ↔ place ∈ changed) →
      cache.state.after (.updated value others metadata) = after) ∧
    ((∀ callback ∈ cache.callbacks, callback.2 ≠ .clear) →
      (cache.receive (.updated value changed metadata)).1.state = after) := by
  intro old after
  have merges_iff : cache.state.isPartial value changed = true ↔ _ :=
    State.isPartial_iff valid listed below
  have isValue : after.snapshot.value = _ := State.value_update metadata
  refine ⟨fun places => ?_, fun ⟨place, inside, missing⟩ => ?_, fun others same => ?_,
    fun keep => state_receive_of_ne_clear keep _⟩
  · rw [isValue, if_pos (merges_iff.mpr places)]
    exact merges_adopt listed below (fun place inside => (places place inside).1)
      (fun place inside => (places place inside).2)
  · rw [isValue, if_neg fun merges => missing (merges_iff.mp merges place inside)]
  · exact State.update_congr same metadata

/-- A limit is merged before the limits it belongs to and after them, where a second
field of one name stays as it was. -/
theorem update_merges_limits :
    let number := fun shown => Value.scalar (.string shown)
    let pump := fun low high speed => Value.struct none
      [("limits", .struct none [("low", number low), ("high", number high)]),
        ("speed", number speed), ("limits", number "spare")]
    let cache : Cache := { state := { snapshot := { value := pump "1" "9" "5" }, valid := true } }
    let change := fun changed => Change.updated (pump "2" "8" "6") changed {}
    cache.state.valid = true ∧
      (∀ place ∈ [["limits", "low"], ["limits"]], place ≠ []) ∧
      Merges (pump "1" "9" "5") (pump "2" "8" "6") [["limits", "low"], ["limits"]]
        (pump "2" "8" "5") ∧
      cache.state.after (change [["limits"], ["limits", "low"], ["limits"]]) =
        cache.state.after (change [["limits", "low"], ["limits"]]) := by
  intro number pump cache change
  have below : ∀ place ∈ [["limits", "low"], ["limits"]], place ≠ [] := by simp
  have valid : cache.state.valid = true := rfl
  obtain ⟨merges, _, same, _⟩ :=
    update_merges valid (pump "2" "8" "6") (List.cons_ne_nil _ _) below {}
  refine ⟨valid, below, merges ?_, same _ fun place => ?_⟩
  · rintro place (_ | ⟨_, _ | ⟨_, ⟨⟩⟩⟩) <;> exact ⟨rfl, rfl⟩
  · simp only [List.mem_cons, List.not_mem_nil, or_false]
    tauto

end Cache

end ProcessImage
