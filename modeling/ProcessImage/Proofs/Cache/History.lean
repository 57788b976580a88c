import Mathlib.Data.List.DropRight
import ProcessImage.Cache

/-!
# Histories of a cache

What a cache holds is a function of the changes it has received.  Connections
and deliveries do not mix: whether the cache is connected is told by the last
connection event alone, and the value, its validity and the metadata are told by
the updates and by the times the value was dropped.

A cache counts a value as delivered exactly while the value it retains is not
empty.  An update of single places cannot break this, as a place below the top
of a value never empties the whole.
-/

namespace ProcessImage

/-! ## Adoption keeps a value present -/

namespace Value

theorem isEmpty_iff {value : Value} : value.isEmpty = true ↔ value = .empty := by
  cases value <;> simp [isEmpty]

/-- A value with a new value below its top is present. -/
theorem isEmpty_of_set? {value new result : Value} {path : Path} (below : path ≠ [])
    (changed : value.set? new path = some result) : result.isEmpty = false := by
  cases path with
  | nil => exact absurd rfl below
  | cons name rest =>
      cases value with
      | struct structName fields =>
          obtain ⟨fields', _, rfl⟩ := Option.map_eq_some_iff.mp changed
          rfl
      | _ => cases changed

theorem isEmpty_adoptAt {value source : Value} {path : Path} (below : path ≠ [])
    (present : value.isEmpty = false) : (value.adoptAt source path).isEmpty = false := by
  unfold adoptAt
  cases changed : (source.get? path).bind (value.set? · path) with
  | none => exact present
  | some result =>
      obtain ⟨part, _, set⟩ := Option.bind_eq_some_iff.mp changed
      exact isEmpty_of_set? below set

/-- A value that adopts places below its top stays present. -/
theorem isEmpty_adopt {value source : Value} {paths : List Path} (below : ∀ path ∈ paths, path ≠ [])
    (present : value.isEmpty = false) : (value.adopt source paths).isEmpty = false := by
  induction paths generalizing value with
  | nil => exact present
  | cons path rest ih =>
      rw [List.forall_mem_cons] at below
      exact ih below.2 (isEmpty_adoptAt below.1 present)

end Value

namespace Cache

/-! ## Sorting changes -/

namespace Change

/-- What a change tells about the connection. -/
def connection? : Change → Option Bool
  | connected => some true
  | disconnected => some false
  | cleared | updated .. => none

/-- Whether a change concerns the value and what comes with it. -/
def isDelivery : Change → Bool
  | cleared | updated .. => true
  | connected | disconnected => false

/-- Whether a change drops the value. -/
def isClear : Change → Bool
  | cleared => true
  | _ => false

/-- The metadata that come with a change. -/
def metadata? : Change → Option Metadata
  | updated _ _ metadata => some metadata
  | _ => none

end Change

/-- The items of one sort that updates carried since the value was dropped, or
since the beginning, the oldest first. -/
def carried {α : Type} (item : Metadata → Option α) (changes : List Change) : List α :=
  (changes.rtakeWhile fun change => !change.isClear).filterMap fun change =>
    change.metadata?.bind item

/-! ## Runs -/

/-- The cache after changes, one after the other. -/
def receiveAll (changes : List Change) (cache : Cache) : Cache :=
  changes.foldl (fun cache change => (cache.receive change).1) cache

theorem receiveAll_concat (changes : List Change) (change : Change) (cache : Cache) :
    cache.receiveAll (changes ++ [change]) = ((cache.receiveAll changes).receive change).1 := by
  simp [receiveAll]

/-- Without callbacks a change does to a cache what it does to its state. -/
theorem receive_of_callbacks_eq_nil {cache : Cache} (none : cache.callbacks = [])
    (change : Change) :
    (cache.receive change).1 = { cache with state := cache.state.after change } := by
  simp [receive, receiveWith, none, callAll]

/-- A cache without callbacks keeps none. -/
theorem callbacks_receiveAll {cache : Cache} (none : cache.callbacks = [])
    (changes : List Change) : (cache.receiveAll changes).callbacks = [] := by
  induction changes using List.reverseRecOn with
  | nil => exact none
  | append_singleton changes change ih =>
      rw [receiveAll_concat, receive_of_callbacks_eq_nil ih]
      exact ih

/-- The state of a cache without callbacks follows the changes. -/
theorem state_receiveAll_concat {cache : Cache} (none : cache.callbacks = [])
    (changes : List Change) (change : Change) :
    (cache.receiveAll (changes ++ [change])).state =
      (cache.receiveAll changes).state.after change := by
  rw [receiveAll_concat, receive_of_callbacks_eq_nil (callbacks_receiveAll none changes)]

namespace State

/-! ## What one change keeps -/

/-- A state in which exactly a present value counts as delivered. -/
def Faithful (state : State) : Prop :=
  state.valid = !state.snapshot.value.isEmpty

variable {state : State}

/-- An update makes any state faithful. -/
theorem faithful_update (value : Value) (changed : List Path) (metadata : Metadata) :
    (state.update value changed metadata).Faithful := by
  unfold State.update Faithful
  split
  case isTrue merges =>
    simp only [isPartial, Bool.and_eq_true, List.all_eq_true, Bool.not_eq_true'] at merges
    obtain ⟨⟨⟨⟨valid, present⟩, _⟩, _⟩, places⟩ := merges
    have below : ∀ path ∈ changed, path ≠ [] := by
      rintro path inside rfl
      simpa using places [] inside
    rw [valid, Value.isEmpty_adopt below present]
    rfl
  case isFalse => rfl

/-- Every change keeps a state faithful. -/
theorem Faithful.after (faithful : state.Faithful) (change : Change) :
    (state.after change).Faithful := by
  cases change with
  | updated value changed metadata => exact faithful_update value changed metadata
  | cleared => rfl
  | connected => exact faithful
  | disconnected => exact faithful

/-- The part of a state that outlives a disconnection. -/
def retained (state : State) : Value × Bool × Metadata :=
  (state.snapshot.value, state.valid, state.snapshot.metadata)

theorem retained_update (value : Value) (changed : List Path) (metadata : Metadata) :
    (state.update value changed metadata).retained =
      if state.isPartial value changed then
        (state.snapshot.value.adopt value changed, state.valid,
          state.snapshot.metadata.overlay metadata)
      else (value, !value.isEmpty, state.snapshot.metadata.overlay metadata) := by
  unfold update
  split <;> rfl

/-- A connection event leaves all that is retained. -/
theorem retained_after_of_connection {change : Change} (connection : change.isDelivery = false) :
    (state.after change).retained = state.retained := by
  cases change <;> first | rfl | cases connection

/-- A delivery reads nothing but what is retained. -/
theorem retained_after_congr {other : State} (same : state.retained = other.retained)
    (change : Change) : (state.after change).retained = (other.after change).retained := by
  rcases state with ⟨⟨value, connected, metadata⟩, valid⟩
  rcases other with ⟨⟨value', connected', metadata'⟩, valid'⟩
  simp only [retained, Prod.mk.injEq] at same
  obtain ⟨rfl, rfl, rfl⟩ := same
  cases change with
  | updated new changed added =>
      rw [after, after, retained_update, retained_update]
      rfl
  | _ => rfl

/-- The connection after a change is the one that the change tells, if it tells
one. -/
theorem isConnected_after (change : Change) :
    (state.after change).isConnected = change.connection?.getD state.isConnected := by
  cases change with
  | updated value changed metadata =>
      simp only [after, update, isConnected, Change.connection?]
      split <;> rfl
  | _ => rfl

/-- The metadata after an update are overlaid with those of the update. -/
theorem metadata_update (value : Value) (changed : List Path) (metadata : Metadata) :
    (state.update value changed metadata).snapshot.metadata =
      state.snapshot.metadata.overlay metadata := by
  unfold update
  split <;> rfl

end State

/-! ## What a history leaves -/

variable {cache : Cache} {changes : List Change}

theorem faithful_receiveAll (none : cache.callbacks = []) (faithful : cache.state.Faithful) :
    (cache.receiveAll changes).state.Faithful := by
  induction changes using List.reverseRecOn with
  | nil => exact faithful
  | append_singleton changes change ih =>
      rw [state_receiveAll_concat none]
      exact ih.after change

theorem isConnected_receiveAll (none : cache.callbacks = []) :
    (cache.receiveAll changes).state.isConnected =
      (changes.filterMap Change.connection?).getLast?.getD cache.state.isConnected := by
  induction changes using List.reverseRecOn with
  | nil => rfl
  | append_singleton changes change ih =>
      rw [state_receiveAll_concat none, State.isConnected_after, ih]
      cases told : change.connection? <;> simp [told]

/-- What is retained after a history is retained after its deliveries alone. -/
theorem retained_receiveAll_filter (none : cache.callbacks = []) :
    (cache.receiveAll changes).state.retained =
      (cache.receiveAll (changes.filter Change.isDelivery)).state.retained := by
  induction changes using List.reverseRecOn with
  | nil => rfl
  | append_singleton changes change ih =>
      rw [state_receiveAll_concat none, List.filter_append]
      cases delivery : change.isDelivery with
      | false => simpa [delivery, State.retained_after_of_connection delivery] using ih
      | true =>
          rw [List.filter_cons_of_pos delivery, List.filter_nil, state_receiveAll_concat none]
          exact State.retained_after_congr ih change

/-- An item of the metadata is the last one of its sort since the value was
dropped, when overlaying does to this item what it does to all. -/
theorem metadata_receiveAll {α : Type} (item : Metadata → Option α)
    (absent : item {} = none)
    (overlay : ∀ known new : Metadata, item (known.overlay new) = (item new <|> item known))
    (none : cache.callbacks = []) (fresh : cache.state.snapshot.metadata = {}) :
    item (cache.receiveAll changes).state.snapshot.metadata = (carried item changes).getLast? := by
  induction changes using List.reverseRecOn with
  | nil => simpa [receiveAll, fresh, carried] using absent
  | append_singleton changes change ih =>
      rw [state_receiveAll_concat none]
      unfold carried at ih ⊢
      rw [List.rtakeWhile_concat]
      cases change with
      | cleared => simpa [State.after, Change.isClear] using absent
      | updated value changed metadata =>
          rw [State.after, State.metadata_update, overlay, ih]
          cases told : item metadata <;> simp [Change.isClear, Change.metadata?, told]
      | connected => simpa [State.after, Change.isClear, Change.metadata?] using ih
      | disconnected => simpa [State.after, Change.isClear, Change.metadata?] using ih

/-- What a state shows of the changes that led to it from nothing. -/
structure State.Reflects (state : State) (changes : List Change) : Prop where
  valid_iff : state.valid = true ↔ state.snapshot.value ≠ .empty
  hasValidValue_iff : state.hasValidValue = true ↔ state.value ≠ .empty
  /-- The connection is as the last connection event tells. -/
  isConnected_eq : state.isConnected = (changes.filterMap Change.connection?).getLast?.getD false
  /-- Connection events can be added, left out or moved without effect on the
  rest. -/
  retained_eq : ∀ others, others.filter Change.isDelivery = changes.filter Change.isDelivery →
    (receiveAll others {}).state.retained = state.retained
  timestamp_eq : state.snapshot.metadata.timestamp = (carried Metadata.timestamp changes).getLast?
  status_eq : state.snapshot.metadata.status = (carried Metadata.status changes).getLast?
  severity_eq : state.snapshot.metadata.severity = (carried Metadata.severity changes).getLast?

/-- A new cache reflects the changes it receives: a value is valid exactly when
it is present, the last connection event tells the connection, deliveries alone
tell what is retained, and each item of the metadata is the last one that came
since the value was dropped. -/
theorem reflects_receiveAll (changes : List Change) :
    (receiveAll changes {}).state.Reflects changes := by
  have faithful : (receiveAll changes {}).state.Faithful := faithful_receiveAll rfl rfl
  have valid : (receiveAll changes {}).state.valid = true ↔
      (receiveAll changes {}).state.snapshot.value ≠ .empty := by
    rw [faithful, Bool.not_eq_true', ne_eq, ← Value.isEmpty_iff, Bool.not_eq_true]
  constructor
  case valid_iff => exact valid
  case hasValidValue_iff =>
    unfold State.hasValidValue State.value
    cases (receiveAll changes {}).state.isConnected with
    | true => simpa using valid
    | false => simp
  case isConnected_eq => exact isConnected_receiveAll rfl
  case retained_eq =>
    intro others same
    rw [retained_receiveAll_filter rfl, same, ← retained_receiveAll_filter rfl]
  case timestamp_eq => exact metadata_receiveAll Metadata.timestamp rfl (fun _ _ => rfl) rfl rfl
  case status_eq => exact metadata_receiveAll Metadata.status rfl (fun _ _ => rfl) rfl rfl
  case severity_eq => exact metadata_receiveAll Metadata.severity rfl (fun _ _ => rfl) rfl rfl

/-- A status outlives an update without one, and not the time the value is
dropped. -/
example :
    (receiveAll [.updated .empty [] { status := some 3 }, .connected, .updated .empty [] {}]
      {}).state.snapshot.metadata.status = some 3 ∧
    (receiveAll [.updated .empty [] { status := some 3 }, .cleared, .connected]
      {}).state.snapshot.metadata.status = none := by
  decide

end Cache

end ProcessImage
