import ProcessImage.Proofs.Station.Growth

/-!
# Pending writes

Each write that the network takes comes with its own small life: it is settled at once
or held until the next release, and its outcome is there to be taken once.  Nothing
else that happens at the station touches it, be it other writes, the waits for them, or
a change of the mode.  A release settles all writes that were taken in hold mode since
the release before, and yields how many these were.
-/

namespace ProcessImage

namespace Network

/-- How far the write of a number has come, if it was taken. -/
def progress? (network : Network) (number : Nat) : Option Progress :=
  network.writes[number]?.map (·.progress)

namespace Progress

variable {number : Nat} {operation : Operation} {operations : List Operation}
  {progress : Progress} {outcome : Outcome}

/-- How far the write of a number has come after an operation. -/
def after (number : Nat) (progress : Progress) : Operation → Progress
  | .release outcome => progress.release outcome
  | .await write => if write = number then progress.afterWait else progress
  | _ => progress

/-- How far the write of a number has come after operations, one after the other. -/
def afterAll (number : Nat) (progress : Progress) (operations : List Operation) : Progress :=
  operations.foldl (after number) progress

theorem afterAll_append (number : Nat) (progress : Progress) (early late : List Operation) :
    progress.afterAll number (early ++ late) =
      (progress.afterAll number early).afterAll number late :=
  List.foldl_append

theorem afterAll_cons (number : Nat) (progress : Progress) (operation : Operation)
    (rest : List Operation) :
    progress.afterAll number (operation :: rest) =
      (progress.after number operation).afterAll number rest :=
  rfl

/-- A progress that each operation keeps is kept by all of them. -/
theorem afterAll_eq_self
    (keeps : ∀ operation ∈ operations, progress.after number operation = progress) :
    progress.afterAll number operations = progress := by
  induction operations with
  | nil => rfl
  | cons operation rest ih =>
      rw [List.forall_mem_cons] at keeps
      rw [afterAll_cons, keeps.1]
      exact ih keeps.2

/-- What is settled stays so until it is waited for. -/
theorem afterAll_settled (noWait : .await number ∉ operations) :
    (settled outcome).afterAll number operations = settled outcome := by
  apply afterAll_eq_self
  intro operation isOne
  cases operation with
  | await write =>
      apply if_neg
      rintro rfl
      exact noWait isOne
  | _ => rfl

/-- What is held stays so until the next release. -/
theorem afterAll_held (noRelease : ∀ outcome, .release outcome ∉ operations) :
    held.afterAll number operations = held := by
  apply afterAll_eq_self
  intro operation isOne
  cases operation with
  | await write => exact ite_self held
  | release outcome => exact absurd isOne (noRelease outcome)
  | _ => rfl

/-- What was taken stays so. -/
theorem afterAll_taken : taken.afterAll number operations = taken := by
  apply afterAll_eq_self
  intro operation _
  cases operation with
  | await write => exact ite_self taken
  | _ => rfl

theorem isHeld_eq_true_iff : progress.isHeld = true ↔ progress = held := by
  cases progress <;> simp [isHeld]

/-- What is not held is never held again. -/
theorem after_ne_held (isFree : progress ≠ held) (operation : Operation) :
    progress.after number operation ≠ held := by
  cases operation with
  | release outcome => cases progress <;> exact nofun
  | await write =>
      unfold after
      dsimp only
      split
      next => rwa [ne_eq, ← isHeld_eq_true_iff, isHeld_afterWait, isHeld_eq_true_iff]
      next => exact isFree
  | _ => exact isFree

theorem afterAll_ne_held (isFree : progress ≠ held) :
    progress.afterAll number operations ≠ held := by
  induction operations generalizing progress with
  | nil => exact isFree
  | cons operation rest ih => exact ih (after_ne_held isFree operation)

/-- A release leaves nothing held. -/
theorem afterAll_ne_held_of_mem (isReleased : .release outcome ∈ operations) :
    progress.afterAll number operations ≠ held := by
  obtain ⟨early, late, rfl⟩ := List.append_of_mem isReleased
  rw [afterAll_append, afterAll_cons]
  apply afterAll_ne_held
  -- Whatever came before, the release itself leaves the write settled or taken.
  cases progress.afterAll number early <;> exact nofun

/-- Who waits for what is not held leaves nothing to take. -/
theorem after_await (isFree : progress ≠ held) :
    progress.after number (.await number) = taken := by
  refine (if_pos rfl).trans ?_
  cases progress with
  | held => exact absurd rfl isFree
  | settled _ | taken => rfl

end Progress

end Network

namespace Station

open Network (Progress)

variable {station before after : Station} {number : Nat} {progress : Progress}
  {operations : List Operation}

/-! ## The progress of one write -/

theorem GrowsTo.progress? (grows : before.GrowsTo after)
    (isTaken : before.network.progress? number = some progress) :
    after.network.progress? number = some progress := by
  obtain ⟨added, isAdded, _⟩ := grows.writes
  obtain ⟨write, found, rfl⟩ := Option.map_eq_some_iff.mp isTaken
  obtain ⟨inside, _⟩ := List.getElem?_eq_some_iff.mp found
  unfold Network.progress?
  rw [isAdded, List.getElem?_append_left inside, found]
  rfl

/-- Who waits for a write is told how far it has come. -/
theorem await_outcome (isTaken : station.network.progress? number = some progress) :
    (station.await number).2 = progress.outcome := by
  obtain ⟨write, found, rfl⟩ := Option.map_eq_some_iff.mp isTaken
  simp [await, Network.await, found]

/-- Who waits for a write takes the outcome of no other one. -/
theorem progress?_await (isTaken : station.network.progress? number = some progress)
    (write : Nat) :
    (station.await write).1.network.progress? number =
      some (progress.after number (.await write)) := by
  obtain ⟨taken, found, rfl⟩ := Option.map_eq_some_iff.mp isTaken
  unfold await Network.await Network.progress?
  by_cases same : write = number
  · subst same
    have inside := (List.getElem?_eq_some_iff.mp found).1
    rw [found]
    simp [Progress.after, inside]
  · cases waited : station.network.writes[write]? <;> simp [Progress.after, found, same]

/-- An operation changes the progress of a write as if there were no other writes. -/
theorem progress?_operate (isTaken : station.network.progress? number = some progress)
    (operation : Operation) :
    (station.operate operation).network.progress? number =
      some (progress.after number operation) := by
  cases operation with
  | setMode mode => exact isTaken
  | await write => exact progress?_await isTaken write
  | release outcome =>
      obtain ⟨write, found, rfl⟩ := Option.map_eq_some_iff.mp isTaken
      simp [operate, release, Network.release, Network.progress?, Progress.after, found]
  | _ =>
      refine (growsTo_operate ?_ station).progress? isTaken
      trivial

theorem progress?_operated (isTaken : station.network.progress? number = some progress)
    (operations : List Operation) :
    (station.operated operations).network.progress? number =
      some (progress.afterAll number operations) := by
  induction operations generalizing station progress with
  | nil => exact isTaken
  | cons operation rest ih => exact ih (progress?_operate isTaken operation)

/-- What is waited for after operations. -/
theorem outcome_operated (isTaken : station.network.progress? number = some progress)
    (operations : List Operation) :
    ((station.operated operations).await number).2 =
      (progress.afterAll number operations).outcome :=
  await_outcome (progress?_operated isTaken operations)

/-! ## Held writes -/

/-- Number of writes that the network takes in the course of an operation to hold them. -/
def heldBy (station : Station) (operation : Operation) : Nat :=
  if station.network.mode = .hold then
    (station.operate operation).network.writes.length - station.network.writes.length
  else 0

/-- Number of writes that the network takes to hold them in the course of operations, one
after the other. -/
def heldByAll (station : Station) : List Operation → Nat
  | [] => 0
  | operation :: rest => station.heldBy operation + (station.operate operation).heldByAll rest

/-- Of the writes that were added, all are held or none is. -/
theorem GrowsTo.heldCount (grows : before.GrowsTo after) :
    after.network.heldCount = before.network.heldCount +
      if before.network.mode = .hold then
        after.network.writes.length - before.network.writes.length
      else 0 := by
  obtain ⟨added, isAdded, held⟩ := grows.writes
  unfold Network.heldCount
  rw [isAdded, List.countP_append, List.length_append, Nat.add_sub_cancel_left]
  congr 1
  split
  case isTrue holds =>
    rw [List.countP_eq_length]
    exact fun write isNew => (held write isNew).mpr holds
  case isFalse holds =>
    rw [List.countP_eq_zero]
    exact fun write isNew => mt (held write isNew).mp holds

/-- Who waits for a write releases none. -/
theorem heldCount_await (station : Station) (write : Nat) :
    (station.await write).1.network.heldCount = station.network.heldCount := by
  cases found : station.network.writes[write]? with
  | none => simp [await, Network.await, found]
  | some waited =>
      obtain ⟨inside, rfl⟩ := List.getElem?_eq_some_iff.mp found
      -- The writes differ, but not in whether they are held, and only that is counted.
      have same : (station.await write).1.network.writes.map (·.progress.isHeld) =
          station.network.writes.map (·.progress.isHeld) := by
        simp only [await, Network.await, found]
        apply List.ext_getElem (by simp)
        intro index _ _
        by_cases same : index = write
        · subst same
          simp [Progress.isHeld_afterWait]
        · simp [Ne.symm same]
      have counted := congrArg (List.countP id) same
      rwa [List.countP_map, List.countP_map] at counted

/-- What is not released stays held, and what is added in hold mode is held as well. -/
theorem heldCount_operate {operation : Operation}
    (noRelease : ∀ outcome, operation ≠ .release outcome) (station : Station) :
    (station.operate operation).network.heldCount =
      station.network.heldCount + station.heldBy operation := by
  cases operation with
  | release outcome => exact absurd rfl (noRelease outcome)
  | setMode mode => simp [heldBy, operate, setMode, Network.heldCount]
  | await write =>
      have length := congrArg List.length (log_await station write)
      rw [log, log, List.length_map, List.length_map] at length
      simp [heldBy, operate, heldCount_await, length]
  | _ =>
      refine (growsTo_operate ?_ station).heldCount
      trivial

theorem heldCount_operated (noRelease : ∀ outcome, .release outcome ∉ operations)
    (station : Station) :
    (station.operated operations).network.heldCount =
      station.network.heldCount + station.heldByAll operations := by
  induction operations generalizing station with
  | nil => rfl
  | cons operation rest ih =>
      have first := heldCount_operate
        (fun outcome same => noRelease outcome (same ▸ List.mem_cons_self)) station
      have others := ih (fun outcome isOne => noRelease outcome (List.mem_cons_of_mem _ isOne))
        (station.operate operation)
      rw [heldByAll, ← Nat.add_assoc, ← first]
      exact others

/-- A release leaves nothing held. -/
theorem heldCount_release (station : Station) (outcome : Network.Outcome) :
    (station.operate (.release outcome)).network.heldCount = 0 := by
  unfold Network.heldCount
  rw [List.countP_eq_zero]
  intro write isOne
  obtain ⟨old, _, rfl⟩ := List.mem_map.mp isOne
  cases old.progress <;> exact nofun

theorem operated_append (station : Station) (early late : List Operation) :
    station.operated (early ++ late) = (station.operated early).operated late :=
  List.foldl_append

/-! ## The life of a pending write -/

/-- What becomes of a write that the network took in a mode, whatever happens to the
station afterwards. -/
structure Pends (mode : Network.Mode) (after : Station) (number : Nat) : Prop where
  /-- An echoed write is a success to the first who waits for it. -/
  echoed : mode = .echo → ∀ later, .await number ∉ later →
    ((after.operated later).await number).2 = .success
  /-- A rejected write is interrupted. -/
  rejected : mode = .reject → ∀ later, .await number ∉ later →
    ((after.operated later).await number).2 = .interrupted
  /-- A held write times out as often as it is waited for, until the first release. -/
  held : mode = .hold → ∀ later, (∀ outcome, .release outcome ∉ later) →
    ((after.operated later).await number).2 = .timeout
  /-- It ends with the outcome of the first release, until that is taken. -/
  released : mode = .hold → ∀ early outcome late, (∀ other, .release other ∉ early) →
    .await number ∉ late →
      ((after.operated (early ++ .release outcome :: late)).await number).2 = outcome
  /-- Once an outcome was there to be taken, a second wait finds nothing. -/
  taken : ∀ early late, mode ≠ .hold ∨ (∃ outcome, .release outcome ∈ early) →
    ((after.operated (early ++ .await number :: late)).await number).2 = .interrupted

/-- A write that is as far as a mode lets it come at once lives on as that mode has it. -/
theorem pends_of_progress? {mode : Network.Mode}
    (isTaken : after.network.progress? number = some mode.progress) :
    Pends mode after number := by
  constructor
  case echoed =>
    rintro rfl later noWait
    rw [outcome_operated isTaken]
    exact congrArg Progress.outcome (Progress.afterAll_settled noWait)
  case rejected =>
    rintro rfl later noWait
    rw [outcome_operated isTaken]
    exact congrArg Progress.outcome (Progress.afterAll_settled noWait)
  case held =>
    rintro rfl later noRelease
    rw [outcome_operated isTaken]
    exact congrArg Progress.outcome (Progress.afterAll_held noRelease)
  case released =>
    rintro rfl early outcome late noRelease noWait
    -- Held until the release, settled by it, and kept until somebody waits.
    have stays : Network.Mode.hold.progress.afterAll number early = .held :=
      Progress.afterAll_held noRelease
    rw [outcome_operated isTaken, Progress.afterAll_append, stays]
    exact congrArg Progress.outcome (Progress.afterAll_settled noWait)
  case taken =>
    intro early late isThere
    have isFree : mode.progress.afterAll number early ≠ .held := by
      rcases isThere with noHold | ⟨outcome, isReleased⟩
      · apply Progress.afterAll_ne_held
        rwa [ne_eq, ← Progress.isHeld_eq_true_iff, Network.Mode.isHeld_progress_iff]
      · exact Progress.afterAll_ne_held_of_mem isReleased
    rw [outcome_operated isTaken, Progress.afterAll_append, Progress.afterAll_cons,
      Progress.after_await isFree, Progress.afterAll_taken]
    rfl

/-- A write that was taken has the progress of its mode, whatever the callbacks write that
hear its echo. -/
theorem progress?_submit {name : String} {payload : Payload}
    (submitted : station.submit name payload = .ok (after, number)) :
    after.network.progress? number = some station.network.mode.progress := by
  unfold submit at submitted
  by_cases connected : station.network.isConnected name = true
  · rw [submitWith_of_isConnected connected] at submitted
    cases submitted
    apply (growsTo_respond (grows_writer _) name payload _).progress?
    simp [take, Network.progress?]
  · rw [submitWith_of_not_isConnected connected] at submitted
    cases submitted

/-- Every write that a station takes lives on as the mode has it in which it was taken.  A
release yields the number of writes that were taken in hold mode since the release before,
or since the station was new, whatever the mode was in between. -/
theorem pends_operated (protocol : Protocol) (before : List Operation) :
    let station := (ofProtocol protocol).operated before
    (∀ name payload after number, station.submit name payload = .ok (after, number) →
      Pends station.network.mode after number) ∧
    (∀ outcome, (∀ other, .release other ∉ before) →
      (station.release outcome).2 = (ofProtocol protocol).heldByAll before) ∧
    ∀ outcome early last late, before = early ++ .release last :: late →
      (∀ other, .release other ∉ late) →
        (station.release outcome).2 =
          ((ofProtocol protocol).operated (early ++ [.release last])).heldByAll late := by
  intro station
  refine ⟨?_, ?_, ?_⟩
  · intro name payload after number submitted
    exact pends_of_progress? (progress?_submit submitted)
  · intro outcome noRelease
    have counted := heldCount_operated noRelease (ofProtocol protocol)
    rwa [show (ofProtocol protocol).network.heldCount = 0 from rfl, Nat.zero_add] at counted
  · rintro outcome early last late rfl noRelease
    have counted := heldCount_operated noRelease
      ((ofProtocol protocol).operated (early ++ [.release last]))
    have released : ((ofProtocol protocol).operated (early ++ [.release last])).network.heldCount =
        0 := by
      rw [operated_append]
      exact heldCount_release _ last
    rw [released, Nat.zero_add, ← operated_append, List.append_assoc] at counted
    exact counted

/-- A byte on its way to a channel. -/
def oneByte : Payload :=
  .legacy .char 1 (some [5])

/-- Two writes are released, and one that was taken in hold mode since then is not.  The next
one times out, then ends as it is released, and is taken once. -/
theorem pends_operated_hold :
    let early : List Operation := [.drive (.connect "count"), .setMode .hold,
      .drive (.submit "count" oneByte), .drive (.submit "count" oneByte)]
    let late : List Operation :=
      [.drive (.submit "count" oneByte), .setMode .reject, .setMode .hold]
    let station := (ofProtocol .legacy).operated (early ++ .release .success :: late)
    (station.release .success).2 = 1 ∧
    ∃ after, station.submit "count" oneByte = .ok (after, 3) ∧
      ((after.operated [.await 3, .setMode .echo]).await 3).2 = .timeout ∧
      ((after.operated [.await 3, .release .success, .setMode .hold]).await 3).2 = .success ∧
      ((after.operated [.release .success, .await 3, .release .success]).await 3).2 =
        .interrupted := by
  intro early late station
  obtain ⟨pends, _, count⟩ := pends_operated .legacy (early ++ .release .success :: late)
  obtain ⟨after, submitted⟩ : ∃ after, station.submit "count" oneByte = .ok (after, 3) :=
    ⟨_, rfl⟩
  have life := pends "count" oneByte after 3 submitted
  refine ⟨?_, after, submitted, ?_, ?_, ?_⟩
  · exact count .success early .success late rfl (by simp [late])
  · exact life.held rfl _ (by simp)
  · exact life.released rfl [.await 3] .success [.setMode .hold] (by simp) (by simp)
  · exact life.taken [.release .success] [.release .success] (.inr ⟨.success, by simp⟩)

/-- Where a wait finds an outcome, the next one does not: an echoed write is a success and
counts as interrupted from then on, and so does a held one that was released. -/
theorem await_await_interrupted :
    let echoing := (ofProtocol .legacy).operated [.drive (.connect "count")]
    let holding := echoing.operate (.setMode .hold)
    (∃ after, echoing.submit "count" oneByte = .ok (after, 0) ∧
      (after.await 0).2 = .success ∧ ((after.operated [.await 0]).await 0).2 = .interrupted) ∧
    ∃ after, holding.submit "count" oneByte = .ok (after, 0) ∧
      ((after.operated [.release .success]).await 0).2 = .success ∧
      ((after.operated [.release .success, .await 0]).await 0).2 = .interrupted :=
  ⟨⟨_, rfl, rfl, rfl⟩, ⟨_, rfl, rfl, rfl⟩⟩

end Station

end ProcessImage
