import ProcessImage.Proofs.Cache.Spending
import ProcessImage.Proofs.Outcome
import ProcessImage.Proofs.Station.Parts

/-!
# Depth of nested writes

Writes within callbacks nest only as deep as there are writes left, since each of
them uses up one before its echo is delivered.  So the depth that `writer` is given
is no limit: once it covers the writes that are left, more depth changes nothing.
-/

namespace ProcessImage.Station

variable {station : Station} {number : Nat} {pv : Variable}

/-! ## Writes that are left -/

theorem writesLeft_setCache (isPv : station.pv? number = some pv) (cache : Cache) :
    (station.setCache number cache).writesLeft + pv.cache.writesLeft =
      station.writesLeft + cache.writesLeft := by
  have found : station.pvs[number]? = some (some pv) := Option.join_eq_some_iff.mp isPv
  unfold writesLeft setCache
  dsimp only
  clear isPv
  generalize station.pvs = pvs at found ⊢
  induction pvs generalizing number with
  | nil => cases found
  | cons first rest ih =>
      cases number with
      | zero =>
          obtain rfl : first = some pv := Option.some.inj found
          simp
          omega
      | succ number =>
          have total := ih found
          simp only [List.modify_succ_cons, List.foldr_cons]
          omega

/-! ## Steps that do not depend on depth -/

/-- Whether two results of a step from a station are the same where no more than a
number of writes are left, and the first one adds no write. -/
structure Alike (bound : Nat) (station : Station) {α : Type} (reached : α → Station)
    (first second : α) : Prop where
  spends : (reached first).writesLeft ≤ station.writesLeft
  same : station.writesLeft ≤ bound → first = second

/-- Whether two ways to write add no write, and are the same where less than a
number of writes are left. -/
structure Writer.Alike (bound : Nat) (set other : Writer) : Prop where
  spends : ∀ number value station, (set number value station).writesLeft ≤ station.writesLeft
  same : ∀ number value station, station.writesLeft < bound →
    set number value station = other number value station

variable {bound : Nat} {set other : Writer} {after : Station}

theorem Alike.refl (station : Station) : Alike bound station id station station :=
  ⟨Nat.le_refl _, fun _ => rfl⟩

/-- Nothing before a step counts but the writes that are left. -/
theorem Alike.of_le {α : Type} {reached : α → Station} {first second : α}
    (alike : Alike bound after reached first second)
    (fewer : after.writesLeft ≤ station.writesLeft) :
    Alike bound station reached first second :=
  ⟨alike.spends.trans fewer, fun few => alike.same (fewer.trans few)⟩

theorem alike_foldl {α : Type} {step next : Station → α → Station}
    (alike : ∀ item station, Alike bound station id (step station item) (next station item))
    (items : List α) (station : Station) :
    Alike bound station id (items.foldl step station) (items.foldl next station) := by
  induction items generalizing station with
  | nil => exact .refl station
  | cons item rest ih =>
      have first := alike item station
      have others := (ih (step station item)).of_le first.spends
      refine ⟨others.spends, fun few => ?_⟩
      rw [List.foldl_cons, List.foldl_cons, ← first.same few]
      exact others.same few

/-- A callback that writes leaves fewer writes before it does. -/
theorem alike_call (alike : set.Alike bound other) (number : Nat) (snapshot : Snapshot)
    (callback : Nat × Cache.Reaction) (station : Station) :
    Alike bound station id (call set number snapshot station callback)
      (call other number snapshot station callback) := by
  cases isPv : station.pv? number with
  | none =>
      simp only [call, isPv]
      exact .refl station
  | some pv =>
      obtain ⟨called, usedUp⟩ := pv.cache.writesLeft_advance_call snapshot callback
      have total := writesLeft_setCache isPv
        ((pv.cache.call Cache.keep snapshot callback).1.advance callback.1)
      cases planned : pv.cache.planned? callback.1 with
      | none =>
          simp only [call, isPv, planned]
          refine ⟨?_, fun _ => rfl⟩
          change (station.setCache number _).writesLeft ≤ _
          omega
      | some value =>
          have fewer := usedUp value planned
          simp only [call, isPv, planned]
          constructor
          · refine (alike.spends ..).trans ?_
            change (station.setCache number _).writesLeft ≤ _
            omega
          · intro few
            apply alike.same
            change (station.setCache number _).writesLeft < _
            omega

theorem alike_hear (alike : set.Alike bound other) (event : Channel.Event) (number : Nat)
    (station : Station) :
    Alike bound station id (hear set event station number) (hear other event station number) := by
  cases isPv : station.pv? number with
  | none =>
      simp only [hear, isPv]
      exact .refl station
  | some pv =>
      cases means : pv.changeOf event with
      | error fault =>
          simp only [hear, isPv, means]
          exact ⟨Nat.le_refl _, fun _ => rfl⟩
      | ok change =>
          have kept := Nat.add_right_cancel (writesLeft_setCache isPv
            { pv.cache with state := pv.cache.state.after change })
          simp only [hear, isPv, means, changeCache]
          exact (alike_foldl (alike_call alike number _) pv.cache.callbacks _).of_le kept.le

theorem alike_deliver (alike : set.Alike bound other) (event : Channel.Event)
    (listener : Channel.Listener) (station : Station) :
    Alike bound station id (deliver set event station listener)
      (deliver other event station listener) := by
  cases listener with
  | pv number => exact alike_hear alike event number station
  | observer number => exact ⟨Nat.le_refl _, fun _ => rfl⟩

theorem alike_dispatch (alike : set.Alike bound other) (name : String) (event : Channel.Event)
    (station : Station) :
    Alike bound station id (dispatch set name event station)
      (dispatch other name event station) :=
  (alike_foldl (alike_deliver alike event) _ _).of_le (Nat.le_refl _)

/-! ## Writes -/

/-- The station after a write was taken, or as it was. -/
def taken (station : Station) : Except Fault (Station × Nat) → Station
  | .ok (after, _) => after
  | .error _ => station

theorem alike_submitWith (alike : set.Alike bound other) (name : String) (payload : Payload)
    (station : Station) :
    Alike bound station station.taken (submitWith set name payload station)
      (submitWith other name payload station) := by
  unfold submitWith
  cases station.network.submit name payload with
  | error fault => exact ⟨Nat.le_refl _, fun _ => rfl⟩
  | ok result =>
      rcases result with ⟨network, write⟩
      have dispatched := alike_dispatch alike name (.updated { payload }) { station with network }
      cases mode : network.mode with
      | echo =>
          simp only [Outcome.ok_bind, mode]
          exact ⟨dispatched.spends, fun few => by rw [dispatched.same few]⟩
      | hold =>
          simp only [Outcome.ok_bind, mode]
          exact ⟨Nat.le_refl _, fun _ => rfl⟩
      | reject =>
          simp only [Outcome.ok_bind, mode]
          exact ⟨Nat.le_refl _, fun _ => rfl⟩

theorem writesLeft_await (station : Station) (write : Nat) :
    (station.await write).1.writesLeft = station.writesLeft :=
  rfl

theorem alike_send (alike : set.Alike bound other) (pv : Variable) (payload : Payload)
    (station : Station) :
    Alike bound station Prod.fst (send set pv payload station) (send other pv payload station) := by
  have submitted := alike_submitWith alike pv.name payload station
  constructor
  case same =>
    intro few
    simp only [send, submitted.same few]
  case spends =>
    have spends := submitted.spends
    unfold send
    cases result : submitWith set pv.name payload station with
    | error fault => exact Nat.le_refl _
    | ok taken =>
        rcases taken with ⟨after, write⟩
        rw [result] at spends
        have awaited := (writesLeft_await after write).trans_le spends
        dsimp only
        split
        next settled answer =>
          rw [answer] at awaited
          exact awaited
        next settled outcome answer =>
          rw [answer] at awaited
          exact awaited

theorem alike_trySetWith (alike : set.Alike bound other) (number : Nat) (value : Value)
    (station : Station) :
    Alike bound station Prod.fst (trySetWith set number value station)
      (trySetWith other number value station) := by
  unfold trySetWith
  cases station.pv? number with
  | none => exact ⟨Nat.le_refl _, fun _ => rfl⟩
  | some pv =>
      dsimp only
      split
      case isFalse => exact ⟨Nat.le_refl _, fun _ => rfl⟩
      case isTrue =>
        split
        case h_1 => exact ⟨Nat.le_refl _, fun _ => rfl⟩
        case h_2 => exact ⟨Nat.le_refl _, fun _ => rfl⟩
        case h_3 payload _ =>
          have sent := alike_send alike pv payload
            (station.leave (pv.encodeNotes station.network.protocol value))
          exact ⟨sent.spends, fun few => by rw [sent.same few]⟩

theorem alike_setWith (alike : set.Alike bound other) (number : Nat) (value : Value)
    (station : Station) :
    Alike bound station Prod.fst (setWith set number value station)
      (setWith other number value station) := by
  have tried := alike_trySetWith alike number value station
  constructor
  case same =>
    intro few
    simp only [setWith, tried.same few]
  case spends =>
    have spends := tried.spends
    unfold setWith
    split
    next after done result =>
      rw [result] at spends
      exact spends
    next after fault result =>
      rw [result] at spends
      exact spends

/-! ## Enough depth -/

/-- More depth is the same to a station whose writes a depth covers. -/
theorem alike_writer {depth deeper : Nat} (le : depth ≤ deeper) :
    (writer depth).Alike depth (writer deeper) := by
  induction depth generalizing deeper with
  | zero => exact ⟨fun _ _ _ => Nat.le_refl _, fun _ _ _ few => absurd few (Nat.not_lt_zero _)⟩
  | succ depth ih =>
      cases deeper with
      | zero => cases le
      | succ deeper =>
          have alike := ih (Nat.le_of_succ_le_succ le)
          constructor
          case spends =>
            exact fun number value station => (alike_setWith alike number value station).spends
          case same =>
            intro number value station few
            have same := (alike_setWith alike number value station).same (Nat.le_of_lt_succ few)
            exact congrArg Prod.fst same

/-- Beyond the writes that are left, depth does not matter to a delivery. -/
theorem dispatch_writer {depth : Nat} (enough : station.writesLeft ≤ depth) (name : String)
    (event : Channel.Event) :
    station.dispatch (writer depth) name event =
      station.dispatch station.callbackWriter name event :=
  ((alike_dispatch (alike_writer enough) name event station).same (Nat.le_refl _)).symm

/-- Beyond the writes that are left, depth does not matter to a write. -/
theorem trySetWith_writer {depth : Nat} (enough : station.writesLeft ≤ depth) (number : Nat)
    (value : Value) :
    station.trySetWith (writer depth) number value = station.trySet number value :=
  ((alike_trySetWith (alike_writer enough) number value station).same (Nat.le_refl _)).symm

end ProcessImage.Station
