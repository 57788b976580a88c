import ProcessImage.Proofs.Station.Operation

/-!
# Growth of the list of writes

The network takes writes one after the other and never forgets one.  Unless the mode
is set, writes are released or one is waited for, an operation leaves the writes as
they are and at most adds others behind them.  This is so at every station, whatever
its callbacks write: a value that a callback writes is waited for at once, but only
under the number of a write that was added.
-/

namespace ProcessImage

/-- Whether an operation only adds writes. -/
def Operation.Grows : Operation → Prop
  | setMode _ | release _ | await _ => False
  | _ => True

theorem Network.Progress.isHeld_afterWait (progress : Progress) :
    progress.afterWait.isHeld = progress.isHeld := by
  cases progress <;> rfl

theorem Network.Mode.isHeld_progress_iff {mode : Mode} :
    mode.progress.isHeld = true ↔ mode = .hold := by
  cases mode <;> simp [progress, Progress.isHeld]

namespace Station

variable {station before middle after : Station} {set : Writer} {number : Nat} {name : String}
  {payload : Payload}

/-- How a station gets ahead when its network only takes writes: it treats them as
before, keeps those it has and adds others.  The new ones are held just when it holds
writes. -/
structure GrowsTo (before after : Station) : Prop where
  mode : after.network.mode = before.network.mode
  writes : ∃ added, after.network.writes = before.network.writes ++ added ∧
    ∀ write ∈ added, write.progress.isHeld = true ↔ before.network.mode = .hold

theorem GrowsTo.of_eq (mode : after.network.mode = before.network.mode)
    (writes : after.network.writes = before.network.writes) : before.GrowsTo after :=
  ⟨mode, [], by rw [writes, List.append_nil], nofun⟩

theorem GrowsTo.refl (station : Station) : station.GrowsTo station :=
  .of_eq rfl rfl

theorem GrowsTo.trans (first : before.GrowsTo middle) (second : middle.GrowsTo after) :
    before.GrowsTo after := by
  obtain ⟨added, isAdded, held⟩ := first.writes
  obtain ⟨more, isMore, moreHeld⟩ := second.writes
  refine ⟨second.mode.trans first.mode, added ++ more, ?_, ?_⟩
  · rw [isMore, isAdded, List.append_assoc]
  · intro write isNew
    rcases List.mem_append.mp isNew with early | late
    · exact held write early
    · rw [moreHeld write late, first.mode]

/-- Only the mode and the writes count, before and after. -/
theorem GrowsTo.of_same (grows : middle.GrowsTo after)
    (mode : middle.network.mode = before.network.mode)
    (writes : middle.network.writes = before.network.writes) : before.GrowsTo after :=
  .trans (.of_eq mode writes) grows

theorem growsTo_leave (station : Station) (notes : List Note) :
    station.GrowsTo (station.leave notes) :=
  .of_eq rfl rfl

theorem growsTo_take (station : Station) (name : String) (payload : Payload) :
    station.GrowsTo (station.take name payload) := by
  refine ⟨rfl, _, rfl, fun write isNew => ?_⟩
  rw [List.mem_singleton.mp isNew]
  exact Network.Mode.isHeld_progress_iff

/-- Who waits for a new write takes its outcome, but does not release it. -/
theorem GrowsTo.await (grows : before.GrowsTo after)
    (isNew : before.network.writes.length ≤ number) : before.GrowsTo (after.await number).1 := by
  obtain ⟨added, isAdded, held⟩ := grows.writes
  cases found : after.network.writes[number]? with
  | none =>
      simp only [Station.await, Network.await, found]
      exact grows
  | some write =>
      -- The write stands behind the old ones, so it is one of those that were added.
      have isWrite := found
      rw [isAdded, List.getElem?_append_right isNew] at isWrite
      simp only [Station.await, Network.await, found]
      refine ⟨grows.mode, added.set (number - before.network.writes.length)
        { write with progress := write.progress.afterWait }, ?_, ?_⟩
      · rw [isAdded, List.set_append_right _ _ isNew]
      intro other isOther
      rcases List.mem_or_eq_of_mem_set isOther with old | rfl
      · exact held other old
      · rw [Network.Progress.isHeld_afterWait]
        exact held write (List.mem_of_getElem? isWrite)

/-! ## Deliveries -/

/-- Whether callbacks only add writes. -/
def Writer.Grows (set : Writer) : Prop :=
  ∀ (number : Nat) (value : Value) (station : Station), station.GrowsTo (set number value station)

theorem growsTo_foldl {α : Type} {step : Station → α → Station}
    (grows : ∀ (station : Station) item, station.GrowsTo (step station item)) (items : List α)
    (station : Station) : station.GrowsTo (items.foldl step station) := by
  induction items generalizing station with
  | nil => exact .refl station
  | cons item rest ih => exact (grows station item).trans (ih (step station item))

theorem growsTo_call (grows : set.Grows) (number : Nat) (snapshot : Snapshot)
    (station : Station) (callback : Nat × Cache.Reaction) :
    station.GrowsTo (call set number snapshot station callback) := by
  cases isPv : station.pv? number with
  | none =>
      simp only [call, isPv]
      exact .refl station
  | some pv =>
      have called (cache : Cache) (entries : List (Entry Event)) :
          station.GrowsTo ((station.setCache number cache).record entries) := .of_eq rfl rfl
      cases planned : pv.cache.planned? callback.1 with
      | none =>
          simp only [call, isPv, planned]
          exact called _ _
      | some value =>
          simp only [call, isPv, planned]
          exact (called _ _).trans (grows number value _)

theorem growsTo_hear (grows : set.Grows) (event : Channel.Event) (station : Station)
    (number : Nat) : station.GrowsTo (hear set event station number) := by
  cases isPv : station.pv? number with
  | none =>
      simp only [hear, isPv]
      exact .refl station
  | some pv =>
      cases means : pv.changeOf event with
      | error fault =>
          simp only [hear, isPv, means]
          exact growsTo_leave station _
      | ok change =>
          simp only [hear, isPv, means, changeCache]
          exact (growsTo_foldl (growsTo_call grows number _) _ _).of_same rfl rfl

theorem growsTo_deliver (grows : set.Grows) (event : Channel.Event) (station : Station)
    (listener : Channel.Listener) : station.GrowsTo (deliver set event station listener) := by
  cases listener with
  | pv number => exact growsTo_hear grows event station number
  | observer number => exact .of_eq rfl rfl

theorem growsTo_dispatch (grows : set.Grows) (name : String) (event : Channel.Event)
    (station : Station) : station.GrowsTo (station.dispatch set name event) :=
  (growsTo_foldl (growsTo_deliver grows event) _ _).of_same rfl rfl

/-! ## Writes -/

theorem growsTo_respond (grows : set.Grows) (name : String) (payload : Payload)
    (station : Station) : station.GrowsTo (station.respond set name payload) := by
  unfold respond
  cases station.network.mode with
  | echo => exact growsTo_dispatch grows name _ station
  | hold => exact .refl station
  | reject => exact growsTo_leave station _

theorem growsTo_submitWith (grows : set.Grows)
    (submitted : station.submitWith set name payload = .ok (after, number)) :
    station.GrowsTo after ∧ station.network.writes.length ≤ number := by
  by_cases connected : station.network.isConnected name = true
  · rw [submitWith_of_isConnected connected] at submitted
    cases submitted
    have taken := growsTo_take station name payload
    exact ⟨taken.trans (growsTo_respond grows name payload _), Nat.le_refl _⟩
  · rw [submitWith_of_not_isConnected connected] at submitted
    cases submitted

theorem growsTo_send (grows : set.Grows) (pv : Variable) (payload : Payload)
    (station : Station) : station.GrowsTo (station.send set pv payload).1 := by
  unfold send
  cases submitted : station.submitWith set pv.name payload with
  | error fault => exact growsTo_leave station _
  | ok result =>
      -- The number is that of the write that was just taken, even if its echo led to more.
      obtain ⟨grown, isNew⟩ := growsTo_submitWith grows submitted
      have awaited := grown.await isNew
      dsimp only
      split
      next settled answer =>
        rw [answer] at awaited
        exact awaited
      next answer =>
        rw [answer] at awaited
        exact awaited.trans (growsTo_leave _ _)

theorem growsTo_trySetWith (grows : set.Grows) (number : Nat) (value : Value)
    (station : Station) : station.GrowsTo (station.trySetWith set number value).1 := by
  unfold trySetWith
  cases station.pv? number with
  | none => exact .refl station
  | some pv =>
      dsimp only
      split
      case isFalse => exact growsTo_leave station _
      case isTrue =>
        have noted := growsTo_leave station (pv.encodeNotes station.network.protocol value)
        split
        case h_1 => exact noted
        case h_2 => exact noted
        case h_3 payload _ => exact noted.trans (growsTo_send grows pv payload _)

theorem growsTo_setWith (grows : set.Grows) (number : Nat) (value : Value) (station : Station) :
    station.GrowsTo (station.setWith set number value).1 := by
  have tried := growsTo_trySetWith grows number value station
  unfold setWith
  split
  next after done result =>
    rw [result] at tried
    exact tried
  next after fault result =>
    rw [result] at tried
    exact tried.trans (growsTo_leave after _)

/-- To whatever depth callbacks write, they only add writes. -/
theorem grows_writer (depth : Nat) : (writer depth).Grows := by
  induction depth with
  | zero => exact fun _ _ station => .refl station
  | succ depth ih => exact fun number value station => growsTo_setWith ih number value station

/-! ## Operations -/

theorem growsTo_perform (station : Station) (traffic : Traffic) :
    station.GrowsTo (station.perform traffic) := by
  have grows := grows_writer station.writesLeft
  cases traffic with
  | connect name => exact (growsTo_leave station _).trans (growsTo_dispatch grows name _ _)
  | disconnect name => exact (growsTo_leave station _).trans (growsTo_dispatch grows name _ _)
  | clear name => exact growsTo_dispatch grows name .cleared station
  | post name update => exact growsTo_dispatch grows name (.updated update) station
  | set number value => exact growsTo_setWith grows number value station
  | submit name payload =>
      unfold perform
      dsimp only
      split
      next submitted => exact (growsTo_submitWith grows submitted).1
      next => exact .refl station

/-- What a channel remembers is told to a newcomer as it is. -/
theorem growsTo_replay (listener : Channel.Listener) (events : List Channel.Event)
    (station : Station) :
    station.GrowsTo (events.foldl
      (fun station event => station.deliver station.callbackWriter event listener) station) :=
  growsTo_foldl
    (fun station event => growsTo_deliver (grows_writer station.writesLeft) event station listener)
    events station

theorem growsTo_operate {operation : Operation} (grows : operation.Grows) (station : Station) :
    station.GrowsTo (station.operate operation) := by
  unfold operate
  cases operation with
  | setMode _ | release _ | await _ => cases grows
  | drive traffic => exact station.growsTo_perform traffic
  | trySet number value => exact growsTo_trySetWith (grows_writer _) number value station
  | observe name =>
      dsimp only
      split
      next added =>
        obtain ⟨rfl, rfl⟩ := of_observe added
        exact (growsTo_replay _ _ (station.withObserver name)).of_same rfl rfl
      next => exact .refl station
  | addVariable name type settings =>
      dsimp only
      split
      next added =>
        obtain ⟨_, rfl, _, rfl⟩ := of_addVariable added
        have replayed := growsTo_replay (.pv station.pvs.length)
          (station.network.channel name).replay (station.withNewcomer name type settings)
        exact (replayed.trans (growsTo_leave _ _)).of_same rfl rfl
      next => exact .refl station
  | dismiss observer =>
      dsimp only [dismiss]
      split <;> exact .of_eq rfl rfl
  | dropVariable number =>
      dsimp only [dropVariable]
      split <;> exact .of_eq rfl rfl
  | onUpdate number reaction =>
      dsimp only [onUpdate]
      cases station.pv? number <;> exact .of_eq rfl rfl
  | removeCallback number callback =>
      dsimp only [removeCallback]
      cases station.pv? number <;> exact .of_eq rfl rfl

end Station

end ProcessImage
