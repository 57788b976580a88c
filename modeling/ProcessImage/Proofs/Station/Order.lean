import ProcessImage.Proofs.Station.Seating

/-!
# Orderly stations

At an `Orderly` station everyone has a seat, nobody writes from within a callback,
and every variable knows whether its channel is connected.  Deliveries keep a
station orderly, and so does whatever leaves channels and variables alone.
-/

namespace ProcessImage.Station

/-- Everyone has a seat, no callback has a write left, and variables know of the
connections of their channels. -/
structure Orderly (station : Station) : Prop extends Seated station where
  silent : station.Silent
  knows : ∀ {number pv}, station.pv? number = some pv →
    pv.cache.state.isConnected = station.network.isConnected pv.name

variable {station before middle after : Station} {number : Nat} {pv : Variable} {name : String}

theorem orderly_ofProtocol (protocol : Protocol) : (ofProtocol protocol).Orderly where
  toSeated := seated_ofProtocol protocol
  silent _ _ isPv := by simp [ofProtocol, pv?] at isPv
  knows isPv := by simp [ofProtocol, pv?] at isPv

/-! ## Deliveries -/

/-- A variable that is there after others were heard was there before. -/
theorem Hearing.exists_before {heard : Nat → List Channel.Event}
    (hearing : Hearing before after heard) (isPv : after.pv? number = some pv) :
    ∃ old, before.pv? number = some old ∧ old.name = pv.name ∧
      pv.cache.state = (heard number).foldl old.follow old.cache.state := by
  cases wasPv : before.pv? number with
  | none =>
      rw [hearing.gone wasPv] at isPv
      cases isPv
  | some old =>
      obtain ⟨cache, isAfter, state, _⟩ := hearing.pv wasPv
      obtain rfl := Option.some.inj (isAfter.symm.trans isPv)
      exact ⟨old, rfl, rfl, state⟩

/-- Variables that hear what happens at their channel keep a station orderly. -/
theorem Hearing.orderly {heard : Nat → List Channel.Event} (hearing : Hearing before after heard)
    (seated : before.Seated) (silent : before.Silent)
    (knows : ∀ {number pv}, before.pv? number = some pv →
      ((heard number).foldl pv.follow pv.cache.state).isConnected =
        before.network.isConnected pv.name) : after.Orderly where
  toSeated := hearing.seated seated
  silent := hearing.silent silent
  knows := by
    intro number pv isPv
    obtain ⟨old, wasPv, name, state⟩ := hearing.exists_before isPv
    rw [state, hearing.network, ← name]
    exact knows wasPv

theorem Seated.notice (seated : station.Seated) (name : String) (event : Channel.Event) :
    (station.notice name event).Seated := by
  apply seated.congr
  case protocol => rfl
  case next => rfl
  case listeners => exact listeners_notice station name event
  case observers => rfl
  case seats => exact fun _ => rfl

/-- Exactly the variables of a channel hear what happens there. -/
theorem Seated.dueTo_eq (seated : station.Seated) (isPv : station.pv? number = some pv)
    (name : String) (event : Channel.Event) :
    dueTo (station.network.listeners name) event number =
      if pv.name = name then [event] else [] := by
  unfold dueTo
  by_cases same : pv.name = name
  · have listens : .pv number ∈ station.network.listeners name :=
      List.mem_map.mpr ⟨_, same ▸ seated.listens isPv, rfl⟩
    rw [if_pos listens, if_pos same]
  · rw [if_neg same, if_neg]
    intro listens
    obtain ⟨⟨id, _⟩, inside, rfl⟩ := List.mem_map.mp listens
    obtain ⟨owner, isOwner, rfl, _⟩ := seated.owned inside
    obtain rfl := Option.some.inj (isPv.symm.trans isOwner)
    exact same rfl

/-- A delivery keeps a station orderly. -/
theorem Orderly.dispatch (orderly : station.Orderly) (name : String) (event : Channel.Event) :
    (station.dispatch (writer 0) name event).Orderly := by
  apply (hearing_dispatch (orderly.once name) event).orderly (orderly.toSeated.notice name event)
  case silent => exact fun _ _ isPv => orderly.silent isPv
  case knows =>
    intro number pv isPv
    have known : pv.cache.state.isConnected = (station.network.channel pv.name).connected :=
      orderly.knows isPv
    rw [orderly.toSeated.dueTo_eq isPv]
    unfold Network.isConnected notice
    rw [Network.channel_change]
    by_cases same : pv.name = name
    · rw [if_pos same, if_pos same, ← same]
      exact Variable.isConnected_follow known event
    · rw [if_neg same, if_neg same]
      exact known

/-! ## What leaves channels and variables alone -/

/-- Nothing but writes, the mode and the history differ. -/
structure Unmoved (before after : Station) : Prop where
  protocol : after.network.protocol = before.network.protocol
  next : after.network.next = before.network.next
  channels : after.network.channels = before.network.channels
  observers : after.observers = before.observers
  pvs : after.pvs = before.pvs

theorem Unmoved.refl (station : Station) : Unmoved station station :=
  ⟨rfl, rfl, rfl, rfl, rfl⟩

theorem Unmoved.trans (first : Unmoved before middle) (second : Unmoved middle after) :
    Unmoved before after where
  protocol := second.protocol.trans first.protocol
  next := second.next.trans first.next
  channels := second.channels.trans first.channels
  observers := second.observers.trans first.observers
  pvs := second.pvs.trans first.pvs

theorem Unmoved.pv? (unmoved : Unmoved before after) (number : Nat) :
    after.pv? number = before.pv? number := by
  unfold Station.pv?
  rw [unmoved.pvs]

theorem Unmoved.channel (unmoved : Unmoved before after) (name : String) :
    after.network.channel name = before.network.channel name := by
  unfold Network.channel
  rw [unmoved.channels]

theorem Unmoved.orderly (unmoved : Unmoved before after) (orderly : before.Orderly) :
    after.Orderly where
  toSeated := by
    apply orderly.toSeated.congr unmoved.protocol unmoved.next
    · exact fun name => congrArg Channel.listeners (unmoved.channel name)
    · exact unmoved.observers
    · exact fun number => congrArg (Option.map Variable.seat) (unmoved.pv? number)
  silent := fun _ _ isPv => orderly.silent ((unmoved.pv? _).symm.trans isPv)
  knows := by
    intro number pv isPv
    unfold Network.isConnected
    rw [unmoved.channel]
    exact orderly.knows ((unmoved.pv? number).symm.trans isPv)

theorem unmoved_leave (station : Station) (notes : List Note) :
    Unmoved station (station.leave notes) :=
  ⟨rfl, rfl, rfl, rfl, rfl⟩

theorem unmoved_setMode (station : Station) (mode : Network.Mode) :
    Unmoved station (station.setMode mode) :=
  ⟨rfl, rfl, rfl, rfl, rfl⟩

theorem unmoved_release (station : Station) (outcome : Network.Outcome) :
    Unmoved station (station.release outcome).1 :=
  ⟨rfl, rfl, rfl, rfl, rfl⟩

theorem unmoved_await (station : Station) (write : Nat) :
    Unmoved station (station.await write).1 := by
  unfold await Network.await
  cases station.network.writes[write]? <;> exact ⟨rfl, rfl, rfl, rfl, rfl⟩

end ProcessImage.Station
