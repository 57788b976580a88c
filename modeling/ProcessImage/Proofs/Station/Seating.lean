import ProcessImage.Proofs.Station.Admission
import ProcessImage.Proofs.Station.Hearing

/-!
# Seats at channels

Every variable has a seat at the channel of its name: its subscription.  A station
is `Seated` when variables and bare observers hold the seats that they took, each
its own, and nobody else holds one.  As the numbers of subscriptions are never used
again, whoever leaves takes only its own seat away.
-/

namespace ProcessImage

/-- A variable apart from its cache: what holds its seat. -/
def Variable.seat (pv : Variable) : Variable :=
  { pv with cache := {} }

theorem Variable.seat_eq_iff {pv other : Variable} :
    pv.seat = other.seat ↔ pv.name = other.name ∧ pv.type = other.type ∧
      pv.settings = other.settings ∧ pv.subscription = other.subscription := by
  simp [seat]

namespace Station

/-- Variables and observers hold the seats that they took, and nobody else does. -/
structure Seated (station : Station) : Prop where
  listens : ∀ {number pv}, station.pv? number = some pv →
    (pv.subscription, .pv number) ∈ (station.network.channel pv.name).listeners
  owned : ∀ {name id number}, (id, .pv number) ∈ (station.network.channel name).listeners →
    ∃ pv, station.pv? number = some pv ∧ pv.name = name ∧ pv.subscription = id
  watched : ∀ {name id observer},
    (id, .observer observer) ∈ (station.network.channel name).listeners →
      station.observers[observer]? = some (name, id)
  /-- Nobody listens to a channel twice. -/
  once : ∀ name, (station.network.listeners name).Nodup
  /-- Variables have different subscriptions. -/
  apart : ∀ {number other pv otherPv}, station.pv? number = some pv →
    station.pv? other = some otherPv → pv.subscription = otherPv.subscription → number = other
  /-- No observer ever had the subscription of a variable. -/
  aside : ∀ {number pv entry}, station.pv? number = some pv → entry ∈ station.observers →
    pv.subscription ≠ entry.2
  spent : ∀ {number pv}, station.pv? number = some pv → pv.subscription < station.network.next
  spentObserver : ∀ {entry}, entry ∈ station.observers → entry.2 < station.network.next
  /-- Variables suit the protocol. -/
  valid : ∀ {number pv}, station.pv? number = some pv →
    Variable.validate station.network.protocol pv.type pv.settings = .ok ()

variable {station before after : Station} {number : Nat} {pv : Variable}

theorem seated_ofProtocol (protocol : Protocol) : (ofProtocol protocol).Seated := by
  constructor <;> simp [ofProtocol, pv?, Network.channel, Network.listeners]

/-- Those who stay keep their seats when others leave theirs and nobody takes a new
one. -/
theorem Seated.remain (seated : before.Seated)
    (protocol : after.network.protocol = before.network.protocol)
    (next : after.network.next = before.network.next)
    (observers : after.observers = before.observers)
    (listeners : ∀ name, (after.network.channel name).listeners.Sublist
      (before.network.channel name).listeners)
    (was : ∀ {number pv}, after.pv? number = some pv →
      ∃ old, before.pv? number = some old ∧ old.seat = pv.seat)
    (listens : ∀ {number pv}, after.pv? number = some pv →
      (pv.subscription, .pv number) ∈ (after.network.channel pv.name).listeners)
    (present : ∀ {name id number}, (id, .pv number) ∈ (after.network.channel name).listeners →
      ∃ pv, after.pv? number = some pv) : after.Seated := by
  constructor
  case listens => exact listens
  case owned =>
    intro name id number inside
    obtain ⟨pv, isPv⟩ := present inside
    obtain ⟨old, wasPv, same⟩ := was isPv
    obtain ⟨sameName, _, _, sameSubscription⟩ := Variable.seat_eq_iff.mp same
    obtain ⟨owner, isOwner, rfl, rfl⟩ := seated.owned ((listeners name).mem inside)
    obtain rfl := Option.some.inj (wasPv.symm.trans isOwner)
    exact ⟨pv, isPv, sameName.symm, sameSubscription.symm⟩
  case watched =>
    intro name id observer inside
    rw [observers]
    exact seated.watched ((listeners name).mem inside)
  case once => exact fun name => (seated.once name).sublist ((listeners name).map _)
  case apart =>
    intro number other pv otherPv isPv isOther same
    obtain ⟨old, wasPv, seat⟩ := was isPv
    obtain ⟨oldOther, wasOther, seatOther⟩ := was isOther
    obtain ⟨_, _, _, subscription⟩ := Variable.seat_eq_iff.mp seat
    obtain ⟨_, _, _, subscriptionOther⟩ := Variable.seat_eq_iff.mp seatOther
    exact seated.apart wasPv wasOther (subscription.trans (same.trans subscriptionOther.symm))
  case aside =>
    intro number pv entry isPv isEntry
    obtain ⟨old, wasPv, same⟩ := was isPv
    obtain ⟨_, _, _, subscription⟩ := Variable.seat_eq_iff.mp same
    rw [observers] at isEntry
    rw [← subscription]
    exact seated.aside wasPv isEntry
  case spent =>
    intro number pv isPv
    obtain ⟨old, wasPv, same⟩ := was isPv
    obtain ⟨_, _, _, subscription⟩ := Variable.seat_eq_iff.mp same
    rw [next, ← subscription]
    exact seated.spent wasPv
  case spentObserver =>
    intro entry isEntry
    rw [observers] at isEntry
    rw [next]
    exact seated.spentObserver isEntry
  case valid =>
    intro number pv isPv
    obtain ⟨old, wasPv, same⟩ := was isPv
    obtain ⟨_, type, settings, _⟩ := Variable.seat_eq_iff.mp same
    rw [protocol, ← type, ← settings]
    exact seated.valid wasPv

/-- Seats do not depend on caches, connections and writes. -/
theorem Seated.congr (seated : before.Seated)
    (protocol : after.network.protocol = before.network.protocol)
    (next : after.network.next = before.network.next)
    (listeners : ∀ name,
      (after.network.channel name).listeners = (before.network.channel name).listeners)
    (observers : after.observers = before.observers)
    (seats : ∀ number, (after.pv? number).map Variable.seat =
      (before.pv? number).map Variable.seat) : after.Seated := by
  have was {number : Nat} {pv : Variable} (isPv : after.pv? number = some pv) :
      ∃ old, before.pv? number = some old ∧ old.seat = pv.seat := by
    have seat := seats number
    rw [isPv] at seat
    exact Option.map_eq_some_iff.mp seat.symm
  apply seated.remain protocol next observers
  case listeners =>
    intro name
    rw [listeners]
  case was => exact was
  case listens =>
    intro number pv isPv
    obtain ⟨old, wasPv, same⟩ := was isPv
    obtain ⟨name, _, _, subscription⟩ := Variable.seat_eq_iff.mp same
    rw [listeners, ← name, ← subscription]
    exact seated.listens wasPv
  case present =>
    intro name id number inside
    rw [listeners] at inside
    obtain ⟨old, wasPv, _⟩ := seated.owned inside
    have seat := seats number
    rw [wasPv] at seat
    obtain ⟨pv, isPv, _⟩ := Option.map_eq_some_iff.mp seat
    exact ⟨pv, isPv⟩

theorem Hearing.seated {heard : Nat → List Channel.Event} (hearing : Hearing before after heard)
    (seated : before.Seated) : after.Seated := by
  apply seated.congr
  case protocol => rw [hearing.network]
  case next => rw [hearing.network]
  case listeners => simp [hearing.network]
  case observers => exact hearing.observers
  case seats =>
    intro number
    cases wasPv : before.pv? number with
    | none => rw [hearing.gone wasPv]
    | some pv =>
        obtain ⟨cache, isPv, _⟩ := hearing.pv wasPv
        rw [isPv]
        rfl

end Station

/-! ## Taking and leaving seats -/

namespace Station

variable {station : Station} {number : Nat} {pv : Variable} {name : String} {type : DataType}
  {settings : Settings}

/-- The new variable takes a seat of its own. -/
theorem Seated.withNewcomer (seated : station.Seated)
    (valid : Variable.validate station.network.protocol type settings = .ok ()) :
    (station.withNewcomer name type settings).Seated := by
  have network : (station.withNewcomer name type settings).network =
      station.network.join name (.pv station.pvs.length) := rfl
  -- No old variable has the number of the new one.
  have notLast {number : Nat} {pv : Variable} (isPv : station.pv? number = some pv) :
      number ≠ station.pvs.length := Nat.ne_of_lt (lt_length_of_pv? isPv)
  have isNewOrOld {number : Nat} {pv : Variable}
      (isPv : (station.withNewcomer name type settings).pv? number = some pv) :
      (number = station.pvs.length ∧
        pv = { name, type, settings, subscription := station.network.next }) ∨
        station.pv? number = some pv := by
    rw [pv?_withNewcomer] at isPv
    by_cases isLast : number = station.pvs.length
    · rw [if_pos isLast] at isPv
      exact .inl ⟨isLast, (Option.some.inj isPv).symm⟩
    · rw [if_neg isLast] at isPv
      exact .inr isPv
  constructor
  case listens =>
    intro number pv isPv
    rw [network, Network.mem_listeners_join_iff]
    rcases isNewOrOld isPv with ⟨rfl, rfl⟩ | old
    · exact .inr ⟨rfl, rfl⟩
    · exact .inl (seated.listens old)
  case owned =>
    intro other id number listens
    rw [network, Network.mem_listeners_join_iff] at listens
    rw [pv?_withNewcomer]
    rcases listens with old | ⟨rfl, new⟩
    · obtain ⟨pv, isPv, isOwn⟩ := seated.owned old
      exact ⟨pv, (if_neg (notLast isPv)).trans isPv, isOwn⟩
    · cases new
      exact ⟨_, if_pos rfl, rfl, rfl⟩
  case watched =>
    intro other id observer listens
    rw [network, Network.mem_listeners_join_iff] at listens
    rcases listens with old | ⟨_, new⟩
    · exact seated.watched old
    · cases new
  case once =>
    intro other
    rw [network]
    apply Network.nodup_listeners_join _ (seated.once other)
    intro listens
    obtain ⟨⟨id, _⟩, inside, rfl⟩ := List.mem_map.mp listens
    obtain ⟨pv, isPv, _⟩ := seated.owned inside
    exact notLast isPv rfl
  case apart =>
    intro number other pv otherPv isPv isOther same
    rcases isNewOrOld isPv with ⟨rfl, rfl⟩ | old <;>
      rcases isNewOrOld isOther with ⟨rfl, rfl⟩ | oldOther
    · rfl
    · exact absurd same.symm (Nat.ne_of_lt (seated.spent oldOther))
    · exact absurd same (Nat.ne_of_lt (seated.spent old))
    · exact seated.apart old oldOther same
  case aside =>
    intro number pv entry isPv isEntry
    rcases isNewOrOld isPv with ⟨rfl, rfl⟩ | old
    · exact (Nat.ne_of_lt (seated.spentObserver isEntry)).symm
    · exact seated.aside old isEntry
  case spent =>
    intro number pv isPv
    rcases isNewOrOld isPv with ⟨rfl, rfl⟩ | old
    · exact Nat.lt_succ_self _
    · exact Nat.lt_succ_of_lt (seated.spent old)
  case spentObserver => exact fun isEntry => Nat.lt_succ_of_lt (seated.spentObserver isEntry)
  case valid =>
    intro number pv isPv
    rcases isNewOrOld isPv with ⟨rfl, rfl⟩ | old
    · exact valid
    · exact seated.valid old

/-- A station with a bare observer that listens to a channel and has heard nothing
yet. -/
def withObserver (station : Station) (name : String) : Station :=
  { station with
    network := station.network.join name (.observer station.observers.length)
    observers := station.observers ++ [(name, station.network.next)] }

/-- An observer that is added hears what its channel remembers. -/
theorem of_observe {name : String} {observer : Nat}
    (added : station.observe name = .ok (after, observer)) :
    observer = station.observers.length ∧
      after = (station.network.channel name).replay.foldl
        (fun station event => station.deliver station.callbackWriter event (.observer observer))
        (station.withObserver name) := by
  obtain ⟨⟨network, subscription⟩, listens, answered⟩ := Outcome.bind_eq_ok_iff.mp added
  obtain ⟨_, rfl, rfl⟩ := Network.subscribe_eq_ok_iff.mp listens
  cases answered
  have remembered :
      ((station.network.join name (.observer station.observers.length)).channel name).replay =
        (station.network.channel name).replay := by
    rw [Network.channel_join, if_pos rfl]
    rfl
  rw [remembered]
  exact ⟨rfl, rfl⟩

/-- The new observer takes a seat of its own. -/
theorem Seated.withObserver (seated : station.Seated) (name : String) :
    (station.withObserver name).Seated := by
  constructor
  case listens => exact fun isPv => Network.mem_listeners_join_iff.mpr (.inl (seated.listens isPv))
  case owned =>
    intro other id number listens
    rcases Network.mem_listeners_join_iff.mp listens with old | ⟨_, new⟩
    · exact seated.owned old
    · cases new
  case watched =>
    intro other id observer listens
    rcases Network.mem_listeners_join_iff.mp listens with old | ⟨rfl, new⟩
    · have known := seated.watched old
      have inside := (List.getElem?_eq_some_iff.mp known).1
      exact (List.getElem?_append_left inside).trans known
    · cases new
      simp [Station.withObserver]
  case once =>
    intro other
    apply Network.nodup_listeners_join _ (seated.once other)
    intro listens
    obtain ⟨⟨id, _⟩, inside, rfl⟩ := List.mem_map.mp listens
    have known := seated.watched inside
    simp at known
  case apart => exact seated.apart
  case aside =>
    intro number pv entry isPv isEntry
    rcases List.mem_append.mp isEntry with old | new
    · exact seated.aside isPv old
    · rw [List.mem_singleton.mp new]
      exact Nat.ne_of_lt (seated.spent isPv)
  case spent => exact fun isPv => Nat.lt_succ_of_lt (seated.spent isPv)
  case spentObserver =>
    intro entry isEntry
    rcases List.mem_append.mp isEntry with old | new
    · exact Nat.lt_succ_of_lt (seated.spentObserver old)
    · rw [List.mem_singleton.mp new]
      exact Nat.lt_succ_self _
  case valid => exact seated.valid

/-- An observer that is dismissed leaves the variables their seats. -/
theorem Seated.dismiss (seated : station.Seated) (observer : Nat) :
    (station.dismiss observer).Seated := by
  unfold Station.dismiss
  cases found : station.observers[observer]? with
  | none => exact seated
  | some entry =>
      rcases entry with ⟨name, subscription⟩
      have isEntry := List.mem_of_getElem? found
      apply seated.remain
      case protocol => rfl
      case next => rfl
      case observers => rfl
      case listeners => exact fun _ => Network.listeners_unsubscribe_sublist
      case was => exact fun isPv => ⟨_, isPv, rfl⟩
      case listens =>
        intro number pv isPv
        apply Network.mem_listeners_unsubscribe_iff.mpr
        exact ⟨seated.listens isPv, fun left => seated.aside isPv isEntry left.2⟩
      case present =>
        intro other id number inside
        obtain ⟨pv, isPv, _⟩ := seated.owned (Network.mem_listeners_unsubscribe_iff.mp inside).1
        exact ⟨pv, isPv⟩

theorem pv?_dropVariable (isPv : station.pv? number = some pv) (other : Nat) :
    (station.dropVariable number).pv? other =
      if other = number then none else station.pv? other := by
  have inside := lt_length_of_pv? isPv
  unfold dropVariable
  rw [isPv]
  simp only [pv?]
  by_cases same : other = number
  · subst same
    simp [inside]
  · simp [same, Ne.symm same]

/-- A variable that is dropped leaves the others their seats. -/
theorem Seated.dropVariable (seated : station.Seated) (number : Nat) :
    (station.dropVariable number).Seated := by
  cases isPv : station.pv? number with
  | none =>
      unfold Station.dropVariable
      rw [isPv]
      exact seated
  | some pv =>
      have left : station.dropVariable number =
          { station with
            network := station.network.unsubscribe pv.name pv.subscription
            pvs := station.pvs.set number none } := by
        simp [Station.dropVariable, isPv]
      have network : (station.dropVariable number).network =
          station.network.unsubscribe pv.name pv.subscription := by rw [left]
      have stays {other : Nat} {otherPv : Variable}
          (isOther : (station.dropVariable number).pv? other = some otherPv) :
          other ≠ number ∧ station.pv? other = some otherPv := by
        rw [pv?_dropVariable isPv] at isOther
        by_cases same : other = number
        · rw [if_pos same] at isOther
          cases isOther
        · rw [if_neg same] at isOther
          exact ⟨same, isOther⟩
      apply seated.remain
      case protocol => rw [left]; rfl
      case next => rw [left]; rfl
      case observers => rw [left]
      case listeners =>
        intro name
        rw [network]
        exact Network.listeners_unsubscribe_sublist
      case was => exact fun isOther => ⟨_, (stays isOther).2, rfl⟩
      case listens =>
        intro other otherPv isOther
        obtain ⟨different, old⟩ := stays isOther
        rw [network, Network.mem_listeners_unsubscribe_iff]
        exact ⟨seated.listens old, fun left => different (seated.apart old isPv left.2)⟩
      case present =>
        intro name id other inside
        rw [network, Network.mem_listeners_unsubscribe_iff] at inside
        obtain ⟨otherPv, isOther, rfl, rfl⟩ := seated.owned inside.1
        refine ⟨otherPv, ?_⟩
        rw [pv?_dropVariable isPv, if_neg]
        · exact isOther
        · rintro rfl
          obtain rfl := Option.some.inj (isPv.symm.trans isOther)
          exact inside.2 ⟨rfl, rfl⟩

end Station

end ProcessImage
