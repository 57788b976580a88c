import ProcessImage.Station

/-!
# Parts of a station

A change of one channel leaves the others, and those who come and go leave the
other listeners.  A change of the cache of one variable leaves the other variables.
Notes leave all parts.
-/

namespace ProcessImage

/-! ## Channels -/

namespace Network

theorem lookup_cons_eq (entry : String × Channel) (rest : List (String × Channel))
    (other : String) :
    (entry :: rest).lookup other = if other = entry.1 then some entry.2 else rest.lookup other := by
  rcases entry with ⟨first, channel⟩
  by_cases same : other = first
  · simp [same]
  · simp [List.lookup_cons, same, beq_false_of_ne same]

theorem lookup_putChannel (name other : String) (channel : Channel)
    (channels : List (String × Channel)) :
    (putChannel name channel channels).lookup other =
      if other = name then some channel else channels.lookup other := by
  induction channels with
  | nil => simp [putChannel, lookup_cons_eq]
  | cons entry rest ih =>
      rcases entry with ⟨first, old⟩
      by_cases found : first = name
      · subst found
        simp only [putChannel, if_true, lookup_cons_eq]
        split <;> rfl
      · simp only [putChannel, if_neg found, lookup_cons_eq, ih]
        by_cases same : other = first
        · simp [same, found]
        · simp [same]

/-- A change concerns the channel of its name alone. -/
theorem channel_change (network : Network) (name other : String) (change : Channel → Channel) :
    (network.change name change).channel other =
      if other = name then change (network.channel name) else network.channel other := by
  simp only [Network.change, Network.channel, lookup_putChannel]
  split <;> rfl

/-! ## Listeners -/

variable {network after : Network} {name other : String} {listener : Channel.Listener}
  {number : Nat} {entry : Nat × Channel.Listener}

/-- The network with a new listener at a channel. -/
def join (network : Network) (name : String) (listener : Channel.Listener) : Network :=
  { network.change name fun channel =>
      { channel with listeners := channel.listeners ++ [(network.next, listener)] } with
    next := network.next + 1 }

/-- Someone can listen to every channel that has a name. -/
theorem subscribe_eq_ok_iff :
    network.subscribe name listener = .ok (after, number) ↔
      name ≠ "" ∧ network.join name listener = after ∧ network.next = number := by
  unfold subscribe
  by_cases unnamed : name = ""
  · simp [unnamed]
  · simp only [if_neg unnamed]
    constructor
    · rintro ⟨⟩
      exact ⟨unnamed, rfl, rfl⟩
    · rintro ⟨_, rfl, rfl⟩
      rfl

theorem channel_join (network : Network) (name other : String) (listener : Channel.Listener) :
    (network.join name listener).channel other =
      if other = name then
        { network.channel name with
          listeners := (network.channel name).listeners ++ [(network.next, listener)] }
      else network.channel other :=
  channel_change network name other fun channel =>
    { channel with listeners := channel.listeners ++ [(network.next, listener)] }

/-- Those who listen to a channel are the old ones and the new one. -/
theorem mem_listeners_join_iff :
    entry ∈ ((network.join name listener).channel other).listeners ↔
      entry ∈ (network.channel other).listeners ∨
        other = name ∧ entry = (network.next, listener) := by
  rw [channel_join]
  by_cases same : other = name <;> simp [same]

theorem listeners_join :
    (network.join name listener).listeners other =
      if other = name then network.listeners name ++ [listener] else network.listeners other := by
  unfold listeners
  rw [channel_join]
  by_cases same : other = name <;> simp [same]

theorem nodup_listeners_join (fresh : listener ∉ network.listeners name)
    (nodup : (network.listeners other).Nodup) :
    ((network.join name listener).listeners other).Nodup := by
  rw [listeners_join]
  split
  next same =>
    subst same
    rw [List.nodup_append]
    refine ⟨nodup, by simp, ?_⟩
    rintro old inside new isNew rfl
    exact fresh (List.mem_singleton.mp isNew ▸ inside)
  next => exact nodup

theorem isConnected_join : (network.join name listener).isConnected other =
    network.isConnected other := by
  unfold isConnected
  rw [channel_join]
  by_cases same : other = name <;> simp [same]

theorem channel_unsubscribe (network : Network) (name other : String) (number : Nat) :
    (network.unsubscribe name number).channel other =
      if other = name then
        { network.channel name with
          listeners := (network.channel name).listeners.filter (·.1 != number) }
      else network.channel other :=
  channel_change network name other fun channel =>
    { channel with listeners := channel.listeners.filter (·.1 != number) }

/-- Those who listen to a channel are those who did before and did not leave. -/
theorem mem_listeners_unsubscribe_iff :
    entry ∈ ((network.unsubscribe name number).channel other).listeners ↔
      entry ∈ (network.channel other).listeners ∧ ¬ (other = name ∧ entry.1 = number) := by
  rw [channel_unsubscribe]
  by_cases same : other = name <;> simp [same]

theorem listeners_unsubscribe_sublist :
    ((network.unsubscribe name number).channel other).listeners.Sublist
      (network.channel other).listeners := by
  rw [channel_unsubscribe]
  split
  next same =>
    subst same
    exact List.filter_sublist
  next => exact .refl _

theorem isConnected_unsubscribe : (network.unsubscribe name number).isConnected other =
    network.isConnected other := by
  unfold isConnected
  rw [channel_unsubscribe]
  by_cases same : other = name <;> simp [same]

end Network

/-! ## Variables -/

namespace Station

variable {station : Station} {number : Nat} {pv : Variable}

theorem pv?_setCache (isPv : station.pv? number = some pv) (cache : Cache) :
    (station.setCache number cache).pv? number = some { pv with cache } := by
  have found : station.pvs[number]? = some (some pv) := Option.join_eq_some_iff.mp isPv
  simp [pv?, setCache, found]

theorem pv?_setCache_of_ne {other : Nat} (ne : other ≠ number) (cache : Cache) :
    (station.setCache number cache).pv? other = station.pv? other := by
  simp [pv?, setCache, ne.symm]

/-- A variable where one has got another cache is that one or was there before. -/
theorem of_pv?_setCache (isPv : station.pv? number = some pv) {cache : Cache} {other : Nat}
    {otherPv : Variable} (isOther : (station.setCache number cache).pv? other = some otherPv) :
    other = number ∧ otherPv = { pv with cache } ∨
      other ≠ number ∧ station.pv? other = some otherPv := by
  by_cases same : other = number
  · subst same
    exact .inl ⟨rfl, (Option.some.inj ((pv?_setCache isPv cache).symm.trans isOther)).symm⟩
  · exact .inr ⟨same, (pv?_setCache_of_ne same cache).symm.trans isOther⟩

@[simp]
theorem length_setCache (station : Station) (number : Nat) (cache : Cache) :
    (station.setCache number cache).pvs.length = station.pvs.length := by
  simp [setCache]

@[simp]
theorem network_setCache (station : Station) (number : Nat) (cache : Cache) :
    (station.setCache number cache).network = station.network :=
  rfl

@[simp]
theorem pv?_leave (notes : List Note) : (station.leave notes).pv? number = station.pv? number :=
  rfl

@[simp]
theorem network_leave (notes : List Note) : (station.leave notes).network = station.network :=
  rfl

end Station

end ProcessImage
