import ProcessImage.Proofs.Station.Admission

/-!
# Stations of members

A station is put together from members: variables with their callbacks, added one
after the other.  The number of a variable is the place of its member, and those
who stand ahead of it on its channel were added before it.
-/

namespace ProcessImage

/-- What a variable and its callbacks are made from. -/
structure Member where
  name : String
  type : DataType
  settings : Settings := {}
  reactions : List Cache.Reaction := []

namespace Member

/-- Whether no callback of a member writes. -/
def Quiet (member : Member) : Prop :=
  ∀ reaction ∈ member.reactions, reaction.writesLeft = 0

/-- Whether a variable is made from a member. -/
structure Makes (member : Member) (pv : Variable) : Prop where
  name : pv.name = member.name
  type : pv.type = member.type
  settings : pv.settings = member.settings

/-- A variable that is made from a member, without its callbacks. -/
def prototype (member : Member) : Variable where
  name := member.name
  type := member.type
  settings := member.settings
  subscription := 0

/-- The state of a new variable of a member after it heard of events, one after the
other. -/
def stateAfter (member : Member) (events : List Channel.Event) : Cache.State :=
  events.foldl member.prototype.follow {}

theorem Makes.follow_eq {member : Member} {pv : Variable} (makes : member.Makes pv) :
    pv.follow = member.prototype.follow := by
  rcases member with ⟨name, type, settings, reactions⟩
  rcases pv with ⟨name, type, settings, subscription, cache⟩
  obtain ⟨rfl, rfl, rfl⟩ := makes
  rfl

/-- Whether no member that shares the channel of a member and was added before it
has a callback that writes. -/
def Leads (members : List Member) (number : Nat) : Prop :=
  ∀ member earlier, ∀ other < number, members[number]? = some member →
    members[other]? = some earlier → earlier.name = member.name → earlier.Quiet

end Member

namespace Station

/-- The station with one more callback of a variable. -/
def register (station : Station) (number : Nat) (reaction : Cache.Reaction) : Station :=
  ((station.onUpdate number reaction).map (·.1)).getD station

/-- The station with one more member. -/
def enlist (station : Station) (member : Member) : Except Fault Station := do
  let (added, number) ← station.addVariable member.name member.type member.settings
  return member.reactions.foldl (·.register number) added

/-- A station of members at which nothing has happened yet. -/
def ofMembers (protocol : Protocol) (members : List Member) : Except Fault Station :=
  members.foldlM enlist (ofProtocol protocol)

variable {station after : Station} {member : Member} {members : List Member} {number : Nat}

/-! ## What members become -/

/-- What a station is that was put together from members. -/
structure Enlisted (members : List Member) (station : Station) : Prop where
  tuned : station.Tuned
  unused : ∀ name, (station.network.channel name).connected = false ∧
    (station.network.channel name).last = none
  places : station.pvs.length = members.length
  valid : ∀ member ∈ members,
    Variable.validate station.network.protocol member.type member.settings = .ok () ∧
      member.name ≠ ""
  pv : ∀ {number member}, members[number]? = some member →
    ∃ pv, station.pv? number = some pv ∧ member.Makes pv ∧ pv.cache.state = {} ∧
      (member.Quiet → pv.cache.Quiet)
  order : ∀ name, (station.network.listeners name).Pairwise fun earlier later =>
    ∀ number other, earlier = .pv number → later = .pv other → number < other

theorem enlisted_nil (protocol : Protocol) : Enlisted [] (ofProtocol protocol) := by
  constructor
  case tuned =>
    constructor
    case mode => rfl
    case nodup => exact fun _ => List.nodup_nil
    case listens => exact fun isPv => nomatch isPv
    case exists_pv => exact fun listens => nomatch listens
  case unused => exact fun _ => ⟨rfl, rfl⟩
  case places => rfl
  case valid => exact nofun
  case pv => exact fun isMember => nomatch isMember
  case order => exact fun _ => List.Pairwise.nil

theorem getElem?_concat_eq_some_iff {last : Member} :
    (members ++ [last])[number]? = some member ↔
      members[number]? = some member ∨ number = members.length ∧ last = member := by
  rw [List.getElem?_append]
  by_cases inside : number < members.length
  · simp [inside, Nat.ne_of_lt inside]
  · by_cases isLast : number = members.length
    · simp [isLast]
    · have beyond : number - members.length ≠ 0 := by omega
      obtain ⟨gap, isGap⟩ := Nat.exists_eq_succ_of_ne_zero beyond
      simp [inside, isLast, isGap]

/-- A variable that is added is one more member without callbacks. -/
theorem Enlisted.addVariable (enlisted : Enlisted members station) {name : String}
    {type : DataType} {settings : Settings}
    (added : station.addVariable name type settings = .ok (after, number)) :
    number = members.length ∧ Enlisted (members ++ [⟨name, type, settings, []⟩]) after := by
  obtain ⟨rfl, passage⟩ := passage_addVariable enlisted.tuned added
  have replay : (station.network.channel name).replay = [] := by
    simp [Channel.replay, enlisted.unused]
  simp only [replay, ite_self] at passage
  refine ⟨enlisted.places, ?_⟩
  constructor
  case tuned => exact passage.tuned (enlisted.tuned.withNewcomer name type settings)
  case unused =>
    intro other
    rw [passage.channel, eventsOn_nil, List.foldl_nil, channel_withNewcomer]
    split
    case isTrue => exact enlisted.unused name
    case isFalse => exact enlisted.unused other
  case places =>
    rw [passage.places]
    simp [withNewcomer, enlisted.places]
  case valid =>
    rw [passage.protocol]
    intro member isMember
    rcases List.mem_append.mp isMember with old | new
    · exact enlisted.valid member old
    · have valid := exists_addVariable_iff.mp ⟨_, added⟩
      rw [List.mem_singleton.mp new]
      exact valid
  case pv =>
    intro number member isMember
    rcases getElem?_concat_eq_some_iff.mp isMember with old | ⟨rfl, rfl⟩
    · obtain ⟨pv, isPv, makes, state, quiet⟩ := enlisted.pv old
      have notLast : number ≠ station.pvs.length := Nat.ne_of_lt (lt_length_of_pv? isPv)
      have seated : (station.withNewcomer name type settings).pv? number = some pv := by
        rw [pv?_withNewcomer, if_neg notLast, isPv]
      obtain ⟨cache, isAfter, follows, stillQuiet⟩ := passage.pv seated
      rw [List.foldl_nil, state] at follows
      exact ⟨_, isAfter, ⟨makes.name, makes.type, makes.settings⟩, follows,
        fun isQuiet => stillQuiet (quiet isQuiet)⟩
    · have seated : (station.withNewcomer name type settings).pv? members.length =
          some { name, type, settings, subscription := station.network.next } := by
        rw [pv?_withNewcomer, if_pos enlisted.places.symm]
      obtain ⟨cache, isAfter, follows, stillQuiet⟩ := passage.pv seated
      exact ⟨_, isAfter, ⟨rfl, rfl, rfl⟩, follows, fun _ => stillQuiet Cache.quiet_new⟩
  case order =>
    intro other
    rw [passage.listeners, listeners_withNewcomer]
    split
    case isFalse => exact enlisted.order other
    case isTrue =>
      refine List.pairwise_append.mpr ⟨enlisted.order name, List.pairwise_singleton .., ?_⟩
      rintro earlier listens later isLast number other rfl rfl
      obtain ⟨pv, isPv, _⟩ := enlisted.tuned.exists_pv listens
      obtain rfl := Channel.Listener.pv.inj (List.mem_singleton.mp isLast)
      exact lt_length_of_pv? isPv

/-- A callback that is registered is one of the last member. -/
theorem Enlisted.register (enlisted : Enlisted (members ++ [member]) station)
    (reaction : Cache.Reaction) :
    Enlisted (members ++ [{ member with reactions := member.reactions ++ [reaction] }])
      (station.register members.length reaction) := by
  obtain ⟨pv, isPv, makes, state, quiet⟩ :=
    enlisted.pv (getElem?_concat_eq_some_iff.mpr (.inr ⟨rfl, rfl⟩))
  have registered : station.register members.length reaction =
      station.setCache members.length (pv.cache.subscribe reaction).1 := by
    simp [Station.register, onUpdate, isPv]
  rw [registered]
  constructor
  case tuned =>
    refine enlisted.tuned.congr rfl (fun _ => rfl) fun number => ?_
    by_cases isLast : number = members.length
    · subst isLast
      rw [pv?_setCache isPv, isPv]
      rfl
    · rw [pv?_setCache_of_ne isLast]
  case unused => exact enlisted.unused
  case places => simp [enlisted.places]
  case valid =>
    intro other isMember
    rcases List.mem_append.mp isMember with old | new
    · exact enlisted.valid other (List.mem_append_left _ old)
    · rw [List.mem_singleton.mp new]
      exact enlisted.valid member (List.mem_append_right _ List.mem_cons_self)
  case pv =>
    intro number other isMember
    rcases getElem?_concat_eq_some_iff.mp isMember with old | ⟨rfl, rfl⟩
    · have notLast : number ≠ members.length := by
        rintro rfl
        simp at old
      rw [pv?_setCache_of_ne notLast]
      exact enlisted.pv (getElem?_concat_eq_some_iff.mpr (.inl old))
    · refine ⟨_, pv?_setCache isPv _, ⟨makes.name, makes.type, makes.settings⟩, state, ?_⟩
      intro isQuiet
      have silent : reaction.writesLeft = 0 := isQuiet reaction (by simp)
      exact (quiet fun other inside => isQuiet other (by simp [inside])).subscribe silent
  case order => exact enlisted.order

theorem Enlisted.foldl_register (enlisted : Enlisted (members ++ [member]) station)
    (reactions : List Cache.Reaction) :
    Enlisted (members ++ [{ member with reactions := member.reactions ++ reactions }])
      (reactions.foldl (·.register members.length) station) := by
  induction reactions generalizing member station with
  | nil => simpa using enlisted
  | cons reaction rest ih => simpa using ih (enlisted.register reaction)

theorem Enlisted.enlist (enlisted : Enlisted members station)
    (isAfter : station.enlist member = .ok after) : Enlisted (members ++ [member]) after := by
  obtain ⟨⟨added, number⟩, isAdded, registered⟩ := Outcome.bind_eq_ok_iff.mp isAfter
  cases registered
  obtain ⟨rfl, enlisted⟩ := enlisted.addVariable isAdded
  simpa using enlisted.foldl_register member.reactions

theorem Enlisted.foldlM_enlist (enlisted : Enlisted members station) {others : List Member}
    (assembled : others.foldlM Station.enlist station = .ok after) :
    Enlisted (members ++ others) after := by
  induction others generalizing members station with
  | nil =>
      cases assembled
      simpa using enlisted
  | cons member rest ih =>
      rw [List.foldlM_cons] at assembled
      obtain ⟨next, isNext, assembled⟩ := Outcome.bind_eq_ok_iff.mp assembled
      simpa using ih (enlisted.enlist isNext) assembled

/-- All members of a station of members are enlisted. -/
theorem enlisted_ofMembers {protocol : Protocol}
    (assembled : ofMembers protocol members = .ok station) : Enlisted members station :=
  (enlisted_nil protocol).foldlM_enlist assembled

theorem Enlisted.exists_member (enlisted : Enlisted members station) {pv : Variable}
    (isPv : station.pv? number = some pv) :
    ∃ member, members[number]? = some member ∧ member.Makes pv ∧
      (member.Quiet → pv.cache.Quiet) := by
  have inside : number < members.length := enlisted.places ▸ lt_length_of_pv? isPv
  obtain ⟨other, isOther, makes, _, quiet⟩ := enlisted.pv (List.getElem?_eq_getElem inside)
  obtain rfl := Option.some.inj (isPv.symm.trans isOther)
  exact ⟨_, List.getElem?_eq_getElem inside, makes, quiet⟩

/-- A variable leads when its member does. -/
theorem Enlisted.leads (enlisted : Enlisted members station) (leads : Member.Leads members number) :
    station.Leads number := by
  intro pv ahead behind isPv listeners other otherPv isAhead isOther
  obtain ⟨member, isMember, makes, _⟩ := enlisted.exists_member isPv
  obtain ⟨earlier, isEarlier, makesOther, quiet⟩ := enlisted.exists_member isOther
  have before : other < number := by
    have ordered := enlisted.order pv.name
    rw [listeners] at ordered
    exact (List.pairwise_append.mp ordered).2.2 _ isAhead _ List.mem_cons_self other number rfl rfl
  have shared : earlier.name = member.name := by
    obtain ⟨named, isNamed, sameName⟩ := enlisted.tuned.exists_pv (listeners ▸
      List.mem_append_left _ isAhead : .pv other ∈ station.network.listeners pv.name)
    obtain rfl := Option.some.inj (isOther.symm.trans isNamed)
    rw [← makesOther.name, sameName, makes.name]
  exact quiet (leads member earlier other before isMember isEarlier shared)

end Station

end ProcessImage
