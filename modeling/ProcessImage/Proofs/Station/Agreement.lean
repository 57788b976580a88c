import ProcessImage.Proofs.Station.Members
import ProcessImage.Proofs.Station.Traffic

/-!
# Agreement of variables

Variables that are there from the start hear all that is posted to their channels,
each event once.  Those who lead hear it in the order of the posts, so those of
them that read alike agree.

A variable behind one that writes hears of an echo before it hears of the update
that made the other write, and goes on to show the older value.
-/

namespace ProcessImage.Station

/-- After any run a variable shows what it shows after hearing of all events on its
channel, in the order in which the channel took notice of them when it leads, and
otherwise in some order.  So leading variables that are alike agree. -/
theorem agreement_run {protocol : Protocol} {members : List Member} {station : Station}
    (assembled : ofMembers protocol members = .ok station) (traffic : List Traffic) :
    let after := station.run traffic
    let posted := station.posted traffic
    (∀ name, after.network.channel name =
      (eventsOn name posted).foldl Channel.after (station.network.channel name)) ∧
    (∀ number member, members[number]? = some member →
      ∃ pv heard, after.pv? number = some pv ∧ pv.cache.state = member.stateAfter heard ∧
        heard.Perm (eventsOn member.name posted) ∧
        (Member.Leads members number → heard = eventsOn member.name posted)) ∧
    ∀ first second member other, members[first]? = some member → members[second]? = some other →
      member.name = other.name → member.type = other.type → member.settings = other.settings →
      Member.Leads members first → Member.Leads members second →
      (after.pv? first).map (·.cache.state) = (after.pv? second).map (·.cache.state) := by
  intro after posted
  have enlisted := enlisted_ofMembers assembled
  obtain ⟨echoed, heard, passage, hears⟩ := delivery_run enlisted.tuned traffic
  have each : ∀ number member, members[number]? = some member →
      ∃ pv heard, after.pv? number = some pv ∧ pv.cache.state = member.stateAfter heard ∧
        heard.Perm (eventsOn member.name posted) ∧
        (Member.Leads members number → heard = eventsOn member.name posted) := by
    intro number member isMember
    obtain ⟨pv, isPv, makes, state, _⟩ := enlisted.pv isMember
    obtain ⟨cache, isAfter, follows, _⟩ := passage.pv isPv
    obtain ⟨perm, ordered⟩ := hears number pv isPv
    rw [makes.follow_eq, state] at follows
    rw [makes.name] at perm ordered
    exact ⟨_, heard number, isAfter, follows, perm, fun leads => ordered (enlisted.leads leads)⟩
  refine ⟨passage.channel, each, ?_⟩
  intro first second member other isMember isOther name type settings leads leadsOther
  obtain ⟨pv, heard, isPv, state, _, ordered⟩ := each first member isMember
  obtain ⟨otherPv, heardOther, isOtherPv, stateOther, _, orderedOther⟩ := each second other isOther
  have alike : member.prototype = other.prototype := by
    simp only [Member.prototype, name, type, settings]
  rw [isPv, isOtherPv, Option.map_some, Option.map_some, state, stateOther, ordered leads,
    orderedOther leadsOther, name, Member.stateAfter, Member.stateAfter, alike]

/-- A variable that writes two when it sees one leads beside another one: both end
up with two. -/
theorem agreement_run_counters :
    let number (count : Int) (fits : IntegerKind.int32.Contains count) : Value :=
      .scalar (.integer .int32 count fits)
    let one := number 1 (by decide)
    let two := number 2 (by decide)
    let reader : Member := { name := "count", type := one.typeOf }
    let writer : Member := { reader with reactions := [.write [none, some two]] }
    let members := [reader, writer]
    let update : Channel.Update :=
      { payload := .structured ((Wire.Tree.ofValue one).toOption.getD {}) }
    let traffic : List Traffic := [.connect "count", .post "count" update]
    ∃ station, ofMembers .structured members = .ok station ∧
      Member.Leads members 0 ∧ Member.Leads members 1 ∧
      ((station.run traffic).pv? 0).map (·.cache.state.value) = some two ∧
      ((station.run traffic).pv? 1).map (·.cache.state.value) = some two := by
  intro number one two reader writer members update traffic
  have leads : ∀ place, place ≤ 1 → Member.Leads members place := by
    intro place atMost member earlier other before _ isEarlier _
    obtain rfl : other = 0 := by omega
    cases isEarlier
    exact nofun
  obtain ⟨station, assembled, shown⟩ : ∃ station, ofMembers .structured members = .ok station ∧
      (reader.stateAfter (eventsOn "count" (station.posted traffic))).value = two := by
    subst traffic update members writer reader two one number
    exact ⟨_, rfl, rfl⟩
  obtain ⟨_, each, agree⟩ := agreement_run assembled traffic
  obtain ⟨pv, heard, isPv, state, _, ordered⟩ := each 0 _ rfl
  rw [ordered (leads 0 (by decide))] at state
  have first : ((station.run traffic).pv? 0).map (·.cache.state.value) = some two := by
    rw [isPv, Option.map_some, state]
    exact congrArg some shown
  have same := congrArg (Option.map Cache.State.value)
    (agree 0 1 _ _ rfl rfl rfl rfl rfl (leads 0 (by decide)) (leads 1 (by decide)))
  rw [Option.map_map, Option.map_map] at same
  exact ⟨station, assembled, leads 0 (by decide), leads 1 (by decide), first, same.symm.trans first⟩

/-- Behind a variable that writes two when it sees one, another one hears of two
first and ends up with one, against the order of the posts.  Variables with text
slots of different widths disagree on any longer text. -/
theorem disagreement_run :
    (let number (count : Int) (fits : IntegerKind.int32.Contains count) : Value :=
      .scalar (.integer .int32 count fits)
    let one := number 1 (by decide)
    let two := number 2 (by decide)
    let reader : Member := { name := "count", type := one.typeOf }
    let writer : Member := { reader with reactions := [.write [none, some two]] }
    let update : Channel.Update :=
      { payload := .structured ((Wire.Tree.ofValue one).toOption.getD {}) }
    let traffic : List Traffic := [.connect "count", .post "count" update]
    ∃ station, ofMembers .structured [writer, reader] = .ok station ∧
      ((station.run traffic).pv? 0).map (·.cache.state.value) = some two ∧
      ((station.run traffic).pv? 1).map (·.cache.state.value) = some one ∧
      (reader.stateAfter (eventsOn "count" (station.posted traffic))).value = two ∧ one ≠ two) ∧
    (let narrow : Member :=
      { name := "text", type := .scalar .string, settings := { stringSlotWidth := 4 } }
    let wide : Member := { narrow with settings := { stringSlotWidth := 8 } }
    let update : Channel.Update :=
      { payload := .legacy .string 1 (some (Text.encode "abcdefgh")) }
    let traffic : List Traffic := [.connect "text", .post "text" update]
    ∃ station, ofMembers .legacy [narrow, wide] = .ok station ∧
      ((station.run traffic).pv? 0).map (·.cache.state.value) = some (.scalar (.string "abcd")) ∧
      ((station.run traffic).pv? 1).map (·.cache.state.value) =
        some (.scalar (.string "abcdefgh"))) := by
  constructor
  · refine ⟨_, rfl, rfl, rfl, rfl, ?_⟩
    intro same
    cases same
  · exact ⟨_, rfl, rfl, rfl⟩

end ProcessImage.Station
