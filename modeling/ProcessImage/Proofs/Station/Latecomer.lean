import Mathlib.Data.List.Induction
import ProcessImage.Proofs.Cache.History
import ProcessImage.Proofs.Station.Members
import ProcessImage.Proofs.Station.Traffic
import ProcessImage.Proofs.Value.Places
import ProcessImage.Proofs.Wire.Edit

/-!
# Latecomers

A channel remembers its latest update, and replays it to a variable that comes
late.  An older variable may have merged this update into a value that the channel
does not remember, or it may have kept a value because the update could not be
decoded.  Otherwise the two variables agree, and after a merge they agree at all
places that the update brought.
-/

namespace ProcessImage

/-! ## What a channel remembers -/

/-- Whether an update is the latest one in a history, and what came before it.
Only connections and disconnections come after it. -/
def Channel.Update.IsLatest (update : Update) (before history : List Event) : Prop :=
  ∃ after, history = before ++ .updated update :: after ∧
    ∀ event ∈ after, event = .connected ∨ event = .disconnected

theorem Channel.Update.IsLatest.concat {update : Update} {before history : List Event}
    (latest : update.IsLatest before history) {event : Event}
    (connection : event = .connected ∨ event = .disconnected) :
    update.IsLatest before (history ++ [event]) := by
  obtain ⟨after, rfl, connections⟩ := latest
  refine ⟨after ++ [event], by simp, ?_⟩
  intro other inside
  rcases List.mem_append.mp inside with old | new
  · exact connections other old
  · rwa [List.mem_singleton.mp new]

namespace Variable

variable {pv : Variable} {state : Cache.State} {channel : Channel} {update : Channel.Update}

/-- Connections and disconnections leave the value. -/
theorem value_foldl_follow {events : List Channel.Event}
    (connections : ∀ event ∈ events, event = .connected ∨ event = .disconnected) :
    (events.foldl pv.follow state).snapshot.value = state.snapshot.value := by
  induction events generalizing state with
  | nil => rfl
  | cons event rest ih =>
      rw [List.forall_mem_cons] at connections
      rw [List.foldl_cons, ih connections.2]
      rcases connections.1 with rfl | rfl <;> rfl

/-- A channel remembers the latest update of a history unless its value was dropped
after it, and then a variable has no value either. -/
theorem remembered (pv : Variable) (unused : channel.last = none)
    (empty : state.snapshot.value = .empty) (history : List Channel.Event) :
    ((history.foldl Channel.after channel).last = none →
      (history.foldl pv.follow state).snapshot.value = .empty) ∧
    ∀ update, (history.foldl Channel.after channel).last = some update →
      ∃ before, update.IsLatest before history := by
  induction history using List.reverseRecOn with
  | nil => exact ⟨fun _ => empty, fun update isLast => nomatch unused.symm.trans isLast⟩
  | append_singleton history event ih =>
      rw [List.foldl_append, List.foldl_append]
      obtain ⟨dropped, kept⟩ := ih
      have concat (connection : event = .connected ∨ event = .disconnected) :
          ∀ update, (history.foldl Channel.after channel).last = some update →
            ∃ before, update.IsLatest before (history ++ [event]) := by
        intro update isLast
        obtain ⟨before, latest⟩ := kept update isLast
        exact ⟨before, latest.concat connection⟩
      cases event with
      | updated update =>
          refine ⟨nofun, fun other isLast => ?_⟩
          cases isLast
          exact ⟨history, [], rfl, nofun⟩
      | cleared => exact ⟨fun _ => rfl, nofun⟩
      | connected => exact ⟨dropped, concat (.inl rfl)⟩
      | disconnected => exact ⟨dropped, concat (.inr rfl)⟩

/-! ## Catching up -/

/-- What an older variable that heard of a history and a newer one show side by
side, according to what the channel remembers. -/
inductive CatchesUp (pv : Variable) (history : List Channel.Event) :
    Option Channel.Update → Value → Value → Prop where
  /-- Nothing is remembered, and both have no value. -/
  | nothing : CatchesUp pv history none .empty .empty
  /-- The latest update cannot be decoded, and the older variable shows what it
  had before. -/
  | undecodable {update : Channel.Update} {before : List Channel.Event} {fault : Fault}
      (latest : update.IsLatest before history) (failed : pv.decode update.payload = .error fault) :
      CatchesUp pv history (some update) (before.foldl pv.follow {}).snapshot.value .empty
  /-- The latest update replaced what the older variable had, and both show it. -/
  | whole {update : Channel.Update} {before : List Channel.Event} {value : Value}
      {changed : List Path} (latest : update.IsLatest before history)
      (decoded : pv.decode update.payload = .ok (value, changed))
      (replaces : (before.foldl pv.follow {}).isPartial value changed = false) :
      CatchesUp pv history (some update) value value
  /-- The latest update was merged into what the older variable had, and both agree
  where it was new. -/
  | merged {update : Channel.Update} {before : List Channel.Event} {value old : Value}
      {changed : List Path} (latest : update.IsLatest before history)
      (decoded : pv.decode update.payload = .ok (value, changed))
      (merges : (before.foldl pv.follow {}).isPartial value changed = true)
      (isOld : (before.foldl pv.follow {}).snapshot.value = old)
      (agree : ∀ place ∈ changed, (old.adopt value changed).get? place = value.get? place) :
      CatchesUp pv history (some update) (old.adopt value changed) value

/-- A merge brings all places that it is about. -/
theorem get?_adopt_of_isPartial {value : Value} {changed : List Path}
    (merges : state.isPartial value changed = true) {place : Path} (isNew : place ∈ changed) :
    (state.snapshot.value.adopt value changed).get? place = value.get? place := by
  simp only [Cache.State.isPartial, Bool.and_eq_true, List.all_eq_true] at merges
  obtain ⟨_, places⟩ := merges
  exact Value.get?_adopt (fun other inside => (places other inside).2)
    (fun other inside => (places other inside).1.2) isNew

/-- A variable that hears what its channel replays catches up with one that heard all. -/
theorem catchesUp_replay (unused : channel.last = none) (unconnected : channel.connected = false)
    {history : List Channel.Event}
    (connected : (history.foldl Channel.after channel).connected = true) :
    pv.CatchesUp history (history.foldl Channel.after channel).last
      (history.foldl pv.follow {}).value
      ((history.foldl Channel.after channel).replay.foldl pv.follow {}).value := by
  have known : Cache.State.isConnected {} = channel.connected := unconnected.symm
  have isConnected : (history.foldl pv.follow {}).isConnected = true :=
    (isConnected_foldl_follow known history).trans connected
  have empty : (Cache.State.snapshot {}).value = .empty := rfl
  obtain ⟨dropped, kept⟩ := remembered pv unused empty history
  rw [Cache.State.value, if_pos isConnected, Channel.replay, if_pos connected]
  cases isLast : (history.foldl Channel.after channel).last with
  | none =>
      rw [dropped isLast]
      exact .nothing
  | some update =>
      obtain ⟨before, latest⟩ := kept update isLast
      have latest' := latest
      obtain ⟨after, isHistory, connections⟩ := latest'
      have shown : (history.foldl pv.follow {}).snapshot.value =
          (pv.follow (before.foldl pv.follow {}) (.updated update)).snapshot.value := by
        rw [isHistory, List.foldl_append, List.foldl_cons, value_foldl_follow connections]
      rw [shown]
      change pv.CatchesUp history _ _ (pv.follow (pv.follow {} .connected) (.updated update)).value
      cases decoded : pv.decode update.payload with
      | error fault =>
          rw [follow_updated_of_error decoded, follow_updated_of_error decoded]
          exact .undecodable latest decoded
      | ok result =>
          rcases result with ⟨value, changed⟩
          have taken : (pv.follow (pv.follow {} .connected) (.updated update)).value = value := by
            rw [follow_updated_of_ok decoded]
            rfl
          rw [taken, follow_updated_of_ok decoded, Cache.State.update]
          cases kind : (before.foldl pv.follow {}).isPartial value changed with
          | false => exact .whole latest decoded kind
          | true => exact .merged latest decoded kind rfl fun _ => get?_adopt_of_isPartial kind

end Variable

namespace Station

variable {station : Station} {number : Nat}

/-- Where no variable writes, all lead. -/
theorem leads_of_quiet (quiet : ∀ number pv, station.pv? number = some pv → pv.cache.Quiet)
    (number : Nat) : station.Leads number :=
  fun _ _ _ _ _ other otherPv _ isOther => quiet other otherPv isOther

/-- After any run of a station without writing callbacks, a second variable can be
added beside any variable whose channel is connected, and it catches up with that
variable. -/
theorem latecomer_catchesUp {protocol : Protocol} {members : List Member}
    (assembled : ofMembers protocol members = .ok station)
    (quiet : ∀ member ∈ members, member.Quiet) (traffic : List Traffic) {member : Member}
    (isMember : members[number]? = some member)
    (connected : (station.run traffic).network.isConnected member.name = true) :
    ∃ late newcomer early pv, (station.run traffic).addVariable member.name member.type
        member.settings = .ok (late, newcomer) ∧
      late.pv? number = some early ∧ late.pv? newcomer = some pv ∧
      member.prototype.CatchesUp (eventsOn member.name (station.posted traffic))
        ((station.run traffic).network.channel member.name).last early.cache.state.value
        pv.cache.state.value := by
  have enlisted := enlisted_ofMembers assembled
  have silent : ∀ number pv, station.pv? number = some pv → pv.cache.Quiet := by
    intro number pv isPv
    obtain ⟨other, isOther, _, isQuiet⟩ := enlisted.exists_member isPv
    exact isQuiet (quiet other (List.mem_of_getElem? isOther))
  obtain ⟨echoed, ran⟩ := delivery_run enlisted.tuned traffic
  have tuned := ran.tuned enlisted.tuned
  obtain ⟨heard, passage, hears⟩ := ran
  have added : ∃ result, (station.run traffic).addVariable member.name member.type
      member.settings = .ok result := by
    rw [exists_addVariable_iff, passage.protocol]
    exact enlisted.valid member (List.mem_of_getElem? isMember)
  obtain ⟨⟨late, newcomer⟩, added⟩ := added
  obtain ⟨rfl, joined⟩ := passage_addVariable tuned added
  -- The older variable heard the whole history, and hears nothing when the other comes.
  obtain ⟨pv, isPv, makes, fresh, _⟩ := enlisted.pv isMember
  obtain ⟨cache, isPvAfter, follows, _⟩ := passage.pv isPv
  obtain ⟨_, ordered⟩ := hears number pv isPv
  rw [ordered (leads_of_quiet silent number), fresh, makes.follow_eq, makes.name] at follows
  have notLast : number ≠ (station.run traffic).pvs.length :=
    Nat.ne_of_lt (lt_length_of_pv? isPvAfter)
  obtain ⟨earlyCache, isEarly, stays, _⟩ := joined.pv ((pv?_withNewcomer ..).trans
    ((if_neg notLast).trans isPvAfter))
  rw [if_neg notLast, List.foldl_nil, follows] at stays
  -- The newer one hears the replay.
  obtain ⟨lateCache, isLate, replayed, _⟩ := joined.pv ((pv?_withNewcomer ..).trans (if_pos rfl))
  rw [if_pos rfl] at replayed
  have makesLate : member.Makes
      { name := member.name
        type := member.type
        settings := member.settings
        subscription := (station.run traffic).network.next } :=
    ⟨rfl, rfl, rfl⟩
  rw [makesLate.follow_eq, passage.channel] at replayed
  unfold Network.isConnected at connected
  rw [passage.channel] at connected
  refine ⟨late, _, _, _, added, isEarly, isLate, ?_⟩
  rw [stays, replayed, passage.channel]
  obtain ⟨unconnected, unused⟩ := enlisted.unused member.name
  exact Variable.catchesUp_replay unused unconnected connected

/-- A motor that runs is merged with an alarm which the channel remembers for a
motor at rest: a latecomer sees the alarm as well. -/
theorem latecomer_catchesUp_alarm :
    let motor (running alarm : Bool) : Value := .struct none
      [("running", .scalar (.bool running)), ("alarm", .scalar (.bool alarm))]
    let member : Member := { name := "motor", type := (motor true false).typeOf }
    let running : Channel.Update :=
      { payload := .structured ((Wire.Tree.ofValue (motor true false)).toOption.getD {}) }
    let alarm : Channel.Update :=
      { payload := .structured ((Wire.Tree.ofSchema (.struct none
          [("running", .scalar (.scalar .boolean)), ("alarm", .scalar (.scalar .boolean))])).edited
            [.putScalar 1 ⟨.bool true, by decide⟩]) }
    let traffic : List Traffic :=
      [.connect "motor", .post "motor" running, .post "motor" alarm]
    ∃ station, ofMembers .structured [member] = .ok station ∧
      (∀ other ∈ [member], other.Quiet) ∧ [member][0]? = some member ∧
      (station.run traffic).network.isConnected member.name = true ∧
      ∃ late newcomer early pv, (station.run traffic).addVariable member.name member.type
          member.settings = .ok (late, newcomer) ∧
        late.pv? 0 = some early ∧ late.pv? newcomer = some pv ∧
        early.cache.state.value.get? ["alarm"] = pv.cache.state.value.get? ["alarm"] := by
  intro motor member running alarm traffic
  obtain ⟨station, assembled, connected, isLast⟩ : ∃ station,
      ofMembers .structured [member] = .ok station ∧
      (station.run traffic).network.isConnected member.name = true ∧
      ((station.run traffic).network.channel member.name).last = some alarm := by
    subst traffic alarm running member motor
    exact ⟨_, rfl, rfl, rfl⟩
  have quiet : ∀ other ∈ [member], other.Quiet := by
    intro other inside
    rw [List.mem_singleton.mp inside]
    exact nofun
  have decoded : member.prototype.decode alarm.payload = .ok (motor false true, [["alarm"]]) := rfl
  obtain ⟨late, newcomer, early, pv, added, isEarly, isLate, catches⟩ :=
    latecomer_catchesUp assembled quiet traffic (rfl : [member][0]? = some member) connected
  refine ⟨station, assembled, quiet, rfl, connected, late, newcomer, early, pv, added, isEarly,
    isLate, ?_⟩
  rw [isLast] at catches
  generalize early.cache.state.value = first, pv.cache.state.value = second at catches ⊢
  cases catches with
  | undecodable latest failed => cases decoded.symm.trans failed
  | whole latest known replaces => rfl
  | merged latest known merges isOld agree =>
      cases decoded.symm.trans known
      exact agree ["alarm"] List.mem_cons_self

/-- Latecomers that show something else: the channel remembers only the alarm of a
motor that runs, it remembers an update that cannot be decoded, and the latecomer
has wider text slots. -/
theorem latecomer_differs :
    (let motor (running alarm : Bool) : Value := .struct none
      [("running", .scalar (.bool running)), ("alarm", .scalar (.bool alarm))]
    let member : Member := { name := "motor", type := (motor true false).typeOf }
    let running : Channel.Update :=
      { payload := .structured ((Wire.Tree.ofValue (motor true false)).toOption.getD {}) }
    let alarm : Channel.Update :=
      { payload := .structured ((Wire.Tree.ofSchema (.struct none
          [("running", .scalar (.scalar .boolean)), ("alarm", .scalar (.scalar .boolean))])).edited
            [.putScalar 1 ⟨.bool true, by decide⟩]) }
    let choice : Channel.Update :=
      { payload := .structured (Wire.Tree.ofSchema (.union none [])) }
    ∃ station late later, ofMembers .structured [member] = .ok station ∧
      (station.run [.connect "motor", .post "motor" running, .post "motor" alarm]).addVariable
        member.name member.type member.settings = .ok (late, 1) ∧
      (late.pv? 0).map (·.cache.state.value) = some (motor true true) ∧
      (late.pv? 1).map (·.cache.state.value) = some (motor false true) ∧
      (station.run [.connect "motor", .post "motor" running, .post "motor" choice]).addVariable
        member.name member.type member.settings = .ok (later, 1) ∧
      (later.pv? 0).map (·.cache.state.value) = some (motor true false) ∧
      (later.pv? 1).map (·.cache.state.value) = some .empty) ∧
    (let narrow : Member :=
      { name := "text", type := .scalar .string, settings := { stringSlotWidth := 4 } }
    let update : Channel.Update :=
      { payload := .legacy .string 1 (some (Text.encode "abcdefgh")) }
    ∃ station late, ofMembers .legacy [narrow] = .ok station ∧
      (station.run [.connect "text", .post "text" update]).addVariable
        narrow.name narrow.type { stringSlotWidth := 8 } = .ok (late, 1) ∧
      (late.pv? 0).map (·.cache.state.value) = some (.scalar (.string "abcd")) ∧
      (late.pv? 1).map (·.cache.state.value) = some (.scalar (.string "abcdefgh"))) := by
  constructor
  · exact ⟨_, _, _, rfl, rfl, rfl, rfl, rfl, rfl, rfl⟩
  · exact ⟨_, _, rfl, rfl, rfl, rfl⟩

end Station

end ProcessImage
