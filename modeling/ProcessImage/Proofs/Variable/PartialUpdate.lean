import ProcessImage.Proofs.Cache.Quiet
import ProcessImage.Proofs.Station.Parts
import ProcessImage.Proofs.Wire.Edit
import ProcessImage.Proofs.Wire.Merge

/-!
# Partial updates of variables

An update of the structured protocol carries a tree in which marks tell what is
new.  A variable that holds a value of the same type merges the marked parts
into it and keeps the rest; what cannot be read changes nothing.

The callbacks of the variable are called with the merged value.  As long as none
of them writes, the merged value is also what stays.
-/

namespace ProcessImage

open Wire Arena

/-- An edited tree is read from a branch of good names, which shows a mark exactly
when a node is marked. -/
theorem Wire.Tree.exists_branch_edited {schema : Schema} (tagged : schema.WellTagged)
    (plain : schema.PlainNames) (distinct : schema.DistinctNames) (edits : List Edit) :
    ∃ branch root, ((ofSchema schema).edited edits).root = some root ∧
      ((ofSchema schema).edited edits).branch? = some branch ∧ branch.WellNamed ∧
      ((ofSchema schema).edited edits).read = branch.read ∧
      (branch.hasMark = true ↔ MarkedBelow ((ofSchema schema).edited edits).nodes root) := by
  obtain ⟨root, isRoot, sound, found⟩ := exists_root_edited tagged edits
  exact ⟨_, root, isRoot, branch?_eq_some isRoot found,
    Branch.wellNamed_ofNode sound plain distinct found, read_eq_read_ofNode isRoot found,
    Branch.hasMark_ofNode_iff sound found⟩

/-! ## Updates of a cache -/

theorem Value.isEmpty_eq_of_typeOf_eq {value other : Value} (typed : value.typeOf = other.typeOf) :
    value.isEmpty = other.isEmpty := by
  cases value <;> cases other <;> first | rfl | cases typed

namespace Cache.State

/-- A state with a value and metadata that came by an update. -/
def taking (state : State) (value : Value) (metadata : Metadata) : State :=
  { state with
    snapshot :=
      { state.snapshot with value, metadata := state.snapshot.metadata.overlay metadata } }

/-- An update with the places of the marks in a branch merges the branch into a
value of its type. -/
theorem update_changedPlaces {state : State} (valid : state.valid = true) {branch : Branch}
    (named : branch.WellNamed) {value : Value} (read : branch.read = .ok value)
    (typed : state.snapshot.value.typeOf = value.typeOf) (marked : branch.hasMark = true)
    (metadata : Metadata) :
    state.update value branch.changedPlaces metadata =
      state.taking (branch.merge state.snapshot.value) metadata := by
  have present := Branch.isEmpty_of_read read
  have adopted := Branch.adopt_changedPlaces named read typed
  have inOld := Branch.hasPath_of_mem_changedPlaces named read typed
  have sameType : value.typeOf = value.typeOf := rfl
  have inNew := Branch.hasPath_of_mem_changedPlaces named read sameType
  have someMark := Branch.changedPlaces_ne_nil marked
  cases branch using Branch.mergeInduction with
  | whole branch isWhole =>
      have places : branch.changedPlaces = [[]] := by simp [isWhole.places, marked]
      have merged : branch.merge state.snapshot.value = value := by
        simp [isWhole.merged, marked, Branch.valueOr, read]
      simp [update, isPartial, places, merged, taking, present, valid]
  | struct id members _ =>
      have oldPresent : state.snapshot.value.isEmpty = false := by
        rw [Value.isEmpty_eq_of_typeOf_eq typed, present]
      have places : (Branch.struct false id members).changedPlaces.all
          (fun path => !path.isEmpty && value.hasPath path && state.snapshot.value.hasPath path) =
            true := by
        rw [List.all_eq_true]
        intro place inside
        have below := Branch.ne_nil_of_mem_memberChangedPlaces inside
        simp [inOld place inside, inNew place inside, below]
      have isPartial :
          state.isPartial value (Branch.struct false id members).changedPlaces = true := by
        simp only [isPartial, valid, oldPresent, present, places]
        simpa using someMark
      simp [update, isPartial, adopted, taking]

end Cache.State

/-! ## Calls -/

namespace Station

variable {station : Station} {number : Nat} {pv : Variable}

/-- Calls that write nothing leave the state of the cache. -/
theorem state_foldl_call (isPv : station.pv? number = some pv) (quiet : pv.cache.Quiet)
    (set : Writer) (snapshot : Snapshot) (callbacks : List (Nat × Cache.Reaction)) :
    ((callbacks.foldl (call set number snapshot) station).pv? number).map (·.cache.state) =
      some pv.cache.state := by
  induction callbacks generalizing station pv with
  | nil => simp [isPv]
  | cons callback rest ih =>
      have called : (call set number snapshot station callback).pv? number =
          some { pv with cache :=
            (pv.cache.call Cache.keep snapshot callback).1.advance callback.1 } := by
        simp only [call, isPv, quiet.planned?]
        exact pv?_setCache isPv _
      simp [ih called ((quiet.call snapshot callback).advance _)]

/-! ## Hearing of updates -/

/-- Whether hearing of an event brings the cache of a variable into a state: the
callbacks are called in this state, and it stays when none of them writes. -/
structure Brings (set : Writer) (event : Channel.Event) (station : Station) (number : Nat)
    (pv : Variable) (state : Cache.State) : Prop where
  called : ∃ changed : Station,
    changed.pv? number = some { pv with cache := { pv.cache with state } } ∧
      station.hear set event number =
        pv.cache.callbacks.foldl (call set number state.snapshot) changed
  stays : pv.cache.Quiet →
    ((station.hear set event number).pv? number).map (·.cache.state) = some state

/-- Hearing of an event that means a change brings the cache into the state
after that change. -/
theorem brings_of_changeOf (isPv : station.pv? number = some pv) (set : Writer)
    {event : Channel.Event} {change : Cache.Change} (means : pv.changeOf event = .ok change) :
    Brings set event station number pv (pv.cache.state.after change) := by
  have isPv' : (station.leave (pv.eventNotes event)).pv? number = some pv := isPv
  have changed : (((station.leave (pv.eventNotes event)).setCache number
      { pv.cache with state := pv.cache.state.after change }).leave change.notes).pv? number =
        some { pv with cache := { pv.cache with state := pv.cache.state.after change } } :=
    pv?_setCache isPv' _
  have heard : station.hear set event number =
      pv.cache.callbacks.foldl (call set number (pv.cache.state.after change).snapshot)
        (((station.leave (pv.eventNotes event)).setCache number
          { pv.cache with state := pv.cache.state.after change }).leave change.notes) := by
    simp only [hear, isPv, means, changeCache]
  constructor
  case called => exact ⟨_, changed, heard⟩
  case stays =>
    intro quiet
    rw [heard]
    exact state_foldl_call changed quiet set _ _

/-- An event that cannot be decoded leaves a variable as it is. -/
theorem pv?_hear_of_changeOf (isPv : station.pv? number = some pv) (set : Writer)
    {event : Channel.Event} {fault : Fault} (means : pv.changeOf event = .error fault) :
    (station.hear set event number).pv? number = some pv := by
  simp only [hear, isPv, means]
  exact isPv

/-- What an update means whose tree has a branch that is well named. -/
theorem changeOf_updated {tree : Tree} {branch : Branch} (isBranch : tree.branch? = some branch)
    (named : branch.WellNamed) {value : Value} (read : branch.read = .ok value)
    (metadata : Metadata) :
    pv.changeOf (.updated ⟨.structured tree, metadata⟩) =
      .ok (.updated value branch.changedPlaces metadata) := by
  have paths : tree.changedPaths.map Path.ofText = branch.changedPlaces := by
    simp [Tree.changedPaths, isBranch, Branch.map_ofText_changedPaths named, Path.ofText]
  have readEq : tree.read = .ok value := by simp [Tree.read, isBranch, read]
  simp [Variable.changeOf, Variable.decode, readEq, paths]

/-- A variable that holds a value of the type of an edited tree merges the marked
parts of the tree into it, part by part: a marked part is new, and a part
without any mark is kept.  What cannot be decoded leaves the variable as it
is. -/
theorem brings_edited {schema : Schema} (tagged : schema.WellTagged) (plain : schema.PlainNames)
    (distinct : schema.DistinctNames) (edits : List Edit)
    (isPv : station.pv? number = some pv) (set : Writer) (metadata : Metadata) :
    let tree := (Tree.ofSchema schema).edited edits
    let old := pv.cache.state.snapshot.value
    (∀ root value, tree.root = some root → MarkedBelow tree.nodes root →
      pv.cache.state.valid = true → tree.read = .ok value → old.typeOf = value.typeOf →
      ∃ branch, tree.branch? = some branch ∧
        Brings set (.updated ⟨.structured tree, metadata⟩) station number pv
          (pv.cache.state.taking (branch.merge old) metadata) ∧
        (branch.merge old).typeOf = old.typeOf ∧
        ∀ place part, branch.part? place = some part →
          (part.isMarked = true → (branch.merge old).get? place = value.get? place) ∧
          (part.hasMark = false → (branch.merge old).get? place = old.get? place)) ∧
    ∀ update fault, pv.decode update.payload = .error fault →
      (station.hear set (.updated update) number).pv? number = some pv := by
  intro tree old
  constructor
  · intro root value isRoot marked valid readEq typed
    obtain ⟨branch, other, isOther, isBranch, named, sameRead, markedIff⟩ :=
      Tree.exists_branch_edited tagged plain distinct edits
    obtain rfl : root = other := Option.some.inj (isRoot.symm.trans isOther)
    have shown := markedIff.mpr marked
    have read : branch.read = .ok value := sameRead.symm.trans readEq
    have brings := brings_of_changeOf isPv set (changeOf_updated isBranch named read metadata)
    rw [Cache.State.after, Cache.State.update_changedPlaces valid named read typed shown] at brings
    refine ⟨branch, isBranch, brings, Branch.typeOf_merge named read typed, ?_⟩
    intro place part isPart
    constructor
    · exact Branch.get?_merge_of_isMarked named read typed isPart
    · exact Branch.get?_merge_of_hasMark_eq_false named read typed isPart
  · intro update fault failed
    apply pv?_hear_of_changeOf isPv
    rw [Variable.changeOf, failed]
    rfl

/-- An alarm that is raised reaches a cache in which the motor runs, although the
tree still has it at rest. -/
theorem brings_edited_alarm :
    let schema := Schema.struct none
      [("running", .scalar (.scalar .boolean)), ("alarm", .scalar (.scalar .boolean))]
    let tree := (Tree.ofSchema schema).edited [.putScalar 1 ⟨.bool true, by decide⟩]
    let motor (running alarm : Bool) : Value := .struct none
      [("running", .scalar (.bool running)), ("alarm", .scalar (.bool alarm))]
    let pv : Variable :=
      { name := "motor", type := (motor true false).typeOf, subscription := 0
        cache := { state := { snapshot := { value := motor true false }, valid := true } } }
    let station : Station := { network := { protocol := .structured }, pvs := [some pv] }
    schema.WellTagged ∧ schema.PlainNames ∧ schema.DistinctNames ∧ station.pv? 0 = some pv ∧
      tree.read = .ok (motor false true) ∧
      ∀ set : Writer,
        ((station.hear set (.updated ⟨.structured tree, {}⟩) 0).pv? 0).map
          (·.cache.state.snapshot.value) = some (motor true true) := by
  intro schema tree motor pv station
  have tagged : schema.WellTagged := by
    simp [schema, Schema.WellTagged, Schema.Everywhere, Schema.MembersEverywhere,
      Schema.HasOwnTag, Tag.isScalar]
  have plain : schema.PlainNames := by
    simp [schema, Schema.PlainNames, Schema.Everywhere, Schema.MembersEverywhere,
      Schema.HasPlainMembers, Path.IsPlain]
  have distinct : schema.DistinctNames := by
    simp [schema, Schema.DistinctNames, Schema.Everywhere, Schema.MembersEverywhere,
      Schema.HasDistinctMembers]
  have isPv : station.pv? 0 = some pv := rfl
  have marked : MarkedBelow tree.nodes 2 :=
    ⟨1, .single (by decide), _, rfl, rfl⟩
  refine ⟨tagged, plain, distinct, isPv, rfl, fun set => ?_⟩
  obtain ⟨branch, isBranch, brings, _, _⟩ :=
    (brings_edited tagged plain distinct [.putScalar 1 ⟨.bool true, by decide⟩] isPv set {}).1
      2 (motor false true) rfl marked rfl rfl rfl
  obtain rfl := Option.some.inj isBranch
  have stays := brings.stays (by simp [Cache.Quiet, pv])
  have value := congrArg (Option.map (·.snapshot.value)) stays
  rw [Option.map_map] at value
  exact value

end Station

end ProcessImage
