import ProcessImage.Proofs.Wire.Marks
import ProcessImage.Value.Merge

/-!
# Merging branches into values

`Branch.merge` says what a value becomes when the marked parts of a branch are
taken over: a marked node gives its value, a structure without a mark of its own
is merged member by member, and an array gives its value when anything in it is
marked.

Adopting the places of the marks one after the other comes to the same, when
the old value has the type of the new one.
-/

namespace ProcessImage.Wire.Branch

/-- The value of a branch, or another one where there is none. -/
def valueOr (branch : Branch) (other : Value) : Value :=
  match branch.read with
  | .ok value => value
  | .error _ => other

mutual

/-- An old value with the marked parts of a branch taken over. -/
def merge : Branch → Value → Value
  | .struct false _ members, .struct name fields => .struct name (mergeMembers members fields)
  | branch, old => if branch.hasMark then branch.valueOr old else old

/-- Old fields with the marked parts of members taken over. -/
def mergeMembers : List (String × Branch) → List (String × Value) → List (String × Value)
  | (_, member) :: rest, (name, old) :: fields =>
      (name, merge member old) :: mergeMembers rest fields
  | _, fields => fields

end

/-- The branch at a place that only structures without a mark of their own lead
to. -/
def part? : Branch → Path → Option Branch
  | branch, [] => some branch
  | .struct false _ members, name :: rest => (members.lookup name).bind (part? · rest)
  | _, _ => none

/-! ## Reading structures -/

theorem readFields_cons_eq_ok_iff {name : String} {member : Branch}
    {rest : List (String × Branch)} {fields : List (String × Value)} :
    readFields ((name, member) :: rest) = .ok fields ↔
      ∃ value others, member.read = .ok value ∧ readFields rest = .ok others ∧
        (name, value) :: others = fields := by
  simp [readFields, Outcome.bind_eq_ok_iff]

theorem read_struct_eq_ok_iff {changed : Bool} {id : Option String}
    {members : List (String × Branch)} (nodup : (members.map (·.1)).Nodup) {value : Value} :
    (Branch.struct changed id members).read = .ok value ↔
      ∃ fields, readFields members = .ok fields ∧ .struct id fields = value := by
  unfold read
  rw [readMembers_eq_readFields (by simpa using nodup)]
  cases readFields members <;> simp [Except.map]

theorem names_of_readFields {members : List (String × Branch)} {fields : List (String × Value)}
    (read : readFields members = .ok fields) : fields.map (·.1) = members.map (·.1) := by
  induction members generalizing fields with
  | nil =>
      cases read
      rfl
  | cons member rest ih =>
      obtain ⟨value, others, _, later, rfl⟩ := readFields_cons_eq_ok_iff.mp read
      simp [ih later]

/-- What is read is a value. -/
theorem isEmpty_of_read {branch : Branch} {value : Value} (read : branch.read = .ok value) :
    value.isEmpty = false := by
  cases branch with
  | scalar changed datum =>
      cases read
      rfl
  | scalarArray changed name length items =>
      obtain ⟨kind, _, same⟩ := Outcome.bind_eq_ok_iff.mp read
      cases same
      rfl
  | struct changed id members =>
      obtain ⟨fields, _, same⟩ := Outcome.bind_eq_ok_iff.mp read
      cases same
      rfl
  | structArray changed id members name length elements =>
      obtain ⟨fields, _, later⟩ := Outcome.bind_eq_ok_iff.mp read
      obtain ⟨values, _, same⟩ := Outcome.bind_eq_ok_iff.mp later
      cases same
      rfl
  | _ => cases read

/-- A value of the type of a structure is a structure. -/
theorem exists_fields_of_typeOf_eq {value : Value} {name : Option String}
    {types : List (String × DataType)} (typed : value.typeOf = .struct name types) :
    ∃ fields, value = .struct name fields ∧ Value.fieldTypes fields = types := by
  cases value with
  | struct other fields =>
      obtain ⟨rfl, same⟩ := DataType.struct.inj typed
      exact ⟨fields, rfl, same⟩
  | _ => cases typed

/-- Where a structure is read, the value and every other one of its type have
fields of the same types. -/
theorem exists_fields_of_read {id : Option String} {members : List (String × Branch)}
    (named : (Branch.struct false id members).WellNamed) {value old : Value}
    (read : (Branch.struct false id members).read = .ok value)
    (typed : old.typeOf = value.typeOf) :
    ∃ fields oldFields, value = .struct id fields ∧ old = .struct id oldFields ∧
      readFields members = .ok fields ∧ Value.fieldTypes oldFields = Value.fieldTypes fields := by
  obtain ⟨fields, readEq, rfl⟩ := (read_struct_eq_ok_iff named.nodup).mp read
  obtain ⟨oldFields, rfl, oldTypes⟩ := exists_fields_of_typeOf_eq typed
  exact ⟨fields, oldFields, rfl, rfl, readEq, oldTypes⟩

/-! ## Parts that count as a whole -/

/-- Whether a branch is taken over as a whole or not at all. -/
structure IsWhole (branch : Branch) : Prop where
  merged : ∀ old, branch.merge old = if branch.hasMark then branch.valueOr old else old
  places : branch.changedPlaces = if branch.hasMark then [[]] else []
  closed : ∀ name rest, branch.part? (name :: rest) = none

/-- A property of all branches follows for those that count as a whole and for
structures without a mark of their own. -/
@[elab_as_elim]
theorem mergeInduction {motive : Branch → Prop} (whole : ∀ branch, IsWhole branch → motive branch)
    (struct : ∀ id members, (∀ member ∈ members, motive member.2) →
      motive (.struct false id members)) (branch : Branch) : motive branch := by
  induction branch with
  | struct changed id members each =>
      cases changed with
      | true =>
          exact whole _
            ⟨fun old => by simp [merge], by simp [changedPlaces, hasMark], fun _ _ => rfl⟩
      | false => exact struct id members each
  | _ => exact whole _ ⟨fun old => by simp [merge], by simp [changedPlaces], fun _ _ => rfl⟩

/-! ## Types of merged values -/

theorem fieldTypes_mergeMembers {members : List (String × Branch)}
    (each : ∀ member ∈ members, ∀ value old, member.2.read = .ok value →
      old.typeOf = value.typeOf → (member.2.merge old).typeOf = old.typeOf)
    {fields old : List (String × Value)} (read : readFields members = .ok fields)
    (typed : Value.fieldTypes old = Value.fieldTypes fields) :
    Value.fieldTypes (mergeMembers members old) = Value.fieldTypes old := by
  induction members generalizing fields old with
  | nil => rfl
  | cons member rest ih =>
      obtain ⟨value, others, first, later, rfl⟩ := readFields_cons_eq_ok_iff.mp read
      cases old with
      | nil => cases typed
      | cons field more =>
          simp only [Value.fieldTypes, List.cons.injEq, Prod.mk.injEq] at typed
          have sameFirst := each member List.mem_cons_self value field.2 first typed.1.2
          have sameRest := ih (fun member inside => each member (List.mem_cons_of_mem _ inside))
            later typed.2
          simp [mergeMembers, Value.fieldTypes, sameFirst, sameRest]

/-- Merging keeps the type. -/
theorem typeOf_merge {branch : Branch} (named : branch.WellNamed) {value old : Value}
    (read : branch.read = .ok value) (typed : old.typeOf = value.typeOf) :
    (branch.merge old).typeOf = old.typeOf := by
  induction branch using mergeInduction generalizing value old with
  | whole branch isWhole =>
      rw [isWhole.merged]
      split
      · simp [valueOr, read, typed]
      · rfl
  | struct id members each =>
      obtain ⟨fields, oldFields, rfl, rfl, readEq, oldTypes⟩ :=
        exists_fields_of_read named read typed
      have kept := fieldTypes_mergeMembers (fun member inside value old =>
        each member inside (named.member inside)) readEq oldTypes
      simp [merge, Value.typeOf, kept]

/-! ## Adopting the places of marks -/

theorem fresh_of_nodup_append {before rest : List String} {name : String}
    (nodup : (before ++ name :: rest).Nodup) : name ∉ before := fun inside =>
  (List.nodup_append.mp nodup).2.2 name inside name List.mem_cons_self rfl

/-- The places of marks exist in every value of the type that is read. -/
theorem hasPath_of_mem_memberChangedPlaces {members : List (String × Branch)}
    (each : ∀ member ∈ members, ∀ value old : Value, member.2.read = .ok value →
      old.typeOf = value.typeOf → ∀ place ∈ member.2.changedPlaces, old.hasPath place = true)
    {fields old : List (String × Value)} (read : readFields members = .ok fields)
    (typed : Value.fieldTypes old = Value.fieldTypes fields) (before : List (String × Value))
    (nodup : (before.map (·.1) ++ members.map (·.1)).Nodup) (name : Option String) :
    ∀ place ∈ memberChangedPlaces members,
      (Value.struct name (before ++ old)).hasPath place = true := by
  induction members generalizing fields before old with
  | nil => simp [memberChangedPlaces]
  | cons member rest ih =>
      obtain ⟨value, others, first, later, rfl⟩ := readFields_cons_eq_ok_iff.mp read
      cases old with
      | nil => cases typed
      | cons field more =>
          rcases field with ⟨fieldName, oldValue⟩
          simp only [Value.fieldTypes, List.cons.injEq, Prod.mk.injEq] at typed
          rcases typed with ⟨⟨rfl, sameType⟩, sameRest⟩
          intro place inside
          rcases List.mem_append.mp inside with here | below
          · obtain ⟨inner, isInner, rfl⟩ := List.mem_map.mp here
            have exists' :=
              each member List.mem_cons_self value oldValue first sameType inner isInner
            simpa [Value.hasPath, Value.get?, Value.field?, Value.fields?,
              Value.lookup_middle (fresh_of_nodup_append nodup)] using exists'
          · have moved := ih (fun member inside => each member (List.mem_cons_of_mem _ inside))
              later sameRest (before ++ [(member.1, oldValue)]) (by simpa using nodup) place below
            simpa using moved

theorem hasPath_of_mem_changedPlaces {branch : Branch} (named : branch.WellNamed)
    {value old : Value} (read : branch.read = .ok value) (typed : old.typeOf = value.typeOf) :
    ∀ place ∈ branch.changedPlaces, old.hasPath place = true := by
  induction branch using mergeInduction generalizing value old with
  | whole branch isWhole =>
      rw [isWhole.places]
      split <;> simp [Value.hasPath, Value.get?]
  | struct id members each =>
      obtain ⟨fields, oldFields, rfl, rfl, readEq, oldTypes⟩ :=
        exists_fields_of_read named read typed
      exact hasPath_of_mem_memberChangedPlaces (fun member inside value old =>
        each member inside (named.member inside)) readEq oldTypes []
        (by simpa using named.nodup) id

/-- Adopting the places of the marks in members merges the members. -/
theorem adopt_memberChangedPlaces {members : List (String × Branch)}
    (each : ∀ member ∈ members, ∀ value old, member.2.read = .ok value →
      old.typeOf = value.typeOf → old.adopt value member.2.changedPlaces = member.2.merge old)
    {fields old : List (String × Value)} (read : readFields members = .ok fields)
    (typed : Value.fieldTypes old = Value.fieldTypes fields) (before : List (String × Value))
    (nodup : (before.map (·.1) ++ members.map (·.1)).Nodup) {source : Value}
    (found : ∀ field ∈ fields, source.field? field.1 = some field.2) (name : Option String) :
    (Value.struct name (before ++ old)).adopt source (memberChangedPlaces members) =
      .struct name (before ++ mergeMembers members old) := by
  induction members generalizing fields before old with
  | nil => rfl
  | cons member rest ih =>
      obtain ⟨value, others, first, later, rfl⟩ := readFields_cons_eq_ok_iff.mp read
      cases old with
      | nil => cases typed
      | cons field more =>
          rcases field with ⟨fieldName, oldValue⟩
          simp only [Value.fieldTypes, List.cons.injEq, Prod.mk.injEq] at typed
          rcases typed with ⟨⟨rfl, sameType⟩, sameRest⟩
          have adopted := each member List.mem_cons_self value oldValue first sameType
          have moved := ih (fun member inside => each member (List.mem_cons_of_mem _ inside))
            later sameRest (before ++ [(member.1, member.2.merge oldValue)])
            (by simpa using nodup) fun field inside => found field (List.mem_cons_of_mem _ inside)
          rw [memberChangedPlaces, Value.adopt_append,
            Value.adopt_field (fresh_of_nodup_append nodup) (found _ List.mem_cons_self), adopted]
          simpa [mergeMembers] using moved

/-- Adopting the places of the marks in a branch merges the branch. -/
theorem adopt_changedPlaces {branch : Branch} (named : branch.WellNamed) {value old : Value}
    (read : branch.read = .ok value) (typed : old.typeOf = value.typeOf) :
    old.adopt value branch.changedPlaces = branch.merge old := by
  induction branch using mergeInduction generalizing value old with
  | whole branch isWhole =>
      rw [isWhole.merged, isWhole.places]
      split
      · simp [valueOr, read]
      · rfl
  | struct id members each =>
      obtain ⟨fields, oldFields, rfl, rfl, readEq, oldTypes⟩ :=
        exists_fields_of_read named read typed
      have found : ∀ field ∈ fields, (Value.struct id fields).field? field.1 = some field.2 := by
        intro field inside
        obtain ⟨before, after, rfl⟩ := List.append_of_mem inside
        have nodup := named.nodup
        rw [← names_of_readFields readEq, List.map_append, List.map_cons] at nodup
        exact Value.lookup_middle (fresh_of_nodup_append nodup)
      exact adopt_memberChangedPlaces (fun member inside value old =>
        each member inside (named.member inside)) readEq oldTypes []
        (by simpa using named.nodup) found id

/-! ## Parts of merged values -/

/-- A member is merged into the field of its name. -/
theorem lookup_mergeMembers {members : List (String × Branch)} {fields old : List (String × Value)}
    (read : readFields members = .ok fields)
    (typed : Value.fieldTypes old = Value.fieldTypes fields) {name : String} {member : Branch}
    (found : members.lookup name = some member) :
    ∃ new kept, fields.lookup name = some new ∧ old.lookup name = some kept ∧
      member.read = .ok new ∧ kept.typeOf = new.typeOf ∧
      (mergeMembers members old).lookup name = some (member.merge kept) := by
  induction members generalizing fields old with
  | nil => cases found
  | cons first rest ih =>
      rcases first with ⟨firstName, branch⟩
      obtain ⟨value, others, firstRead, later, rfl⟩ := readFields_cons_eq_ok_iff.mp read
      cases old with
      | nil => cases typed
      | cons field more =>
          rcases field with ⟨fieldName, oldValue⟩
          simp only [Value.fieldTypes, List.cons.injEq, Prod.mk.injEq] at typed
          rcases typed with ⟨⟨rfl, sameType⟩, sameRest⟩
          by_cases here : name = fieldName
          · subst here
            simp only [List.lookup_cons, beq_self_eq_true, Option.some.injEq] at found
            subst found
            exact ⟨value, oldValue, by simp, by simp, firstRead, sameType, by simp [mergeMembers]⟩
          · simp only [mergeMembers, List.lookup_cons, beq_eq_false_iff_ne.mpr here] at found ⊢
            exact ih later sameRest found

/-- Each part that unmarked structures lead to is merged on its own. -/
theorem get?_merge {branch : Branch} (named : branch.WellNamed) {value old : Value}
    (read : branch.read = .ok value) (typed : old.typeOf = value.typeOf) {place : Path}
    {part : Branch} (found : branch.part? place = some part) :
    ∃ new kept, value.get? place = some new ∧ old.get? place = some kept ∧ part.read = .ok new ∧
      (branch.merge old).get? place = some (part.merge kept) := by
  induction place generalizing branch value old with
  | nil =>
      have same : branch = part := by simpa [part?] using found
      exact ⟨value, old, rfl, rfl, same ▸ read, by rw [same]; rfl⟩
  | cons name rest ih =>
      cases branch using mergeInduction with
      | whole branch isWhole =>
          rw [isWhole.closed] at found
          cases found
      | struct id members _ =>
          obtain ⟨fields, oldFields, rfl, rfl, readEq, oldTypes⟩ :=
            exists_fields_of_read named read typed
          obtain ⟨member, memberEq, below⟩ := Option.bind_eq_some_iff.mp found
          obtain ⟨new, kept, newEq, keptEq, memberRead, sameType, merged⟩ :=
            lookup_mergeMembers readEq oldTypes memberEq
          obtain ⟨before, after, split, _⟩ := List.lookup_eq_some_iff.mp memberEq
          have memberNamed := named.member (show (name, member) ∈ members by simp [split])
          obtain ⟨newPart, keptPart, inNew, inOld, partRead, inMerged⟩ :=
            ih memberNamed memberRead sameType below
          exact ⟨newPart, keptPart,
            by simp [Value.get?, Value.field?, Value.fields?, newEq, inNew],
            by simp [Value.get?, Value.field?, Value.fields?, keptEq, inOld], partRead,
            by simp [merge, Value.get?, Value.field?, Value.fields?, merged, inMerged]⟩

theorem mergeMembers_of_membersHaveMark_eq_false {members : List (String × Branch)}
    (each : ∀ member ∈ members, member.2.hasMark = false → ∀ old, member.2.merge old = old)
    (unmarked : membersHaveMark members = false) (old : List (String × Value)) :
    mergeMembers members old = old := by
  induction members generalizing old with
  | nil => rfl
  | cons member rest ih =>
      cases old with
      | nil => rfl
      | cons field more =>
          obtain ⟨here, below⟩ := Bool.or_eq_false_iff.mp unmarked
          have first := each member List.mem_cons_self here field.2
          have later := ih (fun member inside => each member (List.mem_cons_of_mem _ inside)) below
          simp [mergeMembers, first, later more]

/-- Where nothing is marked, merging changes nothing. -/
theorem merge_of_hasMark_eq_false {branch : Branch} (unmarked : branch.hasMark = false)
    (old : Value) : branch.merge old = old := by
  induction branch using mergeInduction generalizing old with
  | whole branch isWhole => simp [isWhole.merged, unmarked]
  | struct id members each =>
      cases old with
      | struct name fields =>
          have membersUnmarked : membersHaveMark members = false := by
            simpa [hasMark] using unmarked
          simp [merge, mergeMembers_of_membersHaveMark_eq_false each membersUnmarked]
      | _ => simp [merge, unmarked]

/-- A marked branch gives its value. -/
theorem merge_of_isMarked {branch : Branch} (marked : branch.isMarked = true) {value : Value}
    (read : branch.read = .ok value) (old : Value) : branch.merge old = value := by
  have shown : branch.hasMark = true := by
    cases branch <;> simp_all [isMarked, hasMark]
  cases branch using mergeInduction with
  | whole branch isWhole => simp [isWhole.merged, shown, valueOr, read]
  | struct id members _ => cases marked

/-- A marked part is new after merging. -/
theorem get?_merge_of_isMarked {branch : Branch} (named : branch.WellNamed) {value old : Value}
    (read : branch.read = .ok value) (typed : old.typeOf = value.typeOf) {place : Path}
    {part : Branch} (found : branch.part? place = some part) (marked : part.isMarked = true) :
    (branch.merge old).get? place = value.get? place := by
  obtain ⟨new, kept, inNew, _, partRead, inMerged⟩ := get?_merge named read typed found
  rw [inMerged, inNew, merge_of_isMarked marked partRead]

/-- A part without any mark is as before after merging. -/
theorem get?_merge_of_hasMark_eq_false {branch : Branch} (named : branch.WellNamed)
    {value old : Value} (read : branch.read = .ok value) (typed : old.typeOf = value.typeOf)
    {place : Path} {part : Branch} (found : branch.part? place = some part)
    (unmarked : part.hasMark = false) : (branch.merge old).get? place = old.get? place := by
  obtain ⟨new, kept, _, inOld, _, inMerged⟩ := get?_merge named read typed found
  rw [inMerged, inOld, merge_of_hasMark_eq_false unmarked]

/-! ## Lists of places -/

theorem memberChangedPlaces_ne_nil {members : List (String × Branch)}
    (each : ∀ member ∈ members, member.2.hasMark = true → member.2.changedPlaces ≠ [])
    (marked : membersHaveMark members = true) : memberChangedPlaces members ≠ [] := by
  induction members with
  | nil => cases marked
  | cons member rest ih =>
      have first := each member List.mem_cons_self
      have later := ih fun member inside => each member (List.mem_cons_of_mem _ inside)
      rcases Bool.or_eq_true_iff.mp marked with here | below
      · simp [memberChangedPlaces, first here]
      · simp [memberChangedPlaces, later below]

/-- A mark has a place. -/
theorem changedPlaces_ne_nil {branch : Branch} (marked : branch.hasMark = true) :
    branch.changedPlaces ≠ [] := by
  induction branch using mergeInduction with
  | whole branch isWhole => simp [isWhole.places, marked]
  | struct id members each => exact memberChangedPlaces_ne_nil each marked

/-- The places of marks in members are not at the top. -/
theorem ne_nil_of_mem_memberChangedPlaces {members : List (String × Branch)} {place : Path}
    (inside : place ∈ memberChangedPlaces members) : place ≠ [] := by
  induction members with
  | nil => cases inside
  | cons member rest ih =>
      rcases List.mem_append.mp inside with here | below
      · obtain ⟨inner, _, rfl⟩ := List.mem_map.mp here
        exact List.cons_ne_nil _ _
      · exact ih below

end ProcessImage.Wire.Branch
