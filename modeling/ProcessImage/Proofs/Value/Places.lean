import ProcessImage.Proofs.Value.Adoption

/-!
# Adopted places

A place that exists on both sides is after its adoption as in the source.  It stays
so when further places are adopted, be they above it, below it or elsewhere.
-/

namespace ProcessImage.Value

variable {value source part new : Value} {name : String}

/-- A field is the first one of its name in a structure. -/
theorem exists_struct_of_field? (old : value.field? name = some part) :
    ∃ structName before after, value = .struct structName (before ++ (name, part) :: after) ∧
      name ∉ before.map (·.1) := by
  obtain ⟨fields, isStruct, inside⟩ := Option.bind_eq_some_iff.mp old
  cases value with
  | struct structName others =>
      obtain rfl := Option.some.inj isStruct
      obtain ⟨before, after, rfl, ahead⟩ := List.lookup_eq_some_iff.mp inside
      refine ⟨structName, before, after, rfl, ?_⟩
      intro listed
      obtain ⟨field, isField, rfl⟩ := List.mem_map.mp listed
      simpa using ahead field isField
  | _ => cases isStruct

/-- A place below a field is adopted within that field alone. -/
theorem field?_adoptAt_cons (old : value.field? name = some part)
    (found : source.field? name = some new) (place : Path) (other : String) :
    (value.adoptAt source (name :: place)).field? other =
      if other = name then some (part.adoptAt new place) else value.field? other := by
  obtain ⟨structName, before, after, rfl, fresh⟩ := exists_struct_of_field? old
  rw [adoptAt_field fresh found]
  by_cases same : other = name
  · subst same
    simp [field?, fields?, lookup_middle fresh]
  · simp [field?, fields?, List.lookup_append, List.lookup_cons, same, beq_false_of_ne same]

/-- Adopting a place from itself changes nothing. -/
theorem adoptAt_same (value : Value) (place : Path) : value.adoptAt value place = value := by
  induction place generalizing value with
  | nil => simp [adoptAt, get?, set?]
  | cons name place ih =>
      cases old : value.field? name with
      | none => simp [adoptAt, get?, old]
      | some part =>
          obtain ⟨structName, before, after, rfl, fresh⟩ := exists_struct_of_field? old
          rw [adoptAt_field fresh old, ih]

theorem hasPath_cons (value : Value) (name : String) (place : Path) :
    value.hasPath (name :: place) = true ↔
      ∃ part, value.field? name = some part ∧ part.hasPath place = true := by
  simp only [hasPath, get?]
  cases value.field? name <;> simp

theorem get?_cons (value : Value) (name : String) (place : Path) :
    value.get? (name :: place) = (value.field? name).bind (get? · place) :=
  rfl

/-- A place that is adopted is as in the source. -/
theorem get?_adoptAt_self {place : Path} (old : value.hasPath place = true)
    (found : source.hasPath place = true) :
    (value.adoptAt source place).get? place = source.get? place := by
  induction place generalizing value source with
  | nil => simp [adoptAt, get?, set?]
  | cons name place ih =>
      obtain ⟨part, isPart, below⟩ := (hasPath_cons ..).mp old
      obtain ⟨new, isNew, belowNew⟩ := (hasPath_cons ..).mp found
      rw [get?_cons, get?_cons, field?_adoptAt_cons isPart isNew, if_pos rfl, isNew]
      exact ih below belowNew

/-- A place that exists on both sides still does after an adoption. -/
theorem hasPath_adoptAt {place other : Path} (old : value.hasPath place = true)
    (found : source.hasPath place = true) (oldOther : value.hasPath other = true)
    (foundOther : source.hasPath other = true) :
    (value.adoptAt source place).hasPath other = true := by
  induction place generalizing value source other with
  | nil => simpa [adoptAt, get?, set?] using foundOther
  | cons name place ih =>
      cases other with
      | nil => rfl
      | cons otherName other =>
          obtain ⟨part, isPart, below⟩ := (hasPath_cons ..).mp old
          obtain ⟨new, isNew, belowNew⟩ := (hasPath_cons ..).mp found
          obtain ⟨otherPart, isOther, belowOther⟩ := (hasPath_cons ..).mp oldOther
          obtain ⟨otherNew, isOtherNew, belowOtherNew⟩ := (hasPath_cons ..).mp foundOther
          rw [hasPath_cons, field?_adoptAt_cons isPart isNew]
          by_cases same : otherName = name
          · subst same
            obtain rfl := Option.some.inj (isPart.symm.trans isOther)
            obtain rfl := Option.some.inj (isNew.symm.trans isOtherNew)
            exact ⟨_, if_pos rfl, ih below belowNew belowOther belowOtherNew⟩
          · exact ⟨otherPart, (if_neg same).trans isOther, belowOther⟩

/-- A place that is as in the source stays so. -/
theorem get?_adoptAt_of_eq {place other : Path} (old : value.hasPath place = true)
    (found : source.hasPath place = true) (same : value.get? other = source.get? other) :
    (value.adoptAt source place).get? other = source.get? other := by
  induction place generalizing value source other with
  | nil => simp [adoptAt, get?, set?]
  | cons name place ih =>
      obtain ⟨part, isPart, below⟩ := (hasPath_cons ..).mp old
      obtain ⟨new, isNew, belowNew⟩ := (hasPath_cons ..).mp found
      cases other with
      | nil =>
          obtain rfl : value = source := Option.some.inj same
          rw [adoptAt_same]
      | cons otherName other =>
          rw [get?_cons, field?_adoptAt_cons isPart isNew]
          by_cases named : otherName = name
          · subst named
            rw [get?_cons, get?_cons, isPart, isNew] at same
            rw [if_pos rfl, get?_cons, isNew]
            exact ih below belowNew same
          · rw [if_neg named]
            exact same

theorem get?_adopt_of_eq {places : List Path}
    (old : ∀ place ∈ places, value.hasPath place = true)
    (found : ∀ place ∈ places, source.hasPath place = true) {other : Path}
    (same : value.get? other = source.get? other) :
    (value.adopt source places).get? other = source.get? other := by
  induction places generalizing value with
  | nil => exact same
  | cons place rest ih =>
      rw [List.forall_mem_cons] at old found
      refine ih (fun later inside => ?_) found.2 (get?_adoptAt_of_eq old.1 found.1 same)
      exact hasPath_adoptAt old.1 found.1 (old.2 later inside) (found.2 later inside)

/-- All places that are adopted are as in the source. -/
theorem get?_adopt {places : List Path} (old : ∀ place ∈ places, value.hasPath place = true)
    (found : ∀ place ∈ places, source.hasPath place = true) {place : Path}
    (adopted : place ∈ places) : (value.adopt source places).get? place = source.get? place := by
  induction places generalizing value with
  | nil => cases adopted
  | cons first rest ih =>
      rw [List.forall_mem_cons] at old found
      have stillOld : ∀ later ∈ rest, (value.adoptAt source first).hasPath later = true :=
        fun later inside =>
          hasPath_adoptAt old.1 found.1 (old.2 later inside) (found.2 later inside)
      rcases List.mem_cons.mp adopted with rfl | later
      · exact get?_adopt_of_eq stillOld found.2 (get?_adoptAt_self old.1 found.1)
      · exact ih stillOld found.2 later

end ProcessImage.Value
