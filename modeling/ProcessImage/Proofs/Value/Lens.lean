import ProcessImage.Proofs.Value.InPlace
import ProcessImage.Proofs.Value.Interchange

/-!
# Laws of assignment

A place can be assigned exactly where it can be read.  What was assigned is read there, it
replaces whatever was assigned before, and assigning what is there already changes nothing.
Places elsewhere are read as before, and so are the names of the fields on the way: neither
their order nor their number changes, also where a name occurs twice.
-/

namespace ProcessImage.Value

variable {value new changed : Value} {name : String} {place : Path}

/-! ## One field on the way -/

section Middle

variable {structName : Option String} {before after : List (String × Value)} {part : Value}

theorem set?_middle (fresh : name ∉ before.map (·.1)) (new : Value) (place : Path) :
    (Value.struct structName (before ++ (name, part) :: after)).set? new (name :: place) =
      (part.set? new place).map fun changed =>
        .struct structName (before ++ (name, changed) :: after) := by
  rw [set?, changeField?_middle fresh, Option.map_map]
  rfl

theorem get?_middle (fresh : name ∉ before.map (·.1)) (place : Path) :
    (Value.struct structName (before ++ (name, part) :: after)).get? (name :: place) =
      part.get? place := by
  rw [get?_cons, field?, fields?, Option.bind_some, lookup_middle fresh, Option.bind_some]

/-- Fields of other names are found whatever the value of a field is. -/
theorem get?_middle_of_ne {other : String} (different : other ≠ name) (new : Value)
    (elsewhere : Path) :
    (Value.struct structName (before ++ (name, new) :: after)).get? (other :: elsewhere) =
      (Value.struct structName (before ++ (name, part) :: after)).get? (other :: elsewhere) := by
  simp [get?_cons, field?, fields?, List.lookup_append, List.lookup_cons,
    beq_false_of_ne different]

end Middle

/-- A value that is assigned below a field goes into the first field of that name. -/
theorem exists_middle_of_set? (set : value.set? new (name :: place) = some changed) :
    ∃ structName before part after into, name ∉ before.map (·.1) ∧
      value = .struct structName (before ++ (name, part) :: after) ∧
      part.set? new place = some into ∧
      changed = .struct structName (before ++ (name, into) :: after) := by
  cases old : value.field? name with
  | none =>
      rw [set?_of_field?_eq_none old] at set
      cases set
  | some part =>
      obtain ⟨structName, before, after, rfl, fresh⟩ := exists_struct_of_field? old
      rw [set?_middle fresh] at set
      obtain ⟨into, isInto, rfl⟩ := Option.map_eq_some_iff.mp set
      exact ⟨structName, before, part, after, into, fresh, rfl, isInto, rfl⟩

/-! ## Laws -/

theorem hasPath_of_set? (set : value.set? new place = some changed) :
    value.hasPath place = true := by
  induction place generalizing value changed with
  | nil => rfl
  | cons name place ih =>
      obtain ⟨structName, before, part, after, into, fresh, rfl, isInto, rfl⟩ :=
        exists_middle_of_set? set
      rw [hasPath, get?_middle fresh]
      exact ih isInto

/-- What was assigned to a place is there. -/
theorem get?_of_set? (set : value.set? new place = some changed) :
    changed.get? place = some new := by
  induction place generalizing value changed with
  | nil => exact congrArg some (Option.some.inj set).symm
  | cons name place ih =>
      obtain ⟨structName, before, part, after, into, fresh, rfl, isInto, rfl⟩ :=
        exists_middle_of_set? set
      rw [get?_middle fresh]
      exact ih isInto

/-- A second assignment to a place makes up for the first. -/
theorem set?_of_set? (set : value.set? new place = some changed) (other : Value) :
    changed.set? other place = value.set? other place := by
  induction place generalizing value changed with
  | nil => rfl
  | cons name place ih =>
      obtain ⟨structName, before, part, after, into, fresh, rfl, isInto, rfl⟩ :=
        exists_middle_of_set? set
      rw [set?_middle fresh, set?_middle fresh, ih isInto]

/-- Assigning what is there changes nothing. -/
theorem set?_of_get? (present : value.get? place = some new) :
    value.set? new place = some value := by
  induction place generalizing value with
  | nil => exact congrArg some (Option.some.inj present).symm
  | cons name place ih =>
      obtain ⟨part, isPart, below⟩ := Option.bind_eq_some_iff.mp present
      obtain ⟨structName, before, after, rfl, fresh⟩ := exists_struct_of_field? isPart
      rw [set?_middle fresh, ih below, Option.map_some]

/-- A place that lies neither above nor below is as it was. -/
theorem get?_of_set?_of_apart (set : value.set? new place = some changed) {elsewhere : Path}
    (notBelow : ¬ place <+: elsewhere) (notAbove : ¬ elsewhere <+: place) :
    changed.get? elsewhere = value.get? elsewhere := by
  induction place generalizing value changed elsewhere with
  | nil => exact absurd List.nil_prefix notBelow
  | cons name place ih =>
      obtain ⟨structName, before, part, after, into, fresh, rfl, isInto, rfl⟩ :=
        exists_middle_of_set? set
      cases elsewhere with
      | nil => exact absurd List.nil_prefix notAbove
      | cons other elsewhere =>
          by_cases same : other = name
          · subst same
            rw [List.cons_prefix_cons] at notBelow notAbove
            rw [get?_middle fresh, get?_middle fresh]
            exact ih isInto (fun longer => notBelow ⟨rfl, longer⟩)
              (fun longer => notAbove ⟨rfl, longer⟩)
          · exact get?_middle_of_ne same into elsewhere

/-- On the way to a place are structures, and they keep the names of their fields. -/
theorem exists_structs_of_set? (set : value.set? new place = some changed) {above : Path}
    (onWay : above <+: place) (notEnd : above ≠ place) :
    ∃ structName old fields, value.get? above = some (.struct structName old) ∧
      changed.get? above = some (.struct structName fields) ∧
      fields.map (·.1) = old.map (·.1) := by
  induction place generalizing value changed above with
  | nil => exact absurd (List.prefix_nil.mp onWay) notEnd
  | cons name place ih =>
      obtain ⟨structName, before, part, after, into, fresh, rfl, isInto, rfl⟩ :=
        exists_middle_of_set? set
      cases above with
      | nil => exact ⟨structName, _, _, rfl, rfl, by simp⟩
      | cons first above =>
          obtain ⟨rfl, shorter⟩ := List.cons_prefix_cons.mp onWay
          rw [get?_middle fresh, get?_middle fresh]
          exact ih isInto shorter fun same => notEnd (congrArg _ same)

/-! ## Assignments in place -/

/-- What is known of a value after a program has tried to assign to a place. -/
structure Assigned (value new : Value) (text : String) (done : Bool) (after : Value) : Prop where
  /-- A place can be assigned exactly where it can be read. -/
  done_iff : done = true ↔ (value.get? (Path.ofText text)).isSome = true
  unchanged : done = false → after = value
  read : done = true → after.get? (Path.ofText text) = some new
  /-- A further assignment has the same effect as without this one. -/
  again : done = true → ∀ other,
    (Program.assign other text).run after = (Program.assign other text).run value
  /-- Places that lie neither above nor below are read as before. -/
  apart : done = true → ∀ elsewhere, ¬ Path.ofText text <+: Path.ofText elsewhere →
    ¬ Path.ofText elsewhere <+: Path.ofText text →
    after.get? (Path.ofText elsewhere) = value.get? (Path.ofText elsewhere)
  /-- Assigning what is there changes nothing. -/
  same : value.get? (Path.ofText text) = some new → done = true ∧ after = value
  /-- Every structure on the way keeps its name and the names of its fields. -/
  fields : done = true → ∀ above, above <+: Path.ofText text → above ≠ Path.ofText text →
    ∃ structName before now, value.get? above = some (.struct structName before) ∧
      after.get? above = some (.struct structName now) ∧ now.map (·.1) = before.map (·.1)

/-- Assignments by the texts of paths obey the laws of a lens, for all values and texts. -/
theorem assigned_assign (value new : Value) (text : String) :
    let (done, after) := (Program.assign new text).run value
    Assigned value new text done after := by
  simp only [Program.assign_run]
  cases set : value.set? new (Path.ofText text) with
  | none =>
      have missing : value.hasPath (Path.ofText text) ≠ true := fun present => by
        obtain ⟨changed, isChanged⟩ := exists_set?_of_hasPath present new
        cases set.symm.trans isChanged
      constructor
      case done_iff => exact iff_of_false Bool.false_ne_true missing
      case unchanged => exact fun _ => rfl
      case same =>
        intro present
        cases set.symm.trans (set?_of_get? present)
      all_goals exact nofun
  | some changed =>
      constructor
      case done_iff => exact iff_of_true rfl (hasPath_of_set? set)
      case unchanged => exact nofun
      case read => exact fun _ => get?_of_set? set
      case again =>
        intro _ other
        obtain ⟨further, isFurther⟩ := exists_set?_of_hasPath (hasPath_of_set? set) other
        rw [Program.assign_run, Program.assign_run, Program.outcome, set?_of_set? set, isFurther]
        rfl
      case apart => exact fun _ elsewhere => get?_of_set?_of_apart set
      case same =>
        intro present
        exact ⟨rfl, Option.some.inj (set.symm.trans (set?_of_get? present))⟩
      case fields => exact fun _ above => exists_structs_of_set? set

end ProcessImage.Value
