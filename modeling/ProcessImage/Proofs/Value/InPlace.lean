import ProcessImage.Proofs.Value.Places

/-!
# Assignments at work

Assigning to a place yields a new value, or none.  The program here does the same on one
value in place.  It walks down from field to field and knows where it is by the positions
of the fields on its way.  Where a field is missing it gives up, and only at the end of
its way does it replace what is there.

So a program that gives up leaves the value as it was, and otherwise the value is the one
that the assignment yields.
-/

namespace ProcessImage.Value

/-- The value that the fields at some positions lead to. -/
def at? (value : Value) : List Nat → Option Value
  | [] => some value
  | position :: rest => (value.fields?.bind (·[position]?)).bind fun field => field.2.at? rest

/-- The value with what the fields at some positions lead to replaced. -/
def putAt (new : Value) : List Nat → Value → Value
  | [], _ => new
  | position :: rest, .struct name fields =>
      .struct name (fields.modify position fun field => (field.1, putAt new rest field.2))
  | _, value => value

/-- A program that works on a value in place. -/
abbrev Program :=
  StateM Value

namespace Program

/-- Goes on to the first field of a name, if there is one. -/
def field? (name : String) (positions : List Nat) : Program (Option (List Nat)) := do
  match (← get).at? positions with
  | some (.struct _ fields) =>
      return (fields.findIdx? (·.1 == name)).map fun position => positions ++ [position]
  | _ => return none

/-- Walks down a path, and replaces what is at its end.  Tells whether it came there. -/
def assignFrom (new : Value) (positions : List Nat) : Path → Program Bool
  | [] => do
      modify (putAt new positions)
      return true
  | name :: rest => do
      match ← field? name positions with
      | some next => assignFrom new next rest
      | none => return false

/-- Replaces what is at the path that a text writes. -/
def assign (new : Value) (text : String) : Program Bool :=
  assignFrom new [] (Path.ofText text)

end Program

/-! ## Positions -/

variable {value part new : Value} {name : String} {positions : List Nat}

/-- Positions lead on from where others have led. -/
theorem at?_append (isPart : value.at? positions = some part) (below : List Nat) :
    value.at? (positions ++ below) = part.at? below := by
  induction positions generalizing value with
  | nil =>
      obtain rfl := Option.some.inj isPart
      rfl
  | cons position rest ih =>
      obtain ⟨field, isField, inside⟩ := Option.bind_eq_some_iff.mp isPart
      rw [List.cons_append, at?, isField]
      exact ih inside

/-- What is replaced below a part is replaced in that part. -/
theorem putAt_append (isPart : value.at? positions = some part) (new : Value)
    (below : List Nat) :
    putAt new (positions ++ below) value = putAt (putAt new below part) positions value := by
  induction positions generalizing value with
  | nil =>
      obtain rfl := Option.some.inj isPart
      rfl
  | cons position rest ih =>
      obtain ⟨field, isField, inside⟩ := Option.bind_eq_some_iff.mp isPart
      cases value with
      | struct structName fields =>
          obtain ⟨present, rfl⟩ := List.getElem?_eq_some_iff.mp isField
          simp only [List.cons_append, putAt, List.modify_eq_take_cons_drop present, ih inside]
      | _ => cases isField

/-! ## Fields -/

section Fields

variable {fields before after : List (String × Value)}

theorem findIdx?_of_not_mem (absent : name ∉ fields.map (·.1)) :
    fields.findIdx? (·.1 == name) = none := by
  rw [List.findIdx?_eq_none_iff]
  intro field inside
  exact beq_false_of_ne fun same => absent (List.mem_map.mpr ⟨field, inside, same⟩)

/-- The first field of a name has the position behind the fields before it. -/
theorem findIdx?_middle (fresh : name ∉ before.map (·.1)) :
    (before ++ (name, part) :: after).findIdx? (·.1 == name) = some before.length := by
  simp [List.findIdx?_append, List.findIdx?_cons, findIdx?_of_not_mem fresh]

theorem putAt_middle (structName : Option String) (before after : List (String × Value)) :
    putAt new [before.length] (.struct structName (before ++ (name, part) :: after)) =
      .struct structName (before ++ (name, new) :: after) := by
  simp [putAt, List.modify_eq_take_cons_drop]

theorem changeField?_of_not_mem (absent : name ∉ fields.map (·.1))
    (change : Value → Option Value) : changeField? name change fields = none := by
  induction fields with
  | nil => rfl
  | cons field rest ih =>
      rw [List.map_cons, List.mem_cons, not_or] at absent
      rw [changeField?, if_neg (Ne.symm absent.1), ih absent.2, Option.map_none]

/-- A structure without a field of a name does not list the name. -/
theorem not_mem_of_field?_eq_none (missing : value.field? name = none)
    (isStruct : value.fields? = some fields) : name ∉ fields.map (·.1) := by
  rw [field?, isStruct, Option.bind_some, List.lookup_eq_none_iff] at missing
  rw [List.mem_map]
  rintro ⟨field, inside, rfl⟩
  simpa using missing field inside

/-- Nothing can be assigned below a field that is missing. -/
theorem set?_of_field?_eq_none (missing : value.field? name = none) (new : Value)
    (place : Path) : value.set? new (name :: place) = none := by
  cases value with
  | struct structName fields =>
      rw [set?, changeField?_of_not_mem (not_mem_of_field?_eq_none missing rfl), Option.map_none]
  | _ => rfl

end Fields

/-! ## All or nothing -/

namespace Program

/-- What a program that assigns yields and leaves, by the value that comes of it. -/
def outcome (value : Value) : Option Value → Bool × Value
  | some changed => (true, changed)
  | none => (false, value)

theorem field?_run (isPart : value.at? positions = some part) (name : String) :
    (field? name positions).run value =
      ((part.fields?.bind (·.findIdx? (·.1 == name))).map (positions ++ [·]), value) := by
  change (match value.at? positions with | some (.struct _ fields) => _ | _ => _ : Program _) value = _
  rw [isPart]
  cases part <;> rfl

/-- A walk from a part assigns to a place in that part. -/
theorem assignFrom_run (isPart : value.at? positions = some part) (new : Value) (place : Path) :
    (assignFrom new positions place).run value =
      outcome value ((part.set? new place).map fun changed => putAt changed positions value) := by
  induction place generalizing positions part with
  | nil => rfl
  | cons name rest ih =>
      rw [assignFrom, StateT.run_bind, field?_run isPart]
      cases old : part.field? name with
      | none =>
          have missing : part.fields?.bind (·.findIdx? (·.1 == name)) = none := by
            rw [Option.bind_eq_none_iff]
            exact fun fields isStruct => findIdx?_of_not_mem (not_mem_of_field?_eq_none old isStruct)
          rw [missing, set?_of_field?_eq_none old]
          rfl
      | some below =>
          obtain ⟨structName, before, after, rfl, fresh⟩ := exists_struct_of_field? old
          have isBelow : value.at? (positions ++ [before.length]) = some below := by
            rw [at?_append isPart]
            simp [at?, fields?]
          -- The walk goes on from the part below, and what it leaves there is put back here.
          have next := ih isBelow
          simp only [fields?, Option.bind_some, findIdx?_middle fresh, Option.map_some]
          refine next.trans ?_
          rw [set?, changeField?_middle fresh]
          cases below.set? new rest with
          | none => rfl
          | some changed =>
              simp only [Option.map_some, putAt_append isPart, putAt_middle]

/-- A program that assigns to a place leaves what the assignment yields, and the value as it
was where it yields nothing. -/
theorem assign_run (value new : Value) (text : String) :
    (assign new text).run value = outcome value (value.set? new (Path.ofText text)) := by
  rw [assign, assignFrom_run (rfl : value.at? [] = some value)]
  cases value.set? new (Path.ofText text) <;> rfl

end Program

end ProcessImage.Value
