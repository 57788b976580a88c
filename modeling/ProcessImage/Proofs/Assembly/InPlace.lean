import ProcessImage.Proofs.Assembly.Action

/-!
# Assemblies at work

The steps of an assembly yield a new stack or a fault.  The programs here do the same
on one stack in place: they look at the parts on top, take parts off and put others on,
one at a time, and a program that fails leaves whatever it did until then.  Where parts
that were seen on top are not there any more, a program complains of a corrupt stack.

All actions turn out to be all or nothing.  Whatever can be refused is refused before
the first part is taken off, and after that the parts are the ones that were seen.
-/

namespace ProcessImage.Assembly

/-- Why a program fails on a stack. -/
inductive Complaint where
  /-- The action does not fit what is on the stack. -/
  | refused (fault : Fault)
  /-- A field that was seen is not there, or not in a structure. -/
  | corruptField
  /-- An element that was seen is not there, or not in an array. -/
  | corruptElement

/-- A program that works on a stack in place. -/
abbrev StackProgram :=
  EStateM Complaint Assembly

namespace StackProgram

/-! ## Programs -/

/-- Refuses a step on top of what is there. -/
def refuse (step : Step) : StackProgram Unit := do
  throw (.refused (Assembly.refuse step (← get)))

/-- Goes on where a value may start. -/
def checkOpen (step : Step) : StackProgram Unit := do
  match (← get).head?.map Part.step with
  | none | some .startField | some .startElement => return ()
  | some _ => refuse step

/-- Goes on where the topmost parts were brought by the given steps, the last one
first. -/
def checkTop (step : Step) (expected : List Step) : StackProgram Unit := do
  let parts : Assembly ← get
  if (parts.take expected.length).map Part.step = expected then return ()
  else refuse step

/-- Puts a part on top. -/
def push (part : Part) : StackProgram Unit :=
  modify fun parts => part :: parts

/-- Takes a part off the top, if there is one. -/
def pop : StackProgram (Option Part) :=
  modifyGet fun parts => (parts.head?, parts.tail)

/-- Puts a part where a value may start. -/
def openPart (part : Part) : StackProgram Unit := do
  checkOpen part.step
  push part

/-- Closes a structure. -/
def endStruct : StackProgram Unit := do
  checkTop .endStruct [.startStruct]
  if let some (.struct name fields) ← pop then
    push (.value (.struct name fields))

/-- Opens a field. -/
def startField (name : String) : StackProgram Unit := do
  checkTop .startField [.startStruct]
  push (.field name)

/-- Refuses a field whose name the structure below already has. -/
def checkFresh : StackProgram Unit := do
  let parts : Assembly ← get
  match parts[1]?, parts[2]? with
  | some (Part.field name), some (Part.struct _ fields) =>
      if (fields.lookup name).isSome then throw (.refused (.duplicateField name))
  | _, _ => return ()

/-- Closes a field: takes its value and the field off, and appends them to the
structure below. -/
def endField : StackProgram Unit := do
  checkTop .endField [.value, .startField, .startStruct]
  checkFresh
  match (← pop), (← pop) with
  | some (.value value), some (.field name) =>
      let parts : Assembly ← get
      match parts with
      | .struct structName fields :: rest =>
          set (.struct structName (fields ++ [(name, value)]) :: rest : Assembly)
      | _ => throw .corruptField
  | _, _ => throw .corruptField

/-- Closes an array. -/
def endArray : StackProgram Unit := do
  checkTop .endArray [.startArray]
  if let some (.array name element length elements) ← pop then
    push (.value (.array name (element.getD .empty) length elements))

/-- Opens an element. -/
def startElement : StackProgram Unit := do
  checkTop .startElement [.startArray]
  push .element

/-- The value on top as the array below wants it, where it has to be converted. -/
def conformed : StackProgram (Option Value) := do
  let parts : Assembly ← get
  match parts[2]? with
  | some (Part.array _ element _ _) =>
      match element, parts.head? with
      | some type, some (.value value) =>
          if value.typeOf = type then return none
          else
            match value.coerce? type with
            | some fitted => return some fitted
            | none => throw (.refused (.mismatch (.type type) (.type value.typeOf)))
      | _, _ => return none
  | _ => throw .corruptElement

/-- Closes an element: takes its value and the element off, and appends the value, as
the array below wants it, to the array, whose element type is known from then on. -/
def endElement : StackProgram Unit := do
  checkTop .endElement [.value, .startElement, .startArray]
  let fitted ← conformed
  match (← pop) with
  | some (.value value) =>
      let _ ← pop
      let item := fitted.getD value
      let parts : Assembly ← get
      match parts with
      | .array name element length elements :: rest =>
          set (.array name (element.or (some item.typeOf)) length (elements ++ [item]) ::
            rest : Assembly)
      | _ => throw .corruptElement
  | _ => throw .corruptElement

end StackProgram

/-- What an action does in place. -/
def Action.program : Action → StackProgram Unit
  | .value item => StackProgram.openPart (.value item)
  | .startStruct name => StackProgram.openPart (.struct name [])
  | .endStruct => StackProgram.endStruct
  | .startField name => StackProgram.startField name
  | .endField => StackProgram.endField
  | .startArray name hint length => StackProgram.openPart (.array name hint length [])
  | .endArray => StackProgram.endArray
  | .startElement => StackProgram.startElement
  | .endElement => StackProgram.endElement

namespace StackProgram

/-- The result of a program that yields a new stack, or fails and leaves the stack as
it was. -/
def result (parts : Assembly) : Except Fault Assembly → EStateM.Result Complaint Assembly Unit
  | .ok next => .ok () next
  | .error fault => .error (.refused fault) parts

/-! ## Parts by their steps -/

theorem eq_value_of_step {part : Part} (isValue : part.step = .value) :
    ∃ value, part = .value value := by
  cases part <;> first | exact ⟨_, rfl⟩ | cases isValue

theorem eq_struct_of_step {part : Part} (isStruct : part.step = .startStruct) :
    ∃ name fields, part = .struct name fields := by
  cases part <;> first | exact ⟨_, _, rfl⟩ | cases isStruct

theorem eq_field_of_step {part : Part} (isField : part.step = .startField) :
    ∃ name, part = .field name := by
  cases part <;> first | exact ⟨_, rfl⟩ | cases isField

theorem eq_array_of_step {part : Part} (isArray : part.step = .startArray) :
    ∃ name element length elements, part = .array name element length elements := by
  cases part <;> first | exact ⟨_, _, _, _, rfl⟩ | cases isArray

theorem eq_element_of_step {part : Part} (isElement : part.step = .startElement) :
    part = .element := by
  cases part <;> first | rfl | cases isElement

/-- The three topmost parts were brought by three steps. -/
theorem exists_of_top_three {parts : Assembly} {first second third : Step}
    (held : (parts.take 3).map Part.step = [first, second, third]) :
    ∃ one two three rest, parts = one :: two :: three :: rest ∧
      one.step = first ∧ two.step = second ∧ three.step = third := by
  rcases parts with _ | ⟨one, _ | ⟨two, _ | ⟨three, rest⟩⟩⟩
  · cases held
  · cases held
  · cases held
  · simp only [List.take, List.map, List.cons.injEq] at held
    exact ⟨one, two, three, rest, rfl, held.1, held.2.1, held.2.2.1⟩

/-! ## All or nothing -/

/-- What comes after a look at the top is done where the top is as expected. -/
theorem checkTop_bind_apply (step : Step) (expected : List Step) (next : StackProgram Unit)
    (parts : Assembly) :
    (do checkTop step expected; next) parts =
      if (parts.take expected.length).map Part.step = expected then next parts
      else result parts (.error (Assembly.refuse step parts)) := by
  have seen : checkTop step expected parts =
      if (parts.take expected.length).map Part.step = expected then .ok () parts
      else result parts (.error (Assembly.refuse step parts)) := by
    unfold checkTop
    rw [Outcome.program_bind_apply]
    change (if _ then _ else _ : StackProgram Unit) parts = _
    split <;> rfl
  rw [Outcome.program_bind_apply, seen]
  by_cases held : (parts.take expected.length).map Part.step = expected
  · simp only [if_pos held]
  · simp only [if_neg held, result]

theorem openPart_apply (part : Part) (parts : Assembly) :
    openPart part parts = result parts (Assembly.openPart part parts) := by
  cases parts with
  | nil => rfl
  | cons top rest => cases top <;> rfl

theorem endStruct_apply (parts : Assembly) :
    endStruct parts = result parts (Assembly.endStruct parts) := by
  cases parts with
  | nil => rfl
  | cons top rest => cases top <;> rfl

theorem startField_apply (name : String) (parts : Assembly) :
    startField name parts = result parts (Assembly.startField name parts) := by
  cases parts with
  | nil => rfl
  | cons top rest => cases top <;> rfl

theorem endArray_apply (parts : Assembly) :
    endArray parts = result parts (Assembly.endArray parts) := by
  cases parts with
  | nil => rfl
  | cons top rest => cases top <;> rfl

theorem startElement_apply (parts : Assembly) :
    startElement parts = result parts (Assembly.startElement parts) := by
  cases parts with
  | nil => rfl
  | cons top rest => cases top <;> rfl

/-- Below a value and its field, the structure is looked through for the name. -/
theorem checkFresh_apply (value : Value) (name : String) (structName : Option String)
    (fields : List (String × Value)) (rest : Assembly) :
    let parts : Assembly := .value value :: .field name :: .struct structName fields :: rest
    checkFresh parts =
      if name ∈ fields.map (·.1) then .error (.refused (.duplicateField name)) parts
      else .ok () parts := by
  intro parts
  have known : (fields.lookup name).isSome = true ↔ name ∈ fields.map (·.1) := by
    rw [List.lookup_isSome_iff, List.mem_map]
    exact ⟨fun ⟨field, member, same⟩ => ⟨field, member, (beq_iff_eq.mp same).symm⟩,
      fun ⟨field, member, same⟩ => ⟨field, member, beq_iff_eq.mpr same.symm⟩⟩
  change (if _ then _ else _ : StackProgram Unit) parts = _
  by_cases taken : name ∈ fields.map (·.1)
  · rw [if_pos (known.mpr taken), if_pos taken]
    rfl
  · rw [if_neg (mt known.mp taken), if_neg taken]
    rfl

/-- Closing a field takes parts off only once nothing can fail any more. -/
theorem endField_apply (parts : Assembly) :
    endField parts = result parts (Assembly.endField parts) := by
  unfold endField
  rw [checkTop_bind_apply]
  split
  case isTrue held =>
    obtain ⟨_, _, _, rest, rfl, isValue, isField, isStruct⟩ := exists_of_top_three held
    obtain ⟨value, rfl⟩ := eq_value_of_step isValue
    obtain ⟨name, rfl⟩ := eq_field_of_step isField
    obtain ⟨structName, fields, rfl⟩ := eq_struct_of_step isStruct
    rw [Outcome.program_bind_apply, checkFresh_apply]
    by_cases taken : name ∈ fields.map (·.1)
    · simp only [Assembly.endField, appendField, if_pos taken]
      rfl
    · simp only [Assembly.endField, appendField, if_neg taken]
      rfl
  case isFalse other =>
    unfold Assembly.endField
    split
    next => exact absurd rfl other
    next => rfl

/-- Below a value and its element, an array of a known type tells whether the value is
converted, and whether it can be. -/
theorem conformed_apply (value : Value) (name : Option String) (type : DataType)
    (length : Option Nat) (elements : List Value) (rest : Assembly) :
    let parts : Assembly :=
      .value value :: .element :: .array name (some type) length elements :: rest
    conformed parts =
      if value.typeOf = type then .ok none parts
      else
        match value.coerce? type with
        | some fitted => .ok (some fitted) parts
        | none => .error (.refused (.mismatch (.type type) (.type value.typeOf))) parts := by
  intro parts
  change (if _ then _ else _ : StackProgram (Option Value)) parts = _
  split
  · rfl
  · cases value.coerce? type <;> rfl

/-- Closing an element takes parts off only once nothing can fail any more. -/
theorem endElement_apply (parts : Assembly) :
    endElement parts = result parts (Assembly.endElement parts) := by
  unfold endElement
  rw [checkTop_bind_apply]
  split
  case isTrue held =>
    obtain ⟨_, _, _, rest, rfl, isValue, isElement, isArray⟩ := exists_of_top_three held
    obtain ⟨value, rfl⟩ := eq_value_of_step isValue
    obtain rfl := eq_element_of_step isElement
    obtain ⟨name, element, length, elements, rfl⟩ := eq_array_of_step isArray
    rw [Outcome.program_bind_apply]
    cases element with
    | none =>
        simp only [Assembly.endElement, Option.getD_none, fitElement_typeOf]
        rfl
    | some type =>
        rw [conformed_apply]
        simp only [Assembly.endElement, Option.getD_some, fitElement]
        by_cases same : value.typeOf = type
        · simp only [if_pos same]
          rfl
        · simp only [if_neg same]
          cases value.coerce? type <;> rfl
  case isFalse other =>
    unfold Assembly.endElement
    split
    next => exact absurd rfl other
    next => rfl

/-- What a program leaves of a stack, whether or not it failed. -/
def left (program : StackProgram Unit) (parts : Assembly) : Assembly :=
  match program parts with
  | .ok _ after => after
  | .error _ after => after

end StackProgram

/-- What an action does in place is what it makes of the stack, and an action that is
refused leaves the stack as it was. -/
theorem Action.program_apply (action : Action) (parts : Assembly) :
    action.program parts = StackProgram.result parts (action.apply parts) := by
  cases action with
  | value item => exact StackProgram.openPart_apply _ parts
  | startStruct name => exact StackProgram.openPart_apply _ parts
  | endStruct => exact StackProgram.endStruct_apply parts
  | startField name => exact StackProgram.startField_apply name parts
  | endField => exact StackProgram.endField_apply parts
  | startArray name hint length => exact StackProgram.openPart_apply _ parts
  | endArray => exact StackProgram.endArray_apply parts
  | startElement => exact StackProgram.startElement_apply parts
  | endElement => exact StackProgram.endElement_apply parts

/-- An action works in place exactly when it is accepted. -/
theorem Action.program_eq_ok_iff {action : Action} {parts next : Assembly} :
    action.program parts = .ok () next ↔ action.apply parts = .ok next := by
  rw [program_apply]
  cases action.apply parts <;> simp [StackProgram.result]

/-- An action fails in place exactly when it is refused, and then leaves the stack as it
was. -/
theorem Action.program_eq_error_iff {action : Action} {complaint : Complaint}
    {parts after : Assembly} :
    action.program parts = .error complaint after ↔
      ∃ fault, action.apply parts = .error fault ∧ complaint = .refused fault ∧
        after = parts := by
  rw [program_apply]
  cases action.apply parts <;> simp [StackProgram.result, eq_comm]

end ProcessImage.Assembly
