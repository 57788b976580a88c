import ProcessImage.Assembly
import ProcessImage.Proofs.Outcome

/-!
# Runs of an assembly

An `Action` is a step of an assembly together with its contents.  A run takes
actions one after the other and ends with the first one that is refused;
`Assembly.assemble` is a run from nothing to a finished value.

A value may start on some assemblies only, the *accepting* ones: where nothing
is yet, in an open field and in an open element.
-/

namespace ProcessImage.Assembly

/-- One step of an assembly, with its contents.  An array that is opened without
a declared length has the length `none`. -/
inductive Action where
  | value (value : Value)
  | startStruct (name : Option String)
  | endStruct
  | startField (name : String)
  | endField
  | startArray (name : Option String) (hint : Option DataType) (length : Option Nat)
  | endArray
  | startElement
  | endElement

/-- What an action makes of an assembly. -/
def Action.apply : Action → Assembly → Except Fault Assembly
  | .value item, parts => pushValue item parts
  | .startStruct name, parts => Assembly.startStruct name parts
  | .endStruct, parts => Assembly.endStruct parts
  | .startField name, parts => Assembly.startField name parts
  | .endField, parts => Assembly.endField parts
  | .startArray name hint length, parts => Assembly.startArray name hint length parts
  | .endArray, parts => Assembly.endArray parts
  | .startElement, parts => Assembly.startElement parts
  | .endElement, parts => Assembly.endElement parts

/-- What actions make of an assembly, one after the other. -/
def run : List Action → Assembly → Except Fault Assembly
  | [], parts => .ok parts
  | action :: rest, parts => action.apply parts >>= run rest

/-- The value that actions assemble from nothing. -/
def assemble (actions : List Action) : Except Fault Value :=
  run actions [] >>= finish

@[simp]
theorem run_nil (parts : Assembly) : run [] parts = .ok parts :=
  rfl

@[simp]
theorem run_cons (action : Action) (rest : List Action) (parts : Assembly) :
    run (action :: rest) parts = (action.apply parts >>= run rest) :=
  rfl

/-- A run of two lists of actions is a run of the second after the first. -/
@[simp]
theorem run_append (first second : List Action) (parts : Assembly) :
    run (first ++ second) parts = (run first parts >>= run second) := by
  induction first generalizing parts with
  | nil => rfl
  | cons action rest ih =>
      rw [List.cons_append, run_cons, run_cons]
      cases action.apply parts with
      | error fault => rfl
      | ok next => exact ih next

/-! ## Where values may start -/

/-- Whether a value may start on top of an assembly. -/
def Accepting : Assembly → Prop
  | [] | .field _ :: _ | .element :: _ => True
  | _ => False

@[simp]
theorem accepting_nil : Accepting [] :=
  trivial

@[simp]
theorem accepting_field (name : String) (parts : Assembly) :
    Accepting (.field name :: parts) :=
  trivial

@[simp]
theorem accepting_element (parts : Assembly) : Accepting (.element :: parts) :=
  trivial

/-- A part is put on top of an assembly exactly when that is accepting. -/
theorem openPart_eq_ok_iff {part : Part} {parts next : Assembly} :
    openPart part parts = .ok next ↔ Accepting parts ∧ next = part :: parts := by
  unfold openPart Accepting
  split <;> simp [eq_comm]

/-- An accepting assembly takes any part. -/
theorem openPart_of_accepting {parts : Assembly} (accepting : Accepting parts) (part : Part) :
    openPart part parts = .ok (part :: parts) :=
  openPart_eq_ok_iff.mpr ⟨accepting, rfl⟩

/-! ## Fields and elements -/

/-- A field is appended exactly when its name is new. -/
theorem appendField_eq_ok_iff {fields result : List (String × Value)} {name : String}
    {value : Value} :
    appendField fields name value = .ok result ↔
      name ∉ fields.map (·.1) ∧ result = fields ++ [(name, value)] := by
  unfold appendField
  split <;> simp_all [eq_comm]

/-- A new name leaves the names of a structure distinct. -/
theorem nodup_names_concat {fields : List (String × Value)} {name : String}
    (distinct : (fields.map (·.1)).Nodup) (new : name ∉ fields.map (·.1)) (value : Value) :
    ((fields ++ [(name, value)]).map (·.1)).Nodup := by
  rw [List.map_append, List.nodup_append]
  refine ⟨distinct, by simp, ?_⟩
  intro taken takenMember last lastMember same
  obtain rfl := List.mem_singleton.mp lastMember
  exact new (same ▸ takenMember)

/-- A value that has the element type becomes an element as it is. -/
@[simp]
theorem fitElement_typeOf (value : Value) : fitElement value.typeOf value = .ok value := by
  simp [fitElement]

/-! ## What actions do -/

/-- What an action that is accepted makes of the parts on top. -/
inductive Action.Makes : Action → Assembly → Assembly → Prop
  | value {item : Value} {parts : Assembly} (accepting : Accepting parts) :
      Makes (.value item) parts (.value item :: parts)
  | startStruct {name : Option String} {parts : Assembly} (accepting : Accepting parts) :
      Makes (.startStruct name) parts (.struct name [] :: parts)
  | endStruct {name : Option String} {fields : List (String × Value)} {rest : Assembly} :
      Makes .endStruct (.struct name fields :: rest) (.value (.struct name fields) :: rest)
  | startField {name : String} {structName : Option String} {fields : List (String × Value)}
      {rest : Assembly} :
      Makes (.startField name) (.struct structName fields :: rest)
        (.field name :: .struct structName fields :: rest)
  | endField {value : Value} {name : String} {structName : Option String}
      {fields : List (String × Value)} {rest : Assembly} (new : name ∉ fields.map (·.1)) :
      Makes .endField (.value value :: .field name :: .struct structName fields :: rest)
        (.struct structName (fields ++ [(name, value)]) :: rest)
  | startArray {name : Option String} {hint : Option DataType} {length : Option Nat}
      {parts : Assembly} (accepting : Accepting parts) :
      Makes (.startArray name hint length) parts (.array name hint length [] :: parts)
  | endArray {name : Option String} {element : Option DataType} {length : Option Nat}
      {elements : List Value} {rest : Assembly} :
      Makes .endArray (.array name element length elements :: rest)
        (.value (.array name (element.getD .empty) length elements) :: rest)
  | startElement {name : Option String} {element : Option DataType} {length : Option Nat}
      {elements : List Value} {rest : Assembly} :
      Makes .startElement (.array name element length elements :: rest)
        (.element :: .array name element length elements :: rest)
  | endElement {value fitted : Value} {name : Option String} {element : Option DataType}
      {length : Option Nat} {elements : List Value} {rest : Assembly}
      (fits : fitElement (element.getD value.typeOf) value = .ok fitted) :
      Makes .endElement (.value value :: .element :: .array name element length elements :: rest)
        (.array name (some (element.getD value.typeOf)) length (elements ++ [fitted]) :: rest)

/-- An accepted action makes of the parts on top what its kind says. -/
theorem Action.makes_of_apply {action : Action} {parts next : Assembly}
    (applied : action.apply parts = .ok next) : action.Makes parts next := by
  cases action with
  | value item =>
      obtain ⟨accepting, rfl⟩ := openPart_eq_ok_iff.mp applied
      exact .value accepting
  | startStruct name =>
      obtain ⟨accepting, rfl⟩ := openPart_eq_ok_iff.mp applied
      exact .startStruct accepting
  | endStruct =>
      simp only [Action.apply, Assembly.endStruct] at applied
      split at applied
      · cases applied
        exact .endStruct
      · cases applied
  | startField name =>
      simp only [Action.apply, Assembly.startField] at applied
      split at applied
      · cases applied
        exact .startField
      · cases applied
  | endField =>
      simp only [Action.apply, Assembly.endField] at applied
      split at applied
      · obtain ⟨fields, appended, rfl⟩ := Outcome.map_eq_ok_iff.mp applied
        obtain ⟨new, rfl⟩ := appendField_eq_ok_iff.mp appended
        exact .endField new
      · cases applied
  | startArray name hint length =>
      obtain ⟨accepting, rfl⟩ := openPart_eq_ok_iff.mp applied
      exact .startArray accepting
  | endArray =>
      simp only [Action.apply, Assembly.endArray] at applied
      split at applied
      · cases applied
        exact .endArray
      · cases applied
  | startElement =>
      simp only [Action.apply, Assembly.startElement] at applied
      split at applied
      · cases applied
        exact .startElement
      · cases applied
  | endElement =>
      simp only [Action.apply, Assembly.endElement] at applied
      split at applied
      · obtain ⟨fitted, fits, rfl⟩ := Outcome.map_eq_ok_iff.mp applied
        exact .endElement fits
      · cases applied

end ProcessImage.Assembly
