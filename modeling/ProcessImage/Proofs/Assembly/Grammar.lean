import ProcessImage.Proofs.Assembly.Action

/-!
# The grammar of assemblies

A `Phrase` is a derivation of the grammar of values: a complete value, a
structure of fields in brackets, or an array of elements in brackets.  It
spells a list of actions, and it denotes a value unless two fields of a
structure have one name or an element does not fit its array.

An assembly accepts the actions that phrases spell and no others, and yields
what they denote.  From phrases to runs, the proof follows the phrase.  In the
other direction, every assembly that a run can reach is spelled by unfinished
phrases, one for each part on the stack; `Spells` is that invariant.
-/

namespace ProcessImage.Assembly

/-- A derivation of a value. -/
inductive Phrase where
  | value (value : Value)
  | struct (name : Option String) (fields : List (String × Phrase))
  | array (name : Option String) (hint : Option DataType) (length : Option Nat)
      (elements : List Phrase)

/-- A value as an element of a type: as it is when it has the type, else
converted, if it can be. -/
def conform? (type : DataType) (value : Value) : Option Value :=
  if value.typeOf = type then some value else value.coerce? type

/-- The type of the elements of an array as far as it is known: the hint, or
else the type of the first element. -/
def knownType? (hint : Option DataType) (values : List Value) : Option DataType :=
  hint.or (values.head?.map Value.typeOf)

/-- The type of the elements of a complete array. -/
def elementType (hint : Option DataType) (values : List Value) : DataType :=
  (knownType? hint values).getD .empty

namespace Phrase

/-- A property of all phrases follows from the three shapes, where structures
and arrays may rely on the property for what they hold. -/
@[elab_as_elim, induction_eliminator]
theorem induction {motive : Phrase → Prop} (value : ∀ item, motive (.value item))
    (struct : ∀ name fields, (∀ field ∈ fields, motive field.2) → motive (.struct name fields))
    (array : ∀ name hint length elements, (∀ element ∈ elements, motive element) →
      motive (.array name hint length elements))
    (phrase : Phrase) : motive phrase :=
  Phrase.rec (motive_1 := motive) (motive_2 := fun fields => ∀ field ∈ fields, motive field.2)
    (motive_3 := fun elements => ∀ element ∈ elements, motive element)
    (motive_4 := fun field => motive field.2) value
    (fun name fields each => struct name fields each)
    (fun name hint length elements each => array name hint length elements each) (by simp)
    (fun _ _ first others => by
      simpa using ⟨first, fun name phrase member => others (name, phrase) member⟩)
    (by simp) (fun _ _ first others => by simpa using ⟨first, others⟩)
    (fun _ _ inner => inner) phrase

mutual

/-- The actions that a phrase spells. -/
def actions : Phrase → List Action
  | .value item => [.value item]
  | .struct name fields => .startStruct name :: (fieldActions fields ++ [.endStruct])
  | .array name hint length elements =>
      .startArray name hint length :: (elementActions elements ++ [.endArray])

/-- The actions that fields spell. -/
def fieldActions : List (String × Phrase) → List Action
  | [] => []
  | (name, phrase) :: rest =>
      .startField name :: (phrase.actions ++ .endField :: fieldActions rest)

/-- The actions that elements spell. -/
def elementActions : List Phrase → List Action
  | [] => []
  | phrase :: rest => .startElement :: (phrase.actions ++ .endElement :: elementActions rest)

end

mutual

/-- The value that a phrase denotes: fields and elements in order, where each
element that does not have the element type is converted to it. -/
def denote? : Phrase → Option Value
  | .value item => some item
  | .struct name fields => do
      let values ← denoteFields? fields
      if (values.map (·.1)).Nodup then some (.struct name values) else none
  | .array name hint length elements => do
      let values ← denoteAll? elements
      let fitted ← values.mapM (conform? (elementType hint values))
      return .array name (elementType hint values) length fitted

/-- The values that fields denote, with their names. -/
def denoteFields? : List (String × Phrase) → Option (List (String × Value))
  | [] => some []
  | (name, phrase) :: rest => do
      let first ← phrase.denote?
      let others ← denoteFields? rest
      return (name, first) :: others

/-- The values that phrases denote. -/
def denoteAll? : List Phrase → Option (List Value)
  | [] => some []
  | phrase :: rest => do
      let first ← phrase.denote?
      let others ← denoteAll? rest
      return first :: others

end

/-! ## One more field, one more element -/

theorem fieldActions_concat (fields : List (String × Phrase)) (name : String)
    (phrase : Phrase) :
    fieldActions (fields ++ [(name, phrase)]) =
      fieldActions fields ++ (.startField name :: (phrase.actions ++ [.endField])) := by
  induction fields with
  | nil => rfl
  | cons field rest ih => simp [fieldActions, ih]

theorem elementActions_concat (elements : List Phrase) (phrase : Phrase) :
    elementActions (elements ++ [phrase]) =
      elementActions elements ++ (.startElement :: (phrase.actions ++ [.endElement])) := by
  induction elements with
  | nil => rfl
  | cons element rest ih => simp [elementActions, ih]

theorem denoteFields?_cons_eq_some_iff {name : String} {phrase : Phrase}
    {rest : List (String × Phrase)} {values : List (String × Value)} :
    denoteFields? ((name, phrase) :: rest) = some values ↔
      ∃ first others, phrase.denote? = some first ∧ denoteFields? rest = some others ∧
        (name, first) :: others = values := by
  simp [denoteFields?, Option.bind_eq_some_iff]

theorem denoteAll?_cons_eq_some_iff {phrase : Phrase} {rest : List Phrase}
    {values : List Value} :
    denoteAll? (phrase :: rest) = some values ↔
      ∃ first others, phrase.denote? = some first ∧ denoteAll? rest = some others ∧
        first :: others = values := by
  simp [denoteAll?, Option.bind_eq_some_iff]

theorem denoteFields?_concat {fields : List (String × Phrase)}
    {values : List (String × Value)} {phrase : Phrase} {last : Value} (name : String)
    (denoted : denoteFields? fields = some values) (also : phrase.denote? = some last) :
    denoteFields? (fields ++ [(name, phrase)]) = some (values ++ [(name, last)]) := by
  induction fields generalizing values with
  | nil =>
      cases denoted
      simp [denoteFields?, also]
  | cons field rest ih =>
      obtain ⟨first, others, firstEq, othersEq, rfl⟩ := denoteFields?_cons_eq_some_iff.mp denoted
      exact denoteFields?_cons_eq_some_iff.mpr ⟨first, _, firstEq, ih othersEq, rfl⟩

theorem denoteAll?_concat {elements : List Phrase} {values : List Value} {phrase : Phrase}
    {last : Value} (denoted : denoteAll? elements = some values)
    (also : phrase.denote? = some last) :
    denoteAll? (elements ++ [phrase]) = some (values ++ [last]) := by
  induction elements generalizing values with
  | nil =>
      cases denoted
      simp [denoteAll?, also]
  | cons element rest ih =>
      obtain ⟨first, others, firstEq, othersEq, rfl⟩ := denoteAll?_cons_eq_some_iff.mp denoted
      exact denoteAll?_cons_eq_some_iff.mpr ⟨first, _, firstEq, ih othersEq, rfl⟩

theorem denote?_struct_eq_some_iff {name : Option String} {fields : List (String × Phrase)}
    {value : Value} :
    (Phrase.struct name fields).denote? = some value ↔
      ∃ values, denoteFields? fields = some values ∧ (values.map (·.1)).Nodup ∧
        .struct name values = value := by
  simp [denote?, Option.bind_eq_some_iff]

theorem denote?_array_eq_some_iff {name : Option String} {hint : Option DataType}
    {length : Option Nat} {elements : List Phrase} {value : Value} :
    (Phrase.array name hint length elements).denote? = some value ↔
      ∃ values fitted, denoteAll? elements = some values ∧
        values.mapM (conform? (elementType hint values)) = some fitted ∧
        .array name (elementType hint values) length fitted = value := by
  simp [denote?, Option.bind_eq_some_iff]

end Phrase

/-! ## What phrases spell is accepted -/

/-- Fitting an element succeeds exactly as conforming does. -/
theorem fitElement_eq_ok_iff {type : DataType} {value fitted : Value} :
    fitElement type value = .ok fitted ↔ conform? type value = some fitted := by
  unfold fitElement conform?
  split
  · simp
  · cases value.coerce? type <;> simp

@[simp]
theorem conform?_typeOf (value : Value) : conform? value.typeOf value = some value := by
  simp [conform?]

theorem mapM_conform?_cons_eq_some_iff {type : DataType} {first : Value}
    {rest fitted : List Value} :
    (first :: rest).mapM (conform? type) = some fitted ↔
      ∃ head tail, conform? type first = some head ∧ rest.mapM (conform? type) = some tail ∧
        head :: tail = fitted := by
  simp [List.mapM_cons, Option.bind_eq_some_iff]

/-- On an accepting assembly the actions of a phrase put the value that the
phrase denotes. -/
def Phrase.Runs (phrase : Phrase) : Prop :=
  ∀ value parts, phrase.denote? = some value → Accepting parts →
    run phrase.actions parts = .ok (.value value :: parts)

/-- Fields run on an open structure append their values to it. -/
theorem run_fieldActions {fields : List (String × Phrase)} {values : List (String × Value)}
    (each : ∀ field ∈ fields, field.2.Runs)
    (denoted : Phrase.denoteFields? fields = some values) (earlier : List (String × Value))
    (distinct : ((earlier ++ values).map (·.1)).Nodup) (name : Option String) (parts : Assembly) :
    run (Phrase.fieldActions fields) (.struct name earlier :: parts) =
      .ok (.struct name (earlier ++ values) :: parts) := by
  induction fields generalizing values earlier with
  | nil =>
      cases denoted
      simp [Phrase.fieldActions]
  | cons field rest ih =>
      rcases field with ⟨fieldName, phrase⟩
      obtain ⟨first, others, firstEq, othersEq, rfl⟩ :=
        Phrase.denoteFields?_cons_eq_some_iff.mp denoted
      have inner := each (fieldName, phrase) List.mem_cons_self first
        (.field fieldName :: .struct name earlier :: parts) firstEq (accepting_field _ _)
      have new : fieldName ∉ earlier.map (·.1) := by
        intro taken
        rw [List.map_append, List.nodup_append] at distinct
        exact distinct.2.2 _ taken _ (by simp) rfl
      have appended : appendField earlier fieldName first = .ok (earlier ++ [(fieldName, first)]) :=
        appendField_eq_ok_iff.mpr ⟨new, rfl⟩
      have later := ih (fun field member => each field (List.mem_cons_of_mem _ member)) othersEq
        (earlier ++ [(fieldName, first)]) (by simpa using distinct)
      simp only [List.append_assoc, List.cons_append, List.nil_append] at later
      simp [Phrase.fieldActions, Action.apply, startField, endField, inner, appended, Except.map,
        later]

/-- Elements run on an open array of a known element type append their values
to it, each as the element type wants it. -/
theorem run_elementActions_typed {elements : List Phrase} {values fitted : List Value}
    {type : DataType} (each : ∀ phrase ∈ elements, phrase.Runs)
    (denoted : Phrase.denoteAll? elements = some values)
    (conforming : values.mapM (conform? type) = some fitted) (earlier : List Value)
    (name : Option String) (length : Option Nat) (parts : Assembly) :
    run (Phrase.elementActions elements) (.array name (some type) length earlier :: parts) =
      .ok (.array name (some type) length (earlier ++ fitted) :: parts) := by
  induction elements generalizing values fitted earlier with
  | nil =>
      cases denoted
      cases conforming
      simp [Phrase.elementActions]
  | cons phrase rest ih =>
      obtain ⟨first, others, firstEq, othersEq, rfl⟩ :=
        Phrase.denoteAll?_cons_eq_some_iff.mp denoted
      obtain ⟨head, tail, headEq, tailEq, rfl⟩ := mapM_conform?_cons_eq_some_iff.mp conforming
      have inner := each phrase List.mem_cons_self first
        (.element :: .array name (some type) length earlier :: parts) firstEq
        (accepting_element _)
      have later := ih (fun phrase member => each phrase (List.mem_cons_of_mem _ member)) othersEq
        tailEq (earlier ++ [head])
      simp only [List.append_assoc, List.cons_append, List.nil_append] at later
      simp [Phrase.elementActions, Action.apply, startElement, endElement, inner,
        fitElement_eq_ok_iff.mpr headEq, Except.map, later]

/-- Elements run on a fresh array leave it with the element type that is known
then.  Without a hint the first element fixes the type, and all others meet an
array of a known type. -/
theorem run_elementActions {elements : List Phrase} {values fitted : List Value}
    {hint : Option DataType} (each : ∀ phrase ∈ elements, phrase.Runs)
    (denoted : Phrase.denoteAll? elements = some values)
    (conforming : values.mapM (conform? (elementType hint values)) = some fitted)
    (name : Option String) (length : Option Nat) (parts : Assembly) :
    run (Phrase.elementActions elements) (.array name hint length [] :: parts) =
      .ok (.array name (knownType? hint values) length fitted :: parts) := by
  cases hint with
  | some type => exact run_elementActions_typed each denoted conforming [] name length parts
  | none =>
      cases elements with
      | nil =>
          cases denoted
          cases conforming
          rfl
      | cons phrase rest =>
          obtain ⟨first, others, firstEq, othersEq, rfl⟩ :=
            Phrase.denoteAll?_cons_eq_some_iff.mp denoted
          obtain ⟨head, tail, headEq, tailEq, rfl⟩ := mapM_conform?_cons_eq_some_iff.mp conforming
          have same : head = first := by simpa [elementType, knownType?, eq_comm] using headEq
          subst same
          have inner := each phrase List.mem_cons_self head
            (.element :: .array name none length [] :: parts) firstEq (accepting_element _)
          have later := run_elementActions_typed
            (fun phrase member => each phrase (List.mem_cons_of_mem _ member)) othersEq tailEq
            [head] name length parts
          simp only [elementType, knownType?, List.head?_cons, Option.map_some, Option.none_or,
            Option.getD_some, List.cons_append, List.nil_append] at later
          simp [Phrase.elementActions, Action.apply, startElement, endElement, inner, Except.map,
            later, knownType?]

/-- Every phrase runs: by induction on the phrase, its fields and elements do. -/
theorem Phrase.runs (phrase : Phrase) : phrase.Runs := by
  induction phrase with
  | value item =>
      intro value parts denoted accepting
      cases denoted
      simp [Phrase.actions, Action.apply, pushValue, openPart_of_accepting accepting]
  | struct name fields each =>
      intro value parts denoted accepting
      obtain ⟨values, valuesEq, distinct, rfl⟩ := denote?_struct_eq_some_iff.mp denoted
      have filled := run_fieldActions each valuesEq [] distinct name parts
      simp only [List.nil_append] at filled
      simp [Phrase.actions, Action.apply, startStruct, openPart_of_accepting accepting, filled,
        endStruct]
  | array name hint length elements each =>
      intro value parts denoted accepting
      obtain ⟨values, fitted, valuesEq, fittedEq, rfl⟩ := denote?_array_eq_some_iff.mp denoted
      have filled := run_elementActions each valuesEq fittedEq name length parts
      simp [Phrase.actions, Action.apply, startArray, openPart_of_accepting accepting, filled,
        endArray, elementType]

/-! ## Nothing else is accepted -/

/-- Whatever comes last, the element type is the one that was known before. -/
theorem knownType?_concat (hint : Option DataType) (values : List Value) (last : Value) :
    knownType? hint (values ++ [last]) = some ((knownType? hint values).getD last.typeOf) := by
  cases hint <;> cases values <;> simp [knownType?]

/-- One more element leaves the earlier ones as they were fitted: either their
type is known already, or there are none. -/
theorem mapM_conform?_concat {hint : Option DataType} {values fitted : List Value}
    {last lastFitted : Value}
    (conforming : values.mapM (conform? (elementType hint values)) = some fitted)
    (also : conform? ((knownType? hint values).getD last.typeOf) last = some lastFitted) :
    (values ++ [last]).mapM (conform? (elementType hint (values ++ [last]))) =
      some (fitted ++ [lastFitted]) := by
  have type : elementType hint (values ++ [last]) =
      (knownType? hint values).getD last.typeOf := by
    rw [elementType, knownType?_concat, Option.getD_some]
  have earlier : values.mapM (conform? ((knownType? hint values).getD last.typeOf)) =
      some fitted := by
    cases values with
    | nil => simpa using conforming
    | cons first rest =>
        cases hint <;> simpa [elementType, knownType?] using conforming
  rw [type, List.mapM_append, earlier]
  simp [also]

/-- The actions that lead to an assembly, as unfinished phrases: one for each of
its parts, where an open structure or array has the fields or elements of a
phrase that is not closed yet. -/
inductive Spells : List Action → Assembly → Prop
  | nil : Spells [] []
  | value {actions : List Action} {parts : Assembly} {phrase : Phrase} {item : Value}
      (below : Spells actions parts) (accepting : Accepting parts)
      (denoted : phrase.denote? = some item) :
      Spells (actions ++ phrase.actions) (.value item :: parts)
  | struct {actions : List Action} {parts : Assembly} {name : Option String}
      {fields : List (String × Phrase)} {values : List (String × Value)}
      (below : Spells actions parts) (accepting : Accepting parts)
      (denoted : Phrase.denoteFields? fields = some values)
      (distinct : (values.map (·.1)).Nodup) :
      Spells (actions ++ .startStruct name :: Phrase.fieldActions fields)
        (.struct name values :: parts)
  | field {actions : List Action} {parts : Assembly} {structName : Option String}
      {values : List (String × Value)} {name : String}
      (below : Spells actions (.struct structName values :: parts)) :
      Spells (actions ++ [.startField name]) (.field name :: .struct structName values :: parts)
  | array {actions : List Action} {parts : Assembly} {name : Option String}
      {hint : Option DataType} {length : Option Nat} {elements : List Phrase}
      {values fitted : List Value}
      (below : Spells actions parts) (accepting : Accepting parts)
      (denoted : Phrase.denoteAll? elements = some values)
      (conforming : values.mapM (conform? (elementType hint values)) = some fitted) :
      Spells (actions ++ .startArray name hint length :: Phrase.elementActions elements)
        (.array name (knownType? hint values) length fitted :: parts)
  | element {actions : List Action} {parts : Assembly} {name : Option String}
      {type : Option DataType} {length : Option Nat} {elements : List Value}
      (below : Spells actions (.array name type length elements :: parts)) :
      Spells (actions ++ [.startElement]) (.element :: .array name type length elements :: parts)

namespace Spells

/-- A closed structure is the value of a phrase. -/
theorem endStruct {actions : List Action} {parts : Assembly} {name : Option String}
    {values : List (String × Value)} (spelled : Spells actions (.struct name values :: parts)) :
    Spells (actions ++ [.endStruct]) (.value (.struct name values) :: parts) := by
  cases spelled with
  | @struct actions _ _ fields _ below accepting denoted distinct =>
      have closed : (Phrase.struct name fields).denote? = some (.struct name values) :=
        Phrase.denote?_struct_eq_some_iff.mpr ⟨values, denoted, distinct, rfl⟩
      simpa [Phrase.actions] using value below accepting closed

/-- A closed array is the value of a phrase. -/
theorem endArray {actions : List Action} {parts : Assembly} {name : Option String}
    {type : Option DataType} {length : Option Nat} {elements : List Value}
    (spelled : Spells actions (.array name type length elements :: parts)) :
    Spells (actions ++ [.endArray])
      (.value (.array name (type.getD .empty) length elements) :: parts) := by
  cases spelled with
  | @array actions _ _ hint _ phrases values _ below accepting denoted conforming =>
      have closed : (Phrase.array name hint length phrases).denote? =
          some (.array name (elementType hint values) length elements) :=
        Phrase.denote?_array_eq_some_iff.mpr ⟨values, elements, denoted, conforming, rfl⟩
      simpa [Phrase.actions, elementType] using value below accepting closed

/-- A closed field is one more field of the structure below it. -/
theorem endField {actions : List Action} {parts : Assembly} {structName : Option String}
    {values : List (String × Value)} {name : String} {item : Value}
    (spelled : Spells actions (.value item :: .field name :: .struct structName values :: parts))
    (new : name ∉ values.map (·.1)) :
    Spells (actions ++ [.endField]) (.struct structName (values ++ [(name, item)]) :: parts) := by
  cases spelled with
  | @value _ _ phrase _ below _ last =>
      cases below with
      | field below =>
          cases below with
          | @struct actions _ _ fields _ below accepting denoted distinct =>
              have more := Phrase.denoteFields?_concat name denoted last
              have spelled : Spells _ (.struct structName _ :: parts) :=
                struct below accepting more (nodup_names_concat distinct new item)
              simpa [Phrase.fieldActions_concat] using spelled

/-- A closed element is one more element of the array below it. -/
theorem endElement {actions : List Action} {parts : Assembly} {name : Option String}
    {type : Option DataType} {length : Option Nat} {elements : List Value} {item fitted : Value}
    (spelled :
      Spells actions (.value item :: .element :: .array name type length elements :: parts))
    (fits : conform? (type.getD item.typeOf) item = some fitted) :
    Spells (actions ++ [.endElement])
      (.array name (some (type.getD item.typeOf)) length (elements ++ [fitted]) :: parts) := by
  cases spelled with
  | @value _ _ phrase _ below _ last =>
      cases below with
      | element below =>
          cases below with
          | @array actions _ _ hint _ phrases values _ below accepting denoted conforming =>
              have more := Phrase.denoteAll?_concat denoted last
              have all := mapM_conform?_concat conforming fits
              have spelled : Spells _ (.array name _ length _ :: parts) :=
                array below accepting more all
              rw [knownType?_concat] at spelled
              simpa [Phrase.elementActions_concat] using spelled

/-- An action that is accepted continues the phrases. -/
theorem apply {actions : List Action} {parts next : Assembly} {action : Action}
    (spelled : Spells actions parts) (applied : action.apply parts = .ok next) :
    Spells (actions ++ [action]) next := by
  cases Action.makes_of_apply applied with
  | @value item _ accepting =>
      have denoted : (Phrase.value item).denote? = some item := rfl
      exact value spelled accepting denoted
  | startStruct accepting =>
      have denoted : Phrase.denoteFields? [] = some [] := rfl
      exact struct spelled accepting denoted List.nodup_nil
  | endStruct => exact spelled.endStruct
  | startField => exact field spelled
  | endField new => exact spelled.endField new
  | @startArray name hint length _ accepting =>
      have denoted : Phrase.denoteAll? [] = some [] := rfl
      have spelled : Spells _ (.array name (knownType? hint []) length [] :: parts) :=
        array spelled accepting denoted rfl
      simpa [knownType?, Phrase.elementActions] using spelled
  | endArray => exact spelled.endArray
  | startElement => exact element spelled
  | endElement fits => exact spelled.endElement (fitElement_eq_ok_iff.mp fits)

/-- A run continues the phrases: by induction on the actions, each of them
does. -/
theorem run {earlier actions : List Action} {parts next : Assembly}
    (spelled : Spells earlier parts) (ran : Assembly.run actions parts = .ok next) :
    Spells (earlier ++ actions) next := by
  induction actions generalizing earlier parts with
  | nil =>
      cases ran
      simpa using spelled
  | cons action rest ih =>
      obtain ⟨middle, applied, ran⟩ := Outcome.bind_eq_ok_iff.mp ran
      simpa using ih (spelled.apply applied) ran

/-- Nothing is on the stack only before the first action. -/
theorem eq_nil {actions : List Action} (spelled : Spells actions []) : actions = [] := by
  cases spelled
  rfl

/-- A single complete value is the value of a single phrase. -/
theorem exists_phrase {actions : List Action} {value : Value}
    (spelled : Spells actions [.value value]) :
    ∃ phrase : Phrase, phrase.actions = actions ∧ phrase.denote? = some value := by
  cases spelled with
  | @value _ _ phrase _ below _ denoted =>
      cases below.eq_nil
      exact ⟨phrase, rfl, denoted⟩

end Spells

/-- An assembly is finished exactly when there is nothing, or a single complete
value. -/
theorem finish_eq_ok_iff {parts : Assembly} {value : Value} :
    finish parts = .ok value ↔ parts = [] ∧ value = .empty ∨ parts = [.value value] := by
  unfold finish
  split <;> simp_all [eq_comm]

/-- Actions assemble a value exactly when there are none, which assembles the
absent value, or when a phrase spells them, which assembles what the phrase
denotes. -/
theorem assemble_eq_ok_iff {actions : List Action} {value : Value} :
    assemble actions = .ok value ↔
      actions = [] ∧ value = .empty ∨
        ∃ phrase : Phrase, phrase.actions = actions ∧ phrase.denote? = some value := by
  constructor
  · intro assembled
    obtain ⟨parts, ran, finished⟩ := Outcome.bind_eq_ok_iff.mp assembled
    have spelled : Spells actions parts := by simpa using Spells.nil.run ran
    rcases finish_eq_ok_iff.mp finished with ⟨rfl, rfl⟩ | rfl
    · exact Or.inl ⟨spelled.eq_nil, rfl⟩
    · exact Or.inr spelled.exists_phrase
  · rintro (⟨rfl, rfl⟩ | ⟨phrase, rfl, denoted⟩)
    · rfl
    · rw [assemble, phrase.runs value [] denoted accepting_nil]
      rfl

end ProcessImage.Assembly
