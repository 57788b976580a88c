import ProcessImage.Proofs.Value.Coercion

/-!
# Complete values

A value is complete when each of its arrays has as many elements as it declares,
at any depth.  Fitting a value to a type does not make it complete: an array may
have fewer elements than its fixed length.

A value keeps what it announces when its arrays keep their types, it is complete,
and the fields of each structure have different names: `regular_iff`.
-/

namespace ProcessImage.Value

mutual

/-- A property of a value and of all that it holds, at any depth. -/
def Everywhere (property : Value → Prop) : Value → Prop
  | .empty => property .empty
  | .scalar datum => property (.scalar datum)
  | .struct name fields => property (.struct name fields) ∧ FieldsEverywhere property fields
  | .array name element length elements =>
      property (.array name element length elements) ∧ AllEverywhere property elements

/-- A property of all that fields hold, at any depth. -/
def FieldsEverywhere (property : Value → Prop) : List (String × Value) → Prop
  | [] => True
  | (_, value) :: rest => value.Everywhere property ∧ FieldsEverywhere property rest

/-- A property of all that values hold, at any depth. -/
def AllEverywhere (property : Value → Prop) : List Value → Prop
  | [] => True
  | value :: rest => value.Everywhere property ∧ AllEverywhere property rest

end

/-- An array with a fixed length has as many elements. -/
def HasAllElements : Value → Prop
  | .array _ _ length elements => ∀ count ∈ length, elements.length = count
  | _ => True

/-- The fields of a structure have different names. -/
def HasDistinctFields : Value → Prop
  | .struct _ fields => (fields.map (·.1)).Nodup
  | _ => True

/-- All arrays have as many elements as they declare. -/
def Complete : Value → Prop :=
  Everywhere HasAllElements

/-- In every structure the fields have different names. -/
def DistinctFields : Value → Prop :=
  Everywhere HasDistinctFields

section Everywhere

variable {property : Value → Prop} {name : Option String}

theorem fieldsEverywhere_iff {fields : List (String × Value)} :
    FieldsEverywhere property fields ↔ ∀ field ∈ fields, field.2.Everywhere property := by
  induction fields with
  | nil => simp [FieldsEverywhere]
  | cons field rest ih => simp [FieldsEverywhere, ih]

theorem allEverywhere_iff {values : List Value} :
    AllEverywhere property values ↔ ∀ value ∈ values, value.Everywhere property := by
  induction values with
  | nil => simp [AllEverywhere]
  | cons value rest ih => simp [AllEverywhere, ih]

theorem everywhere_struct_iff {fields : List (String × Value)} :
    (struct name fields).Everywhere property ↔
      property (.struct name fields) ∧ ∀ field ∈ fields, field.2.Everywhere property := by
  rw [Everywhere, fieldsEverywhere_iff]

theorem everywhere_array_iff {element : DataType} {length : Option Nat} {elements : List Value} :
    (array name element length elements).Everywhere property ↔
      property (.array name element length elements) ∧
        ∀ value ∈ elements, value.Everywhere property := by
  rw [Everywhere, allEverywhere_iff]

end Everywhere

/-- As many elements as declared are not too many. -/
theorem exceeds_of_complete {count : Nat} {length : Option Nat}
    (complete : ∀ fixed ∈ length, count = fixed) : exceeds count length = false := by
  cases length with
  | none => rfl
  | some fixed => simp [exceeds, complete fixed rfl]

/-- A value keeps what it announces when its arrays keep their types and lengths and
its fields have different names. -/
theorem regular_iff {value : Value} :
    value.Regular ↔ value.Typed ∧ value.Complete ∧ value.DistinctFields := by
  unfold Complete DistinctFields
  induction value with
  | empty => simp [Regular, Typed, Everywhere, HasAllElements, HasDistinctFields]
  | scalar datum => simp [Regular, Typed, Everywhere, HasAllElements, HasDistinctFields]
  | struct name fields each =>
      simp only [Regular, Typed, everywhere_struct_iff, fieldsRegular_iff, fieldsTyped_iff,
        HasAllElements, HasDistinctFields, true_and]
      constructor
      · rintro ⟨nodup, inner⟩
        exact ⟨fun field inside => ((each field inside).mp (inner field inside)).1,
          fun field inside => ((each field inside).mp (inner field inside)).2.1,
          nodup, fun field inside => ((each field inside).mp (inner field inside)).2.2⟩
      · rintro ⟨typed, complete, nodup, distinct⟩
        exact ⟨nodup, fun field inside => (each field inside).mpr
          ⟨typed field inside, complete field inside, distinct field inside⟩⟩
  | array name element length elements each =>
      simp only [Regular, Typed, everywhere_array_iff, elementsRegular_iff, elementsTyped_iff,
        HasAllElements, HasDistinctFields, true_and]
      constructor
      · rintro ⟨complete, inner⟩
        have parts := fun value inside => (each value inside).mp (inner value inside).2
        exact ⟨⟨exceeds_of_complete complete,
            fun value inside => ⟨(inner value inside).1, (parts value inside).1⟩⟩,
          ⟨complete, fun value inside => (parts value inside).2.1⟩,
          fun value inside => (parts value inside).2.2⟩
      · rintro ⟨⟨_, typed⟩, ⟨complete, inner⟩, distinct⟩
        exact ⟨complete, fun value inside => ⟨(typed value inside).1, (each value inside).mpr
          ⟨(typed value inside).2, inner value inside, distinct value inside⟩⟩⟩

/-- Where the names in a type are different, so are those in a value whose arrays
keep their types. -/
theorem distinctFields_of_typed {value : Value} (typed : value.Typed)
    (distinct : value.typeOf.DistinctNames) : value.DistinctFields := by
  unfold DistinctFields
  induction value with
  | empty => trivial
  | scalar datum => trivial
  | struct name fields each =>
      rw [typeOf, DataType.DistinctNames, DataType.fieldsDistinctNames_iff, fieldTypes_eq_map] at distinct
      rw [everywhere_struct_iff]
      refine ⟨by simpa [HasDistinctFields, Function.comp_def] using distinct.1, ?_⟩
      intro field inside
      exact each field inside (fieldsTyped_iff.mp typed field inside)
        (distinct.2 (field.1, field.2.typeOf) (List.mem_map_of_mem inside))
  | array name element length elements each =>
      rw [everywhere_array_iff]
      refine ⟨trivial, fun value inside => ?_⟩
      obtain ⟨isElement, elementTyped⟩ := elementsTyped_iff.mp typed.2 value inside
      exact each value inside elementTyped (isElement ▸ distinct)

end ProcessImage.Value
