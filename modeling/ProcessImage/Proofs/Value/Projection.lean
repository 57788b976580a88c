import ProcessImage.Proofs.Value.Adoption
import ProcessImage.Proofs.Value.Coercion

/-!
# Fitting as a projection

Fitting maps all values onto the values of a type.  Those are the values that announce
the type and whose arrays keep their types, at any depth, and fitting leaves each of
them as it is.

Fields are found by their names, so this needs a type in which the fields of every
structure have different names: otherwise the first field of a name would stand for
all of that name.
-/

namespace ProcessImage

/-- A datum stays as it is in its own kind. -/
@[simp]
theorem Scalar.convert?_kind (datum : Scalar) : datum.convert? datum.kind = some datum :=
  if_pos rfl

namespace Value

/-! ## Values of a type -/

/-- Whether a value is one of a type: it announces the type, and at any depth the
elements of its arrays have the declared type and do not exceed a fixed length. -/
structure HasType (value : Value) (type : DataType) : Prop where
  typeOf : value.typeOf = type
  typed : value.Typed

/-- As many elements as a fixed length asks for do not exceed it. -/
theorem exceeds_getD (length : Option Nat) : exceeds (length.getD 0) length = false := by
  cases length <;> simp [exceeds]

theorem typed_defaultOf (type : DataType) : (defaultOf type).Typed := by
  induction type with
  | empty => trivial
  | scalar kind => trivial
  | struct name fields each =>
      rw [defaultOf, Typed, fieldsTyped_iff, defaultFields_eq_map]
      intro field inside
      obtain ⟨declared, isDeclared, rfl⟩ := List.mem_map.mp inside
      exact each declared isDeclared
  | array name element length inner =>
      refine ⟨by simpa using exceeds_getD length, elementsTyped_iff.mpr fun value inside => ?_⟩
      obtain rfl := List.eq_of_mem_replicate inside
      exact ⟨typeOf_defaultOf element, inner⟩

/-- The default of a type is a value of the type. -/
theorem hasType_defaultOf (type : DataType) : (defaultOf type).HasType type :=
  ⟨typeOf_defaultOf type, typed_defaultOf type⟩

/-! ## Values of a type fit as they are -/

/-- Each of several fields with different names is found by its name. -/
theorem lookup_of_mem {fields : List (String × Value)} (distinct : (fields.map (·.1)).Nodup)
    {field : String × Value} (inside : field ∈ fields) :
    fields.lookup field.1 = some field.2 := by
  obtain ⟨before, after, rfl⟩ := List.append_of_mem inside
  rw [List.map_append, List.nodup_append] at distinct
  refine lookup_middle fun earlier => ?_
  exact distinct.2.2 _ earlier _ (by simp) rfl

/-- Fields that are found in a source and fit their types as they are, are what the
source fits as. -/
theorem coerceFields?_fieldTypes {fields source : List (String × Value)}
    (found : ∀ field ∈ fields, source.lookup field.1 = some field.2)
    (each : ∀ field ∈ fields, field.2.coerce? field.2.typeOf = some field.2) :
    coerceFields? (fieldTypes fields) source = some fields := by
  induction fields with
  | nil => rfl
  | cons field rest ih =>
      rw [List.forall_mem_cons] at found each
      rw [fieldTypes, coerceFields?_cons_eq_some_iff]
      exact ⟨field.2, field.2, rest, found.1, each.1, ih found.2 each.2, rfl⟩

/-- A value whose arrays keep their types fits its own type as it is. -/
theorem Typed.coerce?_typeOf {value : Value} (typed : value.Typed)
    (distinct : value.typeOf.DistinctNames) : value.coerce? value.typeOf = some value := by
  induction value with
  | empty => rfl
  | scalar datum => simp [typeOf, coerce?, coerceScalar?]
  | struct name fields each =>
      rw [typeOf, DataType.DistinctNames, DataType.fieldsDistinctNames_iff,
        fieldTypes_eq_map] at distinct
      have names : (fields.map (·.1)).Nodup := by simpa [Function.comp_def] using distinct.1
      have inner : ∀ field ∈ fields, field.2.coerce? field.2.typeOf = some field.2 :=
        fun field inside => each field inside (fieldsTyped_iff.mp typed field inside)
          (distinct.2 (field.1, field.2.typeOf) (List.mem_map_of_mem inside))
      rw [typeOf, coerce?_struct_eq_some_iff]
      exact ⟨fields, fields, rfl,
        coerceFields?_fieldTypes (fun field => lookup_of_mem names) inner, rfl⟩
  | array name element length elements each =>
      have inner : ∀ value ∈ elements, value.coerce? element = some value := by
        intro value inside
        obtain ⟨isElement, elementTyped⟩ := elementsTyped_iff.mp typed.2 value inside
        subst isElement
        exact each value inside elementTyped distinct
      rw [typeOf, coerce?_array_eq_some_iff]
      exact ⟨elements, elements, rfl, typed.1, mapM_eq_some_self inner, rfl⟩

/-- A value of a type fits it as it is. -/
theorem HasType.coerce? {value : Value} {type : DataType} (isOf : value.HasType type)
    (distinct : type.DistinctNames) : value.coerce? type = some value := by
  obtain ⟨rfl, typed⟩ := isOf
  exact typed.coerce?_typeOf distinct

/-! ## The projection -/

/-- For a type with different names, every value that fits becomes a value of the type,
to which fitting does nothing more.  Conversely, fitting does nothing to any value of
the type, its default among them. -/
theorem coerce?_projects {type : DataType} (distinct : type.DistinctNames) :
    (∀ value coerced : Value, value.coerce? type = some coerced →
      coerced.HasType type ∧ coerced.coerce? type = some coerced) ∧
    (∀ value : Value, value.HasType type → value.coerce? type = some value) ∧
    (defaultOf type).HasType type ∧ (defaultOf type).coerce? type = some (defaultOf type) := by
  have fixed : ∀ value : Value, value.HasType type → value.coerce? type = some value :=
    fun value isOf => isOf.coerce? distinct
  have default := hasType_defaultOf type
  refine ⟨fun value coerced fits => ?_, fixed, default, fixed _ default⟩
  obtain ⟨isType, typed⟩ := typed_of_coerce? fits
  exact ⟨⟨isType, typed⟩, fixed coerced ⟨isType, typed⟩⟩

/-- A source with its fields in another order, one too many and one number for an array
of up to two becomes an axis once and for all. -/
theorem coerce?_projects_axis :
    let type := DataType.struct (some "Axis")
      [("target", .scalar (.integer .int16)),
        ("limits", .fixedArrayOf (.scalar (.integer .uint8)) 2)]
    let source := Value.struct none
      [("limits", .scalar (.integer .uint16 200 (by decide))), ("spare", .empty),
        ("target", .scalar (.string " -7 "))]
    let axis := Value.struct (some "Axis")
      [("target", .scalar (.integer .int16 (-7) (by decide))),
        ("limits", .array none (.scalar (.integer .uint8)) (some 2)
          [.scalar (.integer .uint8 200 (by decide))])]
    type.DistinctNames ∧ source.coerce? type = some axis ∧ axis.HasType type ∧
      axis.coerce? type = some axis := by
  intro type source axis
  have distinct : type.DistinctNames := by
    simp [type, DataType.DistinctNames, DataType.FieldsDistinctNames, DataType.fixedArrayOf]
  have fits : source.coerce? type = some axis := rfl
  exact ⟨distinct, fits, (coerce?_projects distinct).1 source axis fits⟩

end Value

end ProcessImage
