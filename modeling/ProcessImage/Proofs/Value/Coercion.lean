import ProcessImage.Proofs.Value.Conforming
import ProcessImage.Value.Coercion

/-!
# Values in types

A value that fits a type has that type then, and so has every part of it: the
elements of its arrays have the declared type, and there are not more of them than
a fixed length allows.  There may be fewer, so a fitted value need not conform.
-/

namespace ProcessImage

/-! ## Names of fields in types -/

namespace DataType

mutual

/-- Whether the fields of every structure in a type have different names. -/
def DistinctNames : DataType → Prop
  | .empty => True
  | .scalar _ => True
  | .struct _ fields => (fields.map (·.1)).Nodup ∧ FieldsDistinctNames fields
  | .array _ element _ => element.DistinctNames

/-- Whether names are different within the types of all fields. -/
def FieldsDistinctNames : List (String × DataType) → Prop
  | [] => True
  | (_, type) :: rest => type.DistinctNames ∧ FieldsDistinctNames rest

end

theorem fieldsDistinctNames_iff {fields : List (String × DataType)} :
    FieldsDistinctNames fields ↔ ∀ field ∈ fields, field.2.DistinctNames := by
  induction fields with
  | nil => simp [FieldsDistinctNames]
  | cons field rest ih => simp [FieldsDistinctNames, ih]

end DataType

namespace Value

/-! ## Values whose arrays keep their types -/

mutual

/-- Whether, at any depth, the elements of an array have the declared type and do
not exceed a fixed length. -/
def Typed : Value → Prop
  | .empty => True
  | .scalar _ => True
  | .struct _ fields => FieldsTyped fields
  | .array _ element length elements =>
      exceeds elements.length length = false ∧ ElementsTyped element elements

/-- Whether the arrays in all fields keep their types. -/
def FieldsTyped : List (String × Value) → Prop
  | [] => True
  | (_, value) :: rest => value.Typed ∧ FieldsTyped rest

/-- Whether all elements have the given type and their arrays keep theirs. -/
def ElementsTyped (element : DataType) : List Value → Prop
  | [] => True
  | value :: rest => value.typeOf = element ∧ value.Typed ∧ ElementsTyped element rest

end

theorem fieldsTyped_iff {fields : List (String × Value)} :
    FieldsTyped fields ↔ ∀ field ∈ fields, field.2.Typed := by
  induction fields with
  | nil => simp [FieldsTyped]
  | cons field rest ih => simp [FieldsTyped, ih]

theorem elementsTyped_iff {element : DataType} {elements : List Value} :
    ElementsTyped element elements ↔ ∀ value ∈ elements, value.typeOf = element ∧ value.Typed := by
  induction elements with
  | nil => simp [ElementsTyped]
  | cons value rest ih => simp [ElementsTyped, ih, and_assoc]

/-! ## Fitting values -/

/-- The datum that a value is, or that is its only element at some depth. -/
inductive IsSole : Value → Scalar → Prop
  | scalar (datum : Scalar) : IsSole (.scalar datum) datum
  | only {name : Option String} {element : DataType} {length : Option Nat} {value : Value}
      {datum : Scalar} (sole : IsSole value datum) :
      IsSole (.array name element length [value]) datum

/-- A value in a scalar type is its only datum, converted. -/
theorem exists_sole_of_coerceScalar? {kind : Kind} {value coerced : Value}
    (fits : value.coerceScalar? kind = some coerced) :
    ∃ source datum, value.IsSole source ∧ source.convert? kind = some datum ∧
      coerced = .scalar datum := by
  induction value with
  | empty => cases fits
  | scalar source =>
      obtain ⟨datum, converted, rfl⟩ := Option.map_eq_some_iff.mp fits
      exact ⟨source, datum, .scalar source, converted, rfl⟩
  | struct name fields each => cases fits
  | array name element length elements each =>
      match elements with
      | [] => cases fits
      | [only] =>
          obtain ⟨source, datum, sole, converted, same⟩ := each only (by simp) fits
          exact ⟨source, datum, .only sole, converted, same⟩
      | _ :: _ :: _ => cases fits

/-- A value in a scalar type is one datum of its kind. -/
theorem exists_datum_of_coerceScalar? {kind : Kind} {value coerced : Value}
    (fits : value.coerceScalar? kind = some coerced) :
    ∃ datum, coerced = .scalar datum ∧ datum.kind = kind := by
  obtain ⟨_, datum, -, converted, same⟩ := exists_sole_of_coerceScalar? fits
  exact ⟨datum, same, Scalar.kind_of_convert? converted⟩

theorem coerceFields?_cons_eq_some_iff {name : String} {type : DataType}
    {rest : List (String × DataType)} {source fields : List (String × Value)} :
    coerceFields? ((name, type) :: rest) source = some fields ↔
      ∃ value converted others, source.lookup name = some value ∧
        value.coerce? type = some converted ∧ coerceFields? rest source = some others ∧
        (name, converted) :: others = fields := by
  simp [coerceFields?, Option.bind_eq_some_iff]

theorem coerce?_struct_eq_some_iff {name : Option String} {fields : List (String × DataType)}
    {value coerced : Value} :
    value.coerce? (.struct name fields) = some coerced ↔
      ∃ source converted, value.fields? = some source ∧
        coerceFields? fields source = some converted ∧ .struct name converted = coerced := by
  simp [coerce?, Option.bind_eq_some_iff]

theorem coerce?_array_eq_some_iff {name : Option String} {element : DataType}
    {length : Option Nat} {value coerced : Value} :
    value.coerce? (.array name element length) = some coerced ↔
      ∃ source elements, value.members? = some source ∧ exceeds source.length length = false ∧
        source.mapM (coerce? element) = some elements ∧
        .array name element length elements = coerced := by
  simp only [coerce?, Option.bind_eq_bind, Option.bind_eq_some_iff]
  constructor
  · rintro ⟨source, members, made⟩
    split at made
    · cases made
    next within =>
      obtain ⟨elements, fit, same⟩ := Option.bind_eq_some_iff.mp made
      exact ⟨source, elements, members, Bool.eq_false_iff.mpr within, fit, Option.some.inj same⟩
  · rintro ⟨source, elements, members, within, fit, rfl⟩
    exact ⟨source, members, by simp [within, fit]⟩

/-- Where all of a list is converted, there are as many results, each of a source. -/
theorem exists_source_of_mapM {α β : Type} {convert : α → Option β} {sources : List α}
    {results : List β} (converted : sources.mapM convert = some results) :
    results.length = sources.length ∧
      ∀ result ∈ results, ∃ source ∈ sources, convert source = some result := by
  induction sources generalizing results with
  | nil =>
      cases converted
      exact ⟨rfl, nofun⟩
  | cons source rest ih =>
      simp only [List.mapM_cons, Option.bind_eq_bind, Option.bind_eq_some_iff, Option.pure_def,
        Option.some.injEq] at converted
      obtain ⟨result, first, others, later, rfl⟩ := converted
      obtain ⟨length, each⟩ := ih later
      refine ⟨by simp [length], List.forall_mem_cons.mpr ⟨⟨source, by simp, first⟩, ?_⟩⟩
      intro other inside
      obtain ⟨original, isSource, known⟩ := each other inside
      exact ⟨original, List.mem_cons_of_mem _ isSource, known⟩

/-- Where all of a list is converted, the results stand in the order of their sources. -/
theorem mapM_eq_some_iff {α β : Type} {convert : α → Option β} {sources : List α}
    {results : List β} :
    sources.mapM convert = some results ↔ sources.map convert = results.map some := by
  induction sources generalizing results with
  | nil => cases results <;> simp
  | cons source rest ih =>
      cases results with
      | nil => simp [List.mapM_cons, Option.bind_eq_some_iff]
      | cons result others => simp [List.mapM_cons, Option.bind_eq_some_iff, ih]

/-- What is converted to itself throughout is a list that is converted to itself. -/
theorem mapM_eq_some_self {α : Type} {convert : α → Option α} {items : List α}
    (each : ∀ item ∈ items, convert item = some item) : items.mapM convert = some items := by
  induction items with
  | nil => rfl
  | cons item rest ih =>
      rw [List.forall_mem_cons] at each
      simp [List.mapM_cons, each.1, ih each.2]

/-- Where one item of a list has no result the list has none, wherever the item
stands. -/
theorem mapM_eq_none_iff {α β : Type} {convert : α → Option β} {items : List α} :
    items.mapM convert = none ↔ ∃ item ∈ items, convert item = none := by
  induction items with
  | nil => simp
  | cons item rest ih =>
      simp only [List.mem_cons, exists_eq_or_imp, ← ih, List.mapM_cons]
      cases convert item with
      | none => simp
      | some result => cases rest.mapM convert <;> simp

theorem typed_of_coerceFields? {fields : List (String × DataType)}
    (each : ∀ field ∈ fields, ∀ value coerced : Value, value.coerce? field.2 = some coerced →
      coerced.typeOf = field.2 ∧ coerced.Typed)
    {source converted : List (String × Value)}
    (fit : coerceFields? fields source = some converted) :
    fieldTypes converted = fields ∧ FieldsTyped converted := by
  induction fields generalizing converted with
  | nil =>
      cases fit
      exact ⟨rfl, trivial⟩
  | cons field rest ih =>
      obtain ⟨value, coerced, others, _, first, later, rfl⟩ :=
        coerceFields?_cons_eq_some_iff.mp fit
      obtain ⟨type, typed⟩ := each field List.mem_cons_self value coerced first
      obtain ⟨types, othersTyped⟩ :=
        ih (fun field inside => each field (List.mem_cons_of_mem _ inside)) later
      exact ⟨by rw [fieldTypes, type, types], typed, othersTyped⟩

/-- A value that fits a type has that type then, and its arrays keep theirs. -/
theorem typed_of_coerce? {type : DataType} {value coerced : Value}
    (fits : value.coerce? type = some coerced) : coerced.typeOf = type ∧ coerced.Typed := by
  induction type generalizing value coerced with
  | empty =>
      unfold coerce? at fits
      split at fits
      · cases fits
        exact ⟨rfl, trivial⟩
      · cases fits
  | scalar kind =>
      obtain ⟨datum, rfl, rfl⟩ := exists_datum_of_coerceScalar? fits
      exact ⟨rfl, trivial⟩
  | struct name fields each =>
      obtain ⟨source, converted, _, fit, rfl⟩ := coerce?_struct_eq_some_iff.mp fits
      obtain ⟨types, typed⟩ :=
        typed_of_coerceFields? (fun field inside value coerced => each field inside) fit
      exact ⟨by rw [typeOf, types], typed⟩
  | array name element length inner =>
      obtain ⟨source, elements, _, within, fit, rfl⟩ := coerce?_array_eq_some_iff.mp fits
      obtain ⟨sameLength, each⟩ := exists_source_of_mapM fit
      refine ⟨rfl, sameLength ▸ within, elementsTyped_iff.mpr fun value inside => ?_⟩
      obtain ⟨original, _, fitted⟩ := each value inside
      exact inner fitted

end Value

end ProcessImage
