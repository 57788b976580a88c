import ProcessImage.Proofs.Wire.Schema.OfType

/-!
# Schemas built step by step

A schema is built without recursion.  The structures that are under construction
stand on a stack of drafts, the innermost one first, and each step deals with one
field of the innermost draft, or closes it and hands it to the one around it.

Building always ends, and with what `Schema.ofType` says: the stack never runs
out before the outermost structure is finished.
-/

namespace ProcessImage.Wire.Schema

/-! ## Drafts -/

/-- What a structure becomes when it is finished: itself, or the element of an
array. -/
inductive Wrap where
  | struct
  | array (name : Option String) (length : Option Nat)

/-- A structure under construction. -/
structure Draft where
  /-- The name of the member that it becomes in the structure around it. -/
  member : Option String
  wrap : Wrap
  builder : SchemaBuilder
  /-- The fields that are not dealt with yet. -/
  rest : List (String × DataType)

namespace Draft

/-- A draft without members of the structure of a name. -/
def new (member : Option String) (wrap : Wrap) (id : Option String)
    (fields : List (String × DataType)) : Draft :=
  ⟨member, wrap, { id }, fields⟩

/-- The draft with one more member, and with other fields to come. -/
def add (draft : Draft) (name : String) (schema : Schema) (rest : List (String × DataType)) :
    Draft :=
  { draft with builder := draft.builder.add name schema, rest }

/-- The schema of a finished draft. -/
def schema (draft : Draft) : Schema :=
  match draft.wrap with
  | .struct => draft.builder.build
  | .array name length => .structArray draft.builder.id draft.builder.members name length

end Draft

/-- What is done with a type in a member of a name or at the top: it has a schema at
once, or a structure is to be drafted. -/
def enter (member : Option String) : DataType → Except Fault (Schema ⊕ Draft)
  | .scalar kind => .ok (.inl (.scalar (.ofKind kind)))
  | .array name (.scalar kind) length =>
      .ok (.inl (.scalarArray (.arrayOfKind kind) name length))
  | .struct id fields => .ok (.inr (.new member .struct id fields))
  | .array name (.struct id fields) length =>
      .ok (.inr (.new member (.array name length) id fields))
  | type => .error (.noWireForm member type)

/-! ## Steps -/

/-- How building ends. -/
inductive Ending where
  | built (schema : Schema)
  | refused (fault : Fault)
  /-- There is no draft to go on with. -/
  | stranded

/-- The ending that an outcome calls for. -/
def Ending.of : Except Fault Schema → Ending
  | .ok schema => .built schema
  | .error fault => .refused fault

/-- Closes the innermost draft. -/
def close (draft : Draft) : List Draft → Ending ⊕ List Draft
  | parent :: outer =>
      match draft.member with
      | some name => .inr (parent.add name draft.schema parent.rest :: outer)
      | none => .inl (.built draft.schema)
  | [] => .inl (.built draft.schema)

/-- One step: building ends, or goes on with other drafts. -/
def step : List Draft → Ending ⊕ List Draft
  | [] => .inl .stranded
  | draft :: outer =>
      match draft.rest with
      | [] => close draft outer
      | (name, type) :: rest =>
          match enter (some name) type with
          | .error fault => .inl (.refused fault)
          | .ok (.inl schema) => .inr (draft.add name schema rest :: outer)
          | .ok (.inr inner) => .inr (inner :: { draft with rest } :: outer)

/-- Building goes on from a stack of drafts and ends. -/
inductive EndsWith : List Draft → Ending → Prop
  | stop {drafts : List Draft} {ending : Ending} (stops : step drafts = .inl ending) :
      EndsWith drafts ending
  | go {drafts next : List Draft} {ending : Ending} (goes : step drafts = .inr next)
      (later : EndsWith next ending) : EndsWith drafts ending

/-- Building the schema of a type ends. -/
def Builds (type : DataType) (ending : Ending) : Prop :=
  match enter none type with
  | .error fault => ending = .refused fault
  | .ok (.inl schema) => ending = .built schema
  | .ok (.inr draft) => EndsWith [draft] ending

/-- There is only one way for building to end. -/
theorem EndsWith.unique {drafts : List Draft} {first second : Ending}
    (endsFirst : EndsWith drafts first) (endsSecond : EndsWith drafts second) : first = second := by
  induction endsFirst with
  | stop stops =>
      cases endsSecond with
      | stop stops' => exact Sum.inl.inj (stops.symm.trans stops')
      | go goes _ => cases stops.symm.trans goes
  | go goes _ ih =>
      cases endsSecond with
      | stop stops => cases goes.symm.trans stops
      | go goes' later =>
          obtain rfl := Sum.inr.inj (goes.symm.trans goes')
          exact ih later

/-! ## From steps to recursion -/

/-- From what an outcome leads to, building ends; a fault ends it at once. -/
def Continues {α : Type} (next : α → List Draft) (ending : Ending) : Except Fault α → Prop
  | .ok item => EndsWith (next item) ending
  | .error fault => ending = .refused fault

/-- Whether a field of a type is dealt with as recursion does, whatever the draft is
that it belongs to. -/
def Handled (type : DataType) : Prop :=
  ∀ (name : String) (draft : Draft) (rest : List (String × DataType)) (outer : List Draft)
    (ending : Ending),
    Continues (fun schema => draft.add name schema rest :: outer) ending
        (ofTypeIn (some name) type) →
      EndsWith ({ draft with rest := (name, type) :: rest } :: outer) ending

/-- Fields that are handled one by one fill their draft. -/
theorem endsWith_fields {fields : List (String × DataType)}
    (each : ∀ field ∈ fields, Handled field.2) (draft : Draft) (outer : List Draft)
    {ending : Ending}
    (continues : Continues
      (fun members =>
        { draft with
          builder := { draft.builder with members := draft.builder.members ++ members }
          rest := [] } :: outer)
      ending (ofFields fields)) :
    EndsWith ({ draft with rest := fields } :: outer) ending := by
  induction fields generalizing draft with
  | nil => simpa [ofFields, Continues] using continues
  | cons field rest ih =>
      rcases field with ⟨name, type⟩
      apply each (name, type) List.mem_cons_self
      cases first : ofTypeIn (some name) type with
      | error fault => simpa [ofFields, first, Continues] using continues
      | ok schema =>
          apply ih (fun field inside => each field (List.mem_cons_of_mem _ inside))
            (draft.add name schema rest)
          cases later : ofFields rest with
          | error fault => simpa [ofFields, first, later, Continues] using continues
          | ok members =>
              simpa [ofFields, first, later, Continues, Draft.add, SchemaBuilder.add]
                using continues

/-- A field of a structure, or of an array of structures, is handled when the fields
of that structure are. -/
theorem handled_of_enter {type : DataType} {wrap : Wrap} {id : Option String}
    {fields : List (String × DataType)}
    (enters : ∀ name, enter (some name) type = .ok (.inr (.new (some name) wrap id fields)))
    (recursion : ∀ name, ofTypeIn (some name) type = (ofFields fields).map fun members =>
      Draft.schema ⟨some name, wrap, { id, members }, []⟩)
    (each : ∀ field ∈ fields, Handled field.2) : Handled type := by
  intro name draft rest outer ending continues
  apply EndsWith.go
  · simp only [step, enters]
    rfl
  · apply endsWith_fields each (Draft.new (some name) wrap id fields)
    rw [recursion] at continues
    cases filled : ofFields fields with
    | error fault => simpa [filled, Except.map, Continues] using continues
    | ok members =>
        simp only [filled, Except.map, Continues] at continues
        exact EndsWith.go rfl continues

/-- Every field is dealt with as recursion does.  An array of structures is drafted as
its elements are, so the fields of a structure are handled along with it. -/
theorem handled_and_fields (type : DataType) :
    Handled type ∧ ∀ id fields, type = .struct id fields → ∀ field ∈ fields, Handled field.2 := by
  induction type with
  | empty =>
      constructor
      · rintro name draft rest outer ending rfl
        exact .stop rfl
      · rintro _ _ ⟨⟩
  | scalar kind =>
      constructor
      · intro name draft rest outer ending continues
        exact .go rfl continues
      · rintro _ _ ⟨⟩
  | struct id fields each =>
      have inner : ∀ field ∈ fields, Handled field.2 := fun field inside => (each field inside).1
      constructor
      · refine handled_of_enter (fun _ => rfl) (fun name => ?_) inner
        cases members : ofFields fields <;> simp [ofTypeIn, members, Except.map, Draft.schema,
          SchemaBuilder.build]
      · rintro _ _ ⟨⟩
        exact inner
  | array name element length inner =>
      constructor
      · cases element with
        | scalar kind =>
            intro member draft rest outer ending continues
            exact .go rfl continues
        | struct id fields =>
            refine handled_of_enter (fun _ => rfl) (fun member => ?_) (inner.2 id fields rfl)
            cases members : ofFields fields <;> simp [ofTypeIn, members, Except.map, Draft.schema]
        | _ =>
            rintro member draft rest outer ending rfl
            exact .stop rfl
      · rintro _ _ ⟨⟩

/-- From the draft of a structure alone, building ends with that structure. -/
theorem endsWith_new {type : DataType} {wrap : Wrap} {id : Option String}
    {fields : List (String × DataType)}
    (recursion : ofTypeIn none type = (ofFields fields).map fun members =>
      Draft.schema ⟨none, wrap, { id, members }, []⟩) :
    EndsWith [.new none wrap id fields] (.of (ofTypeIn none type)) := by
  apply endsWith_fields (fun field _ => (handled_and_fields field.2).1) (.new none wrap id fields)
  rw [recursion]
  cases ofFields fields with
  | error fault => rfl
  | ok members => exact .stop rfl

/-- Building the schema of a type ends as recursion does. -/
theorem builds_ofType (type : DataType) : Builds type (.of (ofType type)) := by
  unfold Builds ofType
  cases type with
  | empty => rfl
  | scalar kind => rfl
  | struct id fields =>
      apply endsWith_new
      cases members : ofFields fields <;> simp [ofTypeIn, members, Except.map, Draft.schema,
        SchemaBuilder.build]
  | array name element length =>
      cases element with
      | struct id fields =>
          apply endsWith_new
          cases members : ofFields fields <;> simp [ofTypeIn, members, Except.map, Draft.schema]
      | _ => rfl

/-- Building the schema of a type ends in no other way. -/
theorem builds_iff {type : DataType} {ending : Ending} :
    Builds type ending ↔ ending = .of (ofType type) := by
  constructor
  · intro builds
    have known := builds_ofType type
    unfold Builds at builds known
    rcases entered : enter none type with fault | schema | draft
    · simp only [entered] at builds known
      rw [builds, known]
    · simp only [entered] at builds known
      rw [builds, known]
    · simp only [entered] at builds known
      exact builds.unique known
  · rintro rfl
    exact builds_ofType type

/-! ## Types and schemas -/

/-- A type can travel exactly when building its schema succeeds; otherwise the type
is refused as unknown.  The schema has the tag of the type and describes the
type again, with bytes for characters.  The other way round, every well-tagged
schema without unions describes a type and is the schema of that type. -/
theorem ofType_inverse (type : DataType) {schema : Schema} (tagged : schema.WellTagged)
    (unionFree : schema.UnionFree) :
    (type.HasWireForm → ∃ made, ofType type = .ok made ∧
      (∀ ending, Builds type ending ↔ ending = .built made) ∧
      tagOfType type = .ok made.tag ∧ made.type = .ok type.charsAsBytes) ∧
    (¬ type.HasWireForm → ∃ fault, ofType type = .error fault ∧
      (∀ ending, Builds type ending ↔ ending = .refused fault) ∧
      fault.category = .unknownType) ∧
    ∃ described, schema.type = .ok described ∧ ofType described = .ok schema := by
  refine ⟨fun wireForm => ?_, fun noWireForm => ?_, exists_type tagged unionFree none⟩
  · obtain ⟨made, madeEq⟩ := exists_ofTypeIn wireForm none
    refine ⟨made, madeEq, fun ending => ?_, tagOfType_of_ofTypeIn madeEq,
      (describes_ofTypeIn madeEq).type⟩
    rw [builds_iff, ofType, madeEq]
    rfl
  · cases refused : ofType type with
    | ok made => exact absurd (hasWireForm_of_ofTypeIn refused) noWireForm
    | error fault =>
        refine ⟨fault, rfl, fun ending => ?_, category_of_ofTypeIn_eq_error refused⟩
        rw [builds_iff, refused]
        rfl

/-- A tank with a character and an array of points has a schema, an array of arrays
has none, and the schema of a tank describes a type of which it is the schema. -/
theorem ofType_inverse_tank :
    let tank := DataType.struct (some "Tank")
      [("code", .scalar (.integer .char8)),
        ("points", .array (some "Points") (.struct none [("x", .scalar .float64)]) (some 2))]
    let grid := DataType.array none (.array none (.scalar .bool) none) none
    let schema := Schema.struct (some "Tank")
      [("code", .scalar (.scalar .ubyte)),
        ("points", .structArray none [("x", .scalar (.scalar .double))] (some "Points") (some 2))]
    schema.WellTagged ∧ schema.UnionFree ∧ tank.HasWireForm ∧ ¬ grid.HasWireForm ∧
      (∃ made, ofType tank = .ok made ∧ Builds tank (.built made)) ∧
      (∃ fault, ofType grid = .error fault ∧ Builds grid (.refused fault)) ∧
      ∃ described, schema.type = .ok described ∧ ofType described = .ok schema := by
  intro tank grid schema
  have tagged : schema.WellTagged := by
    simp [schema, WellTagged, Everywhere, MembersEverywhere, HasOwnTag, Tag.isScalar]
  have unionFree : schema.UnionFree := by
    simp [schema, UnionFree, Everywhere, MembersEverywhere, IsNoUnion]
  have wireForm : tank.HasWireForm := by
    simp [tank, DataType.HasWireForm, DataType.FieldsHaveWireForm, DataType.isArray]
  have noWireForm : ¬ grid.HasWireForm := by
    simp [grid, DataType.HasWireForm, DataType.isArray]
  obtain ⟨succeeds, _, back⟩ := ofType_inverse tank tagged unionFree
  obtain ⟨made, madeEq, builds, _⟩ := succeeds wireForm
  obtain ⟨_, fails, _⟩ := ofType_inverse grid tagged unionFree
  obtain ⟨fault, faultEq, refuses, _⟩ := fails noWireForm
  exact ⟨tagged, unionFree, wireForm, noWireForm, ⟨made, madeEq, (builds _).mpr rfl⟩,
    ⟨fault, faultEq, (refuses _).mpr rfl⟩, back⟩

end ProcessImage.Wire.Schema
