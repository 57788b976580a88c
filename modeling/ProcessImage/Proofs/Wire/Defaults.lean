import ProcessImage.Proofs.Value.Complete
import ProcessImage.Proofs.Wire.Edit
import ProcessImage.Proofs.Wire.Fresh
import ProcessImage.Proofs.Wire.Schema.OfType

/-!
# Fresh trees and default values

A fresh tree of the schema of a type holds zeros everywhere, and an array of scalars
has its fixed number of them.  An array of structures has no elements, whatever
length it declares, so a fresh tree is read as the default of its type only when
no array of structures has to have elements.
-/

namespace ProcessImage

namespace DataType

mutual

/-- Whether no array of structures has a fixed length that asks for elements.  What
such an array would contain does not count. -/
def AsksForNoStructs : DataType → Prop
  | .empty => True
  | .scalar _ => True
  | .struct _ fields => FieldsAskForNoStructs fields
  | .array _ element length => element.isStruct = true → length.getD 0 = 0

/-- Whether no array of structures in any field has a fixed length that asks for
elements. -/
def FieldsAskForNoStructs : List (String × DataType) → Prop
  | [] => True
  | (_, type) :: rest => type.AsksForNoStructs ∧ FieldsAskForNoStructs rest

end

end DataType

namespace Value

mutual

/-- The default value of a type, but with no elements in arrays of structures. -/
def freshOf : DataType → Value
  | .empty => .empty
  | .scalar kind => .scalar (.zeroOf kind)
  | .struct name fields => .struct name (freshFields fields)
  | .array name element length =>
      .array name element length
        (if element.isStruct then [] else List.replicate (length.getD 0) (defaultOf element))

/-- Fresh values of fields, with their names. -/
def freshFields : List (String × DataType) → List (String × Value)
  | [] => []
  | (name, type) :: rest => (name, freshOf type) :: freshFields rest

end

theorem freshFields_eq_default_iff {fields : List (String × DataType)}
    (each : ∀ field ∈ fields, (freshOf field.2).charsAsBytes = (defaultOf field.2).charsAsBytes ↔
      field.2.AsksForNoStructs) :
    fieldsCharsAsBytes (freshFields fields) = fieldsCharsAsBytes (defaultFields fields) ↔
      DataType.FieldsAskForNoStructs fields := by
  induction fields with
  | nil => simp [freshFields, defaultFields, DataType.FieldsAskForNoStructs]
  | cons field rest ih =>
      have later := ih fun field inside => each field (List.mem_cons_of_mem _ inside)
      simp [freshFields, defaultFields, fieldsCharsAsBytes, DataType.FieldsAskForNoStructs, later,
        each field List.mem_cons_self]

/-- The fresh value of a type is its default exactly when no array of structures has to
have elements. -/
theorem freshOf_eq_default_iff (type : DataType) :
    (freshOf type).charsAsBytes = (defaultOf type).charsAsBytes ↔ type.AsksForNoStructs := by
  induction type with
  | empty => simp [freshOf, defaultOf, DataType.AsksForNoStructs]
  | scalar kind => simp [freshOf, defaultOf, DataType.AsksForNoStructs]
  | struct name fields each =>
      simp [freshOf, defaultOf, charsAsBytes, DataType.AsksForNoStructs,
        freshFields_eq_default_iff each]
  | array name element length inner =>
      rw [freshOf, defaultOf, DataType.AsksForNoStructs]
      cases isStruct : element.isStruct with
      | false => simp
      | true =>
          have none : ([] = List.replicate (length.getD 0) (defaultOf element).charsAsBytes) ↔
              length.getD 0 = 0 := by
            rw [eq_comm, List.replicate_eq_nil_iff]
          simp [charsAsBytes, allCharsAsBytes_eq_map, none]

end Value

namespace Wire

open Arena

/-- The zero of the element as which a kind travels. -/
theorem zeroOf_ofKind (kind : Kind) :
    (Datum.zeroOf (.ofKind kind)).scalar = (Scalar.zeroOf kind).charsAsBytes := by
  cases kind with
  | integer kind => cases kind <;> rfl
  | _ => rfl

/-- A fresh array of scalars has its fixed number of zeros. -/
theorem freshItems_arrayOfKind (kind : Kind) (length : Option Nat) :
    (freshItems (.arrayOfKind kind) length).map (fun item => Value.scalar item.scalar) =
      (List.replicate (length.getD 0) (Value.scalar (.zeroOf kind))).map Value.charsAsBytes := by
  cases length with
  | none => rfl
  | some count =>
      simp [freshItems, Tag.arrayOfKind, Tag.arrayElement?, zeroOf_ofKind, Value.charsAsBytes]

namespace Branch

variable {nodes : Array Node}

theorem readFields_allocMembers {fields : List (String × DataType)}
    (each : ∀ field ∈ fields, field.2.DistinctNames → ∀ name schema,
      Schema.ofTypeIn name field.2 = .ok schema → ∀ nodes, Sound nodes →
        (ofNode (alloc schema nodes).1 schema (alloc schema nodes).2).read =
          .ok (Value.freshOf field.2).charsAsBytes)
    (distinct : DataType.FieldsDistinctNames fields) {members : List (String × Schema)}
    (made : Schema.ofFields fields = .ok members) (sound : Sound nodes) :
    readFields (ofMembers (allocMembers members nodes).1 members (allocMembers members nodes).2) =
      .ok (Value.fieldsCharsAsBytes (Value.freshFields fields)) := by
  induction fields generalizing members nodes with
  | nil =>
      cases made
      rfl
  | cons field rest ih =>
      have tagged := (Schema.describes_ofFields
        (fun _ _ _ _ => Schema.describes_ofTypeIn) made).1
      obtain ⟨schema, others, first, later, rfl⟩ := Schema.ofFields_cons_eq_ok_iff.mp made
      have read := each field List.mem_cons_self distinct.1 _ schema first nodes sound
      have readOthers := ih (fun field inside => each field (List.mem_cons_of_mem _ inside))
        distinct.2 later (allocation_alloc tagged.1 sound).sound
      simp only [allocMembers, ofMembers, readFields]
      rw [ofNode_of_allocMembers tagged.1 (Schema.membersEverywhere_iff.mp tagged.2) sound, read,
        readOthers]
      rfl

/-- A fresh node of the schema of a type is read as the fresh value of the type. -/
theorem read_ofNode_alloc {type : DataType} (distinct : type.DistinctNames)
    {field : Option String} {schema : Schema} (made : Schema.ofTypeIn field type = .ok schema)
    (sound : Sound nodes) :
    (ofNode (alloc schema nodes).1 schema (alloc schema nodes).2).read =
      .ok (Value.freshOf type).charsAsBytes := by
  induction type generalizing field schema nodes with
  | empty => cases made
  | scalar kind =>
      cases made
      simp [alloc, ofNode, read, freshDatum, Tag.ofKind, zeroOf_ofKind, Value.freshOf,
        Value.charsAsBytes]
  | struct name fields each =>
      have tagged := (Schema.describes_ofTypeIn made).tagged
      obtain ⟨members, membersEq, rfl⟩ := Schema.ofTypeIn_struct_eq_ok_iff.mp made
      have added := allocation_allocMembers (fun member inside nodes sound =>
        allocation_alloc (Schema.Everywhere.members_of_struct tagged member inside) sound) sound
      have complete : (allocMembers members nodes).2.length = members.length := by
        simpa using congrArg List.length added.schemas
      have nodup : (members.map (·.1)).Nodup := Schema.names_ofFields membersEq ▸ distinct.1
      have fields := readFields_allocMembers
        (fun field inside distinct name schema made nodes sound =>
          each field inside distinct made sound) distinct.2 membersEq sound
      rw [ofNode_alloc_struct tagged sound, read_struct complete nodup, fields]
      rfl
  | array name element length inner =>
      cases element with
      | scalar kind =>
          cases made
          simp [alloc, ofNode, read, Schema.kindOfTag_ofKind, itemValues, freshItems_arrayOfKind,
            Value.freshOf, Value.charsAsBytes, DataType.charsAsBytes, DataType.isStruct,
            Value.defaultOf, Value.allCharsAsBytes_eq_map]
      | struct id fields =>
          obtain ⟨members, membersEq, rfl⟩ := Schema.ofTypeIn_structArray_eq_ok_iff.mp made
          have types := (Schema.describes_ofFields
            (fun _ _ _ _ => Schema.describes_ofTypeIn) membersEq).2
          simp [alloc, ofNode, read, types, readElements, Value.freshOf, DataType.isStruct,
            Value.charsAsBytes, DataType.charsAsBytes, Value.allCharsAsBytes]
      | _ => cases made

end Branch

namespace Tree

/-- The fresh tree of a type with different names is read as the fresh value of the
type, so it is read as the default value, with bytes for characters, exactly when no
array of structures has to have elements. -/
theorem read_ofSchema_ofType {type : DataType} (distinct : type.DistinctNames) {schema : Schema}
    (made : Schema.ofType type = .ok schema) :
    (ofSchema schema).read = .ok (Value.freshOf type).charsAsBytes ∧
      ((ofSchema schema).read = .ok (Value.defaultOf type).charsAsBytes ↔
        type.AsksForNoStructs) := by
  have tagged := (Schema.describes_ofTypeIn made).tagged
  have found : schemaAt (alloc schema #[]).1 (alloc schema #[]).2 = some schema := by
    simpa using (allocation_alloc tagged sound_empty).schemas
  have read : (ofSchema schema).read = .ok (Value.freshOf type).charsAsBytes := by
    have isRoot : (ofSchema schema).root = some (alloc schema #[]).2 := rfl
    rw [read_eq_read_ofNode isRoot found]
    exact Branch.read_ofNode_alloc distinct made sound_empty
  refine ⟨read, ?_⟩
  rw [read, ← Value.freshOf_eq_default_iff]
  exact ⟨Except.ok.inj, congrArg _⟩

/-- A letter, two numbers and any number of points are all at their defaults, but two
points are not. -/
theorem read_ofSchema_ofType_track :
    let point := DataType.struct (some "Point") [("x", .scalar .float64)]
    let track := fun length => DataType.struct none
      [("letter", .scalar (.integer .char8)),
        ("range", .fixedArrayOf (.scalar (.integer .int16)) 2), ("points", .array none point length)]
    let members := fun length =>
      [("letter", Schema.scalar (.scalar .ubyte)),
        ("range", .scalarArray (.array .short) none (some 2)),
        ("points", .structArray (some "Point") [("x", .scalar (.scalar .double))] none length)]
    (track none).DistinctNames ∧ Schema.ofType (track none) = .ok (.struct none (members none)) ∧
      (ofSchema (.struct none (members none))).read =
        .ok (Value.defaultOf (track none)).charsAsBytes ∧
      (ofSchema (.struct none (members (some 2)))).read ≠
        .ok (Value.defaultOf (track (some 2))).charsAsBytes := by
  intro point track members
  have distinct : ∀ length, (track length).DistinctNames := by
    intro length
    simp [track, point, DataType.DistinctNames, DataType.FieldsDistinctNames,
      DataType.fixedArrayOf]
  have made : ∀ length, Schema.ofType (track length) = .ok (.struct none (members length)) :=
    fun length => rfl
  have any := read_ofSchema_ofType (distinct none) (made none)
  have two := read_ofSchema_ofType (distinct (some 2)) (made (some 2))
  refine ⟨distinct none, rfl, any.2.mpr ?_, fun same => ?_⟩
  · simp [track, point, DataType.AsksForNoStructs, DataType.FieldsAskForNoStructs,
      DataType.fixedArrayOf, DataType.isStruct]
  · exact absurd (two.2.mp same).2.2.1
      (by simp [point, DataType.AsksForNoStructs, DataType.isStruct])

/-- A fresh array of two points has none, where the default of its type has two. -/
theorem fresh_pair_lacks_points :
    let point := DataType.struct none [("x", .scalar (.integer .int32))]
    let origin := Value.struct none [("x", .scalar (.integer .int32 0 (by decide)))]
    let pair := DataType.fixedArrayOf point 2
    let schema := Schema.structArray none [("x", .scalar (.scalar .int))] none (some 2)
    Schema.ofType pair = .ok schema ∧
      (ofSchema schema).read = .ok (.array none point (some 2) []) ∧
      (Value.defaultOf pair).charsAsBytes = .array none point (some 2) [origin, origin] :=
  ⟨rfl, rfl, rfl⟩

end Tree

end Wire

end ProcessImage
