import ProcessImage.Proofs.Wire.Dressing
import ProcessImage.Proofs.Wire.Errands

/-!
# Writing over what was there

A tree that was edited in any way takes exactly the values that match its schema,
and holds then what was written and nothing else.  Longer or shorter arrays of
earlier values, and what a value left that did not fit, do not show.
-/

namespace ProcessImage.Wire

open Arena

/-- A value that matches a schema in which names are different has different names
of fields. -/
theorem Schema.Matches.distinctFields {value : Value} {schema : Schema}
    (fits : schema.Matches value) (distinct : schema.DistinctNames) : value.DistinctFields := by
  induction value generalizing schema with
  | empty => trivial
  | scalar datum => trivial
  | struct name fields each =>
      cases schema with
      | struct structId members =>
          have inner := Everywhere.members_of_struct distinct
          have names : (fields.map (·.1)).Nodup := names_of_membersMatch fits ▸ distinct.names
          refine Value.everywhere_struct_iff.mpr ⟨names, ?_⟩
          intro field inside
          obtain ⟨member, isMember, matched⟩ := exists_member_of_membersMatch fits inside
          exact each field inside matched (inner member isMember)
      | _ => exact fits.elim
  | array name element length elements each =>
      rw [Value.DistinctFields, Value.everywhere_array_iff]
      refine ⟨trivial, fun value inside => ?_⟩
      cases schema with
      | scalarArray tag arrayName fixed =>
          obtain ⟨⟨kind, _, _, typed⟩, _⟩ := fits
          have isScalar := typed value inside
          cases value with
          | scalar datum => trivial
          | _ => cases isScalar
      | structArray structId members arrayName fixed =>
          exact each value inside (elementsMatch_iff.mp fits.1 value inside)
            (Everywhere.element distinct)
      | _ => exact fits.elim

namespace Tree

/-- A tree of a schema without unions and with different names, whatever was done to
it, takes the values that match the schema and no others, and reads them afterwards
in the type of the schema, with bytes for characters.  Writing with a stack of
errands does the same. -/
theorem write_overwrites {schema : Schema} (tagged : schema.WellTagged)
    (unionFree : schema.UnionFree) (distinct : schema.DistinctNames) (edits : List Edit)
    (value : Value) :
    ∃ type, schema.type = .ok type ∧
      ((((ofSchema schema).edited edits).write value).2 = .ok () ↔ schema.Matches value) ∧
      ((((ofSchema schema).edited edits).write value).2 = .ok () →
        (((ofSchema schema).edited edits).write value).1.read =
          .ok (value.charsAsBytes.dressed type)) ∧
      ∃ enough, ∀ visits ≥ enough, ((ofSchema schema).edited edits).written visits value =
        some (((ofSchema schema).edited edits).write value) := by
  obtain ⟨type, described, _⟩ := Schema.exists_type tagged unionFree none
  obtain ⟨root, isRoot, sound, found⟩ := exists_root_edited tagged edits
  generalize (ofSchema schema).edited edits = tree at isRoot sound found
  have writes : tree.write value = tree.assign root value := by simp [write, isRoot]
  refine ⟨type, described, ?_, ?_, written_eq_write tree value⟩
  · rw [writes]
    exact assign_accepts_iff sound found
  · rw [writes]
    intro accepted
    have fits := matches_of_assign sound found accepted
    have evolution := evolution_assign value sound root
    have reads := fits.readsAs (fits.distinctFields distinct) described
    rw [read_eq_read_ofNode (evolution.root.trans isRoot) (evolution.growth.schema found)]
    exact reads tree root _ sound found (Prod.ext rfl accepted)

/-- A row of two lamps is written after a row of three and after one that stopped at a
lamp with a text for a truth value.  The names are those of the schema, and the letter
has become a byte. -/
theorem write_overwrites_lamps :
    let lamp := [("on", Schema.scalar (.scalar .boolean))]
    let schema := Schema.struct (some "Row")
      [("code", .scalarArray (.array .ubyte) none (some 1)),
        ("lamps", .structArray (some "Lamp") lamp none none)]
    let letter := Value.scalar (.integer .char8 90 (by decide))
    let byte := Value.scalar (.integer .uint8 90 (by decide))
    let row := fun lamps : List Scalar => Value.struct none
      [("code", .array (some "letters") (.scalar (.integer .char8)) none [letter]),
        ("lamps", .array none .empty none
          (lamps.map fun datum => .struct none [("on", .scalar datum)]))]
    let edits := [Edit.write (row [.bool true, .bool true, .bool true]),
      .write (row [.bool false, .string "off"]), .mark 3]
    let tree := (ofSchema schema).edited edits
    (schema.WellTagged ∧ schema.UnionFree ∧ schema.DistinctNames) ∧
      (tree.write (row [.bool false, .bool true])).2 = .ok () ∧
      (tree.write (row [.bool false, .bool true])).1.read = .ok (.struct (some "Row")
        [("code", .array none (.scalar (.integer .uint8)) (some 1) [byte]),
          ("lamps", .array none (.struct (some "Lamp") [("on", .scalar .bool)]) none
            [.struct (some "Lamp") [("on", .scalar (.bool false))],
              .struct (some "Lamp") [("on", .scalar (.bool true))]])]) := by
  intro lamp schema letter byte row edits tree
  have tagged : schema.WellTagged := by
    simp [schema, lamp, Schema.WellTagged, Schema.Everywhere, Schema.MembersEverywhere,
      Schema.HasOwnTag, Tag.isScalar, Tag.isScalarArray, Tag.arrayElement?]
  have unionFree : schema.UnionFree := by
    simp [schema, lamp, Schema.UnionFree, Schema.Everywhere, Schema.MembersEverywhere,
      Schema.IsNoUnion]
  have distinct : schema.DistinctNames := by
    simp [schema, lamp, Schema.DistinctNames, Schema.Everywhere, Schema.MembersEverywhere,
      Schema.HasDistinctMembers]
  have fits : schema.Matches (row [.bool false, .bool true]) := by
    refine ⟨rfl, ⟨⟨_, rfl, rfl, ?_⟩, ?_⟩, rfl, ⟨?_, ?_⟩, trivial⟩
    · simp [letter, Value.typeOf, Scalar.kind]
    · simp
    · exact ⟨⟨rfl, rfl, trivial⟩, ⟨rfl, rfl, trivial⟩, trivial⟩
    · simp
  obtain ⟨type, described, accepts, reads, _⟩ :=
    write_overwrites tagged unionFree distinct edits (row [.bool false, .bool true])
  cases described
  exact ⟨⟨tagged, unionFree, distinct⟩, accepts.mpr fits, reads (accepts.mpr fits)⟩

end Tree

end ProcessImage.Wire
