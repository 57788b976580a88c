import ProcessImage.Proofs.Assembly.Action
import ProcessImage.Proofs.Wire.Arena
import ProcessImage.Wire.Branch

/-!
# Reading sound nodes

What is read below a sound node is foretold by its schema: a value of the type
that the schema describes, or, where it describes none, the refusal of a shape
that is not supported.  Names that occur twice and elements of another type
are no concern there, so that members and elements are read one by one, as
`readFields` and `readAll` do.
-/

namespace ProcessImage.Wire

open Arena

/-! ## Nodes of each shape -/

namespace Arena

variable {nodes : Array Node} {id : Nat} {tag : Tag} {structId : Option String}
  {members : List (String × Schema)} {name : Option String} {length : Option Nat}

theorem exists_node {schema : Schema} (found : schemaAt nodes id = some schema) :
    ∃ content changed, nodes[id]? = some ⟨schema, content, changed⟩ := by
  obtain ⟨⟨_, content, changed⟩, nodeEq, rfl⟩ := Option.map_eq_some_iff.mp found
  exact ⟨content, changed, nodeEq⟩

theorem length_of_schemas {members : List (String × Schema)} {children : List Nat}
    (schemas : children.map (schemaAt nodes) = members.map fun member => some member.2) :
    children.length = members.length := by
  simpa using congrArg List.length schemas

theorem exists_node_of_contentAt {content : Content} (found : contentAt nodes id = some content) :
    ∃ schema changed, nodes[id]? = some ⟨schema, content, changed⟩ := by
  obtain ⟨⟨schema, _, changed⟩, nodeEq, rfl⟩ := Option.map_eq_some_iff.mp found
  exact ⟨schema, changed, nodeEq⟩

namespace Sound

variable (sound : Sound nodes)

include sound

theorem admits_node {schema : Schema} {content : Content} {changed : Bool}
    (nodeEq : nodes[id]? = some ⟨schema, content, changed⟩) :
    schema.Admits (schemaAt nodes) content :=
  sound.admits (schemaAt_of_node nodeEq) (contentAt_of_node nodeEq)

theorem node_scalar (found : schemaAt nodes id = some (.scalar tag)) :
    ∃ datum changed, nodes[id]? = some ⟨.scalar tag, .scalar datum, changed⟩ ∧
      datum.tag = tag := by
  obtain ⟨content, changed, nodeEq⟩ := exists_node found
  have admitted := sound.admits_node nodeEq
  cases content with
  | scalar datum => exact ⟨datum, changed, nodeEq, admitted⟩
  | _ => exact admitted.elim

theorem node_scalarArray (found : schemaAt nodes id = some (.scalarArray tag name length)) :
    ∃ items changed, nodes[id]? = some ⟨.scalarArray tag name length, .scalarArray items, changed⟩ ∧
      items.tag = tag := by
  obtain ⟨content, changed, nodeEq⟩ := exists_node found
  have admitted := sound.admits_node nodeEq
  cases content with
  | scalarArray items => exact ⟨items, changed, nodeEq, admitted.1⟩
  | _ => exact admitted.elim

theorem node_struct (found : schemaAt nodes id = some (.struct structId members)) :
    ∃ children changed, nodes[id]? = some ⟨.struct structId members, .struct children, changed⟩ ∧
      children.map (schemaAt nodes) = members.map fun member => some member.2 := by
  obtain ⟨content, changed, nodeEq⟩ := exists_node found
  have admitted := sound.admits_node nodeEq
  cases content with
  | struct children => exact ⟨children, changed, nodeEq, admitted⟩
  | _ => exact admitted.elim

theorem node_structArray
    (found : schemaAt nodes id = some (.structArray structId members name length)) :
    ∃ elements changed,
      nodes[id]? = some ⟨.structArray structId members name length, .structArray elements,
        changed⟩ ∧
      ∀ element ∈ elements, schemaAt nodes element = some (.struct structId members) := by
  obtain ⟨content, changed, nodeEq⟩ := exists_node found
  have admitted := sound.admits_node nodeEq
  cases content with
  | structArray elements => exact ⟨elements, changed, nodeEq, admitted⟩
  | _ => exact admitted.elim

theorem node_union (found : schemaAt nodes id = some (.union structId members)) :
    ∃ selected changed, nodes[id]? = some ⟨.union structId members, .union selected, changed⟩ := by
  obtain ⟨content, changed, nodeEq⟩ := exists_node found
  have admitted := sound.admits_node nodeEq
  cases content with
  | union selected => exact ⟨selected, changed, nodeEq⟩
  | _ => exact admitted.elim

theorem node_unionArray (found : schemaAt nodes id = some (.unionArray structId members)) :
    ∃ elements changed,
      nodes[id]? = some ⟨.unionArray structId members, .unionArray elements, changed⟩ := by
  obtain ⟨content, changed, nodeEq⟩ := exists_node found
  have admitted := sound.admits_node nodeEq
  cases content with
  | unionArray elements => exact ⟨elements, changed, nodeEq⟩
  | _ => exact admitted.elim

end Sound

end Arena

/-- The members of a structure are its children by their names. -/
theorem Tree.members_of_node {tree : Tree} {id : Nat} {structId : Option String}
    {members : List (String × Schema)} {children : List Nat} {changed : Bool}
    (nodeEq : tree.nodes[id]? = some ⟨.struct structId members, .struct children, changed⟩) :
    tree.members id = (members.map (·.1)).zip children := by
  simp [Tree.members, Tree.node?, nodeEq]

/-! ## Outcomes that types foretell -/

/-- What is missing foretells the refusal of a shape that is not supported, and
what is there foretells a result that agrees with it. -/
inductive Foretold {α β : Type} (agrees : α → β → Prop) : Except Fault α → Except Fault β → Prop
  | ok {item : α} {result : β} (same : agrees item result) :
      Foretold agrees (.ok item) (.ok result)
  | error {missing fault : Fault} (unsupported : fault.category = .unsupportedShape) :
      Foretold agrees (.error missing) (.error fault)

/-- What the parts of two sequences foretell, the sequences foretell. -/
theorem Foretold.bind {α β γ δ : Type} {agrees : α → β → Prop} {agrees' : γ → δ → Prop}
    {typed : Except Fault α} {outcome : Except Fault β} {next : α → Except Fault γ}
    {next' : β → Except Fault δ} (first : Foretold agrees typed outcome)
    (later : ∀ item result, agrees item result → Foretold agrees' (next item) (next' result)) :
    Foretold agrees' (typed >>= next) (outcome >>= next') := by
  cases first with
  | ok same => exact later _ _ same
  | error unsupported => exact .error unsupported

/-- What is there foretells that there is a result. -/
theorem Foretold.exists_ok {α β : Type} {agrees : α → β → Prop} {item : α}
    {outcome : Except Fault β} (foretold : Foretold agrees (.ok item) outcome) :
    ∃ result, outcome = .ok result ∧ agrees item result := by
  cases foretold with
  | ok same => exact ⟨_, rfl, same⟩

/-- A value has a type. -/
def OfType (type : DataType) (value : Value) : Prop :=
  value.typeOf = type

/-- Fields have the given names and types. -/
def OfTypes (types : List (String × DataType)) (fields : List (String × Value)) : Prop :=
  Value.fieldTypes fields = types

/-! ## Reading one by one -/

namespace Branch

/-- The fields that members hold, whatever their names. -/
def readFields : List (String × Branch) → Except Fault (List (String × Value))
  | [] => .ok []
  | (name, member) :: rest => do
      let value ← member.read
      let others ← readFields rest
      return (name, value) :: others

/-- The values that branches hold, whatever their types. -/
def readAll : List Branch → Except Fault (List Value)
  | [] => .ok []
  | branch :: rest => do
      let value ← branch.read
      let others ← readAll rest
      return value :: others

theorem map_readFields_cons {α : Type} (name : String) (member : Branch)
    (rest : List (String × Branch)) (change : List (String × Value) → α) :
    (readFields ((name, member) :: rest)).map change =
      member.read >>= fun value =>
        (readFields rest).map fun others => change ((name, value) :: others) := by
  cases outcome : member.read with
  | error fault => simp [readFields, outcome, Except.map]
  | ok value => cases others : readFields rest <;> simp [readFields, outcome, others, Except.map]

theorem map_readAll_cons {α : Type} (branch : Branch) (rest : List Branch)
    (change : List Value → α) :
    (readAll (branch :: rest)).map change =
      branch.read >>= fun value => (readAll rest).map fun others => change (value :: others) := by
  cases outcome : branch.read with
  | error fault => simp [readAll, outcome, Except.map]
  | ok value => cases others : readAll rest <;> simp [readAll, outcome, others, Except.map]

/-- Members with new and different names are read one by one. -/
theorem readMembers_eq_readFields {fields : List (String × Value)}
    {members : List (String × Branch)}
    (nodup : (fields.map (·.1) ++ members.map (·.1)).Nodup) :
    readMembers fields members = (readFields members).map (fields ++ ·) := by
  induction members generalizing fields with
  | nil => simp [readMembers, readFields, Except.map]
  | cons member rest ih =>
      rcases member with ⟨name, branch⟩
      unfold readMembers readFields
      cases branch.read with
      | error fault => rfl
      | ok value =>
          have parts := List.nodup_append.mp nodup
          have fresh : name ∉ fields.map (·.1) := fun inside =>
            parts.2.2 name inside name List.mem_cons_self rfl
          have later : ((fields ++ [(name, value)]).map (·.1) ++ rest.map (·.1)).Nodup := by
            simpa using nodup
          have appended :
              Assembly.appendField fields name value = .ok (fields ++ [(name, value)]) :=
            Assembly.appendField_eq_ok_iff.mpr ⟨fresh, rfl⟩
          rw [Outcome.ok_bind, appended, Outcome.ok_bind, Outcome.ok_bind, ih later]
          cases readFields rest <;> simp [Except.map]

/-- Elements that have the element type are read one by one. -/
theorem readElements_eq_readAll {element : DataType} {branches : List Branch}
    (typed : ∀ branch ∈ branches, ∀ value, branch.read = .ok value → value.typeOf = element) :
    readElements element branches = readAll branches := by
  induction branches with
  | nil => rfl
  | cons branch rest ih =>
      unfold readElements readAll
      rw [ih fun branch inside => typed branch (List.mem_cons_of_mem _ inside)]
      cases outcome : branch.read with
      | error fault => rfl
      | ok value =>
          have same := typed branch List.mem_cons_self value outcome
          subst same
          simp

/-! ## Reading members and elements -/

theorem names_ofMembers {nodes : Array Node} {members : List (String × Schema)}
    {children : List Nat} (complete : children.length = members.length) :
    (ofMembers nodes members children).map (·.1) = members.map (·.1) := by
  induction members generalizing children with
  | nil => simp [ofMembers]
  | cons member rest ih =>
      cases children with
      | nil => cases complete
      | cons child others =>
          have shorter : others.length = rest.length := by simpa using complete
          simp [ofMembers, ih shorter]

/-- The types of members foretell their fields. -/
theorem foretold_readFields {nodes : Array Node} {members : List (String × Schema)}
    (each : ∀ member ∈ members, ∀ id, schemaAt nodes id = some member.2 →
      Foretold OfType member.2.type (ofNode nodes member.2 id).read)
    {children : List Nat}
    (schemas : children.map (schemaAt nodes) = members.map fun member => some member.2) :
    Foretold OfTypes (Schema.memberTypes members)
      (readFields (ofMembers nodes members children)) := by
  induction members generalizing children with
  | nil =>
      unfold Schema.memberTypes ofMembers readFields
      exact .ok rfl
  | cons member rest ih =>
      rcases member with ⟨name, schema⟩
      cases children with
      | nil => cases schemas
      | cons child others =>
          simp only [List.map_cons, List.cons.injEq] at schemas
          have first := each (name, schema) List.mem_cons_self child schemas.1
          have later := ih (fun member inside => each member (List.mem_cons_of_mem _ inside))
            schemas.2
          unfold Schema.memberTypes ofMembers readFields
          refine first.bind fun type value same => later.bind fun types fields sameRest => .ok ?_
          simp only [OfTypes, Value.fieldTypes, List.cons.injEq, Prod.mk.injEq, true_and]
          exact ⟨same, sameRest⟩

/-! ## Reading structures and arrays -/

variable {nodes : Array Node} {id : Nat} {structId : Option String}
  {members : List (String × Schema)} {name : Option String} {length : Option Nat}

/-- The branch at a structure has the branches at its members. -/
theorem ofNode_struct {children : List Nat} {changed : Bool} {schema : Schema}
    (nodeEq : nodes[id]? = some ⟨schema, .struct children, changed⟩) :
    ofNode nodes (.struct structId members) id =
      .struct changed structId (ofMembers nodes members children) := by
  simp [ofNode, nodeEq]

/-- A structure is read member by member. -/
theorem read_struct {changed : Bool} {children : List Nat}
    (complete : children.length = members.length) (nodup : (members.map (·.1)).Nodup) :
    (Branch.struct changed structId (ofMembers nodes members children)).read =
      (readFields (ofMembers nodes members children) >>= fun fields =>
        .ok (.struct structId fields)) := by
  unfold read
  rw [readMembers_eq_readFields (by simpa [names_ofMembers complete] using nodup)]
  cases readFields (ofMembers nodes members children) <;> rfl

theorem foretold_struct (sound : Sound nodes)
    (each : ∀ member ∈ members, ∀ id, schemaAt nodes id = some member.2 →
      Foretold OfType member.2.type (ofNode nodes member.2 id).read)
    (nodup : (members.map (·.1)).Nodup)
    (found : schemaAt nodes id = some (.struct structId members)) :
    Foretold OfType (Schema.struct structId members).type
      (ofNode nodes (.struct structId members) id).read := by
  obtain ⟨children, changed, nodeEq, schemas⟩ := sound.node_struct found
  rw [ofNode_struct nodeEq, read_struct (length_of_schemas schemas) nodup]
  unfold Schema.type
  refine (foretold_readFields each schemas).bind fun types fields same => .ok ?_
  simp only [OfType, Value.typeOf, DataType.struct.injEq, true_and]
  exact same

/-- A datum under the tag of a scalar is of the kind of that element. -/
theorem kind_of_tag {datum : Datum} {element : Element} (tagEq : datum.tag = .scalar element) :
    datum.scalar.kind = element.kind := by
  obtain rfl : datum.element = element := Tag.scalar.inj tagEq
  exact (Element.kind_ofKind datum.distinct).symm

/-- The branch at an array of structures has the branches at its elements. -/
theorem ofNode_structArray {elements : List Nat} {changed : Bool} {schema : Schema}
    (nodeEq : nodes[id]? = some ⟨schema, .structArray elements, changed⟩) :
    ofNode nodes (.structArray structId members name length) id =
      .structArray changed structId members name length
        (elements.map (ofNode nodes (.struct structId members))) := by
  simp [ofNode, nodeEq]

/-- An array of structures of one type is read element by element. -/
theorem read_structArray {changed : Bool} {branches : List Branch}
    {fields : List (String × DataType)} (types : Schema.memberTypes members = .ok fields)
    (typed : ∀ branch ∈ branches, ∀ value, branch.read = .ok value →
      value.typeOf = .struct structId fields) :
    (Branch.structArray changed structId members name length branches).read =
      (readAll branches >>= fun values =>
        .ok (.array name (.struct structId fields) length values)) := by
  simp only [read, types, Outcome.ok_bind]
  rw [readElements_eq_readAll typed]
  rfl

theorem exists_readAll {branches : List Branch}
    (each : ∀ branch ∈ branches, ∃ value, branch.read = .ok value) :
    ∃ values, readAll branches = .ok values := by
  induction branches with
  | nil => exact ⟨[], rfl⟩
  | cons branch rest ih =>
      obtain ⟨value, first⟩ := each branch List.mem_cons_self
      obtain ⟨values, later⟩ := ih fun branch inside => each branch (List.mem_cons_of_mem _ inside)
      exact ⟨value :: values, by simp [readAll, first, later]⟩

theorem foretold_structArray (sound : Sound nodes)
    (each : ∀ id, schemaAt nodes id = some (.struct structId members) →
      Foretold OfType (Schema.struct structId members).type
        (ofNode nodes (.struct structId members) id).read)
    (found : schemaAt nodes id = some (.structArray structId members name length)) :
    Foretold OfType (Schema.structArray structId members name length).type
      (ofNode nodes (.structArray structId members name length) id).read := by
  obtain ⟨elements, changed, nodeEq, schemas⟩ := sound.node_structArray found
  rw [ofNode_structArray nodeEq]
  cases types : Schema.memberTypes members with
  | error fault =>
      have typed : (Schema.structArray structId members name length).type = .error fault := by
        simp [Schema.type, types]
      have unsupported := Schema.category_of_type_eq_error (sound.tagged found) typed
      simp only [Schema.type, read, types]
      exact .error unsupported
  | ok fields =>
      have foretold : ∀ branch ∈ elements.map (ofNode nodes (.struct structId members)),
          ∃ value, branch.read = .ok value ∧ value.typeOf = .struct structId fields := by
        intro branch inside
        obtain ⟨element, isElement, rfl⟩ := List.mem_map.mp inside
        have promised := each element (schemas element isElement)
        simp only [Schema.type, types] at promised
        exact promised.exists_ok
      obtain ⟨values, valuesEq⟩ := exists_readAll fun branch inside =>
        (foretold branch inside).imp fun _ => And.left
      rw [read_structArray types, valuesEq]
      · simp only [Schema.type, types]
        exact .ok rfl
      · intro branch inside value outcome
        obtain ⟨other, otherEq, typed⟩ := foretold branch inside
        rw [outcome] at otherEq
        exact Except.ok.inj otherEq ▸ typed

/-- The type that a schema describes foretells what is read below a sound node
of that schema. -/
theorem foretold_ofNode (sound : Sound nodes) {schema : Schema} (distinct : schema.DistinctNames)
    (found : schemaAt nodes id = some schema) :
    Foretold OfType schema.type (ofNode nodes schema id).read := by
  induction schema generalizing id with
  | scalar tag =>
      obtain ⟨datum, changed, nodeEq, tagEq⟩ := sound.node_scalar found
      obtain ⟨element, rfl⟩ := (sound.tagged found).exists_element
      simp only [ofNode, nodeEq, read]
      exact .ok (congrArg DataType.scalar (kind_of_tag tagEq))
  | scalarArray tag name length =>
      obtain ⟨items, changed, nodeEq, tagEq⟩ := sound.node_scalarArray found
      obtain ⟨element, rfl⟩ := (sound.tagged found).exists_arrayElement
      simp only [ofNode, nodeEq, read, tagEq]
      exact .ok rfl
  | struct structId members each =>
      have inner := Schema.Everywhere.members_of_struct distinct
      exact foretold_struct sound (fun member inside id => each member inside (inner member inside))
        distinct.names found
  | structArray structId members name length each =>
      have element := Schema.Everywhere.element distinct
      have inner := Schema.Everywhere.members_of_struct element
      refine foretold_structArray sound (fun id found => ?_) found
      exact foretold_struct sound (fun member inside id => each member inside (inner member inside))
        (Schema.DistinctNames.names element) found
  | union structId members =>
      obtain ⟨selected, changed, nodeEq⟩ := sound.node_union found
      cases selected <;> simp only [ofNode, nodeEq] <;> exact .error rfl
  | unionArray structId members =>
      obtain ⟨elements, changed, nodeEq⟩ := sound.node_unionArray found
      simp only [ofNode, nodeEq]
      exact .error rfl

end Branch

/-- What a tree holds is what is below its root. -/
theorem Tree.branch?_eq_some {tree : Tree} {root : Nat} (isRoot : tree.root = some root)
    {schema : Schema} (found : schemaAt tree.nodes root = some schema) :
    tree.branch? = some (Branch.ofNode tree.nodes schema root) := by
  have rootSchema : tree.schema? = some schema := by
    unfold Tree.schema?
    rw [isRoot]
    exact found
  simp [Tree.branch?, isRoot, rootSchema]

/-- A tree is read from its root downwards. -/
theorem Tree.read_eq_read_ofNode {tree : Tree} {root : Nat} (isRoot : tree.root = some root)
    {schema : Schema} (found : schemaAt tree.nodes root = some schema) :
    tree.read = (Branch.ofNode tree.nodes schema root).read := by
  rw [Tree.read, Tree.branch?_eq_some isRoot found]

end ProcessImage.Wire
