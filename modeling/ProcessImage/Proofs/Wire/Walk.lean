import ProcessImage.Proofs.Wire.Edit
import ProcessImage.Proofs.Wire.Reading

/-!
# Walks through trees

A tree is read without recursion: a `Walk` keeps the nodes that it still has to
visit on a stack of frames and assembles the value while it goes.  A node with
nodes below it is visited twice, to open its part of the value and to close it.

Walks through sound nodes are smooth: the assembly refuses no action and
converts no element.  They end, and what they yield is what `Tree.read` says.
-/

namespace ProcessImage

/-! ## Plain runs -/

namespace Assembly

/-- Whether the element that is about to be closed has the type of its array. -/
def ElementFits : Assembly → Prop
  | .value value :: .element :: .array _ element _ _ :: _ =>
      value.typeOf = element.getD value.typeOf
  | _ => True

/-- A run of actions that refuses none of them and converts no element. -/
inductive RunsPlainly : List Action → Assembly → Assembly → Prop
  | nil (parts : Assembly) : RunsPlainly [] parts parts
  | cons {action : Action} {rest : List Action} {parts next result : Assembly}
      (applied : action.apply parts = .ok next)
      (fits : action = .endElement → ElementFits parts) (later : RunsPlainly rest next result) :
      RunsPlainly (action :: rest) parts result

namespace RunsPlainly

variable {first second : List Action} {parts middle result : Assembly}

/-- A plain run is a run. -/
theorem run_eq_ok (plain : RunsPlainly first parts result) : run first parts = .ok result := by
  induction plain with
  | nil parts => rfl
  | cons applied _ _ ih => rw [run_cons, applied, Outcome.ok_bind, ih]

theorem append (earlier : RunsPlainly first parts middle)
    (later : RunsPlainly second middle result) : RunsPlainly (first ++ second) parts result := by
  induction earlier with
  | nil parts => exact later
  | cons applied fits _ ih => exact .cons applied fits (ih later)

/-- One action that is no end of an element. -/
theorem single {action : Action} (applied : action.apply parts = .ok result)
    (other : action ≠ .endElement) : RunsPlainly [action] parts result :=
  .cons applied (fun same => absurd same other) (.nil result)

end RunsPlainly

end Assembly

namespace Wire

open Arena Assembly

/-! ## Walks -/

/-- Where a node stands in the node that refers to it. -/
inductive Place where
  | top
  | member (name : String)
  | element

/-- The actions before the value at a place. -/
def Place.opening : Place → List Action
  | .top => []
  | .member name => [.startField name]
  | .element => [.startElement]

/-- The actions after the value at a place. -/
def Place.closing : Place → List Action
  | .top => []
  | .member _ => [.endField]
  | .element => [.endElement]

/-- A node that is still to be visited, or visited again. -/
structure Frame where
  id : Nat
  place : Place
  opened : Bool := false

/-- The frames of members. -/
def memberFrames (members : List (String × Nat)) : List Frame :=
  members.map fun member => { id := member.2, place := .member member.1 }

/-- The frames of elements. -/
def elementFrames (elements : List Nat) : List Frame :=
  elements.map fun element => { id := element, place := .element }

/-- What the visit of a node asks of the assembly, and the frames that replace
its own frame afterwards. -/
def Tree.visit (tree : Tree) (frame : Frame) : List Action × Except Fault (List Frame) :=
  match tree.node? frame.id with
  | none => ([], .error (.noNode frame.id))
  | some ⟨.struct name _, .struct _, _⟩ =>
      if frame.opened then (.endStruct :: frame.place.closing, .ok [])
      else
        (frame.place.opening ++ [.startStruct name],
          .ok (memberFrames (tree.members frame.id) ++ [{ frame with opened := true }]))
  | some ⟨.structArray id members name length, .structArray elements, _⟩ =>
      if frame.opened then (.endArray :: frame.place.closing, .ok [])
      else
        match Schema.memberTypes members with
        | .ok fields =>
            (frame.place.opening ++ [.startArray name (some (.struct id fields)) length],
              .ok (elementFrames elements ++ [{ frame with opened := true }]))
        | .error fault => (frame.place.opening, .error fault)
  | some ⟨_, .scalar datum, _⟩ =>
      (frame.place.opening ++ .value (.scalar datum.scalar) :: frame.place.closing, .ok [])
  | some ⟨.scalarArray _ name length, .scalarArray items, _⟩ =>
      match Schema.kindOfTag items.tag with
      | .ok kind =>
          (frame.place.opening ++
            .value (.array name (.scalar kind) length (Branch.itemValues items)) ::
              frame.place.closing, .ok [])
      | .error fault => ([], .error fault)
  | some ⟨schema, .union _, _⟩ => ([], .error (.unionNode schema.tag frame.id))
  | some ⟨schema, .unionArray _, _⟩ => ([], .error (.unionNode schema.tag frame.id))
  | some ⟨schema, _, _⟩ => ([], .error (.inconsistentNode schema.tag frame.id))

/-- A walk under way: the frames that are left, the next one first, and the
value as far as it is assembled. -/
structure Walk where
  frames : List Frame
  parts : Assembly

namespace Walk

/-- The walk that starts at a node. -/
def start (root : Nat) : Walk :=
  ⟨[{ id := root, place := .top }], []⟩

/-- One visit, unless no frame is left. -/
def step (tree : Tree) : Walk → Option (Except Fault Walk)
  | ⟨[], _⟩ => none
  | ⟨frame :: rest, parts⟩ => some do
      let parts ← run (tree.visit frame).1 parts
      let frames ← (tree.visit frame).2
      return ⟨frames ++ rest, parts⟩

/-- What a walk yields within a number of visits, if it ends by then. -/
def outcome (tree : Tree) : Nat → Walk → Option (Except Fault Value)
  | 0, walk =>
      match walk.step tree with
      | none => some (finish walk.parts)
      | some _ => none
  | count + 1, walk =>
      match walk.step tree with
      | none => some (finish walk.parts)
      | some (.ok next) => outcome tree count next
      | some (.error fault) => some (.error fault)

/-- One walk comes to be another. -/
def Reaches (tree : Tree) : Walk → Walk → Prop :=
  Relation.ReflTransGen fun walk next => walk.step tree = some (.ok next)

/-- Whether the next visit is plain: no action is refused, no element
converted. -/
def Smooth (tree : Tree) : Walk → Prop
  | ⟨[], _⟩ => True
  | ⟨frame :: _, parts⟩ => ∃ next, RunsPlainly (tree.visit frame).1 parts next

end Walk

/-- What walking through a tree yields within a number of visits, if it ends by
then.  The absent tree needs no walk. -/
def Tree.walked (tree : Tree) (count : Nat) : Option (Except Fault Value) :=
  match tree.root with
  | some root => (Walk.start root).outcome tree count
  | none => some (.ok .empty)

/-- The walks that reading a tree comes through. -/
def Tree.Passes (tree : Tree) (walk : Walk) : Prop :=
  ∃ root, tree.root = some root ∧ (Walk.start root).Reaches tree walk

/-! ## Smooth visits -/

namespace Walk

/-- A plain visit that leads to another walk. -/
inductive Visits (tree : Tree) : Walk → Walk → Prop
  | visit {frame : Frame} {rest frames : List Frame} {actions : List Action}
      {parts next : Assembly} (visited : tree.visit frame = (actions, .ok frames))
      (plain : RunsPlainly actions parts next) :
      Visits tree ⟨frame :: rest, parts⟩ ⟨frames ++ rest, next⟩

/-- A plain visit that ends a walk with a fault. -/
inductive Stops (tree : Tree) (fault : Fault) : Walk → Prop
  | visit {frame : Frame} {rest : List Frame} {actions : List Action} {parts next : Assembly}
      (visited : tree.visit frame = (actions, .error fault))
      (plain : RunsPlainly actions parts next) : Stops tree fault ⟨frame :: rest, parts⟩

variable {tree : Tree} {walk next : Walk}

theorem Visits.step (visits : Visits tree walk next) : walk.step tree = some (.ok next) := by
  cases visits with
  | visit visited plain => simp [Walk.step, visited, plain.run_eq_ok]

theorem Visits.smooth (visits : Visits tree walk next) : walk.Smooth tree := by
  cases visits with
  | visit visited plain => exact ⟨_, by rw [visited]; exact plain⟩

theorem Stops.step {fault : Fault} (stops : Stops tree fault walk) :
    walk.step tree = some (.error fault) := by
  cases stops with
  | visit visited plain => simp [Walk.step, visited, plain.run_eq_ok]

theorem Stops.smooth {fault : Fault} (stops : Stops tree fault walk) : walk.Smooth tree := by
  cases stops with
  | visit visited plain => exact ⟨_, by rw [visited]; exact plain⟩

/-- Plain visits lead a walk to another one, or to its end with a fault. -/
def Leads (tree : Tree) (walk : Walk) : Except Fault Walk → Prop
  | .ok goal => Relation.ReflTransGen (Visits tree) walk goal
  | .error fault => ∃ stop, Relation.ReflTransGen (Visits tree) walk stop ∧ Stops tree fault stop

theorem Leads.head {goal : Except Fault Walk} (visits : Visits tree walk next)
    (leads : Leads tree next goal) : Leads tree walk goal := by
  cases goal with
  | ok goal => exact Relation.ReflTransGen.head visits leads
  | error fault =>
      rcases leads with ⟨stop, path, stops⟩
      exact ⟨stop, path.head visits, stops⟩

/-- Where one part of a walk leads, the next part goes on. -/
theorem Leads.bind {α : Type} {outcome : Except Fault α} {middle : α → Walk}
    {goal : α → Except Fault Walk} (first : Leads tree walk (outcome.map middle))
    (later : ∀ item, outcome = .ok item → Leads tree (middle item) (goal item)) :
    Leads tree walk (outcome >>= goal) := by
  cases outcome with
  | error fault => exact first
  | ok item =>
      have rest := later item rfl
      rw [Outcome.ok_bind]
      cases ending : goal item with
      | ok goal =>
          rw [ending] at rest
          exact Relation.ReflTransGen.trans first rest
      | error fault =>
          rw [ending] at rest
          rcases rest with ⟨stop, path, stops⟩
          exact ⟨stop, Relation.ReflTransGen.trans first path, stops⟩

/-! ## Walks below sound nodes -/

/-- From the frame of a node, a walk leads to the value that is read below the
node, or to the fault that is found there. -/
def LeadsThrough (tree : Tree) (id : Nat) (outcome : Except Fault Value) : Prop :=
  ∀ (place : Place) (rest : List Frame) (parts opened : Assembly) (closed : Value → Assembly),
    RunsPlainly place.opening parts opened → Accepting opened →
    (∀ value, outcome = .ok value →
      RunsPlainly place.closing (.value value :: opened) (closed value)) →
    Leads tree ⟨{ id, place } :: rest, parts⟩ (outcome.map fun value => ⟨rest, closed value⟩)

/-- A leaf is walked through in one visit. -/
theorem leadsThrough_leaf {id : Nat} {value : Value}
    (visited : ∀ place, tree.visit { id, place } =
      (place.opening ++ .value value :: place.closing, .ok [])) :
    LeadsThrough tree id (.ok value) := by
  intro place rest parts opened closed opening accepting closing
  have pushed : (Action.value value).apply opened = .ok (.value value :: opened) :=
    openPart_of_accepting accepting (.value value)
  have plain := opening.append
    (.cons pushed (by simp) (closing value rfl))
  exact Relation.ReflTransGen.single (.visit (visited place) plain)

/-- A node that is refused when it is visited ends the walk. -/
theorem leadsThrough_refused {id : Nat} {fault : Fault}
    (visited : ∀ place, tree.visit { id, place } = ([], .error fault)) :
    LeadsThrough tree id (.error fault) := by
  intro place rest parts opened closed opening accepting closing
  exact ⟨_, Relation.ReflTransGen.refl, .visit (visited place) (.nil _)⟩

/-- Members are walked through one after the other. -/
theorem leads_members {members : List (String × Schema)}
    (each : ∀ member ∈ members, ∀ id, schemaAt tree.nodes id = some member.2 →
      LeadsThrough tree id (Branch.ofNode tree.nodes member.2 id).read)
    {children : List Nat}
    (schemas : children.map (schemaAt tree.nodes) = members.map fun member => some member.2)
    (structId : Option String) (fields : List (String × Value)) (rest : List Frame)
    (outer : Assembly) (nodup : (fields.map (·.1) ++ members.map (·.1)).Nodup) :
    Leads tree
      ⟨memberFrames ((members.map (·.1)).zip children) ++ rest, .struct structId fields :: outer⟩
      ((Branch.readFields (Branch.ofMembers tree.nodes members children)).map fun added =>
        ⟨rest, .struct structId (fields ++ added) :: outer⟩) := by
  induction members generalizing children fields with
  | nil =>
      simp only [memberFrames, Branch.ofMembers, Branch.readFields, Except.map, List.append_nil]
      exact Relation.ReflTransGen.refl
  | cons member others ih =>
      rcases member with ⟨name, schema⟩
      cases children with
      | nil => cases schemas
      | cons child more =>
          simp only [List.map_cons, List.cons.injEq] at schemas
          have parts := List.nodup_append.mp nodup
          have fresh : name ∉ fields.map (·.1) := fun inside =>
            parts.2.2 name inside name List.mem_cons_self rfl
          have first := each (name, schema) List.mem_cons_self child schemas.1 (.member name)
            (memberFrames ((others.map (·.1)).zip more) ++ rest) (.struct structId fields :: outer)
            (.field name :: .struct structId fields :: outer)
            (fun value => .struct structId (fields ++ [(name, value)]) :: outer)
            (.single rfl (by simp)) trivial
            (fun value _ => .single (by
              simp [Action.apply, endField, appendField_eq_ok_iff.mpr ⟨fresh, rfl⟩, Except.map])
              (by simp))
          have later : ∀ value, Leads tree
              ⟨memberFrames ((others.map (·.1)).zip more) ++ rest,
                .struct structId (fields ++ [(name, value)]) :: outer⟩
              ((Branch.readFields (Branch.ofMembers tree.nodes others more)).map fun added =>
                ⟨rest, .struct structId (fields ++ [(name, value)] ++ added) :: outer⟩) := by
            intro value
            exact ih (fun member inside => each member (List.mem_cons_of_mem _ inside)) schemas.2
              (fields ++ [(name, value)]) (by simpa using nodup)
          have both := first.bind fun value _ => later value
          unfold Branch.ofMembers
          rw [Branch.map_readFields_cons]
          simpa [memberFrames] using both

/-- Elements of one type are walked through one after the other. -/
theorem leads_elements {branch : Nat → Branch} {elements : List Nat} {type : DataType}
    (each : ∀ element ∈ elements, LeadsThrough tree element (branch element).read)
    (typed : ∀ element ∈ elements, ∀ value, (branch element).read = .ok value →
      value.typeOf = type)
    (name : Option String) (length : Option Nat) (values : List Value) (rest : List Frame)
    (outer : Assembly) :
    Leads tree ⟨elementFrames elements ++ rest, .array name (some type) length values :: outer⟩
      ((Branch.readAll (elements.map branch)).map fun added =>
        ⟨rest, .array name (some type) length (values ++ added) :: outer⟩) := by
  induction elements generalizing values with
  | nil =>
      simp only [elementFrames, List.map_nil, Branch.readAll, Except.map, List.append_nil]
      exact Relation.ReflTransGen.refl
  | cons element others ih =>
      have first := each element List.mem_cons_self .element (elementFrames others ++ rest)
        (.array name (some type) length values :: outer)
        (.element :: .array name (some type) length values :: outer)
        (fun value => .array name (some type) length (values ++ [value]) :: outer)
        (.single rfl (by simp)) trivial
        (fun value read => by
          have fits := typed element List.mem_cons_self value read
          refine .cons ?_ (fun _ => fits) (.nil _)
          subst fits
          simp [Action.apply, endElement, Except.map])
      have later : ∀ value, Leads tree
          ⟨elementFrames others ++ rest,
            .array name (some type) length (values ++ [value]) :: outer⟩
          ((Branch.readAll (others.map branch)).map fun added =>
            ⟨rest, .array name (some type) length (values ++ [value] ++ added) :: outer⟩) := by
        intro value
        exact ih (fun element inside => each element (List.mem_cons_of_mem _ inside))
          (fun element inside => typed element (List.mem_cons_of_mem _ inside))
          (values ++ [value])
      have both := first.bind fun value _ => later value
      rw [List.map_cons, Branch.map_readAll_cons]
      simpa [elementFrames] using both

/-- A structure is opened, its members are walked through, and it is closed. -/
theorem leadsThrough_struct (sound : Sound tree.nodes) {id : Nat} {structId : Option String}
    {members : List (String × Schema)}
    (found : schemaAt tree.nodes id = some (.struct structId members))
    (nodup : (members.map (·.1)).Nodup)
    (each : ∀ member ∈ members, ∀ id, schemaAt tree.nodes id = some member.2 →
      LeadsThrough tree id (Branch.ofNode tree.nodes member.2 id).read) :
    LeadsThrough tree id (Branch.ofNode tree.nodes (.struct structId members) id).read := by
  obtain ⟨children, changed, nodeEq, schemas⟩ := sound.node_struct found
  have membersEq := Tree.members_of_node nodeEq
  intro place rest parts opened closed opening accepting closing
  rw [Branch.ofNode_struct nodeEq, Branch.read_struct (length_of_schemas schemas) nodup]
    at closing ⊢
  have enter : Visits tree ⟨{ id, place } :: rest, parts⟩
      ⟨memberFrames (tree.members id) ++ [{ id, place, opened := true }] ++ rest,
        .struct structId [] :: opened⟩ := by
    have started : (Action.startStruct structId).apply opened =
        .ok (.struct structId [] :: opened) := openPart_of_accepting accepting _
    refine .visit ?_ (opening.append (.single started (by simp)))
    simp [Tree.visit, Tree.node?, nodeEq]
  have leave : ∀ fields,
      Branch.readFields (Branch.ofMembers tree.nodes members children) = .ok fields →
      Visits tree ⟨{ id, place, opened := true } :: rest, .struct structId fields :: opened⟩
        ⟨[] ++ rest, closed (.struct structId fields)⟩ := by
    intro fields outcome
    have visited : tree.visit { id, place, opened := true } =
        (.endStruct :: place.closing, .ok []) := by
      simp [Tree.visit, Tree.node?, nodeEq]
    exact .visit visited
      (.cons rfl (by simp) (closing _ (by rw [outcome]; rfl)))
  have inside := leads_members each schemas structId [] ({ id, place, opened := true } :: rest)
    opened (by simpa using nodup)
  apply Leads.head enter
  rw [membersEq, List.append_assoc, Outcome.map_bind]
  exact inside.bind fun fields outcome => Relation.ReflTransGen.single (leave fields outcome)

/-- An array of structures is opened, its elements are walked through, and it is
closed. -/
theorem leadsThrough_structArray (sound : Sound tree.nodes) {id : Nat} {structId : Option String}
    {members : List (String × Schema)} {name : Option String} {length : Option Nat}
    (found : schemaAt tree.nodes id = some (.structArray structId members name length))
    (foretold : ∀ id, schemaAt tree.nodes id = some (.struct structId members) →
      Foretold OfType (Schema.struct structId members).type
        (Branch.ofNode tree.nodes (.struct structId members) id).read)
    (each : ∀ id, schemaAt tree.nodes id = some (.struct structId members) →
      LeadsThrough tree id (Branch.ofNode tree.nodes (.struct structId members) id).read) :
    LeadsThrough tree id
      (Branch.ofNode tree.nodes (.structArray structId members name length) id).read := by
  obtain ⟨elements, changed, nodeEq, schemas⟩ := sound.node_structArray found
  intro place rest parts opened closed opening accepting closing
  rw [Branch.ofNode_structArray nodeEq] at closing ⊢
  cases types : Schema.memberTypes members with
  | error fault =>
      have visited : tree.visit { id, place } = (place.opening, .error fault) := by
        simp [Tree.visit, Tree.node?, nodeEq, types]
      simp only [Branch.read, types]
      exact ⟨_, Relation.ReflTransGen.refl, .visit visited opening⟩
  | ok fields =>
      have enter : Visits tree ⟨{ id, place } :: rest, parts⟩
          ⟨elementFrames elements ++ [{ id, place, opened := true }] ++ rest,
            .array name (some (.struct structId fields)) length [] :: opened⟩ := by
        have started : (Action.startArray name (some (.struct structId fields)) length).apply
            opened = .ok (.array name (some (.struct structId fields)) length [] :: opened) :=
          openPart_of_accepting accepting _
        refine .visit ?_ (opening.append (.single started (by simp)))
        simp [Tree.visit, Tree.node?, nodeEq, types]
      have typed : ∀ element ∈ elements, ∀ value,
          (Branch.ofNode tree.nodes (.struct structId members) element).read = .ok value →
          value.typeOf = .struct structId fields := by
        intro element isElement value outcome
        have promised := foretold element (schemas element isElement)
        simp only [outcome, Schema.type, types] at promised
        cases promised with
        | ok same => exact same
      have typedBranches : ∀ branch ∈
          elements.map (Branch.ofNode tree.nodes (.struct structId members)), ∀ value,
          branch.read = .ok value → value.typeOf = .struct structId fields := by
        intro branch inside value outcome
        obtain ⟨element, isElement, rfl⟩ := List.mem_map.mp inside
        exact typed element isElement value outcome
      rw [Branch.read_structArray types typedBranches] at closing ⊢
      have leave : ∀ values,
          Branch.readAll (elements.map (Branch.ofNode tree.nodes (.struct structId members))) =
            .ok values →
          Visits tree
            ⟨{ id, place, opened := true } :: rest,
              .array name (some (.struct structId fields)) length values :: opened⟩
            ⟨[] ++ rest, closed (.array name (.struct structId fields) length values)⟩ := by
        intro values outcome
        have visited : tree.visit { id, place, opened := true } =
            (.endArray :: place.closing, .ok []) := by
          simp [Tree.visit, Tree.node?, nodeEq]
        exact .visit visited
          (.cons rfl (by simp) (closing _ (by rw [outcome]; rfl)))
      have inside := leads_elements
        (fun element isElement => each element (schemas element isElement))
        typed name length [] ({ id, place, opened := true } :: rest) opened
      apply Leads.head enter
      rw [List.append_assoc, Outcome.map_bind]
      exact inside.bind fun values outcome => Relation.ReflTransGen.single (leave values outcome)

/-- A walk leads through every sound node to what is read below it. -/
theorem leadsThrough_ofNode (sound : Sound tree.nodes) {schema : Schema}
    (distinct : schema.DistinctNames) {id : Nat} (found : schemaAt tree.nodes id = some schema) :
    LeadsThrough tree id (Branch.ofNode tree.nodes schema id).read := by
  induction schema generalizing id with
  | scalar tag =>
      obtain ⟨datum, changed, nodeEq, _⟩ := sound.node_scalar found
      simp only [Branch.ofNode, nodeEq, Branch.read]
      exact leadsThrough_leaf fun place => by simp [Tree.visit, Tree.node?, nodeEq]
  | scalarArray tag name length =>
      obtain ⟨items, changed, nodeEq, tagEq⟩ := sound.node_scalarArray found
      obtain ⟨element, rfl⟩ := (sound.tagged found).exists_arrayElement
      have kind : Schema.kindOfTag items.tag = .ok element.kind := by
        simp [tagEq, Schema.kindOfTag, Tag.kind?]
      simp only [Branch.ofNode, nodeEq, Branch.read, kind]
      exact leadsThrough_leaf fun place => by simp [Tree.visit, Tree.node?, nodeEq, kind]
  | struct structId members each =>
      have inner := Schema.Everywhere.members_of_struct distinct
      exact leadsThrough_struct sound found distinct.names
        fun member inside id => each member inside (inner member inside)
  | structArray structId members name length each =>
      have element : (Schema.struct structId members).DistinctNames :=
        Schema.Everywhere.element distinct
      have inner := Schema.Everywhere.members_of_struct element
      apply leadsThrough_structArray sound found
      · exact fun id found => Branch.foretold_ofNode sound element found
      · exact fun id found => leadsThrough_struct sound found element.names
          fun member inside id => each member inside (inner member inside)
  | union structId members =>
      obtain ⟨selected, changed, nodeEq⟩ := sound.node_union found
      cases selected <;> simp only [Branch.ofNode, nodeEq, Branch.read] <;> 
        exact leadsThrough_refused fun place => by simp [Tree.visit, Tree.node?, nodeEq, Schema.tag]
  | unionArray structId members =>
      obtain ⟨elements, changed, nodeEq⟩ := sound.node_unionArray found
      simp only [Branch.ofNode, nodeEq, Branch.read]
      exact leadsThrough_refused fun place => by simp [Tree.visit, Tree.node?, nodeEq, Schema.tag]

/-! ## Whole walks -/

/-- Where a walk can go on at all, it goes to one other walk. -/
theorem visits_of_reaches {middle stop : Walk} (terminal : ∀ next, stop.step tree ≠ some (.ok next))
    (path : Relation.ReflTransGen (Visits tree) walk stop) (reaches : walk.Reaches tree middle) :
    Relation.ReflTransGen (Visits tree) middle stop := by
  induction reaches with
  | refl => exact path
  | tail _ step ih =>
      rcases Relation.ReflTransGen.cases_head ih with rfl | ⟨next, visits, later⟩
      · exact absurd step (terminal _)
      · rw [visits.step] at step
        cases step
        exact later

/-- A walk that plain visits lead to an end is smooth on its way there. -/
theorem smooth_of_reaches {middle stop : Walk} (terminal : ∀ next, stop.step tree ≠ some (.ok next))
    (smooth : stop.Smooth tree) (path : Relation.ReflTransGen (Visits tree) walk stop)
    (reaches : walk.Reaches tree middle) : middle.Smooth tree := by
  rcases Relation.ReflTransGen.cases_head (visits_of_reaches terminal path reaches) with
    rfl | ⟨next, visits, _⟩
  · exact smooth
  · exact visits.smooth

/-- What a walk yields after some visits, it yields from the start. -/
theorem exists_outcome_of_visits {stop : Walk} {result : Except Fault Value}
    (path : Relation.ReflTransGen (Visits tree) walk stop)
    (ends : ∃ count, stop.outcome tree count = some result) :
    ∃ count, walk.outcome tree count = some result := by
  induction path using Relation.ReflTransGen.head_induction_on with
  | refl => exact ends
  | head visits _ ih =>
      rcases ih with ⟨count, yields⟩
      exact ⟨count + 1, by rw [outcome, visits.step]; exact yields⟩

end Walk

namespace Tree

variable {tree : Tree}

/-- Walking through a tree with a sound root is smooth and ends with what is
read from the tree. -/
theorem walk_of_sound (sound : Sound tree.nodes) {root : Nat} (isRoot : tree.root = some root)
    {schema : Schema} (found : schemaAt tree.nodes root = some schema)
    (distinct : schema.DistinctNames) :
    (∃ count, tree.walked count = some tree.read) ∧
      ∀ walk, tree.Passes walk → walk.Smooth tree := by
  have leads := Walk.leadsThrough_ofNode sound distinct found .top [] [] []
    (fun value => [.value value]) (.nil _) trivial (fun value _ => .nil _)
  rw [← read_eq_read_ofNode isRoot found] at leads
  have walkedEq : ∀ count, tree.walked count = (Walk.start root).outcome tree count := by
    intro count
    simp [walked, isRoot]
  have passesIff : ∀ walk, tree.Passes walk → (Walk.start root).Reaches tree walk := by
    rintro walk ⟨other, isOther, reaches⟩
    rw [isRoot] at isOther
    exact Option.some.inj isOther ▸ reaches
  cases outcome : tree.read with
  | ok value =>
      rw [outcome] at leads
      constructor
      · have ends : (Walk.mk [] [.value value]).outcome tree 0 = some (.ok value) := rfl
        obtain ⟨count, yields⟩ := Walk.exists_outcome_of_visits leads ⟨0, ends⟩
        exact ⟨count, (walkedEq count).trans yields⟩
      · intro walk passes
        refine Walk.smooth_of_reaches (fun next => ?_) ?_ leads (passesIff walk passes)
        · intro same
          cases same
        · trivial
  | error fault =>
      rw [outcome] at leads
      rcases leads with ⟨stop, path, stops⟩
      constructor
      · have ends : stop.outcome tree 1 = some (.error fault) := by
          rw [Walk.outcome, stops.step]
        obtain ⟨count, yields⟩ := Walk.exists_outcome_of_visits path ⟨1, ends⟩
        exact ⟨count, (walkedEq count).trans yields⟩
      · intro walk passes
        refine Walk.smooth_of_reaches (fun next => ?_) stops.smooth path (passesIff walk passes)
        rw [stops.step]
        intro same
        cases same

/-- A fresh tree of a well-tagged schema with distinct names may be edited in any
way: reading it yields a value of the type that the schema describes, or refuses
a shape that is not supported when there is no such type.  Walking through the
tree ends with the same outcome, and on its way the assembly refuses no action
and converts no element. -/
theorem read_edited {schema : Schema} (tagged : schema.WellTagged)
    (distinct : schema.DistinctNames) (edits : List Edit) :
    Foretold OfType schema.type ((ofSchema schema).edited edits).read ∧
      (∃ count, ((ofSchema schema).edited edits).walked count =
        some ((ofSchema schema).edited edits).read) ∧
      ∀ walk, ((ofSchema schema).edited edits).Passes walk →
        walk.Smooth ((ofSchema schema).edited edits) := by
  obtain ⟨root, isRoot, sound, found⟩ := exists_root_edited tagged edits
  constructor
  · rw [read_eq_read_ofNode isRoot found]
    exact Branch.foretold_ofNode sound distinct found
  · exact walk_of_sound sound isRoot found distinct

/-- An array of points gains two points, of which one gets a coordinate and one
is lost again. -/
theorem read_edited_points :
    let point := [("x", Schema.scalar (.scalar .int))]
    let schema := Schema.struct none [("points", .structArray (some "Point") point none none)]
    let edits := [Edit.resize 0 2, .putScalar 2 (.zeroOf .int), .putScalar 9 (.zeroOf .int),
      .resize 0 1]
    schema.WellTagged ∧ schema.DistinctNames ∧
      ∃ value, ((ofSchema schema).edited edits).read = .ok value ∧
        value.typeOf = .struct none
          [("points",
            .array none (.struct (some "Point") [("x", .scalar (.integer .int32))]) none)] := by
  intro point schema edits
  have tagged : schema.WellTagged := by
    simp [schema, point, Schema.WellTagged, Schema.Everywhere, Schema.MembersEverywhere,
      Schema.HasOwnTag, Tag.isScalar]
  have distinct : schema.DistinctNames := by
    simp [schema, point, Schema.DistinctNames, Schema.Everywhere, Schema.MembersEverywhere,
      Schema.HasDistinctMembers]
  exact ⟨tagged, distinct, (read_edited tagged distinct edits).1.exists_ok⟩

end Tree

end Wire

end ProcessImage
