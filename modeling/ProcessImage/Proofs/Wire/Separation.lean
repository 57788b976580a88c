import ProcessImage.Proofs.Wire.Reading

/-!
# Separate parts of a tree

In a sound array of nodes no node is below itself by way of others, and what is
below one child of a node is not below another.  What is read below a node
depends on the contents there alone, so a change below one child does not
change what is read below the others.
-/

namespace ProcessImage.Wire

open Arena

namespace Arena

variable {nodes : Array Node}

/-- Below a node, schemas are parts of the schema of that node. -/
theorem Sound.sizeOf_le_of_below (sound : Sound nodes) {top id : Nat} (below : Below nodes top id)
    {schema : Schema} (found : schemaAt nodes top = some schema) :
    ∃ inner, schemaAt nodes id = some inner ∧ sizeOf inner ≤ sizeOf schema := by
  induction below with
  | refl => exact ⟨schema, found, Nat.le_refl _⟩
  | tail _ step ih =>
      rcases ih with ⟨middle, middleEq, smaller⟩
      obtain ⟨other, inner, otherEq, innerEq, less⟩ := sound.child step
      rw [middleEq] at otherEq
      cases otherEq
      exact ⟨inner, innerEq, by omega⟩

/-- A node is not below its own child. -/
theorem Sound.not_below_child (sound : Sound nodes) {parent child : Nat}
    (inside : child ∈ childrenAt nodes parent) : ¬ Below nodes child parent := by
  intro below
  obtain ⟨schema, inner, schemaEq, innerEq, smaller⟩ := sound.child inside
  obtain ⟨other, otherEq, le⟩ := sound.sizeOf_le_of_below below innerEq
  rw [schemaEq] at otherEq
  cases otherEq
  omega

/-- Of two nodes with a common node below them, one is below the other. -/
theorem Sound.below_or_below (sound : Sound nodes) {first second id : Nat}
    (belowFirst : Below nodes first id) (belowSecond : Below nodes second id) :
    Below nodes first second ∨ Below nodes second first := by
  induction belowFirst with
  | refl => exact Or.inr belowSecond
  | tail above step ih =>
      rcases Relation.ReflTransGen.cases_tail belowSecond with rfl | ⟨parent, belowParent, inside⟩
      · exact Or.inl (above.tail step)
      · obtain rfl := sound.unique step inside
        exact ih belowParent

/-- Nothing is below two different children of one node. -/
theorem Sound.not_below_both (sound : Sound nodes) {parent first second id : Nat}
    (isFirst : first ∈ childrenAt nodes parent) (isSecond : second ∈ childrenAt nodes parent)
    (different : first ≠ second) (belowFirst : Below nodes first id) :
    ¬ Below nodes second id := by
  -- A child strictly below its sibling would put their parent below that sibling.
  have apart : ∀ {upper lower : Nat}, upper ∈ childrenAt nodes parent →
      lower ∈ childrenAt nodes parent → upper ≠ lower → ¬ Below nodes upper lower := by
    intro upper lower isUpper isLower other below
    rcases Relation.ReflTransGen.cases_tail below with rfl | ⟨between, belowBetween, step⟩
    · exact other rfl
    · obtain rfl := sound.unique step isLower
      exact sound.not_below_child isUpper belowBetween
  intro belowSecond
  rcases sound.below_or_below belowFirst belowSecond with down | up
  · exact apart isFirst isSecond different down
  · exact apart isSecond isFirst (Ne.symm different) up

end Arena

/-! ## Reading depends on contents -/

namespace Branch

/-- Members with the same outcomes are read alike. -/
theorem readMembers_congr {members others : List (String × Branch)}
    (same : members.map (fun member => (member.1, member.2.read)) =
      others.map fun member => (member.1, member.2.read)) (fields : List (String × Value)) :
    readMembers fields members = readMembers fields others := by
  induction members generalizing others fields with
  | nil =>
      cases others with
      | nil => rfl
      | cons other rest => cases same
  | cons member rest ih =>
      cases others with
      | nil => cases same
      | cons other more =>
          rcases member with ⟨name, branch⟩
          rcases other with ⟨name', branch'⟩
          simp only [List.map_cons, List.cons.injEq, Prod.mk.injEq] at same
          rcases same with ⟨⟨rfl, sameRead⟩, sameRest⟩
          unfold readMembers
          rw [sameRead]
          simp only [ih sameRest]

/-- Elements with the same outcomes are read alike. -/
theorem readElements_congr {branches others : List Branch}
    (same : branches.map read = others.map read) (element : DataType) :
    readElements element branches = readElements element others := by
  induction branches generalizing others with
  | nil =>
      cases others with
      | nil => rfl
      | cons other rest => cases same
  | cons branch rest ih =>
      cases others with
      | nil => cases same
      | cons other more =>
          simp only [List.map_cons, List.cons.injEq] at same
          unfold readElements
          rw [same.1, ih same.2]

/-- Members with the same outcomes have the same fields. -/
theorem readFields_congr {members others : List (String × Branch)}
    (same : members.map (fun member => (member.1, member.2.read)) =
      others.map fun member => (member.1, member.2.read)) :
    readFields members = readFields others := by
  induction members generalizing others with
  | nil =>
      cases others with
      | nil => rfl
      | cons other rest => cases same
  | cons member rest ih =>
      cases others with
      | nil => cases same
      | cons other more =>
          rcases member with ⟨name, branch⟩
          rcases other with ⟨name', branch'⟩
          simp only [List.map_cons, List.cons.injEq, Prod.mk.injEq] at same
          rcases same with ⟨⟨rfl, sameRead⟩, sameRest⟩
          unfold readFields
          rw [sameRead, ih sameRest]

variable {nodes others : Array Node}

/-- Nodes of the same content are there together. -/
theorem node_of_contentAt_eq {id : Nat} (same : contentAt others id = contentAt nodes id) :
    (nodes[id]? = none ∧ others[id]? = none) ∨
      ∃ schema schema' content changed changed', nodes[id]? = some ⟨schema, content, changed⟩ ∧
        others[id]? = some ⟨schema', content, changed'⟩ := by
  cases first : nodes[id]? with
  | none => exact Or.inl ⟨rfl, by simpa [contentAt, first] using same⟩
  | some node =>
      have known : contentAt others id = some node.content := by simpa [contentAt, first] using same
      obtain ⟨schema, changed, second⟩ := exists_node_of_contentAt known
      exact Or.inr ⟨node.schema, schema, node.content, node.changed, changed, rfl, second⟩

variable {structId : Option String} {members : List (String × Schema)}

theorem map_read_ofMembers_congr {children : List Nat}
    (each : ∀ member ∈ members, ∀ child ∈ children,
      (ofNode others member.2 child).read = (ofNode nodes member.2 child).read) :
    (ofMembers others members children).map (fun member => (member.1, member.2.read)) =
      (ofMembers nodes members children).map fun member => (member.1, member.2.read) := by
  induction members generalizing children with
  | nil => simp [ofMembers]
  | cons member rest ih =>
      cases children with
      | nil => simp [ofMembers]
      | cons child more =>
          have first := each member List.mem_cons_self child List.mem_cons_self
          have later := ih fun member inside child isChild =>
            each member (List.mem_cons_of_mem _ inside) child (List.mem_cons_of_mem _ isChild)
          simp only [ofMembers, List.map_cons, first, later]

/-- What is read below a structure depends on the contents below it when that
holds of its members. -/
theorem read_struct_congr
    (each : ∀ member ∈ members, ∀ id,
      (∀ other, Below nodes id other → contentAt others other = contentAt nodes other) →
      (ofNode others member.2 id).read = (ofNode nodes member.2 id).read)
    {id : Nat}
    (same : ∀ other, Below nodes id other → contentAt others other = contentAt nodes other) :
    (ofNode others (.struct structId members) id).read =
      (ofNode nodes (.struct structId members) id).read := by
  rcases node_of_contentAt_eq (same id .refl) with ⟨first, second⟩ |
    ⟨_, _, content, _, _, first, second⟩
  · simp [ofNode, first, second]
  · cases content with
    | struct children =>
        have childrenEq : childrenAt nodes id = children := childrenAt_of_node first
        have members' : ∀ member ∈ members, ∀ child ∈ children,
            (ofNode others member.2 child).read = (ofNode nodes member.2 child).read := by
          intro member inside child isMember
          exact each member inside child fun other below =>
            same other (below.head (childrenEq ▸ isMember))
        simp only [ofNode, first, second, read,
          readMembers_congr (map_read_ofMembers_congr members')]
    | _ => simp [ofNode, first, second]

/-- What is read below a node depends on the contents below that node. -/
theorem read_ofNode_congr {schema : Schema} {id : Nat}
    (same : ∀ other, Below nodes id other → contentAt others other = contentAt nodes other) :
    (ofNode others schema id).read = (ofNode nodes schema id).read := by
  induction schema generalizing id with
  | struct structId members each =>
      exact read_struct_congr (fun member inside id => each member inside) same
  | structArray structId members name length each =>
      rcases node_of_contentAt_eq (same id .refl) with ⟨first, second⟩ |
        ⟨_, _, content, _, _, first, second⟩
      · simp [ofNode, first, second]
      · cases content with
        | structArray elements =>
            rw [ofNode_structArray first, ofNode_structArray second]
            have childrenEq : childrenAt nodes id = elements := childrenAt_of_node first
            have elements' : (elements.map (ofNode others (.struct structId members))).map read =
                (elements.map (ofNode nodes (.struct structId members))).map read := by
              simp only [List.map_map]
              apply List.map_congr_left
              intro element inside
              exact read_struct_congr (fun member inside id => each member inside)
                fun other below => same other (below.head (childrenEq ▸ inside))
            simp only [read, readElements_congr elements']
        | _ => simp [ofNode, first, second]
  | _ =>
      rcases node_of_contentAt_eq (same id .refl) with ⟨first, second⟩ |
        ⟨_, _, content, _, _, first, second⟩
      · simp [ofNode, first, second]
      · cases content with
        | union selected => cases selected <;> simp [ofNode, first, second, read]
        | _ => simp [ofNode, first, second, read]

/-! ## Branches depend on nodes -/

theorem ofMembers_congr {children : List Nat}
    (each : ∀ member ∈ members, ∀ child ∈ children,
      ofNode others member.2 child = ofNode nodes member.2 child) :
    ofMembers others members children = ofMembers nodes members children := by
  induction members generalizing children with
  | nil => simp [ofMembers]
  | cons member rest ih =>
      cases children with
      | nil => simp [ofMembers]
      | cons child more =>
          have first := each member List.mem_cons_self child List.mem_cons_self
          have later := ih fun member inside child isChild =>
            each member (List.mem_cons_of_mem _ inside) child (List.mem_cons_of_mem _ isChild)
          simp only [ofMembers, first, later]

theorem ofMemberAt_congr {child : Nat}
    (each : ∀ member ∈ members, ofNode others member.2 child = ofNode nodes member.2 child)
    (position : Nat) :
    ofMemberAt others members position child = ofMemberAt nodes members position child := by
  induction members generalizing position with
  | nil => simp [ofMemberAt]
  | cons member rest ih =>
      cases position with
      | zero => simp only [ofMemberAt, each member List.mem_cons_self]
      | succ position =>
          simp only [ofMemberAt]
          exact ih (fun member inside => each member (List.mem_cons_of_mem _ inside)) position

theorem ofNode_struct_congr
    (each : ∀ member ∈ members, ∀ id,
      (∀ other, Below nodes id other → others[other]? = nodes[other]?) →
      ofNode others member.2 id = ofNode nodes member.2 id)
    {id : Nat} (same : ∀ other, Below nodes id other → others[other]? = nodes[other]?) :
    ofNode others (.struct structId members) id = ofNode nodes (.struct structId members) id := by
  have here := same id .refl
  cases found : nodes[id]? with
  | none => simp [ofNode, here, found]
  | some node =>
      rcases node with ⟨schema, content, changed⟩
      cases content with
      | struct children =>
          have childrenEq : childrenAt nodes id = children := childrenAt_of_node found
          rw [ofNode_struct found, ofNode_struct (here.trans found)]
          rw [ofMembers_congr fun member inside child isChild => each member inside child
            fun other below => same other (below.head (childrenEq ▸ isChild))]
      | _ => simp [ofNode, here, found]

/-- The branch at a node depends on the nodes below it. -/
theorem ofNode_congr {schema : Schema} {id : Nat}
    (same : ∀ other, Below nodes id other → others[other]? = nodes[other]?) :
    ofNode others schema id = ofNode nodes schema id := by
  have here := same id .refl
  induction schema generalizing id with
  | struct structId members each =>
      exact ofNode_struct_congr (fun member inside id same => each member inside same
        (same id .refl)) same
  | structArray structId members name length each =>
      cases found : nodes[id]? with
      | none => simp [ofNode, here, found]
      | some node =>
          rcases node with ⟨schema, content, changed⟩
          cases content with
          | structArray elements =>
              have childrenEq : childrenAt nodes id = elements := childrenAt_of_node found
              rw [ofNode_structArray found, ofNode_structArray (here.trans found)]
              congr 1
              apply List.map_congr_left
              intro element inside
              exact ofNode_struct_congr (fun member inside id same => each member inside same
                (same id .refl)) fun other below => same other (below.head (childrenEq ▸ inside))
          | _ => simp [ofNode, here, found]
  | union structId members each =>
      cases found : nodes[id]? with
      | none => simp [ofNode, here, found]
      | some node =>
          rcases node with ⟨schema, content, changed⟩
          cases content with
          | union selected =>
              cases selected with
              | none => simp [ofNode, here, found]
              | some choice =>
                  have childrenEq : childrenAt nodes id = [choice.2] := childrenAt_of_node found
                  have below : ∀ other, Below nodes choice.2 other →
                      others[other]? = nodes[other]? := fun other below =>
                    same other (below.head (childrenEq ▸ List.mem_cons_self))
                  simp only [ofNode, here, found]
                  rw [ofMemberAt_congr fun member inside => each member inside below
                    (below _ .refl)]
          | _ => simp [ofNode, here, found]
  | _ => simp [ofNode, here]

end Branch

end ProcessImage.Wire
