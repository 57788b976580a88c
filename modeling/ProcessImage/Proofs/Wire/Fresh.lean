import ProcessImage.Proofs.Wire.Arena.Growth
import ProcessImage.Proofs.Wire.Separation

/-!
# Fresh nodes

Nodes that are added leave the branches at older nodes alone, and the branch at a
fresh node of a schema is the same in every array that it is added to, as long as
the schema contains no unions: an array gains elements that look as trees of their
schema do.
-/

namespace ProcessImage.Wire

open Arena

namespace Branch

variable {nodes others : Array Node}

/-- The branch at a node stays as it is when nodes are only added. -/
theorem ofNode_of_same (sound : Sound nodes)
    (same : ∀ id < nodes.size, others[id]? = nodes[id]?) (schema : Schema) {id : Nat}
    (old : id < nodes.size) : ofNode others schema id = ofNode nodes schema id :=
  ofNode_congr fun _ below => same _ (sound.lt_size_of_below below old)

theorem ofMembers_of_same (sound : Sound nodes)
    (same : ∀ id < nodes.size, others[id]? = nodes[id]?) (members : List (String × Schema))
    {children : List Nat} (old : ∀ child ∈ children, child < nodes.size) :
    ofMembers others members children = ofMembers nodes members children :=
  ofMembers_congr fun member _ child isChild =>
    ofNode_of_same sound same member.2 (old child isChild)

/-- A fresh member is still as it was once the others are added. -/
theorem ofNode_of_allocMembers {schema : Schema} {rest : List (String × Schema)}
    (tagged : schema.WellTagged) (taggedRest : ∀ member ∈ rest, member.2.WellTagged)
    (sound : Sound nodes) :
    ofNode (allocMembers rest (alloc schema nodes).1).1 schema (alloc schema nodes).2 =
      ofNode (alloc schema nodes).1 schema (alloc schema nodes).2 := by
  have added := allocation_alloc tagged sound
  have more := allocation_allocMembers
    (fun member inside nodes sound => allocation_alloc (taggedRest member inside) sound) added.sound
  exact ofNode_of_same added.sound more.same schema (added.bounded _ List.mem_cons_self)

/-- A fresh structure comes last and leaves its members alone. -/
theorem ofNode_alloc_struct {id : Option String} {members : List (String × Schema)}
    (tagged : (Schema.struct id members).WellTagged) (sound : Sound nodes) :
    ofNode (alloc (.struct id members) nodes).1 (.struct id members)
        (alloc (.struct id members) nodes).2 =
      .struct false id (ofMembers (allocMembers members nodes).1 members
        (allocMembers members nodes).2) := by
  have taggedMembers := Schema.Everywhere.members_of_struct tagged
  have added := allocation_allocMembers
    (fun member inside nodes sound => allocation_alloc (taggedMembers member inside) sound) sound
  simp only [alloc]
  rw [ofNode_struct Array.getElem?_push_size, ofMembers_of_same added.sound _ _ added.bounded]
  intro id old
  rw [Array.getElem?_push, if_neg (Nat.ne_of_lt old)]

/-- Fresh members are the same in all arrays when each of them is. -/
theorem ofMembers_allocMembers {members : List (String × Schema)}
    (tagged : ∀ member ∈ members, member.2.WellTagged)
    (each : ∀ member ∈ members, ∀ nodes others, Sound nodes → Sound others →
      ofNode (alloc member.2 nodes).1 member.2 (alloc member.2 nodes).2 =
        ofNode (alloc member.2 others).1 member.2 (alloc member.2 others).2)
    (sound : Sound nodes) (sound' : Sound others) :
    ofMembers (allocMembers members nodes).1 members (allocMembers members nodes).2 =
      ofMembers (allocMembers members others).1 members (allocMembers members others).2 := by
  induction members generalizing nodes others with
  | nil => rfl
  | cons member rest ih =>
      rcases member with ⟨name, schema⟩
      have taggedFirst := tagged (name, schema) List.mem_cons_self
      have taggedRest : ∀ member ∈ rest, member.2.WellTagged :=
        fun member inside => tagged member (List.mem_cons_of_mem _ inside)
      have later := ih taggedRest (fun member inside => each member (List.mem_cons_of_mem _ inside))
        (allocation_alloc taggedFirst sound).sound (allocation_alloc taggedFirst sound').sound
      simp only [allocMembers, ofMembers]
      rw [ofNode_of_allocMembers taggedFirst taggedRest sound,
        ofNode_of_allocMembers taggedFirst taggedRest sound', later,
        each (name, schema) List.mem_cons_self _ _ sound sound']

/-- A fresh node of a schema without unions is the same in all arrays. -/
theorem ofNode_alloc {schema : Schema} (tagged : schema.WellTagged) (unionFree : schema.UnionFree)
    (sound : Sound nodes) (sound' : Sound others) :
    ofNode (alloc schema nodes).1 schema (alloc schema nodes).2 =
      ofNode (alloc schema others).1 schema (alloc schema others).2 := by
  induction schema generalizing nodes others with
  | struct id members each =>
      have taggedMembers := Schema.Everywhere.members_of_struct tagged
      have freeMembers := Schema.Everywhere.members_of_struct unionFree
      rw [ofNode_alloc_struct tagged sound, ofNode_alloc_struct tagged sound']
      rw [ofMembers_allocMembers taggedMembers (fun member inside nodes others sound sound' =>
        each member inside (taggedMembers member inside) (freeMembers member inside) sound sound')
        sound sound']
  | union id members => exact unionFree.1.elim
  | unionArray id members => exact unionFree.1.elim
  | _ => simp [alloc, ofNode]

/-- Fresh copies of a schema without unions are as the fresh tree of it. -/
theorem ofNode_allocCopies {schema : Schema} (tagged : schema.WellTagged)
    (unionFree : schema.UnionFree) (count : Nat) (sound : Sound nodes) {copy : Nat}
    (inside : copy ∈ (allocCopies schema count nodes).2) :
    ofNode (allocCopies schema count nodes).1 schema copy =
      ofNode (alloc schema #[]).1 schema (alloc schema #[]).2 := by
  induction count generalizing nodes with
  | zero => cases inside
  | succ count ih =>
      have added := allocation_alloc tagged sound
      rcases List.mem_cons.mp inside with rfl | later
      · have more := allocation_allocCopies tagged count added.sound
        have kept := ofNode_of_same added.sound more.same schema
          (added.bounded _ List.mem_cons_self)
        exact kept.trans (ofNode_alloc tagged unionFree sound sound_empty)
      · exact ih added.sound later

end Branch

end ProcessImage.Wire
