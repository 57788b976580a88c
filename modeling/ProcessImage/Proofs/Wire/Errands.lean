import ProcessImage.Proofs.Wire.Edit

/-!
# Writing without recursion

A value is written with a stack of errands, each a value and the node that it goes
to.  An errand for a scalar or an array of scalars is done at once; one for a
structure or an array of structures puts errands for the parts onto the stack, the
first part on top.  The first errand that fails ends the writing.

The stack empties, and what it leaves is what `Tree.write` says: the parts of a
value are done before whatever was on the stack below it.
-/

namespace ProcessImage.Wire

/-- A value that is still to be written, and the node that it goes to. -/
structure Errand where
  value : Value
  id : Nat

/-- Errands for values and the nodes that they go to. -/
def Errand.forEach (ids : List Nat) (values : List Value) : List Errand :=
  List.zipWith (fun id value => ⟨value, id⟩) ids values

namespace Tree

/-- The tree after an errand that is done at once, and no errands that follow. -/
def settleErrand (tree : Tree) (attempt : Except Fault Tree) : Tree × Except Fault (List Errand) :=
  ((tree.settle attempt).1, (tree.settle attempt).2.map fun _ => [])

/-- The tree after one errand, and the errands that follow from it. -/
def perform (tree : Tree) (errand : Errand) : Tree × Except Fault (List Errand) :=
  match tree.node? errand.id with
  | none => (tree, .error (.noNode errand.id))
  | some node =>
      match errand.value, node.schema with
      | .scalar datum, .scalar tag => tree.settleErrand (tree.assignScalar errand.id tag datum)
      | .array name element length elements, .scalarArray tag _ _ =>
          tree.settleErrand (tree.assignScalars errand.id tag (.array name element length elements)
            element elements)
      | .struct _ fields, .struct .. =>
          let members := tree.members errand.id
          if members.map (·.1) = fields.map (·.1) then
            (tree, .ok (Errand.forEach (members.map (·.2)) (fields.map (·.2))))
          else
            (tree, .error (.mismatch (.members (members.map (·.1))) (.fields (fields.map (·.1)))))
      | .array _ _ _ elements, .structArray _ _ _ fixed =>
          match tree.fitLength errand.id fixed elements.length with
          | .ok (resized, children) => (resized, .ok (Errand.forEach children elements))
          | .error fault => (tree, .error fault)
      | value, schema => (tree, .error (.mismatch (.tag schema.tag) (.type value.typeOf)))

/-- What a stack of errands leaves, if it empties or fails within a number of
visits. -/
def performed (tree : Tree) : Nat → List Errand → Option (Tree × Except Fault Unit)
  | _, [] => some (tree, .ok ())
  | 0, _ :: _ => none
  | visits + 1, errand :: rest =>
      match tree.perform errand with
      | (after, .ok following) => after.performed visits (following ++ rest)
      | (after, .error fault) => some (after, .error fault)

/-- What writing a value into the whole tree leaves, if it ends within a number of
visits. -/
def written (tree : Tree) (visits : Nat) (value : Value) : Option (Tree × Except Fault Unit) :=
  match tree.root with
  | some root => tree.performed visits [⟨value, root⟩]
  | none =>
      some (tree, if value.isEmpty then .ok () else .error (.mismatch (.type value.typeOf) .emptyTree))

/-- Errands have an outcome: a number of visits is enough to do them, whatever is on
the stack below them, or to fail. -/
def Achieves (tree : Tree) (errands : List Errand) (outcome : Tree × Except Fault Unit) : Prop :=
  ∃ visits, ∀ more rest, tree.performed (visits + more) (errands ++ rest) =
    match outcome with
    | (after, .ok ()) => after.performed more rest
    | (after, .error fault) => some (after, .error fault)

namespace Achieves

variable {tree next after : Tree} {errand : Errand} {errands others : List Errand} {fault : Fault}
  {outcome : Tree × Except Fault Unit}

theorem nil (tree : Tree) : tree.Achieves [] (tree, .ok ()) :=
  ⟨0, fun more rest => by simp⟩

/-- Errands that fail are not followed by others. -/
theorem failed (first : tree.Achieves errands (after, .error fault)) (others : List Errand) :
    tree.Achieves (errands ++ others) (after, .error fault) := by
  obtain ⟨visits, done⟩ := first
  exact ⟨visits, fun more rest => by rw [List.append_assoc, done]⟩

theorem append (first : tree.Achieves errands (next, .ok ()))
    (later : next.Achieves others outcome) : tree.Achieves (errands ++ others) outcome := by
  obtain ⟨visits, done⟩ := first
  obtain ⟨visits', done'⟩ := later
  refine ⟨visits + visits', fun more rest => ?_⟩
  rw [List.append_assoc, Nat.add_assoc]
  exact (done _ _).trans (done' more rest)

/-- An errand achieves what those that follow from it achieve. -/
theorem of_perform (performs : tree.perform errand = (next, .ok errands))
    (later : next.Achieves errands outcome) : tree.Achieves [errand] outcome := by
  obtain ⟨visits, done⟩ := later
  refine ⟨visits + 1, fun more rest => ?_⟩
  rw [Nat.add_right_comm, List.singleton_append, performed, performs]
  exact done more rest

theorem of_perform_error (fails : tree.perform errand = (after, .error fault)) :
    tree.Achieves [errand] (after, .error fault) := by
  refine ⟨1, fun more rest => ?_⟩
  rw [Nat.add_comm, List.singleton_append, performed, fails]

theorem of_absent {value : Value} {id : Nat} (absent : tree.node? id = none) :
    tree.Achieves [⟨value, id⟩] (tree, .error (.noNode id)) :=
  of_perform_error (by simp [perform, absent])

theorem of_settleErrand {attempt : Except Fault Tree}
    (performs : tree.perform errand = tree.settleErrand attempt) :
    tree.Achieves [errand] (tree.settle attempt) := by
  cases attempt with
  | ok after => exact of_perform performs (nil after)
  | error fault => exact of_perform_error performs

end Achieves

/-- Errands for values that each achieve what writing them does. -/
theorem achieves_assignElements {values : List Value}
    (each : ∀ value ∈ values, ∀ (tree : Tree) id, tree.Achieves [⟨value, id⟩] (tree.assign id value))
    (tree : Tree) (ids : List Nat) :
    tree.Achieves (Errand.forEach ids values) (tree.assignElements ids values) := by
  induction values generalizing tree ids with
  | nil => cases ids <;> exact Achieves.nil tree
  | cons value rest ih =>
      cases ids with
      | nil => exact Achieves.nil tree
      | cons id others =>
          have first := each value List.mem_cons_self tree id
          have later := ih fun value inside => each value (List.mem_cons_of_mem _ inside)
          unfold assignElements
          rcases written : tree.assign id value with ⟨next, _ | _⟩ <;> rw [written] at first
          · exact first.failed (Errand.forEach others rest)
          · exact first.append (later next others)

/-- An errand achieves what writing its value does. -/
theorem achieves_assign (value : Value) (tree : Tree) (id : Nat) :
    tree.Achieves [⟨value, id⟩] (tree.assign id value) := by
  induction value generalizing tree id with
  | empty =>
      cases found : tree.node? id with
      | none => simpa [assign, found] using Achieves.of_absent found
      | some node =>
          simp only [assign, found]
          exact Achieves.of_perform_error (by simp [perform, found, Value.typeOf])
  | scalar datum =>
      cases found : tree.node? id with
      | none => simpa [assign, found] using Achieves.of_absent found
      | some node =>
          rcases node with ⟨schema, content, changed⟩
          cases schema with
          | scalar tag =>
              simp only [assign, found]
              exact Achieves.of_settleErrand (by simp [perform, found])
          | _ =>
              simp only [assign, found]
              exact Achieves.of_perform_error (by simp [perform, found])
  | struct name fields each =>
      cases found : tree.node? id with
      | none => simpa [assign, found] using Achieves.of_absent found
      | some node =>
          rcases node with ⟨schema, content, changed⟩
          cases schema with
          | struct structId members =>
              simp only [assign, found]
              by_cases names : (tree.members id).map (·.1) = fields.map (·.1)
              · rw [if_pos names, assignFields_eq_assignElements]
                have performs : tree.perform ⟨.struct name fields, id⟩ = (tree, .ok
                    (Errand.forEach ((tree.members id).map (·.2)) (fields.map (·.2)))) := by
                  simp [perform, found, names]
                apply Achieves.of_perform performs
                apply achieves_assignElements
                intro value inside
                obtain ⟨field, isField, rfl⟩ := List.mem_map.mp inside
                exact each field isField
              · rw [if_neg names]
                exact Achieves.of_perform_error (by simp [perform, found, names])
          | _ =>
              simp only [assign, found]
              exact Achieves.of_perform_error (by simp [perform, found])
  | array name element length elements each =>
      cases found : tree.node? id with
      | none => simpa [assign, found] using Achieves.of_absent found
      | some node =>
          rcases node with ⟨schema, content, changed⟩
          cases schema with
          | scalarArray tag arrayName fixed =>
              simp only [assign, found]
              exact Achieves.of_settleErrand (by simp [perform, found])
          | structArray structId members arrayName fixed =>
              simp only [assign, found]
              cases fitted : tree.fitLength id fixed elements.length with
              | error fault => exact Achieves.of_perform_error (by simp [perform, found, fitted])
              | ok made =>
                  have performs : tree.perform ⟨.array name element length elements, id⟩ =
                      (made.1, .ok (Errand.forEach made.2 elements)) := by
                    simp [perform, found, fitted]
                  exact Achieves.of_perform performs (achieves_assignElements each made.1 made.2)
          | _ =>
              simp only [assign, found]
              exact Achieves.of_perform_error (by simp [perform, found, Value.typeOf])

/-- Writing with a stack of errands ends, and leaves what `write` says. -/
theorem written_eq_write (tree : Tree) (value : Value) :
    ∃ enough, ∀ visits ≥ enough, tree.written visits value = some (tree.write value) := by
  unfold written write
  cases tree.root with
  | none => exact ⟨0, fun _ _ => rfl⟩
  | some root =>
      obtain ⟨enough, done⟩ := achieves_assign value tree root
      refine ⟨enough, fun visits sufficient => ?_⟩
      obtain ⟨more, rfl⟩ := Nat.exists_eq_add_of_le sufficient
      have whole := done more []
      rw [List.append_nil] at whole
      dsimp only
      rw [whole]
      rcases tree.assign root value with ⟨after, _ | _⟩
      · rfl
      · cases more <;> rfl

end Tree

end ProcessImage.Wire
