import Mathlib.Data.List.Forall2
import ProcessImage.Proofs.Assembly.InPlace
import ProcessImage.Proofs.Value.Coercion

/-!
# Open frames

The actions of an assembly are tried one after the other on one stack, and one that
fails does not end the run.  The open structures and arrays on the stack are typed all
the same: the names of a structure are distinct, and the elements of an array have the
element type of the array, which is the hint where one was given.

`Kept` is the invariant.  It says what a stack has kept of the actions that were
accepted: one action keeps it, and actions that are refused change neither side.
-/

namespace ProcessImage.Assembly

/-! ## Trying actions -/

/-- The stack after actions were tried on it one after the other. -/
def tried : List Action → Assembly → Assembly
  | [], parts => parts
  | action :: rest, parts => tried rest (action.program.left parts)

/-- The actions that do not fail when they are tried one after the other. -/
def succeeding : List Action → Assembly → List Action
  | [], _ => []
  | action :: rest, parts =>
      match action.program parts with
      | .ok _ next => action :: succeeding rest next
      | .error _ after => succeeding rest after

/-- Trying actions that are all accepted runs them. -/
theorem tried_of_run {actions : List Action} {parts next : Assembly}
    (ran : run actions parts = .ok next) : tried actions parts = next := by
  induction actions generalizing parts with
  | nil =>
      cases ran
      rfl
  | cons action rest ih =>
      obtain ⟨middle, applied, ran⟩ := Outcome.bind_eq_ok_iff.mp ran
      have worked := Action.program_eq_ok_iff.mpr applied
      rw [tried, StackProgram.left, worked]
      exact ih ran

/-! ## Typed frames -/

/-- A part is typed: an open structure has distinct names, and an open array with
elements has the element type that each of them has. -/
def Part.Typed : Part → Prop
  | .struct _ fields => (fields.map (·.1)).Nodup
  | .array _ type _ elements => ∀ value ∈ elements, type = some value.typeOf
  | _ => True

/-- The element type of an open array, as far as it is known. -/
def Part.elementType? : Part → Option (Option DataType)
  | .array _ type _ _ => some type
  | _ => none

/-- The hints of the arrays that are still open, the innermost first, after one more
action. -/
def Action.hints : Action → List (Option DataType) → List (Option DataType)
  | .startArray _ hint _, hints => hint :: hints
  | .endArray, hints => hints.tail
  | _, hints => hints

/-- The hints of the arrays that actions leave open, the innermost first. -/
def openHints (actions : List Action) : List (Option DataType) :=
  actions.foldl (fun hints action => action.hints hints) []

/-- A known element type is the hint, if one was given. -/
def KeepsHint (hint type : Option DataType) : Prop :=
  ∀ given, hint = some given → type = some given

/-- What a stack has kept of the actions that made it. -/
structure Kept (actions : List Action) (parts : Assembly) : Prop where
  ran : run actions [] = .ok parts
  typed : ∀ part ∈ parts, part.Typed
  hinted : List.Forall₂ KeepsHint (openHints actions) (parts.filterMap Part.elementType?)

theorem openHints_concat (actions : List Action) (action : Action) :
    openHints (actions ++ [action]) = action.hints (openHints actions) := by
  simp [openHints]

/-- A fitted element has the element type: it had it, or was converted to it. -/
theorem typeOf_of_fitElement {element : DataType} {value fitted : Value}
    (fits : fitElement element value = .ok fitted) : fitted.typeOf = element := by
  unfold fitElement at fits
  split at fits
  case isTrue same =>
    cases fits
    exact same
  case isFalse =>
    cases converted : value.coerce? element with
    | none => simp [converted] at fits
    | some item =>
        rw [converted] at fits
        cases fits
        exact (Value.typed_of_coerce? converted).1

/-- One more element of the known type leaves an array typed, and the first element
makes its own type the known one. -/
theorem typed_concat {element : Option DataType} {elements : List Value} {value fitted : Value}
    (typed : ∀ earlier ∈ elements, element = some earlier.typeOf)
    (fits : fitElement (element.getD value.typeOf) value = .ok fitted) :
    ∀ item ∈ elements ++ [fitted], some (element.getD value.typeOf) = some item.typeOf := by
  intro item member
  rcases List.mem_append.mp member with earlier | last
  · rw [typed item earlier, Option.getD_some]
  · obtain rfl := List.mem_singleton.mp last
    rw [typeOf_of_fitElement fits]

/-- What is made of typed parts is typed. -/
theorem Action.Makes.typed {action : Action} {parts next : Assembly}
    (made : action.Makes parts next) (typed : ∀ part ∈ parts, part.Typed) :
    ∀ part ∈ next, part.Typed := by
  cases made with
  | value | startField | startElement =>
      exact List.forall_mem_cons.mpr ⟨trivial, typed⟩
  | startStruct =>
      exact List.forall_mem_cons.mpr ⟨List.nodup_nil, typed⟩
  | startArray =>
      exact List.forall_mem_cons.mpr ⟨fun _ none => absurd none List.not_mem_nil, typed⟩
  | endStruct | endArray =>
      exact List.forall_mem_cons.mpr ⟨trivial, (List.forall_mem_cons.mp typed).2⟩
  | endField new =>
      obtain ⟨-, -, distinct, below⟩ :
          _ ∧ _ ∧ Part.Typed (.struct _ _) ∧ _ := by simpa using typed
      exact List.forall_mem_cons.mpr ⟨nodup_names_concat distinct new _, below⟩
  | endElement fits =>
      obtain ⟨-, -, each, below⟩ :
          _ ∧ _ ∧ Part.Typed (.array _ _ _ _) ∧ _ := by simpa using typed
      exact List.forall_mem_cons.mpr ⟨typed_concat each fits, below⟩

/-- An action keeps the hints of the arrays that stay open. -/
theorem Action.Makes.hinted {action : Action} {parts next : Assembly}
    {hints : List (Option DataType)} (made : action.Makes parts next)
    (hinted : List.Forall₂ KeepsHint hints (parts.filterMap Part.elementType?)) :
    List.Forall₂ KeepsHint (action.hints hints) (next.filterMap Part.elementType?) := by
  cases made with
  | value | startStruct | startField | startElement | endStruct | endField => exact hinted
  | startArray => exact .cons (fun _ given => given) hinted
  | endArray =>
      cases hinted with
      | cons _ below => exact below
  | endElement =>
      cases hinted with
      | cons keeps below =>
          refine .cons (fun given isGiven => ?_) below
          rw [keeps given isGiven, Option.getD_some]

namespace Kept

theorem nil : Kept [] [] :=
  ⟨rfl, by simp, .nil⟩

/-- An accepted action keeps what there is. -/
theorem apply {actions : List Action} {parts next : Assembly} {action : Action}
    (kept : Kept actions parts) (applied : action.apply parts = .ok next) :
    Kept (actions ++ [action]) next where
  ran := by
    rw [run_append, kept.ran]
    simp [applied]
  typed := (Action.makes_of_apply applied).typed kept.typed
  hinted := by
    rw [openHints_concat]
    exact (Action.makes_of_apply applied).hinted kept.hinted

/-- Trying actions keeps what there is, by induction on them: an accepted one is kept,
and one that fails leaves the stack. -/
theorem tried {earlier : List Action} {parts : Assembly} (kept : Kept earlier parts)
    (actions : List Action) :
    Kept (earlier ++ succeeding actions parts) (Assembly.tried actions parts) := by
  induction actions generalizing earlier parts with
  | nil => simpa [succeeding, Assembly.tried] using kept
  | cons action rest ih =>
      rw [succeeding, Assembly.tried, StackProgram.left]
      cases worked : action.program parts with
      | ok done next =>
          simpa using ih (kept.apply (Action.program_eq_ok_iff.mp worked))
      | error complaint after =>
          obtain ⟨_, _, _, rfl⟩ := Action.program_eq_error_iff.mp worked
          exact ih kept

/-- A structure that is closed has distinct names. -/
theorem endStruct {actions : List Action} {parts next : Assembly} (kept : Kept actions parts)
    (closed : Action.endStruct.apply parts = .ok next) :
    ∃ name fields rest, next = .value (.struct name fields) :: rest ∧
      (fields.map (·.1)).Nodup := by
  cases Action.makes_of_apply closed with
  | endStruct => exact ⟨_, _, _, rfl, kept.typed _ List.mem_cons_self⟩

/-- The elements of an array that is closed have its element type. -/
theorem endArray {actions : List Action} {parts next : Assembly} (kept : Kept actions parts)
    (closed : Action.endArray.apply parts = .ok next) :
    ∃ name element length elements rest,
      next = .value (.array name element length elements) :: rest ∧
        ∀ value ∈ elements, value.typeOf = element := by
  cases Action.makes_of_apply closed with
  | @endArray name type length elements rest =>
      refine ⟨name, type.getD .empty, length, elements, rest, rfl, fun value member => ?_⟩
      have typed : Part.Typed (.array name type length elements) :=
        kept.typed _ List.mem_cons_self
      rw [typed value member, Option.getD_some]

end Kept

/-- What is true of a stack on which actions were tried. -/
structure Orderly (actions : List Action) (parts : Assembly) : Prop where
  /-- A further action that fails leaves the stack as it is, and does so because it is
  refused: no part that was seen is missing afterwards. -/
  unchanged (action : Action) (complaint : Complaint) (after : Assembly) :
    action.program parts = .error complaint after →
      after = parts ∧ ∃ fault, complaint = .refused fault ∧ action.apply parts = .error fault
  /-- Without the actions that failed nothing fails, and the stack is the same. -/
  ran : run (succeeding actions []) [] = .ok parts
  /-- Without the actions that failed the run finishes with the same outcome. -/
  finished : finish (tried (succeeding actions []) []) = finish parts
  /-- Open structures have distinct names, and open arrays with elements have the type of
  each of them. -/
  typed : ∀ part ∈ parts, part.Typed
  /-- An open array for which a hint was given has that element type. -/
  hinted : List.Forall₂ KeepsHint (openHints (succeeding actions []))
    (parts.filterMap Part.elementType?)
  /-- A structure that is closed has distinct names. -/
  endStruct (next : Assembly) :
    Action.endStruct.program parts = .ok () next →
      ∃ name fields rest, next = .value (.struct name fields) :: rest ∧
        (fields.map (·.1)).Nodup
  /-- An array that is closed has elements of its element type. -/
  endArray (next : Assembly) :
    Action.endArray.program parts = .ok () next →
      ∃ name element length elements rest,
        next = .value (.array name element length elements) :: rest ∧
          ∀ value ∈ elements, value.typeOf = element

/-- Whichever actions are tried, the stack is orderly after them. -/
theorem orderly_tried (actions : List Action) : Orderly actions (tried actions []) := by
  have kept : Kept (succeeding actions []) (tried actions []) := by
    simpa using Kept.nil.tried actions
  exact {
    unchanged := fun action complaint after failed => by
      obtain ⟨fault, refused, isRefused, unchanged⟩ := Action.program_eq_error_iff.mp failed
      exact ⟨unchanged, fault, isRefused, refused⟩
    ran := kept.ran
    finished := by rw [tried_of_run kept.ran]
    typed := kept.typed
    hinted := kept.hinted
    endStruct := fun _ closed => kept.endStruct (Action.program_eq_ok_iff.mp closed)
    endArray := fun _ closed => kept.endArray (Action.program_eq_ok_iff.mp closed) }

/-- A second field of a name is refused, and stays open with its value. -/
example :
    finish (tried [.startStruct none, .startField "x", .value .empty, .endField,
      .startField "x", .value .empty, .endField] []) = .error (.stillPending 3) :=
  rfl

end ProcessImage.Assembly
