import ProcessImage.Value.Merge

/-!
# Adopting fields

A path of names without points is written without loss as a text, name by name.

Adopting places below one field of a structure changes that field alone, and
changes it as adopting those places in the value of the field does.
-/

namespace ProcessImage

/-! ## Names in the texts of paths -/

namespace Path

/-- A name that a path can lead through when it is written as a text. -/
def IsPlain (name : String) : Prop :=
  name ≠ "" ∧ '.' ∉ name.toList

theorem pieces_ne_nil (characters : List Char) : pieces characters ≠ [] := by
  cases characters with
  | nil => simp [pieces]
  | cons character rest =>
      unfold pieces
      split
      · simp
      · split <;> simp

/-- A point separates the pieces before it from those after it. -/
theorem pieces_append_point (first second : List Char) :
    pieces (first ++ '.' :: second) = pieces first ++ pieces second := by
  induction first with
  | nil => simp [pieces]
  | cons character rest ih =>
      rw [List.cons_append, pieces, ih]
      by_cases isPoint : character = '.'
      · simp [pieces, isPoint]
      · cases firstPieces : pieces rest with
        | nil => exact absurd firstPieces (pieces_ne_nil rest)
        | cons piece others => simp [pieces, isPoint, firstPieces]

theorem pieces_of_not_mem {characters : List Char} (noPoint : '.' ∉ characters) :
    pieces characters = [characters] := by
  induction characters with
  | nil => rfl
  | cons character rest ih =>
      rw [List.mem_cons, not_or] at noPoint
      simp [pieces, Ne.symm noPoint.1, ih noPoint.2]

/-- A plain name is a path of itself. -/
theorem ofText_of_isPlain {name : String} (plain : IsPlain name) : ofText name = [name] := by
  simp [ofText, plain.1, pieces_of_not_mem plain.2]

/-- A plain name after a point is a further name of the path. -/
theorem ofText_append_point {text name : String} (present : text ≠ "") (plain : IsPlain name) :
    ofText (text ++ "." ++ name) = ofText text ++ [name] := by
  have characters : (text ++ "." ++ name).toList = text.toList ++ '.' :: name.toList := by simp
  have other : text ++ "." ++ name ≠ "" := by
    intro same
    have none := congrArg String.toList same
    rw [characters] at none
    simp at none
  simp only [ofText, if_neg other, if_neg present, characters, pieces_append_point,
    pieces_of_not_mem plain.2]
  simp

end Path

namespace Value

/-! ## One field among others -/

variable {before after : List (String × Value)} {name : String} {value : Value}

theorem lookup_middle (fresh : name ∉ before.map (·.1)) :
    (before ++ (name, value) :: after).lookup name = some value := by
  induction before with
  | nil => simp
  | cons field rest ih =>
      rcases field with ⟨first, other⟩
      rw [List.map_cons, List.mem_cons, not_or] at fresh
      simp [List.lookup_cons, beq_eq_false_iff_ne.mpr fresh.1, ih fresh.2]

theorem changeField?_middle (fresh : name ∉ before.map (·.1)) (change : Value → Option Value) :
    changeField? name change (before ++ (name, value) :: after) =
      (change value).map fun changed => before ++ (name, changed) :: after := by
  induction before with
  | nil => simp [changeField?]
  | cons field rest ih =>
      rw [List.map_cons, List.mem_cons, not_or] at fresh
      simp [changeField?, Ne.symm fresh.1, ih fresh.2, Option.map_map, Function.comp_def]

/-! ## Adoption -/

/-- Adopting the place at the top adopts all. -/
@[simp]
theorem adoptAt_nil (value source : Value) : value.adoptAt source [] = source :=
  rfl

@[simp]
theorem adopt_nil (value source : Value) : value.adopt source [] = value :=
  rfl

@[simp]
theorem adopt_cons (value source : Value) (place : Path) (places : List Path) :
    value.adopt source (place :: places) = (value.adoptAt source place).adopt source places :=
  rfl

theorem adopt_append (value source : Value) (first second : List Path) :
    value.adopt source (first ++ second) = (value.adopt source first).adopt source second :=
  List.foldl_append

/-- A place below a field is adopted within the value of that field. -/
theorem adoptAt_field (fresh : name ∉ before.map (·.1)) {structName : Option String}
    {source new : Value} (found : source.field? name = some new) (place : Path) :
    (Value.struct structName (before ++ (name, value) :: after)).adoptAt source (name :: place) =
      .struct structName (before ++ (name, value.adoptAt new place) :: after) := by
  unfold adoptAt
  simp only [get?, found, Option.bind_some]
  cases new.get? place with
  | none => rfl
  | some part =>
      simp only [Option.bind_some, set?, changeField?_middle fresh]
      cases value.set? part place <;> rfl

/-- Places below a field are adopted within the value of that field. -/
theorem adopt_field (fresh : name ∉ before.map (·.1)) {structName : Option String}
    {source new : Value} (found : source.field? name = some new) (places : List Path) :
    (Value.struct structName (before ++ (name, value) :: after)).adopt source
        (places.map (name :: ·)) =
      .struct structName (before ++ (name, value.adopt new places) :: after) := by
  induction places generalizing value with
  | nil => rfl
  | cons place rest ih =>
      simp only [adopt, List.map_cons, List.foldl_cons, adoptAt_field fresh found]
      exact ih

end Value

end ProcessImage
