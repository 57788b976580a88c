import ProcessImage.Proofs.Value.Places

/-!
# The order of adoptions

It does not matter in which order places are adopted from one source, nor how often:
what comes of it is told by the set of the places.  Where one place lies above another,
the upper one brings all of the source that the lower one would bring, and a place that
cannot be adopted cannot be adopted after another one either.

An adoption changes no place that lies neither above nor below it.

Adopting a place below a field is a change within the first field of that name, and
`Value.within` is such a change.
-/

namespace ProcessImage.Value

variable {value source : Value} {name other : String}

/-! ## Changes within a field -/

/-- Fields with the first one of a name changed. -/
def changeFirst (name : String) (change : Value → Value) :
    List (String × Value) → List (String × Value)
  | [] => []
  | (first, value) :: rest =>
      if first = name then (first, change value) :: rest
      else (first, value) :: changeFirst name change rest

/-- The value with the first field of a name changed, if there is one. -/
def within (name : String) (change : Value → Value) : Value → Value
  | .struct structName fields => .struct structName (changeFirst name change fields)
  | value => value

theorem changeFirst_id (name : String) (fields : List (String × Value)) :
    changeFirst name id fields = fields := by
  induction fields with
  | nil => rfl
  | cons field rest ih => simp [changeFirst, ih]

theorem changeFirst_changeFirst (name : String) (change again : Value → Value)
    (fields : List (String × Value)) :
    changeFirst name again (changeFirst name change fields) =
      changeFirst name (again ∘ change) fields := by
  induction fields with
  | nil => rfl
  | cons field rest ih =>
      by_cases same : field.1 = name
      · simp [changeFirst, same]
      · simp [changeFirst, same, ih]

/-- Changes of fields of different names can be made in either order. -/
theorem changeFirst_comm (different : name ≠ other) (change again : Value → Value)
    (fields : List (String × Value)) :
    changeFirst other again (changeFirst name change fields) =
      changeFirst name change (changeFirst other again fields) := by
  induction fields with
  | nil => rfl
  | cons field rest ih =>
      by_cases isFirst : field.1 = name
      · simp [changeFirst, isFirst, different]
      · by_cases isSecond : field.1 = other
        · simp [changeFirst, isSecond, Ne.symm different]
        · simp [changeFirst, isFirst, isSecond, ih]

theorem lookup_changeFirst (name : String) (change : Value → Value)
    (fields : List (String × Value)) (other : String) :
    (changeFirst name change fields).lookup other =
      if other = name then (fields.lookup other).map change else fields.lookup other := by
  induction fields with
  | nil => simp [changeFirst]
  | cons field rest ih =>
      rcases field with ⟨first, value⟩
      by_cases isFirst : first = name
      · subst isFirst
        by_cases same : other = first
        · simp [changeFirst, same]
        · simp [changeFirst, List.lookup_cons, same, beq_false_of_ne same]
      · by_cases same : other = first
        · subst same
          simp [changeFirst, isFirst]
        · simpa [changeFirst, isFirst, List.lookup_cons, beq_false_of_ne same] using ih

/-- A change that can fail, and then leaves all as it was, as a change that cannot. -/
theorem getD_changeField? (name : String) (change : Value → Option Value)
    (fields : List (String × Value)) :
    (changeField? name change fields).getD fields =
      changeFirst name (fun value => (change value).getD value) fields := by
  induction fields with
  | nil => rfl
  | cons field rest ih =>
      rcases field with ⟨first, value⟩
      by_cases same : first = name
      · simp only [changeField?, changeFirst, if_pos same]
        cases change value <;> rfl
      · simp only [changeField?, changeFirst, if_neg same, ← ih]
        cases changeField? name change rest <;> rfl

@[simp]
theorem within_id (name : String) (value : Value) : value.within name id = value := by
  cases value <;> simp [within, changeFirst_id]

theorem within_within (name : String) (change again : Value → Value) (value : Value) :
    (value.within name change).within name again = value.within name (again ∘ change) := by
  cases value <;> simp [within, changeFirst_changeFirst]

theorem within_comm (different : name ≠ other) (change again : Value → Value) (value : Value) :
    (value.within name change).within other again =
      (value.within other again).within name change := by
  cases value <;> simp [within, changeFirst_comm different]

theorem field?_within (name : String) (change : Value → Value) (value : Value) (other : String) :
    (value.within name change).field? other =
      if other = name then (value.field? other).map change else value.field? other := by
  cases value with
  | struct structName fields => simpa [within, field?, fields?] using lookup_changeFirst ..
  | _ => simp [within, field?, fields?]

/-! ## Adoptions as changes within fields -/

/-- A place below a field is adopted within the first field of that name. -/
theorem adoptAt_cons (value source : Value) (name : String) (place : Path) :
    value.adoptAt source (name :: place) =
      match source.field? name with
      | none => value
      | some new => value.within name (·.adoptAt new place) := by
  unfold adoptAt
  rw [get?_cons]
  cases source.field? name with
  | none => rfl
  | some new =>
      simp only [Option.bind_some]
      cases new.get? place with
      | none => exact (within_id name value).symm
      | some part =>
          cases value with
          | struct structName fields =>
              simp only [Option.bind_some, set?, within, ← getD_changeField?]
              cases changeField? name (set? · part place) fields <;> rfl
          | _ => rfl

/-- Adoptions from one source can be made in either order. -/
theorem adoptAt_comm (value source : Value) (first second : Path) :
    (value.adoptAt source first).adoptAt source second =
      (value.adoptAt source second).adoptAt source first := by
  induction first generalizing value source second with
  | nil => rw [adoptAt_nil, adoptAt_nil, adoptAt_same]
  | cons name place ih =>
      cases second with
      | nil => rw [adoptAt_nil, adoptAt_nil, adoptAt_same]
      | cons other below =>
          simp only [adoptAt_cons]
          cases isNew : source.field? name with
          | none => rfl
          | some new =>
              cases isOther : source.field? other with
              | none => rfl
              | some newOther =>
                  by_cases same : name = other
                  · subst same
                    obtain rfl := Option.some.inj (isNew.symm.trans isOther)
                    simp only [within_within]
                    exact congrArg (value.within name) (funext fun part => ih part new below)
                  · exact within_comm same ..

/-- A place that was adopted is not changed when it is adopted once more. -/
theorem adoptAt_adoptAt (value source : Value) (place : Path) :
    (value.adoptAt source place).adoptAt source place = value.adoptAt source place := by
  induction place generalizing value source with
  | nil => rfl
  | cons name place ih =>
      simp only [adoptAt_cons]
      cases source.field? name with
      | none => rfl
      | some new =>
          simp only [within_within]
          exact congrArg (value.within name) (funext fun part => ih part new)

/-- An adoption changes no place that is neither above nor below. -/
theorem get?_adoptAt_of_apart {place elsewhere : Path} (notBelow : ¬ place <+: elsewhere)
    (notAbove : ¬ elsewhere <+: place) :
    (value.adoptAt source place).get? elsewhere = value.get? elsewhere := by
  induction place generalizing value source elsewhere with
  | nil => exact absurd List.nil_prefix notBelow
  | cons name place ih =>
      cases elsewhere with
      | nil => exact absurd List.nil_prefix notAbove
      | cons other below =>
          rw [adoptAt_cons]
          cases source.field? name with
          | none => rfl
          | some new =>
              rw [get?_cons, get?_cons, field?_within]
              by_cases same : other = name
              · subst same
                rw [List.cons_prefix_cons] at notBelow notAbove
                rw [if_pos rfl]
                cases value.field? other with
                | none => rfl
                | some part =>
                    exact ih (fun longer => notBelow ⟨rfl, longer⟩)
                      (fun longer => notAbove ⟨rfl, longer⟩)
              · rw [if_neg same]

/-! ## Adoptions of several places -/

/-- A place can be adopted before or after others. -/
theorem adoptAt_adopt (value source : Value) (places : List Path) (place : Path) :
    (value.adopt source places).adoptAt source place =
      (value.adoptAt source place).adopt source places := by
  induction places generalizing value with
  | nil => rfl
  | cons first rest ih => rw [adopt_cons, adopt_cons, ih, adoptAt_comm]

theorem adopt_comm (value source : Value) (first second : List Path) :
    (value.adopt source first).adopt source second =
      (value.adopt source second).adopt source first := by
  induction second generalizing value with
  | nil => rfl
  | cons place rest ih => rw [adopt_cons, adopt_cons, adoptAt_adopt, ih]

/-- A place among those that were adopted is not changed when it is adopted once more. -/
theorem adoptAt_adopt_of_mem {places : List Path} {place : Path} (inside : place ∈ places) :
    (value.adopt source places).adoptAt source place = value.adopt source places := by
  induction places generalizing value with
  | nil => cases inside
  | cons first rest ih =>
      rcases List.mem_cons.mp inside with rfl | later
      · rw [adopt_cons, adoptAt_adopt, adoptAt_adoptAt]
      · exact ih later

theorem adopt_adopt_of_subset {first second : List Path} (inside : ∀ place ∈ second, place ∈ first) :
    (value.adopt source first).adopt source second = value.adopt source first := by
  induction second with
  | nil => rfl
  | cons place rest ih =>
      rw [List.forall_mem_cons] at inside
      rw [adopt_cons, adoptAt_adopt_of_mem inside.1, ih inside.2]

/-- Only the set of the places counts. -/
theorem adopt_congr {first second : List Path}
    (same : ∀ place, place ∈ first ↔ place ∈ second) :
    value.adopt source first = value.adopt source second := by
  calc
    value.adopt source first = (value.adopt source first).adopt source second :=
      (adopt_adopt_of_subset fun place => (same place).mpr).symm
    _ = (value.adopt source second).adopt source first := adopt_comm ..
    _ = value.adopt source second := adopt_adopt_of_subset fun place => (same place).mp

theorem get?_adopt_of_apart {places : List Path} {elsewhere : Path}
    (apart : ∀ place ∈ places, ¬ place <+: elsewhere ∧ ¬ elsewhere <+: place) :
    (value.adopt source places).get? elsewhere = value.get? elsewhere := by
  induction places generalizing value with
  | nil => rfl
  | cons place rest ih =>
      rw [List.forall_mem_cons] at apart
      rw [adopt_cons, ih apart.2, get?_adoptAt_of_apart apart.1.1 apart.1.2]

/-! ## Adoptions that succeed -/

/-- Any value can be put at a place that exists. -/
theorem exists_set?_of_hasPath {place : Path} (present : value.hasPath place = true)
    (new : Value) : ∃ changed, value.set? new place = some changed := by
  induction place generalizing value with
  | nil => exact ⟨new, rfl⟩
  | cons name place ih =>
      obtain ⟨part, isPart, below⟩ := (hasPath_cons ..).mp present
      obtain ⟨structName, before, after, rfl, fresh⟩ := exists_struct_of_field? isPart
      obtain ⟨changed, set⟩ := ih below
      exact ⟨_, by rw [set?, changeField?_middle fresh, set]; rfl⟩

theorem hasPath_adopt {places : List Path} (old : ∀ place ∈ places, value.hasPath place = true)
    (found : ∀ place ∈ places, source.hasPath place = true) {other : Path}
    (oldOther : value.hasPath other = true) (foundOther : source.hasPath other = true) :
    (value.adopt source places).hasPath other = true := by
  induction places generalizing value with
  | nil => exact oldOther
  | cons place rest ih =>
      rw [List.forall_mem_cons] at old found
      refine ih (fun later inside => ?_) found.2 ?_
      · exact hasPath_adoptAt old.1 found.1 (old.2 later inside) (found.2 later inside)
      · exact hasPath_adoptAt old.1 found.1 oldOther foundOther

end ProcessImage.Value
