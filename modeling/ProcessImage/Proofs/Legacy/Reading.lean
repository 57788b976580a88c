import ProcessImage.Proofs.Legacy.RoundTrip

/-!
# What records are read as

Neither the tag of a record nor the number of its slots is trusted: the type says how
to read its bytes, whatever they are.  Reading never fails, and its result is no value
or a value of the type, made of data of the one kind that the type carries.
-/

namespace ProcessImage

theorem Scalar.kind_of_ofInt? {kind : IntegerKind} {number : Int} {datum : Scalar}
    (made : ofInt? kind number = some datum) : datum.kind = .integer kind := by
  unfold ofInt? at made
  split at made
  next => exact (Option.some.inj made) ▸ rfl
  next => cases made

namespace Legacy

/-- A slot of the tag of a kind holds data of no other kind. -/
theorem kind_of_readSlot {kind : Kind} {slot : List UInt8} {datum : Scalar}
    (read : readSlot (.ofKind kind) kind slot = some datum) : datum.kind = kind := by
  have chosen (number : Nat)
      (converted : (Scalar.ofInt? .uint16 number).bind (·.convert? kind) = some datum) :
      datum.kind = kind := by
    obtain ⟨_, _, converted⟩ := Option.bind_eq_some_iff.mp converted
    exact Scalar.kind_of_convert? converted
  cases kind with
  | bool => exact (Option.some.inj read) ▸ rfl
  | float32 => exact (Option.some.inj read) ▸ rfl
  | float64 => exact (Option.some.inj read) ▸ rfl
  | string => exact Scalar.kind_of_convert? read
  | integer kind =>
      cases kind with
      | char8 | int8 | int16 | int32 => exact Scalar.kind_of_ofInt? read
      | uint8 | uint16 | uint32 => exact chosen _ read
      | int64 | uint64 => exact Scalar.kind_of_convert? read

/-- A value of a type that records carry: its elements are data of the kind of the
type. -/
structure IsOf (type : DataType) (value : Value) : Prop where
  typeOf : value.typeOf = type
  elements : ∃ kind, type.elementKind? = some kind ∧
    ∀ elements, value.elements? = some elements →
      ∀ element ∈ elements, ∃ datum, element = .scalar datum ∧ datum.kind = kind

namespace Layout

variable {type : DataType} {kind : Kind}

theorem kind_of_readData {layout : Layout} {bytes : List UInt8} {count : Nat} {data : List Scalar}
    (read : layout.readData kind bytes count = some data) : ∀ datum ∈ data, datum.kind = kind := by
  intro datum inside
  obtain ⟨slot, _, isDatum⟩ := (Value.exists_source_of_mapM read).2 datum inside
  exact kind_of_readSlot isDatum

/-- Data of the kind of a type make a value of the type, if there are any that it
needs. -/
theorem isOf_assemble (carries : type.elementKind? = some kind) {data : List Scalar}
    (kinds : ∀ datum ∈ data, datum.kind = kind) :
    assemble type data = .empty ∨ IsOf type (assemble type data) := by
  cases type with
  | empty => cases carries
  | struct name fields => cases carries
  | scalar other =>
      cases data with
      | nil => exact .inl rfl
      | cons datum rest =>
          obtain rfl : other = kind := Option.some.inj carries
          have isKind := kinds datum List.mem_cons_self
          exact .inr ⟨congrArg DataType.scalar isKind, other, rfl, nofun⟩
  | array name element length =>
      refine .inr ⟨rfl, kind, carries, ?_⟩
      rintro _ ⟨⟩ element inside
      obtain ⟨datum, isDatum, rfl⟩ := List.mem_map.mp inside
      exact ⟨datum, rfl, kinds datum isDatum⟩

/-- Any bytes are read as no value or as a value of the type. -/
theorem exists_read (layout : Layout) {tag : Tag} (tagged : tagOfType type = .ok tag) (count : Nat)
    (bytes : Option (List UInt8)) :
    ∃ value, layout.read type count bytes = .ok value ∧ (value = .empty ∨ IsOf type value) := by
  obtain ⟨kind, carries, _⟩ := tagOfType_eq_ok_iff.mp tagged
  cases bytes with
  | none => exact ⟨.empty, rfl, .inl rfl⟩
  | some bytes =>
      simp only [read, carriedKind, carries, Outcome.ok_bind]
      split
      next => exact ⟨.empty, rfl, .inl rfl⟩
      next =>
        split
        next data isData => exact ⟨_, rfl, isOf_assemble carries (kind_of_readData isData)⟩
        next => exact ⟨.empty, rfl, .inl rfl⟩

/-! ## Notes -/

/-- What is noted while a record is read is no error. -/
theorem level_of_mem_readNotes {layout : Layout} {count : Nat} {bytes : Option (List UInt8)}
    {note : Note} (inside : note ∈ layout.readNotes type count bytes) : note.level ≠ .error := by
  unfold readNotes at inside
  grind [Note.debug]

/-- What is noted while a record is written is no error. -/
theorem level_of_mem_writeNotes {layout : Layout} {value : Value} {note : Note}
    (inside : note ∈ layout.writeNotes type value) : note.level ≠ .error := by
  unfold writeNotes at inside
  grind [Note.warn]

end Layout

end Legacy

end ProcessImage
