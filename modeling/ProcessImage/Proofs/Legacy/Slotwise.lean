import ProcessImage.Proofs.Legacy.Reading

/-!
# Records slot by slot

However many slots are announced and whatever bytes there are, a record is read up to its
last whole slot, and each slot on its own.  One slot that does not convert leaves no value
at all.  Otherwise an array has one element for each slot, and a scalar is the datum of the
first slot.  Bytes behind the slots that are read mean nothing.
-/

namespace ProcessImage.Legacy

/-! ## Slots by their places -/

/-- The slot at a place of a record whose slots have the given width. -/
def slotAt (width place : Nat) (bytes : List UInt8) : List UInt8 :=
  (bytes.drop (place * width)).take width

theorem slotAt_drop (width place : Nat) (bytes : List UInt8) :
    slotAt width place (bytes.drop width) = slotAt width (place + 1) bytes := by
  rw [slotAt, slotAt, List.drop_drop, Nat.add_one_mul, Nat.add_comm]

/-- The first slots are those at the first places. -/
theorem slots_eq_map (width count : Nat) (bytes : List UInt8) :
    slots width count bytes = (List.range count).map (slotAt width · bytes) := by
  induction count generalizing bytes with
  | zero => rfl
  | succ count ih =>
      have first : bytes.take width = slotAt width 0 bytes := by simp [slotAt]
      rw [slots, ih, List.range_succ_eq_map, List.map_cons, List.map_map, ← first]
      simp only [slotAt_drop, Function.comp_def]

/-- The slot at a place before the given number of slots lies within them. -/
theorem slotAt_take {width place count : Nat} (inside : place < count) (bytes : List UInt8) :
    slotAt width place (bytes.take (count * width)) = slotAt width place bytes := by
  have room : (place + 1) * width ≤ count * width := Nat.mul_le_mul_right width inside
  rw [Nat.add_one_mul] at room
  rw [slotAt, slotAt, List.drop_take, List.take_take, Nat.min_eq_left (by omega)]

/-- A slot is made of the bytes from the width times its place on. -/
theorem getElem?_slotAt {width place offset : Nat} (inside : offset < width)
    (bytes : List UInt8) :
    (slotAt width place bytes)[offset]? = bytes[place * width + offset]? := by
  rw [slotAt, List.getElem?_take_of_lt inside, List.getElem?_drop]

/-- Among as many slots as there are bytes for, each has all its bytes. -/
theorem length_slotAt {width place count : Nat} {bytes : List UInt8}
    (whole : count * width ≤ bytes.length) (inside : place < count) :
    (slotAt width place bytes).length = width := by
  have room : (place + 1) * width ≤ count * width := Nat.mul_le_mul_right width inside
  rw [Nat.add_one_mul] at room
  rw [slotAt, List.length_take, List.length_drop]
  omega

namespace Layout

variable {layout : Layout} {type : DataType} {kind : Kind} {bytes : List UInt8} {count : Nat}

/-! ## The data of a record -/

/-- There are bytes for all the slots that are read. -/
theorem readable_mul_le (layout : Layout) (tag : Tag) (bytes : List UInt8) (count : Nat) :
    layout.readable tag bytes count * layout.slotWidth tag ≤ bytes.length :=
  calc layout.readable tag bytes count * layout.slotWidth tag
      ≤ bytes.length / layout.slotWidth tag * layout.slotWidth tag :=
        Nat.mul_le_mul_right _ (Nat.min_le_right _ _)
    _ ≤ bytes.length := Nat.div_mul_le_self _ _

/-- A record has no data exactly when one of the slots that are read does not convert. -/
theorem readData_eq_none_iff :
    layout.readData kind bytes count = none ↔
      ∃ place < layout.readable (.ofKind kind) bytes count,
        readSlot (.ofKind kind) kind (slotAt (layout.slotWidth (.ofKind kind)) place bytes) =
          none := by
  simp only [readData, slots_eq_map, Value.mapM_eq_none_iff, List.mem_map, List.mem_range]
  constructor
  · rintro ⟨_, ⟨place, inside, rfl⟩, unread⟩
    exact ⟨place, inside, unread⟩
  · rintro ⟨place, inside, unread⟩
    exact ⟨_, ⟨place, inside, rfl⟩, unread⟩

/-- The data of a record stand in the order of the slots that are read, one for each. -/
theorem readData_eq_some_iff {data : List Scalar} :
    layout.readData kind bytes count = some data ↔
      (List.range (layout.readable (.ofKind kind) bytes count)).map
        (fun place => readSlot (.ofKind kind) kind
          (slotAt (layout.slotWidth (.ofKind kind)) place bytes)) = data.map some := by
  simp only [readData, slots_eq_map, Value.mapM_eq_some_iff, List.map_map, Function.comp_def]

theorem length_of_readData {data : List Scalar}
    (read : layout.readData kind bytes count = some data) :
    data.length = layout.readable (.ofKind kind) bytes count := by
  simpa using (congrArg List.length (readData_eq_some_iff.mp read)).symm

/-- Each slot that is read holds the datum of its place. -/
theorem exists_datum_of_readData {data : List Scalar}
    (read : layout.readData kind bytes count = some data) {place : Nat}
    (inside : place < layout.readable (.ofKind kind) bytes count) :
    ∃ datum, readSlot (.ofKind kind) kind
        (slotAt (layout.slotWidth (.ofKind kind)) place bytes) = some datum ∧
      data[place]? = some datum := by
  have here := congrArg (·[place]?) (readData_eq_some_iff.mp read)
  simp only [List.getElem?_map, List.getElem?_range inside, Option.map_some] at here
  obtain ⟨datum, found, same⟩ := Option.map_eq_some_iff.mp here.symm
  exact ⟨datum, same.symm, found⟩

/-- Only the slots that are read count. -/
theorem readData_congr {other : List UInt8} {otherCount : Nat}
    (sameCount : layout.readable (.ofKind kind) other otherCount =
      layout.readable (.ofKind kind) bytes count)
    (sameBytes : other.take (layout.readable (.ofKind kind) bytes count *
        layout.slotWidth (.ofKind kind)) =
      bytes.take (layout.readable (.ofKind kind) bytes count *
        layout.slotWidth (.ofKind kind))) :
    layout.readData kind other otherCount = layout.readData kind bytes count := by
  have sameSlots : slots (layout.slotWidth (.ofKind kind))
      (layout.readable (.ofKind kind) bytes count) other =
        slots (layout.slotWidth (.ofKind kind)) (layout.readable (.ofKind kind) bytes count)
          bytes := by
    rw [slots_eq_map, slots_eq_map]
    refine List.map_congr_left fun place inside => ?_
    have before := List.mem_range.mp inside
    rw [← slotAt_take before other, sameBytes, slotAt_take before]
  simp only [readData, sameCount, sameSlots]

/-! ## The value of a record -/

/-- A value of a type that shows the first slots of a record: an array with an element for
each of them, or the datum of the first one. -/
inductive Shows (kind : Kind) (width count : Nat) (bytes : List UInt8) :
    DataType → Value → Prop
  | scalar {datum : Scalar} (present : 0 < count)
      (first : readSlot (.ofKind kind) kind (slotAt width 0 bytes) = some datum) :
      Shows kind width count bytes (.scalar kind) (.scalar datum)
  | array {name : Option String} {length : Option Nat} {elements : List Value}
      (oneEach : elements.length = count)
      (each : ∀ place < count, ∃ datum,
        readSlot (.ofKind kind) kind (slotAt width place bytes) = some datum ∧
          elements[place]? = some (.scalar datum)) :
      Shows kind width count bytes (.array name (.scalar kind) length)
        (.array name (.scalar kind) length elements)

/-- Data that were read are shown, unless a scalar has none. -/
theorem shows_assemble (carries : type.elementKind? = some kind) {data : List Scalar}
    (read : layout.readData kind bytes count = some data)
    (present : type.isScalar = true → data ≠ []) :
    Shows kind (layout.slotWidth (.ofKind kind)) (layout.readable (.ofKind kind) bytes count)
      bytes type (assemble type data) := by
  have oneEach := length_of_readData read
  cases type with
  | empty => cases carries
  | struct name fields => cases carries
  | scalar other =>
      cases carries
      cases data with
      | nil => exact absurd rfl (present rfl)
      | cons datum rest =>
          have some : 0 < layout.readable (.ofKind kind) bytes count :=
            oneEach ▸ Nat.succ_pos _
          obtain ⟨first, isFirst, found⟩ := exists_datum_of_readData read some
          cases found
          exact .scalar some isFirst
  | array name element length =>
      cases element with
      | scalar other =>
          cases carries
          refine .array (by simpa using oneEach) fun place inside => ?_
          obtain ⟨datum, isDatum, found⟩ := exists_datum_of_readData read inside
          exact ⟨datum, isDatum, by simp [found]⟩
      | _ => cases carries

/-- Data make no value only of a scalar type, and only where there are none. -/
theorem assemble_eq_empty_iff (carries : type.elementKind? = some kind) {data : List Scalar} :
    assemble type data = .empty ↔ type.isScalar = true ∧ data = [] := by
  cases type with
  | empty => cases carries
  | struct name fields => cases carries
  | scalar other => cases data <;> simp [assemble, DataType.isScalar]
  | array name element length => simp [assemble, DataType.isScalar]

/-- Any bytes are read, whatever they are and however many slots are announced: as many of
these as there are whole ones.  Each of them lies within the bytes.  There is no value
exactly when one of them does not convert, or when there is none for a scalar; any other
value has the type and shows the slots one by one.  Other bytes in which these slots are the
same are read alike. -/
theorem read_slotwise {tag : Tag} (wide : 0 < layout.slotWidth tag)
    (tagged : tagOfType type = .ok tag) (bytes : List UInt8) (count : Nat) :
    let width := layout.slotWidth tag
    let whole := min count (bytes.length / width)
    ∃ kind value, type.elementKind? = some kind ∧
      layout.read type count (some bytes) = .ok value ∧
      (∀ place < whole, (slotAt width place bytes).length = width ∧
        ∀ offset < width, (slotAt width place bytes)[offset]? = bytes[place * width + offset]?) ∧
      (value = .empty ↔
        (∃ place < whole, readSlot tag kind (slotAt width place bytes) = none) ∨
          type.isScalar = true ∧ whole = 0) ∧
      (value ≠ .empty → value.typeOf = type ∧ Shows kind width whole bytes type value) ∧
      ∀ (other : List UInt8) (otherCount : Nat),
        min otherCount (other.length / width) = whole →
        other.take (whole * width) = bytes.take (whole * width) →
          layout.read type otherCount (some other) = .ok value := by
  obtain ⟨kind, carries, rfl⟩ := tagOfType_eq_ok_iff.mp tagged
  intro width whole
  have within : ∀ place < whole, (slotAt width place bytes).length = width ∧
      ∀ offset < width, (slotAt width place bytes)[offset]? = bytes[place * width + offset]? :=
    fun place inside =>
      ⟨length_slotAt (layout.readable_mul_le (.ofKind kind) bytes count) inside,
        fun offset inside => getElem?_slotAt inside bytes⟩
  have alike (other : List UInt8) (otherCount : Nat)
      (sameCount : min otherCount (other.length / width) = whole)
      (sameBytes : other.take (whole * width) = bytes.take (whole * width)) :
      layout.read type otherCount (some other) = layout.read type count (some bytes) := by
    rw [read_some wide carries, read_some wide carries, readData_congr sameCount sameBytes]
  refine ⟨kind, _, carries, read_some wide carries bytes count, within, ?_, ?_,
    fun other otherCount sameCount sameBytes =>
      (alike other otherCount sameCount sameBytes).trans (read_some wide carries bytes count)⟩
  · cases read : layout.readData kind bytes count with
    | none => exact iff_of_true rfl (.inl (readData_eq_none_iff.mp read))
    | some data =>
        have converts : ¬ ∃ place < whole,
            readSlot (.ofKind kind) kind (slotAt width place bytes) = none :=
          mt readData_eq_none_iff.mpr (by simp [read])
        have oneEach : data.length = whole := length_of_readData read
        rw [or_iff_right converts, ← oneEach, List.length_eq_zero_iff]
        exact assemble_eq_empty_iff carries
  · intro present
    cases read : layout.readData kind bytes count with
    | none => exact absurd (by rw [read]; rfl) present
    | some data =>
        rw [read] at present
        have isOf := (isOf_assemble carries (kind_of_readData read)).resolve_left present
        refine ⟨isOf.typeOf, shows_assemble carries read fun isScalar none => ?_⟩
        exact present ((assemble_eq_empty_iff carries).mpr ⟨isScalar, none⟩)

/-- Ten steps are announced, but the bytes hold two and a half. -/
theorem read_slotwise_steps :
    let layout : Layout := ⟨40⟩
    let type := DataType.scalarArray (.integer .int16)
    let bytes : List UInt8 := [1, 0, 0xFE, 0xFF, 7]
    0 < layout.slotWidth .short ∧ tagOfType type = .ok .short ∧
      layout.read type 10 (some bytes) =
        .ok (.array none (.scalar (.integer .int16)) none
          [.scalar (.integer .int16 1 (by decide)), .scalar (.integer .int16 (-2) (by decide))]) ∧
      layout.read type 2 (some (bytes.take 4)) = layout.read type 10 (some bytes) := by
  intro layout type bytes
  have wide : 0 < layout.slotWidth .short := by decide
  have tagged : tagOfType type = .ok .short := rfl
  have data : layout.readData (.integer .int16) bytes 10 =
      some [.integer .int16 1 (by decide), .integer .int16 (-2) (by decide)] := by decide
  have carries : type.elementKind? = some (.integer .int16) := rfl
  have shown := read_some wide carries bytes 10
  rw [data] at shown
  obtain ⟨kind, value, _, read, _, _, _, alike⟩ := read_slotwise wide tagged bytes 10
  exact ⟨wide, tagged, shown, (alike (bytes.take 4) 2 (by decide) (by decide)).trans read.symm⟩

end Layout

end ProcessImage.Legacy
