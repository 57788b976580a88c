import ProcessImage.Proofs.Station.Writing
import ProcessImage.Proofs.Wire.Acceptance

/-!
# Refused writes

A value that fits the type of a variable need not have a tree.  Fitting lets an array
have fewer elements than its fixed length, while a tree wants all of them, so a
structured variable refuses two kinds of values: those that do not fit its type, and
those that fit it but leave an array short.
-/

namespace ProcessImage

open Wire

/-- A structured variable whose type has a schema fails to encode the values that do not
fit its type, and those that leave an array short. -/
theorem Variable.exists_encode_eq_error_iff {pv : Variable} {schema : Schema}
    (made : Schema.ofType pv.type = .ok schema) (value : Value) :
    (∃ fault, pv.encode .structured value = .error fault) ↔
      value.coerce? pv.type = none ∨
        ∃ coerced, value.coerce? pv.type = some coerced ∧ ¬ coerced.Complete := by
  have declared : pv.type.isEmpty = false := by
    cases type : pv.type with
    | empty =>
        rw [type] at made
        cases made
    | _ => rfl
  cases fits : value.coerce? pv.type with
  | none => simp [encode_structured_eq_error_iff, converted, declared, fits]
  | some coerced =>
      obtain ⟨isType, typed⟩ := Value.typed_of_coerce? fits
      have refused : (∃ fault, Tree.ofValue coerced = .error fault) ↔ ¬ coerced.Complete := by
        rw [← Tree.exists_ofValue_iff typed (isType ▸ made)]
        cases Tree.ofValue coerced <;> simp
      simp [encode_structured_eq_error_iff, converted, declared, fits, refused]

namespace Station

/-- For a type that has a schema, a value in the type has a tree exactly when each of
its arrays has as many elements as it declares; a connected structured variable of the
type answers a write with a fault exactly when the value does not fit the type or leaves
an array short. -/
theorem trySet_error_iff {type : DataType} {schema : Schema}
    (made : Schema.ofType type = .ok schema) (value : Value) :
    (∀ coerced, value.coerce? type = some coerced →
      ((∃ tree, Tree.ofValue coerced = .ok tree) ↔ coerced.Complete)) ∧
    ∀ (station : Station) (number : Nat) (pv : Variable),
      station.network.protocol = .structured → station.pv? number = some pv → pv.type = type →
      pv.cache.state.isConnected = true →
        ((∃ fault, (station.trySet number value).2 = .error fault) ↔
          value.coerce? type = none ∨
            ∃ coerced, value.coerce? type = some coerced ∧ ¬ coerced.Complete) := by
  constructor
  · intro coerced fits
    obtain ⟨isType, typed⟩ := Value.typed_of_coerce? fits
    exact Tree.exists_ofValue_iff typed (isType ▸ made)
  · rintro station number pv structured isPv rfl connected
    rw [← Variable.exists_encode_eq_error_iff made]
    simp only [trySet, trySetWith_eq_error_iff isPv, connected, true_and, structured]

/-- A station with one connected structured variable, for three numbers. -/
def withTriple : Station where
  network := { protocol := .structured }
  pvs := [some {
    name := "TRIPLE"
    type := .fixedArrayOf (.scalar (.integer .int32)) 3
    subscription := 0
    cache := { state := { snapshot := { connected := true } } } }]

/-- A variable for three numbers takes three of them, and refuses one. -/
theorem trySet_error_triple :
    let number := Scalar.integer .int32 7 (by decide)
    (¬ ∃ fault, (withTriple.trySet 0 (.ofScalars (.integer .int32) [number, number, number])).2 =
      .error fault) ∧
    ∃ fault, (withTriple.trySet 0 (.scalar number)).2 = .error fault := by
  intro number
  have made : Schema.ofType (.fixedArrayOf (.scalar (.integer .int32)) 3) =
      .ok (.scalarArray (.array .int) none (some 3)) := rfl
  constructor
  · rw [(trySet_error_iff made _).2 withTriple 0 _ rfl rfl rfl rfl]
    rintro (misfit | ⟨coerced, fits, short⟩)
    · cases misfit
    · cases fits
      exact short ⟨by simp [Value.HasAllElements], trivial, trivial, trivial, trivial⟩
  · rw [(trySet_error_iff made _).2 withTriple 0 _ rfl rfl rfl rfl]
    refine Or.inr ⟨_, rfl, fun complete => ?_⟩
    exact absurd (complete.1 3 rfl) (by decide)

/-- One number fits an array of three, as its only element, but there is no tree for it,
and a write of it ends with a fault. -/
theorem one_of_three_refused :
    let type := DataType.fixedArrayOf (.scalar (.integer .int32)) 3
    let number := Value.scalar (.integer .int32 7 (by decide))
    let fitted := Value.array none (.scalar (.integer .int32)) (some 3) [number]
    let short := Fault.mismatch (.elements 3) (.elements 1)
    Schema.ofType type = .ok (.scalarArray (.array .int) none (some 3)) ∧
      number.coerce? type = some fitted ∧ Tree.ofValue fitted = .error short ∧
      (withTriple.trySet 0 number).2 = .error short :=
  ⟨rfl, rfl, rfl, rfl⟩

end Station

end ProcessImage
