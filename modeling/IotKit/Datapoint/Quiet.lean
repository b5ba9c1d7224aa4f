import IotKit.Datapoint.Effect

/-!
# Writes without effect

A write of the user sets the change flag where the value it is given differs from the
stored one.  An integer is compared before it is clamped and a double before it is cut
to the resolution, so a write can set the flag and store what is there already.
`Agrees` says when the test and the store agree, and exactly then a write that leaves
the value leaves the flag (`quiet_iff`).
-/

namespace IotKit.Datapoint

open CMemory

/-- A write of the user to a number that leaves its value does not set its change
flag. -/
def Quiet [Platform] (s : Store) (dpID : UInt16) (value : Value) : Prop :=
  ∀ p q, s.property dpID = some p → p.dataType = .num →
    (iotDataPointWrite s dpID value).property dpID = some q → q.value = p.value →
      q.change → p.change

/-- A double cut to the decimal places of the datapoint. -/
def cut [Platform] (p : PropertyConf) (d : ℚ) : ℚ :=
  Platform.round
    ((int32OfDouble (Platform.round (d * pow 10 p.resolution))).toInt / pow 10 p.resolution)

/-- The value is there already, or the store changes it: an integer is not beyond a
bound that is stored, and a double, once clamped, is not stored but for the digits that
are cut. -/
def Agrees [Platform] (p : PropertyConf) : Value → Prop
  | .int v => v = p.numberIntValue ∨
      (v.toInt < p.minValue → p.numberIntValue ≠ int32OfDouble p.minValue) ∧
        (p.minValue ≤ v.toInt → p.maxValue < v.toInt →
          p.numberIntValue ≠ int32OfDouble p.maxValue)
  | .double v => clamp p.minValue p.maxValue v = p.numberDoubleValue ∨
      cut p (clamp p.minValue p.maxValue v) ≠ p.numberDoubleValue
  | _ => True

section Quiet

variable [Platform] {p : PropertyConf}

/-- The store of a clamped integer leaves it exactly where a bound is stored that the
value is beyond. -/
theorem clampInt32_eq_iff {v : Int32} (hne : v ≠ p.numberIntValue) :
    clampInt32 p v = p.numberIntValue ↔ ¬ Agrees p (.int v) := by
  rw [clampInt32]
  simp only [Agrees, hne, false_or]
  split
  next hlow => simp [hlow, not_le.mpr hlow, eq_comm]
  next hlow =>
    have hle := not_lt.mp hlow
    split
    next hhigh => simp [hlow, hle, hhigh, eq_comm]
    next hhigh => simp [hlow, hhigh, hne]

/-- A write that is taken leaves the value and raises the flag exactly where the test
and the store disagree. -/
theorem write_raises_iff {value : Value} (hnum : p.dataType = .num)
    (haccepts : value.setter.accepts p) :
    ((value.setter.write true p).value = p.value ∧ (value.setter.write true p).change = true) ↔
      ¬ Agrees p value := by
  rw [Setter.write]
  dsimp only
  rw [if_pos haccepts]
  cases value with
  | int v =>
      obtain ⟨_, hres⟩ := of_decide_eq_true haccepts
      rw [show (Value.int v).setter.same p = decide (p.numberIntValue = v) from rfl]
      split
      next hsame => simp [Agrees, (of_decide_eq_true hsame).symm]
      next hsame =>
        have hne : v ≠ p.numberIntValue := fun h => hsame (decide_eq_true h.symm)
        rw [← clampInt32_eq_iff hne, PropertyConf.value_int hnum hres,
          PropertyConf.value_int (by exact hnum) (by exact hres)]
        simp [Value.setter, numberInt32Setter]
  | double v =>
      obtain ⟨_, hres⟩ := of_decide_eq_true haccepts
      rw [show (Value.double v).setter.same p =
        decide (p.numberDoubleValue = clamp p.minValue p.maxValue v) from rfl]
      split
      next hsame => simp [Agrees, (of_decide_eq_true hsame).symm]
      next hsame =>
        have hne : clamp p.minValue p.maxValue v ≠ p.numberDoubleValue :=
          fun h => hsame (decide_eq_true h.symm)
        rw [PropertyConf.value_double hnum hres,
          PropertyConf.value_double (by exact hnum) (by exact hres)]
        simp [Value.setter, numberDoubleSetter, Agrees, hne, cut]
  | bool v | enum v | string v | binary v =>
      have htype := of_decide_eq_true haccepts
      rw [hnum] at htype
      cases htype

/-- A write without effect leaves the change flag exactly where the flag is set already,
the accessor is of another type, or the test and the store agree. -/
theorem quiet_iff (s : Store) (dpID : UInt16) (value : Value) :
    Quiet s dpID value ↔ ∀ p, s.property dpID = some p → p.dataType = .num →
      p.change ∨ ¬ value.setter.accepts p ∨ Agrees p value := by
  constructor
  · intro hquiet p hp hnum
    by_cases hchange : p.change
    · exact Or.inl hchange
    · refine Or.inr ?_
      by_cases haccepts : value.setter.accepts p
      · refine Or.inr ?_
        by_contra hnot
        obtain ⟨hvalue, hraised⟩ := (write_raises_iff hnum haccepts).mpr hnot
        refine hchange (hquiet p _ hp hnum ?_ hvalue hraised)
        rw [iotDataPointWrite_eq, property_writeDatapoint_self, hp, Option.map_some]
      · exact Or.inl haccepts
  · intro hagrees p q hp hnum hq hvalue hraised
    rw [iotDataPointWrite_eq, property_writeDatapoint_self, hp, Option.map_some] at hq
    cases hq
    rcases hagrees p hp hnum with hchange | hrefused | hagrees
    · exact hchange
    · rwa [Setter.write_of_not_accepts hrefused] at hraised
    · by_cases haccepts : value.setter.accepts p
      · exact absurd hagrees ((write_raises_iff hnum haccepts).mp ⟨hvalue, hraised⟩)
      · rwa [Setter.write_of_not_accepts haccepts] at hraised

end Quiet

/-- A write of 11 to an integer that is at its maximum 10. -/
theorem not_quiet_saturated : ¬ ∀ (P : Platform) (s : Store) (dpID : UInt16) (value : Value),
    @Quiet P s dpID value := by
  intro h
  let p : PropertyConf :=
    { zeroProperty with
      dpID := 1, dataType := .num, maxValue := 10, numberIntValue := 10, change := false }
  let s : Store := ⟨[p], by decide, by decide⟩
  let q := (@Value.setter zeroPlatform (.int 11)).write true p
  have hwrite : (@iotDataPointWrite zeroPlatform s 1 (.int 11)).property 1 = some q := by
    decide +kernel
  have hraised : q.change = true := by decide +kernel
  have hvalue : q.value = p.value := by decide +kernel
  exact absurd (h zeroPlatform s 1 (.int 11) p q rfl rfl hwrite hvalue hraised) (by decide)

end IotKit.Datapoint
