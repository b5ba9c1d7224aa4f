import IotKit.Datapoint.Effect
import IotKit.Datapoint.RoundTrip
import IotKit.Datapoint.Uplink

/-!
# Integers in range

A number with resolution 0 whose bounds are `int32_t` values keeps between them: a
write clamps what it stores (`clampInt32_inRange`), and the test that skips the store
skips it only where the value is there already.  A definition stores its default as it
is, so the runs in which these numbers are always in range are those whose defaults are
(`inRange_run_iff`).
-/

namespace IotKit.Datapoint

open CMemory Runs

/-- A number with resolution 0 and integral bounds. -/
def Definition.Integer (d : Definition) : Prop :=
  d.dataType = .num ∧ d.resolution = 0 ∧ d.minValue ≤ d.maxValue ∧
    ∃ lo hi : Int32, d.minValue = lo.toInt ∧ d.maxValue = hi.toInt

/-- The value is between the bounds. -/
def PropertyConf.InRange (p : PropertyConf) : Prop :=
  p.minValue ≤ p.numberIntValue.toInt ∧ p.numberIntValue.toInt ≤ p.maxValue

/-- Every such number is in range. -/
def Store.IntegersInRange (s : Store) : Prop :=
  ∀ p ∈ s.properties, p.definition.Integer → p.InRange

/-- The call defines no such number, or its default is in range, or the id is there or
the table full. -/
def DefaultInRange [Platform] (s : Store) : Call → Prop
  | .defineNumber _ dpID permission minValue maxValue resolution value =>
      s.property dpID = none → s.properties.length < configPropertiesMax →
        Definition.Integer ⟨dpID, .num, permission, minValue, maxValue, resolution⟩ →
          minValue ≤ (int32OfDouble value).toInt ∧ (int32OfDouble value).toInt ≤ maxValue
  | _ => True

/-- What decides whether an integer is in range. -/
theorem PropertyConf.InRange.of_eq {p q : PropertyConf} (hdef : q.definition = p.definition)
    (hvalue : q.numberIntValue = p.numberIntValue) (h : p.InRange) : q.InRange := by
  have hmin : q.minValue = p.minValue := congrArg Definition.minValue hdef
  have hmax : q.maxValue = p.maxValue := congrArg Definition.maxValue hdef
  rw [InRange, hmin, hmax, hvalue]
  exact h

theorem Store.IntegersInRange.reflagged {s s' : Store} (h : s.IntegersInRange)
    (hs' : Reflagged s s') : s'.IntegersInRange := by
  obtain ⟨f, hf, hflags⟩ := hs'
  intro q hq hint
  rw [hf] at hq
  obtain ⟨p, hp, rfl⟩ := List.mem_map.mp hq
  obtain ⟨change, readFlag, hfp⟩ := hflags p
  rw [hfp] at hint ⊢
  exact (h p hp hint).of_eq rfl rfl

section Range

variable [Platform] {s s' : Store} {p q : PropertyConf}

/-! ## Writes -/

/-- The clamped value is in range. -/
theorem clampInt32_inRange (hint : p.definition.Integer) (v : Int32) :
    p.minValue ≤ (clampInt32 p v).toInt ∧ (clampInt32 p v).toInt ≤ p.maxValue := by
  obtain ⟨_, _, hle, lo, hi, hlo, hhi⟩ := hint
  have hmin : ((int32OfDouble p.minValue).toInt : ℚ) = p.minValue := by
    rw [show p.minValue = lo.toInt from hlo, int32OfDouble_intCast (fitsInt32_toInt lo)]
  have hmax : ((int32OfDouble p.maxValue).toInt : ℚ) = p.maxValue := by
    rw [show p.maxValue = hi.toInt from hhi, int32OfDouble_intCast (fitsInt32_toInt hi)]
  rw [clampInt32]
  split
  next =>
    rw [hmin]
    exact ⟨le_refl _, hle⟩
  next hlow =>
    split
    next =>
      rw [hmax]
      exact ⟨hle, le_refl _⟩
    next hhigh => exact ⟨le_of_not_gt hlow, le_of_not_gt hhigh⟩

/-- A write of any value, by the user or the cloud, keeps an integer in range. -/
theorem write_inRange (value : Value) (type : Bool) (hint : p.definition.Integer)
    (h : p.InRange) : (value.setter.write type p).InRange := by
  rw [Setter.write]
  dsimp only
  split
  next haccepts =>
    split
    next => exact h.of_eq rfl rfl
    next =>
      cases value with
      | int v => exact clampInt32_inRange hint v
      | double v => exact h.of_eq rfl rfl
      | bool v => exact h.of_eq rfl rfl
      | enum v => exact h.of_eq rfl rfl
      | string v => exact h.of_eq rfl rfl
      | binary v => exact h.of_eq rfl rfl
  next => exact h

/-! ## Calls -/

theorem Store.IntegersInRange.write (h : s.IntegersInRange) (dpID : UInt16) (value : Value)
    (type : Bool) : (writeDatapoint s dpID value.setter type).IntegersInRange := by
  intro q hq hint
  rw [writeDatapoint_properties] at hq
  obtain ⟨p, hp, rfl⟩ := List.mem_map.mp hq
  split
  next hid =>
    rw [if_pos hid, value.setter.write_definition type p] at hint
    exact write_inRange value type hint (h p hp hint)
  next hid =>
    rw [if_neg hid] at hint
    exact h p hp hint

theorem Store.IntegersInRange.writeAll {ws : List Write} (h : s.IntegersInRange)
    (hws : ∀ a ∈ ws, ∃ value : Value, a.setter = value.setter) :
    (writeAll s ws).IntegersInRange := by
  induction ws generalizing s with
  | nil => exact h
  | cons a ws ih =>
      obtain ⟨value, hvalue⟩ := hws a List.mem_cons_self
      rw [writeAll_cons, hvalue]
      exact ih (h.write a.dpID value false) fun b hb => hws b (List.mem_cons_of_mem a hb)

/-- A definition keeps the others, and its default decides on its own. -/
theorem define_inRange {d : Define} (hs' : s'.properties = s.properties ++ [d.property])
    (h : s.IntegersInRange) : s'.IntegersInRange ↔
      (d.property.definition.Integer → d.property.InRange) := by
  constructor
  · intro hall hint
    exact hall _ (hs' ▸ List.mem_append_right _ (List.mem_singleton_self _)) hint
  · intro hnew q hq hint
    rw [hs'] at hq
    rcases List.mem_append.mp hq with hq | hq
    · exact h q hq hint
    · rw [List.mem_singleton.mp hq] at hint ⊢
      exact hnew hint

theorem number_definition {fresh : PropertyConf} {dpID : UInt16} {permission : Permission}
    {minValue maxValue value : ℚ} {resolution : Int} :
    (Define.number fresh dpID permission minValue maxValue resolution value).property.definition =
      ⟨dpID, .num, permission, minValue, maxValue, resolution⟩ := by
  rw [Define.property_number]
  rfl

theorem exec_inRange {c c' : Control} {result : Int} {uploads : List Upload} {call : Call}
    (h : s.IntegersInRange) (hcall : DefaultInRange s call)
    (hexec : exec s c result call = .ok (s', c', uploads)) : s'.IntegersInRange := by
  cases exec_effect hexec with
  | @define _ d _ hd hdefine =>
      rcases Define.exec_cases hdefine with ⟨_, rfl⟩ | ⟨hnone, hs'⟩
      · exact h
      · rw [define_inRange hs' h]
        intro hint
        have hroom : s.properties.length < configPropertiesMax := by
          have hfits := s'.fits
          rw [hs', List.length_append, List.length_singleton] at hfits
          exact hfits
        cases call with
        | defineNumber fresh dpID permission minValue maxValue resolution value =>
            cases hd
            rw [number_definition] at hint
            have hres : resolution = 0 := hint.2.1
            subst hres
            exact hcall hnone hroom hint
        | defineBool | defineEnum | defineString | defineBinary =>
            cases hd
            cases hint.1
        | write | send | parse | automatic | manual | control => cases hd
  | write => exact h.write _ _ _
  | parse hreads hflags => exact (h.writeAll hreads.setter_eq).reflagged hflags
  | flags hflags => exact h.reflagged hflags

/-- A default out of range is defined as it is. -/
theorem exec_not_inRange {c : Control} {result : Int} {call : Call}
    (hcall : ¬ DefaultInRange s call) :
    ∃ s' c' uploads, exec s c result call = .ok (s', c', uploads) ∧ ¬ s'.IntegersInRange := by
  cases call with
  | defineNumber fresh dpID permission minValue maxValue resolution value =>
      simp only [DefaultInRange, Classical.not_imp] at hcall
      obtain ⟨hnone, hroom, hint, hout⟩ := hcall
      obtain ⟨_, hres, _⟩ := id hint
      have hres : resolution = 0 := hres
      subst hres
      let d : Define := .number fresh dpID permission minValue maxValue 0 value
      obtain ⟨s', hdefine, hs'⟩ := @define_of_none s d.property hnone hroom
      refine ⟨s', c, [], bind_eq_ok.mpr ⟨s', hdefine, rfl⟩, fun h => ?_⟩
      have hentry : d.property.definition.Integer := number_definition ▸ hint
      exact hout (h d.property (hs' ▸ List.mem_append_right _ (List.mem_singleton_self _)) hentry)
  | _ => exact absurd trivial hcall

end Range

/-! ## Runs -/

/-- In every state of a run the integers are in range exactly when all defaults that
take effect are. -/
theorem inRange_run_iff [Platform] (calls : List (Call × Int)) :
    (∀ bs st, bs <+: calls → run Uplink.step Uplink.initial bs = .ok st →
        st.store.IntegersInRange) ↔
      Guarded Uplink.step (fun st a => DefaultInRange st.store a.1) Uplink.initial calls := by
  refine @always_good_iff _ _ _ Uplink.step _ (·.store.IntegersInRange) _ id ?_ ?_ _ calls ?_
  · intro st a st' h hcall hstep
    obtain ⟨⟨store, control, uploads⟩, hexec, hstep⟩ := bind_eq_ok.mp hstep
    cases hstep
    exact exec_inRange h hcall hexec
  · intro st a h hcall
    obtain ⟨s', c', uploads, hexec, hout⟩ := exec_not_inRange hcall
    exact ⟨_, bind_eq_ok.mpr ⟨_, hexec, rfl⟩, hout⟩
  · exact fun p hp => absurd hp List.not_mem_nil

/-- A default of 100 between 0 and 10. -/
theorem not_inRange_default : ¬ ∀ (P : Platform) (calls : List (Call × Int)) (st : Uplink),
    run (@Uplink.step P) Uplink.initial calls = .ok st → st.store.IntegersInRange := by
  intro h
  let call : Call := .defineNumber zeroProperty 1 .upDown 0 10 0 100
  obtain ⟨st, hrun, hstore⟩ : ∃ st,
      run (@Uplink.step zeroPlatform) Uplink.initial [(call, 0)] = .ok st ∧
      st.store.properties.map (fun p => (p.definition, p.numberIntValue)) =
        [(⟨1, .num, .upDown, 0, 10, 0⟩, 100)] := ⟨_, rfl, by decide +kernel⟩
  obtain ⟨p, hp, hvalue⟩ : ∃ p ∈ st.store.properties, (p.definition, p.numberIntValue) =
      ((⟨1, .num, .upDown, 0, 10, 0⟩ : Definition), 100) := by
    refine List.mem_map.mp ?_
    rw [hstore]
    exact List.mem_singleton_self _
  obtain ⟨hdef, hint⟩ := Prod.mk.inj hvalue
  have hrange := h zeroPlatform _ st hrun p hp
    (hdef ▸ ⟨rfl, rfl, by decide +kernel, 0, 10, by decide +kernel, by decide +kernel⟩)
  have hmax : p.maxValue = 10 := congrArg Definition.maxValue hdef
  have := hrange.2
  rw [hmax, hint] at this
  exact absurd this (by decide +kernel)

end IotKit.Datapoint
