import IotKit.Datapoint.Uplink
import Mathlib.Data.List.Chain

/-!
# The period of the automatic upload

`HAL_UptimeMs` counts modulo 2^32, and so does the function that asks it whether the
period has passed.  What it finds has passed is never more than what has (`lapsed_spaced`),
for the correction it makes where the difference is negative takes one millisecond away.
The period is a product of 32 bits, and where it does not fit the uploads come too early
(`respected_iff`).
-/

namespace IotKit.Datapoint.Period

open CMemory Runs

/-- `HAL_UptimeMs` at a time in milliseconds. -/
def uptimeMs (time : Nat) : Nat := time % 2 ^ 32

/-- A call: the store it finds, the times at which it reads the clock, and the result
of `IOT_Comm_SendData`. -/
structure Poll where
  store : Store
  asked : Nat
  stamped : Nat
  result : Int

/-- The control block, the time of the last call and, the latest first, the times of
the uploads. -/
structure State where
  control : Control
  time : Nat
  sent : List Nat

/-- One call.  An upload has the time that the call notes for it. -/
def step [Platform] (st : State) (a : Poll) : Checked State := do
  let (r, c) ← iotDataPointSendDatapointAutomatic a.store st.control (uptimeMs a.asked)
    (uptimeMs a.stamped) a.result
  .ok ⟨c, a.stamped, if r.uploads = [] then st.sent else a.stamped :: st.sent⟩

/-- The clock does not run backwards, and no change flag is set. -/
structure Idle (st : State) (a : Poll) : Prop where
  asked : st.time ≤ a.asked
  stamped : a.asked ≤ a.stamped
  unchanged : isPropertyChanged a.store = false

/-- The later of two uploads is at least so many milliseconds after the other. -/
def Apart (period : Nat) (later earlier : Nat) : Prop := earlier + period ≤ later

/-- After `IOT_DataPoint_Control` the uploads are at least the period apart. -/
def Respected [Platform] (lapse : UInt32) : Prop :=
  ∀ (c : Control) (calls : List Poll) (st : State),
    let start : State := ⟨iotDataPointControl c .automatic lapse.toNat, 0, []⟩
    Guarded step Idle start calls → run step start calls = .ok st →
      st.sent.IsChain (Apart (lapse.toNat * 1000))

/-! ## The clock -/

theorem ofInt_toUInt32_toNat (x : Int) : ((Int32.ofInt x).toUInt32.toNat : Int) = x % 2 ^ 32 := by
  have hsigned : (Int32.ofInt x).toInt = x.bmod (2 ^ 32) := Int32.toInt_ofInt
  have hlt := (Int32.ofInt x).toBitVec.isLt
  have hbits : (Int32.ofInt x).toInt =
      ((Int32.ofInt x).toUInt32.toNat : Int).bmod (2 ^ 32) := BitVec.toInt_eq_toNat_bmod _
  rw [hsigned, Int.bmod_def, Int.bmod_def] at hbits
  have hle : (Int32.ofInt x).toUInt32.toNat < 2 ^ 32 := hlt
  omega

theorem ofInt_neg_iff (x : Int) : Int32.ofInt x < 0 ↔ 2 ^ 31 ≤ x % 2 ^ 32 := by
  rw [Int32.lt_iff_toInt_lt, Int32.toInt_ofInt, Int.bmod_def]
  simp only [Int32.size, Int32.toInt_zero]
  omega

/-- The time that has passed, modulo 2^32, is compared, less one where it is 2^31 at
least. -/
theorem lapsed_iff {c : Control} {now elapsed : Nat}
    (helapsed : (now - c.runtime) % 2 ^ 32 = elapsed) : lapsed c now = true ↔
    c.transmitLapse * 1000 % 2 ^ 32 ≤ if elapsed < 2 ^ 31 then elapsed else elapsed - 1 := by
  rw [lapsed, decide_eq_true_iff, ← Int.ofNat_le]
  simp only [ofInt_neg_iff, helapsed]
  split
  next h =>
    rw [if_neg (by omega), ofInt_toUInt32_toNat]
    omega
  next h =>
    rw [if_pos (by omega), ofInt_toUInt32_toNat, helapsed]
    exact Int.ofNat_le

/-- A period that fits is not found to have passed before it has. -/
theorem lapsed_spaced {c : Control} {last now : Nat} (hfits : c.transmitLapse * 1000 < 2 ^ 32)
    (hruntime : c.runtime = uptimeMs last) (hle : last ≤ now)
    (h : lapsed c (uptimeMs now) = true) : Apart (c.transmitLapse * 1000) now last := by
  have helapsed : (uptimeMs now - c.runtime) % 2 ^ 32 = ((now - last) % 2 ^ 32 : Nat) := by
    rw [hruntime, uptimeMs, uptimeMs]
    omega
  rw [lapsed_iff helapsed, Nat.mod_eq_of_lt hfits] at h
  have hmod := Nat.mod_le (now - last) (2 ^ 32)
  rw [Apart]
  split at h
  next => omega
  next => omega

/-- A time that is found to be a period when the period does not fit. -/
def early (lapse : UInt32) : Nat :=
  if lapse.toNat * 1000 % 2 ^ 32 < 2 ^ 31 then lapse.toNat * 1000 % 2 ^ 32
  else lapse.toNat * 1000 % 2 ^ 32 + 1

theorem early_lt {lapse : UInt32} (h : 2 ^ 32 ≤ lapse.toNat * 1000) :
    early lapse < lapse.toNat * 1000 := by
  rw [early]
  split
  next => omega
  next => omega

theorem early_lt_size {lapse : UInt32} : early lapse < 2 ^ 32 := by
  rw [early]
  split
  next => omega
  next => omega

theorem lapsed_early {c : Control} {lapse : UInt32} {last now : Nat}
    (hlapse : c.transmitLapse = lapse.toNat) (hruntime : c.runtime = uptimeMs last)
    (hnow : now = last + early lapse) :
    lapsed c (uptimeMs now) = true := by
  have helapsed : (uptimeMs now - c.runtime) % 2 ^ 32 = early lapse := by
    have hlt := @early_lt_size lapse
    rw [hruntime, uptimeMs, uptimeMs]
    omega
  rw [lapsed_iff helapsed, hlapse, early]
  split
  next => exact le_rfl
  next h => rw [if_neg (by omega), Nat.add_sub_cancel]

/-- The uploads so far are a period apart, and the control block has the time of the last. -/
structure Spaced (lapse : UInt32) (st : State) : Prop where
  lapse_le : lapse.toNat ≤ st.control.transmitLapse
  fits : st.control.transmitLapse * 1000 < 2 ^ 32
  apart : st.sent.IsChain (Apart (lapse.toNat * 1000))
  last : ∀ last ∈ st.sent.head?, last ≤ st.time ∧ st.control.runtime = uptimeMs last

theorem Spaced.initial {lapse : UInt32} (c : Control) (h : lapse.toNat * 1000 < 2 ^ 32) :
    Spaced lapse ⟨iotDataPointControl c .automatic lapse.toNat, 0, []⟩ := by
  refine ⟨?_, ?_, List.IsChain.nil, nofun⟩
  · simp only [iotDataPointControl, if_true]
    split
    next hlt => exact hlt.le
    next => exact le_rfl
  · simp only [iotDataPointControl, if_true]
    split
    next => decide
    next => exact h

/-! ## Calls -/

section Calls

variable [Platform] {st st' : State} {a : Poll} {lapse : UInt32}

/-- A call that uploads has found the period over, and one that does not changes nothing
but the time. -/
theorem step_cases (hidle : Idle st a) (h : step st a = .ok st') :
    st' = { st with time := a.stamped } ∨
      lapsed st.control (uptimeMs a.asked) = true ∧
        st' = ⟨{ st.control with runtime := uptimeMs a.stamped }, a.stamped,
          a.stamped :: st.sent⟩ := by
  obtain ⟨⟨r, c⟩, hcall, h⟩ := bind_eq_ok.mp h
  cases h
  obtain ⟨rfl, rfl⟩ | ⟨hsome, _, hdue, hall, rfl⟩ := automatic_cases hcall
  · exact Or.inl rfl
  · rw [hidle.unchanged, Bool.false_or] at hdue
    have hlength : (clearPropertyChangeFlag a.store).properties.length =
        a.store.properties.length := List.length_map _
    rw [iotDataPointSendAll, if_neg (hlength ▸ hsome)] at hall
    obtain ⟨u, _, hall⟩ := bind_eq_ok.mp hall
    have huploads : [u] = r.uploads := congrArg (·.2.2) (Except.ok.inj hall)
    rw [← huploads, if_neg (List.cons_ne_nil u [])]
    exact Or.inr ⟨hdue, rfl⟩

theorem Spaced.step (h : Spaced lapse st) (hidle : Idle st a) (hstep : step st a = .ok st') :
    Spaced lapse st' := by
  have hlater : st.time ≤ a.stamped := hidle.asked.trans hidle.stamped
  obtain rfl | ⟨hlapsed, rfl⟩ := step_cases hidle hstep
  · refine ⟨h.lapse_le, h.fits, h.apart, fun last hlast => ?_⟩
    obtain ⟨hle, hruntime⟩ := h.last last hlast
    exact ⟨hle.trans hlater, hruntime⟩
  · refine ⟨h.lapse_le, h.fits, ?_, fun last hlast => ?_⟩
    · refine List.isChain_cons.mpr ⟨fun last hlast => ?_, h.apart⟩
      obtain ⟨hle, hruntime⟩ := h.last last hlast
      have hspaced := lapsed_spaced h.fits hruntime (hle.trans hidle.asked) hlapsed
      calc last + lapse.toNat * 1000
          ≤ last + st.control.transmitLapse * 1000 :=
            Nat.add_le_add_left (Nat.mul_le_mul_right 1000 h.lapse_le) last
        _ ≤ a.asked := hspaced
        _ ≤ a.stamped := hidle.stamped
    · rw [List.head?_cons, Option.mem_some_iff] at hlast
      subst hlast
      exact ⟨Nat.le_refl _, rfl⟩

/-- A store with one datapoint. -/
def oneDatapoint : Store :=
  ⟨[{ zeroProperty with dpID := 1 }], by decide, by decide⟩

theorem sendAll_oneDatapoint (result : Int) : ∃ rc s u,
    iotDataPointSendAll (clearPropertyChangeFlag oneDatapoint) result = .ok (rc, s, [u]) :=
  ⟨intoyunTransmitData result, _, ⟨[0x31, 1, 0, 1, 0], [{ zeroProperty with dpID := 1 }]⟩, rfl⟩

theorem step_oneDatapoint {time : Nat} (hmode : st.control.transmitMode = .automatic)
    (hlapsed : lapsed st.control (uptimeMs time) = true) :
    step st ⟨oneDatapoint, time, time, 0⟩ =
      .ok ⟨{ st.control with runtime := uptimeMs time }, time, time :: st.sent⟩ := by
  obtain ⟨rc, s, u, hall⟩ := sendAll_oneDatapoint 0
  refine bind_eq_ok.mpr ⟨⟨⟨rc, s, [u]⟩, { st.control with runtime := uptimeMs time }⟩, ?_, rfl⟩
  have hne : oneDatapoint.properties.length ≠ 0 := Nat.one_ne_zero
  rw [iotDataPointSendDatapointAutomatic, if_neg hne, if_neg (by simp [hmode]), hlapsed,
    Bool.or_true, if_pos rfl]
  exact bind_eq_ok.mpr ⟨_, hall, rfl⟩

/-- With a period that does not fit two uploads come too early. -/
theorem not_respected_of_le (h : 2 ^ 32 ≤ lapse.toNat * 1000) : ¬ Respected lapse := by
  intro hrespected
  let c := iotDataPointControl Control.initial .automatic lapse.toNat
  have hlapse : c.transmitLapse = lapse.toNat := by
    simp only [c, iotDataPointControl, if_true]
    rw [if_neg]
    simp only [configAutomaticInterval]
    omega
  have hfirst : step ⟨c, 0, []⟩ ⟨oneDatapoint, early lapse, early lapse, 0⟩ =
      .ok ⟨{ c with runtime := uptimeMs (early lapse) }, early lapse, [early lapse]⟩ :=
    step_oneDatapoint rfl (lapsed_early hlapse (show c.runtime = uptimeMs 0 from rfl)
      (Nat.zero_add _).symm)
  have hsecond := @step_oneDatapoint _
    ⟨{ c with runtime := uptimeMs (early lapse) }, early lapse, [early lapse]⟩ _ rfl
    (lapsed_early hlapse rfl rfl)
  have hguard : Guarded step Idle ⟨c, 0, []⟩ [⟨oneDatapoint, early lapse, early lapse, 0⟩,
      ⟨oneDatapoint, early lapse + early lapse, early lapse + early lapse, 0⟩] := by
    refine ⟨⟨Nat.zero_le _, le_rfl, rfl⟩, fun st hst => ⟨?_, fun _ _ => trivial⟩⟩
    cases hfirst.symm.trans hst
    exact ⟨Nat.le_add_left _ _, le_rfl, rfl⟩
  have hspaced := hrespected Control.initial _ _ hguard
    (run_cons.mpr ⟨_, hfirst, run_cons.mpr ⟨_, hsecond, rfl⟩⟩)
  have hapart := List.IsChain.rel_head? hspaced (y := early lapse) rfl
  have hlt := early_lt h
  rw [Apart] at hapart
  omega

/-- The uploads keep to the period exactly where it fits 32 bits in milliseconds. -/
theorem respected_iff (lapse : UInt32) : Respected lapse ↔ lapse.toNat * 1000 < 2 ^ 32 := by
  constructor
  · intro h
    by_contra hnot
    exact not_respected_of_le (not_lt.mp hnot) h
  · intro hfits c calls st start hguard hrun
    exact (@run_invariant _ _ _ _ _ (Spaced lapse) (fun h hidle hstep => h.step hidle hstep) _ _ _
      (Spaced.initial c hfits) hguard hrun).apart

end Calls

/-- The seconds 4294968 are 704 milliseconds. -/
theorem not_respected_wrap : ¬ ∀ (P : Platform) (lapse : UInt32), @Respected P lapse := by
  intro h
  exact @not_respected_of_le zeroPlatform 4294968 (by decide) (h zeroPlatform 4294968)

end IotKit.Datapoint.Period
