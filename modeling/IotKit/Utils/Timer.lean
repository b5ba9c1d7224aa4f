import Mathlib.Algebra.Order.Ring.Int
import Mathlib.Tactic.Common

/-!
# Countdown timers

The timers of `utils_timer.c` under a clock that goes on between any two readings.
`HAL_UptimeMs` is the true time modulo 2^32, and a timer keeps such a reading.
`utils_time_is_expired` compares two of them by half the range of the clock, which is
right as long as the reading is within that range of the deadline.  `iotx_time_left` takes a
second reading after it has found the timer not expired.
-/

namespace IotKit.Utils.Timer

/-! ## The clock -/

/-- The true times, in milliseconds since power-up, at the readings to come. -/
structure Clock where
  /-- The time of the `n`-th reading from now. -/
  time : Nat → Nat
  /-- Time does not go back. -/
  advances : ∀ n, time n ≤ time (n + 1)

/-- The clock after so many readings. -/
def Clock.after (c : Clock) (n : Nat) : Clock :=
  ⟨fun i => c.time (n + i), fun i => c.advances (n + i)⟩

/-- `HAL_UptimeMs`. -/
def halUptimeMs (c : Clock) : UInt32 × Clock := (UInt32.ofNat (c.time 0), c.after 1)

/-! ## The functions

A timer is its field `time`, and `none` the null pointer. -/

/-- `iotx_time_start`. -/
def iotxTimeStart (timer : Option UInt32) (c : Clock) : Option UInt32 × Clock :=
  match timer with
  | none => (none, c)
  | some _ =>
      let (now, c) := halUptimeMs c
      (some now, c)

/-- `utils_time_spend`. -/
def utilsTimeSpend (start : Option UInt32) (c : Clock) : UInt32 × Clock :=
  match start with
  | none => (0, c)
  | some time =>
      let (now, c) := halUptimeMs c
      (now - time, c)

/-- `utils_time_is_expired`. -/
def utilsTimeIsExpired (timer : Option UInt32) (c : Clock) : UInt32 × Clock :=
  match timer with
  | none => (1, c)
  | some time =>
      let (curTime, c) := halUptimeMs c
      (if curTime - time < 4294967295 / 2 then 1 else 0, c)

/-- `iotx_time_left`. -/
def iotxTimeLeft (timer : Option UInt32) (c : Clock) : UInt32 × Clock :=
  match timer with
  | none => (0, c)
  | some time =>
      let (expired, c) := utilsTimeIsExpired (some time) c
      if expired ≠ 0 then (0, c)
      else
        let (now, c) := halUptimeMs c
        (time - now, c)

/-- `iotx_time_init`. -/
def iotxTimeInit (timer : Option UInt32) : Option UInt32 := timer.map fun _ => 0

/-- `utils_time_countdown_ms`. -/
def utilsTimeCountdownMs (timer : Option UInt32) (millisecond : UInt32) (c : Clock) :
    Option UInt32 × Clock :=
  match timer with
  | none => (none, c)
  | some _ =>
      let (now, c) := halUptimeMs c
      (some (now + millisecond), c)

/-- `utils_time_get_ms`. -/
def utilsTimeGetMs (c : Clock) : UInt32 × Clock := halUptimeMs c

/-! ## Readings of the clock -/

theorem Clock.time_mono (c : Clock) {i j : Nat} (h : i ≤ j) : c.time i ≤ c.time j := by
  induction h with
  | refl => exact Nat.le_refl _
  | step _ ih => exact Nat.le_trans ih (c.advances _)

/-- The difference of two readings, where the first is not before the second. -/
theorem reading_sub_of_le {a b : Nat} (hle : a ≤ b) (hlt : b < a + 2 ^ 32) :
    (UInt32.ofNat b - UInt32.ofNat a).toNat = b - a := by
  rw [UInt32.toNat_sub, UInt32.toNat_ofNat', UInt32.toNat_ofNat']
  omega

/-- The difference of two readings, where the first is before the second. -/
theorem reading_sub_of_lt {a b : Nat} (hlt : b < a) (hle : a < b + 2 ^ 32) :
    (UInt32.ofNat b - UInt32.ofNat a).toNat = 2 ^ 32 - (a - b) := by
  rw [UInt32.toNat_sub, UInt32.toNat_ofNat', UInt32.toNat_ofNat']
  omega

/-- A countdown leaves the deadline in the timer. -/
theorem utilsTimeCountdownMs_eq (time millisecond : UInt32) (c : Clock) :
    utilsTimeCountdownMs (some time) millisecond c =
      (some (UInt32.ofNat (c.time 0 + millisecond.toNat)), c.after 1) := by
  simp [utilsTimeCountdownMs, halUptimeMs, UInt32.ofNat_add]

/-! ## The exact answers -/

section Deadline

variable {deadline : Nat} {c : Clock}

/-- The first readings of `c`, so many of them, are less than half the range of the clock
after the deadline. -/
def InRange (deadline : Nat) (c : Clock) (readings : Nat) : Prop :=
  ∀ i < readings, c.time i < deadline + 2147483647

/-- `utils_time_is_expired` says whether the deadline has come at its reading. -/
def ExpiredExact (deadline : Nat) (timer : Option UInt32) (c : Clock) : Prop :=
  (utilsTimeIsExpired timer c).1 = if deadline ≤ c.time 0 then 1 else 0

/-- `iotx_time_left` returns no more than `ms`, and nothing or what remains to the deadline at
one of its two readings. -/
def LeftExact (ms deadline : Nat) (timer : Option UInt32) (c : Clock) : Prop :=
  let left := (iotxTimeLeft timer c).1.toNat
  left ≤ ms ∧ (left = 0 ∨ left + c.time 0 = deadline ∨ left + c.time 1 = deadline)

/-- The test of `utils_time_is_expired` is right up to half the range after the deadline, and
half the range before it. -/
theorem expired_iff {now : Nat} (hbefore : deadline < now + 2147483649)
    (hafter : now < deadline + 2147483647) :
    UInt32.ofNat now - UInt32.ofNat deadline < 4294967295 / 2 ↔ deadline ≤ now := by
  rw [UInt32.lt_iff_toNat_lt]
  change _ < 2147483647 ↔ _
  rcases Nat.lt_or_ge now deadline with hlt | hle
  · rw [reading_sub_of_lt hlt (by omega)]
    omega
  · rw [reading_sub_of_le hle (by omega)]
    omega

theorem expiredExact (hbefore : deadline < c.time 0 + 2147483649) (hrange : InRange deadline c 1) :
    ExpiredExact deadline (some (UInt32.ofNat deadline)) c := by
  simp only [ExpiredExact, utilsTimeIsExpired, halUptimeMs,
    expired_iff hbefore (hrange 0 (by omega))]

/-- What `iotx_time_left` returns: nothing if the deadline has come at its first reading, and
else what remains at the second, modulo the range of the clock. -/
theorem iotxTimeLeft_eq (hbefore : deadline < c.time 0 + 2147483649)
    (hrange : InRange deadline c 1) :
    (iotxTimeLeft (some (UInt32.ofNat deadline)) c).1 =
      if deadline ≤ c.time 0 then 0 else UInt32.ofNat deadline - UInt32.ofNat (c.time 1) := by
  have hexpired := expiredExact hbefore hrange
  rw [ExpiredExact] at hexpired
  simp only [iotxTimeLeft, hexpired]
  split
  · rfl
  · rfl

/-- The time left is exact unless the deadline passes between the two readings. -/
theorem leftExact_iff {ms : Nat} (hms : ms < 2147483648) (hstart : deadline ≤ c.time 0 + ms)
    (hrange : InRange deadline c 2) :
    LeftExact ms deadline (some (UInt32.ofNat deadline)) c ↔
      ¬(c.time 0 < deadline ∧ deadline < c.time 1) := by
  have hfirst := hrange 0 (by omega)
  have hsecond := hrange 1 (by omega)
  have hadvance : c.time 0 ≤ c.time 1 := c.advances 0
  simp only [LeftExact, iotxTimeLeft_eq (c := c) (by omega) fun i hi => hrange i (by omega)]
  split
  next hexpired =>
    exact iff_of_true ⟨Nat.zero_le _, .inl rfl⟩ fun hpassed => by omega
  next hleft =>
    rcases Nat.lt_or_ge deadline (c.time 1) with hpassed | hcoming
    · rw [reading_sub_of_lt hpassed (by omega)]
      omega
    · rw [reading_sub_of_le hcoming (by omega)]
      omega

end Deadline

/-! ## A countdown -/

/-- A countdown of less than half the range of the clock, started at any time: whatever
readings are taken before it, a call of `utils_time_is_expired` with its reading in range is
exact, and one of `iotx_time_left` with its readings in range is exact if and only if the
deadline does not pass between them. -/
theorem countdown_exact_iff (c : Clock) (time ms : UInt32) (n : Nat) (hms : ms.toNat < 2 ^ 31) :
    let timer := (utilsTimeCountdownMs (some time) ms c).1
    let deadline := c.time 0 + ms.toNat
    let later := c.after (n + 1)
    ((InRange deadline later 1 → ExpiredExact deadline timer later) ∧
        (InRange deadline later 2 → LeftExact ms.toNat deadline timer later)) ↔
      (InRange deadline later 2 → ¬(later.time 0 < deadline ∧ deadline < later.time 1)) := by
  intro timer deadline later
  have hstart : c.time 0 ≤ later.time 0 := c.time_mono (Nat.zero_le _)
  have htimer : timer = some (UInt32.ofNat deadline) := by
    simp only [timer, utilsTimeCountdownMs_eq, deadline]
  have hleft (hrange : InRange deadline later 2) :=
    leftExact_iff (c := later) hms (by omega) hrange
  rw [htimer]
  constructor
  · intro hexact hrange
    exact (hleft hrange).mp (hexact.2 hrange)
  · intro hcond
    exact ⟨fun hrange => expiredExact (by omega) hrange,
      fun hrange => (hleft hrange).mpr (hcond hrange)⟩

/-- A clock that shows `second` from its third reading on. -/
def threeReadings (start first second : Nat) (h : start ≤ first ∧ first ≤ second) : Clock where
  time
    | 0 => start
    | 1 => first
    | _ + 2 => second
  advances
    | 0 => h.1
    | 1 => h.2
    | _ + 2 => Nat.le_refl _

/-- The first reading comes 1 ms before the deadline and the second 1 ms after it, and there
are 4294967295 ms left of 10. -/
theorem passed_between_readings :
    let c := threeReadings 0 9 11 (by decide)
    let timer := (utilsTimeCountdownMs (some 0) 10 c).1
    InRange 10 (c.after 1) 2 ∧ (iotxTimeLeft timer (c.after 1)).1 = 4294967295 ∧
      ¬LeftExact 10 10 timer (c.after 1) := by
  intro c timer
  have hleft : (iotxTimeLeft timer (c.after 1)).1 = 4294967295 := by decide
  refine ⟨by unfold InRange; decide, hleft, fun hexact => ?_⟩
  have hle := hexact.1
  rw [hleft] at hle
  exact absurd hle (by decide)

theorem countdown_exact_ten :
    let c := threeReadings 4294967290 4294967297 4294967299 (by decide)
    (10 : UInt32).toNat < 2 ^ 31 ∧
      InRange 4294967300 (c.after 1) 2 ∧
      LeftExact 10 4294967300 (utilsTimeCountdownMs (some 0) 10 c).1 (c.after 1) := by
  intro c
  have hrange : InRange 4294967300 (c.after 1) 2 := by unfold InRange; decide
  exact ⟨by decide, hrange,
    ((countdown_exact_iff c 0 10 0 (by decide)).mpr fun _ => by decide).2 hrange⟩

end IotKit.Utils.Timer
