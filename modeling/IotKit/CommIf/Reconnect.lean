import IotKit.CommIf.Connection
import IotKit.Lib.Backoff
import IotKit.Lib.Run
import IotKit.Utils.Timer
import Mathlib.Tactic.IntervalCases

/-!
# Reconnecting

`iotx_mc_keepalive` and the end of `IOT_Comm_Yield` are two copies of one machine.
A turn that finds the connection lost sets the interval to its least value; one that
finds it reconnecting, and the time come, makes an attempt; an attempt that fails
makes the interval longer and sets the next time.  Turns are taken while other turns
wait: callbacks and delays may run the loop of the application, so what a turn has
left to do is a stack of frames.

Two counts are kept besides.  `failures` is the number of attempts that have failed since
the connection was last there, and `scheduled` records the delay set after each.  `grown` is
the number of failures since the interval was last set to its least value: a network that
goes away and comes back while the loop reconnects starts the interval again, and not the
count of the failures.
-/

namespace IotKit.CommIf.Reconnect

open Runs Utils

/-- `IOTX_MC_RECONNECT_INTERVAL_MIN_MS` and `IOTX_CONN_RECONNECT_INTERVAL_MIN_MS`. -/
def intervalMinMs : UInt32 := 1000
/-- `IOTX_MC_RECONNECT_INTERVAL_MAX_MS` and `IOTX_CONN_RECONNECT_INTERVAL_MAX_MS`. -/
def intervalMaxMs : UInt32 := 60000

/-- The two copies: `iotx_mc_handle_reconnect` and `iotx_conn_handle_reconnect`. -/
inductive Copy where
  | mc
  | conn
deriving DecidableEq, Repr

/-- The state at first. -/
def Copy.initialState : Copy → ConnState
  | .mc => .initialized
  | .conn => .invalid

/-- The interval at first: `iotx_mc_init` sets it, `IOT_Comm_Init` clears it. -/
def Copy.initialMs : Copy → UInt32
  | .mc => intervalMinMs
  | .conn => 0

/-- The interval after one that is not under the maximum. -/
def Copy.overMs : Copy → UInt32
  | .mc => intervalMaxMs
  | .conn => intervalMinMs

/-- The interval after an attempt that succeeds. -/
def Copy.reconnectedMs : Copy → UInt32
  | .mc => intervalMinMs
  | .conn => intervalMaxMs

/-- The number of failures after which the interval grows as from `reconnectedMs`. -/
def Copy.reconnectedGrown : Copy → Nat
  | .mc => 0
  | .conn => 6

/-- What a turn waits for. -/
inductive Frame where
  /-- For the callback that is told of the loss. -/
  | losing
  /-- For the time of the attempt. -/
  | waiting
  /-- For the attempt. -/
  | attempting
  /-- For the callback that is told of the success. -/
  | reconnected
deriving DecidableEq, Repr

/-- The connection state, of `iotx_conn_state_t` or of `iotx_mc_state_t`, which have the
same values, and `reconnect_param`. -/
structure Machine where
  state : ConnState
  nextTime : UInt32
  intervalMs : UInt32
  frames : List Frame
  failures : Nat
  grown : Nat
  scheduled : List (Nat × UInt32)
deriving DecidableEq, Repr

def Machine.initial (copy : Copy) : Machine :=
  ⟨copy.initialState, 0, copy.initialMs, [], 0, 0, []⟩

/-! ## The functions -/

/-- `utils_time_is_expired`. -/
def utilsTimeIsExpired (time now : UInt32) : Bool := now - time < 2147483647

/-- `utils_time_countdown_ms`. -/
def utilsTimeCountdownMs (now millisecond : UInt32) : UInt32 := now + millisecond

/-- The timers are those of `utils_timer.c`, at a reading of the clock. -/
theorem utilsTimeIsExpired_reading (time : UInt32) (c : Timer.Clock) :
    (Timer.utilsTimeIsExpired (some time) c).1 =
      if utilsTimeIsExpired time (Timer.halUptimeMs c).1 then 1 else 0 := by
  simp [Timer.utilsTimeIsExpired, utilsTimeIsExpired]

theorem utilsTimeCountdownMs_reading (time millisecond : UInt32) (c : Timer.Clock) :
    (Timer.utilsTimeCountdownMs (some time) millisecond c).1 =
      some (utilsTimeCountdownMs (Timer.halUptimeMs c).1 millisecond) := rfl

/-- `iotx_mc_handle_reconnect` and `iotx_conn_handle_reconnect` up to the attempt: before
its time the first waits, with `delay`, and the second returns. -/
def handleReconnect (copy : Copy) (m : Machine) (now : UInt32) : Machine :=
  if utilsTimeIsExpired m.nextTime now then { m with frames := .attempting :: m.frames }
  else
    match copy with
    | .mc => { m with frames := .waiting :: m.frames }
    | .conn => m

/-- A turn of the loop, up to where it first waits. -/
def turn (copy : Copy) (m : Machine) (now : UInt32) : Machine :=
  match m.state with
  | .disconnectedReconnecting => handleReconnect copy m now
  | .disconnected => { m with frames := .losing :: m.frames }
  | _ => m

/-- The connection is lost: the rest of the turn. -/
def lost (m : Machine) (now : UInt32) : Machine :=
  { m with
    intervalMs := intervalMinMs
    nextTime := utilsTimeCountdownMs now intervalMinMs
    state := .disconnectedReconnecting
    grown := 0 }

/-- The interval after a failure. -/
def nextInterval (copy : Copy) (intervalMs : UInt32) : UInt32 :=
  if intervalMaxMs > intervalMs then intervalMs * 2 else copy.overMs

/-- What `utils_time_countdown_ms` is called with, where `HAL_Random` returns `random`. -/
def delay (intervalMs random : UInt32) : UInt32 :=
  let interval := intervalMs + random
  if intervalMaxMs < interval then intervalMaxMs else interval

/-- The attempt fails: the rest of `iotx_mc_handle_reconnect` or
`iotx_conn_handle_reconnect`. -/
def failed (copy : Copy) (m : Machine) (now random : UInt32) : Machine :=
  let interval := nextInterval copy m.intervalMs
  { m with
    intervalMs := interval
    nextTime := utilsTimeCountdownMs now (delay interval random)
    failures := m.failures + 1
    grown := m.grown + 1
    scheduled := (m.failures + 1, delay interval random) :: m.scheduled }

/-- The turn whose attempt succeeded ends. -/
def reset (copy : Copy) (m : Machine) : Machine :=
  { m with intervalMs := copy.reconnectedMs, grown := copy.reconnectedGrown }

/-- `iotx_mc_set_client_state` or `iotx_set_conn_state`. -/
def setState (m : Machine) (newState : ConnState) : Machine :=
  { m with
    state := newState
    failures := if newState = .connected then 0 else m.failures }

inductive Action where
  /-- A function other than `lost` sets the state, also an attempt that succeeds. -/
  | setState (newState : ConnState)
  | turn (now : UInt32)
  | waited (now : UInt32)
  | lost (now : UInt32)
  | failed (now random : UInt32)
  | succeeded
  | reset
deriving DecidableEq, Repr

/-- One action; what ends a wait ends that of the frame on top. -/
def step (copy : Copy) (m : Machine) : Action → Except Unit Machine
  | .setState newState =>
      -- only a turn that found the connection lost makes it reconnecting
      if newState = .disconnectedReconnecting then .error () else .ok (setState m newState)
  | .turn now => .ok (turn copy m now)
  | .waited now =>
      match m.frames with
      | .waiting :: frames => .ok (handleReconnect copy { m with frames := frames } now)
      | _ => .error ()
  | .lost now =>
      match m.frames with
      | .losing :: frames => .ok (lost { m with frames := frames } now)
      | _ => .error ()
  | .failed now random =>
      match m.frames with
      | .attempting :: frames => .ok (failed copy { m with frames := frames } now random)
      | _ => .error ()
  | .succeeded =>
      match m.frames with
      | .attempting :: frames =>
          .ok { m with frames := .reconnected :: frames, failures := 0 }
      | _ => .error ()
  | .reset =>
      match m.frames with
      | .reconnected :: frames => .ok (reset copy { m with frames := frames })
      | _ => .error ()

/-! ## The intervals -/

/-- The interval after `k` failures. -/
def intervalAfter : Copy → Nat → Nat
  | .mc, k => if k ≤ 6 then 1000 * 2 ^ k else 60000
  | .conn, k => 1000 * 2 ^ (k % 7)

/-- The least delay that exponential backoff allows after `k` failures. -/
def leastDelay (k : Nat) : Nat := min (1000 * 2 ^ k) 60000

theorem nextInterval_toNat (copy : Copy) (i : UInt32) :
    (nextInterval copy i).toNat = Backoff.grow 60000 copy.overMs.toNat i.toNat := by
  rw [nextInterval, Backoff.grow]
  by_cases h : i.toNat < 60000
  · have hmul : (i * 2).toNat = i.toNat * 2 := by
      rw [UInt32.toNat_mul]
      exact Nat.mod_eq_of_lt (show i.toNat * 2 < 2 ^ 32 by omega)
    rw [if_pos (show intervalMaxMs > i from h), if_pos h, hmul]
  · rw [if_neg (show ¬intervalMaxMs > i from h), if_neg h]

theorem intervalAfter_eq (copy : Copy) (k : Nat) :
    intervalAfter copy k = Backoff.interval 1000 60000 copy.overMs.toNat k := by
  cases copy with
  | mc =>
      induction k with
      | zero => rfl
      | succ k ih =>
          rw [Backoff.interval_succ, ← ih]
          by_cases hk : k ≤ 6
          · interval_cases k <;> rfl
          · rw [intervalAfter, if_neg (by omega), intervalAfter, if_neg hk]
            rfl
  | conn =>
      refine (Backoff.restarting_eq (p := 6) (fun j hj => ?_) (by decide) k).symm
      interval_cases j <;> decide

theorem intervalAfter_succ (copy : Copy) (k : Nat) :
    intervalAfter copy (k + 1) = Backoff.grow 60000 copy.overMs.toNat (intervalAfter copy k) := by
  rw [intervalAfter_eq, intervalAfter_eq, Backoff.interval_succ]

theorem intervalAfter_le (copy : Copy) (k : Nat) : intervalAfter copy k ≤ 120000 := by
  rw [intervalAfter_eq]
  refine Backoff.interval_le (by decide) ?_ k
  cases copy <;> decide

/-- As long as the interval has not started again, it follows the law up to the maximum. -/
theorem leastDelay_eq {copy : Copy} {k : Nat} (hk : copy = .conn → k ≤ 6) :
    leastDelay k = min (intervalAfter copy k) 60000 := by
  cases copy with
  | mc => rw [intervalAfter_eq]; exact (Backoff.min_saturating 1000 60000 k).symm
  | conn => rw [intervalAfter, Nat.mod_eq_of_lt (Nat.lt_succ_of_le (hk rfl)), leastDelay]

theorem leastDelay_le (k : Nat) : leastDelay k ≤ 60000 := Nat.min_le_right _ _

theorem leastDelay_mono {j k : Nat} (h : j ≤ k) : leastDelay j ≤ leastDelay k :=
  min_le_min_right _ (Nat.mul_le_mul_left _ (Nat.pow_le_pow_right (by decide) h))

/-! ## The delay after a failure -/

theorem delay_toNat (i random : UInt32) :
    (delay i random).toNat = min ((i.toNat + random.toNat) % 2 ^ 32) 60000 := by
  rw [delay, ← UInt32.toNat_add]
  by_cases h : 60000 < (i + random).toNat
  · rw [if_pos (show intervalMaxMs < i + random from h)]
    exact (Nat.min_eq_right (Nat.le_of_lt h)).symm
  · rw [if_neg (show ¬intervalMaxMs < i + random from h)]
    exact (Nat.min_eq_left (Nat.le_of_not_lt h)).symm

/-- What `HAL_Random` returns makes up for what an interval lacks of `least`, and the sum
does not wrap around, or it wraps around to as much. -/
def MakesUp (least interval : Nat) (random : UInt32) : Prop :=
  least - interval ≤ random.toNat ∧ interval + random.toNat < 2 ^ 32 ∨
    2 ^ 32 + least ≤ interval + random.toNat

instance (least interval : Nat) (random : UInt32) : Decidable (MakesUp least interval random) :=
  inferInstanceAs (Decidable (_ ∨ _))

theorem le_delay_iff {i random : UInt32} {least interval : Nat} (hi : i.toNat = interval)
    (hleast : least ≤ 60000) (hinterval : interval ≤ 120000) :
    least ≤ (delay i random).toNat ↔ MakesUp least interval random := by
  have hrandom := random.toNat_lt
  rw [delay_toNat, hi, MakesUp]
  omega

/-- An interval that was not started again since the connection was there lacks nothing. -/
theorem makesUp_of_grown {copy : Copy} {j k : Nat} {random : UInt32} (hk : k ≤ j)
    (hj : copy = .conn → j ≤ 6) (hsum : intervalAfter copy j + random.toNat < 2 ^ 32) :
    MakesUp (leastDelay k) (intervalAfter copy j) random := by
  have hle := leastDelay_mono hk
  have hleast : leastDelay j ≤ intervalAfter copy j := by
    rw [leastDelay_eq hj]
    exact Nat.min_le_left _ _
  exact Or.inl ⟨by omega, hsum⟩

/-- Where `HAL_Random` returns less than the interval, the delay is not over the least one of
the next failure. -/
theorem delay_le_leastDelay {copy : Copy} {i random : UInt32} {k : Nat}
    (hi : i.toNat = intervalAfter copy k) (hrandom : random < i) :
    (delay i random).toNat ≤ leastDelay (k + 1) := by
  have hlt : random.toNat < i.toNat := hrandom
  have hmod := Nat.mod_le (i.toNat + random.toNat) (2 ^ 32)
  rw [delay_toNat, leastDelay, Nat.pow_succ]
  cases copy with
  | mc =>
      rw [intervalAfter] at hi
      split at hi
      · omega
      next hlate =>
        have hpow : 2 ^ 7 ≤ 2 ^ k := Nat.pow_le_pow_right (by decide) (Nat.lt_of_not_le hlate)
        omega
  | conn =>
      have hpow : 2 ^ (k % 7) ≤ 2 ^ k := Nat.pow_le_pow_right (by decide) (Nat.mod_le _ _)
      rw [intervalAfter] at hi
      omega

/-! ## Runs -/

/-- The delay set last, if it was after a failure since the connection was there. -/
def lastDelay (m : Machine) : Nat :=
  match m.scheduled with
  | e :: _ => if m.failures = 0 then 0 else e.2.toNat
  | [] => 0

/-- The least delay that is allowed after the next failure: that of the law, and that
of the failure before. -/
def leastNext (m : Machine) : Nat := max (leastDelay (m.failures + 1)) (lastDelay m)

/-- At a failure the random number makes up for what the interval lacks. -/
def Backs (copy : Copy) (m : Machine) : Action → Prop
  | .failed _ random =>
      m.frames.head? = some .attempting →
        MakesUp (leastNext m) (intervalAfter copy (m.grown + 1)) random
  | _ => True

/-- In a series whose interval was not started again, a failure meets the condition if the
delay before it is not over the least one; for that delay see `delay_le_leastDelay`. -/
theorem backs_of_grown {copy : Copy} {m : Machine} {now random : UInt32}
    (hgrown : m.failures ≤ m.grown) (hearly : copy = .conn → m.grown + 1 ≤ 6)
    (hlast : lastDelay m ≤ leastDelay (m.failures + 1))
    (hsum : intervalAfter copy (m.grown + 1) + random.toNat < 2 ^ 32) :
    Backs copy m (.failed now random) := by
  intro _
  rw [leastNext, Nat.max_eq_left hlast]
  exact makesUp_of_grown (Nat.succ_le_succ hgrown) hearly hsum

/-- A delay follows the law. -/
def Follows (e : Nat × UInt32) : Prop := leastDelay e.1 ≤ e.2.toNat ∧ e.2.toNat ≤ 60000

/-- The delays follow the law, and after two failures in a row the second is not less.  The
latest is first. -/
def BacksOff : List (Nat × UInt32) → Prop
  | [] => True
  | e :: es => Follows e ∧ (∀ e' ∈ es.head?, 1 < e.1 → e'.2 ≤ e.2) ∧ BacksOff es

/-- The loop is not reconnecting, and no turn that is at work is. -/
def Resting (m : Machine) : Prop :=
  m.state ≠ .disconnectedReconnecting ∧ ∀ f ∈ m.frames, f = .losing

/-- The interval is that of the number of failures since it was started, and the delays so
far follow the law. -/
structure Backing (copy : Copy) (m : Machine) : Prop where
  interval : Resting m ∨
    (nextInterval copy m.intervalMs).toNat = intervalAfter copy (m.grown + 1)
  backsOff : BacksOff m.scheduled

theorem Backing.initial (copy : Copy) : Backing copy (.initial copy) :=
  ⟨Or.inl ⟨by cases copy <;> decide, List.forall_mem_nil _⟩, trivial⟩

theorem BacksOff.lastDelay_le {m : Machine} (h : BacksOff m.scheduled) : lastDelay m ≤ 60000 := by
  rw [lastDelay]
  split
  next e es hlog =>
    rw [hlog] at h
    split
    · exact Nat.zero_le _
    · exact h.1.2
  next => exact Nat.zero_le _

theorem BacksOff.leastNext_le {m : Machine} (h : BacksOff m.scheduled) : leastNext m ≤ 60000 :=
  max_le (leastDelay_le _) h.lastDelay_le

/-- A delay may be added if it is at least the one that is allowed. -/
theorem BacksOff.cons_iff {m : Machine} {d : UInt32} (h : BacksOff m.scheduled)
    (hd : d.toNat ≤ 60000) :
    BacksOff ((m.failures + 1, d) :: m.scheduled) ↔ leastNext m ≤ d.toNat := by
  rw [leastNext, Nat.max_le, lastDelay, BacksOff, Follows]
  cases hlog : m.scheduled with
  | nil => simp [BacksOff, hd]
  | cons e es =>
      rw [hlog] at h
      by_cases hfailures : m.failures = 0
      · simp [hfailures, hd, h]
      · have hlate : 1 < m.failures + 1 := by omega
        simp [hfailures, hd, h, hlate, UInt32.le_iff_toNat_le]

theorem delay_le (i random : UInt32) : (delay i random).toNat ≤ 60000 := by
  rw [delay_toNat]
  exact Nat.min_le_right _ _

theorem Backing.backsOff_failed_iff {copy : Copy} {m : Machine} {random : UInt32}
    (h : Backing copy m) (hwork : ¬Resting m) :
    BacksOff ((m.failures + 1, delay (nextInterval copy m.intervalMs) random) :: m.scheduled) ↔
      MakesUp (leastNext m) (intervalAfter copy (m.grown + 1)) random :=
  (h.backsOff.cons_iff (delay_le _ _)).trans
    (le_delay_iff (h.interval.resolve_left hwork) h.backsOff.leastNext_le (intervalAfter_le _ _))

/-- The interval grows with the failures, whatever the state. -/
theorem nextInterval_after {copy : Copy} {i : UInt32} {k : Nat}
    (h : i.toNat = intervalAfter copy k) :
    (nextInterval copy i).toNat = intervalAfter copy (k + 1) := by
  rw [nextInterval_toNat, h, intervalAfter_succ]

theorem nextInterval_least (copy : Copy) :
    (nextInterval copy intervalMinMs).toNat = intervalAfter copy (0 + 1) := by
  cases copy <;> rfl

theorem nextInterval_reconnected (copy : Copy) :
    (nextInterval copy copy.reconnectedMs).toNat =
      intervalAfter copy (copy.reconnectedGrown + 1) := by
  cases copy <;> rfl

/-- What is left of a stack of turns is at rest if the stack was. -/
theorem Resting.pop {m : Machine} {f : Frame} {frames : List Frame} (h : Resting m)
    (hframes : m.frames = f :: frames) : Resting { m with frames } :=
  ⟨h.1, fun g hg => h.2 g (hframes ▸ List.mem_cons_of_mem _ hg)⟩

theorem not_resting {m : Machine} {f : Frame} {frames : List Frame}
    (hframes : m.frames = f :: frames) (hf : f ≠ .losing) : ¬Resting m :=
  fun h => hf (h.2 f (hframes ▸ List.mem_cons_self))

theorem Backing.handleReconnect {copy : Copy} {m : Machine} {now : UInt32}
    (hinterval : (nextInterval copy m.intervalMs).toNat = intervalAfter copy (m.grown + 1))
    (hlog : BacksOff m.scheduled) : Backing copy (handleReconnect copy m now) := by
  rw [Reconnect.handleReconnect.eq_def]
  split
  · exact ⟨Or.inr hinterval, hlog⟩
  · cases copy with
    | mc => exact ⟨Or.inr hinterval, hlog⟩
    | conn => exact ⟨Or.inr hinterval, hlog⟩

theorem Backing.turn {copy : Copy} {m : Machine} {now : UInt32} (h : Backing copy m) :
    Backing copy (turn copy m now) := by
  rw [Reconnect.turn]
  split
  next hstate =>
    exact .handleReconnect (h.interval.resolve_left fun hrest => hrest.1 hstate) h.backsOff
  next hstate =>
    refine ⟨h.interval.imp_left fun hrest => ⟨?_, List.forall_mem_cons.mpr ⟨rfl, hrest.2⟩⟩,
      h.backsOff⟩
    exact hrest.1
  next => exact h

theorem Backing.step {copy : Copy} {m m' : Machine} {a : Action} (h : Backing copy m)
    (hbacks : Backs copy m a) (hstep : step copy m a = .ok m') : Backing copy m' := by
  cases a with
  | setState newState =>
      rw [Reconnect.step] at hstep
      split at hstep
      · cases hstep
      next hnew =>
        cases hstep
        exact ⟨h.interval.imp_left fun hrest => ⟨hnew, hrest.2⟩, h.backsOff⟩
  | turn now => cases hstep; exact h.turn
  | waited now =>
      rw [Reconnect.step] at hstep
      split at hstep
      next frames hframes =>
        cases hstep
        exact .handleReconnect (h.interval.resolve_left (not_resting hframes (by decide)))
          h.backsOff
      next => cases hstep
  | lost now =>
      rw [Reconnect.step] at hstep
      split at hstep
      · cases hstep
        exact ⟨Or.inr (nextInterval_least copy), h.backsOff⟩
      · cases hstep
  | failed now random =>
      rw [Reconnect.step] at hstep
      split at hstep
      next frames hframes =>
        cases hstep
        have hwork := not_resting hframes (by decide)
        have hnext := h.interval.resolve_left hwork
        exact ⟨Or.inr (nextInterval_after hnext),
          (h.backsOff_failed_iff hwork).mpr (hbacks (by rw [hframes]; rfl))⟩
      next => cases hstep
  | succeeded =>
      rw [Reconnect.step] at hstep
      split at hstep
      next frames hframes =>
        cases hstep
        exact ⟨Or.inr (h.interval.resolve_left (not_resting hframes (by decide))), h.backsOff⟩
      next => cases hstep
  | reset =>
      rw [Reconnect.step] at hstep
      split at hstep
      · cases hstep
        exact ⟨Or.inr (nextInterval_reconnected copy), h.backsOff⟩
      · cases hstep

/-- A failure that does not meet the condition schedules a delay against the law. -/
theorem not_backsOff_failed {copy : Copy} {m : Machine} {a : Action} (h : Backing copy m)
    (hnot : ¬Backs copy m a) :
    ∃ m', Reconnect.step copy m a = .ok m' ∧ ¬BacksOff m'.scheduled := by
  cases a with
  | failed now random =>
      obtain ⟨hframes, hnot⟩ := Classical.not_imp.mp hnot
      obtain ⟨frames, hframes⟩ := List.head?_eq_some_iff.mp hframes
      refine ⟨_, by rw [Reconnect.step, hframes], fun hall => hnot ?_⟩
      exact (h.backsOff_failed_iff (not_resting hframes (by decide))).mp hall
  | _ => exact absurd trivial hnot

/-- The connection is lost and the attempts to connect fail, one after the other. -/
def failing (times : Nat) : List Action :=
  [.setState .disconnected, .turn 0, .lost 0] ++
    (List.range times).flatMap fun j =>
      [.turn (UInt32.ofNat (60000 * (j + 1))), .failed (UInt32.ofNat (60000 * (j + 1))) 0]

/-- In either copy the network that goes away and comes back after the third failure makes
the fourth delay less. -/
theorem blip_not_backsOff (copy : Copy) :
    ∃ m, run (step copy) (.initial copy) (failing 3 ++ failing 1) = .ok m ∧
      m.scheduled.head? = some (4, 2000) := by
  cases copy with
  | mc => exact ⟨_, rfl, rfl⟩
  | conn => exact ⟨_, rfl, rfl⟩

end IotKit.CommIf.Reconnect
