import Mathlib.Logic.Relation
import IotKit.CommIf.Loop

/-!
# The nesting of the system loop

A call of `IOT_Comm_Yield` that begins a delay can be entered again without bound: the inner
call finds the same client not connected, or the same connection to be made, and has a
countdown of its own, so it comes to a delay as well.  A call that begins no delay is not
entered again at all.
-/

namespace IotKit.CommIf.Loop

open Mqtt (McState)

/-- A step that leaves the functions below at work. -/
def StepAbove (base : List Frame) (m m' : Machine) : Prop :=
  (∃ a, step m a = .ok m') ∧ base <:+ m'.frames

/-- What runs while the functions of `base` are at work. -/
abbrev Above (base : List Frame) : Machine → Machine → Prop :=
  Relation.ReflTransGen (StepAbove base)

/-- While the delay on top lasts, the calls that are made in it nest to a bounded depth. -/
def BoundedNesting (m : Machine) : Prop :=
  ∀ startMillis ms frames, m.frames = .delaying startMillis ms :: frames →
    ∃ depth, ∀ m', Above m.frames m m' → m'.frames.length ≤ depth

/-- The action does not begin a delay: a pass that failed is not followed by another one
while time is left, and `iotx_comm_connect` has no client to release. -/
def Undelayed (m : Machine) : Action → Prop
  | .wait now₁ now₂ now₃ => ∀ a time frames, m.frames = .mqttYield a time .failed :: frames →
      m.now ≤ now₁ → now₁ ≤ now₂ → now₂ ≤ now₃ → waitTime time now₁ now₂ = 0
  | .startDelay now => m.now ≤ now → ∀ a delays connects frames,
      m.frames ≠ .releasing a (delays + 1) connects :: frames
  | _ => True

/-! ## Without delays -/

/-- What holds while the call, the only one, is in the function. -/
def Reached (m : Machine) : Frame → Prop
  | .delaying _ _ => False
  | .mqttYield _ _ _ => m.pclient.isSome = true
  | .yielded => True
  | .releasing _ _ _ => m.connState = .disconnectedReconnecting
  | .connecting => m.connState = .disconnectedReconnecting

/-- The call is the only one, and has not come to a delay. -/
inductive Calm (m : Machine) : Prop
  | returned (h : m.frames = [])
  | inside {f : Frame} (h : m.frames = [f]) (hf : Reached m f)

theorem Calm.top {m : Machine} {f : Frame} {frames : List Frame} (h : Calm m)
    (htop : m.frames = f :: frames) : frames = [] ∧ Reached m f := by
  cases h with
  | returned h => cases h.symm.trans htop
  | inside h hf =>
      cases h.symm.trans htop
      exact ⟨rfl, hf⟩

theorem Calm.bounded {m : Machine} (h : Calm m) : BoundedNesting m := by
  intro startMillis ms frames htop
  exact (h.top htop).2.elim

theorem called_calm (m : Machine) (now : UInt32) : Calm (called m now) := by
  rw [called, iotCommYield]
  split
  · exact .returned rfl
  · split
    next => exact .inside rfl trivial
    next a hclient => exact .inside rfl (Option.isSome_of_eq_some hclient)

theorem handleState_calm {m : Machine} (h : m.frames = []) (expired : Bool) :
    Calm (handleState m expired) := by
  rw [handleState]
  split
  next hstate =>
    split
    · exact .returned h
    · split
      next => exact .inside (congrArg _ h) hstate
      next => exact .inside (congrArg _ h) hstate
  next => exact .returned h
  next => exact .returned h

theorem afterYield_calm {m : Machine} (h : m.frames = []) (upload : Upload) (expired : Bool) :
    Calm (afterYield m upload expired) := by
  rw [afterYield]
  have hlost : Calm (handleState { m with connState := .disconnected } expired) :=
    handleState_calm (m := { m with connState := .disconnected }) h expired
  split
  · exact hlost
  · split
    · exact handleState_calm h expired
    · split
      next => exact hlost
      next a hclient =>
        split
        · cases upload with
          | none => exact .returned h
          | sent => exact .returned h
          | failed lost =>
              cases lost
              · exact .returned h
              · exact .returned h
        · exact hlost

theorem connect_calm {m : Machine} (h : m.frames = [])
    (hstate : m.connState = .disconnectedReconnecting) (outcome : Connect) :
    Calm (connect m outcome) := by
  cases outcome with
  | noClient => exact .returned h
  | refused => exact .inside (congrArg _ h) hstate
  | sessionFailed => exact .inside (congrArg _ h) hstate
  | accepted => exact .returned h

theorem Calm.step {m m' : Machine} {a : Action} (h : Calm m) (ha : Undelayed m a)
    (hstep : step m a = .ok m') : Calm m' := by
  cases a with
  | setNetworkState newState =>
      cases hstep
      cases h with
      | returned h => exact .returned h
      | @inside f h hf =>
          cases f with
          | delaying => exact hf.elim
          | mqttYield | yielded | releasing | connecting => exact .inside h hf
  | pass rc lost =>
      rw [Loop.step] at hstep
      split at hstep
      next htop =>
        obtain ⟨rfl, hclient⟩ := h.top htop
        split at hstep
        · cases hstep
          exact .inside rfl hclient
        · cases hstep
          exact .inside rfl hclient
      next => cases hstep
  | check now =>
      rw [Loop.step] at hstep
      split at hstep
      next htop =>
        obtain ⟨rfl, hclient⟩ := h.top htop
        split at hstep
        · cases hstep
        · split at hstep
          · cases hstep
            exact .inside rfl trivial
          · cases hstep
            exact .inside rfl hclient
      next => cases hstep
  | wait now₁ now₂ now₃ =>
      rw [Loop.step] at hstep
      split at hstep
      next a time frames htop =>
        obtain ⟨rfl, hclient⟩ := h.top htop
        split at hstep
        · cases hstep
        next hclock =>
          simp only [not_or, UInt32.not_lt] at hclock
          have hzero := ha a time [] htop hclock.1 hclock.2.1 hclock.2.2
          rw [if_pos hzero] at hstep
          cases hstep
          exact .inside rfl hclient
      next => cases hstep
  | poll now₁ now₂ =>
      rw [Loop.step] at hstep
      split at hstep
      next htop => exact (h.top htop).2.elim
      next => cases hstep
  | startDelay now =>
      rw [Loop.step] at hstep
      split at hstep
      next a delays connects frames htop =>
        split at hstep
        · cases hstep
        next hclock => exact absurd htop (ha (UInt32.not_lt.mp hclock) a delays connects frames)
      next => cases hstep
  | released =>
      rw [Loop.step] at hstep
      split at hstep
      next a connects frames htop =>
        obtain ⟨rfl, hstate⟩ := h.top htop
        cases hstep
        cases connects
        · exact .returned rfl
        · exact .inside rfl hstate
      next => cases hstep
  | connect outcome =>
      rw [Loop.step] at hstep
      split at hstep
      next htop =>
        obtain ⟨rfl, hstate⟩ := h.top htop
        cases hstep
        exact connect_calm (m := { m with frames := [] }) rfl hstate outcome
      next => cases hstep
  | finish upload expired =>
      rw [Loop.step] at hstep
      split at hstep
      next htop =>
        obtain ⟨rfl, -⟩ := h.top htop
        cases hstep
        exact afterYield_calm rfl upload expired
      next => cases hstep

/-! ## Within a delay -/

/-- A delay that has just begun, in a call that is going to come to a delay again. -/
structure Delaying (m : Machine) : Prop where
  top : ∃ ms frames, m.frames = .delaying m.now ms :: frames
  loops : m.pclient.isSome = true ∨ m.connState = .disconnectedReconnecting

theorem elapsedMillis_self (t : UInt32) : elapsedMillis t t = 0 := by
  simp [elapsedMillis]

/-- A countdown is not over at once. -/
theorem utilsTimeIsExpired_countdown (t : UInt32) :
    utilsTimeIsExpired (t + 200) t = false := by
  have hback : t - (t + 200) = 0 - 200 := by grind
  rw [utilsTimeIsExpired, hback]
  decide

theorem waitTime_countdown (t : UInt32) : waitTime (t + 200) t t = 20 := by
  have hleft : t + 200 - t = 200 := by grind
  rw [waitTime, iotxTimeLeft, utilsTimeIsExpired_countdown, hleft]
  decide

section Deeper

variable {base : List Frame} {m m' : Machine}

theorem Above.step {n : Machine} (h : Above base m m') (a : Action) (hstep : step m' a = .ok n)
    (hbase : base <:+ n.frames) : Above base m n :=
  h.tail ⟨⟨a, hstep⟩, hbase⟩

theorem iotCommYield_frames (m : Machine) (now : UInt32) :
    m.frames <:+ (iotCommYield m now).frames := by
  rw [iotCommYield]
  split
  · exact List.suffix_refl _
  · split
    · exact List.suffix_cons _ _
    · exact List.suffix_cons _ _

/-- In the delay the system loop enters `IOT_Comm_Yield`, with the network up. -/
theorem Delaying.enter (h : Delaying m) (hbase : base <:+ m.frames) :
    Above base m (iotCommYield { m with networkState := .connected } m.now) := by
  obtain ⟨ms, frames, htop⟩ := h.top
  have hup : Above base m { m with networkState := .connected } :=
    Above.step .refl (.setNetworkState .connected) rfl hbase
  refine Above.step hup (.poll m.now m.now) ?_
    (hbase.trans (iotCommYield_frames { m with networkState := .connected } m.now))
  simp only [Loop.step, htop, elapsedMillis_self, UInt32.lt_irrefl, or_self, if_false,
    UInt32.not_lt_zero]

/-- With a client: the pass of the inner call fails, and time is left. -/
theorem Delaying.deeper_client (h : Delaying m) (hbase : base <:+ m.frames) {a : Nat}
    (hclient : m.pclient = some a) :
    ∃ clients, Above base m
      { m with
        networkState := .connected
        clients
        frames := .delaying m.now 20 :: .mqttYield a (m.now + 200) .ready :: m.frames } := by
  have henter := h.enter hbase
  obtain ⟨networkState, connState, clients, pclient, now, frames⟩ := m
  obtain rfl : pclient = some a := hclient
  have hgrow (f : Frame) : base <:+ f :: frames := hbase.trans (List.suffix_cons _ _)
  let start : Machine := ⟨networkState, connState, clients, some a, now, frames⟩
  obtain ⟨clients', hpass⟩ : ∃ clients', Above base start
      ⟨.connected, connState, clients', some a, now,
        .mqttYield a (now + 200) (.ended false) :: frames⟩ := by
    let inner : Machine :=
      ⟨.connected, connState, clients, some a, now, .mqttYield a (now + 200) .ready :: frames⟩
    by_cases hstate : inner.client a = .connected
    · exact ⟨_, Above.step henter (.pass false true) (if_pos hstate) (hgrow _)⟩
    · exact ⟨_, Above.step henter (.pass false true) (if_neg hstate) (hgrow _)⟩
  have hcheck : Above base start
      ⟨.connected, connState, clients', some a, now,
        .mqttYield a (now + 200) .failed :: frames⟩ := by
    refine Above.step hpass (.check now) ?_ (hgrow _)
    simp [Loop.step, utilsTimeIsExpired_countdown]
  refine ⟨clients',
    Above.step hcheck (.wait now now now) ?_ ((hgrow _).trans (List.suffix_cons _ _))⟩
  simp [Loop.step, waitTime_countdown]

/-- Without one: the inner call makes a client that does not connect, and releases it. -/
theorem Delaying.deeper_reconnecting (h : Delaying m) (hbase : base <:+ m.frames)
    (hclient : m.pclient = none) (hstate : m.connState = .disconnectedReconnecting) :
    Above base m
      { m with
        networkState := .connected
        clients := m.clients ++ [.initialized]
        frames := .delaying m.now 100 :: .releasing m.clients.length 1 false :: m.frames } := by
  have henter := h.enter hbase
  obtain ⟨networkState, connState, clients, pclient, now, frames⟩ := m
  obtain rfl : pclient = none := hclient
  obtain rfl : connState = .disconnectedReconnecting := hstate
  have hgrow (f : Frame) : base <:+ f :: frames := hbase.trans (List.suffix_cons _ _)
  let start : Machine := ⟨networkState, .disconnectedReconnecting, clients, none, now, frames⟩
  have hfinish : Above base start
      ⟨.connected, .disconnectedReconnecting, clients, none, now, .connecting :: frames⟩ :=
    Above.step henter (.finish .none true) rfl (hgrow _)
  have hconnect : Above base start
      ⟨.connected, .disconnectedReconnecting, clients ++ [.initialized], none, now,
        .releasing clients.length 2 false :: frames⟩ :=
    Above.step hfinish (.connect .refused) rfl (hgrow _)
  refine Above.step hconnect (.startDelay now) ?_ ((hgrow _).trans (List.suffix_cons _ _))
  simp [Loop.step]

/-- The inner call comes to a delay of its own. -/
theorem Delaying.deeper (h : Delaying m) (hbase : base <:+ m.frames) :
    ∃ m', Above base m m' ∧ Delaying m' ∧ base <:+ m'.frames ∧
      m.frames.length < m'.frames.length := by
  have hgrow (f g : Frame) : base <:+ f :: g :: m.frames :=
    hbase.trans ((List.suffix_cons _ _).trans (List.suffix_cons _ _))
  have hlength (f g : Frame) : m.frames.length < (f :: g :: m.frames).length := by
    simp only [List.length_cons]
    omega
  cases hclient : m.pclient with
  | some a =>
      obtain ⟨clients, habove⟩ := h.deeper_client hbase hclient
      exact ⟨_, habove, ⟨⟨20, _, rfl⟩, h.loops⟩, hgrow _ _, hlength _ _⟩
  | none =>
      have hstate : m.connState = .disconnectedReconnecting := by simpa [hclient] using h.loops
      exact ⟨_, h.deeper_reconnecting hbase hclient hstate, ⟨⟨100, _, rfl⟩, Or.inr hstate⟩,
        hgrow _ _, hlength _ _⟩

theorem Delaying.nests (h : Delaying m) (depth : Nat) :
    ∃ m', Above m.frames m m' ∧ Delaying m' ∧ m.frames <:+ m'.frames ∧
      depth ≤ m'.frames.length := by
  induction depth with
  | zero => exact ⟨m, .refl, h, List.suffix_refl _, Nat.zero_le _⟩
  | succ depth ih =>
      obtain ⟨n, habove, hn, hbase, hdepth⟩ := ih
      obtain ⟨m', hdeeper, hm', hbase', hlength⟩ := hn.deeper hbase
      exact ⟨m', habove.trans hdeeper, hm', hbase', Nat.lt_of_le_of_lt hdepth hlength⟩

theorem Delaying.unbounded (h : Delaying m) : ¬BoundedNesting m := by
  obtain ⟨ms, frames, htop⟩ := h.top
  intro hbounded
  obtain ⟨depth, hdepth⟩ := hbounded _ ms frames htop
  obtain ⟨m', habove, -, -, hlength⟩ := h.nests (depth + 1)
  exact absurd (hdepth m' habove) (Nat.not_le.mpr hlength)

end Deeper

/-! ## Runs -/

/-- An action that begins a delay leaves a call that may nest without bound. -/
theorem Calm.delays {m : Machine} {a : Action} (h : Calm m) (ha : ¬Undelayed m a) :
    ∃ m', Loop.step m a = .ok m' ∧ ¬BoundedNesting m' := by
  cases a with
  | wait now₁ now₂ now₃ =>
      simp only [Undelayed, not_forall] at ha
      obtain ⟨a, time, frames, htop, hclock₁, hclock₂, hclock₃, hwait⟩ := ha
      have hclock : ¬(now₁ < m.now ∨ now₂ < now₁ ∨ now₃ < now₂) := by
        simpa only [not_or, UInt32.not_lt] using ⟨hclock₁, hclock₂, hclock₃⟩
      refine ⟨_, by simp only [Loop.step, htop, hclock, hwait, if_false]; rfl,
        Delaying.unbounded ?_⟩
      exact ⟨⟨_, _, rfl⟩, Or.inl (h.top htop).2⟩
  | startDelay now =>
      simp only [Undelayed, not_forall, not_not] at ha
      obtain ⟨hclock, a, delays, connects, frames, htop⟩ := ha
      have hstate : m.connState = .disconnectedReconnecting := (h.top htop).2
      refine ⟨_, by simp only [Loop.step, htop, UInt32.not_lt.mpr hclock, if_false]; rfl,
        Delaying.unbounded ⟨⟨_, _, rfl⟩, Or.inr ?_⟩⟩
      cases delays
      · exact hstate
      · exact hstate
  | _ => exact absurd trivial ha

/-- Whatever the call does, the calls nested in it have a bounded depth. -/
def Bounded (m : Machine) (now : UInt32) (as : List Action) : Prop :=
  ∀ bs n, bs <+: as → Runs.run step (called m now) bs = .ok n → BoundedNesting n

theorem run_bounded_iff (m : Machine) (now : UInt32) (as : List Action) :
    Bounded m now as ↔ Runs.Guarded step Undelayed (called m now) as :=
  Runs.always_good_iff Calm.bounded Calm.step Calm.delays (called_calm m now)

/-- The network is up and the client has lost its connection. -/
def lostClient : Machine := ⟨.connected, .connected, [.disconnected], some 0, 0, []⟩

theorem not_bounded_lostClient :
    ¬Bounded lostClient 0 [.pass false false, .check 0, .wait 0 0 0] := by
  intro h
  have hrun : Runs.run step (called lostClient 0) [.pass false false, .check 0, .wait 0 0 0] =
      .ok { lostClient with frames := [.delaying 0 20, .mqttYield 0 200 .ready] } := by
    decide
  exact Delaying.unbounded ⟨⟨20, _, rfl⟩, Or.inl rfl⟩ (h _ _ (List.prefix_refl _) hrun)

end IotKit.CommIf.Loop
