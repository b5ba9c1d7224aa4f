import IotKit.CommIf.Loop
import IotKit.CommIf.Simulation

/-!
# The system loop as a run of the machine

`Loop` follows `IOT_Comm_Yield` through the delays of the client; to the machine of `Status`
all of `iotx_comm_yield` is one wait, and so is an attempt to connect.  Every run of the loop is
a run of that machine in which the event callback returns at once.
-/

namespace IotKit.CommIf.Loop

/-- What the machine has at work for a frame of the loop. -/
def Frame.waits : Frame → List Status.Frame
  | .delaying _ _ => []
  | .mqttYield _ _ _ => [.yielding]
  | .yielded => [.yielding]
  | .releasing _ _ _ => [.reconnecting]
  | .connecting => [.reconnecting]

/-- The two states are the same, and the same functions are at work. -/
structure Represents (n : Status.Machine) (m : Machine) : Prop where
  connState : n.connState = m.connState
  networkState : n.networkState = m.networkState
  frames : n.frames = m.frames.flatMap Frame.waits

/-- The machine can go on to represent `m`. -/
def Reaches (n : Status.Machine) (m : Machine) : Prop :=
  ∃ as n', Runs.run Status.step n as = .ok n' ∧ Represents n' m

section Steps

variable {n n' : Status.Machine} {m m' : Machine}

theorem Represents.reaches (h : Represents n m) : Reaches n m := ⟨[], n, rfl, h⟩

theorem Reaches.step {a : Status.Action} (hstep : Status.step n a = .ok n')
    (h : Reaches n' m) : Reaches n m := by
  obtain ⟨as, u, hrun, hend⟩ := h
  exact ⟨a :: as, u, Runs.run_cons.mpr ⟨n', hstep, hrun⟩, hend⟩

theorem Reaches.run {as : List Status.Action} (hrun : Runs.run Status.step n as = .ok n')
    (h : Reaches n' m) : Reaches n m := by
  obtain ⟨bs, u, hrun', hend⟩ := h
  exact ⟨as ++ bs, u, Runs.run_append.mpr ⟨n', hrun, hrun'⟩, hend⟩

/-- What is at work runs the loop. -/
theorem Represents.looping (h : Represents n m) : Status.Looping n := by
  intro f hf
  rw [h.frames] at hf
  obtain ⟨g, -, hg⟩ := List.mem_flatMap.mp (List.mem_of_mem_head? hf)
  cases g with
  | delaying => cases hg
  | _ => cases List.mem_singleton.mp hg; rfl

theorem setConnState_reaches (h : Represents n m) (newState : ConnState) :
    Reaches (Status.iotxSetConnState n newState []) { m with connState := newState } := by
  obtain ⟨as, told, hrun⟩ := Status.setConnState_run n newState []
  have hloop : Status.Looping (Status.store { n with frames := [] ++ n.frames, told } newState) :=
    h.looping
  rw [hloop.resume] at hrun
  exact ⟨as, _, hrun, rfl, h.networkState, h.frames⟩

theorem iotCommYield_reaches (h : Represents n m) (now : UInt32) :
    Reaches n (iotCommYield m now) := by
  have hpossible := h.looping.possible (c := .yield) nofun nofun
  refine Reaches.step (a := .call .yield) (if_pos hpossible) ?_
  rw [Status.enter, Status.iotCommYield, iotCommYield]
  split
  next hdown =>
    rw [Status.iotNetworkIsConnected, if_pos (h.networkState ▸ hdown)]
    exact setConnState_reaches h .disconnected
  next hup =>
    rw [Status.iotNetworkIsConnected_up (h.networkState.trans (not_not.mp hup))]
    split
    · exact Represents.reaches ⟨h.connState, h.networkState, congrArg _ h.frames⟩
    · exact Represents.reaches ⟨h.connState, h.networkState, congrArg _ h.frames⟩

/-- The switch at the end of `IOT_Comm_Yield`. -/
theorem handleState_reaches (h : Represents n m) (expired : Bool) :
    Reaches (Status.yieldTail n expired) (handleState m expired) := by
  rw [Status.yieldTail, h.connState, handleState]
  cases hstate : m.connState with
  | disconnectedReconnecting =>
      rw [if_pos rfl]
      dsimp only
      cases expired with
      | false => exact h.reaches
      | true =>
          cases m.pclient with
          | none => exact Represents.reaches ⟨rfl, h.networkState, congrArg _ h.frames⟩
          | some a => exact Represents.reaches ⟨rfl, h.networkState, congrArg _ h.frames⟩
  | disconnected => exact Represents.reaches ⟨rfl, h.networkState, h.frames⟩
  | invalid => exact h.reaches
  | initialized => exact h.reaches
  | connected => exact h.reaches

/-- `IOT_Comm_IsConnected` finds the connection lost, and `IOT_Comm_Yield` goes on. -/
theorem lostState_reaches (h : Represents n m) (expired : Bool) :
    Reaches (Status.iotxSetConnState n .disconnected [.yielded expired])
      (handleState { m with connState := .disconnected } expired) := by
  obtain ⟨as, told, hrun⟩ := Status.setConnState_run n .disconnected [.yielded expired]
  have hlost : Represents (Status.store { n with told } .disconnected)
      { m with connState := .disconnected } := ⟨rfl, h.networkState, h.frames⟩
  exact Reaches.run hrun (handleState_reaches hlost expired)

/-- What `IOT_Comm_Yield` finds after `iotx_comm_yield`. -/
def found (m : Machine) (upload : Upload) (expired : Bool) : Status.Yielded where
  rst := match m.pclient with
    | none => false
    | some a => decide (m.client a = .connected)
  automatic := match upload with
    | .none => none
    | .sent => some true
    | .failed _ => some false
  expired

theorem afterYield_reaches (h : Represents n m) (upload : Upload) (expired : Bool) :
    Reaches (Status.afterYield n (found m upload expired)) (afterYield m upload expired) := by
  have hnet := h.networkState
  have hconn := h.connState
  rw [afterYield]
  split
  next hdown =>
    have hdown' : n.networkState ≠ .connected := hnet ▸ hdown
    rw [Status.afterYield, if_neg fun hall => hdown' hall.1, Status.iotCommIsConnected,
      Status.iotNetworkIsConnected, if_pos hdown']
    exact lostState_reaches h expired
  next hup =>
    have hup' : n.networkState = .connected := hnet.trans (not_not.mp hup)
    split
    next hnot =>
      have hnot' : n.connState ≠ .connected := hconn ▸ hnot
      rw [Status.afterYield, if_neg fun hall => hnot' hall.2.1, Status.iotCommIsConnected,
        Status.iotNetworkIsConnected_up hup', if_pos hnot']
      exact handleState_reaches h expired
    next hstate =>
      have hstate' : n.connState = .connected := hconn.trans (not_not.mp hstate)
      have hlost (hrst : (found m upload expired).rst = false) :
          Reaches (Status.afterYield n (found m upload expired))
            (handleState { m with connState := .disconnected } expired) := by
        have hnot : ¬(n.networkState = .connected ∧ n.connState = .connected ∧
            (found m upload expired).rst = true) := fun hall =>
              Bool.false_ne_true (hrst.symm.trans hall.2.2)
        rw [Status.afterYield, if_neg hnot, Status.iotCommIsConnected,
          Status.iotNetworkIsConnected_up hup', if_neg (not_not.mpr hstate'), hrst]
        exact lostState_reaches h expired
      split
      next hnone => exact hlost (by simp [found, hnone])
      next a hclient =>
        split
        next hconnected =>
          have hrst : (found m upload expired).rst = true := by simp [found, hclient, hconnected]
          rw [Status.afterYield, if_pos ⟨hup', hstate', hrst⟩]
          cases upload with
          | none => exact h.reaches
          | sent =>
              change Reaches (Status.iotCommSendData n true) m
              rw [Status.iotCommSendData, Status.iotNetworkIsConnected_up hup',
                if_neg (not_not.mpr hstate'), if_pos rfl]
              exact h.reaches
          | failed lost =>
              change Reaches (Status.iotCommSendData n false) (sendAutomatic m a (.failed lost))
              rw [Status.iotCommSendData, Status.iotNetworkIsConnected_up hup',
                if_neg (not_not.mpr hstate'), if_neg Bool.false_ne_true]
              have hset := setConnState_reaches h .disconnected
              cases lost with
              | false => exact hset
              | true =>
                  obtain ⟨as, u, hrun, hend⟩ := hset
                  exact ⟨as, u, hrun, hend.connState, hend.networkState, hend.frames⟩
        next hconnected =>
          exact hlost (by simp [found, hclient, hconnected])

theorem connect_reaches (hconn : n.connState = m.connState)
    (hnet : n.networkState = m.networkState)
    (hframes : n.frames = .reconnecting :: m.frames.flatMap Frame.waits) (outcome : Connect) :
    Reaches n (connect m outcome) := by
  have hreturns (ok : Bool) : Status.step n (.connectReturns ok) =
      .ok (if ok then Status.iotxSetConnState { n with frames := m.frames.flatMap Frame.waits }
        .connected [] else { n with frames := m.frames.flatMap Frame.waits }) := by
    rw [Status.step, hframes]
  have hback : Represents { n with frames := m.frames.flatMap Frame.waits } m :=
    ⟨hconn, hnet, rfl⟩
  cases outcome with
  | noClient => exact hback.reaches.step (hreturns false)
  | refused => exact Represents.reaches ⟨hconn, hnet, hframes⟩
  | sessionFailed => exact Represents.reaches ⟨hconn, hnet, hframes⟩
  | accepted =>
      obtain ⟨as, u, hrun, hend⟩ := setConnState_reaches hback .connected
      exact Reaches.step (hreturns true)
        ⟨as, u, hrun, hend.connState, hend.networkState, hend.frames⟩

/-- What the function on top does next is nothing to the machine, or what it waits for. -/
theorem step_reaches {a : Action} (h : Represents n m) (hstep : step m a = .ok m') :
    Reaches n m' := by
  have hconn := h.connState
  have hnet := h.networkState
  have hframes := h.frames
  cases a with
  | setNetworkState newState =>
      cases hstep
      have hpossible := h.looping.possible (c := .setNetworkState newState) nofun nofun
      refine Reaches.step (a := .call (.setNetworkState newState)) (if_pos hpossible) ?_
      rw [Status.enter, Status.iotxSetNetworkState]
      split
      next =>
        have hset : Represents { n with networkState := newState }
            { m with networkState := newState } := ⟨hconn, rfl, hframes⟩
        exact hset.reaches.step (a := .callbackReturns) rfl
      next hsame => exact Represents.reaches ⟨hconn, not_not.mp hsame, hframes⟩
  | pass rc lost =>
      rw [step] at hstep
      split at hstep
      next htop =>
        rw [htop] at hframes
        split at hstep <;> cases hstep <;> exact Represents.reaches ⟨hconn, hnet, hframes⟩
      next => cases hstep
  | check now =>
      rw [step] at hstep
      split at hstep
      next htop =>
        rw [htop] at hframes
        split at hstep
        · cases hstep
        split at hstep <;> cases hstep <;> exact Represents.reaches ⟨hconn, hnet, hframes⟩
      next => cases hstep
  | wait now₁ now₂ now₃ =>
      rw [step] at hstep
      split at hstep
      next htop =>
        rw [htop] at hframes
        split at hstep
        · cases hstep
        split at hstep <;> cases hstep <;> exact Represents.reaches ⟨hconn, hnet, hframes⟩
      next => cases hstep
  | poll now₁ now₂ =>
      rw [step] at hstep
      split at hstep
      next htop =>
        split at hstep
        · cases hstep
        split at hstep
        · rw [htop] at hframes
          cases hstep
          exact Represents.reaches ⟨hconn, hnet, hframes⟩
        · cases hstep
          exact iotCommYield_reaches (m := { m with now := now₁ }) ⟨hconn, hnet, hframes⟩ now₂
      next => cases hstep
  | startDelay now =>
      rw [step] at hstep
      split at hstep
      next htop =>
        rw [htop] at hframes
        split at hstep
        · cases hstep
        cases hstep
        split <;> exact Represents.reaches ⟨hconn, hnet, hframes⟩
      next => cases hstep
  | released =>
      rw [step] at hstep
      split at hstep
      next connects frames htop =>
        rw [htop] at hframes
        cases hstep
        cases connects with
        | true => exact Represents.reaches ⟨hconn, hnet, hframes⟩
        | false =>
            exact connect_reaches (m := { m with frames }) hconn hnet hframes .noClient
      next => cases hstep
  | connect outcome =>
      rw [step] at hstep
      split at hstep
      next frames htop =>
        rw [htop] at hframes
        cases hstep
        exact connect_reaches (m := { m with frames }) hconn hnet hframes outcome
      next => cases hstep
  | finish upload expired =>
      rw [step] at hstep
      split at hstep
      next frames htop =>
        rw [htop] at hframes
        cases hstep
        have hback : Represents { n with frames := frames.flatMap Frame.waits }
            { m with frames } := ⟨hconn, hnet, rfl⟩
        refine (afterYield_reaches hback upload expired).step
          (a := .yieldReturns (found { m with frames } upload expired)) ?_
        rw [Status.step, hframes]
        rfl
      next => cases hstep

/-- A run of the loop is a run of the machine. -/
theorem run_reaches {as : List Action} (h : Represents n m)
    (hrun : Runs.run step m as = .ok m') : Reaches n m' := by
  induction as generalizing n m with
  | nil =>
      cases hrun
      exact h.reaches
  | cons a as ih =>
      obtain ⟨t, hstep, hrest⟩ := Runs.run_cons.mp hrun
      obtain ⟨bs, u, hbs, hu⟩ := step_reaches h hstep
      exact Reaches.run hbs (ih hu hrest)

/-- So is a call of `IOT_Comm_Yield` with all that runs in its delays. -/
theorem called_reaches {as : List Action} {now : UInt32}
    (hconn : n.connState = m.connState) (hnet : n.networkState = m.networkState)
    (hframes : n.frames = []) (hrun : Runs.run step (called m now) as = .ok m') :
    Reaches n m' := by
  have hidle : Represents n { m with frames := [] } := ⟨hconn, hnet, hframes⟩
  obtain ⟨bs, u, hbs, hu⟩ := iotCommYield_reaches hidle now
  exact Reaches.run hbs (run_reaches hu hrun)

end Steps

end IotKit.CommIf.Loop
