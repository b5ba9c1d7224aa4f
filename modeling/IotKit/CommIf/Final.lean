import IotKit.CommIf.Status

/-!
# An explicit disconnect

`IOT_Comm_Disconnect` leaves the connection state initialized, as `IOT_Comm_Init` leaves it
invalid, and in neither of these does the polling loop call `iotx_comm_connect`.  But every
function that finds the network down sets the state to disconnected, whatever it was, and a
function that was at work when the state was stored may store its own: `iotx_set_conn_state`
stores the state it was called with after the event callback, and both callers of
`iotx_comm_connect` set the state when it returns.  From there the loop reconnects on its
own.  As long as nothing of the kind happens, the disconnect is final.
-/

namespace IotKit.CommIf.Status

/-- A step where the application may call every function while another one is at work, also
`IOT_Comm_Connect` and `IOT_Comm_Disconnect` in the event callback. -/
def act (m : Machine) : Action → Except Impossible Machine
  | .call c => .ok (enter m c)
  | a => step m a

/-- What `step` allows, `act` does alike. -/
theorem act_of_step {m m' : Machine} {a : Action} (h : step m a = .ok m') : act m a = .ok m' := by
  cases a with
  | call c =>
      rw [step] at h
      split at h
      · exact h
      · cases h
  | _ => exact h

/-- What the action runs begins with `IOT_Network_IsConnected`. -/
def Action.checksNetwork : Action → Bool
  | .call (.setNetworkState _) => false
  | .call .disconnect => false
  | .call _ => true
  | .yieldReturns _ => true
  | _ => false

/-- The action does not find the network down. -/
def FindsUp (m : Machine) (a : Action) : Prop :=
  a.checksNetwork = true → m.networkState = .connected

/-- A function that was at work goes on to store a state other than initialized. -/
def overwrites (m : Machine) : Action → Bool
  | .callbackReturns =>
      match m.frames with
      | .notifying newState :: _ => decide (newState ≠ .initialized)
      | _ => false
  | .connectReturns ok =>
      match m.frames with
      | .connecting :: _ => true
      | .reconnecting :: _ => ok
      | _ => false
  | _ => false

/-- The action leaves what `IOT_Comm_Disconnect` stored. -/
def Quiet (m : Machine) (a : Action) : Prop := FindsUp m a ∧ overwrites m a = false

instance (m : Machine) (a : Action) : Decidable (FindsUp m a) :=
  inferInstanceAs (Decidable (a.checksNetwork = true → m.networkState = .connected))

instance (m : Machine) (a : Action) : Decidable (Quiet m a) :=
  inferInstanceAs (Decidable (FindsUp m a ∧ overwrites m a = false))

/-! ## Idle states -/

/-- The state is one that the loop leaves alone. -/
def Idle (m : Machine) : Prop := m.connState = .invalid ∨ m.connState = .initialized

section Steps

variable {m m' : Machine}

theorem Idle.not_connected (h : Idle m) : m.connState ≠ .connected := by
  rcases h with hstate | hstate <;> rw [hstate] <;> decide

theorem Idle.notification (h : Idle m) {newState : ConnState} (hnew : newState ≠ .connected) :
    notification m.connState newState = none := by
  rcases h with hstate | hstate <;> rw [hstate] <;> cases newState <;>
    first | rfl | exact absurd rfl hnew

theorem Idle.yieldTail (h : Idle m) (expired : Bool) : yieldTail m expired = m := by
  rcases h with hstate | hstate <;> simp [Status.yieldTail, hstate]

/-- A function that waited for a call and goes on leaves an idle state idle. -/
theorem Idle.resume (h : Idle m) : Idle (resume m) ∧ (resume m).dials = m.dials := by
  rw [Status.resume]
  split
  next expired frames _ =>
    have hidle : Idle { m with frames } := h
    rw [hidle.yieldTail]
    exact ⟨hidle, rfl⟩
  next => exact ⟨h, rfl⟩
  next => exact ⟨h, rfl⟩

/-- A function that finds the network up changes nothing by that. -/
theorem iotNetworkIsConnected_up (hup : m.networkState = .connected) (rest : List Frame)
    (k : Machine → Machine) : iotNetworkIsConnected m rest k = k m :=
  if_neg (not_not.mpr hup)

theorem Idle.iotCommIsConnected (h : Idle m) (hup : m.networkState = .connected) (rst : Bool)
    (rest : List Frame) : Idle (iotCommIsConnected m rst rest) ∧
      (iotCommIsConnected m rst rest).dials = m.dials := by
  rw [Status.iotCommIsConnected, iotNetworkIsConnected_up hup, if_pos h.not_connected]
  have hidle : Idle { m with frames := rest ++ m.frames } := h
  exact hidle.resume

theorem Idle.afterYield (h : Idle m) (hup : m.networkState = .connected) (y : Yielded) :
    Idle (afterYield m y) ∧ (afterYield m y).dials = m.dials := by
  have hstate := h.not_connected
  rw [Status.afterYield, if_neg fun hall => hstate hall.2.1]
  exact h.iotCommIsConnected hup y.rst _

/-- `IOT_Comm_Disconnect` from an idle state. -/
theorem Idle.iotCommDisconnect (h : Idle m) :
    Idle (iotCommDisconnect m) ∧ (iotCommDisconnect m).dials = m.dials := by
  rw [Status.iotCommDisconnect, iotxSetConnState, h.notification (by decide)]
  exact ⟨Or.inr rfl, rfl⟩

theorem Idle.enter (h : Idle m) {c : Call} (hconnect : c ≠ .connect)
    (hup : FindsUp m (.call c)) : Idle (enter m c) ∧ (enter m c).dials = m.dials := by
  have hstate := h.not_connected
  cases c with
  | setNetworkState newState =>
      rw [Status.enter, iotxSetNetworkState]
      split
      · exact ⟨h, rfl⟩
      · exact ⟨h, rfl⟩
  | networkIsConnected =>
      rw [Status.enter, iotNetworkIsConnected_up (hup rfl)]
      exact ⟨h, rfl⟩
  | commIsConnected rst => exact h.iotCommIsConnected (hup rfl) rst []
  | sendData sent =>
      rw [Status.enter, iotCommSendData, iotNetworkIsConnected_up (hup rfl), if_pos hstate]
      exact ⟨h, rfl⟩
  | sendActionReply formatted sent =>
      rw [Status.enter, iotCommSendActionReply, iotNetworkIsConnected_up (hup rfl),
        if_pos hstate]
      exact ⟨h, rfl⟩
  | yield =>
      rw [Status.enter, iotCommYield, iotNetworkIsConnected_up (hup rfl)]
      exact ⟨h, rfl⟩
  | connect => exact absurd rfl hconnect
  | disconnect => exact h.iotCommDisconnect

/-- What was at work when the state became idle may go on, as long as it stores no other
state. -/
theorem Idle.of_act (h : Idle m) {a : Action} (hquiet : Quiet m a) (hconnect : a ≠ .call .connect)
    (hact : act m a = .ok m') : Idle m' ∧ m'.dials = m.dials := by
  obtain ⟨hup, hover⟩ := hquiet
  cases a with
  | call c =>
      cases hact
      exact h.enter (fun hc => hconnect (by rw [hc])) hup
  | callbackReturns =>
      change Status.step m .callbackReturns = .ok m' at hact
      rw [Status.step] at hact
      split at hact
      next newState frames htop =>
        cases hact
        have hnew : newState = .initialized := by simpa [overwrites, htop] using hover
        have hidle : Idle (store { m with frames } newState) := Or.inr hnew
        exact hidle.resume
      next =>
        cases hact
        exact ⟨h, rfl⟩
      next => cases hact
  | yieldReturns y =>
      change Status.step m (.yieldReturns y) = .ok m' at hact
      rw [Status.step] at hact
      split at hact
      next frames _ =>
        cases hact
        have hidle : Idle { m with frames } := h
        exact hidle.afterYield (hup rfl) y
      next => cases hact
  | connectReturns ok =>
      change Status.step m (.connectReturns ok) = .ok m' at hact
      rw [Status.step] at hact
      split at hact
      next htop => simp [overwrites, htop] at hover
      next frames htop =>
        cases hact
        have hok : ok = false := by simpa [overwrites, htop] using hover
        rw [if_neg (by rw [hok]; decide)]
        exact ⟨h, rfl⟩
      next => cases hact
  | disconnectReturns =>
      change Status.step m .disconnectReturns = .ok m' at hact
      rw [Status.step] at hact
      split at hact
      next =>
        cases hact
        exact ⟨h, rfl⟩
      next => cases hact

/-- The action is the store of `IOT_Comm_Disconnect`: its call, where the event callback is
not told, or the return of the event callback. -/
inductive Stores (m : Machine) : Action → Prop where
  | untold (h : notification m.connState .initialized = none) : Stores m (.call .disconnect)
  | told {frames : List Frame}
      (h : m.frames = .notifying .initialized :: .disconnecting :: frames) :
      Stores m .callbackReturns

theorem Stores.idle {a : Action} (h : Stores m a) (hact : act m a = .ok m') : Idle m' := by
  cases h with
  | untold hnone =>
      cases hact
      rw [enter, iotCommDisconnect, iotxSetConnState, hnone]
      exact Or.inr rfl
  | told htop =>
      simp only [act, step, htop] at hact
      cases hact
      exact Or.inr rfl

end Steps

/-! ## Runs -/

/-- No call of `IOT_Comm_Connect` came yet, or `IOT_Comm_Disconnect` has just stored the
state: what remains of it is `iotx_comm_disconnect`. -/
def Ended (m : Machine) : Prop :=
  m = .initial ∨ ∃ as n a, Runs.run act .initial as = .ok n ∧ Stores n a ∧ act n a = .ok m

theorem Ended.idle {m : Machine} (h : Ended m) : Idle m := by
  rcases h with rfl | ⟨as, n, a, -, hstores, hact⟩
  · exact Or.inl rfl
  · exact hstores.idle hact

/-- Until the application calls `IOT_Comm_Connect`, `iotx_comm_connect` is not called. -/
def Final (m : Machine) (as : List Action) : Prop :=
  ∀ m', Runs.run act m as = .ok m' → m'.dials = m.dials

theorem run_final {m : Machine} {as : List Action} (hended : Ended m)
    (hconnect : ∀ a ∈ as, a ≠ .call .connect) (hquiet : Runs.Guarded act Quiet m as) :
    Final m as := by
  intro m' hrun
  have hstep {n n' : Machine} {a : Action} (hn : Idle n ∧ n.dials = m.dials)
      (ha : Quiet n a ∧ a ≠ .call .connect) (hact : act n a = .ok n') :
      Idle n' ∧ n'.dials = m.dials :=
    (hn.1.of_act ha.1 ha.2 hact).imp id fun hdials => hdials.trans hn.2
  have hstart : Idle m ∧ m.dials = m.dials := ⟨hended.idle, rfl⟩
  exact (Runs.run_invariant hstep hstart (hquiet.and_mem hconnect) hrun).2

/-- The application connects, the server closes the connection, and the application calls
`IOT_Comm_Disconnect` for it, tells the network down and up, and polls. -/
theorem run_final_polling : ∃ m,
    Runs.run act .initial [.call (.setNetworkState .connected), .callbackReturns,
      .call .connect, .connectReturns true, .callbackReturns, .call .disconnect,
      .callbackReturns] = .ok m ∧
    Final m [.disconnectReturns, .call .yield, .yieldReturns ⟨false, none, true⟩,
      .call (.setNetworkState .disconnected), .callbackReturns,
      .call (.setNetworkState .connected), .callbackReturns, .call (.commIsConnected false),
      .call .yield, .yieldReturns ⟨false, none, true⟩] := by
  have hrun : Runs.run act .initial [.call (.setNetworkState .connected), .callbackReturns,
      .call .connect, .connectReturns true, .callbackReturns, .call .disconnect] =
      .ok ⟨.connected, .connected, [.notifying .initialized, .disconnecting], [false, true],
        [true], 1⟩ := by decide
  refine ⟨⟨.initialized, .connected, [.destroying], [false, true], [false, true], 1⟩,
    by decide, ?_⟩
  exact run_final (Or.inr ⟨_, _, .callbackReturns, hrun, .told rfl, by decide⟩) (by simp)
    (by decide)

/-- The application asks for the network while it is down, and the loop makes two turns when
it is up again. -/
def flap : List Action :=
  [.call .networkIsConnected, .call (.setNetworkState .connected), .callbackReturns,
    .call .yield, .yieldReturns ⟨false, none, true⟩, .call .yield,
    .yieldReturns ⟨false, none, true⟩]

/-- From every idle state one check that finds the network down is enough. -/
theorem Idle.flap {m : Machine} (h : Idle m) (hframes : m.frames = [])
    (hdown : m.networkState = .disconnected) :
    (fun m' => m'.dials) <$> Runs.run act m Status.flap = .ok (m.dials + 1) := by
  obtain ⟨connState, networkState, frames, told, crossings, dials⟩ := m
  obtain rfl : frames = [] := hframes
  obtain rfl : networkState = .disconnected := hdown
  obtain rfl | rfl : connState = .invalid ∨ connState = .initialized := h
  · rfl
  · rfl

/-- The event callback returns, and the loop makes two turns. -/
def returned : List Action :=
  [.callbackReturns, .call .yield, .yieldReturns ⟨false, none, true⟩, .call .yield,
    .yieldReturns ⟨false, none, true⟩]

/-- With the network up all the while it is enough that the event callback which hears of a
lost connection calls `IOT_Comm_Disconnect`: disconnected is stored when it returns. -/
theorem Idle.returned {m : Machine} (h : Idle m) (hframes : m.frames = [.notifying .disconnected])
    (hup : m.networkState = .connected) :
    (fun m' => m'.dials) <$> Runs.run act m Status.returned = .ok (m.dials + 1) := by
  obtain ⟨connState, networkState, frames, told, crossings, dials⟩ := m
  obtain rfl : frames = [.notifying .disconnected] := hframes
  obtain rfl : networkState = .connected := hup
  obtain rfl | rfl : connState = .invalid ∨ connState = .initialized := h
  · rfl
  · rfl

/-- No client could be made, and the application gives up. -/
def givenUp : List Action :=
  [.call (.setNetworkState .connected), .callbackReturns, .call .connect, .connectReturns false]

theorem not_final_flap :
    ∃ m, Ended m ∧ ¬Final m (.disconnectReturns :: .call (.setNetworkState .disconnected) ::
      .callbackReturns :: flap) := by
  have hrun : Runs.run act .initial givenUp =
      .ok ⟨.disconnected, .connected, [], [], [], 1⟩ := by decide
  have hact : act ⟨.disconnected, .connected, [], [], [], 1⟩ (.call .disconnect) =
      .ok ⟨.initialized, .connected, [.destroying], [], [], 1⟩ := by decide
  refine ⟨_, Or.inr ⟨_, _, _, hrun, .untold (by decide), hact⟩, fun hfinal => ?_⟩
  have hdials : (fun m' => m'.dials) <$> Runs.run act
      ⟨.initialized, .connected, [.destroying], [], [], 1⟩ (.disconnectReturns ::
        .call (.setNetworkState .disconnected) :: .callbackReturns :: flap) = .ok 2 := by decide
  obtain ⟨m', hlast, hm'⟩ := CMemory.map_eq_ok.mp hdials
  have := hfinal m' hlast
  rw [hm'] at this
  cases this

end IotKit.CommIf.Status
