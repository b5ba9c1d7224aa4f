import IotKit.CommIf.Ownership
import IotKit.CommIf.Final

/-!
# The connection layer as a run of the machine

`Connection` takes a call of the connection layer as one function, with the client on the heap
and what runs in the delays as parameters; `Status` takes it step by step and leaves the client
out.  Every run of calls of the first, with turns in its delays to any depth, is a run of the
second in which the event callback returns at once (`runCalls_simulated`): the machine shows the
same connection state and the same network state after it.
-/

namespace IotKit.CommIf.Status

open CMemory (bind_eq_ok)
open Mqtt (McState)

/-! ## What the machine shows -/

/-- The two states of the connection layer. -/
structure Shows (m : Machine) (s : Comm) : Prop where
  connState : m.connState = s.connState
  networkState : m.networkState = s.networkState

/-- A function that runs the system loop while it waits. -/
def Frame.loops : Frame → Bool
  | .yielding | .connecting | .reconnecting | .destroying => true
  | _ => false

/-- The function on top runs the system loop, if there is one. -/
def Looping (m : Machine) : Prop := ∀ f ∈ m.frames.head?, f.loops = true

/-- The machine can go on to show `s`, with `frames` at work. -/
def Reaches (m : Machine) (s : Comm) (frames : List Frame) : Prop :=
  ∃ as m', Runs.run step m as = .ok m' ∧ Shows m' s ∧ m'.frames = frames

/-- A machine that shows `s` can go on to show `s'` while the same functions are at work. -/
def Follows (s s' : Comm) : Prop :=
  ∀ m, Looping m → Shows m s → Reaches m s' m.frames

section Reaching

variable {m m' : Machine} {s s' s'' : Comm} {frames frames' : List Frame}

theorem Shows.reaches (h : Shows m s) : Reaches m s m.frames := ⟨[], m, rfl, h, rfl⟩

theorem Reaches.step {a : Action} (hstep : step m a = .ok m') (h : Reaches m' s frames) :
    Reaches m s frames := by
  obtain ⟨as, n, hrun, hshows⟩ := h
  exact ⟨a :: as, n, Runs.run_cons.mpr ⟨m', hstep, hrun⟩, hshows⟩

theorem Reaches.trans (h : Reaches m s frames)
    (hrest : ∀ n, Shows n s → n.frames = frames → Reaches n s' frames') :
    Reaches m s' frames' := by
  obtain ⟨as, n, hrun, hshows, hframes⟩ := h
  obtain ⟨bs, n', hrun', hend⟩ := hrest n hshows hframes
  exact ⟨as ++ bs, n', Runs.run_append.mpr ⟨n, hrun, hrun'⟩, hend⟩

theorem Looping.of_frames (h : Looping m) (hframes : m'.frames = m.frames) : Looping m' := by
  rw [Looping, hframes]
  exact h

/-- A call that a delay makes is possible. -/
theorem Looping.possible (h : Looping m) {c : Call} (hconnect : c ≠ .connect)
    (hdisconnect : c ≠ .disconnect) : c.possible m.frames.head? = true := by
  rw [Looping] at h
  cases hhead : m.frames.head? with
  | none => rfl
  | some f =>
      have hloops := h f hhead
      cases f with
      | notifying => cases hloops
      | notifyingNetwork => cases hloops
      | _ => exact decide_eq_true ⟨hconnect, hdisconnect⟩

theorem Looping.call (h : Looping m) {c : Call} (hconnect : c ≠ .connect)
    (hdisconnect : c ≠ .disconnect) (hreaches : Reaches (enter m c) s frames) :
    Reaches m s frames :=
  hreaches.step (a := .call c) (if_pos (h.possible hconnect hdisconnect))

/-- Nothing that runs the system loop waits for `iotx_set_conn_state`. -/
theorem Looping.resume (h : Looping m) : resume m = m := by
  rw [Status.resume]
  split
  next htop => cases h _ (by rw [htop]; rfl)
  next htop => cases h _ (by rw [htop]; rfl)
  next => rfl

theorem Follows.refl (s : Comm) : Follows s s := fun _ _ h => h.reaches

/-- What can be shown one after the other can be shown in one run. -/
theorem Follows.trans (h : Follows s s') (h' : Follows s' s'') : Follows s s'' :=
  fun m hloop hshows => (h m hloop hshows).trans fun n hn hframes =>
    hframes ▸ h' n (hloop.of_frames hframes) hn

/-! ## The client is not shown -/

/-- Neither of the two states changes. -/
structure Still (s s' : Comm) : Prop where
  connState : s'.connState = s.connState
  networkState : s'.networkState = s.networkState

theorem Still.refl (s : Comm) : Still s s := ⟨rfl, rfl⟩

theorem Still.trans (h : Still s s') (h' : Still s' s'') : Still s s'' :=
  ⟨h'.connState.trans h.connState, h'.networkState.trans h.networkState⟩

theorem Shows.still (h : Shows m s) (hstill : Still s s') : Shows m s' :=
  ⟨h.connState.trans hstill.connState.symm, h.networkState.trans hstill.networkState.symm⟩

theorem Still.follows (h : Still s s') : Follows s s' := fun _ _ hshows =>
  (hshows.still h).reaches

variable {a b : Nat}

theorem free_still (h : s.free a = .ok s') : Still s s' := by
  obtain ⟨-, -, rfl⟩ := free_eq_ok.mp h
  exact ⟨rfl, rfl⟩

theorem freeIf_still {p : Option Nat} (h : s.freeIf p = .ok s') : Still s s' := by
  cases p with
  | none => cases h; exact .refl s
  | some a => exact free_still h

theorem setClientState_still {newState : McState}
    (h : iotxMcSetClientState s a newState = .ok s') : Still s s' := by
  obtain ⟨k, -, h⟩ := bind_eq_ok.mp h
  obtain ⟨heap, -, h⟩ := bind_eq_ok.mp h
  cases h
  exact ⟨rfl, rfl⟩

theorem mcDisconnect_still (h : iotxMcDisconnect s a = .ok s') : Still s s' := by
  obtain ⟨normal, -, h⟩ := bind_eq_ok.mp h
  obtain ⟨_, -, h⟩ := bind_eq_ok.mp h
  exact setClientState_still h

theorem mcConnect_still {outcome : McConnect} {err : Bool}
    (h : iotxMcConnect s a outcome = .ok (err, s')) : Still s s' := by
  obtain ⟨k, -, h⟩ := bind_eq_ok.mp h
  cases outcome with
  | preAuth => cases h; exact .refl s
  | ipstack => cases h; exact .refl s
  | connectPacket =>
      obtain ⟨_, -, h⟩ := bind_eq_ok.mp h
      cases h
      exact .refl s
  | connack =>
      obtain ⟨_, -, h⟩ := bind_eq_ok.mp h
      obtain ⟨_, -, h⟩ := bind_eq_ok.mp h
      obtain ⟨_, -, h⟩ := bind_eq_ok.mp h
      cases h
      exact .refl s
  | postAuth =>
      obtain ⟨_, -, h⟩ := bind_eq_ok.mp h
      obtain ⟨_, -, h⟩ := bind_eq_ok.mp h
      obtain ⟨_, hset, h⟩ := bind_eq_ok.mp h
      cases h
      exact setClientState_still hset
  | accepted =>
      obtain ⟨_, -, h⟩ := bind_eq_ok.mp h
      obtain ⟨_, -, h⟩ := bind_eq_ok.mp h
      obtain ⟨_, hset, h⟩ := bind_eq_ok.mp h
      cases h
      exact setClientState_still hset

theorem sendPacket_still {o : Sending} {rc : Bool} (h : sendPacket s a o = .ok (rc, s')) :
    Still s s' := by
  obtain ⟨normal, -, h⟩ := bind_eq_ok.mp h
  split at h
  · obtain ⟨k, -, h⟩ := bind_eq_ok.mp h
    cases o with
    | rejected => cases h; exact .refl s
    | packetError =>
        obtain ⟨_, -, h⟩ := bind_eq_ok.mp h
        cases h
        exact .refl s
    | networkError =>
        obtain ⟨_, -, h⟩ := bind_eq_ok.mp h
        obtain ⟨_, hset, h⟩ := bind_eq_ok.mp h
        cases h
        exact setClientState_still hset
    | sent =>
        obtain ⟨_, -, h⟩ := bind_eq_ok.mp h
        cases h
        exact .refl s
  · cases h
    exact .refl s

theorem sendPacketIf_still {o : Option Sending} (h : sendPacketIf s a o = .ok s') :
    Still s s' := by
  cases o with
  | none =>
      obtain ⟨_, -, h⟩ := bind_eq_ok.mp h
      cases h
      exact .refl s
  | some o =>
      obtain ⟨⟨rc, t⟩, hsend, h⟩ := bind_eq_ok.mp h
      cases h
      exact sendPacket_still hsend

theorem commSend_still {msg : Message} {rc : Bool}
    (h : CommIf.iotxCommSend s msg = .ok (rc, s')) : Still s s' := by
  rw [CommIf.iotxCommSend] at h
  split at h
  · cases h
    exact .refl s
  split at h
  · cases h
    exact .refl s
  · exact sendPacket_still h

/-- `goto do_exit` in a part that only sends. -/
theorem orDoExit_still {r : Except ObjectHeap.Fault (Bool × Comm)} {rc : Bool}
    {rest : Comm → Except ObjectHeap.Fault (Bool × Comm)}
    (hr : ∀ {rc t}, r = .ok (rc, t) → Still s t)
    (hrest : ∀ {t}, Still s t → rest t = .ok (rc, s') → Still s s')
    (h : orDoExit r rest = .ok (rc, s')) : Still s s' := by
  obtain ⟨⟨rc', t⟩, hok, h⟩ := bind_eq_ok.mp h
  dsimp only at h
  split at h
  · cases h
    exact hr hok
  · exact hrest (hr hok) h

theorem openSession_still {τ : Type} {i : Connecting τ} {rc : Bool}
    (h : openSession s a i = .ok (rc, s')) : Still s s' := by
  rw [openSession] at h
  split at h
  · cases h
    exact .refl s
  refine orDoExit_still sendPacket_still (fun hfirst h => ?_) h
  split at h
  · cases h
    exact hfirst
  refine hfirst.trans (orDoExit_still sendPacket_still (fun hsecond h => ?_) h)
  split at h
  · cases h
    exact hsecond
  split at h
  · cases h
    exact hsecond
  · exact hsecond.trans (sendPacket_still h)

end Reaching

/-! ## Functions without delays -/

section Functions

variable {m m' : Machine} {s s' : Comm} {frames : List Frame}

/-- The event callback returns at once. -/
theorem setConnState_run (m : Machine) (newState : ConnState) (rest : List Frame) :
    ∃ as told, Runs.run step (iotxSetConnState m newState rest) as =
      .ok (resume (store { m with frames := rest ++ m.frames, told } newState)) := by
  rw [iotxSetConnState]
  cases notification m.connState newState with
  | none => exact ⟨[], m.told, rfl⟩
  | some up => exact ⟨[.callbackReturns], up :: m.told, rfl⟩

theorem setConnState_reaches (hloop : Looping m) (hshows : Shows m s) (newState : ConnState) :
    Reaches (iotxSetConnState m newState []) (CommIf.iotxSetConnState s newState) m.frames := by
  obtain ⟨as, told, hrun⟩ := setConnState_run m newState []
  have hlooping : Looping (store { m with frames := [] ++ m.frames, told } newState) := hloop
  rw [hlooping.resume] at hrun
  exact ⟨as, _, hrun, ⟨rfl, hshows.networkState⟩, rfl⟩

/-- `IOT_Network_IsConnected` in both: down, where the state is set and the caller returns, or
up, where nothing happens. -/
theorem networkIsConnected_cases (hshows : Shows m s) :
    (m.networkState ≠ .connected ∧
        CommIf.iotNetworkIsConnected s = (false, CommIf.iotxSetConnState s .disconnected)) ∨
      m.networkState = .connected ∧ CommIf.iotNetworkIsConnected s = (true, s) := by
  rw [CommIf.iotNetworkIsConnected, hshows.networkState]
  by_cases hup : s.networkState = .connected
  · exact .inr ⟨hup, if_neg (not_not.mpr hup)⟩
  · exact .inl ⟨hup, if_pos hup⟩

theorem sendData_reaches {msg : Message} (hloop : Looping m) (hshows : Shows m s)
    (h : CommIf.iotCommSendData s msg = .ok s') :
    ∃ sent, Reaches (iotCommSendData m sent) s' m.frames := by
  rw [CommIf.iotCommSendData] at h
  rcases networkIsConnected_cases hshows with ⟨hdown, hnet⟩ | ⟨hup, hnet⟩
  · rw [hnet] at h
    cases h
    refine ⟨true, ?_⟩
    rw [iotCommSendData, iotNetworkIsConnected, if_pos hdown]
    exact setConnState_reaches hloop hshows .disconnected
  · simp only [hnet, Bool.true_eq_false, if_false] at h
    simp only [iotCommSendData, iotNetworkIsConnected_up hup, hshows.connState]
    split at h
    next hnot =>
      cases h
      exact ⟨true, by rw [if_pos hnot]; exact hshows.reaches⟩
    next hconnected =>
      obtain ⟨⟨rst, t⟩, hsend, h⟩ := bind_eq_ok.mp h
      cases h
      have hshows' := hshows.still (commSend_still hsend)
      refine ⟨rst, ?_⟩
      rw [if_neg hconnected]
      cases rst with
      | true => exact hshows'.reaches
      | false => exact setConnState_reaches hloop hshows' .disconnected

theorem sendData_follows {msg : Message} (h : CommIf.iotCommSendData s msg = .ok s') :
    Follows s s' := by
  intro m hloop hshows
  obtain ⟨sent, hreaches⟩ := sendData_reaches hloop hshows h
  exact hloop.call (c := .sendData sent) nofun nofun hreaches

theorem sendDataIf_follows {msg : Option Message} (h : iotCommSendDataIf s msg = .ok s') :
    Follows s s' := by
  cases msg with
  | none => cases h; exact .refl s
  | some msg => exact sendData_follows h

theorem networkSetState_follows (s : Comm) (newState : NetworkState) :
    Follows s (iotNetworkSetState s newState) := by
  intro m hloop hshows
  refine hloop.call (c := .setNetworkState newState) nofun nofun ?_
  rw [enter, iotxSetNetworkState]
  split
  next =>
    have hset : Shows { m with networkState := newState } (iotNetworkSetState s newState) :=
      ⟨hshows.connState, rfl⟩
    exact hset.reaches.step (a := .callbackReturns) rfl
  next hsame => exact Shows.reaches ⟨hshows.connState, not_not.mp hsame⟩

end Functions

/-! ## Functions with delays -/

section Reentered

variable {τ : Type} {turn : Comm → τ → Except ObjectHeap.Fault Comm} {m : Machine}
  {s s' : Comm} {a : Nat}

/-- A turn in a delay can be followed. -/
def Followed (turn : Comm → τ → Except ObjectHeap.Fault Comm) : Prop :=
  ∀ s t s', turn s t = .ok s' → Follows s s'

theorem delay_follows (hturn : Followed turn) {turns : List τ}
    (h : delay turn s turns = .ok s') : Follows s s' :=
  Runs.run_preorder Follows.refl Follows.trans (fun hstep => hturn _ _ _ hstep) h

theorem mcRelease_follows (hturn : Followed turn) {r : Releasing τ}
    (h : iotxMcRelease turn s a r = .ok s') : Follows s s' := by
  obtain ⟨s₁, hfirst, h⟩ := bind_eq_ok.mp h
  obtain ⟨s₂, hdisconnect, h⟩ := bind_eq_ok.mp h
  obtain ⟨s₃, hset, h⟩ := bind_eq_ok.mp h
  obtain ⟨s₄, hsecond, h⟩ := bind_eq_ok.mp h
  obtain ⟨_, -, h⟩ := bind_eq_ok.mp h
  cases h
  have hstill := (mcDisconnect_still hdisconnect).trans (setClientState_still hset)
  exact ((delay_follows hturn hfirst).trans hstill.follows).trans (delay_follows hturn hsecond)

theorem mqttDestroy_follows (hturn : Followed turn) {r : Releasing τ}
    (h : iotMqttDestroy turn s a r = .ok s') : Follows s s' := by
  obtain ⟨t, hrelease, h⟩ := bind_eq_ok.mp h
  exact (mcRelease_follows hturn hrelease).trans (free_still h).follows

theorem mqttConstruct_follows (hturn : Followed turn) {write read : Nat} {i : Constructing τ}
    {pclient : Option Nat} (h : iotMqttConstruct turn s write read i = .ok (pclient, s')) :
    Follows s s' := by
  rw [iotMqttConstruct] at h
  split at h
  · cases h
    exact .refl s
  obtain ⟨⟨err, t⟩, hconnect, h⟩ := bind_eq_ok.mp h
  have hmalloc : Still s (s.malloc (.client ⟨write, read, .initialized⟩)).2 := ⟨rfl, rfl⟩
  have hmade : Still s t := hmalloc.trans (mcConnect_still hconnect)
  dsimp only at h
  split at h
  · cases h
    exact hmade.follows
  · obtain ⟨u, hrelease, h⟩ := bind_eq_ok.mp h
    obtain ⟨v, hfree, h⟩ := bind_eq_ok.mp h
    cases h
    exact (hmade.follows.trans (mcRelease_follows hturn hrelease)).trans (free_still hfree).follows

theorem mcCycle_follows {c : Cycle τ} {rc : Bool}
    (h : CommIf.iotxMcCycle s a c = .ok (rc, s')) : Follows s s' := by
  obtain ⟨normal, -, h⟩ := bind_eq_ok.mp h
  split at h
  · obtain ⟨t, hover, h⟩ := bind_eq_ok.mp h
    have ht : Still s t := by
      split at hover
      · exact setClientState_still hover
      · cases hover
        exact .refl s
    obtain ⟨k, -, h⟩ := bind_eq_ok.mp h
    obtain ⟨_, -, h⟩ := bind_eq_ok.mp h
    split at h
    · obtain ⟨u, hset, h⟩ := bind_eq_ok.mp h
      cases h
      exact (ht.trans (setClientState_still hset)).follows
    · obtain ⟨u, hreply, h⟩ := bind_eq_ok.mp h
      cases h
      exact ht.follows.trans (sendDataIf_follows hreply)
  · cases h
    exact .refl s

theorem yieldPass_follows {c : Cycle τ} {rc : Bool} (h : yieldPass s a c = .ok (rc, s')) :
    Follows s s' := by
  obtain ⟨t, hping, h⟩ := bind_eq_ok.mp h
  obtain ⟨⟨rc', u⟩, hcycle, h⟩ := bind_eq_ok.mp h
  obtain ⟨v, hpub, h⟩ := bind_eq_ok.mp h
  cases h
  refine ((sendPacketIf_still hping).follows.trans (mcCycle_follows hcycle)).trans ?_
  split at hpub
  · exact (sendPacketIf_still hpub).follows
  · cases hpub
    exact .refl _

theorem yieldCycle_follows (hturn : Followed turn) {st st' : Bool × Comm} {c : Cycle τ}
    (h : yieldCycle turn a st c = .ok st') : Follows st.2 st'.2 := by
  obtain ⟨t, hwait, h⟩ := bind_eq_ok.mp h
  refine Follows.trans ?_ (yieldPass_follows h)
  split at hwait
  · cases hwait
    exact .refl _
  · exact delay_follows hturn hwait

theorem commYield_follows (hturn : Followed turn) {y : Yielding τ}
    (h : iotxCommYield turn s y = .ok s') : Follows s s' := by
  rw [iotxCommYield] at h
  split at h
  · cases h
    exact .refl s
  · obtain ⟨⟨rc, t⟩, hrun, h⟩ := bind_eq_ok.mp h
    cases h
    exact Runs.run_preorder (R := fun st st' : Bool × Comm => Follows st.2 st'.2)
      (fun st => Follows.refl st.2) Follows.trans (yieldCycle_follows hturn) hrun

theorem commDisconnect_follows (hturn : Followed turn) {r : Releasing τ}
    (h : iotxCommDisconnect turn s r = .ok s') : Follows s s' := by
  rw [iotxCommDisconnect] at h
  split at h
  · cases h
    exact .refl s
  · obtain ⟨k, -, h⟩ := bind_eq_ok.mp h
    obtain ⟨t, hdestroy, h⟩ := bind_eq_ok.mp h
    obtain ⟨u, hsend, h⟩ := bind_eq_ok.mp h
    exact (mqttDestroy_follows hturn hdestroy).trans
      ((free_still hsend).trans (free_still h)).follows

theorem doExit_follows (hturn : Followed turn) {write read pclient : Option Nat}
    {r : Releasing τ} {rc : Bool} (h : doExit turn s write read pclient r = .ok (rc, s')) :
    Follows s s' := by
  obtain ⟨t, hwrite, h⟩ := bind_eq_ok.mp h
  obtain ⟨u, hread, h⟩ := bind_eq_ok.mp h
  obtain ⟨v, hdestroy, h⟩ := bind_eq_ok.mp h
  cases h
  refine ((freeIf_still hwrite).trans (freeIf_still hread)).follows.trans ?_
  cases pclient with
  | none => cases hdestroy; exact .refl _
  | some a => exact mqttDestroy_follows hturn hdestroy

theorem connectClient_follows (hturn : Followed turn) {write read : Nat} {i : Connecting τ}
    {rc : Bool} (h : connectClient turn s write read i = .ok (rc, s')) : Follows s s' := by
  obtain ⟨⟨pclient, t⟩, hconstruct, h⟩ := bind_eq_ok.mp h
  refine (mqttConstruct_follows hturn hconstruct).trans ?_
  cases pclient with
  | none => exact doExit_follows hturn h
  | some a =>
      obtain ⟨⟨rc', u⟩, hopen, h⟩ := bind_eq_ok.mp h
      dsimp only at h
      split at h
      · exact (openSession_still hopen).follows.trans (doExit_follows hturn h)
      · cases h
        have hstill := openSession_still hopen
        exact Still.follows ⟨hstill.connState, hstill.networkState⟩

theorem establish_follows (hturn : Followed turn) {i : Connecting τ} {rc : Bool}
    (h : establish turn s i = .ok (rc, s')) : Follows s s' := by
  have hmalloc (t : Comm) (o : Object) : Follows t (t.malloc o).2 := Still.follows ⟨rfl, rfl⟩
  rw [establish] at h
  split at h
  · exact doExit_follows hturn h
  refine (hmalloc s .buffer).trans ?_
  dsimp only at h
  split at h
  · exact doExit_follows hturn h
  · exact (hmalloc _ .buffer).trans (connectClient_follows hturn h)

/-- `iotx_comm_connect`, in whatever function it was called. -/
theorem commConnect_follows (hturn : Followed turn) {i : Connecting τ} {rc : Bool}
    (h : iotxCommConnect turn s i = .ok (rc, s')) : Follows s s' := by
  obtain ⟨t, hdisconnect, h⟩ := bind_eq_ok.mp h
  exact (commDisconnect_follows hturn hdisconnect).trans (establish_follows hturn h)

/-! ## The calls -/

/-- The switch at the end of `IOT_Comm_Yield`. -/
theorem yieldTail_reaches (hturn : Followed turn) {y : Yielding τ} (hloop : Looping m)
    (hshows : Shows m s)
    (h : (if s.connState = .disconnectedReconnecting then iotxConnHandleReconnect turn s y
      else if s.connState = .disconnected then
        .ok (CommIf.iotxSetConnState s .disconnectedReconnecting)
      else .ok s) = .ok s') : Reaches (yieldTail m y.expired) s' m.frames := by
  rw [yieldTail]
  have hstate₀ := hshows.connState
  split at h
  next hstate =>
    rw [if_pos (hstate₀.trans hstate)]
    obtain hearly | hexpired := Bool.eq_false_or_eq_true y.expired |>.symm
    · rw [iotxConnHandleReconnect, if_pos hearly] at h
      cases h
      rw [if_neg (hearly ▸ Bool.false_ne_true)]
      exact hshows.reaches
    rw [iotxConnHandleReconnect, if_neg (Bool.not_eq_false _ ▸ hexpired)] at h
    obtain ⟨⟨rc, t⟩, hconnect, h⟩ := bind_eq_ok.mp h
    cases h
    rw [if_pos hexpired]
    have hattempt := commConnect_follows hturn hconnect
      { m with frames := .reconnecting :: m.frames, dials := m.dials + 1 }
      (fun f hf => by cases hf; rfl) ⟨hshows.connState, hshows.networkState⟩
    refine hattempt.trans fun n hn hframes => ?_
    have hreturns : step n (.connectReturns rc) =
        .ok (if rc then iotxSetConnState { n with frames := m.frames } .connected []
          else { n with frames := m.frames }) := by
      rw [step, hframes]
    have hback : Shows { n with frames := m.frames } t := ⟨hn.connState, hn.networkState⟩
    refine Reaches.step hreturns ?_
    cases rc with
    | true =>
        exact setConnState_reaches (m := { n with frames := m.frames }) hloop hback .connected
    | false => exact hback.reaches
  next hstate =>
    rw [if_neg (hstate₀ ▸ hstate)]
    split at h
    next hlost =>
      cases h
      rw [if_pos (hstate₀.trans hlost)]
      exact Shows.reaches ⟨rfl, hshows.networkState⟩
    next hnot =>
      cases h
      rw [if_neg (hstate₀ ▸ hnot)]
      exact hshows.reaches

/-- `IOT_Comm_IsConnected` finds the connection lost, and `IOT_Comm_Yield` goes on. -/
theorem lostTail_reaches (hturn : Followed turn) {y : Yielding τ} (hloop : Looping m)
    (hshows : Shows m s)
    (h : (.ok (CommIf.iotxSetConnState s .disconnectedReconnecting) :
      Except ObjectHeap.Fault Comm) = .ok s') :
    Reaches (iotxSetConnState m .disconnected [.yielded y.expired]) s' m.frames := by
  obtain ⟨as, told, hrun⟩ := setConnState_run m .disconnected [.yielded y.expired]
  have htail := yieldTail_reaches (m := store { m with told } .disconnected)
    (s := CommIf.iotxSetConnState s .disconnected) (y := y) hturn hloop
    ⟨rfl, hshows.networkState⟩ h
  obtain ⟨bs, n, hrun', hend⟩ := htail
  exact ⟨as ++ bs, n, Runs.run_append.mpr ⟨_, hrun, hrun'⟩, hend⟩

/-- `IOT_Comm_Yield` after `iotx_comm_yield`. -/
theorem afterYield_reaches (hturn : Followed turn) {y : Yielding τ} (hloop : Looping m)
    (hshows : Shows m s) {up : Bool} {t : Comm}
    (hconnected : CommIf.iotCommIsConnected s = .ok (up, t))
    (h : (if up then iotCommSendDataIf t y.automatic
      else if t.connState = .disconnectedReconnecting then iotxConnHandleReconnect turn t y
      else if t.connState = .disconnected then
        .ok (CommIf.iotxSetConnState t .disconnectedReconnecting)
      else .ok t) = .ok s') : ∃ y', Reaches (afterYield m y') s' m.frames := by
  rw [CommIf.iotCommIsConnected] at hconnected
  rcases networkIsConnected_cases hshows with ⟨hdown, hnet⟩ | ⟨hup, hnet⟩
  · rw [hnet] at hconnected
    cases hconnected
    refine ⟨⟨false, none, y.expired⟩, ?_⟩
    rw [afterYield, if_neg fun hall => hdown hall.1, iotCommIsConnected, iotNetworkIsConnected,
      if_pos hdown]
    exact lostTail_reaches hturn hloop hshows h
  simp only [hnet, Bool.true_eq_false, if_false] at hconnected
  split at hconnected
  next hnot =>
    cases hconnected
    have hnot' : m.connState ≠ .connected := hshows.connState ▸ hnot
    refine ⟨⟨false, none, y.expired⟩, ?_⟩
    rw [afterYield, if_neg fun hall => hnot' hall.2.1, iotCommIsConnected,
      iotNetworkIsConnected_up hup, if_pos hnot']
    exact yieldTail_reaches hturn hloop hshows h
  next hstate =>
    have hstate' : m.connState = .connected := hshows.connState ▸ not_not.mp hstate
    obtain ⟨rst, -, hconnected⟩ := bind_eq_ok.mp hconnected
    obtain ⟨rfl, rfl⟩ := Prod.mk.inj (Except.ok.inj hconnected)
    cases rst with
    | true =>
        have hsame : Shows m (CommIf.iotxSetConnState s .connected) :=
          ⟨hstate', hshows.networkState⟩
        cases hautomatic : y.automatic with
        | none =>
            rw [hautomatic] at h
            cases h
            refine ⟨⟨true, none, y.expired⟩, ?_⟩
            rw [afterYield, if_pos ⟨hup, hstate', rfl⟩]
            exact hsame.reaches
        | some msg =>
            rw [hautomatic] at h
            obtain ⟨sent, hreaches⟩ := sendData_reaches hloop hsame h
            refine ⟨⟨true, some sent, y.expired⟩, ?_⟩
            rw [afterYield, if_pos ⟨hup, hstate', rfl⟩]
            exact hreaches
    | false =>
        refine ⟨⟨false, none, y.expired⟩, ?_⟩
        have hnot : ¬(m.networkState = .connected ∧ m.connState = .connected ∧ false = true) :=
          fun hall => Bool.false_ne_true hall.2.2
        rw [afterYield, if_neg hnot, iotCommIsConnected, iotNetworkIsConnected_up hup,
          if_neg (not_not.mpr hstate')]
        exact lostTail_reaches hturn hloop hshows h

theorem yield_follows (hturn : Followed turn) {y : Yielding τ}
    (h : CommIf.iotCommYield turn s y = .ok s') : Follows s s' := by
  intro m hloop hshows
  refine hloop.call (c := .yield) nofun nofun ?_
  rw [enter, iotCommYield]
  rw [CommIf.iotCommYield] at h
  rcases networkIsConnected_cases hshows with ⟨hdown, hnet⟩ | ⟨hup, hnet⟩
  · rw [hnet] at h
    cases h
    rw [iotNetworkIsConnected, if_pos hdown]
    exact setConnState_reaches hloop hshows .disconnected
  simp only [hnet, Bool.true_eq_false, if_false] at h
  obtain ⟨t, hyield, h⟩ := bind_eq_ok.mp h
  obtain ⟨⟨up, u⟩, hconnected, h⟩ := bind_eq_ok.mp h
  rw [iotNetworkIsConnected_up hup]
  have hpasses := commYield_follows hturn hyield { m with frames := .yielding :: m.frames }
    (fun f hf => by cases hf; rfl) ⟨hshows.connState, hshows.networkState⟩
  refine hpasses.trans fun n hn hframes => ?_
  obtain ⟨y', hreaches⟩ := afterYield_reaches (m := { n with frames := m.frames }) hturn hloop
    ⟨hn.connState, hn.networkState⟩ hconnected h
  refine hreaches.step (a := .yieldReturns y') ?_
  rw [step, hframes]

/-- With no function at work the machine can go on from what it shows of `s` to `s'`. -/
def FollowsAlone (s s' : Comm) : Prop := ∀ m, m.frames = [] → Shows m s → Reaches m s' []

theorem Follows.alone (h : Follows s s') : FollowsAlone s s' := by
  intro m hframes hshows
  have hloop : Looping m := fun f hf => by
    rw [hframes] at hf
    cases hf
  exact hframes ▸ h m hloop hshows

theorem connect_follows (hturn : Followed turn) {i : Connecting τ}
    (h : CommIf.iotCommConnect turn s i = .ok s') : FollowsAlone s s' := by
  intro m hnone hshows
  have hloop : Looping m := fun f hf => by
    rw [hnone] at hf
    cases hf
  have hcall : step m (.call .connect) = .ok (iotCommConnect m) := by
    rw [step, hnone]
    rfl
  refine Reaches.step hcall ?_
  rw [iotCommConnect]
  rw [CommIf.iotCommConnect] at h
  rcases networkIsConnected_cases hshows with ⟨hdown, hnet⟩ | ⟨hup, hnet⟩
  · rw [hnet] at h
    cases h
    rw [iotNetworkIsConnected, if_pos hdown]
    exact hnone ▸ setConnState_reaches hloop hshows .disconnected
  simp only [hnet, Bool.true_eq_false, if_false] at h
  rw [iotNetworkIsConnected_up hup]
  split at h
  next hconnected =>
    cases h
    rw [if_pos (hshows.connState.trans hconnected)]
    exact hnone ▸ hshows.reaches
  next hconnected =>
    obtain ⟨⟨rst, t⟩, hconnect, h⟩ := bind_eq_ok.mp h
    cases h
    rw [if_neg (hshows.connState ▸ hconnected)]
    have hattempt := commConnect_follows hturn hconnect
      { m with frames := .connecting :: m.frames, dials := m.dials + 1 }
      (fun f hf => by cases hf; rfl) ⟨hshows.connState, hshows.networkState⟩
    refine hattempt.trans fun n hn hframes => ?_
    refine Reaches.step (a := .connectReturns rst) (by rw [step, hframes]) ?_
    have hset := setConnState_reaches (m := { n with frames := m.frames }) hloop
      ⟨hn.connState, hn.networkState⟩ (if rst then .connected else .disconnected)
    simpa only [hnone] using hset

theorem disconnect_follows (hturn : Followed turn) {r : Releasing τ}
    (h : CommIf.iotCommDisconnect turn s r = .ok s') : FollowsAlone s s' := by
  intro m hnone hshows
  have hcall : step m (.call .disconnect) = .ok (iotCommDisconnect m) := by
    rw [step, hnone]
    rfl
  refine Reaches.step hcall ?_
  obtain ⟨as, told, hrun⟩ := setConnState_run m .initialized [.disconnecting]
  have hdestroy := commDisconnect_follows hturn h
    { store { m with told } .initialized with frames := .destroying :: m.frames }
    (fun f hf => by cases hf; rfl) ⟨rfl, hshows.networkState⟩
  have hreaches : Reaches (iotCommDisconnect m) s' (.destroying :: m.frames) := by
    obtain ⟨bs, n, hrun', hend⟩ := hdestroy
    exact ⟨as ++ bs, n, Runs.run_append.mpr ⟨_, hrun, hrun'⟩, hend⟩
  refine hreaches.trans fun n hn hframes => ?_
  have hreturns : step n .disconnectReturns = .ok { n with frames := m.frames } := by
    rw [step, hframes]
  refine Reaches.step hreturns ?_
  have hback : Shows { n with frames := m.frames } s' := ⟨hn.connState, hn.networkState⟩
  exact hnone ▸ hback.reaches

theorem call_follows (hturn : Followed turn) {c : CommIf.Call τ}
    (h : CommIf.call turn s c = .ok s') : FollowsAlone s s' := by
  cases c with
  | setNetwork newState =>
      cases h
      exact (networkSetState_follows s newState).alone
  | connect i => exact connect_follows hturn h
  | disconnect r => exact disconnect_follows hturn h
  | yield y => exact (yield_follows hturn h).alone
  | sendData msg => exact (sendData_follows h).alone

end Reentered

/-- `IOT_SYSTEM_Loop` in a delay, to any depth. -/
theorem systemLoop_followed (depth : Nat) : Followed (systemLoop depth) := by
  induction depth with
  | zero => exact fun _ t => nomatch t
  | succ depth ih =>
      exact fun s t _ h => (networkSetState_follows s t.network).trans (yield_follows ih h)

theorem run_act {m m' : Machine} {as : List Action} (h : Runs.run step m as = .ok m') :
    Runs.run act m as = .ok m' := by
  induction as generalizing m with
  | nil => exact h
  | cons a as ih =>
      obtain ⟨n, hstep, hrun⟩ := Runs.run_cons.mp h
      exact Runs.run_cons.mpr ⟨n, act_of_step hstep, ih hrun⟩

/-- A run of calls of the connection layer is a run of the machine, which ends with the same
states and no function at work. -/
theorem runCalls_simulated {depth : Nat} {calls : List (CommIf.Call (TurnAt depth))} {s : Comm}
    (h : runCalls depth calls = .ok s) :
    ∃ as m, Runs.run act .initial as = .ok m ∧ Shows m s ∧ m.frames = [] := by
  have hfollows : FollowsAlone .initial s :=
    Runs.run_preorder (R := FollowsAlone) (fun t => (Follows.refl t).alone)
      (fun hst htu m hnone hshows => (hst m hnone hshows).trans fun n hn hframes =>
        htu n hframes hn)
      (call_follows (systemLoop_followed depth)) h
  obtain ⟨as, m, hrun, hshows, hframes⟩ := hfollows .initial rfl ⟨rfl, rfl⟩
  exact ⟨as, m, run_act hrun, hshows, hframes⟩

end IotKit.CommIf.Status
