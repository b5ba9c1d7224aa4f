import IotKit.CommIf.Status

/-!
# The cloud status events

The notification goes out before the state is stored.  A query that the event callback makes
while it is told that the cloud is gone still finds the state connected: if it finds the
network down or the client not connected, it sets the state once more and the callback is
told a second time.  Without such a query the notifications are the crossings of the
connection state, each of them once.
-/

namespace IotKit.CommIf.Status

/-- The latest notification; before the first one the cloud is not connected. -/
def lastTold (told : List Bool) : Bool := told.headD false

/-- Connected, disconnected, connected and so on, from the end of the list. -/
def Alternates : List Bool → Prop
  | [] => True
  | up :: told => up ≠ lastTold told ∧ Alternates told

def Frame.isNotifying : Frame → Bool
  | .notifying _ => true
  | _ => false

/-- No notification of `event_cloud_status` is in progress. -/
def Machine.Silent (m : Machine) : Prop := ∀ f ∈ m.frames, f.isNotifying = false

/-- The notifications alternate, and between them each crossing has been told once and the
latest tells the connection state. -/
structure Mirrors (m : Machine) : Prop where
  alternates : Alternates m.told
  told : m.Silent → m.told = m.crossings
  latest : m.Silent → lastTold m.told = isConnected m.connState

/-- What a query finds: the network is up, and the client is connected. -/
def Call.Finds (m : Machine) : Call → Prop
  | .networkIsConnected => m.networkState = .connected
  | .commIsConnected rst => m.networkState = .connected ∧ rst = true
  | _ => True

/-- A query made in the callback for a disconnected cloud finds the network up and the
client connected. -/
def Harmless (m : Machine) : Action → Prop
  | .call c => ∀ newState, m.frames.head? = some (.notifying newState) →
      newState ≠ .connected → c.Finds m
  | _ => True

/-! ## Between two notifications -/

/-- No notification is in progress, and the notifications mirror the state. -/
structure Steady (m : Machine) : Prop where
  silent : m.Silent
  told : m.told = m.crossings
  alternates : Alternates m.crossings
  latest : lastTold m.crossings = isConnected m.connState

/-- A notification is in progress: it is the one function of its kind at work, and tells the
crossing that its store is going to make. -/
structure Telling (m : Machine) (newState : ConnState) (frames : List Frame) : Prop where
  top : m.frames = .notifying newState :: frames
  silent : ∀ f ∈ frames, f.isNotifying = false
  told : m.told = isConnected newState :: m.crossings
  alternates : Alternates m.crossings
  latest : lastTold m.crossings = isConnected m.connState
  crosses : isConnected newState ≠ isConnected m.connState

/-- What holds of every state that harmless actions reach. -/
def Mirroring (m : Machine) : Prop := Steady m ∨ ∃ newState frames, Telling m newState frames

theorem Mirroring.mirrors {m : Machine} (h : Mirroring m) : Mirrors m := by
  rcases h with h | ⟨newState, frames, h⟩
  · exact ⟨h.told ▸ h.alternates, fun _ => h.told, fun _ => h.told ▸ h.latest⟩
  · have hloud : ¬m.Silent := fun hsilent => by
      have := hsilent (.notifying newState) (by simp [h.top])
      cases this
    refine ⟨?_, fun hsilent => absurd hsilent hloud, fun hsilent => absurd hsilent hloud⟩
    rw [h.told]
    exact ⟨h.latest ▸ h.crosses, h.alternates⟩

/-- A notification tells a crossing. -/
theorem notification_some {old newState : ConnState} {up : Bool}
    (h : notification old newState = some up) :
    up = isConnected newState ∧ isConnected newState ≠ isConnected old := by
  cases old <;> cases newState <;> cases h <;> decide

/-- A store without a notification is no crossing. -/
theorem notification_none {old newState : ConnState} (h : notification old newState = none)
    (hnew : newState = .initialized ∨ newState = .disconnected ∨ newState = .connected) :
    isConnected newState = isConnected old := by
  rcases hnew with rfl | rfl | rfl <;> cases old <;> first | rfl | cases h

section Functions

variable {m : Machine} {rest : List Frame}

theorem Steady.store (h : Steady m) {newState : ConnState}
    (hsame : isConnected newState = isConnected m.connState) : Steady (store m newState) where
  silent := h.silent
  told := by simp [Status.store, hsame, h.told]
  alternates := by simpa [Status.store, hsame] using h.alternates
  latest := by simpa [Status.store, hsame] using h.latest

/-- The end of `iotx_set_conn_state` after the notification. -/
theorem Telling.store {newState : ConnState} {frames : List Frame}
    (h : Telling m newState frames) : Steady (store { m with frames } newState) where
  silent := h.silent
  told := by simp [Status.store, h.crosses, h.told]
  alternates := by
    simp only [Status.store, h.crosses, if_false]
    exact ⟨h.latest ▸ h.crosses, h.alternates⟩
  latest := by simp [Status.store, h.crosses, lastTold]

theorem Steady.withFrames (h : Steady m) {frames : List Frame}
    (hsilent : ∀ f ∈ frames, f.isNotifying = false) : Steady { m with frames } :=
  ⟨hsilent, h.told, h.alternates, h.latest⟩

theorem Steady.yieldTail (h : Steady m) (expired : Bool) : Steady (yieldTail m expired) := by
  rw [Status.yieldTail]
  split
  · split
    · exact ⟨List.forall_mem_cons.mpr ⟨rfl, h.silent⟩, h.told, h.alternates, h.latest⟩
    · exact h
  · split
    next hstate => exact h.store (by rw [hstate]; rfl)
    next => exact h

theorem Steady.resume (h : Steady m) : Steady (resume m) := by
  rw [Status.resume]
  split
  next expired frames htop =>
    refine (h.withFrames fun f hf => h.silent f ?_).yieldTail expired
    rw [htop]
    exact List.mem_cons_of_mem _ hf
  next frames htop =>
    refine h.withFrames (List.forall_mem_cons.mpr ⟨rfl, fun f hf => h.silent f ?_⟩)
    rw [htop]
    exact List.mem_cons_of_mem _ hf
  next => exact h

theorem Steady.iotxSetConnState (h : Steady m) {newState : ConnState}
    (hnew : newState = .initialized ∨ newState = .disconnected ∨ newState = .connected)
    (hrest : ∀ f ∈ rest, f.isNotifying = false) :
    Mirroring (iotxSetConnState m newState rest) := by
  have hframes : ∀ f ∈ rest ++ m.frames, f.isNotifying = false :=
    List.forall_mem_append.mpr ⟨hrest, h.silent⟩
  rw [Status.iotxSetConnState]
  split
  next up hsome =>
    obtain ⟨rfl, hcross⟩ := notification_some hsome
    exact Or.inr ⟨newState, _, rfl, hframes, by rw [h.told], h.alternates, h.latest, hcross⟩
  next hnone =>
    exact Or.inl ((h.withFrames hframes).store (notification_none hnone hnew)).resume

theorem Steady.iotNetworkIsConnected (h : Steady m) {k : Machine → Machine}
    (hrest : ∀ f ∈ rest, f.isNotifying = false) (hk : Mirroring (k m)) :
    Mirroring (iotNetworkIsConnected m rest k) := by
  rw [Status.iotNetworkIsConnected]
  split
  · exact h.iotxSetConnState (Or.inr (Or.inl rfl)) hrest
  · exact hk

theorem Steady.iotCommIsConnected (h : Steady m) (rst : Bool)
    (hrest : ∀ f ∈ rest, f.isNotifying = false) : Mirroring (iotCommIsConnected m rst rest) := by
  refine h.iotNetworkIsConnected hrest ?_
  split
  · exact Or.inl (h.withFrames (List.forall_mem_append.mpr ⟨hrest, h.silent⟩)).resume
  · refine h.iotxSetConnState ?_ hrest
    cases rst
    · exact Or.inr (Or.inl rfl)
    · exact Or.inr (Or.inr rfl)

theorem Steady.iotCommSendData (h : Steady m) (sent : Bool) :
    Mirroring (iotCommSendData m sent) := by
  refine h.iotNetworkIsConnected (by simp) ?_
  split
  · exact Or.inl h
  · split
    · exact Or.inl h
    · exact h.iotxSetConnState (Or.inr (Or.inl rfl)) (by simp)

theorem Steady.afterYield (h : Steady m) (y : Yielded) : Mirroring (afterYield m y) := by
  rw [Status.afterYield]
  split
  · split
    · exact Or.inl h
    · exact h.iotCommSendData _
  · exact h.iotCommIsConnected _ (by simp [Frame.isNotifying])

theorem Steady.enter (h : Steady m) (c : Call) : Mirroring (enter m c) := by
  cases c with
  | setNetworkState newState =>
      rw [Status.enter, iotxSetNetworkState]
      split
      · exact Or.inl (h.withFrames (List.forall_mem_cons.mpr ⟨rfl, h.silent⟩))
      · exact Or.inl h
  | networkIsConnected => exact h.iotNetworkIsConnected (List.forall_mem_nil _) (Or.inl h)
  | commIsConnected rst => exact h.iotCommIsConnected rst (List.forall_mem_nil _)
  | sendData sent => exact h.iotCommSendData sent
  | sendActionReply formatted sent =>
      rw [Status.enter, iotCommSendActionReply]
      refine h.iotNetworkIsConnected (List.forall_mem_nil _) ?_
      split
      · exact Or.inl h
      · split
        · exact Or.inl h
        · split
          · exact Or.inl h
          · exact h.iotxSetConnState (Or.inr (Or.inl rfl)) (by simp)
  | yield =>
      rw [Status.enter, iotCommYield]
      refine h.iotNetworkIsConnected (List.forall_mem_nil _) (Or.inl ?_)
      exact h.withFrames (List.forall_mem_cons.mpr ⟨rfl, h.silent⟩)
  | connect =>
      rw [Status.enter, iotCommConnect]
      refine h.iotNetworkIsConnected (List.forall_mem_nil _) ?_
      split
      · exact Or.inl h
      · exact Or.inl ⟨List.forall_mem_cons.mpr ⟨rfl, h.silent⟩, h.told, h.alternates, h.latest⟩
  | disconnect => exact h.iotxSetConnState (Or.inl rfl) (by simp [Frame.isNotifying])

end Functions

/-! ## Queries from the callback -/

section Telling

variable {m : Machine} {newState : ConnState} {frames : List Frame}

theorem Telling.resume (h : Telling m newState frames) : resume m = m := by
  rw [Status.resume, h.top]

/-- A store that is no crossing does not disturb the notification in progress. -/
theorem Telling.storeSame (h : Telling m newState frames) {state : ConnState}
    (hsame : isConnected state = isConnected m.connState) :
    Telling (Status.store m state) newState frames where
  top := h.top
  silent := h.silent
  told := by simp [Status.store, hsame, h.told]
  alternates := by simpa [Status.store, hsame] using h.alternates
  latest := by simpa [Status.store, hsame] using h.latest
  crosses := hsame ▸ h.crosses

theorem Telling.iotxSetConnState (h : Telling m newState frames) {state : ConnState}
    (hnone : notification m.connState state = none)
    (hsame : isConnected state = isConnected m.connState) :
    Telling (iotxSetConnState m state []) newState frames := by
  have htelling := h.storeSame hsame
  rw [Status.iotxSetConnState, hnone]
  show Telling (Status.resume (Status.store m state)) newState frames
  rwa [htelling.resume]

/-- In the callback for a connected cloud the state is not connected yet. -/
theorem Telling.not_connected (h : Telling m .connected frames) : m.connState ≠ .connected :=
  fun hstate => h.crosses (by rw [hstate])

/-- In the callback for a disconnected cloud the state is still connected. -/
theorem Telling.connected (h : Telling m newState frames) (hnew : newState ≠ .connected) :
    m.connState = .connected := by
  have hcrosses := h.crosses
  by_contra hstate
  simp [isConnected, hnew, hstate] at hcrosses

theorem notification_disconnected {old : ConnState} (h : old ≠ .connected) :
    notification old .disconnected = none := by
  cases old <;> first | rfl | exact absurd rfl h

/-- A query that finds what it should leaves the notification in progress alone. -/
theorem Telling.query (h : Telling m newState frames) {c : Call}
    (hpossible : c.possible (some (.notifying newState)) = true)
    (hfinds : newState ≠ .connected → c.Finds m) : Telling (Status.enter m c) newState frames := by
  have hlost (hstate : m.connState ≠ .connected) :
      Telling (Status.iotxSetConnState m .disconnected []) newState frames :=
    h.iotxSetConnState (notification_disconnected hstate) (by simp [isConnected, hstate])
  by_cases hnew : newState = .connected
  · subst hnew
    have hstate := h.not_connected
    cases c with
    | networkIsConnected =>
        show Telling (Status.iotNetworkIsConnected m [] id) .connected frames
        rw [Status.iotNetworkIsConnected]
        split
        · exact hlost hstate
        · exact h
    | commIsConnected rst =>
        show Telling (Status.iotCommIsConnected m rst []) .connected frames
        rw [Status.iotCommIsConnected, Status.iotNetworkIsConnected]
        split
        · exact hlost hstate
        · show Telling (Status.resume m) .connected frames
          rwa [h.resume]
    | _ => cases hpossible
  · have hstate := h.connected hnew
    cases c with
    | networkIsConnected =>
        have hup : m.networkState = .connected := hfinds hnew
        show Telling (Status.iotNetworkIsConnected m [] id) newState frames
        rw [Status.iotNetworkIsConnected, if_neg (not_not.mpr hup)]
        exact h
    | commIsConnected rst =>
        obtain ⟨hup, hrst⟩ : m.networkState = .connected ∧ rst = true := hfinds hnew
        subst hrst
        show Telling (Status.iotCommIsConnected m true []) newState frames
        rw [Status.iotCommIsConnected, Status.iotNetworkIsConnected, if_neg (not_not.mpr hup),
          if_neg (not_not.mpr hstate)]
        exact h.iotxSetConnState (by rw [hstate]; rfl) (by rw [hstate]; rfl)
    | _ => cases hpossible

/-- A query that does not sets the state again, and the callback is told again. -/
theorem Telling.harm (h : Telling m newState frames) {c : Call} (hnew : newState ≠ .connected)
    (hfinds : ¬c.Finds m) :
    c.possible m.frames.head? = true ∧ (Status.enter m c).told = false :: m.told := by
  have hstate := h.connected hnew
  have hagain : (Status.iotxSetConnState m .disconnected []).told = false :: m.told := by
    rw [Status.iotxSetConnState, hstate]
    rfl
  cases c with
  | networkIsConnected =>
      refine ⟨by rw [h.top]; rfl, ?_⟩
      show (Status.iotNetworkIsConnected m [] id).told = _
      have hdown : m.networkState ≠ .connected := hfinds
      rw [Status.iotNetworkIsConnected, if_pos hdown]
      exact hagain
  | commIsConnected rst =>
      refine ⟨by rw [h.top]; rfl, ?_⟩
      show (Status.iotCommIsConnected m rst []).told = _
      rw [Status.iotCommIsConnected, Status.iotNetworkIsConnected]
      split
      · exact hagain
      next hup =>
        have hrst : rst = false := by
          by_contra htrue
          exact hfinds ⟨not_not.mp hup, by simpa using htrue⟩
        rw [if_neg (not_not.mpr hstate), hrst]
        exact hagain
  | _ => exact absurd trivial hfinds

end Telling

/-! ## Runs -/

section Runs

variable {m m' : Machine}

theorem Steady.pop (h : Steady m) {f : Frame} {frames : List Frame}
    (htop : m.frames = f :: frames) : Steady { m with frames } :=
  h.withFrames fun g hg => h.silent g (htop ▸ List.mem_cons_of_mem _ hg)

theorem Steady.step (h : Steady m) {a : Action} (hstep : step m a = .ok m') : Mirroring m' := by
  cases a with
  | call c =>
      rw [Status.step] at hstep
      split at hstep
      · cases hstep
        exact h.enter c
      · cases hstep
  | callbackReturns =>
      rw [Status.step] at hstep
      split at hstep
      next newState frames htop =>
        have := h.silent (.notifying newState) (by simp [htop])
        cases this
      next newState frames htop =>
        cases hstep
        have hpop := h.pop htop
        exact Or.inl ⟨hpop.silent, h.told, h.alternates, h.latest⟩
      next => cases hstep
  | yieldReturns y =>
      rw [Status.step] at hstep
      split at hstep
      next frames htop =>
        cases hstep
        exact (h.pop htop).afterYield y
      next => cases hstep
  | connectReturns ok =>
      rw [Status.step] at hstep
      split at hstep
      next frames htop =>
        cases hstep
        refine (h.pop htop).iotxSetConnState ?_ (List.forall_mem_nil _)
        cases ok
        · exact Or.inr (Or.inl rfl)
        · exact Or.inr (Or.inr rfl)
      next frames htop =>
        cases hstep
        split
        · exact (h.pop htop).iotxSetConnState (Or.inr (Or.inr rfl)) (List.forall_mem_nil _)
        · exact Or.inl (h.pop htop)
      next => cases hstep
  | disconnectReturns =>
      rw [Status.step] at hstep
      split at hstep
      next frames htop =>
        cases hstep
        exact Or.inl (h.pop htop)
      next => cases hstep

/-- While a notification is in progress, either the callback queries or it returns. -/
theorem Telling.step {newState : ConnState} {frames : List Frame} (h : Telling m newState frames)
    {a : Action} (ha : Harmless m a) (hstep : step m a = .ok m') : Mirroring m' := by
  have htop := h.top
  cases a with
  | call c =>
      rw [Status.step, htop] at hstep
      split at hstep
      next hpossible =>
        cases hstep
        exact Or.inr ⟨newState, frames,
          h.query hpossible fun hnew => ha newState (by rw [htop]; rfl) hnew⟩
      next => cases hstep
  | callbackReturns =>
      simp only [Status.step, htop] at hstep
      cases hstep
      exact Or.inl h.store.resume
  | yieldReturns y =>
      simp only [Status.step, htop] at hstep
      cases hstep
  | connectReturns ok =>
      simp only [Status.step, htop] at hstep
      cases hstep
  | disconnectReturns =>
      simp only [Status.step, htop] at hstep
      cases hstep

theorem Mirroring.step {a : Action} (h : Mirroring m) (ha : Harmless m a)
    (hstep : step m a = .ok m') : Mirroring m' := by
  rcases h with h | ⟨newState, frames, h⟩
  · exact h.step hstep
  · exact h.step ha hstep

/-- A harmful query is answered, and leaves two notifications of the same kind. -/
theorem Mirroring.harm {a : Action} (h : Mirroring m) (ha : ¬Harmless m a) :
    ∃ m', Status.step m a = .ok m' ∧ ¬Mirrors m' := by
  cases a with
  | call c =>
      simp only [Harmless, not_forall] at ha
      obtain ⟨newState, htop, hnew, hfinds⟩ := ha
      rcases h with h | ⟨newState', frames, h⟩
      · have hmem : .notifying newState ∈ m.frames := List.mem_of_mem_head? htop
        have := h.silent _ hmem
        cases this
      · obtain rfl : newState' = newState := by
          rw [h.top] at htop
          cases htop
          rfl
        obtain ⟨hpossible, htold⟩ := h.harm hnew hfinds
        refine ⟨enter m c, if_pos hpossible, fun hmirrors => ?_⟩
        have hagain := hmirrors.alternates
        have hfalse : isConnected newState' = false := by simp [isConnected, hnew]
        rw [htold, h.told, hfalse] at hagain
        exact hagain.1 rfl
  | _ => exact absurd trivial ha

theorem Machine.initial_mirroring : Mirroring .initial :=
  Or.inl ⟨List.forall_mem_nil _, rfl, trivial, rfl⟩

end Runs

/-- The notifications mirror the state at every moment of the run. -/
def Mirrored (as : List Action) : Prop :=
  ∀ bs m, bs <+: as → Runs.run step .initial bs = .ok m → Mirrors m

theorem run_mirrored_iff (as : List Action) :
    Mirrored as ↔ Runs.Guarded step Harmless .initial as :=
  Runs.always_good_iff Mirroring.mirrors Mirroring.step Mirroring.harm Machine.initial_mirroring

/-- The application connects, the network goes down and the application asks for it, in the
event callback once more. -/
def askedTwice : List Action :=
  [.call (.setNetworkState .connected), .callbackReturns, .call .connect, .connectReturns true,
    .callbackReturns, .call (.setNetworkState .disconnected), .callbackReturns,
    .call .networkIsConnected, .call .networkIsConnected]

theorem not_mirrored_askedTwice : ¬Mirrored askedTwice := by
  have htold : (fun m => m.told) <$> Runs.run step .initial askedTwice =
      .ok [false, false, true] := by decide
  obtain ⟨m, hrun, htold⟩ := CMemory.map_eq_ok.mp htold
  intro hmirrored
  have hagain := (hmirrored askedTwice m (List.prefix_refl _) hrun).alternates
  rw [htold] at hagain
  exact hagain.1 rfl

end IotKit.CommIf.Status
