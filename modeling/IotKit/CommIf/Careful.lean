import IotKit.CommIf.Reentry

/-!
# When the client is owned

`conn_info.pclient` is not cleared when its client is destroyed, the buffers of a
client that could not be set up are freed before it is shut down, and a delay may
reconnect under a function that works on the client.  The calls that meet none of
this are the careful ones, and `runCalls_owned_iff` says that no others keep the
pointer good: in every run, each state reached has a good pointer and no access
fails exactly when every call is careful.

A careful call is one that, itself and in the turns of its delays,

* disconnects only while the pointer is NULL;
* replaces a client only by a connection attempt that succeeds;
* gives up a client that was made only after a network error;
* leaves the client of the connection in place while a function above it in the
  stack works on that client.
-/

namespace IotKit.CommIf

open ObjectHeap
open CMemory (bind_eq_ok)
open Mqtt (McState)

/-! ## Careful calls -/

section Definitions

variable {τ : Type} (turn : Comm → τ → Except Fault Comm) (careful : Comm → τ → Prop)

/-- The delay of a function that works on the client at `a`. -/
def CarefulDelay (s : Comm) (a : Nat) (turns : List τ) : Prop :=
  Runs.Guarded turn careful s turns ∧
    (s.pclient = some a → ∀ s', delay turn s turns = .ok s' → s'.pclient = some a)

/-- `iotx_mc_release` with its two delays. -/
def CarefulRelease (s : Comm) (a : Nat) (r : Releasing τ) : Prop :=
  CarefulDelay turn careful s a r.first ∧
    ∀ s₁ s₂ s₃, delay turn s r.first = .ok s₁ → iotxMcDisconnect s₁ a = .ok s₂ →
      iotxMcSetClientState s₂ a .invalid = .ok s₃ → CarefulDelay turn careful s₃ a r.second

/-- The state in which `IOT_MQTT_Construct` has called `iotx_mc_connect`. -/
def connected (s : Comm) (i : Connecting τ) : Except Fault (Bool × Comm) :=
  iotxMcConnect ((twoBuffers s).malloc (.client ⟨s.heap.next, s.heap.next + 1, .initialized⟩)).2
    (nextClient s) i.construct.connect

/-- The state in which `do_exit` destroys the client. -/
def abandoned (s : Comm) (i : Connecting τ) : Except Fault Comm := do
  let (_, s₁) ← connected s i
  let (_, s₂) ← openSession s₁ (nextClient s) i
  let s₃ ← s₂.free s.heap.next
  s₃.free (s.heap.next + 1)

/-- A connection attempt that finds no client. -/
def CarefulEstablish (s : Comm) (i : Connecting τ) : Prop :=
  i.mallocWrite = true → i.mallocRead = true → i.construct.inited = true →
    (i.construct.connect ≠ .accepted → ∀ s', connected s i = .ok (false, s') →
      CarefulRelease turn careful s' (nextClient s) i.construct.release) ∧
    (i.construct.connect = .accepted → i.session ≠ .sent →
      i.session = .networkError ∧ ∀ s', abandoned s i = .ok s' →
        CarefulRelease turn careful s' (nextClient s) i.destroy)

/-- `iotx_comm_connect`. -/
def CarefulConnect (s : Comm) (i : Connecting τ) : Prop :=
  match s.pclient with
  | none => CarefulEstablish turn careful s i
  | some a => CarefulRelease turn careful s a i.disconnect ∧ i.Succeeds

/-- `iotx_comm_yield`. -/
def CarefulCycles (s : Comm) (y : Yielding τ) : Prop :=
  ∀ a, s.pclient = some a →
    Runs.Guarded (yieldCycle turn a)
      (fun st c => st.1 = false → CarefulDelay turn careful st.2 a c.wait) (true, s)
      (y.cycle :: y.cycles)

/-- `IOT_Comm_Yield`. -/
def CarefulYield (s : Comm) (y : Yielding τ) : Prop :=
  s.networkState = .connected →
    CarefulCycles turn careful s y ∧
      ∀ s₁ s₂, iotxCommYield turn s y = .ok s₁ → iotCommIsConnected s₁ = .ok (false, s₂) →
        s₂.connState = .disconnectedReconnecting → y.expired = true →
          CarefulConnect turn careful s₂ y.connect

def CarefulCall (s : Comm) : Call τ → Prop
  | .setNetwork _ => True
  | .connect i =>
      s.networkState = .connected → s.connState ≠ .connected → CarefulConnect turn careful s i
  | .disconnect _ => s.pclient = none
  | .yield y => CarefulYield turn careful s y
  | .sendData _ => True

end Definitions

/-- A turn of `IOT_SYSTEM_Loop`. -/
def carefulTurn : (depth : Nat) → Comm → TurnAt depth → Prop
  | 0, _, _ => True
  | depth + 1, s, t =>
      CarefulYield (systemLoop depth) (carefulTurn depth) (iotNetworkSetState s t.network) t.yield

/-- Every call of the run is careful. -/
def CarefulCalls (depth : Nat) (calls : List (Call (TurnAt depth))) : Prop :=
  Runs.Guarded (call (systemLoop depth)) (CarefulCall (systemLoop depth) (carefulTurn depth))
    .initial calls

variable {s s' s'' : Comm} {a b c x : Nat} {k : ClientObject} {P Q : Nat → Prop}

/-! ## A client in hand -/

/-- A client that is not the connection's. -/
structure Private (s : Comm) (a : Nat) : Prop where
  client : ∃ k, s.heap.cells a = some (.client k) ∧
    (k.clientState = .connected → s.heap.cells k.bufSend = some .buffer ∧ ¬Owns s k.bufSend)
  apart : ¬Owns s a

/-- A client that a function can work on. -/
def Held (s : Comm) (a : Nat) : Prop := s.pclient = some a ∨ Private s a

theorem Held.usable (howned : Owned s) (h : Held s a) : Usable s a := by
  rcases h with ha | h
  · exact (howned a ha).usable
  · obtain ⟨k, hk, hbuf⟩ := h.client
    exact ⟨k, hk, fun hstate => (hbuf hstate).1⟩

/-- What the turns of a delay do not touch. -/
theorem Frame.kept {o : Object} (h : Frame (fun _ => False) s s')
    (hcell : s.heap.cells x = some o) (hx : ¬Owns s x) : s'.heap.cells x = some o :=
  (h.heap.kept x (Heap.lt_next hcell) (fun hor => hor.elim (fun h => h) hx)).trans hcell

theorem Private.frame (h : Private s a) (hf : Frame (fun _ => False) s s') : Private s' a := by
  obtain ⟨k, hk, hbuf⟩ := h.client
  refine ⟨⟨k, hf.kept hk h.apart, fun hstate => ?_⟩,
    fun hown => h.apart (hf.owns a (Heap.lt_next hk) hown)⟩
  obtain ⟨hcell, happart⟩ := hbuf hstate
  exact ⟨hf.kept hcell happart,
    fun hown => happart (hf.owns _ (Heap.lt_next hcell) hown)⟩

/-- Work on a client that ends in a state other than connected keeps it in hand. -/
theorem Private.setClientState {st : McState} (h : Private s a) (hu : Updates a s s')
    (hst : st ≠ .connected) (hset : iotxMcSetClientState s' a st = .ok s'') : Private s'' a := by
  obtain ⟨k, _, hk'⟩ := setClientState_cells hset
  exact ⟨⟨_, hk', fun hstate => absurd hstate hst⟩,
    fun hown => h.apart (hu.owns ((setClientState_updates hset).owns hown))⟩

theorem Held.setClientState {st : McState} (h : Held s a) (hu : Updates a s s')
    (hst : st ≠ .connected) (hset : iotxMcSetClientState s' a st = .ok s'') : Held s'' a :=
  h.imp (fun ha => (setClientState_updates hset).pclient.trans (hu.pclient.trans ha))
    fun hp => hp.setClientState hu hst hset

/-- The pointer still points to a client that is there. -/
theorem Frame.pclient_of_client (h : Frame P s s') (ha : s.pclient = some a)
    (hk : s'.heap.cells a = some (.client k)) : s'.pclient = some a :=
  (h.replaced a ha).resolve_right fun ⟨_, hnone⟩ => by rw [hk] at hnone; cases hnone

/-- `careful` is exactly the condition for a turn to keep the pointer good. -/
def Decides {τ : Type} (turn : Comm → τ → Except Fault Comm) (careful : Comm → τ → Prop) :
    Prop :=
  ∀ {s t}, Settled s → Owned s → ((∃ s', turn s t = .ok s' ∧ Owned s') ↔ careful s t)

/-! ## Buffers in hand -/

/-- A buffer that is not the connection's. -/
structure Spare (s : Comm) (x : Nat) : Prop where
  cell : s.heap.cells x = some .buffer
  apart : ¬Owns s x

theorem Spare.frame (h : Spare s x) (hf : Frame P s s') (hx : ¬P x) : Spare s' x :=
  ⟨(hf.heap.kept x (Heap.lt_next h.cell) (fun hor => hor.elim hx h.apart)).trans h.cell,
    fun hown => h.apart (hf.owns x (Heap.lt_next h.cell) hown)⟩

/-- What the connection does not own can go. -/
theorem free_owned (howned : Owned s) (hx : ¬Owns s x) (h : s.free x = .ok s') : Owned s' := by
  refine (free_frame howned.settled h (Or.inr (Or.inl hx))).settled.owned fun c hc hfreed => ?_
  rw [free_pclient h] at hc
  have hne : c ≠ x := fun heq => hx ⟨c, hc, Or.inl heq.symm⟩
  exact (howned c hc).not_freed ⟨Heap.lt_next (howned c hc).choose_spec.1,
    (free_other h hne).symm.trans hfreed.2⟩

/-- Both buffers of an attempt can be freed. -/
theorem free_buffers (howned : Owned s) (hb : Spare s b) (hc : Spare s c) (hne : b ≠ c) :
    ∃ s₁ s₂, s.free b = .ok s₁ ∧ s₁.free c = .ok s₂ ∧ Owned s₁ ∧ Owned s₂ ∧ ¬Owns s₁ c := by
  obtain ⟨s₁, h₁⟩ := free_ok hb.cell
  have hc₁ : Spare s₁ c :=
    hc.frame (free_frame howned.settled h₁ (Or.inr (Or.inl hb.apart))) (Ne.symm hne)
  obtain ⟨s₂, h₂⟩ := free_ok hc₁.cell
  have howned₁ := free_owned howned hb.apart h₁
  exact ⟨s₁, s₂, h₁, h₂, howned₁, free_owned howned₁ hc₁.apart h₂, hc₁.apart⟩

/-! ## Delays -/

section Exact

variable {τ : Type} {turn : Comm → τ → Except Fault Comm} {careful : Comm → τ → Prop}
  {turns : List τ} {r : Releasing τ}
  (hturn : Framed turn) (hdecides : Decides turn careful)
include hturn hdecides

theorem delay_owned_iff (howned : Owned s) :
    (∃ s', delay turn s turns = .ok s' ∧ Owned s') ↔ Runs.Guarded turn careful s turns :=
  Runs.run_good_iff (fun (hs : Settled _) h => (hturn hs h).settled)
    (fun hs h => (hturn hs h).owned_back hs) hdecides howned.settled howned

theorem delay_held_iff (howned : Owned s) (hheld : Held s a) :
    (∃ s', delay turn s turns = .ok s' ∧ Owned s' ∧ Held s' a) ↔
      CarefulDelay turn careful s a turns := by
  constructor
  · rintro ⟨s', h, howned', hheld'⟩
    refine ⟨(delay_owned_iff hturn hdecides howned).mp ⟨s', h, howned'⟩, fun ha t ht => ?_⟩
    rw [h] at ht
    cases ht
    obtain ⟨k, hk, _⟩ := hheld'.usable howned'
    exact (delay_frame (P := fun _ => False) hturn howned.settled h).pclient_of_client ha hk
  · rintro ⟨hguard, hkeeps⟩
    obtain ⟨s', h, howned'⟩ := (delay_owned_iff hturn hdecides howned).mpr hguard
    exact ⟨s', h, howned',
      hheld.imp (fun ha => hkeeps ha s' h) fun hp => hp.frame (delay_frame hturn howned.settled h)⟩

omit hdecides in
theorem release_private (hs : Settled s) (hp : Private s a)
    (h : iotxMcRelease turn s a r = .ok s') : Private s' a := by
  obtain ⟨s₁, h₁, h⟩ := bind_eq_ok.mp h
  obtain ⟨s₂, h₂, h⟩ := bind_eq_ok.mp h
  obtain ⟨s₃, h₃, h⟩ := bind_eq_ok.mp h
  obtain ⟨s₄, h₄, h⟩ := bind_eq_ok.mp h
  obtain ⟨_, _, h⟩ := bind_eq_ok.mp h
  cases h
  have hf₁ : Frame (fun _ => False) s s₁ := delay_frame hturn hs h₁
  have hu₂ := disconnect_updates h₂
  have hs₃ := (setClientState_updates h₃).settled (hu₂.settled hf₁.settled)
  exact ((hp.frame hf₁).setClientState hu₂ (by decide) h₃).frame (delay_frame hturn hs₃ h₄)

omit hdecides in
theorem release_current (hs : Settled s) (ha : s.pclient = some a)
    (h : iotxMcRelease turn s a r = .ok s') : s'.pclient = some a ∧ Owned s' := by
  obtain ⟨hf, k, hk⟩ := release_frame hturn hs h
  have ha' := hf.pclient_of_client ha hk
  refine ⟨ha', hf.settled.owned fun c hc ⟨_, hnone⟩ => ?_⟩
  rw [ha'] at hc
  cases hc
  rw [hk] at hnone
  cases hnone

omit hdecides in
/-- A client in hand before a release is in hand after it. -/
theorem release_held (hs : Settled s) (hheld : Held s a)
    (h : iotxMcRelease turn s a r = .ok s') : Held s' a :=
  hheld.imp (fun ha => (release_current hturn hs ha h).1) fun hp => release_private hturn hs hp h

/-- A release goes well exactly when its two delays are careful. -/
theorem release_iff (howned : Owned s) (hheld : Held s a) :
    (∃ s', iotxMcRelease turn s a r = .ok s' ∧ Owned s') ↔
      CarefulRelease turn careful s a r := by
  have hs := howned.settled
  constructor
  · rintro ⟨s', h, howned'⟩
    have hheld' := release_held hturn hs hheld h
    obtain ⟨s₁, h₁, h⟩ := bind_eq_ok.mp h
    obtain ⟨s₂, h₂, h⟩ := bind_eq_ok.mp h
    obtain ⟨s₃, h₃, h⟩ := bind_eq_ok.mp h
    obtain ⟨s₄, h₄, h⟩ := bind_eq_ok.mp h
    obtain ⟨k', hk', h⟩ := bind_eq_ok.mp h
    cases h
    have hf₁ : Frame (fun _ => False) s s₁ := delay_frame hturn hs h₁
    have hu₂ := disconnect_updates h₂
    have hf₃ := (hu₂.trans (setClientState_updates h₃)).frame hf₁.settled
    have howned₃ : Owned s₃ :=
      (delay_frame (P := fun _ => False) hturn hf₃.settled h₄).owned_back hf₃.settled howned'
    have howned₁ : Owned s₁ := hf₃.owned_back hf₁.settled howned₃
    have hheld₁ : Held s₁ a := hheld.imp
      (fun ha => by
        obtain ⟨k, hk, _⟩ := disconnect_ok_iff.mp ⟨s₂, h₂⟩
        exact hf₁.pclient_of_client ha hk)
      fun hp => hp.frame hf₁
    have hheld₃ : Held s₃ a := hheld₁.setClientState hu₂ (by decide) h₃
    refine ⟨(delay_held_iff hturn hdecides howned hheld).mp ⟨s₁, h₁, howned₁, hheld₁⟩, ?_⟩
    intro t₁ t₂ t₃ ht₁ ht₂ ht₃
    rw [h₁] at ht₁
    cases ht₁
    rw [h₂] at ht₂
    cases ht₂
    rw [h₃] at ht₃
    cases ht₃
    exact (delay_held_iff hturn hdecides howned₃ hheld₃).mp ⟨_, h₄, howned', hheld'⟩
  · rintro ⟨hfirst, hsecond⟩
    obtain ⟨s₁, h₁, howned₁, hheld₁⟩ := (delay_held_iff hturn hdecides howned hheld).mpr hfirst
    obtain ⟨s₂, h₂⟩ := disconnect_ok_iff.mpr (hheld₁.usable howned₁)
    have hu₂ := disconnect_updates h₂
    obtain ⟨k, hk, _⟩ := (hheld₁.usable howned₁)
    obtain ⟨k₂, hk₂, _⟩ := hu₂.client hk
    obtain ⟨s₃, h₃⟩ := setClientState_ok .invalid hk₂
    have howned₃ := (setClientState_updates h₃).owned (hu₂.owned howned₁)
    have hheld₃ : Held s₃ a := hheld₁.setClientState hu₂ (by decide) h₃
    obtain ⟨s₄, h₄, howned₄, hheld₄⟩ :=
      (delay_held_iff hturn hdecides howned₃ hheld₃).mpr (hsecond s₁ s₂ s₃ h₁ h₂ h₃)
    obtain ⟨k₄, hk₄, _⟩ := hheld₄.usable howned₄
    exact ⟨s₄, bind_eq_ok.mpr ⟨s₁, h₁, bind_eq_ok.mpr ⟨s₂, h₂, bind_eq_ok.mpr ⟨s₃, h₃,
      bind_eq_ok.mpr ⟨s₄, h₄, bind_eq_ok.mpr ⟨k₄, client_eq_ok.mpr hk₄, rfl⟩⟩⟩⟩⟩, howned₄⟩

/-- A client in hand can be destroyed exactly when the delays are careful. -/
theorem destroy_private_iff (howned : Owned s) (hp : Private s a) :
    (∃ s', iotMqttDestroy turn s a r = .ok s' ∧ Owned s') ↔
      CarefulRelease turn careful s a r := by
  have hs := howned.settled
  rw [← release_iff hturn hdecides howned (Or.inr hp)]
  constructor
  · rintro ⟨s', h, howned'⟩
    obtain ⟨t, ht, hfree⟩ := bind_eq_ok.mp h
    have hpt := release_private hturn hs hp ht
    have hft := (release_frame hturn hs ht).1
    have hf := free_frame hft.settled hfree (Or.inr (Or.inl hpt.apart))
    exact ⟨t, ht, hf.owned_back hft.settled howned'⟩
  · rintro ⟨t, ht, hownedt⟩
    have hpt := release_private hturn hs hp ht
    obtain ⟨k, hk, _⟩ := hpt.client
    obtain ⟨s', hfree⟩ := free_ok hk
    exact ⟨s', bind_eq_ok.mpr ⟨t, ht, hfree⟩, free_owned hownedt hpt.apart hfree⟩

/-- A client of the connection can be disconnected exactly when the delays are careful. -/
theorem commDisconnect_iff (howned : Owned s) (ha : s.pclient = some a) :
    (∃ s', iotxCommDisconnect turn s r = .ok s') ↔ CarefulRelease turn careful s a r := by
  have hs := howned.settled
  have heq : iotxCommDisconnect turn s r = (do
      let k ← s.client a
      let s ← iotMqttDestroy turn s a r
      let s ← s.free k.bufSend
      s.free k.bufRead) := by rw [iotxCommDisconnect, ha]
  rw [heq]
  constructor
  · rintro ⟨s', h⟩
    obtain ⟨k, _, h⟩ := bind_eq_ok.mp h
    obtain ⟨s₁, h₁, _⟩ := bind_eq_ok.mp h
    obtain ⟨s₀, h₀, _⟩ := bind_eq_ok.mp h₁
    exact (release_iff hturn hdecides howned (Or.inl ha)).mp
      ⟨s₀, h₀, (release_current hturn hs ha h₀).2⟩
  · intro hcareful
    obtain ⟨s₀, h₀, howned₀⟩ := (release_iff hturn hdecides howned (Or.inl ha)).mpr hcareful
    obtain ⟨k, hk, _⟩ := howned a ha
    obtain ⟨hf, _⟩ := release_frame hturn hs h₀
    obtain ⟨k₀, hk₀, hsend, hread, hne⟩ := howned₀ a (release_current hturn hs ha h₀).1
    have hcell : s₀.heap.cells a ≠ none := hk₀ ▸ Option.some_ne_none _
    have hshape := (hf.shape a (Heap.lt_next hk)).resolve_left hcell
    rw [layout_of_client hk, layout_of_client hk₀] at hshape
    injection hshape with hshape
    injection hshape with hshape
    obtain ⟨hs₀, hr₀⟩ := Prod.mk.inj hshape
    rw [hs₀] at hsend
    rw [hr₀] at hread
    rw [hs₀, hr₀] at hne
    obtain ⟨s₁, h₁⟩ := free_ok hk₀
    have hother : ∀ x, x ≠ a → s₁.heap.cells x = s₀.heap.cells x := fun x hx => free_other h₁ hx
    have hsenda : k.bufSend ≠ a := fun heq => by rw [heq, hk₀] at hsend; cases hsend
    have hreada : k.bufRead ≠ a := fun heq => by rw [heq, hk₀] at hread; cases hread
    obtain ⟨s₂, h₂⟩ := free_ok ((hother _ hsenda).trans hsend)
    have hread₂ := (free_other h₂ (Ne.symm hne)).trans ((hother _ hreada).trans hread)
    obtain ⟨s₃, h₃⟩ := free_ok hread₂
    exact ⟨s₃, bind_eq_ok.mpr ⟨k, client_eq_ok.mpr hk, bind_eq_ok.mpr ⟨s₁,
      bind_eq_ok.mpr ⟨s₀, h₀, h₁⟩, bind_eq_ok.mpr ⟨s₂, h₂, h₃⟩⟩⟩⟩

/-! ## Connecting -/

omit hturn hdecides

/-- `iotx_mc_connect` on a client with its buffers goes as far as its outcome says. -/
theorem mcConnect_ok {o : McConnect} (hk : s.heap.cells a = some (.client k))
    (hsend : s.heap.cells k.bufSend = some .buffer)
    (hread : s.heap.cells k.bufRead = some .buffer) :
    ∃ s', iotxMcConnect s a o = .ok (decide (o = .accepted), s') := by
  have hclient := client_eq_ok.mpr hk
  have hb : s.buffer k.bufSend = .ok () := buffer_eq_ok.mpr hsend
  have hr : s.buffer k.bufRead = .ok () := buffer_eq_ok.mpr hread
  have hd : mqttDisconnect s a = .ok () := mqttDisconnect_eq_ok.mpr ⟨k, hk, hsend⟩
  obtain ⟨t, ht⟩ := setClientState_ok .connected hk
  cases o with
  | preAuth => exact ⟨s, bind_eq_ok.mpr ⟨k, hclient, rfl⟩⟩
  | ipstack => exact ⟨s, bind_eq_ok.mpr ⟨k, hclient, rfl⟩⟩
  | connectPacket => exact ⟨s, bind_eq_ok.mpr ⟨k, hclient, bind_eq_ok.mpr ⟨(), hb, rfl⟩⟩⟩
  | connack =>
      exact ⟨s, bind_eq_ok.mpr ⟨k, hclient, bind_eq_ok.mpr ⟨(), hb, bind_eq_ok.mpr ⟨(), hr,
        bind_eq_ok.mpr ⟨(), hd, rfl⟩⟩⟩⟩⟩
  | postAuth =>
      exact ⟨t, bind_eq_ok.mpr ⟨k, hclient, bind_eq_ok.mpr ⟨(), hb, bind_eq_ok.mpr ⟨(), hr,
        bind_eq_ok.mpr ⟨t, ht, rfl⟩⟩⟩⟩⟩
  | accepted =>
      exact ⟨t, bind_eq_ok.mpr ⟨k, hclient, bind_eq_ok.mpr ⟨(), hb, bind_eq_ok.mpr ⟨(), hr,
        bind_eq_ok.mpr ⟨t, ht, rfl⟩⟩⟩⟩⟩

variable {i : Connecting τ}

theorem connected_ok : ∃ s', connected s i =
    .ok (decide (i.construct.connect = .accepted), s') := by
  obtain ⟨hwrite, hread⟩ := twoBuffers_cells (s := s)
  have hlt : (twoBuffers s).heap.next = s.heap.next + 2 := rfl
  exact mcConnect_ok Heap.alloc_self
    ((Heap.alloc_of_lt (show s.heap.next < _ by omega)).trans hwrite)
    ((Heap.alloc_of_lt (show s.heap.next + 1 < _ by omega)).trans hread)

/-- What an attempt has in hand after `iotx_mc_connect`. -/
structure InHand (s s' : Comm) : Prop where
  pclient : s'.pclient = s.pclient
  settled : Settled s'
  write : Spare s' s.heap.next
  read : Spare s' (s.heap.next + 1)
  client : Private s' (nextClient s)

theorem connected_inHand {rc : Bool} (hs : Settled s) (h : connected s i = .ok (rc, s')) :
    InHand s s' := by
  have hu := mcConnect_updates h
  have hs₂ : Settled (twoBuffers s) := (twoBuffers_frame (P := fun _ => False) hs).settled
  have hs₃ := (malloc_frame (P := fun _ => False)
    (o := .client ⟨s.heap.next, s.heap.next + 1, .initialized⟩) hs₂).settled
  have hnew : ∀ {x}, s.heap.next ≤ x → ¬Owns s' x := fun hle hown =>
    absurd (Owns.lt_next hs (twoBuffers_owns hs (malloc_owns hs₂ (hu.owns hown)))) (by omega)
  obtain ⟨hwrite, hread⟩ := twoBuffers_cells (s := s)
  have hlt : (twoBuffers s).heap.next = s.heap.next + 2 := rfl
  have hw := hu.buffer.mpr ((Heap.alloc_of_lt (show s.heap.next < _ by omega)).trans hwrite)
  have hr := hu.buffer.mpr ((Heap.alloc_of_lt (show s.heap.next + 1 < _ by omega)).trans hread)
  obtain ⟨k, hk, hsend, _⟩ := hu.client (x := nextClient s) Heap.alloc_self
  refine ⟨hu.pclient, hu.settled hs₃, ⟨hw, hnew (Nat.le_refl _)⟩, ⟨hr, hnew (Nat.le_succ _)⟩,
    ⟨k, hk, fun _ => ?_⟩, hnew (by rw [nextClient]; omega)⟩
  rw [hsend]
  exact ⟨hw, hnew (Nat.le_refl _)⟩

theorem InHand.owned (h : InHand s s') (hnone : s.pclient = none) : Owned s' := fun c hc => by
  rw [h.pclient, hnone] at hc
  cases hc

theorem construct_refused {s₁ s₂ : Comm} {p : Option Nat} (hinit : i.construct.inited = true)
    (h₁ : connected s i = .ok (false, s₁)) :
    iotMqttConstruct turn (twoBuffers s) s.heap.next (s.heap.next + 1) i.construct = .ok (p, s₂) ↔
      p = none ∧ iotMqttDestroy turn s₁ (nextClient s) i.construct.release = .ok s₂ := by
  rw [iotMqttConstruct, hinit, if_neg (by decide)]
  change (connected s i >>= _) = _ ↔ _
  rw [h₁]
  constructor
  · intro h
    obtain ⟨_, hok, h⟩ := bind_eq_ok.mp h
    cases hok
    obtain ⟨t, ht, h⟩ := bind_eq_ok.mp h
    obtain ⟨s₂, h₂, h⟩ := bind_eq_ok.mp h
    cases h
    exact ⟨rfl, bind_eq_ok.mpr ⟨t, ht, h₂⟩⟩
  · rintro ⟨rfl, h⟩
    obtain ⟨t, ht, h₂⟩ := bind_eq_ok.mp h
    exact bind_eq_ok.mpr ⟨_, rfl, bind_eq_ok.mpr ⟨t, ht, bind_eq_ok.mpr ⟨s₂, h₂, rfl⟩⟩⟩

include hturn hdecides

/-- A client that `IOT_MQTT_Construct` gives up. -/
theorem refused_iff {s₁ : Comm} (hs : Settled s) (hnone : s.pclient = none)
    (hinit : i.construct.inited = true) (h₁ : connected s i = .ok (false, s₁)) :
    (∃ rc s', connectClient turn (twoBuffers s) s.heap.next (s.heap.next + 1) i = .ok (rc, s') ∧
      Owned s') ↔ CarefulRelease turn careful s₁ (nextClient s) i.construct.release := by
  have hin := connected_inHand hs h₁
  have howned₁ := hin.owned hnone
  have hne : ∀ {x}, x < nextClient s → x ≠ nextClient s := fun h => Nat.ne_of_lt h
  have hw : s.heap.next < nextClient s := by rw [nextClient]; omega
  have hr : s.heap.next + 1 < nextClient s := by rw [nextClient]; omega
  have hlt : nextClient s < s₁.heap.next := Heap.lt_next hin.client.client.choose_spec.1
  have hframe {s₂ : Comm}
      (h : iotMqttDestroy turn s₁ (nextClient s) i.construct.release = .ok s₂) :
      Frame (fun x => x = nextClient s) s₁ s₂ :=
    (destroy_frame hturn hin.settled (Or.inr ⟨hlt, hin.client.apart⟩) h).1
  rw [← destroy_private_iff hturn hdecides howned₁ hin.client]
  constructor
  · rintro ⟨rc, s', h, howned'⟩
    obtain ⟨⟨p, s₂⟩, hconstruct, h⟩ := bind_eq_ok.mp h
    obtain ⟨rfl, h₂⟩ := (construct_refused hinit h₁).mp hconstruct
    obtain ⟨s₃, h₃, h⟩ := bind_eq_ok.mp h
    obtain ⟨s₄, h₄, h⟩ := bind_eq_ok.mp h
    cases h
    have hf₂ := hframe h₂
    have hf₃ := free_frame hf₂.settled h₃ (Or.inr (Or.inl (hin.write.frame hf₂ (hne hw)).apart))
    have hread := (hin.read.frame hf₂ (hne hr)).frame hf₃ (Nat.succ_ne_self _)
    have hf₄ := free_frame hf₃.settled h₄ (Or.inr (Or.inl hread.apart))
    exact ⟨s₂, h₂, hf₃.owned_back hf₂.settled (hf₄.owned_back hf₃.settled howned')⟩
  · rintro ⟨s₂, h₂, howned₂⟩
    have hf₂ := hframe h₂
    obtain ⟨s₃, s₄, h₃, h₄, _, howned₄, _⟩ := free_buffers howned₂
      (hin.write.frame hf₂ (hne hw)) (hin.read.frame hf₂ (hne hr)) (Nat.succ_ne_self _).symm
    exact ⟨false, s₄, bind_eq_ok.mpr ⟨(none, s₂),
      (construct_refused hinit h₁).mpr ⟨rfl, h₂⟩,
      bind_eq_ok.mpr ⟨s₃, h₃, bind_eq_ok.mpr ⟨s₄, h₄, rfl⟩⟩⟩, howned₄⟩

omit hturn hdecides in
/-- The client an attempt has when its session ends. -/
theorem accepted_session (hacc : i.construct.connect = .accepted) :
    ∃ s₁ t, connected s i = .ok (true, s₁) ∧
      openSession s₁ (nextClient s) i = .ok (decide (i.session = .sent), t) ∧
      EndsIn i.session s₁ (nextClient s) t ∧ Established s t ∧
      Constructed s.heap.next (s.heap.next + 1) (nextClient s) (twoBuffers s) s₁ := by
  obtain ⟨s₁, h₁⟩ := connected_ok (s := s) (i := i)
  rw [decide_eq_true hacc] at h₁
  have hc : Constructed s.heap.next (s.heap.next + 1) (nextClient s) (twoBuffers s) s₁ := by
    rw [connected, hacc] at h₁
    exact mcConnect_constructed h₁
  obtain ⟨hwrite, _⟩ := twoBuffers_cells (s := s)
  have hlt : s.heap.next < nextClient s := by rw [nextClient]; omega
  obtain ⟨t, ht, hend⟩ := openSession_connected (i := i) hc.client rfl
    ((hc.kept _ hlt).trans hwrite)
  exact ⟨s₁, t, h₁, ht, hend, (Constructed.session hc ht).2.2, hc⟩

omit hturn hdecides in
theorem construct_accepted {s₁ : Comm} (hinit : i.construct.inited = true)
    (h₁ : connected s i = .ok (true, s₁)) :
    iotMqttConstruct turn (twoBuffers s) s.heap.next (s.heap.next + 1) i.construct =
      .ok (some (nextClient s), s₁) := by
  rw [iotMqttConstruct, hinit, if_neg (by decide)]
  change (connected s i >>= _) = _
  rw [h₁]
  rfl

omit hturn hdecides in
theorem Established.spare {t : Comm} (hs : Settled s) (h : Established s t) :
    Spare t s.heap.next ∧ Spare t (s.heap.next + 1) :=
  ⟨⟨h.write, h.not_owns hs (Nat.le_refl _)⟩, h.read, h.not_owns hs (Nat.le_succ _)⟩

omit hdecides in
/-- A connected client cannot be shut down once its send buffer is gone. -/
theorem release_connected (hs : Settled s) (hk : s.heap.cells a = some (.client k))
    (hstate : k.clientState = .connected) (hfreed : s.heap.Freed k.bufSend) (ha : ¬Owns s a) :
    ¬∃ s', iotxMcRelease turn s a r = .ok s' := by
  rintro ⟨s', h⟩
  obtain ⟨s₁, h₁, h⟩ := bind_eq_ok.mp h
  obtain ⟨s₂, h₂, _⟩ := bind_eq_ok.mp h
  have hf : Frame (fun _ => False) s s₁ := delay_frame hturn hs h₁
  obtain ⟨k', hk', hbuf⟩ := disconnect_ok_iff.mp ⟨s₂, h₂⟩
  rw [hf.kept hk ha] at hk'
  cases hk'
  have hnone := (hf.heap.freed _ hfreed).2
  rw [hbuf hstate] at hnone
  cases hnone

omit hturn hdecides in
/-- After a session that failed only the client is left to destroy. -/
theorem connectClient_abandoned {s₁ t s₃ s₄ : Comm} (hinit : i.construct.inited = true)
    (h₁ : connected s i = .ok (true, s₁))
    (ht : openSession s₁ (nextClient s) i = .ok (false, t))
    (h₃ : t.free s.heap.next = .ok s₃) (h₄ : s₃.free (s.heap.next + 1) = .ok s₄) :
    connectClient turn (twoBuffers s) s.heap.next (s.heap.next + 1) i =
      (iotMqttDestroy turn s₄ (nextClient s) i.destroy >>= fun s' => .ok (false, s')) := by
  have hfree₃ : t.freeIf (some s.heap.next) = .ok s₃ := h₃
  have hfree₄ : s₃.freeIf (some (s.heap.next + 1)) = .ok s₄ := h₄
  rw [connectClient, construct_accepted hinit h₁]
  change (openSession s₁ (nextClient s) i >>= _) = _
  rw [ht]
  change (t.freeIf (some s.heap.next) >>= _) = _
  rw [hfree₃]
  change (s₃.freeIf (some (s.heap.next + 1)) >>= _) = _
  rw [hfree₄]
  rfl

/-- A client that `iotx_comm_connect` gives up. -/
theorem abandoned_iff (hs : Settled s) (hnone : s.pclient = none)
    (hinit : i.construct.inited = true) (hacc : i.construct.connect = .accepted)
    (hsession : i.session ≠ .sent) :
    (∃ rc s', connectClient turn (twoBuffers s) s.heap.next (s.heap.next + 1) i = .ok (rc, s') ∧
      Owned s') ↔ i.session = .networkError ∧ ∀ s', abandoned s i = .ok s' →
        CarefulRelease turn careful s' (nextClient s) i.destroy := by
  obtain ⟨s₁, t, h₁, ht, hend, het, hc⟩ := accepted_session (s := s) hacc
  rw [decide_eq_false hsession] at ht
  obtain ⟨hwrite, hread⟩ := het.spare hs
  have hst : Settled t := (het.frame (P := fun _ => False) hs).settled
  have howned : Owned t := fun c hc => by rw [het.pclient, hnone] at hc; cases hc
  obtain ⟨s₃, s₄, h₃, h₄, howned₃, howned₄, hread₃⟩ :=
    free_buffers howned hwrite hread (Nat.succ_ne_self _).symm
  have habandoned : abandoned s i = .ok s₄ :=
    bind_eq_ok.mpr ⟨_, h₁, bind_eq_ok.mpr ⟨_, ht, bind_eq_ok.mpr ⟨s₃, h₃, h₄⟩⟩⟩
  have happart : ¬Owns t (nextClient s) := het.not_owns hs (by rw [nextClient]; omega)
  have hf₃ := free_frame hst h₃ (Or.inr (Or.inl hwrite.apart))
  have hf₄ := free_frame hf₃.settled h₄ (Or.inr (Or.inl hread₃))
  have hnew : nextClient s ≠ s.heap.next ∧ nextClient s ≠ s.heap.next + 1 :=
    ⟨by rw [nextClient]; omega, by rw [nextClient]; omega⟩
  have hcell : s₄.heap.cells (nextClient s) = t.heap.cells (nextClient s) :=
    (free_other h₄ hnew.2).trans (free_other h₃ hnew.1)
  have happart₄ : ¬Owns s₄ (nextClient s) := fun hown => by
    obtain ⟨st, hk⟩ := het.client
    exact happart (hf₃.owns _ (Heap.lt_next hk) (hf₄.owns _
      (Nat.lt_of_lt_of_le (Heap.lt_next hk) hf₃.heap.next_le) hown))
  have hexit : (∃ rc s', connectClient turn (twoBuffers s) s.heap.next (s.heap.next + 1) i =
      .ok (rc, s') ∧ Owned s') ↔
      ∃ s', iotMqttDestroy turn s₄ (nextClient s) i.destroy = .ok s' ∧ Owned s' := by
    rw [connectClient_abandoned hinit h₁ ht h₃ h₄]
    constructor
    · rintro ⟨rc, s', h, howned'⟩
      obtain ⟨u, hdestroy, h⟩ := bind_eq_ok.mp h
      cases h
      exact ⟨s', hdestroy, howned'⟩
    · rintro ⟨s', hdestroy, howned'⟩
      exact ⟨false, s', bind_eq_ok.mpr ⟨s', hdestroy, rfl⟩, howned'⟩
  rw [hexit]
  by_cases hnet : i.session = .networkError
  · rw [EndsIn, if_pos hnet] at hend
    obtain ⟨k, _, hk⟩ := setClientState_cells hend
    have hp₄ : Private s₄ (nextClient s) := ⟨⟨_, hcell.trans hk, McState.noConfusion⟩, happart₄⟩
    rw [destroy_private_iff hturn hdecides howned₄ hp₄]
    refine ⟨fun hcareful => ⟨hnet, fun t ht => ?_⟩, fun h => h.2 s₄ habandoned⟩
    rw [habandoned] at ht
    cases ht
    exact hcareful
  · rw [EndsIn, if_neg hnet] at hend
    refine ⟨?_, fun h => absurd h.1 hnet⟩
    rintro ⟨s', hdestroy, _⟩
    obtain ⟨u, hu, _⟩ := bind_eq_ok.mp hdestroy
    rw [hend] at hcell
    exact absurd ⟨u, hu⟩ (release_connected hturn hf₄.settled (hcell.trans hc.client) rfl
      (hf₄.heap.freed _ (free_self h₃)) happart₄)

variable (turn) in
omit hturn hdecides in
theorem establish_succeeds (s : Comm) (hsucceeds : i.Succeeds) :
    ∃ t, Established s t ∧
      establish turn s i = .ok (true, { t with pclient := some (nextClient s) }) := by
  obtain ⟨s₁, t, h₁, ht, _, het, _⟩ := accepted_session (s := s) hsucceeds.accepted
  rw [decide_eq_true hsucceeds.sent] at ht
  refine ⟨t, het, ?_⟩
  rw [establish_eq hsucceeds.mallocWrite hsucceeds.mallocRead]
  exact bind_eq_ok.mpr ⟨_, construct_accepted hsucceeds.inited h₁, bind_eq_ok.mpr ⟨_, ht, rfl⟩⟩

omit hturn hdecides in
theorem Established.owned {t : Comm} (h : Established s t) :
    Owned { t with pclient := some (nextClient s) } := fun c hc => by
  cases hc
  exact h.live

omit hturn hdecides in
theorem connectClient_uninited (hs : Settled s) (hnone : s.pclient = none)
    (hinit : i.construct.inited = false) :
    ∃ rc s', connectClient turn (twoBuffers s) s.heap.next (s.heap.next + 1) i = .ok (rc, s') ∧
      Owned s' := by
  have hnew : ∀ x, s.heap.next ≤ x → ¬Owns (twoBuffers s) x := fun x hle hown =>
    absurd (Owns.lt_next hs (twoBuffers_owns hs hown)) (by omega)
  have howned : Owned (twoBuffers s) := fun c hc => by
    rw [show (twoBuffers s).pclient = s.pclient from rfl, hnone] at hc
    cases hc
  obtain ⟨s₃, s₄, h₃, h₄, _, howned₄, _⟩ := free_buffers howned
    ⟨twoBuffers_cells.1, hnew _ (Nat.le_refl _)⟩ ⟨twoBuffers_cells.2, hnew _ (Nat.le_succ _)⟩
    (Nat.succ_ne_self _).symm
  have hcon : iotMqttConstruct turn (twoBuffers s) s.heap.next (s.heap.next + 1) i.construct =
      .ok (none, twoBuffers s) := by rw [iotMqttConstruct, if_pos hinit]
  exact ⟨false, s₄, bind_eq_ok.mpr ⟨_, hcon, bind_eq_ok.mpr ⟨s₃, h₃, bind_eq_ok.mpr
    ⟨s₄, h₄, rfl⟩⟩⟩, howned₄⟩

theorem establish_iff (hs : Settled s) (hnone : s.pclient = none) :
    (∃ rc s', establish turn s i = .ok (rc, s') ∧ Owned s') ↔
      CarefulEstablish turn careful s i := by
  by_cases hmalloc : i.mallocWrite = true ∧ i.mallocRead = true
  · rw [establish_eq hmalloc.1 hmalloc.2]
    cases hinit : i.construct.inited with
    | false =>
        exact iff_of_true (connectClient_uninited hs hnone hinit)
          fun _ _ h => absurd (hinit.symm.trans h) (by decide)
    | true =>
        by_cases hacc : i.construct.connect = .accepted
        · by_cases hsession : i.session = .sent
          · obtain ⟨t, het, ht⟩ := establish_succeeds turn s
              ⟨hmalloc.1, hmalloc.2, hinit, hacc, hsession⟩
            rw [establish_eq hmalloc.1 hmalloc.2] at ht
            exact iff_of_true ⟨true, _, ht, het.owned⟩ fun _ _ _ =>
              ⟨fun h => absurd hacc h, fun _ h => absurd hsession h⟩
          · rw [abandoned_iff hturn hdecides hs hnone hinit hacc hsession]
            exact ⟨fun h _ _ _ => ⟨fun hne => absurd hacc hne, fun _ _ => h⟩,
              fun h => (h hmalloc.1 hmalloc.2 hinit).2 hacc hsession⟩
        · obtain ⟨s₁, h₁⟩ := connected_ok (s := s) (i := i)
          rw [decide_eq_false hacc] at h₁
          rw [refused_iff hturn hdecides hs hnone hinit h₁]
          constructor
          · intro h _ _ _
            refine ⟨fun _ s' h' => ?_, fun h => absurd h hacc⟩
            rw [h₁] at h'
            cases h'
            exact h
          · exact fun h => (h hmalloc.1 hmalloc.2 hinit).1 hacc s₁ h₁
  · obtain ⟨t, ht, _, hp⟩ := establish_malloc turn (P := fun _ => False) hs hmalloc
    refine iff_of_true ⟨false, t, ht, fun c hc => ?_⟩
      fun hw hr => absurd ⟨hw, hr⟩ hmalloc
    rw [hp, hnone] at hc
    cases hc

/-- `iotx_comm_connect` keeps the pointer good exactly when it is careful. -/
theorem commConnect_iff (howned : Owned s) :
    (∃ rc s', iotxCommConnect turn s i = .ok (rc, s') ∧ Owned s') ↔
      CarefulConnect turn careful s i := by
  have hs := howned.settled
  rw [CarefulConnect]
  cases hp : s.pclient with
  | none =>
      dsimp only
      rw [← establish_iff hturn hdecides hs hp, iotxCommConnect, iotxCommDisconnect, hp]
      exact Iff.rfl
  | some a =>
      dsimp only
      rw [← commDisconnect_iff hturn hdecides howned hp]
      constructor
      · rintro ⟨rc, s', h, howned'⟩
        obtain ⟨s₁, h₁, h₂⟩ := bind_eq_ok.mp h
        refine ⟨⟨s₁, h₁⟩, ?_⟩
        obtain ⟨hf₁, hp₁, hgone⟩ := commDisconnect_frame (P := fun _ => False) hturn hs h₁
        rcases establish_cases (P := fun _ => False) hturn hf₁.settled h₂ with
          ⟨_, hf₂⟩ | ⟨_, hsucceeds, _⟩
        · -- the old client is gone, and nothing has replaced it
          exact absurd (hgone a hp).2
            (hf₂.owned_back hf₁.settled howned' a (hp₁.trans hp)).not_freed
        · exact hsucceeds
      · rintro ⟨⟨s₁, h₁⟩, hsucceeds⟩
        obtain ⟨t, het, ht⟩ := establish_succeeds turn s₁ hsucceeds
        exact ⟨true, _, bind_eq_ok.mpr ⟨s₁, h₁, ht⟩, het.owned⟩

/-! ## Yielding -/

omit hturn hdecides

theorem mcCycle_works {c : Cycle τ} {rc : Bool} (ha : s.pclient = some a)
    (h : iotxMcCycle s a c = .ok (rc, s')) : Works s s' := by
  obtain rfl | ⟨s₁, hu₁, hu | hw⟩ := mcCycle_cases h
  · exact .of_heap_eq rfl rfl
  · exact .of_updates ha (hu₁.trans hu)
  · exact (Works.of_updates ha hu₁).trans hw

theorem mcCycle_ok {c : Cycle τ} (howned : Owned s) (ha : s.pclient = some a) :
    ∃ rc s', iotxMcCycle s a c = .ok (rc, s') := by
  obtain ⟨k, hk, _⟩ := howned a ha
  have hnormal := checkStateNormal_eq_ok.mpr ⟨k, hk, rfl⟩
  by_cases hstate : k.clientState = .connected
  · obtain ⟨s₁, h₁⟩ : ∃ s₁, (if c.probesOver then iotxMcSetClientState s a .disconnected
        else Except.ok s) = .ok s₁ := by
      split
      · exact setClientState_ok .disconnected hk
      · exact ⟨s, rfl⟩
    have hw₁ : Works s s₁ := by
      split at h₁
      · exact .of_updates ha (setClientState_updates h₁)
      · cases h₁; exact .of_heap_eq rfl rfl
    have howned₁ := hw₁.owned howned
    obtain ⟨k₁, hk₁, _, hread, _⟩ := howned₁ a (hw₁.pclient.trans ha)
    have hclient := client_eq_ok.mpr hk₁
    have hbuf : s₁.buffer k₁.bufRead = .ok () := buffer_eq_ok.mpr hread
    cases hreads : c.read with
    | false =>
        obtain ⟨s₂, h₂⟩ := setClientState_ok .disconnected hk₁
        refine ⟨false, s₂, bind_eq_ok.mpr ⟨_, hnormal, ?_⟩⟩
        rw [if_pos (decide_eq_true hstate)]
        refine bind_eq_ok.mpr ⟨s₁, h₁, bind_eq_ok.mpr ⟨k₁, hclient, bind_eq_ok.mpr ⟨(), hbuf, ?_⟩⟩⟩
        rw [if_pos hreads]
        exact bind_eq_ok.mpr ⟨s₂, h₂, rfl⟩
    | true =>
        obtain ⟨s₂, h₂⟩ := sendDataIf_ok (m := c.reply) howned₁
        refine ⟨c.handled, s₂, bind_eq_ok.mpr ⟨_, hnormal, ?_⟩⟩
        rw [if_pos (decide_eq_true hstate)]
        refine bind_eq_ok.mpr ⟨s₁, h₁, bind_eq_ok.mpr ⟨k₁, hclient, bind_eq_ok.mpr ⟨(), hbuf, ?_⟩⟩⟩
        rw [if_neg (by rw [hreads]; decide)]
        exact bind_eq_ok.mpr ⟨s₂, h₂, rfl⟩
  · refine ⟨false, s, bind_eq_ok.mpr ⟨_, hnormal, ?_⟩⟩
    rw [if_neg (by rw [decide_eq_false hstate]; decide)]

theorem yieldPass_works {c : Cycle τ} {rc : Bool} (ha : s.pclient = some a)
    (h : yieldPass s a c = .ok (rc, s')) : Works s s' := by
  obtain ⟨s₁, h₁, h⟩ := bind_eq_ok.mp h
  have hw₁ : Works s s₁ := .of_updates ha (sendPacketIf_updates h₁)
  have ha₁ := hw₁.pclient.trans ha
  obtain ⟨⟨rc₂, s₂⟩, h₂, h⟩ := bind_eq_ok.mp h
  have hw₂ := mcCycle_works ha₁ h₂
  obtain ⟨s₃, h₃, h⟩ := bind_eq_ok.mp h
  cases h
  refine (hw₁.trans hw₂).trans ?_
  split at h₃
  · exact .of_updates (hw₂.pclient.trans ha₁) (sendPacketIf_updates h₃)
  · cases h₃; exact .of_heap_eq rfl rfl

theorem yieldPass_ok {c : Cycle τ} (howned : Owned s) (ha : s.pclient = some a) :
    ∃ rc s', yieldPass s a c = .ok (rc, s') := by
  obtain ⟨s₁, h₁⟩ := sendPacketIf_ok (o := c.ping) (howned a ha).usable
  have hw₁ : Works s s₁ := .of_updates ha (sendPacketIf_updates h₁)
  have ha₁ := hw₁.pclient.trans ha
  obtain ⟨rc, s₂, h₂⟩ := mcCycle_ok (c := c) (hw₁.owned howned) ha₁
  have hw₂ := mcCycle_works ha₁ h₂
  obtain ⟨s₃, h₃⟩ : ∃ s₃, (if rc then mqttPubInfoProc s₂ a c.republish else Except.ok s₂) =
      .ok s₃ := by
    split
    · exact sendPacketIf_ok
        ((hw₂.owned (hw₁.owned howned)) a (hw₂.pclient.trans ha₁)).usable
    · exact ⟨s₂, rfl⟩
  exact ⟨rc, s₃, bind_eq_ok.mpr ⟨s₁, h₁, bind_eq_ok.mpr ⟨_, h₂, bind_eq_ok.mpr ⟨s₃, h₃, rfl⟩⟩⟩⟩

theorem mcCycle_client {c : Cycle τ} {rc : Bool} (h : iotxMcCycle s a c = .ok (rc, s')) :
    ∃ k, s'.heap.cells a = some (.client k) := by
  obtain ⟨normal, hnormal, h⟩ := bind_eq_ok.mp h
  obtain ⟨k, hk, rfl⟩ := checkStateNormal_eq_ok.mp hnormal
  split at h
  · obtain ⟨s₁, h₁, h⟩ := bind_eq_ok.mp h
    obtain ⟨k₁, hk₁, h⟩ := bind_eq_ok.mp h
    obtain ⟨_, _, h⟩ := bind_eq_ok.mp h
    split at h
    · obtain ⟨s₂, h₂, h⟩ := bind_eq_ok.mp h
      cases h
      obtain ⟨_, _, hk₂⟩ := setClientState_cells h₂
      exact ⟨_, hk₂⟩
    · obtain ⟨s₂, h₂, h⟩ := bind_eq_ok.mp h
      cases h
      obtain ⟨k₂, hk₂, _⟩ := (sendDataIf_works h₂).client (client_eq_ok.mp hk₁)
      exact ⟨k₂, hk₂⟩
  · cases h
    exact ⟨k, hk⟩

/-- A pass ends with the client there. -/
theorem yieldPass_client {c : Cycle τ} {rc : Bool} (h : yieldPass s a c = .ok (rc, s')) :
    ∃ k, s'.heap.cells a = some (.client k) := by
  obtain ⟨s₁, h₁, h⟩ := bind_eq_ok.mp h
  obtain ⟨⟨rc₂, s₂⟩, h₂, h⟩ := bind_eq_ok.mp h
  obtain ⟨s₃, h₃, h⟩ := bind_eq_ok.mp h
  cases h
  obtain ⟨k₂, hk₂⟩ := mcCycle_client h₂
  split at h₃
  · obtain ⟨k₃, hk₃, _⟩ := (sendPacketIf_updates h₃).client hk₂
    exact ⟨k₃, hk₃⟩
  · cases h₃
    exact ⟨k₂, hk₂⟩

include hturn hdecides

/-- The client that `IOT_MQTT_Yield` works on is the connection's, and it is there. -/
theorem yieldCycle_iff {c : Cycle τ} {st : Bool × Comm} (howned : Owned st.2)
    (ha : st.2.pclient = some a) :
    (∃ st', yieldCycle turn a st c = .ok st' ∧ Owned st'.2 ∧ st'.2.pclient = some a) ↔
      (st.1 = false → CarefulDelay turn careful st.2 a c.wait) := by
  have hpass : ∀ {s₁}, Owned s₁ → s₁.pclient = some a →
      ∃ st', yieldPass s₁ a c = .ok st' ∧ Owned st'.2 ∧ st'.2.pclient = some a := by
    intro s₁ howned₁ ha₁
    obtain ⟨rc, s', h⟩ := yieldPass_ok (c := c) howned₁ ha₁
    have hw := yieldPass_works ha₁ h
    exact ⟨_, h, hw.owned howned₁, hw.pclient.trans ha₁⟩
  rw [yieldCycle]
  cases hrc : st.1 with
  | true =>
      obtain ⟨st', h, hgood⟩ := hpass howned ha
      exact iff_of_true ⟨st', bind_eq_ok.mpr ⟨st.2, rfl, h⟩, hgood⟩
        fun h => absurd h.symm Bool.false_ne_true
  | false =>
      constructor
      · rintro ⟨st', h, howned', ha'⟩ _
        obtain ⟨s₁, h₁, h⟩ := bind_eq_ok.mp h
        rw [if_neg (by decide)] at h₁
        have hf₁ : Frame (fun _ => False) st.2 s₁ := delay_frame hturn howned.settled h₁
        obtain ⟨hf, hp⟩ := yieldPass_frame hf₁.settled h
        exact (delay_held_iff hturn hdecides howned (Or.inl ha)).mp
          ⟨s₁, h₁, hf.owned_back hf₁.settled howned', Or.inl (hp.symm.trans ha')⟩
      · intro hcareful
        obtain ⟨hguard, hkeeps⟩ := hcareful rfl
        obtain ⟨s₁, h₁, howned₁⟩ := (delay_owned_iff hturn hdecides howned).mpr hguard
        obtain ⟨st', h, hgood⟩ := hpass howned₁ (hkeeps ha s₁ h₁)
        exact ⟨st', bind_eq_ok.mpr ⟨s₁, h₁, h⟩, hgood⟩

theorem commYield_iff {y : Yielding τ} (howned : Owned s) :
    (∃ s', iotxCommYield turn s y = .ok s' ∧ Owned s') ↔ CarefulCycles turn careful s y := by
  rw [iotxCommYield]
  cases hp : s.pclient with
  | none =>
      exact iff_of_true ⟨s, rfl, howned⟩ fun a ha => by rw [hp] at ha; cases ha
  | some a =>
      dsimp only
      let Good : Bool × Comm → Prop := fun st => Owned st.2 ∧ st.2.pclient = some a
      let Inv : Bool × Comm → Prop := fun st => Settled st.2 ∧ a < st.2.heap.next
      have hinv : ∀ {st c st'}, Inv st → yieldCycle turn a st c = .ok st' → Inv st' :=
        fun hs h => ⟨(yieldCycle_frame hturn hs.1 h).settled,
          Nat.lt_of_lt_of_le hs.2 (yieldCycle_frame hturn hs.1 h).heap.next_le⟩
      have hbad : ∀ {st c st'}, Inv st → yieldCycle turn a st c = .ok st' → Good st' → Good st := by
        rintro st c st' ⟨hs, hlt⟩ h ⟨howned', ha'⟩
        have hf := yieldCycle_frame hturn hs h
        refine ⟨hf.owned_back hs howned', ?_⟩
        rcases hf.current with heq | ⟨c, hc, hle⟩
        · exact heq.symm.trans ha'
        · rw [ha'] at hc
          cases hc
          omega
      obtain ⟨k, hk, _⟩ := howned a hp
      have hcycle : ∀ {st c}, Inv st → Good st →
          ((∃ st', yieldCycle turn a st c = .ok st' ∧ Good st') ↔
            (st.1 = false → CarefulDelay turn careful st.2 a c.wait)) :=
        fun _ hgood => yieldCycle_iff hturn hdecides hgood.1 hgood.2
      have hcareful : CarefulCycles turn careful s y ↔
          ∃ st', Runs.run (yieldCycle turn a) (true, s) (y.cycle :: y.cycles) = .ok st' ∧
            Good st' := by
        rw [Runs.run_good_iff hinv hbad hcycle ⟨howned.settled, Heap.lt_next hk⟩ ⟨howned, hp⟩]
        constructor
        · exact fun h => h a hp
        · intro h a' ha'
          rw [hp] at ha'
          cases ha'
          exact h
      rw [hcareful]
      constructor
      · rintro ⟨s', h, howned'⟩
        obtain ⟨⟨rc, t⟩, ht, h⟩ := bind_eq_ok.mp h
        cases h
        -- the last pass found the client, so the pointer was not replaced
        have hthere : ∀ {st c st'}, (∃ k, st.2.heap.cells a = some (.client k)) → True →
            yieldCycle turn a st c = .ok st' → ∃ k, st'.2.heap.cells a = some (.client k) := by
          intro st c st' _ _ h
          obtain ⟨s₁, _, h⟩ := bind_eq_ok.mp h
          exact yieldPass_client h
        have hclient : ∃ k, s'.heap.cells a = some (.client k) :=
          Runs.run_invariant hthere ⟨k, hk⟩ Runs.guarded_true ht
        obtain ⟨k', hk'⟩ := hclient
        have hf : Frame (fun _ => False) s s' :=
          commYield_frame (y := y) hturn howned.settled (by
            rw [iotxCommYield, hp]
            exact bind_eq_ok.mpr ⟨_, ht, rfl⟩)
        exact ⟨_, ht, howned', hf.pclient_of_client hp hk'⟩
      · rintro ⟨st', ht, howned', _⟩
        exact ⟨st'.2, bind_eq_ok.mpr ⟨st', ht, rfl⟩, howned'⟩

theorem handleReconnect_iff {y : Yielding τ} (howned : Owned s) :
    (∃ s', iotxConnHandleReconnect turn s y = .ok s' ∧ Owned s') ↔
      (y.expired = true → CarefulConnect turn careful s y.connect) := by
  rw [iotxConnHandleReconnect]
  cases hexpired : y.expired with
  | false => exact iff_of_true ⟨s, rfl, howned⟩ fun h => absurd h Bool.false_ne_true
  | true =>
      rw [if_neg (by decide)]
      constructor
      · rintro ⟨s', h, howned'⟩ _
        obtain ⟨⟨rc, t⟩, ht, h⟩ := bind_eq_ok.mp h
        refine (commConnect_iff hturn hdecides howned).mp ⟨rc, t, ht, ?_⟩
        cases h
        split at howned'
        · exact howned'
        · exact howned'
      · intro hcareful
        obtain ⟨rc, t, ht, hownedt⟩ :=
          (commConnect_iff hturn hdecides howned).mpr (hcareful rfl)
        refine ⟨_, bind_eq_ok.mpr ⟨_, ht, rfl⟩, ?_⟩
        split
        · exact hownedt
        · exact hownedt

theorem afterYield_iff {y : Yielding τ} (up : Bool) (howned : Owned s) :
    (∃ s', afterYield turn s up y = .ok s' ∧ Owned s') ↔
      (up = false → s.connState = .disconnectedReconnecting → y.expired = true →
        CarefulConnect turn careful s y.connect) := by
  rw [afterYield]
  cases up with
  | true =>
      obtain ⟨s', h⟩ := sendDataIf_ok (m := y.automatic) howned
      exact iff_of_true ⟨s', h, (sendDataIf_works h).owned howned⟩
        fun h => absurd h.symm Bool.false_ne_true
  | false =>
      rw [if_neg (by decide)]
      split
      next hstate =>
        rw [handleReconnect_iff hturn hdecides howned]
        exact ⟨fun h _ _ => h, fun h => h rfl hstate⟩
      next hstate =>
        split
        · exact iff_of_true ⟨_, rfl, howned⟩ fun _ h => absurd h hstate
        · exact iff_of_true ⟨s, rfl, howned⟩ fun _ h => absurd h hstate

/-- `IOT_Comm_Yield` keeps the pointer good exactly when it is careful. -/
theorem yield_iff {y : Yielding τ} (howned : Owned s) :
    (∃ s', iotCommYield turn s y = .ok s' ∧ Owned s') ↔ CarefulYield turn careful s y := by
  rw [iotCommYield, CarefulYield, iotNetworkIsConnected]
  by_cases hnet : s.networkState = .connected
  · rw [if_neg (not_not_intro hnet)]
    dsimp only
    rw [if_neg (by decide)]
    constructor
    · rintro ⟨s', h, howned'⟩ _
      obtain ⟨s₁, h₁, h⟩ := bind_eq_ok.mp h
      obtain ⟨⟨up, s₂⟩, h₂, h⟩ := bind_eq_ok.mp h
      have hrest : afterYield turn s₂ up y = .ok s' := h
      have hf₁ : Frame (fun _ => False) s s₁ := commYield_frame hturn howned.settled h₁
      have hf₂ : Frame (fun _ => False) s₁ s₂ := (isConnected_works h₂).frame hf₁.settled
      have hf₃ : Frame (fun _ => False) s₂ s' := afterYield_frame hturn hf₂.settled hrest
      have howned₂ := hf₃.owned_back hf₂.settled howned'
      refine ⟨(commYield_iff hturn hdecides howned).mp
        ⟨s₁, h₁, hf₂.owned_back hf₁.settled howned₂⟩, ?_⟩
      intro t₁ t₂ ht₁ ht₂
      rw [h₁] at ht₁
      cases ht₁
      rw [h₂] at ht₂
      cases ht₂
      exact (afterYield_iff hturn hdecides false howned₂).mp ⟨s', hrest, howned'⟩ rfl
    · intro hcareful
      obtain ⟨hcycles, hreconnect⟩ := hcareful hnet
      obtain ⟨s₁, h₁, howned₁⟩ := (commYield_iff hturn hdecides howned).mpr hcycles
      obtain ⟨⟨up, s₂⟩, h₂⟩ := isConnected_ok howned₁
      have howned₂ := (isConnected_works h₂).owned howned₁
      obtain ⟨s', hrest, howned'⟩ := (afterYield_iff hturn hdecides up howned₂).mpr
        fun hup => hreconnect s₁ s₂ h₁ (hup ▸ h₂)
      exact ⟨s', bind_eq_ok.mpr ⟨s₁, h₁, bind_eq_ok.mpr ⟨_, h₂, hrest⟩⟩, howned'⟩
  · rw [if_pos hnet]
    exact iff_of_true ⟨_, rfl, howned⟩ fun h => absurd h hnet

theorem call_iff {c : Call τ} (howned : Owned s) :
    (∃ s', call turn s c = .ok s' ∧ Owned s') ↔ CarefulCall turn careful s c := by
  cases c with
  | setNetwork newState => exact iff_of_true ⟨_, rfl, howned⟩ trivial
  | sendData m =>
      obtain ⟨s', h⟩ := sendData_ok (m := m) howned
      exact iff_of_true ⟨s', h, (sendData_works h).owned howned⟩ trivial
  | yield y => exact yield_iff hturn hdecides howned
  | disconnect r =>
      rw [CarefulCall]
      change (∃ s', iotxCommDisconnect turn (iotxSetConnState s .initialized) r = .ok s' ∧
        Owned s') ↔ _
      constructor
      · rintro ⟨s', h, howned'⟩
        have howned₁ : Owned (iotxSetConnState s .initialized) := howned
        obtain ⟨_, hp, hgone⟩ := commDisconnect_frame (P := fun _ => False) hturn howned₁.settled h
        cases hpc : s.pclient with
        | none => rfl
        | some a => exact absurd (hgone a hpc).2 (howned' a (hp.trans hpc)).not_freed
      · intro hnone
        refine ⟨iotxSetConnState s .initialized, ?_, howned⟩
        rw [iotxCommDisconnect, show (iotxSetConnState s .initialized).pclient = none from hnone]
  | connect i =>
      rw [CarefulCall]
      change (∃ s', iotCommConnect turn s i = .ok s' ∧ Owned s') ↔ _
      rw [iotCommConnect, iotNetworkIsConnected]
      by_cases hnet : s.networkState = .connected
      · rw [if_neg (not_not_intro hnet)]
        dsimp only
        rw [if_neg (by decide)]
        by_cases hstate : s.connState = .connected
        · rw [if_pos hstate]
          exact iff_of_true ⟨s, rfl, howned⟩ fun _ h => absurd hstate h
        · rw [if_neg hstate]
          have hiff : (∃ rst t, iotxCommConnect turn s i = .ok (rst, t) ∧ Owned t) ↔
              CarefulConnect turn careful s i := commConnect_iff hturn hdecides howned
          constructor
          · rintro ⟨s', h, howned'⟩ _ _
            obtain ⟨⟨rst, t⟩, ht, h⟩ := bind_eq_ok.mp h
            cases h
            exact hiff.mp ⟨rst, t, ht, howned'⟩
          · intro h
            obtain ⟨rst, t, ht, howned'⟩ := hiff.mpr (h hnet hstate)
            exact ⟨_, bind_eq_ok.mpr ⟨_, ht, rfl⟩, howned'⟩
      · rw [if_pos hnet]
        exact iff_of_true ⟨_, rfl, howned⟩ fun h => absurd h hnet

end Exact

/-! ## Runs -/

/-- At every depth of re-entry a turn keeps the pointer good exactly when it is careful. -/
theorem carefulTurn_decides (depth : Nat) : Decides (systemLoop depth) (carefulTurn depth) := by
  induction depth with
  | zero => exact fun {_ t} _ _ => nomatch t
  | succ depth ih =>
      intro s t _ howned
      exact yield_iff (systemLoop_frame depth) ih (s := iotNetworkSetState s t.network) howned

/-- A run from the start keeps the pointer good exactly when all its calls are careful. -/
theorem run_owned_iff (depth : Nat) (calls : List (Call (TurnAt depth))) :
    (∃ s, runCalls depth calls = .ok s ∧ Owned s) ↔ CarefulCalls depth calls :=
  Runs.run_good_iff
    (fun (hs : Settled _) h =>
      (call_frame (P := fun _ => False) (systemLoop_frame depth) hs h).settled)
    (fun hs h => (call_frame (P := fun _ => False) (systemLoop_frame depth) hs h).owned_back hs)
    (fun _ howned => call_iff (systemLoop_frame depth) (carefulTurn_decides depth) howned)
    nofun nofun

/-- A connection that is set up at once. -/
def Connecting.prompt {τ : Type} : Connecting τ where
  disconnect := ⟨[], []⟩
  mallocWrite := true
  mallocRead := true
  construct := ⟨true, .accepted, ⟨[], []⟩⟩
  topicTx := true
  subscribeTx := .sent
  topicAction := true
  subscribeAction := .sent
  deviceInfo := true
  topicInfo := true
  publishInfo := .sent
  destroy := ⟨[], []⟩

end IotKit.CommIf
