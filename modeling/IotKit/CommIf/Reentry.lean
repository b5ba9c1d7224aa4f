import IotKit.CommIf.Ownership

/-!
# The frame of a re-entered call

Whatever the turns of the delays do, a call stays within its frame, at every depth
of re-entry (`systemLoop_frame`, `call_frame`).  A function that works on a client
of its own relies on this across a delay: the turns do not touch that client.
-/

namespace IotKit.CommIf

open ObjectHeap
open CMemory (bind_eq_ok)
open Mqtt (McState)

variable {s s' s'' : Comm} {a b c w x : Nat} {k : ClientObject} {P Q : Nat → Prop}

/-! ## Outcomes -/

/-- The first packet of the session that is not sent, or a step between that fails. -/
def Sending.andThen : Sending → Sending → Sending
  | .sent, o => o
  | o, _ => o

def Sending.ofBool (b : Bool) : Sending := if b then .sent else .rejected

/-- How the part of `iotx_comm_connect` after `IOT_MQTT_Construct` ends. -/
def Connecting.session {τ : Type} (i : Connecting τ) : Sending :=
  (Sending.ofBool i.topicTx).andThen <| i.subscribeTx.andThen <|
    (Sending.ofBool i.topicAction).andThen <| i.subscribeAction.andThen <|
      (Sending.ofBool i.deviceInfo).andThen <| (Sending.ofBool i.topicInfo).andThen i.publishInfo

/-- Every step of the connection attempt succeeds. -/
structure Connecting.Succeeds {τ : Type} (i : Connecting τ) : Prop where
  mallocWrite : i.mallocWrite = true
  mallocRead : i.mallocRead = true
  inited : i.construct.inited = true
  accepted : i.construct.connect = .accepted
  sent : i.session = .sent

/-- The state in which a session that ends with `o` leaves a connected client. -/
def EndsIn (o : Sending) (s : Comm) (a : Nat) (s' : Comm) : Prop :=
  if o = .networkError then iotxMcSetClientState s a .disconnected = .ok s' else s' = s

theorem EndsIn.updates {o : Sending} (h : EndsIn o s a s') : Updates a s s' := by
  rw [EndsIn] at h
  split at h
  · exact setClientState_updates h
  · rw [h]
    exact .refl

section Session

variable {τ : Type} {i : Connecting τ}

/-- A part of the session that ends with `o` on the client at `a`. -/
def Ends (s : Comm) (a : Nat) (part : Except Fault (Bool × Comm)) (o : Sending) : Prop :=
  ∃ s', part = .ok (decide (o = .sent), s') ∧ EndsIn o s a s'

theorem Ends.check {check : Bool} {part : Except Fault (Bool × Comm)} {o : Sending}
    (h : Ends s a part o) :
    Ends s a (if check = false then .ok (false, s) else part)
      ((Sending.ofBool check).andThen o) := by
  cases check with
  | false => exact ⟨s, rfl, rfl⟩
  | true => exact h

theorem Ends.packet {part : Except Fault (Bool × Comm)} {rest : Comm → Except Fault (Bool × Comm)}
    {o o' : Sending} (h : Ends s a part o) (hrest : Ends s a (rest s) o') :
    Ends s a (orDoExit part rest) (o.andThen o') := by
  obtain ⟨t, rfl, hend⟩ := h
  cases o with
  | rejected => exact ⟨t, rfl, hend⟩
  | packetError => exact ⟨t, rfl, hend⟩
  | networkError => exact ⟨t, rfl, hend⟩
  | sent =>
      cases (show t = s from hend)
      exact hrest

/-- On a connected client with its buffer the outcomes decide how the session ends. -/
theorem openSession_connected (hk : s.heap.cells a = some (.client k))
    (hstate : k.clientState = .connected) (hbuf : s.heap.cells k.bufSend = some .buffer) :
    Ends s a (openSession s a i) i.session := by
  have hsend : ∀ o, Ends s a (sendPacket s a o) o :=
    fun o => sendPacket_connected hk hstate hbuf
  exact ((hsend _).packet ((hsend _).packet (hsend _).check.check).check).check

end Session

/-! ## Delays -/

/-- Every turn stays within its frame. -/
def Framed {τ : Type} (turn : Comm → τ → Except Fault Comm) : Prop :=
  ∀ {s t s'}, Settled s → turn s t = .ok s' → Frame (fun _ => False) s s'

section Delays

variable {τ : Type} {turn : Comm → τ → Except Fault Comm} (hturn : Framed turn)
  {turns : List τ} {r : Releasing τ}
include hturn

theorem delay_frame (hs : Settled s) (h : delay turn s turns = .ok s') : Frame P s s' := by
  have hrun : Settled s → Frame (fun _ => False) s s' :=
    Runs.run_rel (R := fun s t => Settled s → Frame (fun _ => False) s t)
      (fun _ => .refl) (fun h₁ h₂ hs => (h₁ hs).trans (h₂ (h₁ hs).settled) fun _ _ hx => hx.elim)
      (fun hs hstep => ⟨fun _ => hturn hs hstep, (hturn hs hstep).settled⟩) hs h
  exact (hrun hs).mono fun _ _ hx => hx.elim

theorem release_frame (hs : Settled s) (h : iotxMcRelease turn s a r = .ok s') :
    Frame (fun x => x = a) s s' ∧ ∃ k, s'.heap.cells a = some (.client k) := by
  obtain ⟨s₁, h₁, h⟩ := bind_eq_ok.mp h
  obtain ⟨s₂, h₂, h⟩ := bind_eq_ok.mp h
  obtain ⟨s₃, h₃, h⟩ := bind_eq_ok.mp h
  obtain ⟨s₄, h₄, h⟩ := bind_eq_ok.mp h
  obtain ⟨k, hk, h⟩ := bind_eq_ok.mp h
  cases h
  have hf₁ := delay_frame (P := fun x => x = a) hturn hs h₁
  have hf₃ := ((disconnect_updates h₂).trans (setClientState_updates h₃)).frame hf₁.settled
  have hf₄ := delay_frame (P := fun x => x = a) hturn hf₃.settled h₄
  exact ⟨(hf₁.trans hf₃ fun _ _ => Or.inl).trans hf₄ fun _ _ => Or.inl,
    k, client_eq_ok.mp hk⟩

/-- The client that is destroyed is the client of the connection or one of a caller's. -/
theorem destroy_frame (hs : Settled s) (ha : s.pclient = some a ∨ a < s.heap.next ∧ ¬Owns s a)
    (h : iotMqttDestroy turn s a r = .ok s') :
    Frame (fun x => x = a) s s' ∧ s'.heap.Freed a ∧
      (s.pclient = some a → s'.pclient = some a) := by
  obtain ⟨s₁, h₁, hfree⟩ := bind_eq_ok.mp h
  obtain ⟨hf, k, hk⟩ := release_frame hturn hs h₁
  have hcurrent : s.pclient = some a → s₁.pclient = some a := fun ha =>
    (hf.replaced a ha).resolve_right fun ⟨_, hnone⟩ => by rw [hk] at hnone; cases hnone
  have hfreeable : Freeable s₁ a :=
    ha.imp hcurrent fun ⟨hlt, ha⟩ => Or.inl fun hown => ha (hf.owns a hlt hown)
  refine ⟨hf.trans (free_frame hf.settled hfree hfreeable) fun _ _ => Or.inl, ?_⟩
  obtain ⟨hlt, _, rfl⟩ := free_eq_ok.mp hfree
  exact ⟨⟨hlt, Function.update_self ..⟩, hcurrent⟩

theorem destroyIf_frame {p : Option Nat} (hs : Settled s)
    (hp : ∀ a, p = some a → a < s.heap.next ∧ ¬Owns s a)
    (h : iotMqttDestroyIf turn s p r = .ok s') : Frame (fun x => p = some x) s s' := by
  cases p with
  | none => cases h; exact .refl hs
  | some a =>
      exact (destroy_frame hturn hs (Or.inr (hp a rfl)) h).1.mono
        fun x _ hx => Or.inl (congrArg some hx.symm)

omit hturn in
theorem freeIf_frame {o : Option Nat} (hs : Settled s) (ho : ∀ x, o = some x → ¬Owns s x)
    (h : s.freeIf o = .ok s') : Frame (fun x => o = some x) s s' := by
  cases o with
  | none => cases h; exact .refl hs
  | some x =>
      exact (free_frame hs h (Or.inr (Or.inl (ho x rfl)))).mono
        fun y _ hy => Or.inl (congrArg some hy.symm)

/-- `do_exit` with what the caller has made. -/
theorem doExit_frame {wr rd p : Option Nat} {rc : Bool} (hs : Settled s)
    (howns : ∀ x, wr = some x ∨ rd = some x ∨ p = some x → x < s.heap.next ∧ ¬Owns s x)
    (h : doExit turn s wr rd p r = .ok (rc, s')) :
    rc = false ∧ Frame (fun x => wr = some x ∨ rd = some x ∨ p = some x) s s' := by
  obtain ⟨s₁, h₁, h⟩ := bind_eq_ok.mp h
  obtain ⟨s₂, h₂, h⟩ := bind_eq_ok.mp h
  obtain ⟨s₃, h₃, h⟩ := bind_eq_ok.mp h
  cases h
  have hf₁ := freeIf_frame hs (fun x hx => (howns x (Or.inl hx)).2) h₁
  have hf₂ := freeIf_frame hf₁.settled (fun x hx hown =>
    (howns x (Or.inr (Or.inl hx))).2 (hf₁.owns x (howns x (Or.inr (Or.inl hx))).1 hown)) h₂
  have hf₁₂ : Frame (fun x => wr = some x ∨ rd = some x ∨ p = some x) s s₂ :=
    (hf₁.mono fun x _ hx => Or.inl (Or.inl hx)).trans hf₂
      fun x _ hx => Or.inl (Or.inr (Or.inl hx))
  have hf₃ := destroyIf_frame hturn hf₂.settled (fun a ha => by
    obtain ⟨hlt, hown⟩ := howns a (Or.inr (Or.inr ha))
    exact ⟨Nat.lt_of_lt_of_le hlt hf₁₂.heap.next_le, fun h => hown (hf₁₂.owns a hlt h)⟩) h₃
  exact ⟨rfl, hf₁₂.trans hf₃ fun x _ hx => Or.inl (Or.inr (Or.inr hx))⟩

/-- `iotx_comm_disconnect` leaves the client freed that the pointer pointed to. -/
theorem commDisconnect_frame (hs : Settled s) (h : iotxCommDisconnect turn s r = .ok s') :
    Frame P s s' ∧ s'.pclient = s.pclient ∧
      ∀ c, s.pclient = some c → ¬s.heap.Freed c ∧ s'.heap.Freed c := by
  rw [iotxCommDisconnect] at h
  split at h
  · next hnone =>
      cases h
      exact ⟨.refl hs, rfl, fun c hc => by rw [hnone] at hc; cases hc⟩
  · next a ha =>
      obtain ⟨k, hk, h⟩ := bind_eq_ok.mp h
      obtain ⟨s₁, h₁, h⟩ := bind_eq_ok.mp h
      obtain ⟨s₂, h₂, h₃⟩ := bind_eq_ok.mp h
      have hk := client_eq_ok.mp hk
      obtain ⟨hf₁, hfreed₁, hcurrent⟩ := destroy_frame hturn hs (Or.inl ha) h₁
      have hp₁ := hcurrent ha
      have hf₂ := free_frame hf₁.settled h₂ (Or.inr (Or.inr ⟨a, hp₁, hfreed₁⟩))
      have hfreed₂ := hf₂.heap.freed a hfreed₁
      have hf₃ := free_frame hf₂.settled h₃
        (Or.inr (Or.inr ⟨a, hf₂.stuck a hp₁ hfreed₁, hfreed₂⟩))
      have hown : ∀ x, x = a ∨ x = k.bufSend ∨ x = k.bufRead → Owns s x :=
        fun x hx => ⟨a, ha, hx.imp_right fun hx => ⟨k, hk, hx⟩⟩
      have hf : Frame P s s₁ := hf₁.mono fun x _ hx => Or.inr (hown x (Or.inl hx))
      refine ⟨(hf.trans hf₂ fun x _ hx => Or.inr (hown x (Or.inr (Or.inl hx)))).trans hf₃
        fun x _ hx => Or.inr (hown x (Or.inr (Or.inr hx))), ?_, fun c hc => ?_⟩
      · rw [ha]
        exact hf₃.stuck a (hf₂.stuck a hp₁ hfreed₁) hfreed₂
      rw [ha] at hc
      cases hc
      refine ⟨fun ⟨_, hnone⟩ => ?_, hf₃.heap.freed a hfreed₂⟩
      rw [hk] at hnone
      cases hnone

/-! ### Connecting -/

omit hturn in
theorem mcConnect_cases {o : McConnect} {rc : Bool} (h : iotxMcConnect s a o = .ok (rc, s')) :
    rc = decide (o = .accepted) ∧ (s' = s ∨ iotxMcSetClientState s a .connected = .ok s') ∧
      (rc = true → iotxMcSetClientState s a .connected = .ok s') := by
  obtain ⟨k, _, h⟩ := bind_eq_ok.mp h
  cases o with
  | preAuth => cases h; exact ⟨rfl, Or.inl rfl, nofun⟩
  | ipstack => cases h; exact ⟨rfl, Or.inl rfl, nofun⟩
  | connectPacket =>
      obtain ⟨_, _, h⟩ := bind_eq_ok.mp h
      cases h
      exact ⟨rfl, Or.inl rfl, nofun⟩
  | connack =>
      obtain ⟨_, _, h⟩ := bind_eq_ok.mp h
      obtain ⟨_, _, h⟩ := bind_eq_ok.mp h
      obtain ⟨_, _, h⟩ := bind_eq_ok.mp h
      cases h
      exact ⟨rfl, Or.inl rfl, nofun⟩
  | postAuth =>
      obtain ⟨_, _, h⟩ := bind_eq_ok.mp h
      obtain ⟨_, _, h⟩ := bind_eq_ok.mp h
      obtain ⟨t, ht, h⟩ := bind_eq_ok.mp h
      cases h
      exact ⟨rfl, Or.inr ht, nofun⟩
  | accepted =>
      obtain ⟨_, _, h⟩ := bind_eq_ok.mp h
      obtain ⟨_, _, h⟩ := bind_eq_ok.mp h
      obtain ⟨t, ht, h⟩ := bind_eq_ok.mp h
      cases h
      exact ⟨rfl, Or.inr ht, fun _ => ht⟩

omit hturn in
theorem mcConnect_updates {o : McConnect} {rc : Bool} (h : iotxMcConnect s a o = .ok (rc, s')) :
    Updates a s s' := by
  rcases (mcConnect_cases h).2.1 with rfl | h
  · exact .refl
  · exact setClientState_updates h

/-- A state with a connected client at `a` and nothing else new. -/
structure Constructed (w rd a : Nat) (s s' : Comm) : Prop where
  pclient : s'.pclient = s.pclient
  next : s'.heap.next = a + 1
  kept : ∀ x < a, s'.heap.cells x = s.heap.cells x
  client : s'.heap.cells a = some (.client ⟨w, rd, .connected⟩)

omit hturn in
theorem mcConnect_constructed {rd : Nat}
    (h : iotxMcConnect (s.malloc (.client ⟨w, rd, .initialized⟩)).2 s.heap.next .accepted =
      .ok (true, s')) : Constructed w rd s.heap.next s s' := by
  have hset := (mcConnect_cases h).2.2 rfl
  have hu := setClientState_updates hset
  obtain ⟨k, hk, hk'⟩ := setClientState_cells hset
  rw [show (s.malloc (.client ⟨w, rd, .initialized⟩)).2.heap.cells s.heap.next =
    some (.client ⟨w, rd, .initialized⟩) from Heap.alloc_self] at hk
  cases hk
  exact ⟨hu.pclient, hu.next,
    fun x hx => (hu.others x (Nat.ne_of_lt hx)).trans (Heap.alloc_of_lt hx), hk'⟩

/-- `IOT_MQTT_Construct` returns a connected client, or releases what it made. -/
theorem construct_cases {rd : Nat} {i : Constructing τ} {p : Option Nat} (hs : Settled s)
    (h : iotMqttConstruct turn s w rd i = .ok (p, s')) :
    (p = none ∧ (i.inited = true → i.connect ≠ .accepted) ∧ Frame P s s') ∨
      (p = some s.heap.next ∧ i.inited = true ∧ i.connect = .accepted ∧
        Constructed w rd s.heap.next s s') := by
  rw [iotMqttConstruct] at h
  split at h
  · next hinit =>
      cases h
      exact Or.inl ⟨rfl, (fun h => absurd (hinit.symm.trans h) (by decide)), .refl hs⟩
  · next hinit =>
      obtain ⟨⟨rc, s₁⟩, h₁, h⟩ := bind_eq_ok.mp h
      have hrc := (mcConnect_cases h₁).1
      have hs₀ : Settled (s.malloc (.client ⟨w, rd, .initialized⟩)).2 :=
        (malloc_frame (P := P) hs).settled
      dsimp only at h h₁
      split at h
      · next htrue =>
          cases h
          rw [htrue] at hrc h₁
          have hacc := of_decide_eq_true hrc.symm
          rw [hacc] at h₁
          exact Or.inr ⟨rfl, by simpa using hinit, hacc, mcConnect_constructed h₁⟩
      · next hfalse =>
          obtain ⟨s₂, h₂, h⟩ := bind_eq_ok.mp h
          obtain ⟨s₃, h₃, h⟩ := bind_eq_ok.mp h
          cases h
          have hf₁ := (mcConnect_updates h₁).frame hs₀
          have hf₂ := (release_frame hturn hf₁.settled h₂).1
          have hf₁₂ := hf₁.trans hf₂ fun _ _ => Or.inl
          have hnew : ¬Owns s₂ s.heap.next := fun hown =>
            Nat.lt_irrefl _ (Owns.lt_next hs (malloc_owns hs
              (hf₁₂.owns s.heap.next (Nat.lt_succ_self _) hown)))
          have hf₃ := free_frame hf₂.settled h₃ (Or.inr (Or.inl hnew))
          refine Or.inl ⟨rfl, fun _ hacc => ?_,
            (malloc_frame hs).trans (hf₁₂.trans hf₃ fun _ _ => Or.inl)
              fun x hx heq => absurd hx (by omega)⟩
          rw [hacc] at hrc
          exact hfalse hrc

/-- The state after both buffers are allocated. -/
def twoBuffers (s : Comm) : Comm := ((s.malloc .buffer).2.malloc .buffer).2

omit hturn in
theorem twoBuffers_frame (hs : Settled s) : Frame P s (twoBuffers s) :=
  (malloc_frame hs).trans (Q := fun _ => False) (malloc_frame (malloc_frame (P := P) hs).settled)
    fun _ _ hx => hx.elim

omit hturn in
theorem twoBuffers_owns (hs : Settled s) (hown : Owns (twoBuffers s) x) : Owns s x :=
  malloc_owns hs (malloc_owns (malloc_frame (P := fun _ => False) hs).settled hown)

omit hturn in
theorem twoBuffers_cells : (twoBuffers s).heap.cells s.heap.next = some .buffer ∧
    (twoBuffers s).heap.cells (s.heap.next + 1) = some .buffer :=
  ⟨(Heap.alloc_of_lt (Nat.lt_succ_self _)).trans Heap.alloc_self, Heap.alloc_self⟩

omit hturn in
/-- The pointer is set to a client that was made since. -/
theorem Frame.assign (h : Frame P s s') (hlive : LiveClient s'.heap a)
    (hnew : ∀ x, Owns { s' with pclient := some a } x → s.heap.next ≤ x)
    (hgone : ∀ c, s.pclient = some c → ¬s.heap.Freed c ∧ s'.heap.Freed c) :
    Frame P s { s' with pclient := some a } where
  heap := h.heap
  shape := h.shape
  owns := fun x hx hown => absurd (hnew x hown) (by omega)
  settled := fun c hc => by cases hc; exact Or.inr hlive
  current := Or.inr ⟨a, rfl, hnew a ⟨a, rfl, Or.inl rfl⟩⟩
  replaced := fun c hc => Or.inr (hgone c hc).2
  stuck := fun c hc hfreed => absurd hfreed (hgone c hc).1

omit hturn in
theorem Constructed.owns {rd : Nat} (hs : Settled s) (h : Constructed w rd s.heap.next s s')
    (hown : Owns s' x) : Owns s x :=
  owns_of_untouched hs h.pclient (fun x hx => h.kept x hx) hown

/-- The address of the client that a connection attempt makes. -/
def nextClient (s : Comm) : Nat := s.heap.next + 2

omit hturn in
theorem twoBuffers_next : (twoBuffers s).heap.next = nextClient s := rfl

/-- The state at the end of a connection attempt that succeeds, before the pointer is set. -/
structure Established (s t : Comm) : Prop where
  pclient : t.pclient = s.pclient
  next : t.heap.next = nextClient s + 1
  kept : ∀ x < s.heap.next, t.heap.cells x = s.heap.cells x
  client : ∃ st, t.heap.cells (nextClient s) =
    some (.client ⟨s.heap.next, s.heap.next + 1, st⟩)
  write : t.heap.cells s.heap.next = some .buffer
  read : t.heap.cells (s.heap.next + 1) = some .buffer

omit hturn in
theorem Established.live {t : Comm} (h : Established s t) : LiveClient t.heap (nextClient s) := by
  obtain ⟨st, hk⟩ := h.client
  exact ⟨_, hk, h.write, h.read, by dsimp only; omega⟩

omit hturn in
theorem Established.new {t : Comm} (h : Established s t)
    (hown : Owns { t with pclient := some (nextClient s) } x) : s.heap.next ≤ x := by
  obtain ⟨st, hclient⟩ := h.client
  obtain ⟨a, ha, hx⟩ := hown
  cases ha
  rcases hx with rfl | ⟨k, hk, hx⟩
  · exact Nat.le_add_right _ 2
  · rw [show ({ t with pclient := some (nextClient s) } : Comm).heap = t.heap from rfl,
      hclient] at hk
    cases hk
    dsimp only at hx
    omega

omit hturn in
theorem Established.frame {t : Comm} (hs : Settled s) (h : Established s t) : Frame P s t :=
  .of_untouched hs h.pclient
    ⟨by rw [h.next, nextClient]; omega, fun x hx _ => h.kept x hx,
      fun x ⟨hx, hnone⟩ => ⟨by rw [h.next, nextClient]; omega, (h.kept x hx).trans hnone⟩⟩

omit hturn in
/-- Before the pointer is set the objects of the attempt are not the connection's. -/
theorem Established.not_owns {t : Comm} (hs : Settled s) (h : Established s t)
    (hx : s.heap.next ≤ x) : ¬Owns t x := fun hown =>
  absurd (Owns.lt_next hs (owns_of_untouched hs h.pclient h.kept hown)) (by omega)

omit hturn in
/-- The session decides how the attempt goes on. -/
theorem Constructed.session {i : Connecting τ} {t : Comm} {rc : Bool}
    (h : Constructed s.heap.next (s.heap.next + 1) (nextClient s) (twoBuffers s) s')
    (hopen : openSession s' (nextClient s) i = .ok (rc, t)) :
    rc = decide (i.session = .sent) ∧ EndsIn i.session s' (nextClient s) t ∧ Established s t := by
  obtain ⟨hwrite, hread⟩ := twoBuffers_cells (s := s)
  have hlt : nextClient s = s.heap.next + 2 := rfl
  have hwrite' := (h.kept s.heap.next (by omega)).trans hwrite
  have hread' := (h.kept (s.heap.next + 1) (by omega)).trans hread
  obtain ⟨t', ht', hend⟩ := openSession_connected (i := i) h.client rfl hwrite'
  rw [hopen] at ht'
  cases ht'
  have hu := hend.updates
  obtain ⟨⟨w, rd, st⟩, hk, hsend, hrecv⟩ := hu.client h.client
  cases hsend
  cases hrecv
  refine ⟨rfl, hend, hu.pclient.trans h.pclient, hu.next.trans h.next, fun x hx => ?_, ⟨st, hk⟩,
    hu.buffer.mpr hwrite', hu.buffer.mpr hread'⟩
  have htwo : (twoBuffers s).heap.cells x = s.heap.cells x :=
    (Heap.alloc_of_lt (Nat.lt_succ_of_lt hx)).trans (Heap.alloc_of_lt hx)
  exact (hu.others x (by omega)).trans ((h.kept x (by omega)).trans htwo)

/-- With both buffers an attempt fails within its frame, or sets the pointer to a new
client. -/
theorem connectClient_cases {i : Connecting τ} {rc : Bool} (hs : Settled s)
    (h : connectClient turn (twoBuffers s) s.heap.next (s.heap.next + 1) i = .ok (rc, s')) :
    (rc = false ∧ Frame P s s') ∨
      (rc = true ∧ i.construct.inited = true ∧ i.construct.connect = .accepted ∧
        i.session = .sent ∧
        ∃ t, Established s t ∧ s' = { t with pclient := some (nextClient s) }) := by
  have htwo : Frame (fun _ => False) s (twoBuffers s) := twoBuffers_frame hs
  have hnew : ∀ {t x}, Frame (fun _ => False) (twoBuffers s) t → s.heap.next ≤ x →
      x < nextClient s → ¬Owns t x := fun hf hle hlt hown =>
    absurd (Owns.lt_next hs (twoBuffers_owns hs (hf.owns _ hlt hown))) (by omega)
  obtain ⟨⟨p, s₁⟩, h₁, h⟩ := bind_eq_ok.mp h
  rcases construct_cases (P := fun _ => False) hturn htwo.settled h₁ with
    ⟨rfl, _, hf₁⟩ | ⟨rfl, hinit, hacc, hc⟩
  · have hx : ∀ x, some s.heap.next = some x ∨ some (s.heap.next + 1) = some x ∨ none = some x →
        s.heap.next ≤ x ∧ x < nextClient s := fun x hx => by
      rcases hx with hx | hx | hx <;> cases hx <;> rw [nextClient] <;> omega
    obtain ⟨hrc, hf₂⟩ := doExit_frame hturn hf₁.settled (fun x hmem =>
      ⟨Nat.lt_of_lt_of_le (hx x hmem).2 hf₁.heap.next_le,
        hnew hf₁ (hx x hmem).1 (hx x hmem).2⟩) h
    refine Or.inl ⟨hrc, ((htwo.trans hf₁ fun _ _ hx => hx.elim).mono
      fun _ _ hx => hx.elim).trans hf₂ fun x hlt hmem => ?_⟩
    exact absurd (hx x hmem).1 (by omega)
  · rw [twoBuffers_next] at h
    obtain ⟨⟨rc₂, t⟩, h₂, h⟩ := bind_eq_ok.mp h
    obtain ⟨hrc₂, _, het⟩ := Constructed.session hc h₂
    have hx : ∀ x, some s.heap.next = some x ∨ some (s.heap.next + 1) = some x ∨
        some (nextClient s) = some x → s.heap.next ≤ x ∧ x ≤ nextClient s := fun x hx => by
      rcases hx with hx | hx | hx <;> cases hx <;> rw [nextClient] <;> omega
    dsimp only at h
    split at h
    · obtain ⟨hrc, hf₂⟩ := doExit_frame hturn (het.frame (P := P) hs).settled (fun x hmem =>
        ⟨by rw [het.next]; exact Nat.lt_succ_of_le (hx x hmem).2,
          het.not_owns hs (hx x hmem).1⟩) h
      refine Or.inl ⟨hrc, (het.frame hs).trans hf₂ fun x hlt hmem => ?_⟩
      exact absurd (hx x hmem).1 (by omega)
    · next hfalse =>
        cases h
        rw [Bool.not_eq_false] at hfalse
        rw [hfalse] at hrc₂
        exact Or.inr ⟨rfl, hinit, hacc, of_decide_eq_true hrc₂.symm, t, het, rfl⟩

variable (turn) in
omit hturn in
/-- Without both buffers an attempt fails, and only the first buffer came and went. -/
theorem establish_malloc {i : Connecting τ} (hs : Settled s)
    (hmalloc : ¬(i.mallocWrite = true ∧ i.mallocRead = true)) :
    ∃ s', establish turn s i = .ok (false, s') ∧ Frame P s s' ∧ s'.pclient = s.pclient := by
  rw [establish]
  split
  · exact ⟨s, rfl, .refl hs, rfl⟩
  next hwrite =>
  dsimp only
  rw [if_pos (by simpa [hwrite] using hmalloc)]
  have hs₁ : Settled (s.malloc .buffer).2 := (malloc_frame (P := P) hs).settled
  have hcell : (s.malloc .buffer).2.heap.cells s.heap.next = some .buffer := Heap.alloc_self ..
  obtain ⟨t, ht⟩ := free_ok hcell
  have hf := free_frame hs₁ ht (Or.inr (Or.inl fun hown =>
    Nat.lt_irrefl _ (Owns.lt_next hs (malloc_owns hs hown))))
  refine ⟨t, bind_eq_ok.mpr ⟨t, ht, rfl⟩, (malloc_frame hs).trans hf fun x hlt heq => ?_, ?_⟩
  · exact absurd heq (by omega)
  · obtain ⟨_, _, rfl⟩ := free_eq_ok.mp ht
    rfl

omit hturn in
theorem establish_eq {i : Connecting τ} (hwrite : i.mallocWrite = true)
    (hread : i.mallocRead = true) :
    establish turn s i = connectClient turn (twoBuffers s) s.heap.next (s.heap.next + 1) i := by
  rw [establish, hwrite, if_neg (by decide)]
  dsimp only
  rw [hread, if_neg (by decide)]
  rfl

/-- A connection attempt fails within its frame, or sets the pointer to a new client. -/
theorem establish_cases {i : Connecting τ} {rc : Bool} (hs : Settled s)
    (h : establish turn s i = .ok (rc, s')) :
    (rc = false ∧ Frame P s s') ∨
      (rc = true ∧ i.Succeeds ∧
        ∃ t, Established s t ∧ s' = { t with pclient := some (nextClient s) }) := by
  by_cases hmalloc : i.mallocWrite = true ∧ i.mallocRead = true
  · rw [establish_eq hmalloc.1 hmalloc.2] at h
    rcases connectClient_cases hturn hs h with hfail | ⟨hrc, hinit, hacc, hsent, ht⟩
    · exact Or.inl hfail
    · exact Or.inr ⟨hrc, ⟨hmalloc.1, hmalloc.2, hinit, hacc, hsent⟩, ht⟩
  · obtain ⟨t, ht, hf, _⟩ := establish_malloc turn hs hmalloc
    rw [h] at ht
    cases ht
    exact Or.inl ⟨rfl, hf⟩

theorem commConnect_frame {i : Connecting τ} {rc : Bool} (hs : Settled s)
    (h : iotxCommConnect turn s i = .ok (rc, s')) : Frame P s s' := by
  obtain ⟨s₁, h₁, h₂⟩ := bind_eq_ok.mp h
  obtain ⟨hf₁, _, hgone⟩ := commDisconnect_frame (P := P) hturn hs h₁
  rcases establish_cases (P := fun _ => False) hturn hf₁.settled h₂ with
    ⟨_, hf₂⟩ | ⟨_, _, t, ht, rfl⟩
  · exact hf₁.trans hf₂ fun _ _ hx => hx.elim
  · have hf₂ : Frame (fun _ => False) s₁ t := ht.frame hf₁.settled
    exact (hf₁.trans hf₂ fun _ _ hx => hx.elim).assign ht.live
      (fun x hown => Nat.le_trans hf₁.heap.next_le (ht.new hown))
      fun c hc => (hgone c hc).imp_right fun hfreed => hf₂.heap.freed c hfreed

/-! ### Yielding -/

omit hturn in
/-- A cycle does nothing, or it writes to the client and then writes again or sends. -/
theorem mcCycle_cases {c : Cycle τ} {rc : Bool} (h : iotxMcCycle s a c = .ok (rc, s')) :
    s' = s ∨ ∃ s₁, Updates a s s₁ ∧ (Updates a s₁ s' ∨ Works s₁ s') := by
  obtain ⟨normal, _, h⟩ := bind_eq_ok.mp h
  split at h
  · obtain ⟨s₁, h₁, h⟩ := bind_eq_ok.mp h
    have hu₁ : Updates a s s₁ := by
      split at h₁
      · exact setClientState_updates h₁
      · cases h₁; exact .refl
    obtain ⟨k, _, h⟩ := bind_eq_ok.mp h
    obtain ⟨_, _, h⟩ := bind_eq_ok.mp h
    split at h
    · obtain ⟨s₂, h₂, h⟩ := bind_eq_ok.mp h
      cases h
      exact Or.inr ⟨s₁, hu₁, Or.inl (setClientState_updates h₂)⟩
    · obtain ⟨s₂, h₂, h⟩ := bind_eq_ok.mp h
      cases h
      exact Or.inr ⟨s₁, hu₁, Or.inr (sendDataIf_works h₂)⟩
  · cases h
    exact Or.inl rfl

omit hturn in
theorem mcCycle_frame {c : Cycle τ} {rc : Bool} (hs : Settled s)
    (h : iotxMcCycle s a c = .ok (rc, s')) :
    Frame (fun x => x = a) s s' ∧ s'.pclient = s.pclient := by
  obtain rfl | ⟨s₁, hu₁, hu | hw⟩ := mcCycle_cases h
  · exact ⟨.refl hs, rfl⟩
  · have hboth := hu₁.trans hu
    exact ⟨hboth.frame hs, hboth.pclient⟩
  · have hf₁ := hu₁.frame hs
    exact ⟨hf₁.trans (hw.frame (P := fun x => x = a) hf₁.settled) fun _ _ => Or.inl,
      hw.pclient.trans hu₁.pclient⟩

omit hturn in
theorem yieldPass_frame {c : Cycle τ} {rc : Bool} (hs : Settled s)
    (h : yieldPass s a c = .ok (rc, s')) :
    Frame (fun x => x = a) s s' ∧ s'.pclient = s.pclient := by
  obtain ⟨s₁, h₁, h⟩ := bind_eq_ok.mp h
  have hu₁ := sendPacketIf_updates h₁
  have hf₁ := hu₁.frame hs
  obtain ⟨⟨rc₂, s₂⟩, h₂, h⟩ := bind_eq_ok.mp h
  obtain ⟨hf₂, hp₂⟩ := mcCycle_frame hf₁.settled h₂
  obtain ⟨s₃, h₃, h⟩ := bind_eq_ok.mp h
  cases h
  have hu₃ : Updates a s₂ s' := by
    split at h₃
    · exact sendPacketIf_updates h₃
    · cases h₃; exact .refl
  exact ⟨(hf₁.trans hf₂ fun _ _ => Or.inl).trans (hu₃.frame hf₂.settled) fun _ _ => Or.inl,
    hu₃.pclient.trans (hp₂.trans hu₁.pclient)⟩

theorem yieldCycle_frame {c : Cycle τ} {st st' : Bool × Comm} (hs : Settled st.2)
    (h : yieldCycle turn a st c = .ok st') : Frame (fun x => x = a) st.2 st'.2 := by
  obtain ⟨s₁, h₁, h⟩ := bind_eq_ok.mp h
  have hf₁ : Frame (fun x => x = a) st.2 s₁ := by
    split at h₁
    · cases h₁; exact .refl hs
    · exact delay_frame hturn hs h₁
  exact hf₁.trans (yieldPass_frame hf₁.settled h).1 fun _ _ => Or.inl

theorem commYield_frame {y : Yielding τ} (hs : Settled s)
    (h : iotxCommYield turn s y = .ok s') : Frame P s s' := by
  rw [iotxCommYield] at h
  split at h
  · cases h; exact .refl hs
  · next a ha =>
      obtain ⟨⟨rc, t⟩, hrun, h⟩ := bind_eq_ok.mp h
      cases h
      let R : Bool × Comm → Bool × Comm → Prop := fun st st' =>
        Settled st.2 → Frame (fun x => x = a) st.2 st'.2
      have htrans : ∀ {st st' st''}, R st st' → R st' st'' → R st st'' := fun h₁ h₂ hs =>
        (h₁ hs).trans (h₂ (h₁ hs).settled) fun _ _ => Or.inl
      have hcycle : ∀ {st c st'}, Settled st.2 → yieldCycle turn a st c = .ok st' →
          R st st' ∧ Settled st'.2 := fun hs hstep =>
        ⟨fun _ => yieldCycle_frame hturn hs hstep, (yieldCycle_frame hturn hs hstep).settled⟩
      have hf : R (true, s) (rc, s') :=
        Runs.run_rel (R := R) (fun _ => .refl) htrans hcycle hs hrun
      exact (hf hs).mono fun x _ heq => Or.inr ⟨a, ha, Or.inl heq⟩

theorem handleReconnect_frame {y : Yielding τ} (hs : Settled s)
    (h : iotxConnHandleReconnect turn s y = .ok s') : Frame P s s' := by
  rw [iotxConnHandleReconnect] at h
  split at h
  · cases h; exact .refl hs
  · obtain ⟨⟨rc, t⟩, ht, h⟩ := bind_eq_ok.mp h
    cases h
    have hf := commConnect_frame (P := P) hturn hs ht
    split
    · exact hf.trans (Q := fun _ => False) (setConnState_works.frame hf.settled)
        fun _ _ hx => hx.elim
    · exact hf

variable (turn) in
/-- `IOT_Comm_Yield` after its `IOT_Comm_IsConnected`. -/
def afterYield (s : Comm) (up : Bool) (y : Yielding τ) : Except Fault Comm :=
  if up then iotCommSendDataIf s y.automatic
  else if s.connState = .disconnectedReconnecting then iotxConnHandleReconnect turn s y
  else if s.connState = .disconnected then .ok (iotxSetConnState s .disconnectedReconnecting)
  else .ok s

theorem afterYield_frame {y : Yielding τ} {up : Bool} (hs : Settled s)
    (h : afterYield turn s up y = .ok s') : Frame P s s' := by
  rw [afterYield] at h
  split at h
  · exact (sendDataIf_works h).frame hs
  split at h
  · exact handleReconnect_frame hturn hs h
  split at h
  · cases h; exact setConnState_works.frame hs
  · cases h; exact .refl hs

theorem yield_frame {y : Yielding τ} (hs : Settled s)
    (h : iotCommYield turn s y = .ok s') : Frame P s s' := by
  rw [iotCommYield] at h
  have hnet := networkIsConnected_works (s := s)
  rcases hup : iotNetworkIsConnected s with ⟨up, t⟩
  rw [hup] at h hnet
  dsimp only at h hnet
  have hf : Frame P s t := hnet.frame hs
  split at h
  · cases h; exact hf
  obtain ⟨s₁, h₁, h⟩ := bind_eq_ok.mp h
  have hf₁ : Frame P s s₁ := hf.trans (commYield_frame hturn hf.settled h₁) fun _ _ => Or.inl
  obtain ⟨⟨up, s₂⟩, h₂, h⟩ := bind_eq_ok.mp h
  have hf₂ : Frame P s s₂ :=
    hf₁.trans ((isConnected_works h₂).frame hf₁.settled) fun _ _ => Or.inl
  have hrest : afterYield turn s₂ up y = .ok s' := h
  exact hf₂.trans (afterYield_frame hturn hf₂.settled hrest) fun _ _ => Or.inl

theorem connect_frame {i : Connecting τ} (hs : Settled s)
    (h : iotCommConnect turn s i = .ok s') : Frame P s s' := by
  rw [iotCommConnect] at h
  have hnet := networkIsConnected_works (s := s)
  rcases hup : iotNetworkIsConnected s with ⟨up, t⟩
  rw [hup] at h hnet
  dsimp only at h hnet
  have hf : Frame P s t := hnet.frame hs
  split at h
  · cases h; exact hf
  split at h
  · cases h; exact hf
  obtain ⟨⟨rst, s₁⟩, h₁, h⟩ := bind_eq_ok.mp h
  cases h
  have hf₁ : Frame P s s₁ := hf.trans (commConnect_frame hturn hf.settled h₁) fun _ _ => Or.inl
  exact hf₁.trans (setConnState_works.frame hf₁.settled) fun _ _ => Or.inl

theorem call_frame {c : Call τ} (hs : Settled s) (h : call turn s c = .ok s') :
    Frame P s s' := by
  cases c with
  | setNetwork newState => cases h; exact networkSetState_works.frame hs
  | connect i => exact connect_frame hturn hs h
  | disconnect r =>
      have hf : Frame P s (iotxSetConnState s .initialized) := setConnState_works.frame hs
      exact hf.trans (commDisconnect_frame hturn hf.settled h).1 fun _ _ => Or.inl
  | yield y => exact yield_frame hturn hs h
  | sendData m => exact (sendData_works h).frame hs

end Delays

/-- At every depth of re-entry a turn stays within its frame. -/
theorem systemLoop_frame (depth : Nat) : Framed (systemLoop depth) := by
  induction depth with
  | zero => exact fun {_ t _} _ _ => nomatch t
  | succ depth ih =>
      intro s t s' hs h
      have hf : Frame (fun _ => False) s (iotNetworkSetState s t.network) :=
        networkSetState_works.frame hs
      exact hf.trans (yield_frame ih hf.settled h) fun _ _ => Or.inl

end IotKit.CommIf
