import IotKit.CommIf.Connection
import IotKit.Lib.Memory

/-!
# Ownership of the client

`Owned` is the property that `conn_info.pclient` should have: it is NULL, or the
client and its two buffers are there.

What any call can do to the state is `Frame`: of the objects that were there, it touches
those that the connection owns and those it was handed.  The pointer is kept or
replaced by a newer one.  A client that was replaced was freed, and a dangling
pointer dangles for ever.
-/

namespace IotKit.CommIf

open ObjectHeap
open CMemory (bind_eq_ok)
open Mqtt (McState)

variable {s s' s'' : Comm} {a b c w x : Nat} {k : ClientObject} {st : McState} {P Q : Nat → Prop}

/-! ## Predicates -/

/-- A client whose two buffers are there. -/
def LiveClient (h : Heap Object) (a : Nat) : Prop :=
  ∃ k, h.cells a = some (.client k) ∧ h.cells k.bufSend = some .buffer ∧
    h.cells k.bufRead = some .buffer ∧ k.bufSend ≠ k.bufRead

/-- The property of `conn_info.pclient`. -/
def Owned (s : Comm) : Prop := ∀ a, s.pclient = some a → LiveClient s.heap a

/-- What the code does keep of it: the pointer may dangle. -/
def Settled (s : Comm) : Prop := ∀ a, s.pclient = some a → s.heap.Freed a ∨ LiveClient s.heap a

/-- The addresses that belong to the client of the connection. -/
def Owns (s : Comm) (x : Nat) : Prop :=
  ∃ a, s.pclient = some a ∧
    (x = a ∨ ∃ k, s.heap.cells a = some (.client k) ∧ (x = k.bufSend ∨ x = k.bufRead))

/-- A pointer whose client is live does not dangle. -/
theorem Owned.settled (h : Owned s) : Settled s := fun a ha => Or.inr (h a ha)

/-- A live client and its buffers are not freed. -/
theorem LiveClient.not_freed {h : Heap Object} (hlive : LiveClient h a) : ¬h.Freed a := by
  obtain ⟨k, hk, _⟩ := hlive
  rintro ⟨_, hnone⟩
  rw [hk] at hnone
  cases hnone

/-- A pointer that does not dangle is good. -/
theorem Settled.owned (h : Settled s) (hcell : ∀ a, s.pclient = some a → ¬s.heap.Freed a) :
    Owned s :=
  fun a ha => (h a ha).resolve_left (hcell a ha)

/-- What the connection owns has been allocated. -/
theorem Owns.lt_next (hs : Settled s) (h : Owns s x) : x < s.heap.next := by
  obtain ⟨a, ha, hx⟩ := h
  rcases hs a ha with ⟨hlt, hnone⟩ | ⟨k, hk, hsend, hread, _⟩
  · rcases hx with rfl | ⟨k, hk, _⟩
    · exact hlt
    · rw [hnone] at hk
      cases hk
  · rcases hx with rfl | ⟨k', hk', hx⟩
    · exact Heap.lt_next hk
    · rw [hk] at hk'
      cases hk'
      rcases hx with rfl | rfl
      · exact Heap.lt_next hsend
      · exact Heap.lt_next hread

/-! ## Access -/

/-- Reading a client succeeds where there is one. -/
theorem client_eq_ok : s.client a = .ok k ↔ s.heap.cells a = some (.client k) := by
  rw [Comm.client, bind_eq_ok]
  constructor
  · rintro ⟨o, ho, h⟩
    cases o with
    | client k' => cases h; exact Heap.read_eq_ok.mp ho
    | buffer => cases h
  · exact fun h => ⟨_, Heap.read_eq_ok.mpr h, rfl⟩

theorem buffer_eq_ok {u : Unit} : s.buffer b = .ok u ↔ s.heap.cells b = some .buffer := by
  rw [Comm.buffer, bind_eq_ok]
  constructor
  · rintro ⟨o, ho, h⟩
    cases o with
    | client k' => cases h
    | buffer => exact Heap.read_eq_ok.mp ho
  · exact fun h => ⟨_, Heap.read_eq_ok.mpr h, rfl⟩

/-- `HAL_Free` clears a cell that was allocated and not freed. -/
theorem free_eq_ok :
    s.free x = .ok s' ↔
      ∃ hlt : x < s.heap.next, s.heap.cells x ≠ none ∧
        s' = { s with heap := s.heap.set x hlt none } := by
  rw [Comm.free, bind_eq_ok]
  constructor
  · rintro ⟨h, hfree, heq⟩
    obtain ⟨hlt, hne, rfl⟩ := Heap.free_eq_ok.mp hfree
    exact ⟨hlt, hne, by cases heq; rfl⟩
  · rintro ⟨hlt, hne, rfl⟩
    exact ⟨_, Heap.free_eq_ok.mpr ⟨hlt, hne, rfl⟩, rfl⟩

/-- What is there can be freed. -/
theorem free_ok {o : Object} (h : s.heap.cells x = some o) : ∃ s', s.free x = .ok s' := by
  obtain ⟨heap, hfree⟩ := Heap.free_ok (h ▸ Option.some_ne_none o)
  exact ⟨{ s with heap }, bind_eq_ok.mpr ⟨heap, hfree, rfl⟩⟩

/-- Freeing one object leaves the others. -/
theorem free_other (h : s.free x = .ok s') (hne : a ≠ x) :
    s'.heap.cells a = s.heap.cells a := by
  obtain ⟨_, _, rfl⟩ := free_eq_ok.mp h
  exact Function.update_of_ne hne ..

theorem free_self (h : s.free x = .ok s') : s'.heap.Freed x := by
  obtain ⟨hlt, _, rfl⟩ := free_eq_ok.mp h
  exact ⟨hlt, Function.update_self ..⟩

theorem free_pclient (h : s.free x = .ok s') : s'.pclient = s.pclient := by
  obtain ⟨_, _, rfl⟩ := free_eq_ok.mp h
  rfl

/-- `iotx_mc_set_client_state` changes the state of a client that is there, and nothing else. -/
theorem setClientState_eq_ok :
    iotxMcSetClientState s a st = .ok s' ↔
      ∃ (k : ClientObject) (hlt : a < s.heap.next), s.heap.cells a = some (.client k) ∧
        s' = { s with heap := s.heap.set a hlt (some (.client { k with clientState := st })) } := by
  rw [iotxMcSetClientState, bind_eq_ok]
  constructor
  · rintro ⟨k, hk, h⟩
    obtain ⟨heap, hwrite, heq⟩ := bind_eq_ok.mp h
    obtain ⟨hlt, _, rfl⟩ := Heap.write_eq_ok.mp hwrite
    exact ⟨k, hlt, client_eq_ok.mp hk, by cases heq; rfl⟩
  · rintro ⟨k, hlt, hk, rfl⟩
    have hne : s.heap.cells a ≠ none := by rw [hk]; nofun
    exact ⟨k, client_eq_ok.mpr hk,
      bind_eq_ok.mpr ⟨_, Heap.write_eq_ok.mpr ⟨hlt, hne, rfl⟩, rfl⟩⟩

/-- `iotx_mc_check_state_normal` reads the state of a client that is there. -/
theorem checkStateNormal_eq_ok {normal : Bool} :
    iotxMcCheckStateNormal s a = .ok normal ↔
      ∃ k, s.heap.cells a = some (.client k) ∧ normal = decide (k.clientState = .connected) := by
  rw [iotxMcCheckStateNormal, bind_eq_ok]
  constructor
  · rintro ⟨k, hk, h⟩
    exact ⟨k, client_eq_ok.mp hk, by cases h; rfl⟩
  · rintro ⟨k, hk, rfl⟩
    exact ⟨k, client_eq_ok.mpr hk, rfl⟩

/-! ## Work on one client -/

/-- The two buffers of a client. -/
def Object.buffers : Object → Option (Nat × Nat)
  | .client k => some (k.bufSend, k.bufRead)
  | .buffer => none

/-- What is at an address, without the state of a client. -/
def layout (h : Heap Object) (x : Nat) : Option (Option (Nat × Nat)) :=
  (h.cells x).map Object.buffers

theorem layout_of_client {h : Heap Object} (hk : h.cells a = some (.client k)) :
    layout h a = some (some (k.bufSend, k.bufRead)) := by
  rw [layout, hk]
  rfl

/-- The layout of a client is its two buffers. -/
theorem layout_eq_client {h : Heap Object} {w r : Nat} :
    layout h a = some (some (w, r)) ↔
      ∃ k, h.cells a = some (.client k) ∧ k.bufSend = w ∧ k.bufRead = r := by
  constructor
  · intro hl
    obtain ⟨o, ho, hbuf⟩ := Option.map_eq_some_iff.mp hl
    cases o with
    | client k => cases hbuf; exact ⟨k, ho, rfl, rfl⟩
    | buffer => cases hbuf
  · rintro ⟨k, hk, rfl, rfl⟩
    exact layout_of_client hk

theorem layout_eq_buffer {h : Heap Object} :
    layout h b = some none ↔ h.cells b = some .buffer := by
  constructor
  · intro hl
    obtain ⟨o, ho, hbuf⟩ := Option.map_eq_some_iff.mp hl
    cases o with
    | client k => cases hbuf
    | buffer => exact ho
  · intro hb
    rw [layout, hb]
    rfl

theorem layout_eq_none {h : Heap Object} : layout h x = none ↔ h.cells x = none :=
  Option.map_eq_none_iff

/-- A step that changes the state of the client at `a` and nothing else of the heap. -/
structure Updates (a : Nat) (s s' : Comm) : Prop where
  pclient : s'.pclient = s.pclient
  next : s'.heap.next = s.heap.next
  others : ∀ x, x ≠ a → s'.heap.cells x = s.heap.cells x
  layout : ∀ x, layout s'.heap x = layout s.heap x

/-- A change outside the heap changes no client. -/
theorem Updates.of_heap_eq (hp : s'.pclient = s.pclient) (hh : s'.heap = s.heap) :
    Updates a s s' :=
  ⟨hp, by rw [hh], fun _ _ => by rw [hh], fun _ => by rw [hh]⟩

theorem Updates.refl : Updates a s s := .of_heap_eq rfl rfl

/-- Changes of one client compose. -/
theorem Updates.trans (h₁ : Updates a s s') (h₂ : Updates a s' s'') : Updates a s s'' where
  pclient := h₂.pclient.trans h₁.pclient
  next := h₂.next.trans h₁.next
  others := fun x hx => (h₂.others x hx).trans (h₁.others x hx)
  layout := fun x => (h₂.layout x).trans (h₁.layout x)

/-- A change of a client frees nothing. -/
theorem Updates.freed (h : Updates a s s') : s'.heap.Freed x ↔ s.heap.Freed x := by
  rw [Heap.Freed, Heap.Freed, ← layout_eq_none, ← layout_eq_none, h.layout, h.next]

/-- The client keeps its buffers. -/
theorem Updates.client (h : Updates a s s') (hk : s.heap.cells x = some (.client k)) :
    ∃ k', s'.heap.cells x = some (.client k') ∧
      k'.bufSend = k.bufSend ∧ k'.bufRead = k.bufRead := by
  have hl := layout_of_client hk
  rw [← h.layout] at hl
  exact layout_eq_client.mp hl

theorem Updates.client_back (h : Updates a s s') (hk : s'.heap.cells x = some (.client k)) :
    ∃ k', s.heap.cells x = some (.client k') ∧
      k'.bufSend = k.bufSend ∧ k'.bufRead = k.bufRead := by
  have hl := layout_of_client hk
  rw [h.layout] at hl
  exact layout_eq_client.mp hl

theorem Updates.buffer (h : Updates a s s') :
    s'.heap.cells b = some .buffer ↔ s.heap.cells b = some .buffer := by
  rw [← layout_eq_buffer, ← layout_eq_buffer, h.layout]

/-- A live client stays live. -/
theorem Updates.live (h : Updates a s s') (hlive : LiveClient s.heap x) :
    LiveClient s'.heap x := by
  obtain ⟨k, hk, hsend, hread, hne⟩ := hlive
  obtain ⟨k', hk', hs, hr⟩ := h.client hk
  refine ⟨k', hk', h.buffer.mpr ?_, h.buffer.mpr ?_, ?_⟩
  · rwa [hs]
  · rwa [hr]
  · rwa [hs, hr]

/-- What is owned after a change was owned before it. -/
theorem Updates.owns (h : Updates a s s') (hx : Owns s' x) : Owns s x := by
  obtain ⟨c, hc, hx⟩ := hx
  refine ⟨c, h.pclient ▸ hc, hx.imp_right ?_⟩
  rintro ⟨k, hk, hx⟩
  obtain ⟨k', hk', hs, hr⟩ := h.client_back hk
  exact ⟨k', hk', by rwa [hs, hr]⟩

theorem Updates.settled (h : Updates a s s') (hs : Settled s) : Settled s' := fun c hc =>
  (hs c (h.pclient ▸ hc)).imp h.freed.mpr h.live

theorem Updates.owned (h : Updates a s s') (hs : Owned s) : Owned s' := fun c hc =>
  h.live (hs c (h.pclient ▸ hc))

theorem setClientState_updates (h : iotxMcSetClientState s a st = .ok s') : Updates a s s' := by
  obtain ⟨k, hlt, hk, rfl⟩ := setClientState_eq_ok.mp h
  have hothers : ∀ x, x ≠ a → (s.heap.set a hlt
      (some (.client { k with clientState := st }))).cells x = s.heap.cells x :=
    fun x hx => Function.update_of_ne hx ..
  refine ⟨rfl, rfl, hothers, fun x => ?_⟩
  rcases eq_or_ne x a with rfl | hx
  · rw [layout_of_client hk, layout_of_client (Function.update_self ..)]
  · rw [layout, hothers x hx, layout]

/-! ## What any call can do -/

structure Frame (P : Nat → Prop) (s s' : Comm) : Prop where
  heap : Within (fun x => P x ∨ Owns s x) s.heap s'.heap
  shape : ∀ x < s.heap.next, s'.heap.cells x = none ∨ layout s'.heap x = layout s.heap x
  owns : ∀ x < s.heap.next, Owns s' x → Owns s x
  settled : Settled s'
  current : s'.pclient = s.pclient ∨ ∃ c, s'.pclient = some c ∧ s.heap.next ≤ c
  replaced : ∀ c, s.pclient = some c → s'.pclient = some c ∨ s'.heap.Freed c
  stuck : ∀ c, s.pclient = some c → s.heap.Freed c → s'.pclient = some c

/-- The frame of a step that keeps the pointer. -/
theorem Frame.of_pclient_eq (hp : s'.pclient = s.pclient)
    (hheap : Within (fun x => P x ∨ Owns s x) s.heap s'.heap)
    (hshape : ∀ x < s.heap.next, s'.heap.cells x = none ∨ layout s'.heap x = layout s.heap x)
    (howns : ∀ x < s.heap.next, Owns s' x → Owns s x) (hs : Settled s') : Frame P s s' :=
  ⟨hheap, hshape, howns, hs, Or.inl hp, fun _ hc => Or.inl (hp.trans hc),
    fun _ hc _ => hp.trans hc⟩

/-- Doing nothing touches nothing. -/
theorem Frame.refl (hs : Settled s) : Frame P s s :=
  .of_pclient_eq rfl .refl (fun _ _ => Or.inr rfl) (fun _ _ h => h) hs

/-- What two calls touch is what either touches, of the objects that were there or were the own. -/
theorem Frame.trans (h₁ : Frame P s s') (h₂ : Frame Q s' s'')
    (hsub : ∀ x < s.heap.next, Q x → P x ∨ Owns s x) : Frame P s s'' where
  heap := h₁.heap.trans h₂.heap fun x hx hQ =>
    hQ.elim (hsub x hx) (fun hown => Or.inr (h₁.owns x hx hown))
  shape := fun x hx => by
    have hx' := Nat.lt_of_lt_of_le hx h₁.heap.next_le
    rcases h₁.shape x hx with hnone | heq
    · exact Or.inl (h₂.heap.freed x ⟨hx', hnone⟩).2
    · exact (h₂.shape x hx').imp_right fun heq' => heq'.trans heq
  owns := fun x hx hown =>
    h₁.owns x hx (h₂.owns x (Nat.lt_of_lt_of_le hx h₁.heap.next_le) hown)
  settled := h₂.settled
  current := by
    rcases h₂.current with heq | ⟨c, hc, hle⟩
    · rw [heq]
      exact h₁.current
    · exact Or.inr ⟨c, hc, Nat.le_trans h₁.heap.next_le hle⟩
  replaced := fun c hc => by
    rcases h₁.replaced c hc with hc' | hfreed
    · exact h₂.replaced c hc'
    · exact Or.inr (h₂.heap.freed c hfreed)
  stuck := fun c hc hfreed => h₂.stuck c (h₁.stuck c hc hfreed) (h₁.heap.freed c hfreed)

/-- A call may be said to touch more. -/
theorem Frame.mono (h : Frame Q s s') (hsub : ∀ x < s.heap.next, Q x → P x ∨ Owns s x) :
    Frame P s s' :=
  { h with heap := h.heap.mono fun x hx hQ => hQ.elim (hsub x hx) Or.inr }

/-- A bad pointer stays bad. -/
theorem Frame.owned_back (h : Frame P s s') (hs : Settled s) (howned : Owned s') : Owned s :=
  hs.owned fun a ha hfreed =>
    (howned a (h.stuck a ha hfreed)).not_freed (h.heap.freed a hfreed)

/-- A change of a client touches that client only. -/
theorem Updates.frame (h : Updates a s s') (hs : Settled s) : Frame (fun x => x = a) s s' :=
  .of_pclient_eq h.pclient
    ⟨Nat.le_of_eq h.next.symm, fun x _ hx => h.others x (fun heq => hx (Or.inl heq)),
      fun _ => h.freed.mpr⟩
    (fun x _ => Or.inr (h.layout x)) (fun _ _ => h.owns) (h.settled hs)

/-! ## Allocation -/

/-- What is owned by a global that did not change was owned before. -/
theorem owns_of_untouched (hs : Settled s) (hp : s'.pclient = s.pclient)
    (hcells : ∀ x < s.heap.next, s'.heap.cells x = s.heap.cells x) (hown : Owns s' x) :
    Owns s x := by
  obtain ⟨a, ha, hx⟩ := hown
  rw [hp] at ha
  rw [hcells a (Owns.lt_next hs ⟨a, ha, Or.inl rfl⟩)] at hx
  exact ⟨a, ha, hx⟩

/-- A step that touches no object that was there. -/
theorem Frame.of_untouched (hs : Settled s) (hp : s'.pclient = s.pclient)
    (hheap : Within (fun _ => False) s.heap s'.heap) : Frame P s s' := by
  have hcells : ∀ x < s.heap.next, s'.heap.cells x = s.heap.cells x :=
    fun x hx => hheap.kept x hx (fun h => h)
  refine .of_pclient_eq hp (hheap.mono fun _ _ h => h.elim)
    (fun x hx => Or.inr (by rw [layout, hcells x hx, layout]))
    (fun _ _ => owns_of_untouched hs hp hcells) fun a ha => ?_
  · rcases hs a (hp ▸ ha) with hfreed | ⟨k, hk, hsend, hread, hne⟩
    · exact Or.inl (hheap.freed a hfreed)
    · refine Or.inr ⟨k, ?_, ?_, ?_, hne⟩
      · rw [hcells _ (Heap.lt_next hk), hk]
      · rw [hcells _ (Heap.lt_next hsend), hsend]
      · rw [hcells _ (Heap.lt_next hread), hread]

/-- `HAL_Malloc` touches no object that was there. -/
theorem malloc_frame {o : Object} (hs : Settled s) : Frame P s (s.malloc o).2 :=
  .of_untouched hs rfl within_alloc

theorem malloc_owns {o : Object} (hs : Settled s) (hown : Owns (s.malloc o).2 x) : Owns s x :=
  have hp : (s.malloc o).2.pclient = s.pclient := rfl
  owns_of_untouched hs hp (fun _ => Heap.alloc_of_lt) hown

/-- An address that the connection does not own, or its client, or anything at all
once the client is gone. -/
def Freeable (s : Comm) (x : Nat) : Prop :=
  s.pclient = some x ∨ ¬Owns s x ∨ ∃ c, s.pclient = some c ∧ s.heap.Freed c

/-- `HAL_Free` touches the object it frees only. -/
theorem free_frame (hs : Settled s) (hfree : s.free x = .ok s') (hx : Freeable s x) :
    Frame (fun y => y = x) s s' := by
  obtain ⟨hlt, hne, rfl⟩ := free_eq_ok.mp hfree
  have hothers : ∀ y, y ≠ x → (s.heap.set x hlt none).cells y = s.heap.cells y :=
    fun y hy => Function.update_of_ne hy ..
  have hself : (s.heap.set x hlt none).cells x = none := Function.update_self ..
  have hwithin : Within (fun y => y = x) s.heap (s.heap.set x hlt none) := within_set hne
  refine .of_pclient_eq rfl (hwithin.mono fun _ _ => Or.inl) (fun y _ => ?_) (fun y _ hown => ?_)
    fun c hc => ?_
  · rcases eq_or_ne y x with rfl | hy
    · exact Or.inl hself
    · exact Or.inr (by rw [layout, hothers y hy, layout])
  · obtain ⟨c, hc, hy⟩ := hown
    refine ⟨c, hc, hy.imp_right fun ⟨k, hk, hy⟩ => ⟨k, ?_, hy⟩⟩
    rcases eq_or_ne c x with rfl | hcx
    · rw [hself] at hk
      cases hk
    · rwa [hothers c hcx] at hk
  · rcases hs c hc with hfreed | hlive
    · exact Or.inl (hwithin.freed c hfreed)
    · rcases eq_or_ne c x with rfl | hcx
      · exact Or.inl ⟨hlt, hself⟩
      · rcases hx with hx | hx | ⟨c', hc', hfreed⟩
        · rw [hx] at hc
          exact absurd (Option.some.inj hc).symm hcx
        · obtain ⟨k, hk, hsend, hread, hdistinct⟩ := hlive
          refine Or.inr ⟨k, (hothers c hcx).trans hk, ?_, ?_, hdistinct⟩
          · rw [hothers _ fun heq => hx ⟨c, hc, Or.inr ⟨k, hk, Or.inl heq.symm⟩⟩, hsend]
          · rw [hothers _ fun heq => hx ⟨c, hc, Or.inr ⟨k, hk, Or.inr heq.symm⟩⟩, hread]
        · rw [hc'] at hc
          cases hc
          exact absurd hfreed hlive.not_freed

/-! ## Packets -/

/-- A client that can be shut down: while it is connected its send buffer is there. -/
def Usable (s : Comm) (a : Nat) : Prop :=
  ∃ k, s.heap.cells a = some (.client k) ∧
    (k.clientState = .connected → s.heap.cells k.bufSend = some .buffer)

/-- A live client can be used. -/
theorem LiveClient.usable (h : LiveClient s.heap a) : Usable s a := by
  obtain ⟨k, hk, hsend, _⟩ := h
  exact ⟨k, hk, fun _ => hsend⟩

/-- The state of a client that is there can be set. -/
theorem setClientState_ok (st : McState) (hk : s.heap.cells a = some (.client k)) :
    ∃ s', iotxMcSetClientState s a st = .ok s' :=
  ⟨_, setClientState_eq_ok.mpr ⟨k, Heap.lt_next hk, hk, rfl⟩⟩

theorem setClientState_cells (h : iotxMcSetClientState s a st = .ok s') :
    ∃ k, s.heap.cells a = some (.client k) ∧
      s'.heap.cells a = some (.client { k with clientState := st }) := by
  obtain ⟨k, hlt, hk, rfl⟩ := setClientState_eq_ok.mp h
  exact ⟨k, hk, Function.update_self ..⟩

/-- `MQTTDisconnect` needs the client and its send buffer. -/
theorem mqttDisconnect_eq_ok {u : Unit} :
    mqttDisconnect s a = .ok u ↔
      ∃ k, s.heap.cells a = some (.client k) ∧ s.heap.cells k.bufSend = some .buffer := by
  rw [mqttDisconnect, bind_eq_ok]
  exact exists_congr fun k => and_congr client_eq_ok buffer_eq_ok

/-- `iotx_mc_disconnect` changes its client only. -/
theorem disconnect_updates (h : iotxMcDisconnect s a = .ok s') : Updates a s s' := by
  obtain ⟨_, _, h⟩ := bind_eq_ok.mp h
  obtain ⟨_, _, h⟩ := bind_eq_ok.mp h
  exact setClientState_updates h

/-- A client can be disconnected exactly when it is usable. -/
theorem disconnect_ok_iff : (∃ s', iotxMcDisconnect s a = .ok s') ↔ Usable s a := by
  constructor
  · rintro ⟨s', h⟩
    obtain ⟨normal, hnormal, h⟩ := bind_eq_ok.mp h
    obtain ⟨k, hk, rfl⟩ := checkStateNormal_eq_ok.mp hnormal
    obtain ⟨_, hsent, _⟩ := bind_eq_ok.mp h
    refine ⟨k, hk, fun hstate => ?_⟩
    rw [if_pos (decide_eq_true hstate)] at hsent
    obtain ⟨k', hk', hbuf⟩ := mqttDisconnect_eq_ok.mp hsent
    rw [hk] at hk'
    cases hk'
    exact hbuf
  · rintro ⟨k, hk, hbuf⟩
    obtain ⟨s', hset⟩ := setClientState_ok .initialized hk
    refine ⟨s', bind_eq_ok.mpr ⟨_, checkStateNormal_eq_ok.mpr ⟨k, hk, rfl⟩,
      bind_eq_ok.mpr ⟨(), ?_, hset⟩⟩⟩
    split
    · next hstate => exact mqttDisconnect_eq_ok.mpr ⟨k, hk, hbuf (of_decide_eq_true hstate)⟩
    · rfl

/-- What sending one packet does to a client that has its buffer. -/
theorem sendPacket_cases {o : Sending} {rc : Bool} (h : sendPacket s a o = .ok (rc, s')) :
    s' = s ∨ iotxMcSetClientState s a .disconnected = .ok s' := by
  obtain ⟨normal, _, h⟩ := bind_eq_ok.mp h
  split at h
  · obtain ⟨k, _, h⟩ := bind_eq_ok.mp h
    cases o with
    | rejected => cases h; exact Or.inl rfl
    | packetError =>
        obtain ⟨_, _, h⟩ := bind_eq_ok.mp h
        cases h
        exact Or.inl rfl
    | networkError =>
        obtain ⟨_, _, h⟩ := bind_eq_ok.mp h
        obtain ⟨t, ht, h⟩ := bind_eq_ok.mp h
        cases h
        exact Or.inr ht
    | sent =>
        obtain ⟨_, _, h⟩ := bind_eq_ok.mp h
        cases h
        exact Or.inl rfl
  · cases h
    exact Or.inl rfl

/-- A send changes its client only, whatever becomes of it. -/
theorem sendPacket_updates {o : Sending} {rc : Bool} (h : sendPacket s a o = .ok (rc, s')) :
    Updates a s s' := by
  rcases sendPacket_cases h with rfl | h
  · exact .refl
  · exact setClientState_updates h

/-- On a connected client with its buffer the outcome decides. -/
theorem sendPacket_connected {o : Sending} (hk : s.heap.cells a = some (.client k))
    (hstate : k.clientState = .connected) (hbuf : s.heap.cells k.bufSend = some .buffer) :
    ∃ s', sendPacket s a o = .ok (decide (o = .sent), s') ∧
      if o = .networkError then iotxMcSetClientState s a .disconnected = .ok s' else s' = s := by
  have hnormal : iotxMcCheckStateNormal s a = .ok true :=
    checkStateNormal_eq_ok.mpr ⟨k, hk, (decide_eq_true hstate).symm⟩
  have hclient := client_eq_ok.mpr hk
  have hb : s.buffer k.bufSend = .ok () := buffer_eq_ok.mpr hbuf
  obtain ⟨t, ht⟩ := setClientState_ok .disconnected hk
  cases o with
  | rejected =>
      exact ⟨s, bind_eq_ok.mpr ⟨_, hnormal, bind_eq_ok.mpr ⟨k, hclient, rfl⟩⟩, rfl⟩
  | packetError =>
      exact ⟨s, bind_eq_ok.mpr ⟨_, hnormal, bind_eq_ok.mpr ⟨k, hclient,
        bind_eq_ok.mpr ⟨_, hb, rfl⟩⟩⟩, rfl⟩
  | networkError =>
      exact ⟨t, bind_eq_ok.mpr ⟨_, hnormal, bind_eq_ok.mpr ⟨k, hclient,
        bind_eq_ok.mpr ⟨_, hb, bind_eq_ok.mpr ⟨t, ht, rfl⟩⟩⟩⟩, ht⟩
  | sent =>
      exact ⟨s, bind_eq_ok.mpr ⟨_, hnormal, bind_eq_ok.mpr ⟨k, hclient,
        bind_eq_ok.mpr ⟨_, hb, rfl⟩⟩⟩, rfl⟩

/-- A usable client can send. -/
theorem sendPacket_ok {o : Sending} (h : Usable s a) :
    ∃ rc s', sendPacket s a o = .ok (rc, s') := by
  obtain ⟨k, hk, hbuf⟩ := h
  by_cases hstate : k.clientState = .connected
  · obtain ⟨s', hs', _⟩ := sendPacket_connected (o := o) hk hstate (hbuf hstate)
    exact ⟨_, s', hs'⟩
  · exact ⟨false, s, bind_eq_ok.mpr
      ⟨false, checkStateNormal_eq_ok.mpr ⟨k, hk, (decide_eq_false hstate).symm⟩, rfl⟩⟩

theorem sendPacketIf_updates {o : Option Sending} (h : sendPacketIf s a o = .ok s') :
    Updates a s s' := by
  cases o with
  | none =>
      obtain ⟨_, _, h⟩ := bind_eq_ok.mp h
      cases h
      exact .refl
  | some o =>
      obtain ⟨⟨rc, t⟩, ht, h⟩ := bind_eq_ok.mp h
      cases h
      exact sendPacket_updates ht

theorem sendPacketIf_ok {o : Option Sending} (h : Usable s a) :
    ∃ s', sendPacketIf s a o = .ok s' := by
  cases o with
  | none =>
      obtain ⟨k, hk, _⟩ := h
      exact ⟨s, bind_eq_ok.mpr ⟨k, client_eq_ok.mpr hk, rfl⟩⟩
  | some o =>
      obtain ⟨rc, t, ht⟩ := sendPacket_ok (o := o) h
      exact ⟨t, bind_eq_ok.mpr ⟨(rc, t), ht, rfl⟩⟩

/-! ## Work on the client of the connection -/

/-- A step that changes the state of the client of the connection at most. -/
def Works (s s' : Comm) : Prop := ∀ a, (∀ c, s.pclient = some c → c = a) → Updates a s s'

theorem Works.of_heap_eq (hp : s'.pclient = s.pclient) (hh : s'.heap = s.heap) : Works s s' :=
  fun _ _ => .of_heap_eq hp hh

/-- A change of the global client is work on it. -/
theorem Works.of_updates (ha : s.pclient = some a) (h : Updates a s s') : Works s s' :=
  fun _ hb => hb a ha ▸ h

/-- The address to speak of where there may be no client. -/
theorem exists_current (s : Comm) :
    ∃ a, (∀ c, s.pclient = some c → c = a) ∧
      ∀ x < s.heap.next, x = a → s.pclient = some a := by
  cases hp : s.pclient with
  | none => exact ⟨s.heap.next, nofun, fun x hx heq => absurd hx (by omega)⟩
  | some c => exact ⟨c, fun _ hc => by cases hc; rfl, fun _ _ _ => rfl⟩

theorem Works.pclient (h : Works s s') : s'.pclient = s.pclient := by
  obtain ⟨a, ha, _⟩ := exists_current s
  exact (h a ha).pclient

/-- Work on the global client composes. -/
theorem Works.trans (h₁ : Works s s') (h₂ : Works s' s'') : Works s s'' := fun a ha =>
  (h₁ a ha).trans (h₂ a fun c hc => ha c (h₁.pclient ▸ hc))

/-- Work on the global client keeps what is owned. -/
theorem Works.owned (h : Works s s') (hs : Owned s) : Owned s' := by
  obtain ⟨a, ha, _⟩ := exists_current s
  exact (h a ha).owned hs

/-- Work on the global client leaves the buffers of every client. -/
theorem Works.client (h : Works s s') (hk : s.heap.cells x = some (.client k)) :
    ∃ k', s'.heap.cells x = some (.client k') ∧
      k'.bufSend = k.bufSend ∧ k'.bufRead = k.bufRead := by
  obtain ⟨a, ha, _⟩ := exists_current s
  exact (h a ha).client hk

/-- Work on the global client touches nothing besides it. -/
theorem Works.frame (h : Works s s') (hs : Settled s) : Frame P s s' := by
  obtain ⟨a, ha, hlt⟩ := exists_current s
  exact ((h a ha).frame hs).mono fun x hx heq => Or.inr ⟨a, hlt x hx heq, Or.inl heq⟩

/-- The connection state is outside the heap. -/
theorem setConnState_works {newState : ConnState} : Works s (iotxSetConnState s newState) :=
  .of_heap_eq rfl rfl

theorem networkSetState_works {newState : NetworkState} :
    Works s (iotNetworkSetState s newState) :=
  .of_heap_eq rfl rfl

theorem networkIsConnected_works : Works s (iotNetworkIsConnected s).2 := by
  rw [iotNetworkIsConnected]
  split
  · exact setConnState_works
  · exact .of_heap_eq rfl rfl

/-- `iotx_comm_send` is work on the global client. -/
theorem commSend_works {m : Message} {rc : Bool} (h : iotxCommSend s m = .ok (rc, s')) :
    Works s s' := by
  rw [iotxCommSend] at h
  split at h
  · cases h; exact .of_heap_eq rfl rfl
  · next a ha =>
      split at h
      · cases h; exact .of_heap_eq rfl rfl
      · exact .of_updates ha (sendPacket_updates h)

/-- Where everything is owned `iotx_comm_send` returns. -/
theorem commSend_ok {m : Message} (hs : Owned s) : ∃ r, iotxCommSend s m = .ok r := by
  rw [iotxCommSend]
  split
  · exact ⟨_, rfl⟩
  · next a ha =>
      split
      · exact ⟨_, rfl⟩
      · obtain ⟨rc, t, ht⟩ := sendPacket_ok (o := m.publish) (hs a ha).usable
        exact ⟨(rc, t), ht⟩

theorem commIsconnected_ok (hs : Owned s) : ∃ r, iotxCommIsconnected s = .ok r := by
  rw [iotxCommIsconnected]
  split
  · exact ⟨_, rfl⟩
  · next a ha =>
      obtain ⟨k, hk, _⟩ := hs a ha
      exact ⟨_, checkStateNormal_eq_ok.mpr ⟨k, hk, rfl⟩⟩

/-- `IOT_Comm_SendData` is work on the global client. -/
theorem sendData_works {m : Message} (h : iotCommSendData s m = .ok s') : Works s s' := by
  rw [iotCommSendData] at h
  have hnet := networkIsConnected_works (s := s)
  rcases hup : iotNetworkIsConnected s with ⟨up, t⟩
  rw [hup] at h hnet
  dsimp only at h hnet
  split at h
  · cases h; exact hnet
  split at h
  · cases h; exact hnet
  obtain ⟨⟨rst, u⟩, hsend, h⟩ := bind_eq_ok.mp h
  cases h
  refine (hnet.trans (commSend_works hsend)).trans ?_
  split
  · exact .of_heap_eq rfl rfl
  · exact setConnState_works

theorem sendData_ok {m : Message} (hs : Owned s) : ∃ s', iotCommSendData s m = .ok s' := by
  rw [iotCommSendData]
  have hnet := networkIsConnected_works (s := s)
  rcases hup : iotNetworkIsConnected s with ⟨up, t⟩
  rw [hup] at hnet
  dsimp only at hnet ⊢
  split
  · exact ⟨t, rfl⟩
  split
  · exact ⟨t, rfl⟩
  obtain ⟨r, hsend⟩ := commSend_ok (m := m) (hnet.owned hs)
  exact ⟨_, bind_eq_ok.mpr ⟨_, hsend, rfl⟩⟩

theorem sendDataIf_works {m : Option Message} (h : iotCommSendDataIf s m = .ok s') :
    Works s s' := by
  cases m with
  | none => cases h; exact .of_heap_eq rfl rfl
  | some m => exact sendData_works h

theorem sendDataIf_ok {m : Option Message} (hs : Owned s) :
    ∃ s', iotCommSendDataIf s m = .ok s' := by
  cases m with
  | none => exact ⟨s, rfl⟩
  | some m => exact sendData_ok hs

/-- `IOT_Comm_IsConnected` is work on the global client. -/
theorem isConnected_works {up : Bool} (h : iotCommIsConnected s = .ok (up, s')) :
    Works s s' := by
  rw [iotCommIsConnected] at h
  have hnet := networkIsConnected_works (s := s)
  rcases hup : iotNetworkIsConnected s with ⟨up, t⟩
  rw [hup] at h hnet
  dsimp only at h hnet
  split at h
  · cases h; exact hnet
  split at h
  · cases h; exact hnet
  obtain ⟨rst, _, h⟩ := bind_eq_ok.mp h
  cases h
  exact hnet.trans setConnState_works

theorem isConnected_ok (hs : Owned s) : ∃ r, iotCommIsConnected s = .ok r := by
  rw [iotCommIsConnected]
  have hnet := networkIsConnected_works (s := s)
  rcases hup : iotNetworkIsConnected s with ⟨up, t⟩
  rw [hup] at hnet
  dsimp only at hnet ⊢
  split
  · exact ⟨_, rfl⟩
  split
  · exact ⟨_, rfl⟩
  obtain ⟨rst, hrst⟩ := commIsconnected_ok (hnet.owned hs)
  exact ⟨_, bind_eq_ok.mpr ⟨rst, hrst, rfl⟩⟩

end IotKit.CommIf
