import IotKit.Coap.Response

/-!
# Message ids

`CoAPMessageId_gen` counts from 1 up to 65534 and returns 1 from then on: it does not set
the counter back.  The ids of a run differ exactly as long as no more than 65534 requests
are sent.
-/

namespace IotKit.Coap

open CMemory Runs

/-- The last id of the counter. -/
def coapLastMessageId : Nat := 65534

/-- The id of the `i`-th request. -/
def messageIdOf (i : Nat) : Nat := if i < coapLastMessageId then i + 1 else 1

/-- Fewer than 65535 sends lie between the two. -/
def Near (i j : Nat) : Prop := i - j < 65535 ∧ j - i < 65535

/-- What the ids are for: requests near each other have different ones, none is 0, and an ACK
marks the request that it is for. -/
structure DistinctIds (m : Machine) : Prop where
  generated : ∀ i j r r', Near i j → i ≠ j → m.requests[i]? = some r →
    m.requests[j]? = some r' → r.msgid ≠ r'.msgid
  nonzero : ∀ r ∈ m.requests, r.msgid ≠ 0
  listed : ∀ k ∈ m.keys, ∀ k' ∈ m.keys, Near k.id k'.id → k.id ≠ k'.id → k.msgid ≠ k'.msgid
  acked : ∀ i r, m.requests[i]? = some r → (∀ k ∈ m.keys, Near k.id i) →
    ∀ message : Received, message.header.msgid = r.msgid →
      (coapAckMessageHandle m.context message).sendlist = m.context.sendlist.map fun node =>
        if node.id = i then { node with acked := true } else node

/-! ## The counter -/

/-- The counter after `n` requests. -/
def counterAfter (n : Nat) : Nat := min (n + 1) coapMaxMessageId

theorem coapMessageIdGen_counter {context : Context} {n : Nat}
    (h : context.messageId = counterAfter n) :
    (coapMessageIdGen context).1 = messageIdOf n ∧
      (coapMessageIdGen context).2.messageId = counterAfter (n + 1) := by
  have hmax : coapMaxMessageId = 65535 := rfl
  have hlast : coapLastMessageId = 65534 := rfl
  rw [counterAfter] at h
  rw [coapMessageIdGen, messageIdOf, counterAfter]
  split
  next heq =>
    rw [if_neg (by omega)]
    exact ⟨rfl, by dsimp only; omega⟩
  next hne =>
    rw [if_pos (by omega)]
    exact ⟨by dsimp only; omega, by dsimp only; omega⟩

/-- The counter and the ids that it gave. -/
structure Counted (m : Machine) : Prop where
  counter : m.context.messageId = counterAfter m.requests.length
  msgid : ∀ i r, m.requests[i]? = some r → r.msgid = messageIdOf i

theorem Counted.initial : Counted .initial := ⟨rfl, nofun⟩

variable {m m' : Machine}

theorem Counted.sent (h : Counted m) {observe : Bool} {p : IotxMessage} {client : CoapClient}
    (hclient : client.context.messageId = (coapMessageIdGen m.context).2.messageId) :
    Counted { m with client, requests := m.requests ++ [requestOf m.client observe p] } := by
  obtain ⟨hid, hcounter⟩ := coapMessageIdGen_counter h.counter
  constructor
  · rw [List.length_append]
    exact hclient.trans hcounter
  · intro i r hr
    cases getElem?_concat_cases hr with
    | inl hold => exact h.msgid i r hold
    | inr hnew =>
        rw [hnew.1, hnew.2]
        exact hid

theorem Counted.removed (h : Counted m) {context : Context} {id : Nat}
    (hcontext : coapRespMessageHandled m.context id = .ok context) :
    context.messageId = counterAfter m.requests.length := by
  obtain ⟨-, -, ⟨-, -, -, hid, -⟩ | ⟨-, rfl⟩⟩ := coapRespMessageHandled_eq_ok hcontext
  · exact hid.trans h.counter
  · exact h.counter

theorem Counted.step (h : Counted m) {a : Action} (hstep : Coap.step m a = .ok m') :
    Counted m' := by
  cases step_effect hstep with
  | listed => exact h.sent rfl
  | unlisted => exact h.sent rfl
  | acked => exact ⟨h.counter, h.msgid⟩
  | ignored => exact ⟨h.counter, h.msgid⟩
  | called => exact ⟨h.counter, h.msgid⟩
  | unhandled _ _ hcontext => exact ⟨h.removed hcontext, h.msgid⟩
  | returned _ hcontext => exact ⟨h.removed hcontext, h.msgid⟩
  | swept => exact ⟨h.counter, h.msgid⟩

theorem Counted.run {actions : List Action} (hrun : Runs.run Coap.step .initial actions = .ok m) :
    Counted m :=
  run_invariant (fun h _ hstep => Counted.step h hstep) .initial guarded_true hrun

/-! ## When the ids differ -/

theorem messageIdOf_inj {i j : Nat} (hi : i < coapLastMessageId) (hj : j < coapLastMessageId)
    (h : messageIdOf i = messageIdOf j) : i = j := by
  rw [messageIdOf, messageIdOf, if_pos hi, if_pos hj] at h
  exact Nat.succ.inj h

/-- An ACK marks the one node with its message id. -/
theorem markAcked_eq_map {msgid : Nat} {nodes : List SendNode}
    (hids : (nodes.map SendNode.id).Nodup) {i : Nat}
    (hmsgid : ∀ node ∈ nodes, node.msgid = msgid ↔ node.id = i) :
    markAcked msgid nodes =
      nodes.map fun node => if node.id = i then { node with acked := true } else node := by
  induction nodes with
  | nil => rfl
  | cons node nodes ih =>
      obtain ⟨hnot, hids⟩ := List.nodup_cons.mp hids
      have hnode := hmsgid node List.mem_cons_self
      rw [markAcked, List.map_cons]
      by_cases hid : node.id = i
      · rw [if_pos (hnode.mpr hid), if_pos hid]
        have hrest : nodes.map (fun node =>
            if node.id = i then { node with acked := true } else node) = nodes.map id := by
          refine List.map_congr_left fun node' hnode' => if_neg fun heq => hnot ?_
          rw [hid, ← heq]
          exact List.mem_map_of_mem hnode'
        rw [hrest, List.map_id]
      · rw [if_neg fun h => hid (hnode.mp h), if_neg hid,
          ih hids fun node' hnode' => hmsgid node' (List.mem_cons_of_mem _ hnode')]

theorem Matching.key_msgid (h : Matching m) (hc : Counted m) {k : NodeKey} (hk : k ∈ m.keys) :
    k.msgid = messageIdOf k.id := by
  obtain ⟨r, hr, hkey⟩ := h.keys k hk
  exact (congrArg NodeKey.msgid hkey).trans (hc.msgid k.id r hr)

theorem DistinctIds.of_le (h : Matching m) (hc : Counted m)
    (hle : m.requests.length ≤ coapLastMessageId) : DistinctIds m := by
  have hlt : ∀ {i r}, m.requests[i]? = some r → i < coapLastMessageId := fun hr =>
    Nat.lt_of_lt_of_le (List.getElem?_eq_some_iff.mp hr).1 hle
  have hkey : ∀ {k}, k ∈ m.keys → k.id < coapLastMessageId := fun hk =>
    Nat.lt_of_lt_of_le (h.key_lt (List.mem_map_of_mem hk)) hle
  constructor
  · intro i j r r' _ hne hr hr' heq
    rw [hc.msgid i r hr, hc.msgid j r' hr'] at heq
    exact hne (messageIdOf_inj (hlt hr) (hlt hr') heq)
  · intro r hr
    obtain ⟨i, hi⟩ := List.mem_iff_getElem?.mp hr
    rw [hc.msgid i r hi, messageIdOf, if_pos (hlt hi)]
    exact Nat.succ_ne_zero i
  · intro k hk k' hk' _ hne heq
    rw [h.key_msgid hc hk, h.key_msgid hc hk'] at heq
    exact hne (messageIdOf_inj (hkey hk) (hkey hk') heq)
  · intro i r hr _ message hmessage
    have hids : (m.context.sendlist.map SendNode.id).Nodup := by
      have hids := h.ids
      rw [Machine.keys, Context.keys, List.map_map] at hids
      exact hids
    refine markAcked_eq_map hids fun node hnode => ?_
    have hk : node.key ∈ m.keys := List.mem_map_of_mem hnode
    have hnodeid : node.msgid = messageIdOf node.id := h.key_msgid hc hk
    rw [hmessage, hc.msgid i r hr, hnodeid]
    exact ⟨messageIdOf_inj (hkey hk) (hlt hr), fun heq => by rw [heq]⟩

/-- The request with number 65534 has the id of the first. -/
theorem not_distinctIds (hc : Counted m) (hlt : coapLastMessageId < m.requests.length) :
    ¬DistinctIds m := by
  intro h
  have hzero : 0 < m.requests.length := Nat.lt_of_le_of_lt (Nat.zero_le _) hlt
  have hfirst := List.getElem?_eq_getElem hzero
  have hlast := List.getElem?_eq_getElem hlt
  refine h.generated 0 coapLastMessageId _ _ ?_ (by decide) hfirst hlast ?_
  · exact ⟨by decide, by decide⟩
  · rw [hc.msgid _ _ hfirst, hc.msgid _ _ hlast]
    rfl

/-- The ids are distinct all along a run exactly if it sends at most 65534 requests. -/
theorem distinctIds_iff {actions : List Action}
    (hrun : Runs.run Coap.step .initial actions = .ok m) :
    (∀ done m₀, done <+: actions → Runs.run Coap.step .initial done = .ok m₀ → DistinctIds m₀) ↔
      actions.countP Action.isSend ≤ coapLastMessageId := by
  constructor
  · intro hall
    have hlength := run_requests hrun
    refine Nat.le_of_not_lt fun hlt => ?_
    refine not_distinctIds (Counted.run hrun) ?_ (hall actions m (List.prefix_refl _) hrun)
    rw [hlength]
    exact Nat.lt_of_lt_of_le hlt (Nat.le_add_left _ _)
  · rintro hle done m₀ ⟨rest, rfl⟩ hdone
    refine .of_le (Matching.run hdone) (Counted.run hdone) ?_
    rw [run_requests hdone]
    rw [List.countP_append] at hle
    exact Nat.le_trans (Nat.le_of_eq (Nat.zero_add _)) (Nat.le_trans (Nat.le_add_right _ _) hle)

/-- A request without path, query or payload. -/
def bareRequest : Action :=
  .send false ⟨none, none, none, 1, false, none⟩ true ⟨true, true⟩

theorem distinctIds_iff_three : ∃ m,
    Runs.run Coap.step .initial [bareRequest, bareRequest, bareRequest] = .ok m ∧
      m.requests.length = 3 ∧ DistinctIds m := by
  have hrun : (fun m : Machine => m.requests.length) <$>
      Runs.run Coap.step .initial [bareRequest, bareRequest, bareRequest] = .ok 3 := by decide
  obtain ⟨m, hm, hthree⟩ := map_eq_ok.mp hrun
  have hids := (distinctIds_iff hm).mpr (by decide)
  exact ⟨m, hm, hthree, hids _ m (List.prefix_refl _) hm⟩

theorem step_bareRequest (m : Machine) : ∃ m', Coap.step m bareRequest = .ok m' := by
  have hok : (Coap.step m bareRequest).isOk = true := by
    rw [bareRequest, Coap.step, sendRequest, clientSend, clientMessage]
    generalize coapMessageIdGen m.client.context = generated
    obtain ⟨msgid, context⟩ := generated
    with_unfolding_all rfl
  cases hstep : Coap.step m bareRequest with
  | ok m' => exact ⟨m', rfl⟩
  | error e =>
      rw [hstep] at hok
      cases hok

theorem run_bareRequests (n : Nat) (m : Machine) :
    ∃ m', Runs.run Coap.step m (List.replicate n bareRequest) = .ok m' := by
  induction n generalizing m with
  | zero => exact ⟨m, rfl⟩
  | succ n ih =>
      obtain ⟨m₁, hstep⟩ := step_bareRequest m
      obtain ⟨m', hrun⟩ := ih m₁
      exact ⟨m', run_cons.mpr ⟨m₁, hstep, hrun⟩⟩

/-- After 65535 requests two have the id 1. -/
theorem not_distinctIds_bareRequests :
    ∃ m, Runs.run Coap.step .initial (List.replicate 65535 bareRequest) = .ok m ∧
      ¬DistinctIds m := by
  obtain ⟨m, hrun⟩ := run_bareRequests 65535 .initial
  refine ⟨m, hrun, not_distinctIds (Counted.run hrun) ?_⟩
  rw [run_requests hrun, List.countP_replicate]
  decide

end IotKit.Coap
