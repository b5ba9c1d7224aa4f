import IotKit.Coap.Exchange

/-!
# Responses and their requests

The tokens of the nodes in the send list differ as long as fewer than 2^32 requests have
been sent, so that a response finds the request it is for.  The node of a request that does not
observe is removed when its handler has returned, so that the request is answered once unless
its handler is entered again before that.
-/

namespace IotKit.Coap

open CMemory Runs

/-! ## Tokens -/

theorem tokenBytes_inj {v w : Nat} (hv : v < 2 ^ 32) (hw : w < 2 ^ 32)
    (h : tokenBytes v = tokenBytes w) : v = w := by
  simp only [tokenBytes, List.cons.injEq, ← UInt8.toNat_inj, UInt8.toNat_ofNat', and_true] at h
  obtain ⟨h0, h1, h2, h3⟩ := h
  omega

/-- The token of the `i`-th request. -/
def tokenOf (i : Nat) : Bytes := tokenBytes ((iotxCoapInitToken + i) % 2 ^ 32)

theorem tokenOf_inj {i j : Nat} (hi : i < 2 ^ 32) (hj : j < 2 ^ 32)
    (h : tokenOf i = tokenOf j) : i = j := by
  have heq := tokenBytes_inj (Nat.mod_lt _ (by decide)) (Nat.mod_lt _ (by decide)) h
  have hinit : iotxCoapInitToken < 2 ^ 32 := by decide
  omega

/-! ## The invariant -/

/-- The state agrees with the record of the requests. -/
structure Matching (m : Machine) : Prop where
  token : m.client.coapToken = (iotxCoapInitToken + m.requests.length) % 2 ^ 32
  sends : m.client.sends = m.requests.length
  requests : ∀ i r, m.requests[i]? = some r → r.token = tokenOf i
  keys : ∀ k ∈ m.keys, ∃ r, m.requests[k.id]? = some r ∧ k = r.key k.id
  ids : (m.keys.map NodeKey.id).Nodup
  frames : ∀ f ∈ m.frames, (∃ r, m.requests[f.id]? = some r ∧ f.observe = r.observe) ∧
    ∃ c ∈ m.calls, c.request = f.id
  calls : ∀ c ∈ m.calls, c.datagram < m.received ∧
    ∃ r, m.requests[c.request]? = some r ∧ r.token = c.token ∧ r.handler = some c.handler
  datagrams : (m.calls.map Call.datagram).Nodup

theorem Matching.initial : Matching .initial :=
  { token := by decide
    sends := rfl
    requests := nofun
    keys := nofun
    ids := .nil
    frames := nofun
    calls := nofun
    datagrams := .nil }

variable {m m' : Machine}

theorem Matching.key_lt (h : Matching m) {i : Nat} (hi : i ∈ m.keys.map NodeKey.id) :
    i < m.requests.length := by
  obtain ⟨k, hk, rfl⟩ := List.mem_map.mp hi
  obtain ⟨r, hr, -⟩ := h.keys k hk
  exact (List.getElem?_eq_some_iff.mp hr).1

theorem Matching.call_lt (h : Matching m) {c : Call} (hc : c ∈ m.calls) :
    c.request < m.requests.length := by
  obtain ⟨-, r, hr, -⟩ := h.calls c hc
  exact (List.getElem?_eq_some_iff.mp hr).1

/-! ## What the steps preserve -/

/-- A list that only loses nodes, and a datagram more. -/
theorem Matching.shrink (h : Matching m) {context : Context} {received : Nat}
    (hkeys : context.keys.Sublist m.keys) (hreceived : m.received ≤ received) :
    Matching { m.setContext context with received := received } :=
  { token := h.token
    sends := h.sends
    requests := h.requests
    keys := fun k hk => h.keys k (hkeys.subset hk)
    ids := h.ids.sublist (hkeys.map NodeKey.id)
    frames := h.frames
    calls := fun c hc => ⟨Nat.lt_of_lt_of_le (h.calls c hc).1 hreceived, (h.calls c hc).2⟩
    datagrams := h.datagrams }

theorem getElem?_concat_cases {α : Type} {l : List α} {a b : α} {i : Nat}
    (h : (l ++ [a])[i]? = some b) : l[i]? = some b ∨ i = l.length ∧ b = a := by
  by_cases hi : i < l.length
  · rw [List.getElem?_append_left hi] at h
    exact Or.inl h
  · rw [List.getElem?_append_right (Nat.le_of_not_lt hi), List.getElem?_singleton] at h
    split at h
    · exact Or.inr ⟨by omega, (Option.some.inj h).symm⟩
    · cases h

theorem getElem?_concat {α : Type} {l : List α} {a b : α} {i : Nat} (h : l[i]? = some b) :
    (l ++ [a])[i]? = some b := by
  rw [List.getElem?_append_left (List.getElem?_eq_some_iff.mp h).1, h]

/-- The keys after a request: the old ones, and its own or not. -/
theorem mem_keys_sent {old keys : List NodeKey} {new k : NodeKey}
    (h : keys = old ∨ keys = old ++ [new]) (hk : k ∈ keys) : k ∈ old ∨ k = new := by
  cases h with
  | inl heq => exact .inl (heq ▸ hk)
  | inr heq =>
      rw [heq, List.mem_append, List.mem_singleton] at hk
      exact hk

theorem nodup_keys_sent {old keys : List NodeKey} {new : NodeKey}
    (h : keys = old ∨ keys = old ++ [new]) (hold : (old.map NodeKey.id).Nodup)
    (hfresh : new.id ∉ old.map NodeKey.id) : (keys.map NodeKey.id).Nodup := by
  cases h with
  | inl heq => rwa [heq]
  | inr heq =>
      rw [heq, List.map_append, List.map_singleton]
      refine List.nodup_append.mpr ⟨hold, List.pairwise_singleton _ _, fun a ha b hb heq => ?_⟩
      rw [heq, List.mem_singleton.mp hb] at ha
      exact hfresh ha

/-- A request is sent, and its node is listed or not. -/
theorem Matching.sent (h : Matching m) {r : Request} {client : CoapClient}
    (htoken : r.token = tokenBytes m.client.coapToken)
    (hcoapToken : client.coapToken = (m.client.coapToken + 1) % 2 ^ 32)
    (hsends : client.sends = m.client.sends + 1)
    (hkeys : client.context.keys = m.keys ∨
      client.context.keys = m.keys ++ [r.key m.client.sends]) :
    Matching { m with client := client, requests := m.requests ++ [r] } := by
  have hlen : (m.requests ++ [r]).length = m.requests.length + 1 := List.length_append
  have hfresh : m.requests.length ∉ m.keys.map NodeKey.id := fun hmem =>
    Nat.lt_irrefl _ (h.key_lt hmem)
  refine
    { token := ?_
      sends := by rw [hlen, ← h.sends]; exact hsends
      requests := fun i r' hr' => ?_
      keys := fun k hk => ?_
      ids := ?_
      frames := fun f hf => ?_
      calls := fun c hc => ?_
      datagrams := h.datagrams }
  · rw [hlen]
    dsimp only
    rw [hcoapToken, h.token]
    omega
  · cases getElem?_concat_cases hr' with
    | inl hold => exact h.requests i r' hold
    | inr hnew => rw [hnew.1, hnew.2, htoken, h.token, tokenOf]
  · cases mem_keys_sent hkeys hk with
    | inl hold =>
        obtain ⟨r', hr', heq⟩ := h.keys k hold
        exact ⟨r', getElem?_concat hr', heq⟩
    | inr hnew =>
        refine ⟨r, ?_, by rw [hnew]; rfl⟩
        rw [hnew, Request.key, h.sends]
        simp
  · exact nodup_keys_sent hkeys h.ids (h.sends ▸ hfresh)
  · obtain ⟨⟨r', hr', heq⟩, hcall⟩ := h.frames f hf
    exact ⟨⟨r', getElem?_concat hr', heq⟩, hcall⟩
  · obtain ⟨hlt, r', hr', heq⟩ := h.calls c hc
    exact ⟨hlt, r', getElem?_concat hr', heq⟩

/-- The node of a request in the list. -/
theorem Matching.node (h : Matching m) {node : SendNode} (hmem : node ∈ m.context.sendlist) :
    ∃ r, m.requests[node.id]? = some r ∧ node.key = r.key node.id ∧
      (r.observe = false ↔ node.observer = coapDeregisterObserve) := by
  obtain ⟨r, hr, heq⟩ := h.keys node.key (List.mem_map_of_mem hmem)
  have hobserver : node.observer = (r.key node.id).observer := congrArg NodeKey.observer heq
  exact ⟨r, hr, heq, hobserver ▸ r.key_observer node.id⟩

/-- A handler is called for a node of the list. -/
theorem Matching.called (h : Matching m) {node : SendNode} {handler : Nat}
    (hmem : node ∈ m.context.sendlist) (hhandler : node.handler = some handler) :
    Matching { m with
      frames := ⟨node.id, node.observer ≠ coapDeregisterObserve⟩ :: m.frames
      received := m.received + 1
      calls := ⟨m.received, node.id, handler, node.token⟩ :: m.calls } := by
  obtain ⟨r, hr, heq, hobserve⟩ := h.node hmem
  have hframe : decide (node.observer ≠ coapDeregisterObserve) = r.observe := by
    cases hr : r.observe with
    | false => exact decide_eq_false (not_not.mpr (hobserve.mp hr))
    | true =>
        refine decide_eq_true fun hdereg => ?_
        exact Bool.false_ne_true ((hobserve.mpr hdereg).symm.trans hr)
  refine
    { token := h.token
      sends := h.sends
      requests := h.requests
      keys := h.keys
      ids := h.ids
      frames := fun f hf => ?_
      calls := fun c hc => ?_
      datagrams := ?_ }
  · cases hf with
    | head => exact ⟨⟨r, hr, hframe⟩, _, List.mem_cons_self, rfl⟩
    | tail _ hf =>
        obtain ⟨hrequest, c, hc, hid⟩ := h.frames f hf
        exact ⟨hrequest, c, List.mem_cons_of_mem _ hc, hid⟩
  · cases hc with
    | head =>
        exact ⟨Nat.lt_succ_self _, r, hr, (congrArg NodeKey.token heq).symm,
          (congrArg NodeKey.handler heq).symm.trans hhandler⟩
    | tail _ hc =>
        exact ⟨Nat.lt_succ_of_lt (h.calls c hc).1, (h.calls c hc).2⟩
  · refine List.nodup_cons.mpr ⟨fun hmem' => ?_, h.datagrams⟩
    obtain ⟨c, hc, hdatagram⟩ := List.mem_map.mp hmem'
    exact absurd (h.calls c hc).1 (Nat.not_lt.mpr (Nat.le_of_eq hdatagram.symm))

/-- The handler on top returns. -/
theorem Matching.returned (h : Matching m) {frame : Frame} {frames : List Frame}
    {context : Context} (hframes : m.frames = frame :: frames)
    (hcontext : coapRespMessageHandled m.context frame.id = .ok context) :
    Matching { m.setContext context with frames := frames } :=
  { h.shrink (coapRespMessageHandled_sublist hcontext) (Nat.le_refl m.received) with
    frames := fun f hf => h.frames f (by rw [hframes]; exact List.mem_cons_of_mem _ hf) }

theorem Matching.step (h : Matching m) {a : Action} (hstep : step m a = .ok m') :
    Matching m' := by
  cases step_effect hstep with
  | listed _ hkey =>
      refine h.sent rfl rfl rfl (Or.inr ?_)
      rw [← hkey, Machine.keys, Context.keys, Context.keys, Context.listed, List.map_append]
      exact congrArg (· ++ _) (coapMessageIdGen_keys m.context)
  | unlisted => exact h.sent rfl rfl rfl (Or.inl (coapMessageIdGen_keys m.context))
  | @acked message =>
      refine h.shrink ?_ (Nat.le_succ _)
      rw [Context.keys, coapAckMessageHandle, markAcked_key]
      exact List.Sublist.refl _
  | ignored => exact h.shrink (List.Sublist.refl _) (Nat.le_succ _)
  | called _ hfind hhandler => exact h.called (List.mem_of_find?_eq_some hfind) hhandler
  | unhandled _ _ hcontext =>
      exact h.shrink (coapRespMessageHandled_sublist hcontext) (Nat.le_succ _)
  | returned hframes hcontext => exact h.returned hframes hcontext
  | swept => exact h.shrink (sweepLoop_sublist _) (Nat.le_refl _)

theorem Matching.run {actions : List Action} (hrun : Runs.run Coap.step .initial actions = .ok m) :
    Matching m :=
  run_invariant (fun h _ hstep => Matching.step h hstep) .initial guarded_true hrun

/-! ## Handlers at work -/

theorem notMem_eraseP_id {keys : List NodeKey} (hids : (keys.map NodeKey.id).Nodup) (id : Nat) :
    id ∉ (keys.eraseP (·.id = id)).map NodeKey.id := by
  have hmap : (keys.eraseP (·.id = id)).map NodeKey.id = (keys.map NodeKey.id).erase id := by
    rw [List.erase_eq_eraseP, List.eraseP_map]
    congr 2
    funext k
    rw [Function.comp_apply, beq_eq_decide, decide_eq_decide]
    exact eq_comm
  rw [hmap]
  exact hids.not_mem_erase

/-- Where the names differ, that of the node that is removed is gone. -/
theorem notMem_eraseP_find {p : SendNode → Bool} {nodes : List SendNode} {node : SendNode}
    (hids : (nodes.map SendNode.id).Nodup) (hfind : nodes.find? p = some node) :
    node.id ∉ (nodes.eraseP p).map SendNode.id := by
  induction nodes with
  | nil => cases hfind
  | cons head nodes ih =>
      rw [List.map_cons, List.nodup_cons] at hids
      by_cases hp : p head = true
      · rw [List.find?_cons_of_pos hp] at hfind
        obtain rfl := Option.some.inj hfind
        rw [List.eraseP_cons_of_pos hp]
        exact hids.1
      · rw [List.find?_cons_of_neg hp] at hfind
        rw [List.eraseP_cons_of_neg hp, List.map_cons, List.mem_cons, not_or]
        refine ⟨fun heq => hids.1 ?_, ih hids.2 hfind⟩
        rw [← heq]
        exact List.mem_map_of_mem (List.mem_of_find?_eq_some hfind)

theorem mem_ids_handled {context context' : Context} {id i : Nat}
    (h : coapRespMessageHandled context id = .ok context') (hne : i ≠ id)
    (hi : i ∈ context.keys.map NodeKey.id) : i ∈ context'.keys.map NodeKey.id := by
  obtain ⟨k, hfind, ⟨-, heq, -⟩ | ⟨-, rfl⟩⟩ := coapRespMessageHandled_eq_ok h
  · obtain ⟨k', hk', rfl⟩ := List.mem_map.mp hi
    rw [heq]
    refine List.mem_map_of_mem (mem_eraseP_of_ne hfind hk' fun hsame => hne ?_)
    rw [hsame]
    simpa using List.find?_some hfind
  · exact hi

/-- The loop of a cycle removes the first node that is at its end. -/
theorem sweepLoop_ids (nodes : List SendNode) :
    (sweepLoop nodes).1.map SendNode.id =
      (nodes.eraseP fun node => (sweepNode node).2).map SendNode.id := by
  induction nodes with
  | nil => rfl
  | cons node nodes ih =>
      have hkey := sweepNode_key node
      rw [sweepLoop]
      split
      next hnode => rw [List.eraseP_cons_of_pos (by rw [hnode])]
      next node' hnode =>
        rw [hnode] at hkey
        rw [List.eraseP_cons_of_neg (by rw [hnode]; exact Bool.false_ne_true), List.map_cons,
          List.map_cons, ← ih]
        exact congrArg (· :: _) (congrArg NodeKey.id hkey)

theorem keys_ids (context : Context) :
    context.keys.map NodeKey.id = context.sendlist.map SendNode.id := by
  rw [Context.keys, List.map_map]
  rfl

/-- A response comes for a request that does not observe while its handler is at work, or the
cycle removes a node whose handler is at work. -/
def Reenters (m : Machine) : Action → Prop
  | .receive message _ => coapRespMsg message.header = true ∧
      ∃ node, m.context.sendlist.find? (tokenMatches message) = some node ∧
        node.observer = coapDeregisterObserve ∧ node.id ∈ m.frames.map Frame.id
  | .cycle => ∃ node, m.context.sendlist.find? (fun node => (sweepNode node).2) = some node ∧
      node.id ∈ m.frames.map Frame.id
  | _ => False

instance (m : Machine) : (a : Action) → Decidable (Reenters m a)
  | .receive message _ =>
      inferInstanceAs (Decidable (_ ∧ ∃ node ∈ m.context.sendlist.find? (tokenMatches message),
        node.observer = _ ∧ node.id ∈ _))
  | .cycle =>
      inferInstanceAs (Decidable (∃ node ∈ m.context.sendlist.find? fun node => (sweepNode node).2,
        node.id ∈ _))
  | .send .. => .isFalse id
  | .handled => .isFalse id

/-- The handler of a request that does not observe is called at most once, and no node is freed
while its handler is at work. -/
structure AnsweredOnce (m : Machine) : Prop where
  once : ∀ i r, m.requests[i]? = some r → r.observe = false →
    m.calls.countP (·.request = i) ≤ 1
  held : ∀ f ∈ m.frames, f.id ∈ m.keys.map NodeKey.id

/-- What keeps it so: a request that was answered and is still in the list has its handler at
work, and at work once. -/
structure Answering (m : Machine) : Prop extends Matching m, AnsweredOnce m where
  answered : ∀ c ∈ m.calls, ∀ r, m.requests[c.request]? = some r → r.observe = false →
    c.request ∈ m.keys.map NodeKey.id → c.request ∈ m.frames.map Frame.id
  single : ((m.frames.filter fun f => !f.observe).map Frame.id).Nodup

theorem Answering.initial : Answering .initial :=
  { Matching.initial with
    once := nofun
    held := nofun
    answered := nofun
    single := .nil }

/-- The list only loses nodes, and none whose handler is at work. -/
theorem Answering.shrink (h : Answering m) {context : Context} {received : Nat}
    (hkeys : context.keys.Sublist m.keys) (hreceived : m.received ≤ received)
    (hheld : ∀ f ∈ m.frames, f.id ∈ context.keys.map NodeKey.id) :
    Answering { m.setContext context with received := received } :=
  { h.toMatching.shrink hkeys hreceived with
    once := h.once
    held := hheld
    answered := fun c hc r hr hobserve hmem =>
      h.answered c hc r hr hobserve ((hkeys.map NodeKey.id).subset hmem)
    single := h.single }

/-- A request is sent. -/
theorem Answering.sent (h : Answering m) {r : Request} {client : CoapClient}
    (hmatching : Matching { m with client := client, requests := m.requests ++ [r] })
    (hkeys : client.context.keys = m.keys ∨
      client.context.keys = m.keys ++ [r.key m.client.sends]) :
    Answering { m with client := client, requests := m.requests ++ [r] } := by
  refine { hmatching with
    once := fun i r' hr' hobserve => ?_
    held := fun f hf => ?_
    answered := fun c hc r' hr' hobserve hmem => ?_
    single := h.single }
  · cases getElem?_concat_cases hr' with
    | inl hold => exact h.once i r' hold hobserve
    | inr hnew =>
        have hzero : m.calls.countP (·.request = i) = 0 :=
          List.countP_eq_zero.mpr fun c hc => by
            have hlt := h.call_lt hc
            simp only [decide_eq_true_eq]
            omega
        rw [hzero]
        exact Nat.zero_le 1
  · have hold := h.held f hf
    show f.id ∈ client.context.keys.map NodeKey.id
    cases hkeys with
    | inl heq => rwa [heq]
    | inr heq =>
        rw [heq, List.map_append]
        exact List.mem_append_left _ hold
  · have hlt := h.call_lt hc
    have hold : m.requests[c.request]? = some r' := by
      rwa [List.getElem?_append_left hlt] at hr'
    refine h.answered c hc r' hold hobserve ?_
    obtain ⟨k, hk, hid⟩ := List.mem_map.mp hmem
    cases mem_keys_sent hkeys hk with
    | inl hold => exact hid ▸ List.mem_map_of_mem hold
    | inr hnew =>
        have heq : c.request = m.requests.length := by
          rw [← hid, hnew, ← h.sends]
          rfl
        exact absurd heq (Nat.ne_of_lt hlt)

/-- A handler is called that is not at work, or that of a request that observes. -/
theorem Answering.called (h : Answering m) {node : SendNode} {handler : Nat}
    (hmem : node ∈ m.context.sendlist) (hhandler : node.handler = some handler)
    (hfree : node.observer = coapDeregisterObserve → node.id ∉ m.frames.map Frame.id) :
    Answering { m with
      frames := ⟨node.id, node.observer ≠ coapDeregisterObserve⟩ :: m.frames
      received := m.received + 1
      calls := ⟨m.received, node.id, handler, node.token⟩ :: m.calls } := by
  obtain ⟨r, hr, -, hobserve⟩ := h.node hmem
  have hkey : node.id ∈ m.keys.map NodeKey.id := by
    rw [Machine.keys, keys_ids]
    exact List.mem_map_of_mem hmem
  -- a request that does not observe has not been answered before
  have hnone : r.observe = false → ∀ c ∈ m.calls, c.request ≠ node.id := by
    rintro hr' c hc hid
    refine hfree (hobserve.mp hr') ?_
    rw [← hid] at hr hkey ⊢
    exact h.answered c hc r hr hr' hkey
  refine { h.toMatching.called hmem hhandler with
    once := fun i r' hr' hobserve' => ?_
    held := fun f hf => ?_
    answered := fun c hc r' hr' hobserve' hmem' => ?_
    single := ?_ }
  · dsimp only
    rw [List.countP_cons]
    by_cases hi : node.id = i
    · subst hi
      obtain rfl : r = r' := Option.some.inj (hr.symm.trans hr')
      have hzero : m.calls.countP (·.request = node.id) = 0 :=
        List.countP_eq_zero.mpr fun c hc => by
          simpa using hnone hobserve' c hc
      rw [hzero]
      split
      · exact Nat.le_refl 1
      · exact Nat.zero_le 1
    · rw [if_neg (by simpa using hi)]
      exact h.once i r' hr' hobserve'
  · cases hf with
    | head => exact hkey
    | tail _ hf => exact h.held f hf
  · cases hc with
    | head => exact List.mem_cons_self
    | tail _ hc => exact List.mem_cons_of_mem _ (h.answered c hc r' hr' hobserve' hmem')
  · dsimp only
    by_cases hdereg : node.observer = coapDeregisterObserve
    · rw [List.filter_cons_of_pos (by simpa using hdereg), List.map_cons, List.nodup_cons]
      refine ⟨fun hmem' => hfree hdereg ?_, h.single⟩
      exact (List.filter_sublist.map Frame.id).subset hmem'
    · rw [List.filter_cons_of_neg (by simpa using hdereg)]
      exact h.single

/-- The handler on top returns. -/
theorem Answering.returned (h : Answering m) {frame : Frame} {frames : List Frame}
    {context : Context} (hframes : m.frames = frame :: frames)
    (hcontext : coapRespMessageHandled m.context frame.id = .ok context) :
    Answering { m.setContext context with frames := frames } := by
  obtain ⟨k, hfind, hcases⟩ := coapRespMessageHandled_eq_ok hcontext
  have hsublist : context.keys.Sublist m.keys := coapRespMessageHandled_sublist hcontext
  have hid : k.id = frame.id := by simpa using List.find?_some hfind
  obtain ⟨r, hr, hkey⟩ := h.keys k (List.mem_of_find?_eq_some hfind)
  have hobserver : r.observe = false ↔ k.observer = coapDeregisterObserve := by
    rw [hkey]
    exact r.key_observer k.id
  rw [hid] at hr
  have hsingle := h.single
  rw [hframes] at hsingle
  refine { h.toMatching.returned hframes hcontext with
    once := h.once
    held := fun f hf => ?_
    answered := fun c hc r' hr' hobserve hmem => ?_
    single := (List.Sublist.map Frame.id ((List.sublist_cons_self frame frames).filter _)).nodup
      hsingle }
  · have hf' : f ∈ m.frames := hframes ▸ List.mem_cons_of_mem _ hf
    obtain ⟨hdereg, -, -⟩ | ⟨-, heq⟩ := hcases
    · refine mem_ids_handled hcontext (fun hsame => ?_) (h.held f hf')
      -- the request does not observe, and its handler would be at work twice
      have hquiet : ∀ g ∈ m.frames, g.id = frame.id → g.observe = false := fun g hg hgid => by
        obtain ⟨⟨r', hr', hobserve⟩, -⟩ := h.frames g hg
        rw [hgid] at hr'
        obtain rfl : r = r' := Option.some.inj (hr.symm.trans hr')
        rw [hobserve]
        exact hobserver.mpr hdereg
      have hframe := hquiet frame (hframes ▸ List.mem_cons_self) rfl
      have hother := hquiet f hf' hsame
      rw [List.filter_cons_of_pos (by rw [hframe]; rfl), List.map_cons, List.nodup_cons] at hsingle
      refine hsingle.1 (hsame ▸ List.mem_map_of_mem (List.mem_filter.mpr ⟨hf, ?_⟩))
      rw [hother]
      rfl
    · show f.id ∈ context.keys.map NodeKey.id
      rw [heq]
      exact h.held f hf'
  · have hold := h.answered c hc r' hr' hobserve ((hsublist.map NodeKey.id).subset hmem)
    rw [hframes, List.map_cons, List.mem_cons] at hold
    refine hold.resolve_left fun hsame => ?_
    rw [hsame] at hr' hmem
    obtain rfl : r = r' := Option.some.inj (hr.symm.trans hr')
    obtain ⟨-, heq, -⟩ | ⟨hnot, -⟩ := hcases
    · have hmem : frame.id ∈ context.keys.map NodeKey.id := hmem
      rw [heq] at hmem
      exact notMem_eraseP_id h.ids frame.id hmem
    · exact hnot (hobserver.mp hobserve)

/-- Actions that do not enter a handler again keep it so. -/
theorem Answering.step (h : Answering m) {a : Action} (ha : ¬Reenters m a)
    (hstep : Coap.step m a = .ok m') : Answering m' := by
  have hmatching := h.toMatching.step hstep
  cases step_effect hstep with
  | listed _ hkey =>
      refine h.sent hmatching (Or.inr ?_)
      rw [← hkey, Machine.keys, Context.keys, Context.keys, Context.listed, List.map_append]
      exact congrArg (· ++ _) (coapMessageIdGen_keys m.context)
  | unlisted => exact h.sent hmatching (Or.inl (coapMessageIdGen_keys m.context))
  | @acked message =>
      have hkeys : (coapAckMessageHandle m.context message).keys = m.keys := by
        rw [Context.keys, coapAckMessageHandle, markAcked_key]
        rfl
      refine h.shrink (hkeys ▸ List.Sublist.refl _) (Nat.le_succ _) fun f hf => ?_
      rw [hkeys]
      exact h.held f hf
  | ignored => exact h.shrink (List.Sublist.refl _) (Nat.le_succ _) h.held
  | called hresp hfind hhandler =>
      refine h.called (List.mem_of_find?_eq_some hfind) hhandler fun hdereg hwork => ?_
      exact ha ⟨hresp, _, hfind, hdereg, hwork⟩
  | @unhandled _ _ node _ hmem hnone hcontext =>
      refine h.shrink (coapRespMessageHandled_sublist hcontext) (Nat.le_succ _) fun f hf => ?_
      refine mem_ids_handled hcontext (fun hsame => ?_) (h.held f hf)
      -- a handler at work is that of a request with a handler
      obtain ⟨-, c, hc, hid⟩ := h.frames f hf
      obtain ⟨-, r, hr, -, hhandler⟩ := h.calls c hc
      obtain ⟨r', hr', hkey, -⟩ := h.node hmem
      rw [hid, hsame] at hr
      obtain rfl : r = r' := Option.some.inj (hr.symm.trans hr')
      have hsome : node.handler = r.handler := congrArg NodeKey.handler hkey
      cases hnone.symm.trans (hsome.trans hhandler)
  | returned hframes hcontext => exact h.returned hframes hcontext
  | swept =>
      refine h.shrink (sweepLoop_sublist _) (Nat.le_refl _) fun f hf => ?_
      have hf' := h.held f hf
      rw [Machine.keys, keys_ids] at hf'
      rw [keys_ids]
      show f.id ∈ (sweepLoop m.context.sendlist).1.map SendNode.id
      rw [sweepLoop_ids]
      obtain ⟨node, hnode, hid⟩ := List.mem_map.mp hf'
      rw [← hid]
      cases hfind : m.context.sendlist.find? (fun node => (sweepNode node).2) with
      | none =>
          have hstays : ∀ node ∈ m.context.sendlist, ¬(sweepNode node).2 = true :=
            fun node hnode => by simpa using List.find?_eq_none.mp hfind node hnode
          rw [List.eraseP_of_forall_not hstays]
          exact List.mem_map_of_mem hnode
      | some removed =>
          refine List.mem_map_of_mem (mem_eraseP_of_ne hfind hnode fun heq => ?_)
          refine ha ⟨removed, hfind, ?_⟩
          rw [← heq, hid]
          exact List.mem_map_of_mem hf

/-- One that does calls a handler twice, or frees the node of one. -/
theorem Answering.reentered (h : Answering m) {a : Action} (ha : Reenters m a) :
    ∃ m', Coap.step m a = .ok m' ∧ ¬AnsweredOnce m' := by
  cases a with
  | send => exact ha.elim
  | handled => exact ha.elim
  | receive message write =>
      obtain ⟨hresp, node, hfind, hdereg, hwork⟩ := ha
      obtain ⟨f, hf, hid⟩ := List.mem_map.mp hwork
      obtain ⟨-, c, hc, hcid⟩ := h.frames f hf
      obtain ⟨-, r, hr, -, hhandler⟩ := h.calls c hc
      obtain ⟨r', hr', hkey, hobserve⟩ := h.node (List.mem_of_find?_eq_some hfind)
      have hcnode : c.request = node.id := hcid.trans hid
      rw [hcnode] at hr
      obtain rfl : r = r' := Option.some.inj (hr.symm.trans hr')
      have hsome : node.handler = some c.handler := (congrArg NodeKey.handler hkey).trans hhandler
      have hack : coapAckMsg message.header = false := by
        rw [coapRespMsg, decide_eq_true_eq] at hresp
        rw [coapAckMsg, decide_eq_false_iff_not]
        intro hzero
        rw [hzero.1] at hresp
        exact absurd hresp.1 (by decide)
      have hreceive : receive m message write = .ok { m with
          frames := ⟨node.id, node.observer ≠ coapDeregisterObserve⟩ :: m.frames
          calls := ⟨m.received, node.id, c.handler, message.token⟩ :: m.calls } := by
        rw [receive, hack, hresp, coapRespMessageHandle_eq, hfind]
        simp only [ok_bind, hsome]
        rfl
      refine ⟨_, by rw [Coap.step, hreceive]; rfl, fun hanswered => ?_⟩
      have honce := hanswered.once node.id r hr (hobserve.mpr hdereg)
      have hbefore : 0 < m.calls.countP (·.request = node.id) :=
        List.countP_pos_iff.mpr ⟨c, hc, decide_eq_true hcnode⟩
      have hcount := List.countP_cons_of_pos (l := m.calls)
        (p := fun c : Call => decide (c.request = node.id))
        (a := ⟨m.received, node.id, c.handler, message.token⟩) (decide_eq_true rfl)
      rw [hcount] at honce
      omega
  | cycle =>
      obtain ⟨node, hfind, hwork⟩ := ha
      obtain ⟨f, hf, hid⟩ := List.mem_map.mp hwork
      refine ⟨_, rfl, fun hanswered => ?_⟩
      have hheld : f.id ∈ (coapMessageCycle m.context).keys.map NodeKey.id := hanswered.held f hf
      rw [keys_ids] at hheld
      have hheld : f.id ∈ (sweepLoop m.context.sendlist).1.map SendNode.id := hheld
      rw [sweepLoop_ids, hid] at hheld
      have hids := h.ids
      rw [Machine.keys, keys_ids] at hids
      exact notMem_eraseP_find hids hfind hheld

/-! ## Observe requests -/

/-- The node of an observe request stays in the list. -/
theorem observers_step {a : Action} (hstep : step m a = .ok m') {k : NodeKey} (hk : k ∈ m.keys)
    (hobserver : k.observer = coapRegisteredObserve) : k ∈ m'.keys := by
  have hgen : k ∈ (coapMessageIdGen m.context).2.keys := by
    rw [coapMessageIdGen_keys]
    exact hk
  cases step_effect hstep with
  | @listed _ _ _ _ node =>
      show k ∈ ((coapMessageIdGen m.context).2.listed node).keys
      rw [Context.keys, Context.listed, List.map_append]
      exact List.mem_append_left _ hgen
  | unlisted => exact hgen
  | @acked message =>
      show k ∈ (coapAckMessageHandle m.context message).keys
      rw [Context.keys, coapAckMessageHandle, markAcked_key]
      exact hk
  | ignored => exact hk
  | called => exact hk
  | unhandled _ _ hcontext => exact coapRespMessageHandled_observers hcontext hk hobserver
  | returned _ hcontext => exact coapRespMessageHandled_observers hcontext hk hobserver
  | swept => exact sweepLoop_observers _ hk hobserver

theorem observers_run {actions : List Action} (hrun : Runs.run Coap.step m actions = .ok m')
    {k : NodeKey} (hk : k ∈ m.keys) (hobserver : k.observer = coapRegisteredObserve) :
    k ∈ m'.keys := by
  have hstep : ∀ {s a s'}, k ∈ Machine.keys s → True → Coap.step s a = .ok s' → k ∈ s'.keys :=
    fun hk _ hstep => observers_step hstep hk hobserver
  exact run_invariant hstep hk guarded_true hrun

/-! ## The tokens of the list -/

theorem Matching.tokens (h : Matching m) (hsends : m.requests.length < 2 ^ 32) :
    (m.context.sendlist.map SendNode.token).Nodup := by
  have htokens : m.context.sendlist.map SendNode.token = m.keys.map NodeKey.token := by
    rw [Machine.keys, Context.keys, List.map_map]
    rfl
  rw [htokens]
  refine List.pairwise_map.mpr (List.Pairwise.imp_of_mem ?_ (List.pairwise_map.mp h.ids))
  intro k k' hk hk' hne heq
  obtain ⟨r, hr, hkey⟩ := h.keys k hk
  obtain ⟨r', hr', hkey'⟩ := h.keys k' hk'
  have htoken : k.token = tokenOf k.id :=
    (congrArg NodeKey.token hkey).trans (h.requests k.id r hr)
  have htoken' : k'.token = tokenOf k'.id :=
    (congrArg NodeKey.token hkey').trans (h.requests k'.id r' hr')
  exact hne (tokenOf_inj (Nat.lt_trans (h.key_lt (List.mem_map_of_mem hk)) hsends)
    (Nat.lt_trans (h.key_lt (List.mem_map_of_mem hk')) hsends)
    (htoken.symm.trans (heq.trans htoken')))

/-- No other request has the token that a handler was called with. -/
theorem Matching.call_unique (h : Matching m) (hsends : m.requests.length < 2 ^ 32) {c : Call}
    (hc : c ∈ m.calls) {i : Nat} {r : Request} (hr : m.requests[i]? = some r)
    (htoken : r.token = c.token) : i = c.request := by
  obtain ⟨-, r', hr', htoken', -⟩ := h.calls c hc
  have heq : tokenOf i = tokenOf c.request := by
    rw [← h.requests i r hr, ← h.requests c.request r' hr', htoken, htoken']
  exact tokenOf_inj (Nat.lt_trans (List.getElem?_eq_some_iff.mp hr).1 hsends)
    (Nat.lt_trans (h.call_lt hc) hsends) heq

/-- A request that observes stays registered. -/
theorem observes_run {actions : List Action} (h : Matching m)
    (hrun : Runs.run Coap.step m actions = .ok m') {k : NodeKey} (hk : k ∈ m.keys) {r : Request}
    (hr : m.requests[k.id]? = some r) (hobserve : r.observe = true) : k ∈ m'.keys := by
  refine observers_run hrun hk ?_
  obtain ⟨r', hr', hkey⟩ := h.keys k hk
  obtain rfl : r = r' := Option.some.inj (hr.symm.trans hr')
  rw [hkey, Request.key, hobserve]
  rfl

/-- What a client is owed: the tokens in the list differ, a datagram calls at most one handler,
which is that of the one request with its token, and each request that does not observe is
answered once. -/
structure Exchanged (m : Machine) : Prop extends AnsweredOnce m where
  tokens : (m.context.sendlist.map SendNode.token).Nodup
  datagrams : (m.calls.map Call.datagram).Nodup
  calls : ∀ c ∈ m.calls,
    (∃ r, m.requests[c.request]? = some r ∧ r.token = c.token ∧ r.handler = some c.handler) ∧
    ∀ i r, m.requests[i]? = some r → r.token = c.token → i = c.request

/-- All along a run of fewer than 2^32 sends the responses reach the right requests once, and the
node of a request that observes stays, if and only if no handler of a request is entered again
and no node is removed while its handler is at work. -/
theorem responses_once_iff {actions : List Action}
    (hsends : actions.countP Action.isSend < 2 ^ 32) :
    (∀ done m, done <+: actions → Runs.run Coap.step .initial done = .ok m →
      Exchanged m ∧
        ∀ before m₀, before <+: done → Runs.run Coap.step .initial before = .ok m₀ →
          ∀ k ∈ m₀.keys, ∀ r, m₀.requests[k.id]? = some r → r.observe = true → k ∈ m.keys) ↔
      Guarded Coap.step (fun m a => ¬Reenters m a) .initial actions := by
  have hiff : (∀ done m, done <+: actions → Runs.run Coap.step .initial done = .ok m →
      AnsweredOnce m) ↔ Guarded Coap.step (fun m a => ¬Reenters m a) .initial actions :=
    always_good_iff Answering.toAnsweredOnce (fun h ha hstep => h.step ha hstep)
      (fun h ha => h.reentered (not_not.mp ha)) .initial
  refine ⟨fun h => hiff.mp fun done m hprefix hrun => (h done m hprefix hrun).1.toAnsweredOnce, ?_⟩
  intro hguarded done m hprefix hrun
  have h := Matching.run hrun
  have hfew : m.requests.length < 2 ^ 32 := by
    obtain ⟨rest, rfl⟩ := hprefix
    rw [List.countP_append] at hsends
    rw [run_requests hrun]
    exact Nat.lt_of_le_of_lt (Nat.le_of_eq (Nat.zero_add _))
      (Nat.lt_of_le_of_lt (Nat.le_add_right _ _) hsends)
  refine ⟨{ hiff.mpr hguarded done m hprefix hrun with
    tokens := h.tokens hfew
    datagrams := h.datagrams
    calls := fun c hc => ⟨(h.calls c hc).2, fun i r hr htoken => ?_⟩ }, ?_⟩
  · exact h.call_unique hfew hc hr htoken
  · rintro before m₀ ⟨rest, rfl⟩ hbefore k hk r hr hobserve
    obtain ⟨m₁, hbefore', hrest⟩ := run_append.mp hrun
    rw [hbefore] at hbefore'
    cases hbefore'
    exact observes_run (Matching.run hbefore) hrest hk hr hobserve

/-- A request, an observe request, a response to each in the handler of the other one, and the
first response once more. -/
def twoRequests : List Action :=
  [.send false ⟨none, some [47, 97], none, 2, false, some 1⟩ true ⟨true, true⟩,
    .send true ⟨none, some [47, 98], none, 1, false, some 2⟩ true ⟨true, true⟩,
    .receive ⟨⟨1, 2, 4, 69, 2⟩, [5, 3, 2, 1], [], none, 0⟩ true,
    .receive ⟨⟨1, 2, 4, 69, 1⟩, [4, 3, 2, 1], [], none, 0⟩ true, .cycle, .handled, .handled,
    .receive ⟨⟨1, 2, 4, 69, 1⟩, [4, 3, 2, 1], [], none, 0⟩ true,
    .receive ⟨⟨1, 2, 4, 69, 2⟩, [5, 3, 2, 1], [], none, 0⟩ true, .handled]

theorem responses_once_iff_twoRequests :
    ∃ m, Runs.run Coap.step .initial twoRequests = .ok m ∧
      m.calls.map Call.request = [1, 0, 1] ∧ Exchanged m := by
  have hrun : (fun m : Machine => m.calls.map Call.request) <$>
      Runs.run Coap.step .initial twoRequests = .ok [1, 0, 1] := by decide
  obtain ⟨m, hm, hcalls⟩ := map_eq_ok.mp hrun
  exact ⟨m, hm, hcalls, ((responses_once_iff (by decide)).mpr (by decide) twoRequests m
    (List.prefix_refl _) hm).1⟩

/-- A request, its response, and the same response again from its handler. -/
def reentered : List Action :=
  [.send false ⟨none, some [47, 97], none, 2, false, some 1⟩ true ⟨true, true⟩,
    .receive ⟨⟨1, 2, 4, 69, 1⟩, [4, 3, 2, 1], [], none, 0⟩ true,
    .receive ⟨⟨1, 2, 4, 69, 1⟩, [4, 3, 2, 1], [], none, 0⟩ true]

/-- The handler is called twice, and the second call frees the node of the first. -/
theorem reentered_not_once :
    ∃ m, Runs.run Coap.step .initial reentered = .ok m ∧ ¬AnsweredOnce m ∧
      Runs.run Coap.step .initial (reentered ++ [.handled, .handled]) =
        .error (.fault .load) := by
  have hrun : (fun m : Machine => (m.requests, m.calls)) <$>
      Runs.run Coap.step .initial reentered =
        .ok ([⟨[4, 3, 2, 1], 1, some 1, false⟩],
          [⟨1, 0, 1, [4, 3, 2, 1]⟩, ⟨0, 0, 1, [4, 3, 2, 1]⟩]) := by decide
  obtain ⟨m, hm, heq⟩ := map_eq_ok.mp hrun
  obtain ⟨hrequests, hcalls⟩ := Prod.mk.inj heq
  refine ⟨m, hm, fun hanswered => ?_, by decide⟩
  have honce := hanswered.once 0 ⟨[4, 3, 2, 1], 1, some 1, false⟩ (by rw [hrequests]; rfl) rfl
  rw [hcalls] at honce
  exact absurd honce (by decide)

end IotKit.Coap
