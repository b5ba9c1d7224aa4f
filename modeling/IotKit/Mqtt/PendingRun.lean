import IotKit.Lib.Run
import IotKit.Mqtt.Sweep

/-!
# Runs over the pending lists

Requests, acknowledgements and sweeps in any order, with a clock that never goes back.  An
acknowledgement marks entries INVALID with the same walk.  In every state of a run the two
lists are well formed and within their bounds, no entry was started later than now, and a
publish is stored as `MQTTPublish` serialized it (`run_kept`).
-/

namespace IotKit.Mqtt.Pending

open CMemory Utils Runs

/-! ## Acknowledgements -/

/-- The body of the loop of `iotx_mc_mask_pubInfo_from`. -/
def maskPubVisit (msgId : Nat) (_ : Nat) :
    Option (Timed PubInfo) → Unit → Checked (Visit (Option (Timed PubInfo)) × Unit)
  | none, s => .ok (.keep, s)
  | some e, s =>
      if e.info.msgId = msgId then
        .ok (.update (some { e with info := { e.info with nodeState := .invalid } }), s)
      else .ok (.keep, s)

/-- `iotx_mc_mask_pubInfo_from`. -/
def iotxMcMaskPubInfoFrom (c : Client) (iterator : Bool) (msgId : Nat) : Checked Client := do
  let (listPubWaitAck, _) ← sweep (maskPubVisit msgId) c.listPubWaitAck iterator ()
  .ok { c with listPubWaitAck }

/-- The body of the loop of `iotx_mc_mask_subInfo_from`, with `*messageHandler`. -/
def maskSubVisit (msgId : Nat) (_ : Nat) :
    Option (Timed SubInfo) → TopicHandle →
      Checked (Visit (Option (Timed SubInfo)) × TopicHandle)
  | none, messageHandler => .ok (.keep, messageHandler)
  | some e, messageHandler =>
      if e.info.msgId = msgId then
        .ok (.update (some { e with info := { e.info with nodeState := .invalid } }),
          e.info.handler)
      else .ok (.keep, messageHandler)

/-- `iotx_mc_mask_subInfo_from`: `*messageHandler` and the client. -/
def iotxMcMaskSubInfoFrom (c : Client) (iterator : Bool) (msgId : Nat)
    (messageHandler : TopicHandle) : Checked (TopicHandle × Client) := do
  let (listSubWaitAck, messageHandler) ←
    sweep (maskSubVisit msgId) c.listSubWaitAck iterator messageHandler
  .ok (messageHandler, { c with listSubWaitAck })

/-- The publishes after an acknowledgement of `msgId`. -/
def markPub (msgId : Nat) (v : Option (Timed PubInfo)) : Option (Timed PubInfo) :=
  v.map fun e =>
    if e.info.msgId = msgId then { e with info := { e.info with nodeState := .invalid } } else e

/-- The requests after an acknowledgement of `msgId`. -/
def markSub (msgId : Nat) (v : Option (Timed SubInfo)) : Option (Timed SubInfo) :=
  v.map fun e =>
    if e.info.msgId = msgId then { e with info := { e.info with nodeState := .invalid } } else e

/-- A walk that takes no node out and never breaks maps the values. -/
theorem sweepValues_map {α σ : Type} (visit : Nat → α → σ → Checked (Visit α × σ)) (f : α → α)
    (step : σ → α → σ)
    (hvisit : ∀ k v s, (visit k v s = .ok (.keep, step s v) ∧ f v = v) ∨
      visit k v s = .ok (.update (f v), step s v)) (vs : List α) (k : Nat) (s : σ) :
    sweepValues visit k vs s = .ok (vs.map f, vs.foldl step s) := by
  induction vs generalizing k s with
  | nil => rfl
  | cons v vs ih =>
      rw [sweepValues, List.map_cons, List.foldl_cons]
      rcases hvisit k v s with ⟨hkeep, hsame⟩ | hupdate
      · rw [hkeep, ok_bind, hsame]
        exact bind_eq_ok.mpr ⟨_, ih (k + 1) _, rfl⟩
      · rw [hupdate, ok_bind]
        exact bind_eq_ok.mpr ⟨_, ih (k + 1) _, rfl⟩

/-- What `*messageHandler` is after the pass over an entry. -/
def maskedHandler (msgId : Nat) (messageHandler : TopicHandle) (v : Option (Timed SubInfo)) :
    TopicHandle :=
  v.elim messageHandler fun e => if e.info.msgId = msgId then e.info.handler else messageHandler

theorem maskPubVisit_marks (msgId k : Nat) (v : Option (Timed PubInfo)) (s : Unit) :
    (maskPubVisit msgId k v s = .ok (.keep, s) ∧ markPub msgId v = v) ∨
      maskPubVisit msgId k v s = .ok (.update (markPub msgId v), s) := by
  cases v with
  | none => exact .inl ⟨rfl, rfl⟩
  | some e =>
      rw [maskPubVisit, markPub, Option.map_some]
      split
      next => exact .inr rfl
      next => exact .inl ⟨rfl, rfl⟩

theorem maskSubVisit_marks (msgId k : Nat) (v : Option (Timed SubInfo)) (s : TopicHandle) :
    (maskSubVisit msgId k v s = .ok (.keep, maskedHandler msgId s v) ∧ markSub msgId v = v) ∨
      maskSubVisit msgId k v s = .ok (.update (markSub msgId v), maskedHandler msgId s v) := by
  cases v with
  | none => exact .inl ⟨rfl, rfl⟩
  | some e =>
      rw [maskSubVisit, markSub, maskedHandler, Option.map_some, Option.elim_some]
      split
      next => exact .inr rfl
      next => exact .inl ⟨rfl, rfl⟩

section Marks

variable {c : Client} {pubs : List (Option (Timed PubInfo))} {subs : List (Option (Timed SubInfo))}

theorem iotxMcMaskPubInfoFrom_lists (h : Lists c pubs subs) (msgId : Nat) :
    ∃ c', iotxMcMaskPubInfoFrom c true msgId = .ok c' ∧
      Lists c' (pubs.map (markPub msgId)) subs := by
  have hvalues := sweepValues_map (maskPubVisit msgId) (markPub msgId) (fun s _ => s)
    (maskPubVisit_marks msgId) pubs.reverse 0 ()
  obtain ⟨listPubWaitAck, hrun, hholds⟩ := sweep_holds h.pub hvalues
  rw [← List.map_reverse, List.reverse_reverse] at hholds
  refine ⟨{ c with listPubWaitAck }, bind_eq_ok.mpr ⟨_, hrun, rfl⟩, hholds, h.sub, ?_, h.sub_le⟩
  rw [List.length_map]
  exact h.pub_le

theorem iotxMcMaskSubInfoFrom_lists (h : Lists c pubs subs) (msgId : Nat)
    (messageHandler : TopicHandle) :
    ∃ r, iotxMcMaskSubInfoFrom c true msgId messageHandler = .ok r ∧
      Lists r.2 pubs (subs.map (markSub msgId)) := by
  have hvalues := sweepValues_map (maskSubVisit msgId) (markSub msgId) (maskedHandler msgId)
    (maskSubVisit_marks msgId) subs.reverse 0 messageHandler
  obtain ⟨listSubWaitAck, hrun, hholds⟩ := sweep_holds h.sub hvalues
  rw [← List.map_reverse, List.reverse_reverse] at hholds
  refine ⟨(_, { c with listSubWaitAck }), bind_eq_ok.mpr ⟨_, hrun, rfl⟩, h.pub, hholds, h.pub_le,
    ?_⟩
  rw [List.length_map]
  exact h.sub_le

end Marks

/-! ## Steps -/

/-- What happens to the lists of a client.  `other` is everything that leaves them alone: another
packet in the send buffer, a lost or a new connection. -/
inductive PendingOp where
  | send (req : Request) (env : RequestEnv)
  | maskPub (iterator : Bool) (msgId : Nat)
  | maskSub (iterator : Bool) (msgId : Nat) (messageHandler : TopicHandle)
  | subInfoProc (iterator : Bool) (clock : SweepClock)
  | pubInfoProc (iterator : Bool) (clock : SweepClock) (writes : Nat → List Int)
  | other (bufSend : Bytes) (clientState : McState)

def pendingOp (c : Client) : PendingOp → Checked Client
  | .send req env => do
      let r ← req.send c env
      .ok r.client
  | .maskPub iterator msgId => iotxMcMaskPubInfoFrom c iterator msgId
  | .maskSub iterator msgId messageHandler => do
      let r ← iotxMcMaskSubInfoFrom c iterator msgId messageHandler
      .ok r.2
  | .subInfoProc iterator clock => do
      let r ← mqttSubInfoProc c iterator clock
      .ok r.1
  | .pubInfoProc iterator clock writes => do
      let r ← mqttPubInfoProc c iterator clock writes
      .ok r.1
  | .other bufSend clientState => .ok { c with bufSend, clientState }

/-- A step of the client and the clock: the operation and the time when it is over. -/
def pendingStep (s : Client × UInt32) (a : PendingOp × UInt32) : Checked (Client × UInt32) := do
  let c ← pendingOp s.1 a.1
  .ok (c, a.2)

/-- The readings of an operation lie between the times before and after it. -/
def InTime (s : Client × UInt32) (a : PendingOp × UInt32) : Prop :=
  s.2 ≤ a.2 ∧ match a.1 with
    | .send _ env => env.now ≤ a.2
    | .subInfoProc _ clock => s.2 ≤ clock.spend 0
    | .pubInfoProc _ clock _ => s.2 ≤ clock.spend 0 ∧ ∀ k, clock.restart k ≤ a.2
    | _ => True

/-- The packet as `MQTTPublish` serialized it. -/
def Original (info : PubInfo) : Prop :=
  ∃ topicName msg, info.buf = publishPacket topicName msg

/-- The invariant of the lists. -/
structure Kept (s : Client × UInt32) (pubs : List (Option (Timed PubInfo)))
    (subs : List (Option (Timed SubInfo))) : Prop where
  lists : Lists s.1 pubs subs
  pubs : ∀ e, some e ∈ pubs → e.startTime ≤ s.2 ∧ Original e.info
  subs : ∀ e, some e ∈ subs → e.startTime ≤ s.2

/-- What a publish appends. -/
theorem publish_packet {buf buf' packet topicName : Bytes} {msg : Message}
    (h : mqttSerializePublish buf 0 msg.qos msg.retain msg.packetId topicName msg.payload =
      .ok ((packet.length : Nat), buf'))
    (htake : buf'.take packet.length = packet) : packet = publishPacket topicName msg := by
  have hpos : (0 : Int) < packet.length := by
    rw [mqttSerializePublish] at h
    dsimp only at h
    split at h
    · cases h
    · obtain ⟨_, _, h⟩ := bind_eq_ok.mp h
      have hlen : ((publishPacket topicName msg).length : Int) = packet.length :=
        (Prod.mk.inj (Except.ok.inj h)).1
      rw [← hlen]
      exact Int.natCast_pos.mpr (List.length_pos_of_ne_nil publishPacket_ne_nil)
  obtain ⟨hlen, _, hstored⟩ := stored_packet h hpos
  have hsame := Int.ofNat_inj.mp hlen
  rw [← htake, hsame]
  exact hstored

section Steps

variable {s s' : Client × UInt32} {a : PendingOp × UInt32}
  {pubs : List (Option (Timed PubInfo))} {subs : List (Option (Timed SubInfo))}

/-- Entries that were there stay in time. -/
theorem Kept.pubs_later (h : Kept s pubs subs) {now : UInt32} (hnow : s.2 ≤ now) {e : Timed PubInfo}
    (he : some e ∈ pubs) : e.startTime ≤ now ∧ Original e.info :=
  ⟨UInt32.le_trans (h.pubs e he).1 hnow, (h.pubs e he).2⟩

theorem Kept.subs_later (h : Kept s pubs subs) {now : UInt32} (hnow : s.2 ≤ now) {e : Timed SubInfo}
    (he : some e ∈ subs) : e.startTime ≤ now :=
  UInt32.le_trans (h.subs e he) hnow

theorem Kept.later (h : Kept s pubs subs) {c : Client} {now : UInt32} (hlists : Lists c pubs subs)
    (hnow : s.2 ≤ now) : Kept (c, now) pubs subs :=
  ⟨hlists, fun _ he => h.pubs_later hnow he, fun _ he => h.subs_later hnow he⟩

/-- A request that ends is atomic. -/
theorem atomic_of_send {c : Client} {req : Request} {env : RequestEnv} {r : Result}
    (h : Lists c pubs subs) (hrun : req.send c env = .ok r) : Atomic c pubs subs req env r := by
  have hends : (∃ r', req.send c env = .ok r' ∧ Atomic c pubs subs req env r') ∨
      (∃ e, req.send c env = .error e) ∧ Outside c req env := by
    cases req with
    | publish topicName msg hqos => exact mqttPublish_atomic hqos h
    | subscribe topicFilter qos msgId messageHandler => exact mqttSubscribe_atomic h
    | unsubscribe topicFilter msgId => exact mqttUnsubscribe_atomic h
  rcases hends with ⟨r', hrun', hatomic⟩ | ⟨⟨e, herror⟩, -⟩
  · exact Except.ok.inj (hrun'.symm.trans hrun) ▸ hatomic
  · cases hrun.symm.trans herror

/-- A request appends an entry that was started just now, or none. -/
theorem send_kept {req : Request} {env : RequestEnv} {now : UInt32} {r : Result}
    (h : Kept s pubs subs) (hnow : s.2 ≤ now) (henv : env.now ≤ now)
    (hrun : req.send s.1 env = .ok r) : ∃ pubs' subs', Kept (r.client, now) pubs' subs' := by
  have hatomic := atomic_of_send h.lists hrun
  by_cases hrc : r.rc = successReturn
  · obtain ⟨serialize, remLen, packet, hser, hpacket, htake, hlists⟩ := hatomic.appended hrc
    refine ⟨_, _, hlists, ?_, ?_⟩
    · intro e he
      cases req with
      | publish topicName msg hqos =>
          rcases List.mem_append.mp he with hold | hnew
          · exact h.pubs_later hnow hold
          · cases List.mem_singleton.mp hnew
            cases topicName with
            | none => cases hser
            | some topic =>
                cases hser
                exact ⟨henv, topic, msg, publish_packet hpacket htake⟩
      | subscribe topicFilter qos msgId messageHandler =>
          exact h.pubs_later hnow he
      | unsubscribe topicFilter msgId =>
          exact h.pubs_later hnow he
    · intro e he
      cases req with
      | publish topicName msg hqos => exact h.subs_later hnow he
      | subscribe topicFilter qos msgId messageHandler =>
          rcases List.mem_append.mp he with hold | hnew
          · exact h.subs_later hnow hold
          · cases List.mem_singleton.mp hnew
            exact henv
      | unsubscribe topicFilter msgId =>
          rcases List.mem_append.mp he with hold | hnew
          · exact h.subs_later hnow hold
          · cases List.mem_singleton.mp hnew
            exact henv
  · exact ⟨pubs, subs, h.later (hatomic.kept hrc) hnow⟩

theorem mem_markPub {msgId : Nat} {e : Timed PubInfo} (h : some e ∈ pubs.map (markPub msgId)) :
    ∃ e', some e' ∈ pubs ∧ e.startTime = e'.startTime ∧ e.info.buf = e'.info.buf := by
  obtain ⟨v, hv, hmark⟩ := List.mem_map.mp h
  obtain ⟨e', rfl, hchanged⟩ := Option.map_eq_some_iff.mp hmark
  refine ⟨e', hv, ?_⟩
  split at hchanged
  next =>
    cases hchanged
    exact ⟨rfl, rfl⟩
  next =>
    cases hchanged
    exact ⟨rfl, rfl⟩

theorem mem_markSub {msgId : Nat} {e : Timed SubInfo} (h : some e ∈ subs.map (markSub msgId)) :
    ∃ e', some e' ∈ subs ∧ e.startTime = e'.startTime := by
  obtain ⟨v, hv, hmark⟩ := List.mem_map.mp h
  obtain ⟨e', rfl, hchanged⟩ := Option.map_eq_some_iff.mp hmark
  refine ⟨e', hv, ?_⟩
  split at hchanged
  next =>
    cases hchanged
    rfl
  next =>
    cases hchanged
    rfl

/-- A mark changes the state of entries alone. -/
theorem mask_kept {c : Client} {now : UInt32} {pubs' : List (Option (Timed PubInfo))}
    {subs' : List (Option (Timed SubInfo))} (h : Kept s pubs subs) (hnow : s.2 ≤ now)
    (hlists : Lists c pubs' subs')
    (hpubs : ∀ e, some e ∈ pubs' → ∃ e', some e' ∈ pubs ∧ e.startTime = e'.startTime ∧
      e.info.buf = e'.info.buf)
    (hsubs : ∀ e, some e ∈ subs' → ∃ e', some e' ∈ subs ∧ e.startTime = e'.startTime) :
    Kept (c, now) pubs' subs' := by
  refine ⟨hlists, fun e he => ?_, fun e he => ?_⟩
  · obtain ⟨e', he', htime, hbuf⟩ := hpubs e he
    obtain ⟨hstart, topicName, msg, horiginal⟩ := h.pubs e' he'
    exact ⟨htime ▸ UInt32.le_trans hstart hnow, topicName, msg, hbuf.trans horiginal⟩
  · obtain ⟨e', he', htime⟩ := hsubs e he
    exact htime ▸ UInt32.le_trans (h.subs e' he') hnow

/-- A sweep of the requests leaves some of them. -/
theorem mem_staying {c : Client} {clock : SweepClock} {v : Option (Timed SubInfo)}
    (h : v ∈ (staying c clock (visits subs)).reverse) : v ∈ subs := by
  rw [List.mem_reverse, staying] at h
  obtain ⟨⟨w, k⟩, hp, rfl⟩ := List.mem_map.mp h
  have hmem := List.mem_zipIdx' (List.mem_filter.mp hp).1
  rw [hmem.2]
  exact List.mem_reverse.mp (List.getElem_mem _)

/-- A sweep of the publishes leaves some of them, with a new time at most. -/
theorem mem_remaining {c : Client} {clock : SweepClock} {e : Timed PubInfo}
    (h : some e ∈ (remaining c clock (visits pubs)).reverse) :
    ∃ e', some e' ∈ pubs ∧ e.info = e'.info ∧
      (e.startTime = e'.startTime ∨ ∃ k, e.startTime = clock.restart k) := by
  rw [List.mem_reverse, remaining] at h
  obtain ⟨⟨v, k⟩, hp, hrestarted⟩ := List.mem_map.mp h
  have hmem := List.mem_zipIdx' (List.mem_filter.mp hp).1
  have hv : v ∈ pubs := by
    rw [hmem.2]
    exact List.mem_reverse.mp (List.getElem_mem _)
  cases v with
  | none => cases hrestarted
  | some e' =>
      rw [restarted] at hrestarted
      split at hrestarted
      next =>
        cases hrestarted
        exact ⟨e', hv, rfl, Or.inr ⟨k, rfl⟩⟩
      next =>
        rw [← Option.some.inj hrestarted]
        exact ⟨e', hv, rfl, Or.inl rfl⟩

/-- A sweep of the requests keeps what it leaves. -/
theorem subInfoProc_kept {iterator : Bool} {clock : SweepClock} {now : UInt32}
    {r : Client × List EventMsg} (h : Kept s pubs subs) (hnow : s.2 ≤ now)
    (hclock : s.2 ≤ clock.spend 0) (hrun : mqttSubInfoProc s.1 iterator clock = .ok r) :
    ∃ pubs' subs', Kept (r.1, now) pubs' subs' := by
  cases iterator with
  | false =>
      rw [mqttSubInfoProc, sweep_noIterator] at hrun
      cases hrun
      exact ⟨pubs, subs, h.later h.lists hnow⟩
  | true =>
      obtain ⟨c₁, hrun₁, hlists⟩ := mqttSubInfoProc_sweeps h.lists
        (fun e he => h.subs_later hclock he)
      obtain rfl := Except.ok.inj (hrun₁.symm.trans hrun)
      exact ⟨_, _, hlists, fun e he => h.pubs_later hnow he,
        fun e he => h.subs_later hnow (mem_staying he)⟩

/-- A sweep of the publishes starts some entries again, before it is over. -/
theorem pubInfoProc_kept {iterator : Bool} {clock : SweepClock} {writes : Nat → List Int}
    {now : UInt32} {r : Client × List Resent} (h : Kept s pubs subs) (hnow : s.2 ≤ now)
    (hclock : s.2 ≤ clock.spend 0) (hrestart : ∀ k, clock.restart k ≤ now)
    (hrun : mqttPubInfoProc s.1 iterator clock writes = .ok r) :
    ∃ pubs' subs', Kept (r.1, now) pubs' subs' := by
  cases iterator with
  | false =>
      rw [mqttPubInfoProc, sweep_noIterator] at hrun
      cases hrun
      exact ⟨pubs, subs, h.later h.lists hnow⟩
  | true =>
      rcases @mqttPubInfoProc_sweeps _ _ _ _ writes h.lists
          (fun e he => (h.pubs_later hclock he).1) with
        ⟨c₁, visited, rest, resent, hsplit, hrun₁, hlists, -⟩ | ⟨⟨err, herr⟩, -⟩
      · obtain rfl := Except.ok.inj (hrun₁.symm.trans hrun)
        refine ⟨_, _, hlists, fun e he => ?_, fun e he => h.subs_later hnow he⟩
        rcases List.mem_append.mp he with hrest | hkept
        · exact h.pubs_later hnow (hsplit ▸ List.mem_append_left _ hrest)
        · obtain ⟨e', he', hinfo, hstart⟩ := mem_remaining hkept
          have hold := h.pubs_later hnow (hsplit ▸ List.mem_append_right _ he')
          refine ⟨?_, hinfo ▸ hold.2⟩
          rcases hstart with hstart | ⟨k, hstart⟩
          · exact hstart ▸ hold.1
          · exact hstart ▸ hrestart k
      · cases hrun.symm.trans herr

/-- A step keeps the invariant. -/
theorem pendingStep_kept (h : Kept s pubs subs) (hin : InTime s a)
    (hstep : pendingStep s a = .ok s') : ∃ pubs' subs', Kept s' pubs' subs' := by
  obtain ⟨op, now⟩ := a
  obtain ⟨hnow, htime⟩ := hin
  obtain ⟨c', hop, hs⟩ := bind_eq_ok.mp hstep
  cases hs
  dsimp only at hop hnow htime
  cases op with
  | send req env =>
      obtain ⟨r, hrun, hr⟩ := bind_eq_ok.mp hop
      cases hr
      exact send_kept h hnow htime hrun
  | maskPub iterator msgId =>
      cases iterator with
      | false =>
          rw [pendingOp, iotxMcMaskPubInfoFrom, sweep_noIterator] at hop
          cases hop
          exact ⟨pubs, subs, h.later h.lists hnow⟩
      | true =>
          obtain ⟨c₁, hrun, hlists⟩ := iotxMcMaskPubInfoFrom_lists h.lists msgId
          obtain rfl := Except.ok.inj (hrun.symm.trans hop)
          exact ⟨_, _, mask_kept h hnow hlists (fun e he => mem_markPub he)
            fun e he => ⟨e, he, rfl⟩⟩
  | maskSub iterator msgId messageHandler =>
      obtain ⟨r, hrun, hr⟩ := bind_eq_ok.mp hop
      cases hr
      cases iterator with
      | false =>
          rw [iotxMcMaskSubInfoFrom, sweep_noIterator] at hrun
          cases hrun
          exact ⟨pubs, subs, h.later h.lists hnow⟩
      | true =>
          obtain ⟨r₁, hrun₁, hlists⟩ := iotxMcMaskSubInfoFrom_lists h.lists msgId messageHandler
          obtain rfl := Except.ok.inj (hrun₁.symm.trans hrun)
          exact ⟨_, _, mask_kept h hnow hlists (fun e he => ⟨e, he, rfl, rfl⟩)
            fun e he => mem_markSub he⟩
  | subInfoProc iterator clock =>
      obtain ⟨r, hrun, hr⟩ := bind_eq_ok.mp hop
      cases hr
      exact subInfoProc_kept h hnow htime hrun
  | pubInfoProc iterator clock writes =>
      obtain ⟨r, hrun, hr⟩ := bind_eq_ok.mp hop
      cases hr
      exact pubInfoProc_kept h hnow htime.1 htime.2 hrun
  | other bufSend clientState =>
      cases hop
      exact ⟨pubs, subs, h.later ⟨h.lists.pub, h.lists.sub, h.lists.pub_le, h.lists.sub_le⟩ hnow⟩

/-- Every run from empty lists keeps the invariant. -/
theorem run_kept {c : Client} {now : UInt32} {ops : List (PendingOp × UInt32)}
    (hpub : c.listPubWaitAck = listNew) (hsub : c.listSubWaitAck = listNew)
    (hin : Guarded pendingStep InTime (c, now) ops) (hrun : run pendingStep (c, now) ops = .ok s') :
    ∃ pubs subs, Kept s' pubs subs := by
  have hinit : ∃ pubs subs, Kept (c, now) pubs subs :=
    ⟨[], [], ⟨hpub ▸ holds_listNew, hsub ▸ holds_listNew, Nat.zero_le _, Nat.zero_le _⟩,
      nofun, nofun⟩
  have hstep : ∀ {t a t'}, (∃ pubs subs, Kept t pubs subs) → InTime t a →
      pendingStep t a = .ok t' → ∃ pubs subs, Kept t' pubs subs :=
    fun ⟨_, _, hkept⟩ hguard hrun => pendingStep_kept hkept hguard hrun
  exact run_invariant hstep hinit hin hrun

end Steps

end IotKit.Mqtt.Pending
