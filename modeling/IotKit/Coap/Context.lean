import IotKit.Coap.Deserialize
import IotKit.Coap.Serialize

/-!
# The send list

`CoAPMessage.c`: a request that was written to the network is kept in a list until its
response has been handled or its retransmissions are over.  A node is named by the number
of the send that made it.  A handler runs in the middle of `CoAPRespMessage_handle`,
which is therefore cut in two.
-/

namespace IotKit.Coap

open CMemory

def coapMaxMessageId : Nat := 65535
def coapMaxRetryCount : Nat := 4
/-- `COAP_ACK_TIMEOUT * COAP_ACK_RANDOM_FACTOR`. -/
def coapAckTimeout : Nat := 2
def coapMaxTransmissionSpan : Nat := 10

/-- `CoAPSendNode`.  `tokenlen` is the length of the token, and `message` may be NULL. -/
structure SendNode where
  id : Nat
  msgid : Nat
  acked : Bool
  token : Bytes
  retransCount : Nat
  timeout : Nat
  timeoutVal : Nat
  message : Option Bytes
  observer : Nat
  handler : Option Nat
deriving DecidableEq, Repr

/-- The fields of `CoAPContext` and of its `CoAPSendList`. -/
structure Context where
  messageId : Nat
  count : Nat
  maxcount : Nat
  sendlist : List SendNode
deriving DecidableEq, Repr

/-- `CoAPContext_create`. -/
def coapContextCreate (maxcount : Nat) : Context := ⟨1, 0, maxcount, []⟩

/-- `CoAPMessageId_gen`. -/
def coapMessageIdGen (context : Context) : Nat × Context :=
  if coapMaxMessageId = context.messageId then (1, context)
  else (context.messageId, { context with messageId := (context.messageId + 1) % 65536 })

/-! ## Sending -/

/-- Which allocations of `CoAPMessageList_add` succeed. -/
structure Allocation where
  node : Bool
  message : Bool
deriving DecidableEq, Repr

/-- The offsets of `count` and `maxcount` in a `CoAPSendList`. -/
def offsetCount : Nat := 0
def offsetMaxcount : Nat := 1

/-- The node that `CoAPMessageList_add` fills in. -/
def sendNode (message : Message) (sent : Bytes) (id : Nat) (alloc : Allocation) : SendNode :=
  let con : Bool := message.header.type = coapMessageTypeCon
  { id
    msgid := message.header.msgid
    acked := false
    token := message.token
    retransCount := if con then 0 else coapMaxRetryCount
    timeout := if con then coapAckTimeout else coapMaxTransmissionSpan
    timeoutVal := coapAckTimeout
    message := if alloc.message then some sent else none
    observer := message.observer
    handler := message.handler }

/-- `CoAPMessageList_add`.  The addresses of the two counters are compared. -/
def coapMessageListAdd (context : Context) (message : Message) (sent : Bytes) (id : Nat)
    (alloc : Allocation) : Context :=
  if alloc.node = false then context
  else if offsetMaxcount ≤ offsetCount then context
  else
    { context with
      sendlist := context.sendlist ++ [sendNode message sent id alloc]
      count := (context.count + 1) % 256 }

/-- What `CoAPMessage_send` returns, what it gave to the network, and what it left. -/
structure Sent where
  ret : Int
  written : Option Bytes
  context : Context
deriving DecidableEq, Repr

/-- `CoAPMessage_send`, where `HAL_UDP_write` succeeds or not. -/
def coapMessageSend (context : Context) (message : Message) (id : Nat) (write : Bool)
    (alloc : Allocation) : Checked Sent :=
  if coapMsgMaxPduLen < coapSerializeMessageLength message then
    .ok ⟨coapErrorDataSize, none, context⟩
  else do
    let (sendbuf, msglen) ← coapSerializeMessage message coapMsgMaxPduLen
    let sent := sendbuf.take msglen
    if write = false then .ok ⟨coapErrorWriteFailed, none, context⟩
    else if coapReqMsg message.header || coapConRespMsg message.header then
      .ok ⟨coapSuccess, some sent, coapMessageListAdd context message sent id alloc⟩
    else .ok ⟨coapSuccess, some sent, context⟩

/-! ## Receiving -/

/-- The loop of `CoAPAckMessage_handle`. -/
def markAcked (msgid : Nat) : List SendNode → List SendNode
  | [] => []
  | node :: nodes =>
      if node.msgid = msgid then { node with acked := true } :: nodes
      else node :: markAcked msgid nodes

/-- `CoAPAckMessage_handle`. -/
def coapAckMessageHandle (context : Context) (message : Received) : Context :=
  { context with sendlist := markAcked message.header.msgid context.sendlist }

/-- `CoAPAckMessage_send`: the message is not one to be listed. -/
def coapAckMessageSend (context : Context) (msgid : Nat) (write : Bool) : Checked Sent :=
  coapMessageSend context (coapMessageIdSet coapMessageInit msgid) 0 write ⟨true, true⟩

/-- The test of `CoAPRespMessage_handle`. -/
def tokenMatches (message : Received) (node : SendNode) : Bool :=
  node.token.length ≠ 0 ∧ node.token.length = message.header.tokenlen ∧
    node.token = message.token

/-- `CoAPRespMessage_handle` up to the handler: the node that is found. -/
def coapRespMessageHandle (context : Context) (message : Received) (write : Bool) :
    Checked (Option SendNode × Context) := do
  let context ←
    (if message.header.type = coapMessageTypeCon then do
      let sent ← coapAckMessageSend context message.header.msgid write
      .ok sent.context
    else .ok context)
  .ok (context.sendlist.find? (tokenMatches message), context)

/-- `CoAPRespMessage_handle` after the handler. -/
def coapRespMessageHandled (context : Context) (id : Nat) : Checked Context :=
  match context.sendlist.find? (·.id = id) with
  | none => .error .load
  | some node =>
      if node.observer = coapDeregisterObserve then
        .ok { context with
          sendlist := context.sendlist.eraseP (·.id = id)
          count := (context.count + 255) % 256 }
      else .ok context

/-! ## Retransmission -/

/-- A node whose time has come, after its message was written again if it is due. -/
def retransmit (node : SendNode) : SendNode :=
  if node.retransCount < coapMaxRetryCount ∧ node.acked = false ∧
      node.observer = coapDeregisterObserve then
    { node with
      timeout := node.timeoutVal * 2 % 65536
      timeoutVal := node.timeoutVal * 2 % 65536
      retransCount := node.retransCount + 1 }
  else node

/-- One node of the loop of `CoAPMessage_cycle`, and whether it is removed. -/
def sweepNode (node : SendNode) : SendNode × Bool :=
  if node.timeout = 0 then
    let node := retransmit node
    (node, (coapMaxTransmissionSpan < node.timeout || coapMaxRetryCount ≤ node.retransCount) &&
      node.observer = coapDeregisterObserve)
  else ({ node with timeout := node.timeout - 1 }, false)

/-- The loop of `CoAPMessage_cycle`, which ends where a node is removed. -/
def sweepLoop : List SendNode → List SendNode × Bool
  | [] => ([], false)
  | node :: nodes =>
      match sweepNode node with
      | (_, true) => (nodes, true)
      | (node, false) =>
          let (nodes, removed) := sweepLoop nodes
          (node :: nodes, removed)

/-- `CoAPMessage_cycle` after its datagrams. -/
def coapMessageCycle (context : Context) : Context :=
  let (sendlist, removed) := sweepLoop context.sendlist
  { context with
    sendlist
    count := if removed then (context.count + 255) % 256 else context.count }

/-! ## What the functions leave alone -/

/-- The fields of a node that are set once. -/
structure NodeKey where
  id : Nat
  msgid : Nat
  token : Bytes
  observer : Nat
  handler : Option Nat
deriving DecidableEq, Repr

def SendNode.key (node : SendNode) : NodeKey :=
  ⟨node.id, node.msgid, node.token, node.observer, node.handler⟩

/-- The keys of the nodes, in the order of the list. -/
def Context.keys (context : Context) : List NodeKey := context.sendlist.map SendNode.key

theorem coapMessageIdGen_keys (context : Context) :
    (coapMessageIdGen context).2.keys = context.keys := by
  rw [coapMessageIdGen]
  split <;> rfl

/-- The context with one more node. -/
def Context.listed (context : Context) (node : SendNode) : Context :=
  { context with
    sendlist := context.sendlist ++ [node]
    count := (context.count + 1) % 256 }

theorem coapMessageListAdd_eq {context : Context} {message : Message} {sent : Bytes} {id : Nat}
    {alloc : Allocation} (hnode : alloc.node = true) :
    coapMessageListAdd context message sent id alloc =
      context.listed (sendNode message sent id alloc) := by
  rw [coapMessageListAdd, if_neg (by rw [hnode]; decide), if_neg (by decide)]
  rfl

/-- The message is written: it fits, and the network takes it. -/
structure Written (message : Message) (write : Bool) : Prop where
  fits : coapSerializeMessageLength message ≤ coapMsgMaxPduLen
  write : write = true

/-- The message is written, it is one to be listed, and its node is allocated. -/
structure Listed (message : Message) (write : Bool) (alloc : Allocation) : Prop
    extends Written message write where
  confirmed : coapReqMsg message.header = true ∨ coapConRespMsg message.header = true
  node : alloc.node = true

/-- What `CoAPMessage_send` returns and leaves. -/
theorem coapMessageSend_eq_ok {context : Context} {message : Message} {id : Nat} {write : Bool}
    {alloc : Allocation} {sent : Sent}
    (h : coapMessageSend context message id write alloc = .ok sent) :
    (sent.ret = coapSuccess ∧ sent.written.isSome = true ∧ Written message write ∨
      0 < sent.ret ∧ sent.written = none ∧ ¬Written message write) ∧
    (Listed message write alloc ∧
        (∃ bytes, sent.context = context.listed (sendNode message bytes id alloc)) ∨
      ¬Listed message write alloc ∧ sent.context = context) := by
  rw [coapMessageSend] at h
  split at h
  next hlong =>
    cases h
    have hnot : ¬Written message write := fun hw => absurd hw.fits (Nat.not_le.mpr hlong)
    exact ⟨Or.inr ⟨show 0 < coapErrorDataSize by decide, rfl, hnot⟩,
      Or.inr ⟨fun hl => hnot hl.toWritten, rfl⟩⟩
  next hfits =>
    obtain ⟨⟨sendbuf, msglen⟩, -, h⟩ := bind_eq_ok.mp h
    dsimp only at h
    split at h
    next hwrite =>
      cases h
      have hnot : ¬Written message write := fun hw =>
        Bool.false_ne_true (hwrite.symm.trans hw.write)
      exact ⟨Or.inr ⟨show 0 < coapErrorWriteFailed by decide, rfl, hnot⟩,
        Or.inr ⟨fun hl => hnot hl.toWritten, rfl⟩⟩
    next hwrite =>
      have hwritten : Written message write :=
        ⟨Nat.le_of_not_lt hfits, by simpa using hwrite⟩
      split at h
      next hconfirmed =>
        cases h
        refine ⟨Or.inl ⟨rfl, rfl, hwritten⟩, ?_⟩
        by_cases hnode : alloc.node = true
        · exact Or.inl ⟨⟨hwritten, by simpa using hconfirmed, hnode⟩, _,
            coapMessageListAdd_eq hnode⟩
        · refine Or.inr ⟨fun hl => hnode hl.node, ?_⟩
          rw [coapMessageListAdd, if_pos (by simpa using hnode)]
      next hconfirmed =>
        cases h
        exact ⟨Or.inl ⟨rfl, rfl, hwritten⟩,
          Or.inr ⟨fun hl => hconfirmed (by simpa using hl.confirmed), rfl⟩⟩

theorem coapMessageSend_serialized {context : Context} {message : Message} {id : Nat}
    {write : Bool} {alloc : Allocation} {sent : Sent}
    (h : coapMessageSend context message id write alloc = .ok sent)
    (hfits : coapSerializeMessageLength message ≤ coapMsgMaxPduLen) :
    ∃ out, coapSerializeMessage message coapMsgMaxPduLen = .ok out := by
  rw [coapMessageSend, if_neg (Nat.not_lt.mpr hfits)] at h
  obtain ⟨out, hout, -⟩ := bind_eq_ok.mp h
  exact ⟨out, hout⟩

/-- A message that is serialized and `Listed` gets its node. -/
theorem coapMessageSend_listed (context : Context) {message : Message} (id : Nat) {write : Bool}
    {alloc : Allocation} {out : Bytes × Nat}
    (hout : coapSerializeMessage message coapMsgMaxPduLen = .ok out)
    (hlisted : Listed message write alloc) :
    ∃ sent, coapMessageSend context message id write alloc = .ok sent ∧
      ∃ bytes, sent.context = context.listed (sendNode message bytes id alloc) := by
  have hconfirmed : (coapReqMsg message.header || coapConRespMsg message.header) = true := by
    simpa using hlisted.confirmed
  rw [coapMessageSend, if_neg (Nat.not_lt.mpr hlisted.fits), hout, ok_bind]
  dsimp only
  rw [if_neg (by rw [hlisted.write]; decide), if_pos hconfirmed]
  exact ⟨_, rfl, _, coapMessageListAdd_eq hlisted.node⟩

/-- An ACK fits, and it is not listed. -/
theorem coapAckMessageSend_context (context : Context) (msgid : Nat) (write : Bool) :
    ∃ sent, coapAckMessageSend context msgid write = .ok sent ∧ sent.context = context := by
  cases write with
  | false => exact ⟨_, rfl, rfl⟩
  | true => exact ⟨_, rfl, rfl⟩

theorem coapRespMessageHandle_eq (context : Context) (message : Received) (write : Bool) :
    coapRespMessageHandle context message write =
      .ok (context.sendlist.find? (tokenMatches message), context) := by
  obtain ⟨sent, hsent, hcontext⟩ := coapAckMessageSend_context context message.header.msgid write
  rw [coapRespMessageHandle]
  split
  · rw [hsent, ok_bind, ok_bind, hcontext]
  · rfl

theorem markAcked_key (msgid : Nat) (nodes : List SendNode) :
    (markAcked msgid nodes).map SendNode.key = nodes.map SendNode.key := by
  induction nodes with
  | nil => rfl
  | cons node nodes ih =>
      rw [markAcked]
      split
      · rfl
      · rw [List.map_cons, List.map_cons, ih]

theorem markAcked_length (msgid : Nat) (nodes : List SendNode) :
    (markAcked msgid nodes).length = nodes.length := by
  rw [← List.length_map (f := SendNode.key), markAcked_key, List.length_map]

theorem retransmit_key (node : SendNode) : (retransmit node).key = node.key := by
  rw [retransmit]
  split <;> rfl

theorem sweepNode_key (node : SendNode) : (sweepNode node).1.key = node.key := by
  rw [sweepNode]
  split
  · exact retransmit_key node
  · rfl

/-- Only the nodes of requests that do not observe are removed. -/
theorem sweepNode_removed {node : SendNode} (h : (sweepNode node).2 = true) :
    node.observer = coapDeregisterObserve := by
  rw [sweepNode] at h
  split at h
  · have hobserver := of_decide_eq_true (Bool.and_eq_true_iff.mp h).2
    exact (congrArg NodeKey.observer (retransmit_key node)).symm.trans hobserver
  · cases h

theorem sweepLoop_sublist (nodes : List SendNode) :
    ((sweepLoop nodes).1.map SendNode.key).Sublist (nodes.map SendNode.key) := by
  induction nodes with
  | nil => exact .slnil
  | cons node nodes ih =>
      have hkey := sweepNode_key node
      rw [sweepLoop]
      split
      next => exact List.sublist_cons_self _ _
      next node' hnode =>
        rw [hnode] at hkey
        rw [List.map_cons, List.map_cons, hkey]
        exact ih.cons_cons _

theorem sweepLoop_observers (nodes : List SendNode) {k : NodeKey}
    (hk : k ∈ nodes.map SendNode.key) (hobserver : k.observer = coapRegisteredObserve) :
    k ∈ (sweepLoop nodes).1.map SendNode.key := by
  induction nodes with
  | nil => cases hk
  | cons node nodes ih =>
      have hkey := sweepNode_key node
      rw [List.map_cons, List.mem_cons] at hk
      rw [sweepLoop]
      split
      next hnode =>
        have hremoved := sweepNode_removed (by rw [hnode])
        cases hk with
        | inl heq =>
            have hnode : node.observer = coapRegisteredObserve := by rw [← hobserver, heq]; rfl
            rw [hremoved] at hnode
            exact absurd hnode (by decide)
        | inr hmem => exact hmem
      next node' hnode =>
        rw [hnode] at hkey
        rw [List.map_cons, List.mem_cons, hkey]
        exact hk.imp id ih

theorem sweepLoop_length (nodes : List SendNode) :
    (sweepLoop nodes).1.length + (if (sweepLoop nodes).2 then 1 else 0) = nodes.length := by
  induction nodes with
  | nil => rfl
  | cons node nodes ih =>
      rw [sweepLoop]
      split
      · rfl
      · dsimp only
        rw [List.length_cons, List.length_cons, ← ih]
        omega

end IotKit.Coap
