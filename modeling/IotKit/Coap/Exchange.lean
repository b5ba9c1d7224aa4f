import IotKit.Coap.Client
import IotKit.Lib.Run

/-!
# Exchanges with the server

Runs of the client: requests, datagrams in any order, and the retransmissions that end a
`CoAPMessage_cycle`.  A handler runs between two of them, and may do anything, receive again
included, so the handlers at work are a stack.  When one returns, `CoAPRespMessage_handle` goes on
with its node.  `requests` lists the sends and `calls` the handlers that were called.
-/

namespace IotKit.Coap

open CMemory Runs

/-! ## The machine -/

/-- A handler at work. -/
structure Frame where
  id : Nat
  observe : Bool
deriving DecidableEq, Repr

/-- A send. -/
structure Request where
  token : Bytes
  msgid : Nat
  handler : Option Nat
  observe : Bool
deriving DecidableEq, Repr

/-- A handler that was called: for which datagram and which request, and with which token. -/
structure Call where
  datagram : Nat
  request : Nat
  handler : Nat
  token : Bytes
deriving DecidableEq, Repr

structure Machine where
  client : CoapClient
  frames : List Frame
  requests : List Request
  received : Nat
  calls : List Call
deriving DecidableEq, Repr

/-- After `IOT_CoAP_Init`. -/
def Machine.initial : Machine := ⟨iotCoapInit, [], [], 0, []⟩

def Machine.context (m : Machine) : Context := m.client.context
def Machine.keys (m : Machine) : List NodeKey := m.context.keys
def Machine.setContext (m : Machine) (context : Context) : Machine :=
  { m with client := { m.client with context } }

inductive Action where
  | send (observe : Bool) (p : IotxMessage) (write : Bool) (alloc : Allocation)
  /-- `CoAPMessage_handle`, on whatever the parser made of the datagram. -/
  | receive (message : Received) (write : Bool)
  /-- The handler on top returns. -/
  | handled
  /-- `CoAPMessage_cycle` after its datagrams. -/
  | cycle
deriving DecidableEq, Repr

/-- The record of a send. -/
def requestOf (client : CoapClient) (observe : Bool) (p : IotxMessage) : Request :=
  ⟨tokenBytes client.coapToken, (coapMessageIdGen client.context).1, p.respCallback, observe⟩

def sendRequest (m : Machine) (observe : Bool) (p : IotxMessage) (write : Bool)
    (alloc : Allocation) : Checked Machine := do
  let (_, client) ← clientSend observe m.client p write alloc
  .ok { m with client, requests := m.requests ++ [requestOf m.client observe p] }

/-- `CoAPMessage_handle`, up to the handler. -/
def receive (m : Machine) (message : Received) (write : Bool) : Checked Machine :=
  if coapAckMsg message.header then .ok (m.setContext (coapAckMessageHandle m.context message))
  else if coapRespMsg message.header then do
    let (found, context) ← coapRespMessageHandle m.context message write
    let m := m.setContext context
    match found with
    | none => .ok m
    | some node =>
        match node.handler with
        | some handler =>
            .ok { m with
              frames := ⟨node.id, node.observer ≠ coapDeregisterObserve⟩ :: m.frames
              calls := ⟨m.received, node.id, handler, message.token⟩ :: m.calls }
        | none => do
            let context ← coapRespMessageHandled m.context node.id
            .ok (m.setContext context)
  else .ok m

/-- Why a run stops: a fault, or a return without a handler at work. -/
inductive Stop where
  | fault (fault : Fault)
  | handler
deriving DecidableEq, Repr

def checked {α : Type} : Checked α → Except Stop α
  | .ok a => .ok a
  | .error f => .error (.fault f)

def step (m : Machine) : Action → Except Stop Machine
  | .send observe p write alloc => checked (sendRequest m observe p write alloc)
  | .receive message write =>
      checked (do
        let m' ← receive m message write
        .ok { m' with received := m.received + 1 })
  | .handled =>
      match m.frames with
      | frame :: frames =>
          checked (do
            let context ← coapRespMessageHandled m.context frame.id
            .ok { m.setContext context with frames })
      | [] => .error .handler
  | .cycle => .ok (m.setContext (coapMessageCycle m.context))

/-! ## What a step can do -/

/-- The node of the `id`-th send. -/
def Request.key (r : Request) (id : Nat) : NodeKey :=
  ⟨id, r.msgid, r.token, if r.observe then coapRegisteredObserve else coapDeregisterObserve,
    r.handler⟩

theorem Request.key_observer (r : Request) (id : Nat) :
    r.observe = false ↔ (r.key id).observer = coapDeregisterObserve := by
  cases hobserve : r.observe with
  | false => exact iff_of_true rfl (by rw [Request.key, hobserve]; rfl)
  | true => exact iff_of_false nofun (by rw [Request.key, hobserve]; exact (by decide : ¬(0 = 1)))

/-- The send puts a node in the list: its message is made and serialized, the network takes
it, it is one to be listed, and the node is allocated. -/
def CoapClient.Lists (client : CoapClient) (observe : Bool) (p : IotxMessage) (write : Bool)
    (alloc : Allocation) : Prop :=
  ∃ message client' out, clientMessage observe client p = .ok (message, client') ∧
    coapSerializeMessage message coapMsgMaxPduLen = .ok out ∧ Listed message write alloc

/-- The client after a send, except for the list. -/
def CoapClient.sent (client : CoapClient) : CoapClient :=
  ⟨(client.coapToken + 1) % 2 ^ 32, (coapMessageIdGen client.context).2, client.sends + 1⟩

/-- `CoAPRespMessage_handle` after the handler: a node of a request is removed, one that
observes stays. -/
theorem coapRespMessageHandled_eq_ok {context context' : Context} {id : Nat}
    (h : coapRespMessageHandled context id = .ok context') :
    ∃ k, context.keys.find? (·.id = id) = some k ∧
      (k.observer = coapDeregisterObserve ∧
        context'.keys = context.keys.eraseP (·.id = id) ∧
        context'.count = (context.count + 255) % 256 ∧
        context'.messageId = context.messageId ∧ context'.maxcount = context.maxcount ∨
      k.observer ≠ coapDeregisterObserve ∧ context' = context) := by
  rw [coapRespMessageHandled] at h
  split at h
  · cases h
  next node hfind =>
    have hkey : context.keys.find? (·.id = id) = some node.key := by
      rw [Context.keys, List.find?_map]
      exact congrArg (Option.map SendNode.key) hfind
    refine ⟨node.key, hkey, ?_⟩
    split at h
    next hobserver =>
      cases h
      refine Or.inl ⟨hobserver, ?_, rfl, rfl, rfl⟩
      rw [Context.keys, Context.keys, List.eraseP_map]
      rfl
    next hobserver =>
      cases h
      exact Or.inr ⟨hobserver, rfl⟩

theorem coapRespMessageHandled_sublist {context context' : Context} {id : Nat}
    (h : coapRespMessageHandled context id = .ok context') :
    context'.keys.Sublist context.keys := by
  obtain ⟨-, -, ⟨-, heq, -⟩ | ⟨-, rfl⟩⟩ := coapRespMessageHandled_eq_ok h
  · rw [heq]
    exact List.eraseP_sublist
  · exact List.Sublist.refl _

theorem mem_eraseP_of_ne {α : Type} {p : α → Bool} {l : List α} {x y : α}
    (hfind : l.find? p = some x) (hy : y ∈ l) (hne : y ≠ x) : y ∈ l.eraseP p := by
  induction l with
  | nil => cases hy
  | cons a l ih =>
      by_cases ha : p a = true
      · rw [List.find?_cons_of_pos ha] at hfind
        obtain rfl := Option.some.inj hfind
        rw [List.eraseP_cons_of_pos ha]
        exact (List.mem_cons.mp hy).resolve_left hne
      · rw [List.find?_cons_of_neg ha] at hfind
        rw [List.eraseP_cons_of_neg ha]
        exact List.mem_cons.mpr ((List.mem_cons.mp hy).imp id (ih hfind))

/-- What observes is not removed. -/
theorem coapRespMessageHandled_observers {context context' : Context} {id : Nat}
    (h : coapRespMessageHandled context id = .ok context') {k : NodeKey}
    (hk : k ∈ context.keys) (hobserver : k.observer = coapRegisteredObserve) :
    k ∈ context'.keys := by
  obtain ⟨k', hfind, ⟨hobserver', heq, -⟩ | ⟨-, rfl⟩⟩ := coapRespMessageHandled_eq_ok h
  · rw [heq]
    refine mem_eraseP_of_ne hfind hk fun hk' => ?_
    rw [← hk', hobserver] at hobserver'
    exact absurd hobserver' (by decide)
  · exact hk

/-- What a step does to a machine, one constructor for each outcome. -/
inductive Effect (m : Machine) : Action → Machine → Prop
  | listed {observe : Bool} {p : IotxMessage} {write : Bool} {alloc : Allocation}
      {node : SendNode} : m.client.Lists observe p write alloc →
      node.key = (requestOf m.client observe p).key m.client.sends →
      Effect m (.send observe p write alloc) { m with
        client := { m.client.sent with context := m.client.sent.context.listed node }
        requests := m.requests ++ [requestOf m.client observe p] }
  | unlisted {observe : Bool} {p : IotxMessage} {write : Bool} {alloc : Allocation} :
      ¬m.client.Lists observe p write alloc →
      Effect m (.send observe p write alloc) { m with
        client := m.client.sent
        requests := m.requests ++ [requestOf m.client observe p] }
  | acked {message : Received} {write : Bool} : coapAckMsg message.header = true →
      Effect m (.receive message write) { m.setContext (coapAckMessageHandle m.context message)
        with received := m.received + 1 }
  | ignored {message : Received} {write : Bool} :
      Effect m (.receive message write) { m with received := m.received + 1 }
  | called {message : Received} {write : Bool} {node : SendNode} {handler : Nat} :
      coapRespMsg message.header = true →
      m.context.sendlist.find? (tokenMatches message) = some node → node.handler = some handler →
      Effect m (.receive message write) { m with
        frames := ⟨node.id, node.observer ≠ coapDeregisterObserve⟩ :: m.frames
        received := m.received + 1
        calls := ⟨m.received, node.id, handler, node.token⟩ :: m.calls }
  | unhandled {message : Received} {write : Bool} {node : SendNode} {context : Context} :
      node ∈ m.context.sendlist → node.handler = none →
      coapRespMessageHandled m.context node.id = .ok context →
      Effect m (.receive message write)
        { m.setContext context with received := m.received + 1 }
  | returned {frame : Frame} {frames : List Frame} {context : Context} :
      m.frames = frame :: frames → coapRespMessageHandled m.context frame.id = .ok context →
      Effect m .handled { m.setContext context with frames }
  | swept : Effect m .cycle (m.setContext (coapMessageCycle m.context))

theorem checked_eq_ok {α : Type} {x : Checked α} {a : α} : checked x = .ok a ↔ x = .ok a := by
  cases x with
  | ok b => exact ⟨fun h => by cases h; rfl, fun h => by cases h; rfl⟩
  | error f => exact ⟨nofun, nofun⟩

variable {m m' : Machine}

theorem sendRequest_effect {observe : Bool} {p : IotxMessage} {write : Bool} {alloc : Allocation}
    (h : sendRequest m observe p write alloc = .ok m') :
    Effect m (.send observe p write alloc) m' := by
  obtain ⟨⟨sent, client⟩, hsend, h⟩ := bind_eq_ok.mp h
  cases h
  obtain ⟨⟨message, client'⟩, hmessage, hsend⟩ := bind_eq_ok.mp hsend
  obtain ⟨sent', hsent, hsend⟩ := bind_eq_ok.mp hsend
  cases hsend
  obtain ⟨hheader, htoken, hobserver, hhandler, rfl⟩ := clientMessage_eq_ok hmessage
  obtain ⟨-, ⟨hlisted, bytes, hcontext⟩ | ⟨hnot, hcontext⟩⟩ := coapMessageSend_eq_ok hsent
  · obtain ⟨out, hout⟩ := coapMessageSend_serialized hsent hlisted.fits
    rw [hcontext]
    refine .listed ⟨message, _, out, hmessage, hout, hlisted⟩ ?_
    rw [SendNode.key, sendNode, hheader, htoken, hobserver, hhandler]
    rfl
  · rw [hcontext]
    refine .unlisted ?_
    rintro ⟨message', client'', out, hmessage', -, hlisted⟩
    rw [hmessage] at hmessage'
    cases hmessage'
    exact hnot hlisted

theorem receive_effect {message : Received} {write : Bool}
    (h : receive m message write = .ok m') :
    Effect m (.receive message write) { m' with received := m.received + 1 } := by
  rw [receive] at h
  split at h
  next hack =>
    cases h
    exact .acked hack
  split at h
  next hresp =>
    rw [coapRespMessageHandle_eq, ok_bind] at h
    dsimp only at h
    split at h
    · cases h
      exact .ignored
    next node hfind =>
      have htoken : node.token = message.token := by
        have hmatch := List.find?_some hfind
        simp only [tokenMatches, decide_eq_true_eq] at hmatch
        exact hmatch.2.2
      split at h
      next handler hhandler =>
        cases h
        rw [← htoken]
        exact .called hresp hfind hhandler
      next hhandler =>
        obtain ⟨context, hcontext, h⟩ := bind_eq_ok.mp h
        cases h
        exact .unhandled (List.mem_of_find?_eq_some hfind) hhandler hcontext
  next =>
    cases h
    exact .ignored

theorem step_effect {a : Action} (h : step m a = .ok m') : Effect m a m' := by
  cases a with
  | send observe p write alloc => exact sendRequest_effect (checked_eq_ok.mp h)
  | receive message write =>
      obtain ⟨m₁, hreceive, h⟩ := bind_eq_ok.mp (checked_eq_ok.mp h)
      cases h
      exact receive_effect hreceive
  | handled =>
      rw [step] at h
      split at h
      next frame frames hframes =>
        obtain ⟨context, hcontext, h⟩ := bind_eq_ok.mp (checked_eq_ok.mp h)
        cases h
        exact .returned hframes hcontext
      next => cases h
  | cycle =>
      cases h
      exact .swept

/-! ## The requests of a run -/

def Action.isSend : Action → Bool
  | .send .. => true
  | _ => false

theorem step_requests {a : Action} (hstep : Coap.step m a = .ok m') :
    m'.requests.length = m.requests.length + [a].countP Action.isSend := by
  cases step_effect hstep with
  | listed => exact List.length_append
  | unlisted => exact List.length_append
  | acked => rfl
  | ignored => rfl
  | called => rfl
  | unhandled => rfl
  | returned => rfl
  | swept => rfl

theorem run_requests {actions : List Action} (hrun : Runs.run Coap.step m actions = .ok m') :
    m'.requests.length = m.requests.length + actions.countP Action.isSend := by
  induction actions generalizing m with
  | nil =>
      cases hrun
      rfl
  | cons a actions ih =>
      obtain ⟨m₁, hstep, hrun⟩ := run_cons.mp hrun
      have hcons : (a :: actions).countP Action.isSend =
          [a].countP Action.isSend + actions.countP Action.isSend := by
        rw [← List.countP_append, List.singleton_append]
      rw [ih hrun, step_requests hstep, hcons, Nat.add_assoc]

end IotKit.Coap
