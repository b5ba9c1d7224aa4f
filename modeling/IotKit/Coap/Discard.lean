import IotKit.Coap.Capacity
import IotKit.Coap.Retransmission
import Mathlib.Logic.Function.Iterate

/-!
# Unanswered requests

With no datagram any more, each cycle takes something off what remains of the first request
in the list, so that all requests that do not observe are removed at last.  The exception is
a request that was acknowledged before its last retransmission: when its time is over it is
neither written again nor removed, since only a retransmission moves its timeout and its
count.
-/

namespace IotKit.Coap

open CMemory Runs

/-- The request is acknowledged and has retransmissions left. -/
def Stranded (node : SendNode) : Prop :=
  node.observer = coapDeregisterObserve ∧ node.acked = true ∧
    node.retransCount < coapMaxRetryCount

/-- Cycles without a datagram lead to a list in which every request observes. -/
def Discards (context : Context) : Prop :=
  ∃ n, ∀ node ∈ (coapMessageCycle^[n] context).sendlist, node.observer ≠ coapDeregisterObserve

theorem coapMessageCycle_sendlist (context : Context) :
    (coapMessageCycle context).sendlist = (sweepLoop context.sendlist).1 := rfl

/-! ## What one node loses -/

/-- What remains of a request: the retransmissions, each with the longest waiting time, and
the time until the next. -/
def remaining (node : SendNode) : Nat :=
  if node.observer = coapDeregisterObserve then
    (coapMaxRetryCount - node.retransCount) * 65536 + node.timeout + 1
  else 0

/-- What remains of a list. -/
def totalRemaining (nodes : List SendNode) : Nat := (nodes.map remaining).sum

theorem remaining_request {node : SendNode} (h : node.observer = coapDeregisterObserve) :
    remaining node =
      (coapMaxRetryCount - node.retransCount) * 65536 + node.timeout + 1 := if_pos h

theorem remaining_pos {node : SendNode} (h : node.observer = coapDeregisterObserve) :
    0 < remaining node := by
  rw [remaining_request h]
  exact Nat.succ_pos _

theorem remaining_observer {node : SendNode} (h : node.observer ≠ coapDeregisterObserve) :
    remaining node = 0 := if_neg h

theorem Due.remaining_lt {node : SendNode} (h : Due node) :
    remaining node.retried < remaining node := by
  obtain ⟨htimeout, hcount, -, hobserver⟩ := h
  have hmax : coapMaxRetryCount = 4 := rfl
  have hmod : node.timeoutVal * 2 % 65536 < 65536 := Nat.mod_lt _ (by decide)
  have hobserver' : node.retried.observer = coapDeregisterObserve := hobserver
  have htimeout' : node.retried.timeout = node.timeoutVal * 2 % 65536 := rfl
  have hcount' : node.retried.retransCount = node.retransCount + 1 := rfl
  rw [remaining_request hobserver, remaining_request hobserver', htimeout', hcount']
  omega

/-- A request that is not stranded is removed, or less of it remains. -/
theorem sweepNode_remaining {node : SendNode} (hobserver : node.observer = coapDeregisterObserve)
    (h : ¬Stranded node) :
    (sweepNode node).2 = true ∨ remaining (sweepNode node).1 < remaining node := by
  cases htimeout : node.timeout with
  | succ t =>
      right
      have hobserver' : ({ node with timeout := t } : SendNode).observer =
          coapDeregisterObserve := hobserver
      rw [sweepNode_waiting htimeout, remaining_request hobserver, remaining_request hobserver',
        htimeout]
      dsimp only
      omega
  | zero =>
      by_cases hdue : Due node
      · right
        rw [sweepNode_due hdue]
        exact hdue.remaining_lt
      · left
        have hspent : coapMaxRetryCount ≤ node.retransCount := by
          by_contra hleft
          have hcount := Nat.not_le.mp hleft
          cases hacked : node.acked with
          | true => exact h ⟨hobserver, hacked, hcount⟩
          | false => exact hdue ⟨htimeout, hcount, hacked, hobserver⟩
        rw [sweepNode_idle htimeout hdue, decide_eq_true hspent, decide_eq_true hobserver]
        rfl

/-- A cycle leaves what decides whether a node is stranded, but for more retransmissions. -/
theorem sweepNode_fields (node : SendNode) :
    (sweepNode node).1.observer = node.observer ∧ (sweepNode node).1.acked = node.acked ∧
      node.retransCount ≤ (sweepNode node).1.retransCount := by
  cases htimeout : node.timeout with
  | succ t =>
      rw [sweepNode_waiting htimeout]
      exact ⟨rfl, rfl, Nat.le_refl _⟩
  | zero =>
      by_cases hdue : Due node
      · rw [sweepNode_due hdue]
        exact ⟨rfl, rfl, Nat.le_succ _⟩
      · rw [sweepNode_idle htimeout hdue]
        exact ⟨rfl, rfl, Nat.le_refl _⟩

theorem sweepNode_not_stranded {node : SendNode} (h : ¬Stranded node) :
    ¬Stranded (sweepNode node).1 := by
  obtain ⟨hobserver, hacked, hcount⟩ := sweepNode_fields node
  rintro ⟨hobserver', hacked', hcount'⟩
  exact h ⟨hobserver ▸ hobserver', hacked ▸ hacked', Nat.lt_of_le_of_lt hcount hcount'⟩

/-- A stranded node stays, and stays stranded. -/
theorem Stranded.sweepNode {node : SendNode} (h : Stranded node) :
    (Coap.sweepNode node).2 = false ∧ Stranded (Coap.sweepNode node).1 := by
  cases htimeout : node.timeout with
  | succ t =>
      rw [sweepNode_waiting htimeout]
      exact ⟨rfl, h⟩
  | zero =>
      have hdue : ¬Due node := fun hdue => Bool.false_ne_true (hdue.2.2.1.symm.trans h.2.1)
      rw [sweepNode_idle htimeout hdue, decide_eq_false (Nat.not_le.mpr h.2.2)]
      exact ⟨rfl, h⟩

/-! ## What a list loses -/

/-- The loop, where the first node stays or is removed. -/
theorem sweepLoop_cons (node : SendNode) (nodes : List SendNode) :
    (sweepLoop (node :: nodes)).1 =
      if (sweepNode node).2 then nodes else (sweepNode node).1 :: (sweepLoop nodes).1 := by
  rw [sweepLoop]
  split
  next h => rw [h, if_pos rfl]
  next h => rw [h, if_neg Bool.false_ne_true]

theorem sweepLoop_not_stranded {nodes : List SendNode} (h : ∀ node ∈ nodes, ¬Stranded node) :
    ∀ node ∈ (sweepLoop nodes).1, ¬Stranded node := by
  induction nodes with
  | nil => exact h
  | cons node nodes ih =>
      have hrest : ∀ node' ∈ nodes, ¬Stranded node' := fun node' hnode' =>
        h node' (List.mem_cons_of_mem _ hnode')
      intro node' hnode'
      rw [sweepLoop_cons] at hnode'
      split at hnode'
      · exact hrest node' hnode'
      · cases List.mem_cons.mp hnode' with
        | inl heq =>
            rw [heq]
            exact sweepNode_not_stranded (h node List.mem_cons_self)
        | inr hmem => exact ih hrest node' hmem

theorem sweepLoop_stranded {nodes : List SendNode} (h : ∃ node ∈ nodes, Stranded node) :
    ∃ node ∈ (sweepLoop nodes).1, Stranded node := by
  induction nodes with
  | nil => exact h
  | cons node nodes ih =>
      obtain ⟨node', hnode', hstranded⟩ := h
      rw [sweepLoop_cons]
      cases List.mem_cons.mp hnode' with
      | inl heq =>
          obtain ⟨hstays, hstranded⟩ := (heq ▸ hstranded : Stranded node).sweepNode
          rw [hstays, if_neg Bool.false_ne_true]
          exact ⟨_, List.mem_cons_self, hstranded⟩
      | inr hmem =>
          split
          · exact ⟨node', hmem, hstranded⟩
          · obtain ⟨node'', hmem, hstranded⟩ := ih ⟨node', hmem, hstranded⟩
            exact ⟨node'', List.mem_cons_of_mem _ hmem, hstranded⟩

/-- A cycle takes something off what remains of a list with a request in it: the nodes in front
of the first request stay, and it is that request's turn. -/
theorem sweepLoop_remaining {nodes : List SendNode} (h : ∀ node ∈ nodes, ¬Stranded node) :
    totalRemaining (sweepLoop nodes).1 ≤ totalRemaining nodes ∧
      ((∃ node ∈ nodes, node.observer = coapDeregisterObserve) →
        totalRemaining (sweepLoop nodes).1 < totalRemaining nodes) := by
  induction nodes with
  | nil => exact ⟨Nat.le_refl _, nofun⟩
  | cons node nodes ih =>
      obtain ⟨hle, hlt⟩ := ih fun node' hnode' => h node' (List.mem_cons_of_mem _ hnode')
      rw [sweepLoop_cons]
      by_cases hobserver : node.observer = coapDeregisterObserve
      · -- a request: it goes, or less of it remains
        have hless : totalRemaining (if (sweepNode node).2 then nodes
            else (sweepNode node).1 :: (sweepLoop nodes).1) < totalRemaining (node :: nodes) := by
          cases sweepNode_remaining hobserver (h node List.mem_cons_self) with
          | inl hremoved =>
              rw [if_pos hremoved]
              exact Nat.lt_add_of_pos_left (remaining_pos hobserver)
          | inr hnode =>
              split
              · exact Nat.lt_add_of_pos_left (remaining_pos hobserver)
              · exact Nat.add_lt_add_of_lt_of_le hnode hle
        exact ⟨Nat.le_of_lt hless, fun _ => hless⟩
      · -- one that observes counts for nothing and stays
        have hstays : ¬(sweepNode node).2 = true := fun hremoved =>
          hobserver (sweepNode_removed hremoved)
        have hnone := remaining_observer hobserver
        have hnone' : remaining (sweepNode node).1 = 0 :=
          remaining_observer (by rw [(sweepNode_fields node).1]; exact hobserver)
        rw [if_neg hstays]
        simp only [totalRemaining, List.map_cons, List.sum_cons, hnone, hnone', Nat.zero_add]
        refine ⟨hle, ?_⟩
        rintro ⟨node', hnode', hobserver'⟩
        cases List.mem_cons.mp hnode' with
        | inl heq => exact absurd (heq ▸ hobserver') hobserver
        | inr hmem => exact hlt ⟨node', hmem, hobserver'⟩

/-! ## Lists that are emptied -/

theorem cycle_not_stranded {context : Context} (h : ∀ node ∈ context.sendlist, ¬Stranded node)
    (n : Nat) : ∀ node ∈ (coapMessageCycle^[n] context).sendlist, ¬Stranded node := by
  induction n with
  | zero => exact h
  | succ n ih =>
      rw [Function.iterate_succ_apply', coapMessageCycle_sendlist]
      exact sweepLoop_not_stranded ih

theorem cycle_stranded {context : Context} (h : ∃ node ∈ context.sendlist, Stranded node)
    (n : Nat) : ∃ node ∈ (coapMessageCycle^[n] context).sendlist, Stranded node := by
  induction n with
  | zero => exact h
  | succ n ih =>
      rw [Function.iterate_succ_apply', coapMessageCycle_sendlist]
      exact sweepLoop_stranded ih

/-- Without a stranded node the requests are gone after as many cycles as remain of them. -/
theorem discards_of_not_stranded {context : Context}
    (h : ∀ node ∈ context.sendlist, ¬Stranded node) : Discards context := by
  induction hsize : totalRemaining context.sendlist using Nat.strongRecOn generalizing context with
  | ind size ih =>
      by_cases hrequest : ∃ node ∈ context.sendlist, node.observer = coapDeregisterObserve
      · have hless := (sweepLoop_remaining h).2 hrequest
        obtain ⟨n, hn⟩ := @ih _ (by rw [← hsize]; exact hless) (coapMessageCycle context)
          (cycle_not_stranded h 1) rfl
        exact ⟨n + 1, hn⟩
      · exact ⟨0, fun node hnode hobserver => hrequest ⟨node, hnode, hobserver⟩⟩

theorem discards_iff {context : Context} :
    Discards context ↔ ∀ node ∈ context.sendlist, ¬Stranded node := by
  constructor
  · rintro ⟨n, hn⟩ node hnode hstranded
    obtain ⟨node', hnode', hstranded'⟩ := cycle_stranded ⟨node, hnode, hstranded⟩ n
    exact hn node' hnode' hstranded'.1
  · exact discards_of_not_stranded

/-! ## Runs -/

/-- The datagram is an ACK, and the first node with its message id is a request that has
retransmissions left. -/
def Strands (m : Machine) : Action → Prop
  | .receive message _ =>
      coapAckMsg message.header = true ∧
        ∃ node, m.context.sendlist.find? (·.msgid = message.header.msgid) = some node ∧
          node.observer = coapDeregisterObserve ∧ node.retransCount < coapMaxRetryCount
  | _ => False

/-- No request in the list is stranded. -/
def NoneStranded (m : Machine) : Prop := ∀ node ∈ m.context.sendlist, ¬Stranded node

theorem markAcked_mem {msgid : Nat} {nodes : List SendNode} {node : SendNode}
    (h : node ∈ markAcked msgid nodes) :
    node ∈ nodes ∨
      ∃ found, nodes.find? (·.msgid = msgid) = some found ∧
        node = { found with acked := true } := by
  induction nodes with
  | nil => exact .inl h
  | cons head nodes ih =>
      rw [markAcked] at h
      split at h
      next hmsgid =>
        cases List.mem_cons.mp h with
        | inl heq => exact .inr ⟨head, List.find?_cons_of_pos (decide_eq_true hmsgid), heq⟩
        | inr hmem => exact .inl (List.mem_cons_of_mem _ hmem)
      next hmsgid =>
        cases List.mem_cons.mp h with
        | inl heq => exact .inl (heq ▸ List.mem_cons_self)
        | inr hmem =>
            cases ih hmem with
            | inl hmem => exact .inl (List.mem_cons_of_mem _ hmem)
            | inr hfound =>
                obtain ⟨found, hfind, heq⟩ := hfound
                refine .inr ⟨found, ?_, heq⟩
                rw [List.find?_cons_of_neg (by simpa using hmsgid), hfind]

theorem markAcked_found {msgid : Nat} {nodes : List SendNode} {found : SendNode}
    (h : nodes.find? (·.msgid = msgid) = some found) :
    { found with acked := true } ∈ markAcked msgid nodes := by
  induction nodes with
  | nil => cases h
  | cons head nodes ih =>
      rw [markAcked]
      split
      next hmsgid =>
        have hfirst : (head :: nodes).find? (·.msgid = msgid) = some head :=
          List.find?_cons_of_pos (decide_eq_true hmsgid)
        rw [hfirst] at h
        cases h
        exact List.mem_cons_self
      next hmsgid =>
        rw [List.find?_cons_of_neg (by simpa using hmsgid)] at h
        exact List.mem_cons_of_mem _ (ih h)

variable {m m' : Machine}

/-- A send puts at most its own node, which is not acknowledged, in the list. -/
theorem sendRequest_sendlist {observe : Bool} {p : IotxMessage} {write : Bool}
    {alloc : Allocation} (h : sendRequest m observe p write alloc = .ok m') :
    ∀ node ∈ m'.context.sendlist, node ∈ m.context.sendlist ∨ node.acked = false := by
  obtain ⟨⟨sent, client⟩, hsend, h⟩ := bind_eq_ok.mp h
  cases h
  obtain ⟨⟨message, client'⟩, hmessage, hsend⟩ := bind_eq_ok.mp hsend
  obtain ⟨sent', hsent, hsend⟩ := bind_eq_ok.mp hsend
  cases hsend
  obtain ⟨-, -, -, -, rfl⟩ := clientMessage_eq_ok hmessage
  obtain ⟨hsendlist, -, -⟩ := coapMessageIdGen_count m.client.context
  intro node hnode
  obtain ⟨-, ⟨-, bytes, hcontext⟩ | ⟨-, hcontext⟩⟩ := coapMessageSend_eq_ok hsent
  · have hnode : node ∈ sent.context.sendlist := hnode
    rw [hcontext, Context.listed, hsendlist] at hnode
    cases List.mem_append.mp hnode with
    | inl hmem => exact .inl hmem
    | inr hnew =>
        rw [List.mem_singleton.mp hnew]
        exact .inr rfl
  · have hnode : node ∈ sent.context.sendlist := hnode
    rw [hcontext, hsendlist] at hnode
    exact .inl hnode

theorem coapRespMessageHandled_mem {context context' : Context} {id : Nat}
    (h : coapRespMessageHandled context id = .ok context') {node : SendNode}
    (hnode : node ∈ context'.sendlist) : node ∈ context.sendlist := by
  rw [coapRespMessageHandled] at h
  split at h
  · cases h
  · split at h
    · cases h
      exact List.mem_of_mem_eraseP hnode
    · cases h
      exact hnode

theorem NoneStranded.step {a : Action} (h : NoneStranded m) (ha : ¬Strands m a)
    (hstep : Coap.step m a = .ok m') : NoneStranded m' := by
  cases a with
  | send observe p write alloc =>
      intro node hnode hstranded
      cases sendRequest_sendlist (checked_eq_ok.mp hstep) node hnode with
      | inl hmem => exact h node hmem hstranded
      | inr hacked => exact Bool.false_ne_true (hacked.symm.trans hstranded.2.1)
  | receive message write =>
      cases step_effect hstep with
      | acked hack =>
          intro node hnode hstranded
          cases markAcked_mem hnode with
          | inl hmem => exact h node hmem hstranded
          | inr hfound =>
              obtain ⟨found, hfind, rfl⟩ := hfound
              exact ha ⟨hack, found, hfind, hstranded.1, hstranded.2.2⟩
      | ignored => exact h
      | called => exact h
      | unhandled _ _ hcontext =>
          exact fun node hnode => h node (coapRespMessageHandled_mem hcontext hnode)
  | handled =>
      cases step_effect hstep with
      | returned _ hcontext =>
          exact fun node hnode => h node (coapRespMessageHandled_mem hcontext hnode)
  | cycle =>
      cases step_effect hstep with
      | swept => exact sweepLoop_not_stranded h

/-- An ACK for a request with retransmissions left strands it. -/
theorem strands_not_discards {a : Action} (ha : Strands m a) :
    ∃ m', Coap.step m a = .ok m' ∧ ¬Discards m'.context := by
  cases a with
  | send => exact ha.elim
  | handled => exact ha.elim
  | cycle => exact ha.elim
  | receive message write =>
      obtain ⟨hack, node, hfind, hobserver, hcount⟩ := ha
      have hreceive : receive m message write =
          .ok (m.setContext (coapAckMessageHandle m.context message)) := by
        rw [receive, if_pos hack]
      refine ⟨_, by rw [Coap.step, hreceive]; rfl, fun hdiscards => ?_⟩
      exact discards_iff.mp hdiscards _ (markAcked_found hfind) ⟨hobserver, rfl, hcount⟩

/-- In every state that a run comes through the requests would be discarded, if and only if
no ACK of the run is for a request with retransmissions left. -/
theorem always_discards_iff (actions : List Action) :
    (∀ done m, done <+: actions → Runs.run Coap.step .initial done = .ok m →
      Discards m.context) ↔
      Guarded Coap.step (fun m a => ¬Strands m a) .initial actions :=
  @always_good_iff _ _ _ Coap.step (fun m a => ¬Strands m a) NoneStranded
    (fun m => Discards m.context) (fun h => discards_of_not_stranded h)
    (fun h ha hstep => h.step ha hstep) (fun _ ha => strands_not_discards (not_not.mp ha)) _ _ nofun

/-- A request and its ACK. -/
theorem acked_request_not_discards :
    ∃ m, Runs.run Coap.step .initial
        [.send false ⟨none, none, none, 1, false, none⟩ true ⟨true, true⟩,
          .receive ⟨⟨1, coapMessageTypeAck, 0, coapMsgCodeEmptyMessage, 1⟩, [], [], none, 0⟩ true] =
        .ok m ∧ ¬Discards m.context := by
  obtain ⟨m, hm, hlist⟩ := run_loneRequest
  obtain ⟨m', hstep, hnot⟩ := strands_not_discards (m := m)
    (a := .receive ⟨⟨1, coapMessageTypeAck, 0, coapMsgCodeEmptyMessage, 1⟩, [], [], none, 0⟩ true)
    ⟨by decide, sendNode loneMessage loneSent 0 ⟨true, true⟩, by rw [hlist]; rfl, rfl,
      by decide⟩
  exact ⟨m', run_append.mpr ⟨m, hm, run_cons.mpr ⟨m', hstep, rfl⟩⟩, hnot⟩

end IotKit.Coap
