import IotKit.Coap.Exchange

/-!
# Retransmission

What `CoAPMessage_cycle` does to a node and what it writes.  A node counts its timeout down;
then a request that is not acknowledged is written again and waits twice as long.  The count
of the retransmissions is compared with its limit and the new timeout with the span in the
same cycle, and the span is passed first: a confirmable request is removed in the cycle of
its third retransmission.
-/

namespace IotKit.Coap

open CMemory Runs

/-! ## One node -/

/-- The node is written in the next cycle that comes to it. -/
def Due (node : SendNode) : Prop :=
  node.timeout = 0 ∧ node.retransCount < coapMaxRetryCount ∧ node.acked = false ∧
    node.observer = coapDeregisterObserve

instance (node : SendNode) : Decidable (Due node) := inferInstanceAs (Decidable (_ ∧ _))

/-- A node after a retransmission. -/
def SendNode.retried (node : SendNode) : SendNode :=
  { node with
    timeout := node.timeoutVal * 2 % 65536
    timeoutVal := node.timeoutVal * 2 % 65536
    retransCount := node.retransCount + 1 }

theorem sweepNode_waiting {node : SendNode} {t : Nat} (h : node.timeout = t + 1) :
    sweepNode node = ({ node with timeout := t }, false) := by
  rw [sweepNode, if_neg (by omega), h]
  rfl

theorem sweepNode_due {node : SendNode} (h : Due node) :
    sweepNode node = (node.retried,
      decide (coapMaxTransmissionSpan < node.retried.timeout) ||
        decide (coapMaxRetryCount ≤ node.retransCount + 1)) := by
  obtain ⟨htimeout, hcount, hacked, hobserver⟩ := h
  rw [sweepNode, if_pos htimeout, retransmit, if_pos ⟨hcount, hacked, hobserver⟩]
  change (node.retried, (_ || _) && decide (node.observer = coapDeregisterObserve)) = _
  rw [decide_eq_true hobserver, Bool.and_true]
  rfl

/-- The time of a node is over and it is not written: it is removed if it has used up its
retransmissions and does not observe. -/
theorem sweepNode_idle {node : SendNode} (htimeout : node.timeout = 0) (h : ¬Due node) :
    sweepNode node = (node, decide (coapMaxRetryCount ≤ node.retransCount) &&
      decide (node.observer = coapDeregisterObserve)) := by
  have hspan : ¬coapMaxTransmissionSpan < 0 := by decide
  rw [sweepNode, if_pos htimeout, retransmit, if_neg fun hdue => h ⟨htimeout, hdue⟩]
  simp only [htimeout, hspan, decide_false, Bool.false_or]

/-! ## What a cycle writes -/

/-- The messages that the loop of `CoAPMessage_cycle` gives to the network. -/
def sweepWrites : List SendNode → List (Option Bytes)
  | [] => []
  | node :: nodes =>
      let written := if Due node then [node.message] else []
      match sweepNode node with
      | (_, true) => written
      | (_, false) => written ++ sweepWrites nodes

theorem sweepWrites_single (node : SendNode) :
    sweepWrites [node] = if Due node then [node.message] else [] := by
  rw [sweepWrites]
  split
  · rfl
  · exact List.append_nil _

theorem sweepLoop_single (node : SendNode) :
    (sweepLoop [node]).1 = if (sweepNode node).2 then [] else [(sweepNode node).1] := by
  rw [sweepLoop]
  split
  next h => rw [h, if_pos rfl]
  next h => rw [h, if_neg Bool.false_ne_true]; rfl

/-! ## Cycles with other datagrams -/

/-- The datagram is neither an acknowledgement of the request nor a response to it. -/
def Unrelated (node : SendNode) (message : Received) : Prop :=
  (coapAckMsg message.header = true → node.msgid ≠ message.header.msgid) ∧
    (coapRespMsg message.header = true → tokenMatches message node = false)

/-- One call of `CoAPMessage_cycle`, with the datagrams that it finds. -/
def cycleActions (datagrams : List (Received × Bool)) : List Action :=
  datagrams.map (fun d => .receive d.1 d.2) ++ [.cycle]

/-- The machine after so many calls. -/
def cycled (m : Machine) (datagrams : Nat → List (Received × Bool)) : Nat → Except Stop Machine
  | 0 => .ok m
  | k + 1 =>
      match cycled m datagrams k with
      | .ok m' => run step m' (cycleActions (datagrams k))
      | .error e => .error e

theorem markAcked_unrelated {msgid : Nat} {nodes : List SendNode}
    (h : ∀ node ∈ nodes, node.msgid ≠ msgid) : markAcked msgid nodes = nodes := by
  induction nodes with
  | nil => rfl
  | cons node nodes ih =>
      rw [markAcked, if_neg (h node List.mem_cons_self),
        ih fun node' hnode' => h node' (List.mem_cons_of_mem _ hnode')]

/-- Datagrams for none of the nodes leave the list alone. -/
theorem receive_unrelated {m : Machine} {message : Received} (write : Bool)
    (h : ∀ node ∈ m.context.sendlist, Unrelated node message) :
    ∃ m', step m (.receive message write) = .ok m' ∧
      m'.context.sendlist = m.context.sendlist ∧ m'.frames = m.frames := by
  rw [step, receive]
  cases hack : coapAckMsg message.header with
  | true =>
      refine ⟨_, rfl, markAcked_unrelated fun node hnode => ?_, rfl⟩
      exact (h node hnode).1 hack
  | false =>
      cases hresp : coapRespMsg message.header with
      | false => exact ⟨_, rfl, rfl, rfl⟩
      | true =>
          have hfind : m.context.sendlist.find? (tokenMatches message) = none :=
            List.find?_eq_none.mpr fun node hnode => by simp [(h node hnode).2 hresp]
          simp only [coapRespMessageHandle_eq, hfind]
          exact ⟨_, rfl, rfl, rfl⟩

theorem run_receives {datagrams : List (Received × Bool)} {m : Machine}
    (h : ∀ d ∈ datagrams, ∀ node ∈ m.context.sendlist, Unrelated node d.1) :
    ∃ m', run step m (datagrams.map fun d => .receive d.1 d.2) = .ok m' ∧
      m'.context.sendlist = m.context.sendlist ∧ m'.frames = m.frames := by
  induction datagrams generalizing m with
  | nil => exact ⟨m, rfl, rfl, rfl⟩
  | cons d datagrams ih =>
      obtain ⟨m₁, hstep, hlist, hframes⟩ :=
        receive_unrelated d.2 (h d List.mem_cons_self)
      obtain ⟨m', hrun, hlist', hframes'⟩ := @ih m₁ fun d' hd' => by
        rw [hlist]
        exact h d' (List.mem_cons_of_mem _ hd')
      exact ⟨m', run_cons.mpr ⟨m₁, hstep, hrun⟩, hlist'.trans hlist, hframes'.trans hframes⟩

/-- A call that finds no datagram for the nodes is its loop. -/
theorem run_cycleActions {datagrams : List (Received × Bool)} {m : Machine}
    (h : ∀ d ∈ datagrams, ∀ node ∈ m.context.sendlist, Unrelated node d.1) :
    ∃ m', run step m (cycleActions datagrams) = .ok m' ∧
      m'.context.sendlist = (sweepLoop m.context.sendlist).1 ∧ m'.frames = m.frames := by
  obtain ⟨m₁, hrun, hlist, hframes⟩ := run_receives h
  have hstep : step m₁ .cycle = .ok (m₁.setContext (coapMessageCycle m₁.context)) := rfl
  refine ⟨_, run_append.mpr ⟨m₁, hrun, run_cons.mpr ⟨_, hstep, rfl⟩⟩, ?_, hframes⟩
  rw [← hlist]
  rfl

/-! ## A request alone in the list -/

/-- The list before each cycle keeps the schedule of the retransmissions of its request: it is
written in as many cycles as the limit says, its waiting time doubles each time, and no cycle
that writes it removes it. -/
structure KeepsSchedule (lists : Nat → List SendNode) : Prop where
  retries : ∃ cycles : List Nat, cycles.Nodup ∧ cycles.length = coapMaxRetryCount ∧
    ∀ k, sweepWrites (lists k) ≠ [] ↔ k ∈ cycles
  doubles : ∀ k, ∀ node ∈ lists k, Due node → ∀ node' ∈ lists (k + 1),
    node'.timeout = 2 * node.timeoutVal ∧ node'.timeoutVal = 2 * node.timeoutVal
  removed : ∀ k, lists k ≠ [] → lists (k + 1) = [] → sweepWrites (lists k) = []

/-- The list before the cycles, so many of them done. -/
def sendlistAt (m : Machine) (datagrams : Nat → List (Received × Bool)) (k : Nat) :
    List SendNode :=
  match cycled m datagrams k with
  | .ok m' => m'.context.sendlist
  | .error _ => []

/-- Before its first transmission is over the node is as `CoAPMessageList_add` made it. -/
structure Fresh (node : SendNode) : Prop where
  acked : node.acked = false
  observer : node.observer = coapDeregisterObserve
  timeout : node.timeout = 2
  timeoutVal : node.timeoutVal = 2
  retransCount : node.retransCount = 0

theorem sendNode_fresh {message : Message} (sent : Bytes) (id : Nat) (alloc : Allocation)
    (hcon : message.header.type = coapMessageTypeCon)
    (hobserver : message.observer = coapDeregisterObserve) :
    Fresh (sendNode message sent id alloc) := by
  refine ⟨rfl, hobserver, ?_, rfl, ?_⟩
  · rw [sendNode, decide_eq_true hcon]
    rfl
  · rw [sendNode, decide_eq_true hcon]
    rfl

/-- A node that waits, with the time that remains and the retransmissions done. -/
def SendNode.waits (node : SendNode) (timeout timeoutVal retransCount : Nat) : SendNode :=
  { node with timeout, timeoutVal, retransCount }

/-- The list of a request alone, after so many cycles. -/
def aloneAfter (node : SendNode) (k : Nat) : List SendNode :=
  if k ≤ 2 then [node.waits (2 - k) 2 0]
  else if k ≤ 7 then [node.waits (7 - k) 4 1]
  else if k ≤ 16 then [node.waits (16 - k) 8 2]
  else []

section Alone

variable {node : SendNode}

theorem Fresh.waits_eq (h : Fresh node) : node.waits (2 - 0) 2 0 = node := by
  obtain ⟨-, -, htimeout, htimeoutVal, hcount⟩ := h
  cases node
  cases htimeout
  cases htimeoutVal
  cases hcount
  rfl

theorem sweepLoop_waits {timeout timeoutVal retransCount : Nat} (h : 0 < timeout) :
    (sweepLoop [node.waits timeout timeoutVal retransCount]).1 =
        [node.waits (timeout - 1) timeoutVal retransCount] ∧
      sweepWrites [node.waits timeout timeoutVal retransCount] = [] := by
  obtain ⟨t, rfl⟩ := Nat.exists_eq_succ_of_ne_zero (Nat.ne_of_gt h)
  constructor
  · rw [sweepLoop_single, sweepNode_waiting (t := t) rfl, if_neg Bool.false_ne_true]
    rfl
  · rw [sweepWrites_single, if_neg]
    rintro ⟨hzero, -⟩
    exact Nat.succ_ne_zero t hzero

theorem Fresh.due (h : Fresh node) {timeoutVal retransCount : Nat} (hcount : retransCount < 4) :
    Due (node.waits 0 timeoutVal retransCount) := ⟨rfl, hcount, h.acked, h.observer⟩

theorem Fresh.sweepLoop_due (h : Fresh node) {timeoutVal retransCount : Nat}
    (hcount : retransCount < 4) :
    (sweepLoop [node.waits 0 timeoutVal retransCount]).1 =
        (if 10 < timeoutVal * 2 % 65536 ∨ 4 ≤ retransCount + 1 then []
        else [node.waits (timeoutVal * 2 % 65536) (timeoutVal * 2 % 65536) (retransCount + 1)]) ∧
      sweepWrites [node.waits 0 timeoutVal retransCount] = [node.message] := by
  have hdue : Due (node.waits 0 timeoutVal retransCount) := h.due hcount
  constructor
  · rw [sweepLoop_single, sweepNode_due hdue]
    simp only [Bool.or_eq_true, decide_eq_true_eq]
    rfl
  · rw [sweepWrites_single, if_pos hdue]
    rfl

/-- The three waiting times come one after the other, and with the fourth the request is
removed. -/
theorem Fresh.sweepLoop_aloneAfter (h : Fresh node) (k : Nat) :
    (sweepLoop (aloneAfter node k)).1 = aloneAfter node (k + 1) := by
  by_cases h2 : k < 2
  · rw [aloneAfter, if_pos (by omega), (sweepLoop_waits (by omega)).1, aloneAfter,
      if_pos (by omega), Nat.sub_sub]
  by_cases hfirst : k = 2
  · rw [hfirst, aloneAfter, if_pos (by omega), (h.sweepLoop_due (by omega)).1]
    rfl
  by_cases h7 : k < 7
  · rw [aloneAfter, if_neg (by omega), if_pos (by omega), (sweepLoop_waits (by omega)).1,
      aloneAfter, if_neg (by omega), if_pos (by omega), Nat.sub_sub]
  by_cases hsecond : k = 7
  · rw [hsecond, aloneAfter, if_neg (by omega), if_pos (by omega), (h.sweepLoop_due (by omega)).1]
    rfl
  by_cases h16 : k < 16
  · rw [aloneAfter, if_neg (by omega), if_neg (by omega), if_pos (by omega),
      (sweepLoop_waits (by omega)).1, aloneAfter, if_neg (by omega), if_neg (by omega),
      if_pos (by omega), Nat.sub_sub]
  by_cases hthird : k = 16
  · rw [hthird, aloneAfter, if_neg (by omega), if_neg (by omega), if_pos (by omega),
      (h.sweepLoop_due (by omega)).1]
    rfl
  · rw [aloneAfter, if_neg (by omega), if_neg (by omega), if_neg (by omega), aloneAfter,
      if_neg (by omega), if_neg (by omega), if_neg (by omega)]
    rfl

/-- The message is written in three cycles. -/
theorem Fresh.sweepWrites_aloneAfter (h : Fresh node) (k : Nat) :
    sweepWrites (aloneAfter node k) ≠ [] ↔ k ∈ [2, 7, 16] := by
  have hwrites {timeoutVal retransCount : Nat} (hcount : retransCount < 4) :
      sweepWrites [node.waits 0 timeoutVal retransCount] ≠ [] := by
    rw [(h.sweepLoop_due hcount).2]
    exact List.cons_ne_nil _ _
  have hquiet {timeout timeoutVal retransCount : Nat} (hpos : 0 < timeout) :
      ¬sweepWrites [node.waits timeout timeoutVal retransCount] ≠ [] :=
    not_not.mpr (sweepLoop_waits hpos).2
  simp only [List.mem_cons, List.not_mem_nil, or_false]
  rw [aloneAfter]
  split
  next h2 =>
    by_cases hfirst : k = 2
    · rw [hfirst]
      exact iff_of_true (hwrites (by decide)) (by decide)
    · exact iff_of_false (hquiet (by omega)) (by omega)
  next =>
    split
    next h7 =>
      by_cases hsecond : k = 7
      · rw [hsecond]
        exact iff_of_true (hwrites (by decide)) (by decide)
      · exact iff_of_false (hquiet (by omega)) (by omega)
    next =>
      split
      next h16 =>
        by_cases hthird : k = 16
        · rw [hthird]
          exact iff_of_true (hwrites (by decide)) (by decide)
        · exact iff_of_false (hquiet (by omega)) (by omega)
      next h17 => exact iff_of_false (not_not.mpr rfl) (by omega)

/-- A list that starts with a request alone, and is left to the cycles. -/
theorem Fresh.not_keepsSchedule (h : Fresh node) {lists : Nat → List SendNode}
    (hlists : ∀ k, lists k = aloneAfter node k) : ¬KeepsSchedule lists := by
  intro hkeeps
  -- the last of the three cycles that write is the one that removes
  refine (h.sweepWrites_aloneAfter 16).mpr (by decide) ?_
  rw [← hlists]
  exact hkeeps.removed 16 (by rw [hlists]; exact List.cons_ne_nil _ _) (by rw [hlists]; rfl)

theorem waits_unrelated {message : Received} (h : Unrelated node message) (k : Nat) :
    ∀ node' ∈ aloneAfter node k, Unrelated node' message := by
  intro node' hnode'
  rw [aloneAfter] at hnode'
  split at hnode'
  · rw [List.mem_singleton.mp hnode']
    exact h
  split at hnode'
  · rw [List.mem_singleton.mp hnode']
    exact h
  split at hnode'
  · rw [List.mem_singleton.mp hnode']
    exact h
  · cases hnode'

/-- The cycles go on, whatever else is received, and the list is that of the request alone. -/
theorem Fresh.cycled (h : Fresh node) {m : Machine} {datagrams : Nat → List (Received × Bool)}
    (hlist : m.context.sendlist = [node])
    (hquiet : ∀ k, ∀ d ∈ datagrams k, Unrelated node d.1) (k : Nat) :
    ∃ m', Coap.cycled m datagrams k = .ok m' ∧ m'.context.sendlist = aloneAfter node k ∧
      m'.frames = m.frames := by
  induction k with
  | zero =>
      refine ⟨m, rfl, hlist.trans ?_, rfl⟩
      rw [aloneAfter, if_pos (Nat.zero_le 2), h.waits_eq]
  | succ k ih =>
      obtain ⟨m₁, hcycled, hlist₁, hframes⟩ := ih
      obtain ⟨m', hrun, hlist', hframes'⟩ := @run_cycleActions (datagrams k) m₁
        fun d hd node' hnode' => waits_unrelated (hquiet k d hd) k node' (hlist₁ ▸ hnode')
      refine ⟨m', ?_, ?_, hframes'.trans hframes⟩
      · rw [Coap.cycled, hcycled]
        exact hrun
      · rw [hlist', hlist₁, h.sweepLoop_aloneAfter]

theorem Fresh.sendlistAt (h : Fresh node) {m : Machine}
    {datagrams : Nat → List (Received × Bool)} (hlist : m.context.sendlist = [node])
    (hquiet : ∀ k, ∀ d ∈ datagrams k, Unrelated node d.1) (k : Nat) :
    Coap.sendlistAt m datagrams k = aloneAfter node k := by
  obtain ⟨m', hcycled, hlist', -⟩ := h.cycled hlist hquiet k
  rw [Coap.sendlistAt, hcycled]
  exact hlist'

end Alone

/-- A confirmable request that does not observe, alone in the list, and no datagram that
acknowledges or answers it: it is written again in three cycles, the last of which removes it,
so that no such request keeps the schedule. -/
theorem alone_not_keepsSchedule {m : Machine} {message : Message} {sent : Bytes} {id : Nat}
    {alloc : Allocation} {datagrams : Nat → List (Received × Bool)}
    (hcon : message.header.type = coapMessageTypeCon)
    (hobserver : message.observer = coapDeregisterObserve)
    (hlist : m.context.sendlist = [sendNode message sent id alloc])
    (hquiet : ∀ k, ∀ d ∈ datagrams k, Unrelated (sendNode message sent id alloc) d.1) :
    (∀ k, sweepWrites (sendlistAt m datagrams k) ≠ [] ↔ k ∈ [2, 7, 16]) ∧
      sendlistAt m datagrams 16 ≠ [] ∧ sendlistAt m datagrams 17 = [] ∧
      ¬KeepsSchedule (sendlistAt m datagrams) := by
  have hfresh := sendNode_fresh sent id alloc hcon hobserver
  have hlists := hfresh.sendlistAt hlist hquiet
  refine ⟨fun k => ?_, ?_, ?_, hfresh.not_keepsSchedule hlists⟩
  · rw [hlists]
    exact hfresh.sweepWrites_aloneAfter k
  · rw [hlists]
    exact List.cons_ne_nil _ _
  · rw [hlists]
    rfl

/-- A GET without path, query or payload. -/
def loneMessage : Message :=
  ⟨⟨1, coapMessageTypeCon, 4, 1, 1⟩, [4, 3, 2, 1], [⟨12, [50]⟩, ⟨5, [42]⟩], 17, none, 0,
    coapDeregisterObserve, none⟩

/-- What is written for it. -/
def loneSent : Bytes := [68, 1, 0, 1, 4, 3, 2, 1, 193, 50, 81, 42]

theorem run_loneRequest :
    ∃ m, run step .initial [.send false ⟨none, none, none, 1, false, none⟩ true ⟨true, true⟩] =
        .ok m ∧
      m.context.sendlist = [sendNode loneMessage loneSent 0 ⟨true, true⟩] := by
  have hrun : (fun m : Machine => m.context.sendlist) <$>
      run step .initial [.send false ⟨none, none, none, 1, false, none⟩ true ⟨true, true⟩] =
        .ok [sendNode loneMessage loneSent 0 ⟨true, true⟩] := by decide
  exact map_eq_ok.mp hrun

/-- The first request, which nothing acknowledges or answers. -/
theorem lone_request_not_keepsSchedule :
    ∃ m, run step .initial [.send false ⟨none, none, none, 1, false, none⟩ true ⟨true, true⟩] =
        .ok m ∧ ¬KeepsSchedule (sendlistAt m fun _ => []) := by
  obtain ⟨m, hm, hlist⟩ := run_loneRequest
  have hfresh := @sendNode_fresh loneMessage loneSent 0 ⟨true, true⟩ rfl rfl
  exact ⟨m, hm, hfresh.not_keepsSchedule (hfresh.sendlistAt hlist fun _ _ hd => by cases hd)⟩

/-- The first request, with a response to another one in each cycle. -/
theorem lone_request_three_retries :
    ∃ m, run step .initial [.send false ⟨none, none, none, 1, false, none⟩ true ⟨true, true⟩] =
        .ok m ∧
      let received : Received :=
        ⟨⟨1, coapMessageTypeNon, 1, coapMsgCode205Content, 7⟩, [9], [], none, 0⟩
      ∀ k, sweepWrites (sendlistAt m (fun _ => [(received, true)]) k) ≠ [] ↔ k ∈ [2, 7, 16] := by
  obtain ⟨m, hm, hlist⟩ := run_loneRequest
  refine ⟨m, hm, (@alone_not_keepsSchedule _ loneMessage _ _ _ _ rfl rfl hlist ?_).1⟩
  intro _ d hd
  obtain rfl := List.mem_singleton.mp hd
  exact ⟨nofun, fun _ => by decide⟩

end IotKit.Coap
