import IotKit.Coap.Exchange

/-!
# The bound on the send list

`CoAPMessageList_add` compares the addresses of the two counters and not what is in them, so
that it refuses no node.  The count is that of the nodes and at most `maxcount` exactly in
the runs that never put a node in a full list.
-/

namespace IotKit.Coap

open CMemory Runs

/-- The count is that of the nodes, and it is not above `maxcount`. -/
structure Context.Bounded (context : Context) : Prop where
  count : context.count = context.sendlist.length
  max : context.count ≤ context.maxcount

/-- The list is full, and the send puts a node in it. -/
def Overfills (m : Machine) : Action → Prop
  | .send observe p write alloc =>
      m.context.sendlist.length = m.context.maxcount ∧ m.client.Lists observe p write alloc
  | _ => False

/-! ## What the functions do to the count -/

theorem coapMessageIdGen_count (context : Context) :
    (coapMessageIdGen context).2.sendlist = context.sendlist ∧
      (coapMessageIdGen context).2.count = context.count ∧
      (coapMessageIdGen context).2.maxcount = context.maxcount := by
  rw [coapMessageIdGen]
  split
  · exact ⟨rfl, rfl, rfl⟩
  · exact ⟨rfl, rfl, rfl⟩

/-- A node more, where there is room for one. -/
theorem Context.Bounded.listed {context : Context} (h : context.Bounded)
    (hroom : context.sendlist.length < context.maxcount) (hmax : context.maxcount < 256)
    (node : SendNode) : (context.listed node).Bounded := by
  have hcount := h.count
  constructor
  · rw [Context.listed, List.length_append, List.length_singleton]
    dsimp only
    omega
  · rw [Context.listed]
    dsimp only
    omega

/-- A node less. -/
theorem Context.Bounded.removed {context context' : Context} (h : context.Bounded)
    (hmax : context.maxcount < 256) (hmax' : context'.maxcount = context.maxcount)
    (hlength : context'.sendlist.length + 1 = context.sendlist.length)
    (hcount : context'.count = (context.count + 255) % 256) : context'.Bounded := by
  have hcount' := h.count
  have hle := h.max
  constructor
  · omega
  · omega

theorem Context.keys_length (context : Context) :
    context.keys.length = context.sendlist.length := List.length_map _

theorem coapRespMessageHandled_bounded {context context' : Context} {id : Nat}
    (h : context.Bounded) (hmax : context.maxcount < 256)
    (hcontext : coapRespMessageHandled context id = .ok context') :
    context'.Bounded ∧ context'.maxcount = context.maxcount := by
  obtain ⟨k, hfind, ⟨-, hkeys, hcount, -, hmax'⟩ | ⟨-, rfl⟩⟩ :=
    coapRespMessageHandled_eq_ok hcontext
  · have hlength := congrArg List.length hkeys
    rw [List.length_eraseP_of_mem (List.mem_of_find?_eq_some hfind) (List.find?_some hfind),
      context'.keys_length, context.keys_length] at hlength
    have hpos : 0 < context.sendlist.length := by
      rw [← context.keys_length]
      exact List.length_pos_of_mem (List.mem_of_find?_eq_some hfind)
    exact ⟨h.removed hmax hmax' (by omega) hcount, hmax'⟩
  · exact ⟨h, rfl⟩

theorem coapMessageCycle_bounded {context : Context} (h : context.Bounded)
    (hmax : context.maxcount < 256) : (coapMessageCycle context).Bounded := by
  have hlength := sweepLoop_length context.sendlist
  rw [coapMessageCycle]
  generalize sweepLoop context.sendlist = swept at hlength ⊢
  obtain ⟨sendlist, removed⟩ := swept
  cases removed with
  | true => exact h.removed hmax rfl hlength rfl
  | false => exact ⟨h.count.trans hlength.symm, h.max⟩

/-! ## Runs -/

/-- The list of a context made for ten nodes. -/
structure Capacity (m : Machine) : Prop where
  bounded : m.context.Bounded
  maxcount : m.context.maxcount = iotxListMaxItem

theorem Capacity.initial : Capacity .initial := ⟨⟨rfl, Nat.zero_le _⟩, rfl⟩

variable {m m' : Machine}

theorem Capacity.lt (h : Capacity m) : m.context.maxcount < 256 := by
  rw [h.maxcount]
  decide

/-- A message id generated leaves the list alone. -/
theorem Capacity.sent (h : Capacity m) :
    m.client.sent.context.Bounded ∧ m.client.sent.context.maxcount = iotxListMaxItem ∧
      m.client.sent.context.sendlist = m.context.sendlist := by
  obtain ⟨hsendlist, hcount, hmaxcount⟩ := coapMessageIdGen_count m.client.context
  refine ⟨⟨?_, ?_⟩, hmaxcount.trans h.maxcount, hsendlist⟩
  · rw [CoapClient.sent, hcount, hsendlist]
    exact h.bounded.count
  · rw [CoapClient.sent, hcount, hmaxcount]
    exact h.bounded.max

theorem Capacity.step (h : Capacity m) {a : Action} (ha : ¬Overfills m a)
    (hstep : Coap.step m a = .ok m') : Capacity m' := by
  cases step_effect hstep with
  | @listed observe p write alloc node hlists =>
      obtain ⟨hbounded, hmaxcount, hsendlist⟩ := h.sent
      have hroom : m.client.sent.context.sendlist.length < m.client.sent.context.maxcount := by
        have hne : m.context.sendlist.length ≠ m.context.maxcount := fun heq => ha ⟨heq, hlists⟩
        have hle := h.bounded.max
        rw [h.bounded.count, h.maxcount] at hle
        rw [h.maxcount] at hne
        rw [hmaxcount, hsendlist]
        exact Nat.lt_of_le_of_ne hle hne
      exact ⟨hbounded.listed hroom (by rw [hmaxcount]; decide) node, hmaxcount⟩
  | unlisted => exact ⟨h.sent.1, h.sent.2.1⟩
  | @acked message =>
      refine ⟨⟨?_, h.bounded.max⟩, h.maxcount⟩
      exact h.bounded.count.trans (markAcked_length message.header.msgid _).symm
  | ignored => exact ⟨h.bounded, h.maxcount⟩
  | called => exact ⟨h.bounded, h.maxcount⟩
  | unhandled _ _ hcontext =>
      obtain ⟨hbounded, hmaxcount⟩ := coapRespMessageHandled_bounded h.bounded h.lt hcontext
      exact ⟨hbounded, hmaxcount.trans h.maxcount⟩
  | returned _ hcontext =>
      obtain ⟨hbounded, hmaxcount⟩ := coapRespMessageHandled_bounded h.bounded h.lt hcontext
      exact ⟨hbounded, hmaxcount.trans h.maxcount⟩
  | swept => exact ⟨coapMessageCycle_bounded h.bounded h.lt, h.maxcount⟩

/-- A send that lists a message succeeds. -/
theorem sendRequest_lists {observe : Bool} {p : IotxMessage} {write : Bool} {alloc : Allocation}
    (h : m.client.Lists observe p write alloc) :
    ∃ m', Coap.step m (.send observe p write alloc) = .ok m' := by
  obtain ⟨message, client, out, hmessage, hout, hlisted⟩ := h
  obtain ⟨sent, hsent, -⟩ := coapMessageSend_listed client.context client.sends hout hlisted
  have hclient : clientSend observe m.client p write alloc =
      .ok (sent, { client with context := sent.context, sends := client.sends + 1 }) :=
    bind_eq_ok.mpr ⟨(message, client), hmessage, bind_eq_ok.mpr ⟨sent, hsent, rfl⟩⟩
  exact ⟨_, checked_eq_ok.mpr (bind_eq_ok.mpr ⟨_, hclient, rfl⟩)⟩

/-- A node is put in a full list all the same. -/
theorem Capacity.overfilled (h : Capacity m) {a : Action} (ha : Overfills m a) :
    ∃ m', Coap.step m a = .ok m' ∧ ¬m'.context.Bounded := by
  cases a with
  | send observe p write alloc =>
      obtain ⟨hfull, hlists⟩ := ha
      obtain ⟨m', hstep⟩ := sendRequest_lists hlists
      refine ⟨m', hstep, fun hbounded => ?_⟩
      have hle := hbounded.max
      rw [hbounded.count] at hle
      cases step_effect hstep with
      | @listed _ _ _ _ node =>
          obtain ⟨-, hmaxcount, hsendlist⟩ := h.sent
          have hlength : (m.client.sent.context.listed node).sendlist.length =
              m.context.sendlist.length + 1 := by
            rw [Context.listed, List.length_append, hsendlist]
            rfl
          have hmax : (m.client.sent.context.listed node).maxcount = m.context.maxcount :=
            hmaxcount.trans h.maxcount.symm
          have hle : (m.client.sent.context.listed node).sendlist.length ≤
              (m.client.sent.context.listed node).maxcount := hle
          omega
      | unlisted hnot => exact hnot hlists
  | receive => exact ha.elim
  | handled => exact ha.elim
  | cycle => exact ha.elim

/-- A send that leaves a full list bounded adds no node. -/
theorem Capacity.full (h : Capacity m) {observe : Bool} {p : IotxMessage} {write : Bool}
    {alloc : Allocation} (hstep : Coap.step m (.send observe p write alloc) = .ok m')
    (hfull : m.context.count = m.context.maxcount)
    (ha : ¬Overfills m (.send observe p write alloc)) : m'.keys = m.keys := by
  cases step_effect hstep with
  | listed hlists => exact absurd ⟨h.bounded.count.symm.trans hfull, hlists⟩ ha
  | unlisted => exact coapMessageIdGen_keys m.context

/-- Ten requests without an answer and one more. -/
def elevenRequests : List Action :=
  List.replicate 11 (.send false ⟨none, some [47, 97], none, 1, false, none⟩ true ⟨true, true⟩)

end IotKit.Coap
