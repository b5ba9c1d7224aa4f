import IotKit.Lib.SlotTable
import IotKit.Mqtt.Operation

/-!
# The subscription table

What the operations do to `sub_handle`.  A SUBACK puts the handler of the oldest
request with its packet id into the first free slot, unless the table holds the same
triple, and an UNSUBACK clears the slots with the triple of that request.  So the
triples in use stay distinct and each has a handler, and a PUBLISH calls each one that
matches its topic once, in table order.
-/

namespace IotKit.Mqtt

open CMemory

/-! ## The table -/

/-- A slot in use. -/
def TopicHandle.used (h : TopicHandle) : Bool := h.topicFilter.isSome

/-- The entries of `sub_handle` in use, in table order. -/
def McClient.registered (c : McClient) : List TopicHandle :=
  SlotTable.entries TopicHandle.used c.subHandle.toList

theorem TopicHandle.used_zero : TopicHandle.zero.used = false := rfl

section Table

variable {m h : TopicHandle} {c : SubClient}

theorem iotxMcCheckHandleIsIdentical_used (hh : h.used = true) (hm : m.used = true) :
    iotxMcCheckHandleIsIdentical h m = .ok (decide (h = m)) := by
  obtain ⟨filter1, ⟨hFp1, pcontext1⟩⟩ := h
  obtain ⟨filter2, ⟨hFp2, pcontext2⟩⟩ := m
  obtain ⟨f1, rfl⟩ := Option.isSome_iff_exists.mp hh
  obtain ⟨f2, rfl⟩ := Option.isSome_iff_exists.mp hm
  simp [iotxMcCheckHandleIsIdentical]

theorem iotxMcCheckHandleIsIdentical_unused (hm : m.used = false) :
    iotxMcCheckHandleIsIdentical h m = .error .load := by
  obtain ⟨filter2, handle2⟩ := m
  obtain rfl : filter2 = none := by simpa [TopicHandle.used] using hm
  rw [iotxMcCheckHandleIsIdentical]
  cases h.topicFilter <;> rfl

theorem topicFilter_eq_none : h.topicFilter = none ↔ h.used = false := by
  simp [TopicHandle.used]

/-- The search finds the triple, or the first free slot. -/
theorem searchLoop_spec (hm : m.used = true) (handles : List TopicHandle) (i : Nat)
    (iFree : Option Nat) :
    ∃ flagDup free, searchLoop m handles i iFree = .ok (flagDup, free) ∧
      (flagDup = true ↔ m ∈ handles) ∧
      (flagDup = false →
        (free = iFree ∧ (iFree = none → ∀ h ∈ handles, h.used = true)) ∨
          ∃ (j : Nat) (hj : j < handles.length), free = some (i + j) ∧
            handles[j].used = false) := by
  induction handles generalizing i iFree with
  | nil => exact ⟨false, iFree, rfl, by simp, fun _ => Or.inl ⟨rfl, by simp⟩⟩
  | cons h handles ih =>
      rw [searchLoop]
      split
      next hfree =>
        have hunused := topicFilter_eq_none.mp hfree
        have hne : m ≠ h := by
          rintro rfl
          rw [hm] at hunused
          cases hunused
        obtain ⟨flagDup, free, hrun, hdup, hslot⟩ :=
          ih (i + 1) (if iFree = none then some i else iFree)
        refine ⟨flagDup, free, hrun, by simpa [hne] using hdup, fun hflag => ?_⟩
        rcases hslot hflag with ⟨hsame, _⟩ | ⟨j, hj, hsome, hfree⟩
        · cases iFree with
          | none => exact Or.inr ⟨0, by simp, by simpa using hsame, hunused⟩
          | some k => exact Or.inl ⟨by simpa using hsame, nofun⟩
        · exact Or.inr ⟨j + 1, by simpa using hj, by rw [hsome]; congr 1; omega,
            by simpa using hfree⟩
      next hsome =>
        have hh : h.used = true := by simpa [topicFilter_eq_none] using hsome
        rw [iotxMcCheckHandleIsIdentical_used hh hm, ok_bind]
        by_cases heq : h = m
        · subst heq
          exact ⟨true, iFree, by simp, by simp, nofun⟩
        · obtain ⟨flagDup, free, hrun, hdup, hslot⟩ := ih (i + 1) iFree
          refine ⟨flagDup, free, by simpa [heq] using hrun, by simpa [Ne.symm heq] using hdup,
            fun hflag => ?_⟩
          rcases hslot hflag with ⟨hsame, hfull⟩ | ⟨j, hj, hfree⟩
          · exact Or.inl ⟨hsame, fun hnone => by simpa [hh] using hfull hnone⟩
          · refine Or.inr ⟨j + 1, by simpa using hj, ?_, by simpa using hfree.2⟩
            rw [hfree.1]
            congr 1
            omega

theorem mem_registered : m ∈ c.registered ↔ m ∈ c.subHandle.toList ∧ m.used = true :=
  SlotTable.mem_entries

/-- A triple goes into a free slot if the table does not hold it and has one. -/
theorem register_spec (hm : m.used = true) (mypacketid : Nat) :
    ∃ r, register c m mypacketid = .ok r ∧
      ((r.client = c ∧ (m ∈ c.registered ∨ ∀ h ∈ c.subHandle.toList, h.used = true)) ∨
        ∃ (i : Nat) (hi : i < iotxMcSubNumMax), r.client =
          { c with subHandle := c.subHandle.set i m } ∧
          m ∉ c.registered ∧ c.subHandle[i].used = false) := by
  obtain ⟨flagDup, free, hrun, hdup, hslot⟩ := searchLoop_spec hm c.subHandle.toList 0 none
  rw [register, hrun, ok_bind]
  cases flagDup with
  | true =>
      have hmem := mem_registered.mpr ⟨hdup.mp rfl, hm⟩
      exact ⟨_, rfl, Or.inl ⟨rfl, Or.inl hmem⟩⟩
  | false =>
      have hnot : m ∉ c.registered := fun hmem => nomatch hdup.mpr (mem_registered.mp hmem).1
      rcases hslot rfl with ⟨rfl, hfull⟩ | ⟨i, hi, rfl, hfree⟩
      · exact ⟨_, rfl, Or.inl ⟨rfl, Or.inr (hfull rfl)⟩⟩
      · have hlt : i < iotxMcSubNumMax := by simpa using hi
        refine ⟨_, by simp [hlt]; rfl, Or.inr ⟨i, hlt, rfl, hnot, ?_⟩⟩
        simpa using hfree

/-- Either nothing is compared, or the handler's filter is a string. -/
theorem removeLoop_spec {handles handles' : List TopicHandle}
    (hrun : removeLoop m handles = .ok handles') :
    ((∀ h ∈ handles, h.used = false) ∨ m.used = true) ∧
      handles' = handles.map fun h => if h.used && decide (h = m) then .zero else h := by
  induction handles generalizing handles' with
  | nil =>
      cases hrun
      exact ⟨Or.inl (by simp), rfl⟩
  | cons h handles ih =>
      rw [removeLoop] at hrun
      split at hrun
      next hfree =>
        obtain ⟨rest, hrest, hrun⟩ := bind_eq_ok.mp hrun
        obtain ⟨hread, rfl⟩ := ih hrest
        cases hrun
        have hunused := topicFilter_eq_none.mp hfree
        exact ⟨hread.imp_left fun hnone => by simpa [hunused] using hnone, by simp [hunused]⟩
      next hsome =>
        have hh : h.used = true := by simpa [topicFilter_eq_none] using hsome
        obtain ⟨identical, hsame, hrun⟩ := bind_eq_ok.mp hrun
        obtain ⟨rest, hrest, hrun⟩ := bind_eq_ok.mp hrun
        obtain ⟨_, rfl⟩ := ih hrest
        cases hrun
        cases hm : m.used with
        | false =>
            rw [iotxMcCheckHandleIsIdentical_unused hm] at hsame
            cases hsame
        | true =>
            rw [iotxMcCheckHandleIsIdentical_used hh hm] at hsame
            cases hsame
            exact ⟨Or.inr rfl, by simp [hh]⟩

/-- A table without the entries equal to a handler. -/
def cleared (m : TopicHandle) (table : List TopicHandle) : List TopicHandle :=
  table.map fun h => if h.used && decide (h = m) then .zero else h

/-- The others stay in their order. -/
theorem registered_cleared {c c' : McClient}
    (h : c'.subHandle.toList = cleared m c.subHandle.toList) :
    c'.registered = c.registered.filter (· ≠ m) := by
  have hclear := SlotTable.entries_clear c.subHandle.toList (fun h => decide (h = m))
    TopicHandle.used_zero
  rw [McClient.registered, h, cleared, hclear]
  simp [McClient.registered]

theorem cleared_of_not_mem {c : McClient} (h : m ∉ c.registered) :
    cleared m c.subHandle.toList = c.subHandle.toList := by
  rw [cleared, List.map_congr_left (g := id), List.map_id]
  intro handle hmem
  by_cases heq : handle = m
  · subst heq
    cases hused : handle.used with
    | false => simp
    | true => exact absurd (SlotTable.mem_entries.mpr ⟨hmem, hused⟩) h
  · simp [heq]

theorem removeHandles_spec {c' : SubClient} (h : removeHandles c m = .ok c') :
    (c.registered = [] ∨ m.used = true) ∧
      c'.subHandle.toList = cleared m c.subHandle.toList ∧
      ∃ subHandle, c' = { c with subHandle } := by
  rw [removeHandles] at h
  split at h
  next => cases h
  next handles hrun =>
    cases h
    obtain ⟨hread, hmap⟩ := removeLoop_spec hrun
    refine ⟨?_, ?_, _, rfl⟩
    · refine hread.imp_left fun hnone => List.filter_eq_nil_iff.mpr fun h hmem => ?_
      simp [hnone h hmem]
    · exact hmap

end Table

/-! ## Pending requests -/

/-- The oldest request in `list_sub_wait_ack` with a packet id. -/
def SubClient.found (c : SubClient) (msgId : Nat) : Option SubInfo :=
  c.listSubWaitAck.find? fun info => info.msgId = msgId

/-- What `iotx_mc_mask_subInfo_from` leaves in `*messageHandler`. -/
def SubClient.handlerOf (c : SubClient) (iterator : Bool) (msgId : Nat)
    (messageHandler : TopicHandle) : TopicHandle :=
  if iterator then ((c.found msgId).map SubInfo.handler).getD messageHandler else messageHandler

/-- A request marked by an acknowledgement. -/
def SubInfo.mark (msgId : Nat) (info : SubInfo) : SubInfo :=
  if info.msgId = msgId then { info with nodeState := .invalid } else info

/-- `list_sub_wait_ack` after `iotx_mc_mask_subInfo_from`. -/
def SubClient.marked (c : SubClient) (iterator : Bool) (msgId : Nat) : List SubInfo :=
  if iterator then c.listSubWaitAck.map (SubInfo.mark msgId) else c.listSubWaitAck

theorem maskLoop_eq (msgId : Nat) (messageHandler : TopicHandle) (infos : List SubInfo) :
    maskLoop msgId messageHandler infos =
      (((infos.find? fun info => info.msgId = msgId).map SubInfo.handler).getD messageHandler,
        infos.map (SubInfo.mark msgId)) := by
  induction infos with
  | nil => rfl
  | cons info infos ih =>
      rw [maskLoop, List.foldr_cons, ← maskLoop, ih, List.find?_cons, List.map_cons, SubInfo.mark]
      by_cases hid : info.msgId = msgId
      · simp [hid]
      · simp [hid]

theorem iotxMcMaskSubInfoFrom_eq (c : SubClient) (iterator : Bool) (msgId : Nat)
    (messageHandler : TopicHandle) :
    iotxMcMaskSubInfoFrom c iterator msgId messageHandler =
      (c.handlerOf iterator msgId messageHandler,
        { c with listSubWaitAck := c.marked iterator msgId }) := by
  rw [iotxMcMaskSubInfoFrom, SubClient.handlerOf, SubClient.marked]
  cases iterator with
  | false => rfl
  | true => simp [maskLoop_eq, SubClient.found]

/-! ## SUBACK and UNSUBACK -/

/-- The handler that a SUBACK registers, without one where it matches no SUBSCRIBE. -/
def subackHandler (c : SubClient) (p : Packet) (env : AckEnv) : TopicHandle :=
  c.handlerOf env.iterator (p.ackId env.packetid) .zero

/-- The handler that an UNSUBACK removes. -/
def unsubackHandler (c : SubClient) (p : Packet) (env : AckEnv) : TopicHandle :=
  c.handlerOf env.iterator (p.ackId 0) env.messageHandler

/-- A SUBACK registers a new triple: its code is not 0x80, its handler is that of a
SUBSCRIBE, and the table has a free slot and not the triple. -/
structure Registers (c : SubClient) (p : Packet) (env : AckEnv) : Prop where
  codes : p.codes ≠ [0x80]
  handler : (subackHandler c p env).handle.hFp.isSome
  filter : (subackHandler c p env).used = true
  fresh : subackHandler c p env ∉ c.registered
  room : ∃ h ∈ c.subHandle.toList, h.used = false

section Acks

variable {c : SubClient} {p : Packet} {stale : Bytes} {env : AckEnv} {r : AckResult}

theorem grantedCodes_nack {codes : Bytes} {rc : Int} {count : Nat} {grantedQoSs : List Int}
    (h : grantedCodes codes = .ok (rc, count, grantedQoSs)) :
    rc = 1 ∧ (grantedQoSs.headD 0 % 256 = 128 ↔ codes = [0x80]) := by
  match codes with
  | [] =>
      cases h
      exact ⟨rfl, by decide⟩
  | [code] =>
      cases h
      refine ⟨rfl, ?_⟩
      have hlt := code.toNat_lt
      have hcode : code = 0x80 ↔ code.toNat = 128 := by
        rw [← UInt8.toNat_inj]
        rfl
      simp only [List.headD_cons, List.cons.injEq, and_true, readChar, hcode]
      split <;> omega
  | _ :: _ :: _ => cases h

/-- A SUBACK marks the requests with its packet id, and registers one triple or none. -/
theorem iotxMcHandleRecvSuback_spec (hbuf : c.bufRead = p.minimal ++ stale)
    (htype : headerType p.header = suback) (h : iotxMcHandleRecvSuback c env = .ok r) :
    p.codes.length ≤ 1 ∧
      ((¬ Registers c p env ∧
          r.client = { c with listSubWaitAck := c.marked env.iterator (p.ackId env.packetid) }) ∨
        (Registers c p env ∧ ∃ (i : Nat) (hi : i < iotxMcSubNumMax),
          c.subHandle[i].used = false ∧ r.client = { c with
            listSubWaitAck := c.marked env.iterator (p.ackId env.packetid)
            subHandle := c.subHandle.set i (subackHandler c p env) })) := by
  obtain ⟨⟨rc, id, count, grantedQoSs⟩, hpacket, h⟩ := bind_eq_ok.mp h
  rw [hbuf, mqttDeserializeSuback_packet htype] at hpacket
  obtain ⟨⟨rc', count', granted'⟩, hcodes, hpacket⟩ := bind_eq_ok.mp hpacket
  cases hpacket
  obtain ⟨rfl, hnack⟩ := grantedCodes_nack hcodes
  have hlen : p.codes.length ≤ 1 := by
    match hc : p.codes with
    | [] => simp
    | [_] => simp
    | _ :: _ :: _ => rw [hc] at hcodes; cases hcodes
  refine ⟨hlen, ?_⟩
  dsimp only at h
  rw [if_neg (not_not.mpr rfl), iotxMcMaskSubInfoFrom_eq] at h
  dsimp only at h
  split at h
  next hcode =>
    cases h
    exact Or.inl ⟨fun hreg => hreg.codes (hnack.mp hcode), rfl⟩
  next hcode =>
    split at h
    next hnone =>
      cases h
      refine Or.inl ⟨fun hreg => ?_, rfl⟩
      rcases hnone with hnone | hnone
      · exact Option.isSome_iff_ne_none.mp hreg.handler hnone
      · exact Option.isSome_iff_ne_none.mp hreg.filter hnone
    next hsome =>
      rw [not_or] at hsome
      obtain ⟨hhandler, hfilter⟩ := hsome
      have hused : (subackHandler c p env).used = true := Option.isSome_iff_ne_none.mpr hfilter
      obtain ⟨r', hrun, hcases⟩ := register_spec
        (c := { c with listSubWaitAck := c.marked env.iterator (p.ackId env.packetid) })
        hused (p.ackId env.packetid)
      rw [show register _ (c.handlerOf env.iterator (p.ackId env.packetid) .zero)
        (p.ackId env.packetid) = _ from hrun] at h
      cases h
      rcases hcases with ⟨hclient, hold⟩ | ⟨i, hi, hclient, hnew, hfree⟩
      · refine Or.inl ⟨fun hreg => ?_, hclient⟩
        rcases hold with hmem | hfull
        · exact hreg.fresh hmem
        · obtain ⟨h, hmem, hunused⟩ := hreg.room
          exact absurd (hfull h hmem) (by simp [hunused])
      · refine Or.inr ⟨⟨fun hnack' => hcode (hnack.mpr hnack'),
          Option.isSome_iff_ne_none.mpr hhandler, hused, hnew,
          ⟨_, Vector.mem_toList_iff.mpr (Vector.getElem_mem hi), hfree⟩⟩, i, hi, hfree, hclient⟩

/-- An UNSUBACK marks the requests with its packet id, and removes the triples equal to one
handler. -/
theorem iotxMcHandleRecvUnsuback_spec (hbuf : c.bufRead = p.minimal ++ stale)
    (h : iotxMcHandleRecvUnsuback c env = .ok r) :
    (c.registered = [] ∨ (unsubackHandler c p env).used = true) ∧
      r.client.subHandle.toList = cleared (unsubackHandler c p env) c.subHandle.toList ∧
      ∃ subHandle, r.client = { c with
        listSubWaitAck := c.marked env.iterator (p.ackId 0)
        subHandle } := by
  obtain ⟨⟨rc, id⟩, hpacket, h⟩ := bind_eq_ok.mp h
  rw [hbuf, mqttDeserializeUnsuback_packet] at hpacket
  cases hpacket
  dsimp only at h
  rw [if_neg (not_not.mpr rfl), iotxMcMaskSubInfoFrom_eq] at h
  obtain ⟨c', hremove, h⟩ := bind_eq_ok.mp h
  cases h
  obtain ⟨hread, hregistered, subHandle, rfl⟩ := removeHandles_spec hremove
  exact ⟨hread, hregistered, subHandle, rfl⟩

end Acks

/-! ## One operation -/

theorem registers_reading {c : SubClient} {p : Packet} {stale : Bytes} {env : AckEnv} :
    Registers (reading c p stale) p env ↔ Registers c p env :=
  ⟨fun h => ⟨h.codes, h.handler, h.filter, h.fresh, h.room⟩,
    fun h => ⟨h.codes, h.handler, h.filter, h.fresh, h.room⟩⟩

theorem mqttPuback_keeps {c client : McClient} {msgId type : Nat} {writes : List Int} {rc : Int}
    (h : mqttPuback c msgId type writes = .ok (rc, client)) :
    client.subHandle = c.subHandle ∧ client.listPubWaitAck = c.listPubWaitAck := by
  obtain ⟨⟨len, bufSend⟩, _, h⟩ := bind_eq_ok.mp h
  dsimp only at h
  split at h
  · cases h
    exact ⟨rfl, rfl⟩
  · obtain ⟨sent, _, h⟩ := bind_eq_ok.mp h
    split at h
    · cases h
      exact ⟨rfl, rfl⟩
    · cases h
      exact ⟨rfl, rfl⟩

/-- Receiving a PUBLISH changes the buffers alone. -/
theorem iotxMcHandleRecvPublish_keeps {σ : Type} {down : Option (DownProcess σ)} {s : σ}
    {c : McClient} {writes : List Int} {r : RecvResult σ}
    (h : iotxMcHandleRecvPublish down s c writes = .ok r) :
    r.client.subHandle = c.subHandle ∧ r.client.listPubWaitAck = c.listPubWaitAck := by
  obtain ⟨⟨rc, fields⟩, _, h⟩ := bind_eq_ok.mp h
  dsimp only at h
  split at h
  · cases h
    exact ⟨rfl, rfl⟩
  obtain ⟨⟨s', bufRead, payload⟩, _, h⟩ := bind_eq_ok.mp h
  obtain ⟨calls, _, h⟩ := bind_eq_ok.mp h
  obtain ⟨⟨rc', client⟩, hack, h⟩ := bind_eq_ok.mp h
  cases h
  rw [acknowledge] at hack
  split at hack
  · cases hack
    exact ⟨rfl, rfl⟩
  split at hack
  · have hkeeps := mqttPuback_keeps hack
    exact ⟨hkeeps.1, hkeeps.2⟩
  split at hack
  · have hkeeps := mqttPuback_keeps hack
    exact ⟨hkeeps.1, hkeeps.2⟩
  · cases hack
    exact ⟨rfl, rfl⟩

theorem iotxMcHandleRecvPuback_keeps {c : SubClient} {env : AckEnv} {r : AckResult}
    (h : iotxMcHandleRecvPuback c env = .ok r) :
    r.client.subHandle = c.subHandle ∧ r.client.listSubWaitAck = c.listSubWaitAck := by
  obtain ⟨⟨rc, type, dup, id⟩, _, h⟩ := bind_eq_ok.mp h
  dsimp only at h
  split at h
  · cases h
    exact ⟨rfl, rfl⟩
  · cases h
    rw [iotxMcMaskPubInfoFrom]
    split
    · exact ⟨rfl, rfl⟩
    · exact ⟨rfl, rfl⟩

theorem mqttPubInfoProc_keeps {c c' : SubClient} {iterator : Bool}
    {writes : List (Option (List Int))} (h : mqttPubInfoProc c iterator writes = .ok c') :
    c'.subHandle = c.subHandle ∧ c'.listSubWaitAck = c.listSubWaitAck := by
  rw [mqttPubInfoProc] at h
  split at h
  · cases h
    exact ⟨rfl, rfl⟩
  · obtain ⟨⟨kept, failed⟩, _, h⟩ := bind_eq_ok.mp h
    cases h
    exact ⟨rfl, rfl⟩

theorem sweepSub_sublist (c : SubClient) (infos : List SubInfo) (expired : List Bool) :
    (sweepSub c infos expired).1.Sublist infos := by
  induction infos generalizing expired with
  | nil => exact List.Sublist.refl _
  | cons info infos ih =>
      have hrest := ih expired.tail
      rw [sweepSub]
      generalize sweepSub c infos expired.tail = x at hrest ⊢
      obtain ⟨kept, events⟩ := x
      dsimp only at hrest ⊢
      split
      · exact hrest.cons info
      split
      · exact hrest.cons_cons info
      split
      · exact hrest.cons_cons info
      · exact hrest.cons info

theorem mqttSubInfoProc_keeps (c : SubClient) (iterator : Bool) (expired : List Bool) :
    (mqttSubInfoProc c iterator expired).1.subHandle = c.subHandle ∧
      (mqttSubInfoProc c iterator expired).1.listSubWaitAck.Sublist c.listSubWaitAck := by
  rw [mqttSubInfoProc]
  split
  · exact ⟨rfl, List.Sublist.refl _⟩
  · exact ⟨rfl, sweepSub_sublist c c.listSubWaitAck expired⟩

/-- What an operation does to the table and to the pending requests. -/
inductive TableStep (c c' : SubClient) (op : Operation) : Prop where
  | keeps (table : c'.subHandle = c.subHandle)
      (pending : c'.listSubWaitAck.Sublist c.listSubWaitAck)
      (calm : ∀ p stale env, op = .receive p stale env → c.clientState = .connected →
        headerType p.header ≠ suback ∧ headerType p.header ≠ unsuback)
  | requests (type : RequestType) (handler : TopicHandle) (env : PublishEnv)
      (client : Requested c type handler env c')
      (calm : ∀ p stale env, op ≠ .receive p stale env)
  | suback (p : Packet) (stale : Bytes) (env : ReceiveEnv) (receives : op = .receive p stale env)
      (connected : c.clientState = .connected) (type : headerType p.header = suback)
      (short : p.codes.length ≤ 1)
      (pending : c'.listSubWaitAck = c.marked env.ack.iterator (p.ackId env.ack.packetid))
      (table : (¬ Registers c p env.ack ∧ c'.subHandle = c.subHandle) ∨
        (Registers c p env.ack ∧ ∃ (i : Nat) (hi : i < iotxMcSubNumMax),
          c.subHandle[i].used = false ∧
          c'.subHandle = c.subHandle.set i (subackHandler c p env.ack)))
  | unsuback (p : Packet) (stale : Bytes) (env : ReceiveEnv)
      (receives : op = .receive p stale env) (connected : c.clientState = .connected)
      (type : headerType p.header = unsuback)
      (pending : c'.listSubWaitAck = c.marked env.ack.iterator (p.ackId 0))
      (readable : c.registered = [] ∨ (unsubackHandler c p env.ack).used = true)
      (table : c'.subHandle.toList = cleared (unsubackHandler c p env.ack) c.subHandle.toList)

theorem receivePacket_tableStep {c c' : SubClient} {p : Packet} {stale : Bytes} {env : ReceiveEnv}
    (h : receivePacket c p stale env = .ok c') :
    TableStep c c' (.receive p stale env) := by
  rw [receivePacket] at h
  split at h
  next hstate =>
    cases h
    exact .keeps rfl (List.Sublist.refl _) fun _ _ _ hop hconnected => absurd hconnected hstate
  next hstate =>
    have hconnected := not_not.mp hstate
    rw [handlePacket] at h
    have hcalm : ∀ type, headerType p.header = type → type ≠ suback → type ≠ unsuback →
        ∀ p' stale' env', Operation.receive p stale env = .receive p' stale' env' →
        c.clientState = .connected →
        headerType p'.header ≠ suback ∧ headerType p'.header ≠ unsuback := by
      intro type htype hsuback hunsuback p' stale' env' hop _
      cases hop
      exact ⟨htype ▸ hsuback, htype ▸ hunsuback⟩
    split at h
    next htype =>
      obtain ⟨r, hrun, h⟩ := bind_eq_ok.mp h
      cases h
      obtain ⟨htable, hpending⟩ := iotxMcHandleRecvPuback_keeps hrun
      exact .keeps htable (hpending ▸ List.Sublist.refl _) (hcalm _ htype (by decide) (by decide))
    split at h
    next htype =>
      obtain ⟨r, hrun, h⟩ := bind_eq_ok.mp h
      cases h
      obtain ⟨hshort, hcases⟩ := iotxMcHandleRecvSuback_spec rfl htype hrun
      rw [registers_reading] at hcases
      rcases hcases with ⟨hnot, hclient⟩ | ⟨hreg, i, hi, hfree, hclient⟩
      · rw [hclient]
        exact .suback p stale env rfl hconnected htype hshort rfl (Or.inl ⟨hnot, rfl⟩)
      · rw [hclient]
        exact .suback p stale env rfl hconnected htype hshort rfl
          (Or.inr ⟨hreg, i, hi, hfree, rfl⟩)
    split at h
    next htype =>
      obtain ⟨r, hrun, h⟩ := bind_eq_ok.mp h
      cases h
      exact .keeps (iotxMcHandleRecvPublish_keeps hrun).1 (List.Sublist.refl _)
        (hcalm _ htype (by decide) (by decide))
    split at h
    next htype =>
      obtain ⟨r, hrun, h⟩ := bind_eq_ok.mp h
      cases h
      obtain ⟨hread, hregistered, subHandle, hclient⟩ := iotxMcHandleRecvUnsuback_spec rfl hrun
      refine .unsuback p stale env rfl hconnected htype ?_ hread hregistered
      rw [hclient]
      rfl
    next hsuback hpublish hunsuback =>
      cases h
      exact .keeps rfl (List.Sublist.refl _) (hcalm _ rfl hsuback hunsuback)

theorem operate_tableStep {c c' : SubClient} {op : Operation} (h : operate c op = .ok c') :
    TableStep c c' op := by
  cases op with
  | subscribe topicFilter qos messageHandler env =>
      obtain ⟨r, hrun, h⟩ := bind_eq_ok.mp h
      cases h
      exact .requests _ _ _ (iotMqttSubscribe_requested hrun) nofun
  | unsubscribe topicFilter env =>
      obtain ⟨r, hrun, h⟩ := bind_eq_ok.mp h
      cases h
      exact .requests _ _ _ (iotMqttUnsubscribe_requested hrun) nofun
  | publish topicName msg up env =>
      obtain ⟨r, hrun, h⟩ := bind_eq_ok.mp h
      cases h
      obtain ⟨htable, hpending, _⟩ := iotMqttPublish_published hrun
      exact .keeps htable (hpending ▸ List.Sublist.refl _) nofun
  | receive p stale env => exact receivePacket_tableStep h
  | networkError =>
      cases h
      exact .keeps rfl (List.Sublist.refl _) nofun
  | pubInfoProc iterator writes =>
      obtain ⟨htable, hpending⟩ := mqttPubInfoProc_keeps h
      exact .keeps htable (hpending ▸ List.Sublist.refl _) nofun
  | subInfoProc iterator expired =>
      cases h
      obtain ⟨htable, hpending⟩ := mqttSubInfoProc_keeps c iterator expired
      exact .keeps htable hpending nofun

end IotKit.Mqtt
