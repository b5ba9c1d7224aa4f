import IotKit.Mqtt.Lock

/-!
# The lock discipline

Every function of the client gives back the mutexes it takes.  Callbacks are made with none
held, but for two: `iotx_mc_handle_recv_UNSUBACK` calls `handle_event` with `lock_generic`,
and `MQTTSubInfoProc` calls it with `lock_list_sub` for a request that timed out.  A run
without these makes every callback unlocked, and so the application may use the interface
in each.
-/

namespace IotKit.Mqtt.Lock

open MutexTrace

/-! ## Functions without callbacks -/

/-- The state is read under its lock and returned. -/
theorem iotxMcGetClientState_polite (seen : McState) :
    Polite True (fun state => state = seen) (iotxMcGetClientState seen) := by
  rw [iotxMcGetClientState, lock_unlock_bind]
  exact (Polite.touch _).andThen fun _ _ => .pure rfl

theorem iotxMcGetClientState_quiet (seen : McState) : Quiet (iotxMcGetClientState seen) :=
  .of_polite (iotxMcGetClientState_polite seen)

/-- The state is set under its lock. -/
theorem iotxMcSetClientState_quiet (newState : McState) :
    Quiet (iotxMcSetClientState newState) := by
  rw [iotxMcSetClientState, lock_unlock]
  exact Polite.touch _

theorem iotxMcCheckStateNormal_quiet (seen : McState) : Quiet (iotxMcCheckStateNormal seen) :=
  (iotxMcGetClientState_quiet seen).bind fun _ => .pure _

theorem iotxMcGetNextPacketid_quiet : Quiet iotxMcGetNextPacketid := by
  rw [iotxMcGetNextPacketid, lock_unlock]
  exact Polite.touch _

/-- A push takes the lock of its list and gives it back. -/
theorem pushInfoTo_eq (list : Mutex) (o : Push) :
    pushInfoTo list o = touch [list] >>= fun _ =>
      pure (if o = .pushed then successReturn else failReturn) := by
  cases o <;> simp [-bind_pure_comp, pushInfoTo]

theorem pushInfoTo_quiet (list : Mutex) (o : Push) : Quiet (pushInfoTo list o) :=
  .of_touch _ _ trivial (pushInfoTo_eq list o)

/-- A search of a list gives its lock back on every way out. -/
theorem maskInfoFrom_quiet (list : Mutex) (empty iterator : Bool) :
    Quiet (maskInfoFrom list empty iterator) := by
  refine .of_touch [list] successReturn trivial ?_
  simp [-bind_pure_comp, maskInfoFrom]

/-- What a send returns. -/
def Sending.rc (o : Sending) (packetError : Int) : Int :=
  if o.serialized = false then packetError
  else if o.sent = false then mqttNetworkError
  else successReturn

/-- A send takes the lock of the buffer around the write. -/
theorem sendPacket_eq (packetError : Int) (o : Sending) :
    sendPacket packetError o = touch [.writeBuf] >>= fun _ => pure (o.rc packetError) := by
  obtain ⟨serialized, sent⟩ := o
  cases serialized <;> cases sent <;> simp [-bind_pure_comp, sendPacket, Sending.rc]

theorem sendPacket_quiet (packetError : Int) (o : Sending) : Quiet (sendPacket packetError o) :=
  .of_touch _ _ trivial (sendPacket_eq packetError o)

/-- What a request returns that is put on its list if it is `listed`. -/
def Request.rc (o : Request) (packetError : Int) (listed : Bool) : Int :=
  if o.serialized = false then packetError
  else if listed = true ∧ o.push ≠ .pushed then mqttPushToListError
  else o.toSending.rc packetError

/-- A request is pushed to its list before the buffer is given back. -/
theorem sendRequest_touches (packetError : Int) (o : Request) :
    ∃ ms, sendRequest packetError o = touch ms >>= fun _ => pure (o.rc packetError true) := by
  obtain ⟨⟨serialized, sent⟩, push⟩ := o
  cases serialized with
  | false =>
      refine ⟨[.writeBuf], ?_⟩
      simp [-bind_pure_comp, sendRequest, Request.rc]
  | true =>
      by_cases hpush : push = .pushed
      · cases sent with
        | false =>
            refine ⟨[.listSub, .listSub, .writeBuf], ?_⟩
            simp [-bind_pure_comp, sendRequest, iotxMcPushSubInfoTo, pushInfoTo_eq, hpush,
              Request.rc, Sending.rc]
        | true =>
            refine ⟨[.listSub, .writeBuf], ?_⟩
            simp [-bind_pure_comp, sendRequest, iotxMcPushSubInfoTo, pushInfoTo_eq, hpush,
              Request.rc, Sending.rc]
      · refine ⟨[.listSub, .writeBuf], ?_⟩
        simp [-bind_pure_comp, sendRequest, iotxMcPushSubInfoTo, pushInfoTo_eq, hpush,
          failReturn_ne_success, Request.rc]

theorem sendRequest_quiet (packetError : Int) (o : Request) :
    Quiet (sendRequest packetError o) := by
  obtain ⟨ms, h⟩ := sendRequest_touches packetError o
  exact .of_touch ms _ trivial h

/-- A publish, of either QoS. -/
theorem mqttPublish_touches (qos : Nat) (o : Request) :
    ∃ ms, mqttPublish qos o =
      touch ms >>= fun _ => pure (o.rc mqttPublishPacketError (0 < qos)) := by
  obtain ⟨⟨serialized, sent⟩, push⟩ := o
  cases serialized with
  | false =>
      refine ⟨[.writeBuf], ?_⟩
      simp [-bind_pure_comp, mqttPublish, Request.rc]
  | true =>
      by_cases hqos : 0 < qos
      · by_cases hpush : push = .pushed
        · cases sent with
          | false =>
              refine ⟨[.listPub, .listPub, .writeBuf], ?_⟩
              simp [-bind_pure_comp, mqttPublish, iotxMcPushPubInfoTo, pushInfoTo_eq, hpush, hqos,
                Request.rc, Sending.rc]
          | true =>
              refine ⟨[.listPub, .writeBuf], ?_⟩
              simp [-bind_pure_comp, mqttPublish, iotxMcPushPubInfoTo, pushInfoTo_eq, hpush, hqos,
                Request.rc, Sending.rc]
        · refine ⟨[.listPub, .writeBuf], ?_⟩
          simp [-bind_pure_comp, mqttPublish, iotxMcPushPubInfoTo, pushInfoTo_eq, hpush, hqos,
            failReturn_ne_success, Request.rc]
      · refine ⟨[.writeBuf], ?_⟩
        cases sent <;> simp [-bind_pure_comp, mqttPublish, hqos, Request.rc, Sending.rc]

theorem mqttPublish_quiet (qos : Nat) (o : Request) : Quiet (mqttPublish qos o) := by
  obtain ⟨ms, h⟩ := mqttPublish_touches qos o
  exact .of_touch ms _ trivial h

/-- An acknowledgement of a known type is one more send. -/
theorem mqttPuback_eq {type : Nat} (o : Sending)
    (hknown : type = puback ∨ type = pubrec ∨ type = pubrel) :
    mqttPuback o type = sendPacket mqttPublishAckPacketError o := by
  have htype : ¬(type ≠ puback ∧ type ≠ pubrec ∧ type ≠ pubrel) := by
    rintro ⟨h₁, h₂, h₃⟩
    exact hknown.elim h₁ fun h => h.elim h₂ h₃
  rw [mqttPuback, if_neg htype, sendPacket]

/-- `MQTTPuback` succeeds where its packet is known, built and sent. -/
theorem mqttPuback_polite (o : Sending) (type : Nat) :
    Polite True (fun rc => rc = successReturn ↔
        (type = puback ∨ type = pubrec ∨ type = pubrel) ∧ o.serialized = true ∧ o.sent = true)
      (mqttPuback o type) := by
  obtain ⟨serialized, sent⟩ := o
  by_cases hknown : type = puback ∨ type = pubrec ∨ type = pubrel
  · rw [mqttPuback_eq _ hknown]
    refine .of_touch _ _ ?_ (sendPacket_eq _ _)
    cases serialized <;> cases sent <;> simp [hknown, Sending.rc] <;> decide
  · have htype : type ≠ puback ∧ type ≠ pubrec ∧ type ≠ pubrel := by
      simpa only [not_or] using hknown
    rw [mqttPuback, if_pos htype]
    refine .of_touch [.writeBuf] mqttPublishAckTypeError ?_ ?_
    · simp [hknown]
      decide
    · simp [-bind_pure_comp]

theorem mqttDisconnect_quiet (o : Sending) : Quiet (mqttDisconnect o) := by
  rw [mqttDisconnect, lock_unlock_bind]
  exact (Polite.touch _).andThen fun _ _ => .pure trivial

/-- A publish that goes out again. -/
theorem mqttRePublish_quiet (sent : Bool) : Quiet (mqttRePublish sent) := by
  refine .of_touch [.writeBuf] (if sent then successReturn else mqttNetworkError) trivial ?_
  cases sent <;> simp [-bind_pure_comp, mqttRePublish]

/-! ## The calls of the application -/

theorem iotxMcSubscribe_quiet (i : SubscribeCall) : Quiet (iotxMcSubscribe i) :=
  (iotxMcCheckStateNormal_quiet _).bind fun _ =>
    .ite ((iotxMcGetClientState_quiet _).bind fun _ => .pure _)
      (.ite (.pure trivial) (iotxMcGetNextPacketid_quiet.bind fun _ =>
        (sendRequest_quiet _ _).bind fun _ => .ite (iotxMcSetClientState_quiet _) (.pure trivial)))

theorem iotxMcUnsubscribe_quiet (i : SubscribeCall) : Quiet (iotxMcUnsubscribe i) :=
  iotxMcGetNextPacketid_quiet.bind fun _ =>
    .ite (.pure trivial) ((iotxMcCheckStateNormal_quiet _).bind fun _ =>
      .ite ((iotxMcGetClientState_quiet _).bind fun _ => .pure _)
        ((sendRequest_quiet _ _).bind fun _ => .ite (iotxMcSetClientState_quiet _) (.pure trivial)))

theorem iotxMcPublish_quiet (i : PublishCall) : Quiet (iotxMcPublish i) := by
  have hsend : Quiet (if i.qos = 2 then pure () else do
      let rc ← mqttPublish i.qos i.request
      if rc = mqttNetworkError then iotxMcSetClientState .disconnected) :=
    .ite (.pure trivial) ((mqttPublish_quiet _ _).bind fun _ =>
      .ite (iotxMcSetClientState_quiet _) (.pure trivial))
  exact .ite (.pure trivial) ((iotxMcCheckStateNormal_quiet _).bind fun _ =>
    .ite ((iotxMcGetClientState_quiet _).bind fun _ => .pure _)
      (.ite (iotxMcGetNextPacketid_quiet.bind fun _ => hsend) hsend))

/-- The calls that a callback may make. -/
theorem ApiCall.exec_quiet (call : ApiCall) : Quiet call.exec := by
  cases call with
  | subscribe i => exact .ite (iotxMcSubscribe_quiet i) (.pure trivial)
  | unsubscribe i => exact .ite (iotxMcUnsubscribe_quiet i) (.pure trivial)
  | publish i => exact .ite (iotxMcPublish_quiet i) (.pure trivial)
  | checkStateNormal sane seen =>
      exact .ite ((iotxMcCheckStateNormal_quiet seen).bind fun _ => .pure _) (.pure trivial)

/-- A callback makes calls and takes no lock itself. -/
theorem Body.exec_quiet (body : Body) : Quiet (Body.exec body) := by
  induction body with
  | nil => exact .pure ()
  | cons call calls ih => exact call.exec_quiet.bind fun _ => ih

/-- The event handler is called with no lock held. -/
theorem notify_quiet (handleEvent : Bool) (body : Body) : Quiet (notify handleEvent body) :=
  .ite (Body.exec_quiet body).callback (Quiet.pure ())

/-! ## What a turn finds -/

/-- The packet type that `iotx_mc_read_packet` leaves where it succeeds. -/
def Reading.type (packetType : Nat) : Reading → Option Nat
  | .timeout => some cptReserved
  | .failed => none
  | .badLength _ => none
  | .dropped _ => some packetType
  | .packet type => some type

/-- The type of the packet that `iotx_mc_cycle` acts on. -/
def CycleInput.packetType (i : CycleInput) : Option Nat :=
  if i.seen = .connected then i.reading.type i.indeterminate else none

/-- An UNSUBACK arrives. -/
def CycleInput.unsubscribed (i : CycleInput) : Prop :=
  i.packetType = some Mqtt.unsuback ∧ i.unsuback.parsed = true

/-- The request is registered. -/
def SubackInput.registered (i : SubackInput) : Prop :=
  i.parsed = true ∧ i.refused = false ∧ i.found = true ∧ (i.flagDup = true ∨ i.free = true)

/-- The message is parsed and acknowledged. -/
def PublishInput.acknowledged (i : PublishInput) : Prop :=
  i.parsed = true ∧
    (i.qos = 0 ∨ (i.qos = 1 ∨ i.qos = 2) ∧ i.ack.serialized = true ∧ i.ack.sent = true)

/-- The packet is handled without an error. -/
def CycleInput.handled (i : CycleInput) (packetType : Nat) : Prop :=
  if packetType = connack then True
  else if packetType = Mqtt.puback then i.puback.parsed = true
  else if packetType = Mqtt.suback then i.suback.registered
  else if packetType = Mqtt.publish then i.publish.acknowledged
  else if packetType = Mqtt.unsuback then i.unsuback.parsed = true
  else packetType = pingresp

/-- The turn goes on to the sweeps. -/
def CycleInput.succeeds (i : CycleInput) : Prop :=
  ∃ type, i.packetType = some type ∧ (type = cptReserved ∨ i.handled type)

/-- The sweep finds that the request timed out. -/
def SubNode.timedOut : SubNode → Prop
  | .waiting seen expired _ => seen = .connected ∧ expired = true
  | _ => False

def SubSweep.timedOut (i : SubSweep) : Prop :=
  i.iterator = true ∧ ∃ node ∈ i.nodes, node.timedOut

/-- No UNSUBACK arrives in the turn, and none of its sweeps finds a request that timed
out. -/
def Pass.Calm (p : Pass) : Prop :=
  ¬p.cycle.unsubscribed ∧ (p.cycle.succeeds → ¬p.subs.timedOut)

def Operation.Calm : Operation → Prop
  | yield passes => ∀ p ∈ passes, p.Calm
  | _ => True

/-! ## Received packets -/

section Receive

variable {handleEvent : Bool}

/-- The packet type is that of the reading, where it succeeds. -/
theorem iotxMcReadPacket_polite (packetType : Nat) (r : Reading) :
    Polite True
      (fun p => (p.1 = successReturn → r.type packetType = some p.2) ∧
        (p.1 ≠ successReturn → r.type packetType = none))
      (iotxMcReadPacket handleEvent packetType r) := by
  cases r with
  | timeout => exact .pure ⟨fun _ => rfl, fun h => absurd rfl h⟩
  | failed => exact .pure ⟨fun h => absurd h failReturn_ne_success, fun _ => rfl⟩
  | badLength tooLong =>
      refine .pure ⟨fun h => ?_, fun _ => rfl⟩
      cases tooLong <;> cases h
  | dropped body =>
      exact (notify_quiet handleEvent body).andThen fun _ _ =>
        .pure ⟨fun _ => rfl, fun h => absurd rfl h⟩
  | packet type => exact .pure ⟨fun _ => rfl, fun h => absurd rfl h⟩

/-- The loop gives `lock_generic` back around every handler. -/
theorem deliverLoop_quiet {k : Bool → Action Unit} (hk : ∀ b, Quiet (k b))
    (flagMatched : Bool) (slots : List Slot) :
    Quiet (do
      lock .generic
      let flag ← deliverLoop flagMatched slots
      unlock .generic
      k flag) := by
  induction slots generalizing flagMatched with
  | nil =>
      simp only [deliverLoop, pure_bind, lock_unlock_bind]
      exact (Polite.touch _).andThen fun _ _ => hk flagMatched
  | cons slot slots ih =>
      cases slot with
      | unmatched => exact ih flagMatched
      | matched hFp =>
          cases hFp with
          | none =>
              simp only [deliverLoop, bind_assoc, lock_unlock_bind]
              exact (Polite.touch _).andThen fun _ _ => ih flagMatched
          | some body =>
              simp only [deliverLoop, bind_assoc, lock_unlock_bind]
              exact (Polite.touch _).andThen fun _ _ =>
                (Body.exec_quiet body).callback.andThen fun _ _ => ih true

/-- Each handler is called between two passes of the lock. -/
theorem iotxMcDeliverMessage_quiet (slots : List Slot) (body : Body) :
    Quiet (iotxMcDeliverMessage handleEvent slots body) :=
  deliverLoop_quiet (fun _ => .ite (notify_quiet handleEvent body) (Quiet.pure ())) false slots

/-- A PUBACK calls nothing with a lock held. -/
theorem iotxMcHandleRecvPuback_polite (i : PubackInput) :
    Polite True (fun rc => rc = successReturn ↔ i.parsed = true)
      (iotxMcHandleRecvPuback handleEvent i) := by
  rw [iotxMcHandleRecvPuback]
  cases hparsed : i.parsed with
  | false => exact .pure (by decide)
  | true =>
      exact (maskInfoFrom_quiet _ _ _).andThen fun _ _ =>
        (notify_quiet handleEvent _).andThen fun _ _ => .pure (by simp)

/-- A SUBACK calls nothing with a lock held. -/
theorem iotxMcHandleRecvSuback_polite (i : SubackInput) :
    Polite True (fun rc => rc = successReturn ↔ i.registered)
      (iotxMcHandleRecvSuback handleEvent i) := by
  obtain ⟨parsed, empty, iterator, refused, found, flagDup, free, body⟩ := i
  rw [iotxMcHandleRecvSuback]
  cases parsed with
  | false => exact .pure (by simp [SubackInput.registered]; decide)
  | true =>
      refine (maskInfoFrom_quiet _ _ _).andThen fun _ _ => ?_
      cases refused with
      | true =>
          exact (notify_quiet handleEvent _).andThen fun _ _ =>
            .pure (by simp [SubackInput.registered]; decide)
      | false =>
          cases found with
          | false => exact .pure (by simp [SubackInput.registered]; decide)
          | true =>
              by_cases hroom : flagDup = false ∧ free = false
              · simp only [hroom, Bool.false_eq_true, Bool.true_eq_false, and_self, if_true,
                  if_false, lock_unlock_bind]
                refine (Polite.touch _).andThen fun _ _ => .pure ?_
                simp [SubackInput.registered, failReturn_ne_success]
              · have hslot : flagDup = true ∨ free = true := by
                  simpa [← Bool.not_eq_false, Classical.or_iff_not_imp_left] using hroom
                simp only [hroom, Bool.false_eq_true, Bool.true_eq_false, if_false,
                  lock_unlock_bind]
                exact (Polite.touch _).andThen fun _ _ =>
                  (notify_quiet handleEvent _).andThen fun _ _ =>
                    .pure (by simp [SubackInput.registered, hslot])

/-- A PUBLISH calls nothing with a lock held. -/
theorem iotxMcHandleRecvPublish_polite (i : PublishInput) :
    Polite True (fun rc => rc = successReturn ↔ i.acknowledged)
      (iotxMcHandleRecvPublish handleEvent i) := by
  rw [iotxMcHandleRecvPublish]
  cases hparsed : i.parsed with
  | false => exact .pure (by simp [PublishInput.acknowledged, hparsed]; decide)
  | true =>
      refine (iotxMcDeliverMessage_quiet i.slots i.body).andThen fun _ _ => ?_
      split
      next h0 => exact .pure (by simp [PublishInput.acknowledged, hparsed, h0])
      next h0 =>
        split
        next h1 =>
          refine (mqttPuback_polite i.ack puback).mono Iff.rfl fun rc hrc => ?_
          simp [PublishInput.acknowledged, hparsed, h1, hrc]
        next h1 =>
          split
          next h2 =>
            refine (mqttPuback_polite i.ack pubrec).mono Iff.rfl fun rc hrc => ?_
            simp [PublishInput.acknowledged, hparsed, h2, hrc]
          next h2 =>
            have hrc : mqttPublishQosError ≠ successReturn := by decide
            exact .pure (by simp [PublishInput.acknowledged, h0, h1, h2, hrc])

/-- An UNSUBACK that is understood calls the event handler under the generic lock, if there is
one. -/
theorem iotxMcHandleRecvUnsuback_polite (i : UnsubackInput) :
    Polite (handleEvent = false ∨ i.parsed = false)
      (fun rc => rc = successReturn ↔ i.parsed = true)
      (iotxMcHandleRecvUnsuback handleEvent i) := by
  rw [iotxMcHandleRecvUnsuback]
  cases hparsed : i.parsed with
  | false => exact (Polite.pure (by decide)).mono (by simp) fun _ h => h
  | true =>
      refine (maskInfoFrom_quiet _ _ _).andThen fun _ _ => ?_
      cases handleEvent with
      | false =>
          simp only [notify, Bool.false_eq_true, if_false, pure_bind, lock_unlock_bind]
          refine (Polite.touch _).andThen fun _ _ => (Polite.pure ?_).mono (by simp) fun _ h => h
          simp
      | true =>
          refine Polite.mono (c := False) ?_ (by simp) fun _ h => h
          have := Polite.held_callback (Q := fun rc => rc = successReturn ↔ true = true)
            Mutex.generic (Body.exec_quiet i.body).balanced (g := pure ()) (.pure trivial)
            (k := pure successReturn) (.pure (by simp))
          simpa only [pure_bind, notify, if_true] using this

theorem waitLoop_quiet (connackRc : Option Nat) (left packetType : Nat)
    (readings : Nat → Reading) :
    Quiet (waitLoop handleEvent connackRc left packetType readings) := by
  induction left generalizing packetType readings with
  | zero =>
      rw [waitLoop]
      exact (Quiet.of_polite (iotxMcReadPacket_polite packetType (readings 0))).bind fun _ =>
        .ite (.pure trivial) (.pure trivial)
  | succ left ih =>
      rw [waitLoop]
      refine (Quiet.of_polite (iotxMcReadPacket_polite packetType (readings 0))).bind fun p =>
        .ite (.pure trivial) (.ite ?_ (ih _ _))
      rw [iotxMcHandleRecvConnack.eq_def]
      split <;> exact .pure trivial

/-- Of the packet types only UNSUBACK calls back under a lock. -/
theorem dispatch_polite (i : CycleInput) (packetType : Nat) :
    Polite (handleEvent = false ∨ ¬(packetType = Mqtt.unsuback ∧ i.unsuback.parsed = true))
      (fun rc => rc = successReturn ↔ i.handled packetType)
      (dispatch handleEvent i packetType) := by
  have hother {Q : Int → Prop} {f : Action Int} (hne : packetType ≠ Mqtt.unsuback)
      (h : Polite True Q f) : Polite
        (handleEvent = false ∨ ¬(packetType = Mqtt.unsuback ∧ i.unsuback.parsed = true)) Q f :=
    h.mono (by simp [hne]) fun _ h => h
  rw [dispatch, CycleInput.handled]
  split
  next h => exact hother (by rw [h]; decide) (.pure (by simp))
  split
  next h => exact hother (by rw [h]; decide) (iotxMcHandleRecvPuback_polite _)
  split
  next h => exact hother (by rw [h]; decide) (iotxMcHandleRecvSuback_polite _)
  split
  next h => exact hother (by rw [h]; decide) (iotxMcHandleRecvPublish_polite _)
  split
  next h =>
    refine (iotxMcHandleRecvUnsuback_polite _).mono ?_ fun _ h => h
    simp [h]
  next hne =>
    split
    next h => exact hother hne (.pure (by simp [h]))
    next h => exact hother hne (.pure (by simp [h, failReturn_ne_success]))

/-- A cycle calls back under a lock where it handles an UNSUBACK. -/
theorem iotxMcCycle_polite (i : CycleInput) :
    Polite (handleEvent = false ∨ ¬i.unsubscribed)
      (fun rc => rc = successReturn ↔ i.succeeds) (iotxMcCycle handleEvent i) := by
  refine (iotxMcGetClientState_polite i.seen).andThen fun state hstate => ?_
  rw [hstate]
  by_cases hseen : i.seen = .connected
  · have htype : i.packetType = i.reading.type i.indeterminate := if_pos hseen
    have hread : Polite (handleEvent = false ∨ ¬i.unsubscribed)
        (fun rc => rc = successReturn ↔ i.succeeds) (do
          let p ← iotxMcReadPacket handleEvent i.indeterminate i.reading
          if p.1 ≠ successReturn then
            iotxMcSetClientState .disconnected
            return mqttNetworkError
          if p.2 = cptReserved then
            return successReturn
          lock .generic
          unlock .generic
          dispatch handleEvent i p.2) := by
      refine (iotxMcReadPacket_polite _ _).andThen fun p hp => ?_
      rw [← htype] at hp
      split
      next hrc =>
        have hnone := hp.2 hrc
        refine (iotxMcSetClientState_quiet _).andThen fun _ _ => ?_
        refine (Polite.pure ?_).mono (c := True) ?_ fun _ h => h
        · simp [CycleInput.succeeds, hnone, mqttNetworkError_ne_success]
        · simp [CycleInput.unsubscribed, hnone]
      next hrc =>
        have hsome := hp.1 (not_not.mp hrc)
        split
        next hzero =>
          rw [hzero] at hsome
          refine (Polite.pure ?_).mono (c := True) ?_ fun _ h => h
          · simp [CycleInput.succeeds, hsome]
          · have hne : cptReserved ≠ Mqtt.unsuback := by decide
            simp [CycleInput.unsubscribed, hsome, hne]
        next hzero =>
          rw [lock_unlock_bind]
          refine (Polite.touch _).andThen fun _ _ =>
            (dispatch_polite i p.2).mono ?_ fun rc hrc => ?_
          · simp [CycleInput.unsubscribed, hsome]
          · simp [CycleInput.succeeds, hsome, hzero, hrc]
    simp only [hseen, ne_eq, not_true_eq_false, if_false]
    exact .ite ((iotxMcSetClientState_quiet _).andThen fun _ _ => hread) hread
  · have hnone : i.packetType = none := if_neg hseen
    simp only [ne_eq, hseen, not_false_eq_true, if_true]
    refine (Polite.pure ?_).mono (c := True) ?_ fun _ h => h
    · have hrc : mqttStateError ≠ successReturn := by decide
      simp [CycleInput.succeeds, hnone, hrc]
    · simp [CycleInput.unsubscribed, hnone]

end Receive

/-! ## The sweeps -/

section Sweep

variable {handleEvent : Bool}

theorem subInfoLoop_balanced (handleEvent : Bool) (nodes : List SubNode) :
    Balanced (fun _ => True) (subInfoLoop handleEvent nodes) := by
  induction nodes with
  | nil => exact .pure trivial
  | cons node nodes ih =>
      cases node with
      | null => exact ih
      | invalid => exact ih
      | waiting seen expired body =>
          exact (iotxMcGetClientState_quiet seen).balanced.bind fun _ _ =>
            .ite ih (.ite ih ((notify_quiet handleEvent body).balanced.bind fun _ _ => ih))

/-- The loop calls the application with `lock_list_sub`. -/
theorem subInfoLoop_polite (nodes : List SubNode) :
    Polite (handleEvent = false ∨ ∀ node ∈ nodes, ¬node.timedOut) (fun _ => True) (do
      lock .listSub
      subInfoLoop handleEvent nodes
      unlock .listSub) := by
  induction nodes with
  | nil =>
      simp only [subInfoLoop, pure_bind, lock_unlock]
      exact (Polite.touch _).mono (by simp) fun _ h => h
  | cons node nodes ih =>
      rw [List.forall_mem_cons]
      cases node with
      | null => exact ih.mono (by simp [SubNode.timedOut]) fun _ h => h
      | invalid => exact ih.mono (by simp [SubNode.timedOut]) fun _ h => h
      | waiting seen expired body =>
          simp only [subInfoLoop, iotxMcGetClientState, lock_unlock_bind, bind_assoc, pure_bind]
          rw [lock_touch_bind (by decide)]
          refine (Polite.touch _).andThen fun _ _ => ?_
          by_cases hseen : seen = .connected
          · cases expired with
            | false =>
                simp only [hseen, ne_eq, not_true_eq_false, if_false, if_true]
                exact ih.mono (by simp [SubNode.timedOut]) fun _ h => h
            | true =>
                simp only [hseen, ne_eq, not_true_eq_false, if_false, Bool.true_eq_false,
                  bind_assoc]
                cases handleEvent with
                | false =>
                    simp only [notify, Bool.false_eq_true, if_false, pure_bind]
                    exact ih.mono (by simp) fun _ h => h
                | true =>
                    have hheld := Polite.held_callback Mutex.listSub
                      (Body.exec_quiet body).balanced (subInfoLoop_balanced true nodes)
                      (Quiet.pure ()).balanced
                    simp only [notify, if_true]
                    simp only [bind_pure_unit] at hheld
                    exact hheld.mono (by simp [SubNode.timedOut]) fun _ h => h
          · simp only [ne_eq, hseen, not_false_eq_true, if_true]
            exact ih.mono (by simp [SubNode.timedOut, hseen]) fun _ h => h

/-- The sweep reports a request that timed out with the lock of its list held. -/
theorem mqttSubInfoProc_polite (i : SubSweep) :
    Polite (handleEvent = false ∨ ¬i.timedOut) (fun _ => True)
      (mqttSubInfoProc handleEvent i) := by
  obtain ⟨iterator, nodes⟩ := i
  rw [mqttSubInfoProc]
  by_cases hiter : nodes.isEmpty = false ∧ iterator = false
  · simp only [hiter, and_self, if_true, lock_unlock_bind]
    refine ((Polite.touch _).andThen fun _ _ => .pure trivial).mono (c := True) ?_ fun _ h => h
    simp [SubSweep.timedOut]
  · simp only [hiter, if_false]
    refine (subInfoLoop_polite nodes).mono (or_congr_right ?_) fun _ h => h
    cases iterator with
    | true => simp [SubSweep.timedOut]
    | false =>
        have hempty : nodes = [] := by simpa using hiter
        simp [SubSweep.timedOut, hempty]

/-- The sweep of the publishes gives the lock of the list back around each send. -/
theorem pubInfoLoop_quiet (nodes : List PubNode) :
    Quiet (do
      lock .listPub
      pubInfoLoop nodes
      unlock .listPub) := by
  induction nodes with
  | nil =>
      simp only [pubInfoLoop, pure_bind, lock_unlock]
      exact Polite.touch _
  | cons node nodes ih =>
      cases node with
      | null => exact ih
      | invalid => exact ih
      | waiting seen expired sent =>
          simp only [pubInfoLoop, iotxMcGetClientState, lock_unlock_bind, bind_assoc, pure_bind]
          rw [lock_touch_bind (by decide)]
          refine (Polite.touch _).andThen fun _ _ => ?_
          by_cases hseen : seen = .connected
          · cases expired with
            | false =>
                simp only [hseen, ne_eq, not_true_eq_false, if_false, if_true]
                exact ih
            | true =>
                simp only [hseen, ne_eq, not_true_eq_false, if_false, Bool.true_eq_false,
                  bind_assoc, lock_unlock_bind]
                refine (Polite.touch _).andThen fun _ _ =>
                  (mqttRePublish_quiet sent).andThen fun rc _ => ?_
                by_cases hrc : rc = mqttNetworkError
                · simp only [hrc, if_true, iotxMcSetClientState, lock_unlock]
                  rw [lock_touch_bind (by decide), lock_unlock]
                  exact (Polite.touch _).andThen fun _ _ => Polite.touch _
                · simp only [hrc, if_false]
                  exact ih
          · simp only [ne_eq, hseen, not_false_eq_true, if_true]
            exact ih

theorem mqttPubInfoProc_quiet (i : PubSweep) : Quiet (mqttPubInfoProc i) := by
  rw [mqttPubInfoProc]
  cases i.iterator with
  | true => exact pubInfoLoop_quiet i.nodes
  | false =>
      simp only [Bool.false_eq_true, if_false, lock_unlock]
      exact Polite.touch _

end Sweep

/-! ## Connecting -/

section Connect

variable {handleEvent : Bool}

/-- A connection calls nothing with a lock held. -/
theorem iotxMcConnect_quiet (i : ConnectInput) : Quiet (iotxMcConnect handleEvent i) := by
  rw [iotxMcConnect]
  refine .ite (Quiet.pure _) ?_
  cases i.net with
  | certificateExpired => exact Quiet.pure _
  | failed => exact Quiet.pure _
  | ok =>
      exact (sendPacket_quiet _ _).bind fun _ => .ite (Quiet.pure _)
        ((waitLoop_quiet _ _ _ _).bind fun _ =>
          .ite ((mqttDisconnect_quiet _).bind fun _ => .pure _)
            ((iotxMcSetClientState_quiet _).bind fun _ => .ite (Quiet.pure _) (Quiet.pure _)))

theorem delay_quiet : Quiet delay := (Quiet.pure ()).callback

/-- In a delay the application may call anything. -/
theorem delays_quiet (n : Nat) : Quiet (delays n) := by
  induction n with
  | zero => exact .pure ()
  | succ n ih => exact delay_quiet.bind fun _ => ih

theorem iotxMcHandleReconnect_quiet (waits : Nat) (i : ConnectInput) :
    Quiet (iotxMcHandleReconnect handleEvent waits i) :=
  (delays_quiet waits).bind fun _ => (iotxMcConnect_quiet i).bind fun _ =>
    .ite ((iotxMcSetClientState_quiet _).bind fun _ => .pure _) (Quiet.pure _)

theorem iotxMcKeepaliveSub_quiet (i : PingInput) : Quiet (iotxMcKeepaliveSub i) := by
  refine (iotxMcCheckStateNormal_quiet _).bind fun _ => .ite (Quiet.pure _)
    (.ite (Quiet.pure _) ((sendPacket_quiet _ _).bind fun _ => .ite ?_ ?_))
  · exact .ite ((iotxMcSetClientState_quiet _).bind fun _ => .pure _) (Quiet.pure _)
  · rw [lock_unlock_bind]
    exact Quiet.bind (Polite.touch _) fun _ => .pure _

/-- The keepalive reconnects, or sends a ping, with no lock held. -/
theorem iotxMcKeepalive_quiet (i : KeepaliveInput) : Quiet (iotxMcKeepalive handleEvent i) := by
  refine (iotxMcKeepaliveSub_quiet _).bind fun _ => .ite (Quiet.pure _)
    ((iotxMcGetClientState_quiet _).bind fun _ => .ite ?_ (.ite ?_ (Quiet.pure _)))
  · rw [lock_unlock_bind]
    exact Quiet.bind (Polite.touch _) fun _ => (iotxMcHandleReconnect_quiet _ _).bind fun _ =>
      .ite (notify_quiet _ _) (Quiet.pure _)
  · exact (notify_quiet _ _).bind fun _ => iotxMcSetClientState_quiet _

theorem iotxMcDisconnect_quiet (i : DisconnectInput) : Quiet (iotxMcDisconnect i) :=
  (iotxMcCheckStateNormal_quiet _).bind fun _ =>
    .ite ((mqttDisconnect_quiet _).bind fun _ => iotxMcSetClientState_quiet _)
      (iotxMcSetClientState_quiet _)

theorem iotxMcRelease_quiet (i : DisconnectInput) : Quiet (iotxMcRelease i) :=
  delay_quiet.bind fun _ => (iotxMcDisconnect_quiet i).bind fun _ =>
    (iotxMcSetClientState_quiet _).bind fun _ => delay_quiet

theorem iotxMcInit_quiet (ok : Option Bool) : Quiet (iotxMcInit ok) := by
  cases ok with
  | none => exact .pure _
  | some ok => exact (iotxMcSetClientState_quiet _).bind fun _ => .pure _

theorem iotMqttConstruct_quiet (i : ConstructInput) : Quiet (iotMqttConstruct handleEvent i) :=
  (iotxMcInit_quiet _).bind fun _ => .ite (Quiet.pure _)
    ((iotxMcConnect_quiet _).bind fun _ => .ite (iotxMcRelease_quiet _) (Quiet.pure _))

/-! ## Runs -/

/-- The passes of a yield, the one after the other. -/
theorem yieldLoop_polite (rc : Int) (passes : List Pass) :
    Polite (handleEvent = false ∨ ∀ p ∈ passes, p.Calm) (fun _ => True)
      (yieldLoop handleEvent rc passes) := by
  induction passes generalizing rc with
  | nil => exact (Quiet.pure ()).mono (by simp) fun _ h => h
  | cons p ps ih =>
      have hturn : Polite (handleEvent = false ∨ ∀ q ∈ p :: ps, q.Calm) (fun _ => True) (do
          iotxMcKeepalive handleEvent p.keepalive
          let rc ← iotxMcCycle handleEvent p.cycle
          if rc = successReturn then
            mqttPubInfoProc p.pubs
            mqttSubInfoProc handleEvent p.subs
          yieldLoop handleEvent rc ps) := by
        refine (iotxMcKeepalive_quiet p.keepalive).andThen fun _ _ => ?_
        refine Polite.mono (c := (handleEvent = false ∨ ¬p.cycle.unsubscribed) ∧
            (handleEvent = false ∨ (p.cycle.succeeds → ¬p.subs.timedOut) ∧ ∀ q ∈ ps, q.Calm))
          ?_ ?_ fun _ h => h
        · refine (iotxMcCycle_polite p.cycle).bind fun rc hrc => ?_
          split
          next hok =>
            refine (mqttPubInfoProc_quiet p.pubs).andThen fun _ _ =>
              ((mqttSubInfoProc_polite p.subs).bind fun _ _ => ih rc).mono ?_ fun _ h => h
            simp [hrc.mp hok, or_and_left]
          next hfail =>
            refine (ih rc).mono ?_ fun _ h => h
            simp [mt hrc.mpr hfail]
        · rw [List.forall_mem_cons, Pass.Calm, ← or_and_left, and_assoc]
      exact .ite (delay_quiet.andThen fun _ _ => hturn) hturn

/-- An operation keeps the discipline where all its passes are calm. -/
theorem Operation.exec_polite (op : Operation) :
    Polite (handleEvent = false ∨ op.Calm) (fun _ => True) (op.exec handleEvent) := by
  cases op with
  | construct i => exact (iotMqttConstruct_quiet i).mono (by simp [Calm]) fun _ h => h
  | destroy i => exact (iotxMcRelease_quiet i).mono (by simp [Calm]) fun _ h => h
  | yield passes => exact yieldLoop_polite successReturn passes
  | call i => exact i.exec_quiet.mono (by simp [Calm]) fun _ h => h

variable (handleEvent) in
/-- A run keeps the discipline where all its operations are calm. -/
theorem run_polite (ops : List Operation) :
    Polite (handleEvent = false ∨ ∀ op ∈ ops, op.Calm) (fun _ => True) (run handleEvent ops) := by
  induction ops with
  | nil => exact (Quiet.pure ()).mono (by simp) fun _ h => h
  | cons op ops ih =>
      refine (op.exec_polite.bind fun _ _ => ih).mono ?_ fun _ h => h
      rw [List.forall_mem_cons, ← or_and_left]

end Connect

/-! ## Every function -/

/-- The functions of the client that take a mutex or call the application, each with what it
finds. -/
inductive Function where
  | getClientState (seen : McState)
  | setClientState (newState : McState)
  | checkStateNormal (seen : McState)
  | getNextPacketid
  | pushPubInfoTo (o : Push)
  | pushSubInfoTo (o : Push)
  | maskPubInfoFrom (empty iterator : Bool)
  | maskSubInfoFrom (empty iterator : Bool)
  | mqttKeepalive (o : Sending)
  | mqttConnect (o : Sending)
  | mqttPublish (qos : Nat) (o : Request)
  | mqttPuback (o : Sending) (type : Nat)
  | mqttSubscribe (o : Request)
  | mqttUnsubscribe (o : Request)
  | mqttDisconnect (o : Sending)
  | mqttRePublish (sent : Bool)
  | call (i : ApiCall)
  | readPacket (packetType : Nat) (reading : Reading)
  | deliverMessage (slots : List Slot) (body : Body)
  | handleRecvPuback (i : PubackInput)
  | handleRecvSuback (i : SubackInput)
  | handleRecvPublish (i : PublishInput)
  | handleRecvUnsuback (i : UnsubackInput)
  | waitConnack (readings : Nat → Reading) (connackRc : Option Nat)
  | cycle (i : CycleInput)
  | subInfoProc (i : SubSweep)
  | pubInfoProc (i : PubSweep)
  | connect (i : ConnectInput)
  | handleReconnect (waits : Nat) (i : ConnectInput)
  | keepaliveSub (i : PingInput)
  | keepalive (i : KeepaliveInput)
  | disconnect (i : DisconnectInput)
  | release (i : DisconnectInput)
  | init (ok : Option Bool)
  | operation (op : Operation)

/-- Forget the result. -/
def ignore {α : Type} (f : Action α) : Action Unit := do
  let _ ← f

def Function.exec (handleEvent : Bool) : Function → Action Unit
  | getClientState seen => ignore (iotxMcGetClientState seen)
  | setClientState newState => iotxMcSetClientState newState
  | checkStateNormal seen => ignore (iotxMcCheckStateNormal seen)
  | getNextPacketid => iotxMcGetNextPacketid
  | pushPubInfoTo o => ignore (iotxMcPushPubInfoTo o)
  | pushSubInfoTo o => ignore (iotxMcPushSubInfoTo o)
  | maskPubInfoFrom empty iterator => ignore (iotxMcMaskPubInfoFrom empty iterator)
  | maskSubInfoFrom empty iterator => ignore (iotxMcMaskSubInfoFrom empty iterator)
  | mqttKeepalive o => ignore (Lock.mqttKeepalive o)
  | mqttConnect o => ignore (Lock.mqttConnect o)
  | mqttPublish qos o => ignore (Lock.mqttPublish qos o)
  | mqttPuback o type => ignore (Lock.mqttPuback o type)
  | mqttSubscribe o => ignore (Lock.mqttSubscribe o)
  | mqttUnsubscribe o => ignore (Lock.mqttUnsubscribe o)
  | mqttDisconnect o => ignore (Lock.mqttDisconnect o)
  | mqttRePublish sent => ignore (Lock.mqttRePublish sent)
  | call i => i.exec
  | readPacket packetType reading => ignore (iotxMcReadPacket handleEvent packetType reading)
  | deliverMessage slots body => iotxMcDeliverMessage handleEvent slots body
  | handleRecvPuback i => ignore (iotxMcHandleRecvPuback handleEvent i)
  | handleRecvSuback i => ignore (iotxMcHandleRecvSuback handleEvent i)
  | handleRecvPublish i => ignore (iotxMcHandleRecvPublish handleEvent i)
  | handleRecvUnsuback i => ignore (iotxMcHandleRecvUnsuback handleEvent i)
  | waitConnack readings connackRc =>
      ignore (iotxMcWaitConnack handleEvent readings connackRc)
  | cycle i => ignore (iotxMcCycle handleEvent i)
  | subInfoProc i => mqttSubInfoProc handleEvent i
  | pubInfoProc i => mqttPubInfoProc i
  | connect i => ignore (iotxMcConnect handleEvent i)
  | handleReconnect waits i => ignore (iotxMcHandleReconnect handleEvent waits i)
  | keepaliveSub i => ignore (iotxMcKeepaliveSub i)
  | keepalive i => iotxMcKeepalive handleEvent i
  | disconnect i => iotxMcDisconnect i
  | release i => iotxMcRelease i
  | init ok => ignore (iotxMcInit ok)
  | operation op => op.exec handleEvent

theorem ignore_balanced {α : Type} {c : Prop} {Q : α → Prop} {f : Action α} (h : Polite c Q f) :
    Balanced (fun _ => True) (ignore f) :=
  h.balanced.bind fun _ _ => .pure trivial

/-- Every function gives back the mutexes it takes, and no other. -/
theorem Function.exec_balanced (handleEvent : Bool) (f : Function) :
    Balanced (fun _ => True) (f.exec handleEvent) := by
  cases f with
  | getClientState seen => exact ignore_balanced (iotxMcGetClientState_polite seen)
  | setClientState newState => exact (iotxMcSetClientState_quiet newState).balanced
  | checkStateNormal seen => exact ignore_balanced (iotxMcCheckStateNormal_quiet seen)
  | getNextPacketid => exact iotxMcGetNextPacketid_quiet.balanced
  | pushPubInfoTo o => exact ignore_balanced (pushInfoTo_quiet .listPub o)
  | pushSubInfoTo o => exact ignore_balanced (pushInfoTo_quiet .listSub o)
  | maskPubInfoFrom empty iterator =>
      exact ignore_balanced (maskInfoFrom_quiet .listPub empty iterator)
  | maskSubInfoFrom empty iterator =>
      exact ignore_balanced (maskInfoFrom_quiet .listSub empty iterator)
  | mqttKeepalive o => exact ignore_balanced (sendPacket_quiet mqttPingPacketError o)
  | mqttConnect o => exact ignore_balanced (sendPacket_quiet mqttConnectPacketError o)
  | mqttPublish qos o => exact ignore_balanced (mqttPublish_quiet qos o)
  | mqttPuback o type => exact ignore_balanced (mqttPuback_polite o type)
  | mqttSubscribe o => exact ignore_balanced (sendRequest_quiet mqttSubscribePacketError o)
  | mqttUnsubscribe o => exact ignore_balanced (sendRequest_quiet mqttUnsubscribePacketError o)
  | mqttDisconnect o => exact ignore_balanced (mqttDisconnect_quiet o)
  | mqttRePublish sent => exact ignore_balanced (mqttRePublish_quiet sent)
  | call i => exact i.exec_quiet.balanced
  | readPacket packetType reading =>
      exact ignore_balanced (iotxMcReadPacket_polite packetType reading)
  | deliverMessage slots body => exact (iotxMcDeliverMessage_quiet slots body).balanced
  | handleRecvPuback i => exact ignore_balanced (iotxMcHandleRecvPuback_polite i)
  | handleRecvSuback i => exact ignore_balanced (iotxMcHandleRecvSuback_polite i)
  | handleRecvPublish i => exact ignore_balanced (iotxMcHandleRecvPublish_polite i)
  | handleRecvUnsuback i => exact ignore_balanced (iotxMcHandleRecvUnsuback_polite i)
  | waitConnack readings connackRc =>
      exact ignore_balanced (waitLoop_quiet connackRc waitConnackMax 0 readings)
  | cycle i => exact ignore_balanced (iotxMcCycle_polite i)
  | subInfoProc i => exact (mqttSubInfoProc_polite i).balanced
  | pubInfoProc i => exact (mqttPubInfoProc_quiet i).balanced
  | connect i => exact ignore_balanced (iotxMcConnect_quiet i)
  | handleReconnect waits i => exact ignore_balanced (iotxMcHandleReconnect_quiet waits i)
  | keepaliveSub i => exact ignore_balanced (iotxMcKeepaliveSub_quiet i)
  | keepalive i => exact (iotxMcKeepalive_quiet i).balanced
  | disconnect i => exact (iotxMcDisconnect_quiet i).balanced
  | release i => exact (iotxMcRelease_quiet i).balanced
  | init ok => exact ignore_balanced (iotxMcInit_quiet ok)
  | operation op => exact op.exec_polite.balanced

/-! ## The discipline -/

/-- Every function returns with the mutexes it was entered with, and the run gets to its end
with no mutex held at any callback. -/
def Disciplined (handleEvent : Bool) (ops : List Operation) : Prop :=
  (∀ (f : Function) (s t : Locks Mutex),
    f.exec handleEvent s = .ok ((), t) → t.held = s.held) ∧
  ∃ t, run handleEvent ops Locks.fresh = .ok ((), t) ∧ t.Unlocked

theorem run_disciplined_iff (handleEvent : Bool) (ops : List Operation) :
    Disciplined handleEvent ops ↔ handleEvent = false ∨ ∀ op ∈ ops, op.Calm := by
  have hrun := run_polite handleEvent ops
  constructor
  · rintro ⟨-, t, hend, hunlocked⟩
    exact hrun.only Locks.fresh_unlocked hend hunlocked
  · intro hcalm
    refine ⟨fun f s t hend => ((f.exec_balanced handleEvent).ends hend).2.1, ?_⟩
    obtain ⟨_, t, hend, hunlocked⟩ := hrun.returns hcalm Locks.fresh_unlocked
    exact ⟨t, hend, hunlocked⟩

private def acceptedConnect : ConnectInput :=
  ⟨true, .ok, ⟨true, true⟩, fun _ => .packet connack, some 0, ⟨true, true⟩, true⟩

/-- A turn that reads an UNSUBACK, after which the application asks for the state. -/
def unsubackPass : Pass where
  keepalive := ⟨⟨.connected, false, ⟨true, true⟩⟩, false, .connected, 0, acceptedConnect, []⟩
  cycle :=
    { seen := .connected
      probesExceeded := false
      indeterminate := 0
      reading := .packet Mqtt.unsuback
      puback := ⟨true, true, true, []⟩
      suback := ⟨true, true, true, false, true, false, true, []⟩
      publish := ⟨true, [], [], 0, ⟨true, true⟩⟩
      unsuback := ⟨true, false, true, [.checkStateNormal true .connected]⟩ }
  pubs := ⟨true, []⟩
  subs := ⟨true, []⟩

theorem not_disciplined_unsuback :
    run true [.yield [unsubackPass]] Locks.fresh = .error .deadlock ∧
      ¬Disciplined true [.yield [unsubackPass]] := by
  have hrun : run true [.yield [unsubackPass]] Locks.fresh = .error .deadlock := rfl
  refine ⟨hrun, fun h => ?_⟩
  obtain ⟨-, t, hend, -⟩ := h
  rw [hrun] at hend
  cases hend

end IotKit.Mqtt.Lock
