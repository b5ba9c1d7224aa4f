import IotKit.Mqtt.Publish

/-!
# Publishes and the network

What the network takes of a publish with QoS 0, and what the call returns.  The send loop may
read past the send buffer, since it asks for the whole length again after a partial write;
the publish comes to an end exactly where it does not.
-/

namespace IotKit.Mqtt

open CMemory

/-- The `size` bytes of the buffer hold all that the network takes in the send loop. -/
def WritesInside (size length : Nat) : List Int → Nat → Prop
  | [], _ => True
  | rc :: writes, sent =>
      sent < length → 0 ≤ rc →
        sent + rc.toNat ≤ size ∧ WritesInside size length writes (sent + rc.toNat)

/-- What the network took of the packet in `buf_send`. -/
def publishWire (r : PublishResult) (env : PublishEnv) : Bytes :=
  match r.requests with
  | [] => []
  | q :: _ =>
      match iotxMcSendPacket r.client.bufSend q.len env.writes with
      | .ok sent => sent.wire
      | .error _ => []

/-! ## The send loop -/

section Loop

variable {buf : Bytes} {length : Nat} {writes : List Int}

theorem sendLoop_inside {sent : Nat} (hsent : sent ≤ buf.length)
    (h : WritesInside buf.length length writes sent) :
    ∃ log, sendLoop buf length writes sent = .ok log := by
  induction writes generalizing sent with
  | nil => exact ⟨_, rfl⟩
  | cons rc writes ih =>
      rw [sendLoop]
      split
      next hlt =>
        split
        · exact ⟨_, rfl⟩
        next hrc =>
          obtain ⟨hle, hrest⟩ := h hlt (Int.not_lt.mp hrc)
          obtain ⟨log, hlog⟩ := ih hle hrest
          rw [loadN_of_le hle, ok_bind, hlog, ok_bind]
          exact ⟨_, rfl⟩
      next => exact ⟨_, rfl⟩

/-- The loop takes the bytes of the buffer in order, and none from outside. -/
theorem sendLoop_wire {sent : Nat} (hsent : sent ≤ buf.length) {log : SendLog}
    (h : sendLoop buf length writes sent = .ok log) :
    WritesInside buf.length length writes sent ∧ sent ≤ log.sent ∧ log.sent ≤ buf.length ∧
      log.wire = (buf.drop sent).take (log.sent - sent) := by
  induction writes generalizing sent log with
  | nil =>
      cases h
      exact ⟨trivial, Nat.le_refl _, hsent, by rw [Nat.sub_self, List.take_zero]⟩
  | cons rc writes ih =>
      rw [sendLoop] at h
      split at h
      next hlt =>
        split at h
        next hrc =>
          cases h
          exact ⟨fun _ hle => absurd hrc (Int.not_lt.mpr hle), Nat.le_refl _, hsent,
            by rw [Nat.sub_self, List.take_zero]⟩
        next hrc =>
          obtain ⟨taken, htaken, h⟩ := bind_eq_ok.mp h
          obtain ⟨rest, hrest, h⟩ := bind_eq_ok.mp h
          cases h
          obtain ⟨-, hle, rfl⟩ := loadN_eq_ok.mp htaken
          rw [Int.toNat_natCast] at hle ⊢
          obtain ⟨hinside, hge, hmax, hwire⟩ := ih hle hrest
          refine ⟨fun _ _ => ⟨hle, hinside⟩, by dsimp only; omega, hmax, ?_⟩
          dsimp only
          rw [hwire, ← List.drop_drop, ← List.take_add]
          congr 1
          omega
      next hlt =>
        cases h
        exact ⟨fun hlt' => absurd hlt' hlt, Nat.le_refl _, hsent,
          by rw [Nat.sub_self, List.take_zero]⟩

theorem iotxMcSendPacket_inside :
    (∃ res, iotxMcSendPacket buf length writes = .ok res) ↔
      WritesInside buf.length length writes 0 := by
  constructor
  · rintro ⟨res, h⟩
    obtain ⟨log, hlog, -⟩ := bind_eq_ok.mp h
    exact (sendLoop_wire (Nat.zero_le _) hlog).1
  · intro h
    obtain ⟨log, hlog⟩ := sendLoop_inside (Nat.zero_le _) h
    exact ⟨_, bind_eq_ok.mpr ⟨log, hlog, rfl⟩⟩

/-- The loop succeeds exactly if the network took the packet. -/
theorem iotxMcSendPacket_took (hlength : length ≤ buf.length) {res : SendResult}
    (h : iotxMcSendPacket buf length writes = .ok res) :
    res.rc = successReturn ∧ res.wire = buf.take length ∨
      res.rc = mqttNetworkError ∧ res.wire ≠ buf.take length := by
  obtain ⟨log, hlog, h⟩ := bind_eq_ok.mp h
  cases h
  obtain ⟨-, -, hmax, hwire⟩ := sendLoop_wire (Nat.zero_le _) hlog
  rw [List.drop_zero, Nat.sub_zero] at hwire
  dsimp only
  rw [hwire]
  split
  next hsent =>
    rw [hsent]
    exact Or.inl ⟨rfl, rfl⟩
  next hsent =>
    refine Or.inr ⟨rfl, fun heq => hsent ?_⟩
    have hlengths := congrArg List.length heq
    rw [List.length_take, List.length_take] at hlengths
    omega

/-- A packet goes unsent only where the timer has expired before the first write. -/
theorem iotxMcSendPacket_unsent {res : SendResult} (hpos : 0 < length)
    (h : iotxMcSendPacket buf length writes = .ok res) : res.requests = [] ↔ writes = [] := by
  obtain ⟨log, hlog, h⟩ := bind_eq_ok.mp h
  cases h
  cases writes with
  | nil =>
      cases hlog
      exact ⟨fun _ => rfl, fun _ => rfl⟩
  | cons rc writes =>
      refine ⟨fun hrequests => ?_, nofun⟩
      rw [sendLoop, if_pos hpos] at hlog
      split at hlog
      · cases hlog
        cases hrequests
      · obtain ⟨_, _, hlog⟩ := bind_eq_ok.mp hlog
        obtain ⟨_, _, hlog⟩ := bind_eq_ok.mp hlog
        cases hlog
        cases hrequests

end Loop

/-! ## The call -/

section Call

variable {c : McClient} {topicName : Bytes} {msg msgUp : Message} {rcUp : Int} {env : PublishEnv}

/-- A packet that fits is sent from the buffer. -/
theorem mqttPublish_sends (env : PublishEnv) (htopic : topicName.length ≤ iotxMcTopicNameMaxLen)
    (hqos : msg.qos = 0) (hroom : ¬NoRoom c topicName msg) :
    ∃ buf : Bytes, buf.length = c.bufSend.length ∧
      (publishPacket topicName msg).length ≤ buf.length ∧
      buf.take (publishPacket topicName msg).length = publishPacket topicName msg ∧
      mqttPublish c topicName msg env =
        iotxMcSendPacket buf (publishPacket topicName msg).length env.writes >>= fun sent =>
          if sent.rc ≠ successReturn then
            .ok ⟨mqttNetworkError, { c with bufSend := buf }, sent.requests⟩
          else .ok ⟨successReturn, { c with bufSend := buf }, sent.requests⟩ := by
  rw [NoRoom, not_or] at hroom
  obtain ⟨buf, hser, hlen, hsize, htake⟩ := mqttSerializePublish_of_fits 0 msg.retain
    msg.packetId (publishLength_small htopic) (Nat.le_of_not_lt hroom.1)
  rw [← publishPacket] at hser hlen htake
  have hpos : 0 < (publishPacket topicName msg).length :=
    List.length_pos_of_ne_nil publishPacket_ne_nil
  refine ⟨buf, hsize, hsize ▸ hlen, htake, ?_⟩
  rw [mqttPublish, hser, ok_bind]
  dsimp only
  rw [if_neg (by omega), if_neg (by omega), Int.toNat_natCast]

/-- The end of `iotx_mc_publish` for a message of QoS 0. -/
theorem iotxMcPublish_qos0 (hqos : msg.qos = 0) (hrej : ¬Rejected c topicName msg) :
    iotxMcPublish c topicName msg (some (rcUp, msgUp)) env =
      mqttPublish c topicName msgUp env >>= fun r =>
        if r.rc = mqttNetworkError then
          .ok { r with client := iotxMcSetClientState r.client .disconnected }
        else if r.rc ≠ successReturn then .ok r
        else .ok { r with rc := 0 } := by
  rw [Rejected, not_or, not_or] at hrej
  obtain ⟨htopic, hstate, -⟩ := hrej
  have hassign : assignPacketId c msg = (0, c, msg) := by
    rw [assignPacketId, hqos]
    rfl
  rw [iotxMcPublish, if_neg htopic, if_neg hstate, hassign]
  dsimp only
  rw [hqos, if_neg (by decide)]
  rfl

theorem publishWire_of_requests {r : PublishResult} {buf : Bytes} {length : Nat} {sent : SendResult}
    (hsent : iotxMcSendPacket buf length env.writes = .ok sent) (hbuf : r.client.bufSend = buf)
    (hrequests : r.requests = sent.requests) : publishWire r env = sent.wire := by
  rw [publishWire, hrequests, hbuf]
  cases hreq : sent.requests with
  | nil =>
      obtain ⟨log, hlog, h⟩ := bind_eq_ok.mp hsent
      cases h
      obtain ⟨sent', requests, wire⟩ := log
      obtain rfl : requests = [] := hreq
      cases hwrites : env.writes with
      | nil =>
          rw [hwrites] at hlog
          cases hlog
          rfl
      | cons rc writes =>
          rw [hwrites, sendLoop] at hlog
          split at hlog
          · split at hlog
            · cases hlog
            · obtain ⟨_, _, hlog⟩ := bind_eq_ok.mp hlog
              obtain ⟨_, _, hlog⟩ := bind_eq_ok.mp hlog
              cases hlog
          · cases hlog
            rfl
  | cons q requests =>
      have hhead := iotxMcSendPacket_head hsent (by rw [hreq]; exact List.cons_ne_nil _ _)
      rw [hreq, List.head?_cons] at hhead
      obtain rfl := Option.some.inj hhead
      dsimp only
      rw [hsent]

/-- The packet is sent: the call is not rejected, and there is room. -/
def Sends (c : McClient) (topicName : Bytes) (msg msgUp : Message) : Prop :=
  ¬Rejected c topicName msg ∧ ¬NoRoom c topicName msgUp

/-- A publish of QoS 0 returns 0 if the network took its packet, and a negative number if it
did not. -/
theorem iotxMcPublish_reports (hqos : msg.qos = 0) (hqosUp : msgUp.qos = 0) {r : PublishResult}
    (h : iotxMcPublish c topicName msg (some (rcUp, msgUp)) env = .ok r) :
    r.rc = 0 ∧ publishWire r env = publishPacket topicName msgUp ∨
      r.rc < 0 ∧ publishWire r env ≠ publishPacket topicName msgUp := by
  by_cases hsends : Sends c topicName msg msgUp
  · have htopic : topicName.length ≤ iotxMcTopicNameMaxLen :=
      iotxMcCheckTopic_length (Decidable.not_not.mp (not_or.mp hsends.1).1)
    obtain ⟨buf, -, hlen, htake, hpublish⟩ := mqttPublish_sends env htopic hqosUp hsends.2
    rw [iotxMcPublish_qos0 hqos hsends.1, hpublish] at h
    obtain ⟨r₁, hr₁, h⟩ := bind_eq_ok.mp h
    obtain ⟨sent, hsent, hr₁⟩ := bind_eq_ok.mp hr₁
    obtain ⟨hrc, hwire⟩ | ⟨hrc, hwire⟩ := iotxMcSendPacket_took hlen hsent
    · rw [if_neg (by rw [hrc]; decide)] at hr₁
      cases hr₁
      dsimp only at h
      rw [if_neg (by decide), if_neg (by decide)] at h
      cases h
      exact Or.inl ⟨rfl, (publishWire_of_requests hsent rfl rfl).trans (hwire.trans htake)⟩
    · rw [if_pos (by rw [hrc]; decide)] at hr₁
      cases hr₁
      dsimp only at h
      rw [if_pos rfl] at h
      cases h
      refine Or.inr ⟨show mqttNetworkError < 0 by decide, fun heq => hwire ?_⟩
      rw [htake, ← heq]
      exact (publishWire_of_requests hsent rfl rfl).symm
  · have hrefuse : Rejected c topicName msg ∨ NoRoom c topicName msgUp := by
      rw [Sends, not_and_or, not_not, not_not] at hsends
      exact hsends
    obtain ⟨hreq, -, hneg⟩ := iotxMcPublish_refused hrefuse h
    refine Or.inr ⟨hneg, ?_⟩
    rw [publishWire, hreq]
    exact publishPacket_ne_nil.symm

/-- A publish of QoS 0 goes unsent if it is refused, or if the timer has expired. -/
theorem iotxMcPublish_unsent (hqos : msg.qos = 0) (hqosUp : msgUp.qos = 0) {r : PublishResult}
    (h : iotxMcPublish c topicName msg (some (rcUp, msgUp)) env = .ok r) :
    r.requests = [] ↔ ¬(env.writes ≠ [] ∧ Sends c topicName msg msgUp) := by
  by_cases hsends : Sends c topicName msg msgUp
  · have htopic : topicName.length ≤ iotxMcTopicNameMaxLen :=
      iotxMcCheckTopic_length (Decidable.not_not.mp (not_or.mp hsends.1).1)
    obtain ⟨buf, -, -, -, hpublish⟩ := mqttPublish_sends env htopic hqosUp hsends.2
    rw [iotxMcPublish_qos0 hqos hsends.1, hpublish] at h
    obtain ⟨r₁, hr₁, h⟩ := bind_eq_ok.mp h
    obtain ⟨sent, hsent, hr₁⟩ := bind_eq_ok.mp hr₁
    have hrequests : r.requests = sent.requests := by
      refine (publish_end h).1.trans ?_
      split at hr₁
      · cases hr₁
        rfl
      · cases hr₁
        rfl
    rw [hrequests,
      iotxMcSendPacket_unsent (List.length_pos_of_ne_nil publishPacket_ne_nil) hsent]
    exact ⟨fun hnil hsome => hsome.1 hnil,
      fun hnone => by_contra fun hnil => hnone ⟨hnil, hsends⟩⟩
  · have hrefuse : Rejected c topicName msg ∨ NoRoom c topicName msgUp := by
      rw [Sends, not_and_or, not_not, not_not] at hsends
      exact hsends
    exact ⟨fun _ hsome => hsends hsome.2, fun _ => (iotxMcPublish_refused hrefuse h).1⟩

/-- What is not given to the network is reported as a failure. -/
theorem iotxMcPublish_unsent_fails (hqos : msg.qos = 0) (hqosUp : msgUp.qos = 0)
    {r : PublishResult}
    (h : iotxMcPublish c topicName msg (some (rcUp, msgUp)) env = .ok r)
    (hunsent : r.requests = []) : r.rc < 0 := by
  obtain ⟨-, hwire⟩ | ⟨hneg, -⟩ := iotxMcPublish_reports hqos hqosUp h
  · rw [publishWire, hunsent] at hwire
    exact absurd hwire.symm publishPacket_ne_nil
  · exact hneg

/-- The call comes to an end exactly if the send loop does not leave the buffer. -/
theorem iotxMcPublish_ends (hqos : msg.qos = 0) (hqosUp : msgUp.qos = 0) :
    (∃ r, iotxMcPublish c topicName msg (some (rcUp, msgUp)) env = .ok r) ↔
      (Sends c topicName msg msgUp →
        WritesInside c.bufSend.length (publishPacket topicName msgUp).length env.writes 0) := by
  by_cases hrej : Rejected c topicName msg
  · refine ⟨fun _ hsends => absurd hrej hsends.1, fun _ => ?_⟩
    rw [iotxMcPublish]
    split
    · exact ⟨_, rfl⟩
    split
    · exact ⟨_, rfl⟩
    next htopic hstate =>
      obtain htopic' | hstate' | hqos' := hrej
      · exact absurd htopic' htopic
      · exact absurd hstate' hstate
      · exact absurd (hqos.symm.trans hqos') (by decide)
  rw [iotxMcPublish_qos0 hqos hrej]
  by_cases hroom : NoRoom c topicName msgUp
  · refine ⟨fun _ hsends => absurd hroom hsends.2, fun _ => ?_⟩
    have hbig := hroom.resolve_right (by rw [hqosUp]; exact fun h => Nat.lt_irrefl 0 h.1)
    have hpublish : mqttPublish c topicName msgUp env = .ok ⟨mqttPublishPacketError, c, []⟩ := by
      rw [mqttPublish, mqttSerializePublish]
      dsimp only
      rw [if_pos hbig, ok_bind]
      rfl
    rw [hpublish]
    exact ⟨_, rfl⟩
  · have htopic : topicName.length ≤ iotxMcTopicNameMaxLen :=
      iotxMcCheckTopic_length (Decidable.not_not.mp (not_or.mp hrej).1)
    obtain ⟨buf, hsize, hlen, -, hpublish⟩ := mqttPublish_sends env htopic hqosUp hroom
    rw [← hsize, ← iotxMcSendPacket_inside, hpublish]
    constructor
    · rintro ⟨r, h⟩ -
      obtain ⟨r₁, hr₁, -⟩ := bind_eq_ok.mp h
      obtain ⟨sent, hsent, -⟩ := bind_eq_ok.mp hr₁
      exact ⟨sent, hsent⟩
    · intro h
      obtain ⟨sent, hsent⟩ := h ⟨hrej, hroom⟩
      rw [hsent, ok_bind]
      split
      · exact ⟨_, rfl⟩
      · exact ⟨_, rfl⟩

end Call

end IotKit.Mqtt
