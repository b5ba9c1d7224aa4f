import IotKit.Config
import IotKit.Lib.Memory

/-!
# Sending a packet

`iotx_mc_send_packet` hands a serialized packet to `ipstack->write` until all of
it is accepted, the write fails or the timer expires.  The environment of one
call is the list of the results that `write` returns while the timer runs: the
list ends where the timer expires.  So every moment of expiry and every pattern
of short writes is one list.

The HAL contract (`hal_tcp_interface.h`) lets `write` return a negative number,
zero, or the count of bytes it accepted, at most the length requested.

`sendLoop` passes the whole `length` with every request, also when `sent` bytes
are already gone.  `WireIntegrity` says what a correct sender guarantees and
`NoRetryAfterPartial` when this one does: as long as no write is attempted after
one that took a proper part of the packet.
-/

namespace IotKit.Mqtt

open CMemory

/-- One request to `ipstack->write`: `len` bytes from offset `off` of the buffer. -/
structure WriteReq where
  /-- Offset of the first byte requested. -/
  off : Nat
  /-- Bytes requested. -/
  len : Nat
deriving DecidableEq, Repr

/-- What the send loop leaves behind. -/
structure SendLog where
  /-- The local `sent`. -/
  sent : Nat
  /-- The requests made, oldest first. -/
  requests : List WriteReq
  /-- The bytes the network accepted, in order. -/
  wire : Bytes
deriving DecidableEq, Repr

/-- The loop of `iotx_mc_send_packet`.  `buf` is the object the packet lies in,
from the packet's first byte.  Each element of the list is one pass: the timer
has not expired and `write` returns that element. -/
def sendLoop (buf : Bytes) (length : Nat) : List Int → Nat → Checked SendLog
  | [], sent => .ok ⟨sent, [], []⟩
  | rc :: writes, sent =>
      if sent < length then
        if rc < 0 then .ok ⟨sent, [⟨sent, length⟩], []⟩
        else do
          let taken ← loadN buf sent rc.toNat
          let log ← sendLoop buf length writes (sent + rc.toNat)
          .ok ⟨log.sent, ⟨sent, length⟩ :: log.requests, taken ++ log.wire⟩
      else .ok ⟨sent, [], []⟩

/-- The result of `iotx_mc_send_packet`. -/
structure SendResult where
  /-- The return code. -/
  rc : Int
  /-- The requests made, oldest first. -/
  requests : List WriteReq
  /-- The bytes the network accepted, in order. -/
  wire : Bytes
deriving DecidableEq, Repr

/-- `iotx_mc_send_packet`. -/
def iotxMcSendPacket (buf : Bytes) (length : Nat) (writes : List Int) : Checked SendResult := do
  let log ← sendLoop buf length writes 0
  .ok ⟨if log.sent = length then successReturn else mqttNetworkError, log.requests, log.wire⟩

/-- The HAL contract of `write` for requests of `length` bytes. -/
def WriteContract (length : Nat) (writes : List Int) : Prop := ∀ rc ∈ writes, rc ≤ length

/-- What a sender owes: it asks only for bytes of the packet, the network gets a
prefix of the packet, and it reports success exactly when that is the packet. -/
def WireIntegrity (buf : Bytes) (length : Nat) (writes : List Int) : Prop :=
  ∃ res, iotxMcSendPacket buf length writes = .ok res ∧
    (∀ q ∈ res.requests, q.off + q.len ≤ length) ∧
    (∃ k ≤ length, res.wire = buf.take k) ∧
    (res.rc = successReturn ↔ res.wire = buf.take length)

/-- No write is attempted after one that accepted some bytes but not all: the
timer expires right after it.  Writes that accept nothing may be repeated. -/
def NoRetryAfterPartial (length : Nat) (writes : List Int) : Prop :=
  ∀ (idle : List Int) (rc : Int) (later : List Int), writes = idle ++ rc :: later →
    (∀ z ∈ idle, z = 0) → 0 < rc → rc < length → later = []

/-! ## The loop up to the first write that accepts bytes -/

/-- A write that accepts nothing costs one request and one pass. -/
theorem sendLoop_zero {buf : Bytes} {length : Nat} (writes : List Int) (h : 0 < length) :
    sendLoop buf length (0 :: writes) 0 = (sendLoop buf length writes 0 >>= fun log =>
      .ok ⟨log.sent, ⟨0, length⟩ :: log.requests, log.wire⟩) := by
  have h0 : loadN buf ((0 : Nat) : Int) 0 = .ok [] := loadN_of_le (by omega)
  simp only [sendLoop, if_pos h, if_neg (Int.lt_irrefl 0), Int.toNat_zero, h0, ok_bind,
    List.nil_append, Nat.add_zero]

/-- Once something is sent, a further pass requests bytes past the packet. -/
theorem sendLoop_late {buf : Bytes} {length sent : Nat} {rc : Int} {writes : List Int}
    {log : SendLog} (hs : 0 < sent) (hl : sent < length)
    (h : sendLoop buf length (rc :: writes) sent = .ok log) :
    ∃ q ∈ log.requests, length < q.off + q.len := by
  refine ⟨⟨sent, length⟩, ?_, by simp only; omega⟩
  rw [sendLoop, if_pos hl] at h
  split at h
  · rw [← Except.ok.inj h]
    exact List.mem_singleton_self _
  · obtain ⟨taken, _, h⟩ := bind_eq_ok.mp h
    obtain ⟨rest, _, h⟩ := bind_eq_ok.mp h
    rw [← Except.ok.inj h]
    exact List.mem_cons_self ..

/-- What the loop leaves when no write is attempted after a partial one. -/
theorem sendLoop_once {buf : Bytes} {length : Nat} (hbuf : length ≤ buf.length) :
    ∀ writes, WriteContract length writes → NoRetryAfterPartial length writes →
      ∃ log, sendLoop buf length writes 0 = .ok log ∧
        (∀ q ∈ log.requests, q.off + q.len ≤ length) ∧
        log.sent ≤ length ∧ log.wire = buf.take log.sent
  | [], _, _ => ⟨⟨0, [], []⟩, rfl, by simp, Nat.zero_le _, by simp⟩
  | rc :: writes, hc, hn => by
      by_cases hl : 0 < length
      swap
      · refine ⟨⟨0, [], []⟩, ?_, by simp, Nat.zero_le _, by simp⟩
        rw [sendLoop, if_neg hl]
      rcases Int.lt_trichotomy rc 0 with hneg | hzero | hpos
      · refine ⟨⟨0, [⟨0, length⟩], []⟩, ?_, by simp, Nat.zero_le _, by simp⟩
        rw [sendLoop, if_pos hl, if_pos hneg]
      · -- nothing accepted: the same argument for the rest of the schedule
        subst hzero
        have hc' : WriteContract length writes := fun z hz => hc z (List.mem_cons_of_mem _ hz)
        have hn' : NoRetryAfterPartial length writes := by
          intro idle r later hw hidle
          exact hn (0 :: idle) r later (by rw [hw]; rfl) (by simpa using hidle)
        obtain ⟨log, hlog, hreq, hsent, hwire⟩ := sendLoop_once hbuf writes hc' hn'
        refine ⟨⟨log.sent, ⟨0, length⟩ :: log.requests, log.wire⟩, ?_, ?_, hsent, hwire⟩
        · rw [sendLoop_zero writes hl, hlog, ok_bind]
        · intro q hq
          rcases List.mem_cons.mp hq with rfl | hq
          · simp
          · exact hreq q hq
      · have hle : rc ≤ length := hc rc (List.mem_cons_self ..)
        have hload : loadN buf ((0 : Nat) : Int) rc.toNat = .ok (buf.take rc.toNat) := by
          rw [loadN_of_le (by omega), List.drop_zero]
        -- the loop ends here: all is sent, or the timer has expired
        have hend : sendLoop buf length writes (0 + rc.toNat) = .ok ⟨rc.toNat, [], []⟩ := by
          rw [Nat.zero_add]
          cases writes with
          | nil => rfl
          | cons r rs =>
              have hfull : ¬ rc < length := fun hlt =>
                List.cons_ne_nil r rs (hn [] rc (r :: rs) rfl (by simp) hpos hlt)
              rw [sendLoop, if_neg (by omega)]
        refine ⟨⟨rc.toNat, [⟨0, length⟩], buf.take rc.toNat⟩, ?_, by simp, by simp only; omega, rfl⟩
        rw [sendLoop, if_pos hl, if_neg (by omega), hload, ok_bind, hend, ok_bind,
          List.append_nil]

/-- A write attempted after a partial one makes a request past the packet. -/
theorem sendLoop_retry {buf : Bytes} {length : Nat} {rc : Int} {later : List Int}
    (hpos : 0 < rc) (hlt : rc < length) (hlater : later ≠ []) :
    ∀ idle : List Int, (∀ z ∈ idle, z = 0) → ∀ {log : SendLog},
      sendLoop buf length (idle ++ rc :: later) 0 = .ok log →
        ∃ q ∈ log.requests, length < q.off + q.len
  | [], _, log, h => by
      obtain ⟨r, rs, rfl⟩ := List.exists_cons_of_ne_nil hlater
      rw [List.nil_append, sendLoop, if_pos (by omega), if_neg (by omega)] at h
      obtain ⟨taken, _, h⟩ := bind_eq_ok.mp h
      obtain ⟨rest, hrest, h⟩ := bind_eq_ok.mp h
      obtain ⟨q, hq, hlong⟩ := sendLoop_late (by omega) (by omega) hrest
      rw [← Except.ok.inj h]
      exact ⟨q, List.mem_cons_of_mem _ hq, hlong⟩
  | z :: idle, hz, log, h => by
      obtain rfl : z = 0 := hz z (List.mem_cons_self ..)
      rw [List.cons_append, sendLoop_zero _ (by omega)] at h
      obtain ⟨rest, hrest, h⟩ := bind_eq_ok.mp h
      obtain ⟨q, hq, hlong⟩ := sendLoop_retry hpos hlt hlater idle
        (fun w hw => hz w (List.mem_cons_of_mem _ hw)) hrest
      rw [← Except.ok.inj h]
      exact ⟨q, List.mem_cons_of_mem _ hq, hlong⟩

/-- The first request is for the whole packet. -/
theorem iotxMcSendPacket_head {buf : Bytes} {length : Nat} {writes : List Int} {res : SendResult}
    (h : iotxMcSendPacket buf length writes = .ok res) (hsome : res.requests ≠ []) :
    res.requests.head? = some ⟨0, length⟩ := by
  obtain ⟨log, hlog, h⟩ := bind_eq_ok.mp h
  cases h
  cases writes with
  | nil =>
      cases hlog
      exact absurd rfl hsome
  | cons rc writes =>
      rw [sendLoop] at hlog
      split at hlog
      · split at hlog
        · cases hlog
          rfl
        · obtain ⟨_, _, hlog⟩ := bind_eq_ok.mp hlog
          obtain ⟨_, _, hlog⟩ := bind_eq_ok.mp hlog
          cases hlog
          rfl
      · cases hlog
        exact absurd rfl hsome

/-- A write that accepts nothing, and then the timer expires. -/
theorem iotxMcSendPacket_idle (buf : Bytes) {length : Nat} (hpos : 0 < length) :
    iotxMcSendPacket buf length [0] = .ok ⟨mqttNetworkError, [⟨0, length⟩], []⟩ := by
  have hload : loadN buf ((0 : Nat) : Int) 0 = .ok [] := loadN_of_le (Nat.zero_le _)
  rw [iotxMcSendPacket, sendLoop, if_pos hpos, if_neg (Int.lt_irrefl 0)]
  rw [show Int.toNat 0 = 0 from rfl, hload, ok_bind]
  show Except.ok (SendResult.mk (if 0 = length then successReturn else mqttNetworkError) _ _) = _
  rw [if_neg (Nat.ne_of_lt hpos)]
  rfl

/-- `iotx_mc_send_packet` keeps the wire intact exactly when it attempts no write
after a partial one. -/
theorem iotxMcSendPacket_wireIntegrity_iff {buf : Bytes} {length : Nat} {writes : List Int}
    (hbuf : length ≤ buf.length) (hc : WriteContract length writes) :
    WireIntegrity buf length writes ↔ NoRetryAfterPartial length writes := by
  constructor
  · rintro ⟨res, hres, hreq, _, _⟩ idle rc later rfl hidle hpos hlt
    by_contra hlater
    obtain ⟨log, hlog, h⟩ := bind_eq_ok.mp hres
    obtain ⟨q, hq, hlong⟩ := sendLoop_retry hpos hlt hlater idle hidle hlog
    have : q ∈ res.requests := by rw [← Except.ok.inj h]; exact hq
    exact absurd (hreq q this) (by omega)
  · intro hn
    obtain ⟨log, hlog, hreq, hsent, hwire⟩ := sendLoop_once hbuf writes hc hn
    refine ⟨⟨if log.sent = length then successReturn else mqttNetworkError, log.requests, log.wire⟩,
      ?_, hreq, ⟨log.sent, hsent, hwire⟩, ?_⟩
    · rw [iotxMcSendPacket, hlog, ok_bind]
    · simp only [hwire]
      by_cases hfull : log.sent = length
      · simp [hfull]
      · have hne : buf.take log.sent ≠ buf.take length := by
          intro he
          have := congrArg List.length he
          rw [List.length_take, List.length_take] at this
          omega
        simp [hfull, hne, successReturn, mqttNetworkError]

/-- A packet sent in one piece after a write that accepted nothing. -/
theorem iotxMcSendPacket_wireIntegrity_idle :
    WireIntegrity [1, 2, 3] 3 [0, 3] ↔ NoRetryAfterPartial 3 [0, 3] :=
  iotxMcSendPacket_wireIntegrity_iff (by decide) (by unfold WriteContract; decide)

/-- Three bytes to send, one accepted, then two more asked for: the second
request runs past the packet. -/
theorem iotxMcSendPacket_not_wireIntegrity :
    ¬ WireIntegrity [1, 2, 3] 3 [1, 2] := by
  rintro ⟨res, hres, hreq, _, _⟩
  have hval : iotxMcSendPacket [1, 2, 3] 3 [1, 2]
      = .ok ⟨successReturn, [⟨0, 3⟩, ⟨1, 3⟩], [1, 2, 3]⟩ := by decide
  rw [hval] at hres
  have hbad := hreq ⟨1, 3⟩ (by rw [← Except.ok.inj hres]; simp)
  exact absurd hbad (by decide)

end IotKit.Mqtt
