import IotKit.Mqtt.Packet

/-!
# The MQTT client

The state of `iotx_mc_client_t`.  Function pointers and contexts are numbers, and
a NULL pointer is `none`.  Locks and clock readings are left out: a call is
atomic, and where the source asks whether a timer has expired the environment of
the call answers.

`World` is the environment of the reading side: the bytes the broker sends, and
the outcomes of `ipstack->read` and of `HAL_Malloc` in order.
-/

namespace IotKit.Mqtt

open CMemory

/-- `iotx_mc_state_t`. -/
inductive McState where
  | invalid
  | initialized
  | connected
  | disconnected
  | disconnectedReconnecting
deriving DecidableEq, Repr

/-- `iotx_mc_node_t`. -/
inductive NodeState where
  | normal
  | invalid
deriving DecidableEq, Repr

/-- `iotx_mqtt_event_handle_t`. -/
structure EventHandle where
  hFp : Option Nat
  pcontext : Nat
deriving DecidableEq, Repr

/-- `iotx_mc_topic_handle_t`. -/
structure TopicHandle where
  topicFilter : Option Bytes
  handle : EventHandle
deriving DecidableEq, Repr

/-- `iotx_mc_pub_info_t`. -/
structure PubInfo where
  nodeState : NodeState
  msgId : Nat
  buf : Bytes
deriving DecidableEq, Repr

/-- `iotx_mc_client_t`.  The sizes of the two buffers are the lengths of the lists. -/
structure McClient where
  packetId : Nat
  keepaliveProbes : Nat
  bufSend : Bytes
  bufRead : Bytes
  subHandle : Vector TopicHandle iotxMcSubNumMax
  pingMark : Nat
  clientState : McState
  listPubWaitAck : List PubInfo
  handleEvent : EventHandle

/-- `iotx_mc_set_client_state`. -/
def iotxMcSetClientState (c : McClient) (newState : McState) : McClient :=
  { c with clientState := newState }

/-- The result of one `ipstack->read`: at most `n` bytes, or the negative code
`-1 - code` after `lost` bytes went by. -/
inductive ReadOutcome where
  | upTo (n : Nat)
  | fail (code lost : Nat)

/-- Where a list of outcomes ends, every later read gets all it asks for, as far
as the broker has sent it, and every later allocation succeeds. -/
structure World where
  stream : Bytes
  reads : List ReadOutcome
  mallocs : List Bool

/-- `ipstack->read`: the result, the bytes stored and the world after it. -/
def World.read (w : World) (len : Nat) : Int × Bytes × World :=
  match w.reads with
  | [] =>
      let data := w.stream.take len
      (data.length, data, { w with stream := w.stream.drop len })
  | .upTo n :: reads =>
      let data := w.stream.take (min n len)
      (data.length, data, { w with stream := w.stream.drop (min n len), reads })
  | .fail code lost :: reads =>
      (-1 - code, [], { w with stream := w.stream.drop lost, reads })

/-- Whether `HAL_Malloc` succeeds. -/
def World.malloc (w : World) : Bool × World :=
  match w.mallocs with
  | [] => (true, w)
  | b :: mallocs => (b, { w with mallocs })

/-- A read takes bytes off the front of the stream, or fails. -/
theorem World.read_cases (w : World) (len : Nat) {rc : Int} {data : Bytes} {w' : World}
    (h : w.read len = (rc, data, w')) :
    (rc = data.length ∧ data.length ≤ len ∧ w.stream = data ++ w'.stream) ∨
      (rc < 0 ∧ data = []) := by
  have htake : ∀ n ≤ len, ((w.stream.take n).length : Int) = (w.stream.take n).length ∧
      (w.stream.take n).length ≤ len ∧ w.stream = w.stream.take n ++ w.stream.drop n :=
    fun n hn => ⟨rfl, Nat.le_trans (List.length_take_le n _) hn, (List.take_append_drop n _).symm⟩
  rw [World.read] at h
  split at h
  · cases h
    exact Or.inl (htake len (Nat.le_refl _))
  · cases h
    exact Or.inl (htake _ (Nat.min_le_right _ _))
  · cases h
    exact Or.inr ⟨by omega, rfl⟩

theorem World.read_le {w w' : World} {len : Nat} {rc : Int} {data : Bytes}
    (h : w.read len = (rc, data, w')) : data.length ≤ len := by
  rcases w.read_cases len h with ⟨_, hle, _⟩ | ⟨_, rfl⟩
  · exact hle
  · exact Nat.zero_le _

/-- A read that is not disturbed gets all it asks for. -/
theorem World.read_all {w : World} (data : Bytes) {rest : Bytes} (hreads : w.reads = [])
    (hstream : w.stream = data ++ rest) :
    w.read data.length = ((data.length : Int), data, { w with stream := rest }) := by
  have htake : w.stream.take data.length = data := by rw [hstream, List.take_left]
  have hdrop : w.stream.drop data.length = rest := by rw [hstream, List.drop_left]
  rw [World.read, hreads]
  simp only [htake, hdrop]

end IotKit.Mqtt
