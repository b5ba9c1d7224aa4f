import IotKit.Config
import IotKit.Lib.Memory

/-!
# Topics

`iotx_mc_check_topic` validates a topic name or filter, and
`iotx_mc_is_topic_matched` matches a name against a filter.  A C string is the
list of its characters before the terminator.
-/

namespace IotKit.Mqtt

open CMemory

def slash : UInt8 := 47
def plus : UInt8 := 43
def hash : UInt8 := 35

/-- `iotx_mc_topic_type_t`. -/
inductive TopicType where
  | name
  | filter
deriving DecidableEq, Repr

/-! ## Validation -/

/-- One character of `iotx_mc_check_rule`. -/
def ruleChar (type : TopicType) (len : Nat) (c : UInt8) : Bool :=
  (if c = plus ∨ c = hash then type = .filter ∧ len = 1 else True) ∧ 32 ≤ c ∧ c < 127

/-- `iotx_mc_check_rule`. -/
def iotxMcCheckRule (item : Bytes) (type : TopicType) : Int :=
  if item.all (ruleChar type item.length) then successReturn else failReturn

/-- The items that `strtok` finds between slashes. -/
def strtok (s : Bytes) : List Bytes := (s.splitOnP (· == slash)).filter (· ≠ [])

/-- The loop of `iotx_mc_check_topic` over the items after the first. -/
def checkItems (type : TopicType) : Bool → List Bytes → Int
  | _, [] => successReturn
  | mask, item :: items =>
      if mask then failReturn
      else if iotxMcCheckRule item type ≠ successReturn then failReturn
      else checkItems type (item.head? = some hash) items

/-- `iotx_mc_check_topic`.  The copy that is checked has at most 127 characters. -/
def iotxMcCheckTopic (topicName : Bytes) (type : TopicType) : Int :=
  if iotxMcTopicNameMaxLen < topicName.length then failReturn
  else
    match strtok (topicName.take (iotxMcTopicNameMaxLen - 1)) with
    | [] => failReturn
    | item :: items =>
        if iotxMcCheckRule item type ≠ successReturn then failReturn
        else checkItems type false items

theorem iotxMcCheckTopic_length {topicName : Bytes} {type : TopicType}
    (h : iotxMcCheckTopic topicName type = successReturn) :
    topicName.length ≤ iotxMcTopicNameMaxLen := by
  rw [iotxMcCheckTopic] at h
  split at h
  next => exact absurd h failReturn_ne_success
  next hlen => exact Nat.le_of_not_lt hlen

/-! ## Matching -/

/-- A topic name in a packet: its length, and how its characters are read. -/
structure TopicName where
  len : Nat
  char : Nat → Checked UInt8

/-- The loop of `strncmp` against a filter of the same length, from character `i`
on. -/
def strncmpLoop (name : TopicName) : Bytes → Nat → Checked Bool
  | [], _ => .ok true
  | f :: filter, i => do
      let c ← name.char i
      if c = f then strncmpLoop name filter (i + 1) else .ok false

/-- `MQTTPacket_equals` with a topic name that is not a C string. -/
def mqttPacketEquals (name : TopicName) (filter : Bytes) : Checked Bool :=
  if name.len = filter.length then strncmpLoop name filter 0 else .ok false

/-- The inner loop for `+`: `curn` on the last character before the next slash. -/
def skipLevel (name : TopicName) (curn : Nat) : Checked Nat :=
  if curn + 1 < name.len then do
    let c ← name.char (curn + 1)
    if c = slash then .ok curn else skipLevel name (curn + 1)
  else .ok curn
termination_by name.len - curn

/-- The loop of `iotx_mc_is_topic_matched`, over the filter.  Where the loop breaks
the filter is not at its end, so the result is 0. -/
def matchLoop (name : TopicName) : Bytes → Nat → Checked Bool
  | [], curn => .ok (curn = name.len)
  | f :: curf, curn =>
      if curn < name.len then do
        let c ← name.char curn
        if c = slash ∧ f ≠ slash then .ok false
        else if f ≠ plus ∧ f ≠ hash ∧ f ≠ c then .ok false
        else if f = plus then do
          let curn ← skipLevel name curn
          matchLoop name curf (curn + 1)
        else if f = hash then matchLoop name curf name.len
        else matchLoop name curf (curn + 1)
      else .ok false

/-- `iotx_mc_is_topic_matched`. -/
def iotxMcIsTopicMatched (filter : Bytes) (name : TopicName) : Checked Bool :=
  matchLoop name filter 0

end IotKit.Mqtt
