import IotKit.Mqtt.Publish
import IotKit.Mqtt.Receive
import IotKit.Security.Crypto

/-!
# The payload hooks

`iotx_mqtt_up_process` and `iotx_mqtt_down_process` protect and open a payload in
place, through a buffer they allocate.  The length that the crypto function
returns is narrowed to 16 bits before it is tested, so a negative result passes
the test.
-/

namespace IotKit.CommIf

open CMemory Mqtt Security

/-- `topic_msg->payload` after the copy of the `n` bytes of `out` over the `len`
bytes at offset `off`. -/
def replacePayload (mem : Bytes) (off len : Nat) (out : Bytes) (n : Nat) : Checked Bytes := do
  let mem ← storeN mem off (List.replicate len 0)
  let text ← loadN out 0 n
  storeN mem off text

/-- `iotx_mqtt_up_process` on the payload of length `len` at offset `off`: its
result, the session, the object and the payload length. -/
def iotxMqttUpProcess (C : Cipher) (mode : SecureMode) (deviceId : Bytes) (malloc : Malloc)
    (conn : ConnInfo) (mem : Bytes) (off len : Nat) : Checked (Int × ConnInfo × Bytes × Nat) :=
  let outBufLen := (len + 6) % 65536
  match malloc outBufLen with
  | none => .ok (-1, conn, mem, len)
  | some outBuf => do
      let (n, conn, out) ←
        iotxCommPayloadEncrypt C mode deviceId conn outBuf outBufLen (mem.drop off) len
      let outBufLen := (n % 65536).toNat
      if outBufLen ≤ 0 then .ok (-1, conn, mem, len)
      else do
        let mem ← replacePayload mem off len out outBufLen
        .ok (0, conn, mem, outBufLen)

/-- `iotx_mqtt_down_process`. -/
def iotxMqttDownProcess (C : Cipher) (mode : SecureMode) (deviceId : Bytes) (malloc : Malloc) :
    DownProcess ConnInfo := fun conn mem off len =>
  match malloc len with
  | none => .ok (-1, conn, mem, len)
  | some outBuf => do
      let (n, conn, out) ← iotxCommPayloadDecrypt C mode deviceId conn outBuf len mem off len
      let outBufLen := (n % 65536).toNat
      if outBufLen ≤ 0 then .ok (-1, conn, mem, len)
      else do
        let mem ← replacePayload mem off len out outBufLen
        .ok (0, conn, mem, outBufLen)

/-- The copy puts the text at the payload pointer and leaves what is before it. -/
theorem replacePayload_ok {mem mem' out : Bytes} {off len n : Nat}
    (h : replacePayload mem off len out n = .ok mem') :
    ∃ text, loadN out 0 n = .ok text ∧ (mem'.drop off).take n = text ∧
      mem'.take off = mem.take off := by
  obtain ⟨mem₁, hzero, h⟩ := bind_eq_ok.mp h
  obtain ⟨text, hload, hstore⟩ := bind_eq_ok.mp h
  have hlen := loadN_length hload
  refine ⟨text, hload, ?_, ?_⟩
  · have hback := loadN_storeN hstore
    rw [hlen] at hback
    exact (loadN_eq_ok.mp hback).2.2.symm
  · obtain ⟨_, h₁, rfl⟩ := storeN_eq_ok.mp hzero
    obtain ⟨_, h₂, rfl⟩ := storeN_eq_ok.mp hstore
    rw [Int.toNat_natCast] at h₁ h₂ ⊢
    have htake : (mem.take off).length = off := by
      rw [List.length_take]
      omega
    rw [List.take_left' (by rw [List.length_take]; omega), List.take_left' htake]

end IotKit.CommIf
