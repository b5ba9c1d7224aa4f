import Mathlib.Algebra.Order.Ring.Int
import Mathlib.Tactic.Common

/-!
# Return codes, limits and build options

The numbers of `iot_import_errno.h`, the limits of `iotx_mqtt_client.h` and
`sdk_config.h`, and the security mode that `CONFIG_CLOUD_SECURE_MODE` selects at
build time.  A model that depends on the mode takes it as an argument.
-/

namespace IotKit

/-! ## Return codes -/

def successReturn : Int := 0
def failReturn : Int := -1
def nullValueError : Int := -2
def mqttPublishAckTypeError : Int := -13
def mqttNetworkError : Int := -14
def mqttUnsubscribeAckPacketError : Int := -15
def mqttPublishAckPacketError : Int := -19
def mqttPublishQosError : Int := -20
def mqttPublishPacketError : Int := -21
def mqttUnsubscribePacketError : Int := -22
def mqttSubscribeAckFailure : Int := -24
def mqttSubscribeAckPacketError : Int := -25
def mqttSubscribePacketError : Int := -26
def mqttStateError : Int := -27
def mqttNetworkConnectError : Int := -28
def mqttConnectAckPacketError : Int := -29
def mqttConnectPacketError : Int := -30
def mqttPingPacketError : Int := -31
def mqttConnectError : Int := -33
def mqttConnackNotAuthorizedError : Int := -34
def mqttConnackBadUserdataError : Int := -35
def mqttConnackServerUnavailableError : Int := -36
def mqttConnackIdentifierRejectedError : Int := -37
def mqttConanckUnacceptableProtocolVersionError : Int := -38
def mqttConnackUnknownError : Int := -39
def mqttTopicFormatError : Int := -41
def mqttPushToListError : Int := -42
def mqttSubInfoNotFoundError : Int := -43
def errorCertVerifyFail : Int := -309
def errorCertificateExpired : Int := -1015
/-- `MQTTPACKET_READ_ERROR`. -/
def mqttPacketReadError : Int := -1
/-- `MQTTPACKET_BUFFER_TOO_SHORT`. -/
def mqttPacketBufferTooShort : Int := -2

theorem failReturn_ne_success : failReturn ≠ successReturn := by decide
theorem mqttTopicFormatError_neg : mqttTopicFormatError < 0 := by decide
theorem mqttStateError_neg : mqttStateError < 0 := by decide
theorem mqttPublishQosError_neg : mqttPublishQosError < 0 := by decide
theorem mqttPublishPacketError_neg : mqttPublishPacketError < 0 := by decide
theorem mqttPushToListError_neg : mqttPushToListError < 0 := by decide
theorem mqttConnectError_ne_success : mqttConnectError ≠ successReturn := by decide
theorem mqttNetworkError_ne_success : mqttNetworkError ≠ successReturn := by decide

/-! ## Limits -/

/-- `IOTX_MC_SUB_NUM_MAX`: entries of the subscription table. -/
def iotxMcSubNumMax : Nat := 30
/-- `IOTX_MC_REPUB_NUM_MAX`: publishes that wait for their acknowledgement. -/
def iotxMcRepubNumMax : Nat := 20
/-- `IOTX_MC_SUB_REQUEST_NUM_MAX`: requests that wait for a SUBACK or UNSUBACK. -/
def iotxMcSubRequestNumMax : Nat := 30
/-- `IOTX_MC_TOPIC_NAME_MAX_LEN`. -/
def iotxMcTopicNameMaxLen : Nat := 128
/-- `IOTX_MC_PACKET_ID_MAX`. -/
def iotxMcPacketIdMax : Nat := 65535
/-- `IOTX_MC_KEEPALIVE_PROBE_MAX`. -/
def iotxMcKeepaliveProbeMax : Nat := 3
/-- `WAIT_CONNACK_MAX`: packets read while waiting for a CONNACK. -/
def waitConnackMax : Nat := 10
/-- `CONFIG_PROPERTIES_MAX`: entries of the `properties` array. -/
def configPropertiesMax : Nat := 50
/-- `CONFIG_AUTOMATIC_INTERVAL`: the least automatic upload period, in seconds. -/
def configAutomaticInterval : Nat := 600

/-! ## Security mode -/

/-- `SECURE_MODE`: how the payload is protected on the way to the cloud. -/
inductive SecureMode where
  /-- Mode 1, `MODE_TCP_GUIDER_FORMENCRYPT`: encrypted and authenticated. -/
  | tcpGuiderFormencrypt
  /-- Mode 2, `MODE_TCP_GUIDER_FORMPLAIN`: authenticated only. -/
  | tcpGuiderFormplain
  /-- Mode 3, `MODE_TLS_GUIDER_PLAIN`: the payload as it is, under TLS. -/
  | tlsGuiderPlain
deriving DecidableEq, Repr

end IotKit
