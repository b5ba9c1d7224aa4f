import IotKit.Lib.Memory
import IotKit.Lib.CounterMode
import IotKit.Lib.Run
import IotKit.Lib.Heap
import IotKit.Lib.LinkedList
import IotKit.Lib.KeyTable
import IotKit.Lib.Reader
import IotKit.Lib.Writer
import IotKit.Lib.SlotTable
import IotKit.Lib.MutexTrace
import IotKit.Lib.Backoff
import IotKit.Lib.Schedule
import IotKit.Lib.BinaryHeap
import IotKit.Config
import IotKit.Utils.List
import IotKit.Utils.Timer
import IotKit.Utils.Base64
import IotKit.Security.Crypto
import IotKit.Security.Keystream
import IotKit.Security.Session
import IotKit.Security.Credentials
import IotKit.Security.HexString
import IotKit.Mqtt.Send
import IotKit.Mqtt.Packet
import IotKit.Mqtt.Client
import IotKit.Mqtt.Read
import IotKit.Mqtt.Framing
import IotKit.Mqtt.Topic
import IotKit.Mqtt.Publish
import IotKit.Mqtt.Receive
import IotKit.Mqtt.Subscribe
import IotKit.Mqtt.Ack
import IotKit.Mqtt.Operation
import IotKit.Mqtt.Subscription
import IotKit.Mqtt.Deliver
import IotKit.Mqtt.Acknowledged
import IotKit.Mqtt.PacketId
import IotKit.Mqtt.Lock
import IotKit.Mqtt.LockDiscipline
import IotKit.Mqtt.LockReturns
import IotKit.Mqtt.TopicMatch
import IotKit.Mqtt.TopicValid
import IotKit.Mqtt.Published
import IotKit.Mqtt.Confidentiality
import IotKit.Mqtt.PacketBounds
import IotKit.Mqtt.Pending
import IotKit.Mqtt.PendingLists
import IotKit.Mqtt.SweepLists
import IotKit.Mqtt.Sweep
import IotKit.Mqtt.PendingRun
import IotKit.Mqtt.Redelivery
import IotKit.Mqtt.Connect
import IotKit.Mqtt.Yield
import IotKit.Mqtt.KeepAlive
import IotKit.CommIf.Process
import IotKit.CommIf.Downlink
import IotKit.CommIf.ShortFrame
import IotKit.CommIf.Connection
import IotKit.CommIf.Ownership
import IotKit.CommIf.Reentry
import IotKit.CommIf.Careful
import IotKit.CommIf.Status
import IotKit.CommIf.Mirror
import IotKit.CommIf.Final
import IotKit.CommIf.Simulation
import IotKit.CommIf.Loop
import IotKit.CommIf.LoopSimulation
import IotKit.CommIf.Nesting
import IotKit.CommIf.Reconnect
import IotKit.CommIf.Channel
import IotKit.CommIf.Sizing
import IotKit.CommIf.Refusal
import IotKit.CommIf.Sending
import IotKit.Datapoint.Store
import IotKit.Datapoint.Codec
import IotKit.Datapoint.Parse
import IotKit.Datapoint.Records
import IotKit.Datapoint.Frame
import IotKit.Datapoint.RoundTrip
import IotKit.Datapoint.Transmit
import IotKit.Datapoint.Delivery
import IotKit.Datapoint.Uplink
import IotKit.Datapoint.Unknown
import IotKit.Datapoint.Protection
import IotKit.Datapoint.Define
import IotKit.Datapoint.Buffer
import IotKit.Datapoint.Overrun
import IotKit.Datapoint.Effect
import IotKit.Datapoint.Range
import IotKit.Datapoint.Quiet
import IotKit.Datapoint.ReadFlag
import IotKit.Datapoint.Table
import IotKit.Datapoint.Period
import IotKit.Datapoint.BinaryCopy
import IotKit.Coap.Message
import IotKit.Coap.Serialize
import IotKit.Coap.Deserialize
import IotKit.Coap.Context
import IotKit.Coap.Client
import IotKit.Coap.Exchange
import IotKit.Coap.Response
import IotKit.Coap.Capacity
import IotKit.Coap.MessageId
import IotKit.Coap.Datagram
import IotKit.Coap.Retransmission
import IotKit.Coap.Discard
import IotKit.Coap.Uri
import IotKit.Coap.RoundTrip
import IotKit.Log.Level
import IotKit.Log.Coherence
import IotKit.Log.Eviction
import IotKit.Http.Scan
import IotKit.Http.Client
import IotKit.Http.Silence
import IotKit.Http.Headers
import IotKit.Http.Body
import IotKit.Http.Fetch
import IotKit.Http.Phase
import IotKit.Http.Reassembly
import IotKit.Http.Chunked
import IotKit.Http.Dechunk
import IotKit.Http.Decoded
import IotKit.Http.Pairing
import IotKit.Http.Url
import IotKit.Http.Request
import IotKit.Ota.Update
import IotKit.Key.Loop
import IotKit.Key.Gesture
import IotKit.Key.Attribution
import IotKit.Timer.Loop
import IotKit.Timer.OneShot
