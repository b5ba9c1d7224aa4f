import IotKit.Config
import IotKit.Http.Scan
import IotKit.Utils.Timer

/-!
# The response side of the HTTP client

`httpclient_common` and what it calls to receive a response, `utils_httpc.c`.  Each
place that reads from the network is a `Wait` with the locals that are live there,
so a call runs from one read to the next: `resume` is the code between them.  A
pass that ends the call, or that waits for a read, stops with a `Status`.

The scratch buffer of a call is `content`, its first `len` bytes, and `stale`, what
is left behind them.  `responseBuf` is what the call has copied for its caller,
without the terminator; it stands for a buffer of `responseBufLen` bytes.

Sending the request is not modelled, only what it returns.
-/

namespace IotKit.Http

open CMemory

/-! ## Numbers -/

/-- `ERROR_HTTP`. -/
def errorHttp : Int := -4
/-- `ERROR_HTTP_UNRESOLVED_DNS`. -/
def errorHttpUnresolvedDns : Int := -6
/-- `ERROR_HTTP_CONN`. -/
def errorHttpConn : Int := -8
/-- `ERROR_HTTP_CLOSED`. -/
def errorHttpClosed : Int := -3
/-- `HTTP_RETRIEVE_MORE_DATA`. -/
def httpRetrieveMoreData : Int := 1
/-- `HTTPCLIENT_CHUNK_SIZE`. -/
def httpclientChunkSize : Nat := 256
/-- `(uint32_t)-1`: no content length is known. -/
def unknownLength : Nat := 2 ^ 32 - 1

theorem errorHttp_neg : errorHttp < 0 := by decide
theorem errorHttpUnresolvedDns_neg : errorHttpUnresolvedDns < 0 := by decide

/-- A number as a `uint32_t`. -/
def toUInt32 (z : Int) : Nat := (z % 2 ^ 32).toNat

/-- A number as an `int`. -/
def toInt32 (z : Int) : Int := z.bmod (2 ^ 32)

/-- A number that fits is kept. -/
theorem toUInt32_natCast {n : Nat} (h : n < 2 ^ 32) : toUInt32 (n : Int) = n := by
  rw [toUInt32]
  omega

/-- So is one that fits an `int`. -/
theorem toInt32_of_lt {z : Int} (hlow : -2 ^ 31 ≤ z) (hhigh : z < 2 ^ 31) : toInt32 z = z := by
  rw [toInt32, Int.bmod]
  split
  · omega
  · omega

/-! ## Buffers -/

/-- `char buf[HTTPCLIENT_CHUNK_SIZE]` with its first `len` bytes apart. -/
structure Scratch where
  /-- The bytes that are still to be used. -/
  content : Bytes
  /-- What earlier reads left behind them. -/
  stale : Bytes
deriving DecidableEq, Repr

namespace Scratch

/-- `len`. -/
def len (s : Scratch) : Nat := s.content.length

/-- The buffer before the first read. -/
def zeros : Scratch := ⟨[], List.replicate httpclientChunkSize 0⟩

/-- The buffer after a read to `data`. -/
def refill (s : Scratch) (bs : Bytes) : Scratch := ⟨bs, (s.content ++ s.stale).drop bs.length⟩

/-- The buffer after a read to `data + len`. -/
def extend (s : Scratch) (bs : Bytes) : Scratch := ⟨s.content ++ bs, s.stale.drop bs.length⟩

/-- `data[len] = '\0'`. -/
def terminate (s : Scratch) : Scratch := ⟨s.content, s.stale.set 0 0⟩

/-- `memmove(data, &data[n], len - n)`, and `len -= n`. -/
def discard (s : Scratch) (n : Nat) : Scratch :=
  ⟨s.content.drop n, s.content.drop (s.len - n) ++ s.stale⟩

/-- The line up to `crlf_pos` is made a string, used and discarded. -/
def discardLine (s : Scratch) (crlfPos : Nat) : Scratch :=
  discard ⟨s.content.set crlfPos 0, s.stale⟩ (crlfPos + 2)

theorem len_zeros : zeros.len = 0 := rfl

theorem len_refill (s : Scratch) (bs : Bytes) : (s.refill bs).len = bs.length := rfl

theorem len_extend (s : Scratch) (bs : Bytes) : (s.extend bs).len = s.len + bs.length :=
  List.length_append

theorem len_terminate (s : Scratch) : s.terminate.len = s.len := rfl

theorem len_discard (s : Scratch) (n : Nat) : (s.discard n).len = s.len - n := List.length_drop

theorem content_discardLine (s : Scratch) (crlfPos : Nat) :
    (s.discardLine crlfPos).content = s.content.drop (crlfPos + 2) := by
  rw [discardLine, discard, List.drop_set_of_lt (Nat.lt_add_of_pos_right Nat.two_pos)]

/-- A line goes with its line end. -/
theorem len_discardLine (s : Scratch) (crlfPos : Nat) :
    (s.discardLine crlfPos).len = s.len - (crlfPos + 2) := by
  rw [len, content_discardLine, List.length_drop, len]

end Scratch

/-- `httpclient_data_t`, and `response_code` of `httpclient_t`. -/
structure HttpclientData where
  /-- `is_more`. -/
  isMore : Bool
  /-- `is_chunked`. -/
  isChunked : Bool
  /-- `retrieve_len`, an `int`. -/
  retrieveLen : Int
  /-- `response_content_len`, a `uint32_t`. -/
  responseContentLen : Nat
  /-- `response_buf_len`, a `uint32_t`. -/
  responseBufLen : Nat
  /-- What this call has copied to `response_buf`. -/
  responseBuf : Bytes
  /-- `response_code`. -/
  responseCode : Int
deriving DecidableEq, Repr

/-- The data set to zero, as `ofc_Init` does, with a response buffer. -/
def freshData (responseBufLen : Nat) : HttpclientData := ⟨false, false, 0, 0, responseBufLen, [], 0⟩

namespace HttpclientData

/-- `count`. -/
def count (d : HttpclientData) : Nat := d.responseBuf.length

/-- `response_buf_len - 1`, which is unsigned. -/
def cap (d : HttpclientData) : Nat :=
  if d.responseBufLen = 0 then 2 ^ 32 - 1 else d.responseBufLen - 1

end HttpclientData

/-! ## Where a call stands -/

/-- The read a call waits for. -/
inductive Wait where
  /-- The first read of `httpclient_recv_response`. -/
  | first
  /-- The read of the header loop. -/
  | header (s : Scratch)
  /-- The read of the loop for a body of unknown length. -/
  | noLength (s : Scratch)
  /-- The read of the chunk size loop. -/
  | chunkSize (s : Scratch)
  /-- The read of the body loop. -/
  | body (s : Scratch) (readLen : Nat)
  /-- The read for the line end after a chunk. -/
  | chunkEnd (s : Scratch)
deriving DecidableEq, Repr

/-- Why a call has no further meaning. -/
inductive Undefined where
  /-- It leaves an object. -/
  | fault (f : Fault)
  /-- A number in the response does not fit the object it is scanned to. -/
  | range
deriving DecidableEq, Repr

/-- A call between two reads, or at its end. -/
inductive Status where
  | waiting (w : Wait) (d : HttpclientData)
  | done (ret : Int) (d : HttpclientData)
  | undefined (why : Undefined)
deriving DecidableEq, Repr

/-- A part of the code that may end at a read or end the call. -/
abbrev Pass := Except Status

/-- The code runs to its next read or to its end. -/
def Pass.finish : Pass Status → Status
  | .ok status => status
  | .error status => status

/-! ## `httpclient_retrieve_content` -/

/-- Bytes are copied to `response_buf + count`, and a terminator behind them. -/
def store (d : HttpclientData) (bs : Bytes) : Pass HttpclientData :=
  if d.count + bs.length < d.responseBufLen then
    .ok { d with responseBuf := d.responseBuf ++ bs }
  else .error (.undefined (.fault .store))

/-- The loop for a body of unknown length, up to its read. -/
def noLengthPass (s : Scratch) (d : HttpclientData) : Status := Pass.finish do
  if d.count + s.len < d.cap then
    let d ← store d s.content
    .ok (.waiting (.noLength s) d)
  else
    let d ← store d (s.content.take (d.cap - d.count))
    .ok (.done httpRetrieveMoreData d)

/-- The chunk size loop and what follows it.  The line end is looked for up to the last
byte but one. -/
def chunkHeader (s : Scratch) (d : HttpclientData) : Pass (Scratch × Nat × HttpclientData) :=
  let s := s.terminate
  match strstrCrlf (s.content.take (s.len - 1)) with
  | none =>
      if s.len < httpclientChunkSize then .error (.waiting (.chunkSize s) d)
      else .error (.done errorHttp d)
  | some crlfPos =>
      match scanHex (cString (s.content.take crlfPos)) with
      | none => .error (.done errorHttpUnresolvedDns { d with retrieveLen := 0 })
      | some (size, _) =>
          if size.natAbs < 2 ^ 32 then
            let readLen := toUInt32 size
            let d := { d with
              retrieveLen := toInt32 readLen
              responseContentLen := toUInt32 (d.responseContentLen + toInt32 readLen) }
            if readLen = 0 then .error (.done successReturn { d with isMore := false })
            else .ok (s.discardLine crlfPos, readLen, d)
          else .error (.undefined .range)

/-- One turn of the body loop. -/
def bodyPass (s : Scratch) (readLen : Nat) (d : HttpclientData) :
    Pass (Scratch × HttpclientData) := do
  let templen := min s.len readLen
  if d.count + templen < d.cap then
    let d ← store d (s.content.take templen)
    let d := { d with retrieveLen := toInt32 (d.retrieveLen - templen) }
    if readLen < s.len then .ok (s.discard readLen, { d with retrieveLen := 0 })
    else if readLen = s.len then .ok (s, d)
    else .error (.waiting (.body s (readLen - s.len)) d)
  else
    let room := d.cap - d.count
    let d ← store d (s.content.take room)
    .error (.done httpRetrieveMoreData { d with retrieveLen := toInt32 (d.retrieveLen - room) })

/-- The line end after a chunk is checked and discarded. -/
def chunkCheck (s : Scratch) (d : HttpclientData) : Pass (Scratch × HttpclientData) :=
  if (s.content ++ s.stale).take 2 = crlf then
    if s.len < 2 then .error (.undefined (.fault .load)) else .ok (s.discard 2, d)
  else .error (.done errorHttpUnresolvedDns d)

/-- What follows the body loop. -/
def contentEnd (s : Scratch) (d : HttpclientData) : Pass (Scratch × HttpclientData) :=
  if d.isChunked then
    if s.len < 2 then .error (.waiting (.chunkEnd s) d) else chunkCheck s d
  else .error (.done successReturn { d with isMore := false })

/-- What the body loop is to read: a new chunk, or the rest of the chunk or body. -/
def contentStart (s : Scratch) (d : HttpclientData) : Pass (Scratch × Nat × HttpclientData) :=
  if d.isChunked ∧ d.retrieveLen ≤ 0 then chunkHeader s d
  else .ok (s, toUInt32 d.retrieveLen, d)

/-- The main loop, for at most `fuel` turns. -/
def contentLoop : Nat → Scratch → HttpclientData → Status
  | 0, _, _ => .undefined (.fault .diverge)
  | fuel + 1, s, d => Pass.finish do
      let (s, readLen, d) ← contentStart s d
      let (s, d) ← bodyPass s readLen d
      let (s, d) ← contentEnd s d
      .ok (contentLoop fuel s d)

/-- The main loop.  Each turn but the last discards a line end. -/
def content (s : Scratch) (d : HttpclientData) : Status := contentLoop (s.len + 1) s d

/-- The body loop goes on after a read. -/
def body (s : Scratch) (readLen : Nat) (d : HttpclientData) : Status := Pass.finish do
  let (s, d) ← bodyPass s readLen d
  let (s, d) ← contentEnd s d
  .ok (content s d)

/-- `httpclient_retrieve_content`. -/
def httpclientRetrieveContent (s : Scratch) (d : HttpclientData) : Status :=
  let d := { d with isMore := true, responseBuf := [] }
  if d.responseContentLen = unknownLength ∧ d.isChunked = false then noLengthPass s d
  else content s d

/-! ## `httpclient_response_parse` -/

/-- `"Content-Length"`. -/
def contentLengthKey : Bytes :=
  ascii ['C', 'o', 'n', 't', 'e', 'n', 't', '-', 'L', 'e', 'n', 'g', 't', 'h']

/-- `"Transfer-Encoding"`. -/
def transferEncodingKey : Bytes :=
  ascii ['T', 'r', 'a', 'n', 's', 'f', 'e', 'r', '-', 'E', 'n', 'c', 'o', 'd', 'i', 'n', 'g']

/-- The two spellings of the chunked encoding that are known. -/
def isChunkedValue (value : Bytes) : Bool :=
  value = ascii ['C', 'h', 'u', 'n', 'k', 'e', 'd'] ∨
    value = ascii ['c', 'h', 'u', 'n', 'k', 'e', 'd']

/-- A header is taken over. -/
def applyHeader (key value : Bytes) (d : HttpclientData) : Pass HttpclientData :=
  if key = contentLengthKey then
    match scanInt value with
    | some (length, _) =>
        if -2 ^ 31 ≤ length ∧ length < 2 ^ 31 then
          .ok { d with responseContentLen := toUInt32 length, retrieveLen := length }
        else .error (.undefined .range)
    | none => .ok { d with retrieveLen := toInt32 d.responseContentLen }
  else if key = transferEncodingKey ∧ isChunkedValue value then
    .ok { d with isChunked := true, responseContentLen := 0, retrieveLen := 0 }
  else .ok d

/-- The one error is a length that no `int` holds. -/
theorem applyHeader_error {key value : Bytes} {d : HttpclientData} {status : Status}
    (h : applyHeader key value d = .error status) : status = .undefined .range := by
  rw [applyHeader] at h
  split at h
  next =>
    split at h
    next =>
      split at h
      next => cases h
      next =>
        cases h
        rfl
    next => cases h
  next =>
    split at h
    next => cases h
    next => cases h

/-- The header loop, for at most `fuel` turns. -/
def headerLoop : Nat → Scratch → HttpclientData → Status
  | 0, _, _ => .undefined (.fault .diverge)
  | fuel + 1, s, d =>
      match strstrCrlf (cString s.content) with
      | none =>
          if s.len < httpclientChunkSize - 1 then .waiting (.header s) d else .done errorHttp d
      | some crlfPos =>
          if crlfPos = 0 then httpclientRetrieveContent (s.discard 2).terminate d
          else
            match scanHeader (s.content.take crlfPos) with
            | none => .done errorHttp d
            | some (key, value) => Pass.finish do
                let d ← applyHeader key value d
                .ok (headerLoop fuel (s.discardLine crlfPos).terminate d)

/-- The header loop.  Each turn but the last discards a line. -/
def headers (s : Scratch) (d : HttpclientData) : Status := headerLoop (s.len + 1) s d

/-- `httpclient_response_parse`. -/
def httpclientResponseParse (s : Scratch) (d : HttpclientData) : Status :=
  let d := { d with responseContentLen := unknownLength }
  match strstrCrlf (cString s.content) with
  | none => .done errorHttpUnresolvedDns d
  | some crlfPos =>
      match scanStatus (s.content.take crlfPos) with
      | none => .done errorHttpUnresolvedDns d
      | some code =>
          if -2 ^ 31 ≤ code ∧ code < 2 ^ 31 then
            headers (s.discardLine crlfPos).terminate
              { d with responseCode := code, isChunked := false }
          else .undefined .range

/-! ## Reads -/

/-- `httpclient_recv_response`, up to its first read. -/
def httpclientRecvResponse (d : HttpclientData) : Status :=
  if d.isMore then
    if d.responseBufLen = 0 then .undefined (.fault .store)
    else httpclientRetrieveContent Scratch.zeros d
  else .waiting .first { d with isMore := true }

/-- How many bytes a read asks for. -/
def Wait.maxLen (d : HttpclientData) : Wait → Nat
  | .first => httpclientChunkSize - 1
  | .header s => httpclientChunkSize - s.len - 1
  | .noLength _ => min (httpclientChunkSize - 1) (d.cap - d.count)
  | .chunkSize s => httpclientChunkSize - s.len - 1
  | .body _ readLen => min (min (httpclientChunkSize - 1) (d.cap - d.count)) readLen
  | .chunkEnd s => httpclientChunkSize - s.len - 1

/-- The code after a read that brought `bs`. -/
def resume (d : HttpclientData) (bs : Bytes) : Wait → Status
  | .first =>
      if bs = [] then .done successReturn d
      else httpclientResponseParse (Scratch.zeros.refill bs).terminate d
  | .header s => headers (s.extend bs).terminate d
  | .noLength s =>
      if bs = [] then .done successReturn { d with isMore := false }
      else noLengthPass (s.refill bs) d
  | .chunkSize s => content (s.extend bs) d
  | .body s readLen => body (s.refill bs) readLen d
  | .chunkEnd s => Pass.finish do
      let (s, d) ← chunkCheck (s.extend bs) d
      .ok (content s d)

/-- `httpclient_common`, up to its first read: `connect` and `request` are what the two
functions return, and `null` says that there is no response buffer. -/
def httpclientCommon (connected : Bool) (connect request : Int) (null : Bool)
    (d : HttpclientData) : Status :=
  if connected = false ∧ connect ≠ 0 then .done connect d
  else if request ≠ 0 then .done request d
  else if null ∧ d.responseBufLen = 0 then .done successReturn d
  else httpclientRecvResponse d

/-! ## A call and its peer -/

/-- `utils_time_is_expired`: the clock counts milliseconds in a `uint32_t`. -/
def utilsTimeIsExpired (time now : Nat) : Bool := toUInt32 ((now : Int) - time) < 2 ^ 31 - 1

/-- The timer is that of `utils_timer.c`, at a reading of its clock. -/
theorem utilsTimeIsExpired_reading (time : Nat) (c : Utils.Timer.Clock) :
    (Utils.Timer.utilsTimeIsExpired (some (UInt32.ofNat time)) c).1 =
      if utilsTimeIsExpired time (c.time 0) then 1 else 0 := by
  have hsub : (UInt32.ofNat (c.time 0) - UInt32.ofNat time).toNat =
      toUInt32 ((c.time 0 : Int) - time) := by
    rw [UInt32.toNat_sub, UInt32.toNat_ofNat', UInt32.toNat_ofNat', toUInt32]
    omega
  have hlt : UInt32.ofNat (c.time 0) - UInt32.ofNat time < 4294967295 / 2 ↔
      toUInt32 ((c.time 0 : Int) - time) < 2 ^ 31 - 1 := by
    rw [UInt32.lt_iff_toNat_lt, hsub]
    rfl
  simp only [Utils.Timer.utilsTimeIsExpired, Utils.Timer.halUptimeMs, utilsTimeIsExpired, hlt,
    decide_eq_true_iff]

/-- `iotx_time_left`. -/
def iotxTimeLeft (time now : Nat) : Nat :=
  if utilsTimeIsExpired time now then 0 else toUInt32 ((time : Int) - now)

/-- What a read finds before its time is over: so many bytes of the stream, or an error of
the connection. -/
inductive Arrival where
  | bytes (n : Nat)
  | error
deriving DecidableEq, Repr

/-- One read: the time it is given, and what it finds. -/
structure Turn where
  /-- `iotx_time_left(&timer)`. -/
  left : Nat
  /-- What is found if there is time. -/
  arrival : Arrival
deriving DecidableEq, Repr

/-- `net.read`: the bytes it delivers and those that stay in the stream.  Without time it
delivers and consumes nothing. -/
def netRead (maxLen : Nat) (t : Turn) (stream : Bytes) : Option (Bytes × Bytes) :=
  if t.left = 0 then some ([], stream)
  else
    match t.arrival with
    | .error => none
    | .bytes n => some (stream.take (min n maxLen), stream.drop (min n maxLen))

/-- A call and the bytes of the server it has not read. -/
structure Call where
  /-- Where the call stands. -/
  status : Status
  /-- The bytes to come. -/
  stream : Bytes
deriving DecidableEq, Repr

/-- The read a call waits for takes place. -/
def Call.step (c : Call) (t : Turn) : Call :=
  match c.status with
  | .waiting w d =>
      match netRead (w.maxLen d) t c.stream with
      | none => ⟨.done errorHttpConn d, c.stream⟩
      | some (bs, rest) => ⟨resume d bs w, rest⟩
  | _ => c

end IotKit.Http
