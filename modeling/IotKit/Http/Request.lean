import IotKit.Config
import IotKit.Http.Client
import IotKit.Http.Url
import Mathlib.Data.List.Forall2

/-!
# Putting a request together

`httpclient_get_info` collects the header in a buffer and writes the buffer when it is full,
`httpclient_send_header` passes it the parts of the header and writes what is left.  What the
writes return is a sequence of numbers, and a number over 0 is so many bytes that the network
has taken.

The loop never goes on after a write that has taken bytes: it returns their number, its caller
takes it for an error or not at all, and the buffer is still counted as it was before the call.
So nothing is lost or sent twice as long as every write until the last one fails, or times out
with nothing left to copy.
-/

namespace IotKit.Http.Request

open CMemory

/-! ## `httpclient_get_info` -/

/-- `HTTPCLIENT_SEND_BUF_SIZE`. -/
def sendBufSize : Nat := 1024

/-- `send_buf` and `send_idx`, with what the network has taken in how many writes. -/
structure Sender where
  sendBuf : Bytes
  sendIdx : Nat
  written : Bytes
  writes : Nat
deriving DecidableEq, Repr

/-- The bytes that are still to be written. -/
def Sender.left (s : Sender) : Bytes := s.sendBuf.take s.sendIdx

/-- The buffer that was set to 0, before the first write. -/
def Sender.start : Sender := ⟨List.replicate sendBufSize 0, 0, [], 0⟩

/-- `net.write` of the first `len` bytes of the buffer. -/
def Sender.write (net : Nat → Int) (s : Sender) (len : Nat) : Sender :=
  { s with
    written := s.written ++ (s.sendBuf.take len).take (net s.writes).toNat
    writes := s.writes + 1 }

/-- `cp_len`. -/
def cpLength (idx len : Nat) : Nat := if len ≤ sendBufSize - idx then len else sendBufSize - idx

/-- The loop of `httpclient_get_info`, so many times. -/
def getInfoLoop (net : Nat → Int) (buf : Bytes) :
    Nat → Sender → Nat → Nat → Checked (Int × Sender)
  | 0, _, _, _ => .error .diverge
  | fuel + 1, s, idx, len => do
      let cpLen := cpLength idx len
      -- `buf` stays where it is
      let bs ← loadN (buf ++ [0]) 0 cpLen
      let sendBuf ← storeN s.sendBuf idx bs
      let s := { s with sendBuf }
      let idx := idx + cpLen
      let len := len - cpLen
      if idx = sendBufSize then
        let ret := net s.writes
        let s := s.write net sendBufSize
        if ret ≠ 0 then .ok (ret, s)
        else if len ≠ 0 then getInfoLoop net buf fuel s idx len
        else .ok (successReturn, { s with sendIdx := idx })
      else if len ≠ 0 then getInfoLoop net buf fuel s idx len
      else .ok (successReturn, { s with sendIdx := idx })

/-- `strlen`, as the `uint32_t` that it is passed as. -/
def strlen (buf : Bytes) : UInt32 := UInt32.ofNat buf.length

/-- `httpclient_get_info`. -/
def httpclientGetInfo (net : Nat → Int) (fuel : Nat) (buf : Bytes) (len : UInt32) (s : Sender) :
    Checked (Int × Sender) :=
  getInfoLoop net buf fuel s s.sendIdx (if len = 0 then strlen buf else len).toNat

/-! ## `httpclient_send_header` -/

/-- A string with the length that it is passed with. -/
structure Fragment where
  buf : Bytes
  len : UInt32
  whole : len = 0 ∨ len = strlen buf
deriving DecidableEq, Repr

/-- A string of which the length is left to `httpclient_get_info`. -/
def Fragment.string (buf : Bytes) : Fragment := ⟨buf, 0, .inl rfl⟩

/-- A string with its length. -/
def Fragment.counted (buf : Bytes) : Fragment := ⟨buf, strlen buf, .inr rfl⟩

/-- The text of a number. -/
def decimal (z : Int) : Bytes := ascii (toString z).toList

/-- What `snprintf` leaves in `buf`. -/
def snprintf (text : Bytes) : Bytes := text.take (sendBufSize - 1)

/-- `meth`. -/
def meth : Int → Bytes
  | 0 => ascii ['G', 'E', 'T']
  | 1 => ascii ['P', 'O', 'S', 'T']
  | 2 => ascii ['P', 'U', 'T']
  | 3 => ascii ['D', 'E', 'L', 'E', 'T', 'E']
  | 4 => ascii ['H', 'E', 'A', 'D']
  | _ => []

/-- `"%s %s HTTP/1.1\r\nHost: %s\r\n"`. -/
def requestLine (method : Int) (path host : Bytes) : Bytes :=
  meth method ++ ascii [' '] ++ path ++
    ascii [' ', 'H', 'T', 'T', 'P', '/', '1', '.', '1', '\r', '\n', 'H', 'o', 's', 't', ':', ' '] ++
    host ++ crlf

/-- `"Authorization: Basic "`. -/
def authorization : Bytes :=
  ascii ['A', 'u', 't', 'h', 'o', 'r', 'i', 'z', 'a', 't', 'i', 'o', 'n', ':', ' ', 'B', 'a', 's',
    'i', 'c', ' ']

/-- `"Content-Length: %d\r\n"`. -/
def contentLength (postBufLen : UInt32) : Bytes :=
  ascii ['C', 'o', 'n', 't', 'e', 'n', 't', '-', 'L', 'e', 'n', 'g', 't', 'h', ':', ' '] ++
    decimal (toInt32 postBufLen.toNat) ++ crlf

/-- `"Content-Type: %s\r\n"`. -/
def contentType (postContentType : Bytes) : Bytes :=
  ascii ['C', 'o', 'n', 't', 'e', 'n', 't', '-', 'T', 'y', 'p', 'e', ':', ' '] ++
    postContentType ++ crlf

/-- What is read of `httpclient_t` and `httpclient_data_t`. -/
structure Headers where
  /-- `b_auth`, if there is an `auth_user`. -/
  bAuth : Option Bytes
  header : Option Bytes
  /-- `post_buf` is set. -/
  postBuf : Bool
  postBufLen : UInt32
  postContentType : Option Bytes
deriving DecidableEq, Repr

/-- What is passed to `httpclient_get_info` after the request line. -/
def Headers.fragments (h : Headers) : List Fragment :=
  (match h.bAuth with
    | some bAuth => [.string authorization, .string bAuth]
    | none => []) ++
  ((match h.header with
    | some header => [.counted header]
    | none => []) ++
  ((if h.postBuf then
      .counted (snprintf (contentLength h.postBufLen)) ::
        (match h.postContentType with
          | some postContentType => [.counted (snprintf (contentType postContentType))]
          | none => [])
    else []) ++ [.string crlf]))

/-- The calls of `httpclient_get_info` after the request line, with no look at what they
return. -/
def getInfos (net : Nat → Int) (fuel : Nat) : List Fragment → Sender → Checked Sender
  | [], s => .ok s
  | f :: rest, s =>
      match httpclientGetInfo net fuel f.buf f.len s with
      | .ok (_, s) => getInfos net fuel rest s
      | .error e => .error e

/-- A string that was copied to a buffer. -/
def text : Option Url.Part → Bytes
  | some p => p.bytes
  | none => []

/-- What is made of the result of the last write. -/
def lastCode (ret : Int) : Int :=
  if 0 < ret then successReturn else if ret = 0 then errorHttpClosed else errorHttpConn

/-- `httpclient_send_header`, where `allocated` says whether there is memory for the four
buffers. -/
def httpclientSendHeader (net : Nat → Int) (fuel : Nat) (allocated : Bool) (h : Headers)
    (url : Bytes) (method : Int) : Except Url.Undefined (Int × Sender) :=
  if allocated = false then .ok (failReturn, .start)
  else
    match Url.httpclientParseUrl url 8 64 64 with
    | .error e => .error e
    | .ok p =>
        if p.ret ≠ successReturn then .ok (p.ret, .start)
        else
          let buf := snprintf (requestLine method (text p.path) (text p.host))
          match httpclientGetInfo net fuel buf (strlen buf) .start with
          | .error e => .error (.fault e)
          | .ok (ret, s) =>
              if ret ≠ 0 then .ok (errorHttpConn, s)
              else
                match getInfos net fuel h.fragments s with
                | .error e => .error (.fault e)
                | .ok s =>
                    .ok (lastCode (net s.writes), s.write net s.sendIdx)

/-! ## One call -/

/-- The buffer has its size, and what it holds fits. -/
structure Sender.Formed (s : Sender) : Prop where
  size : s.sendBuf.length = sendBufSize
  idx : s.sendIdx ≤ sendBufSize

/-- So many bytes of a string are passed on. -/
def passed (buf : Bytes) : Nat := buf.length % 2 ^ 32

/-- The string fits: it is copied. -/
def Sender.put (s : Sender) (buf : Bytes) : Sender :=
  { s with
    sendBuf := s.sendBuf.take s.sendIdx ++ (buf ++ s.sendBuf.drop (s.sendIdx + buf.length))
    sendIdx := s.sendIdx + buf.length }

/-- The string fills the buffer, and so many writes were made since. -/
def Sender.filled (s : Sender) (buf : Bytes) (writes : Nat) : Sender :=
  { s with
    sendBuf := s.sendBuf.take s.sendIdx ++ buf.take (sendBufSize - s.sendIdx)
    writes := s.writes + writes }

/-- The string fills the buffer to the last byte, and the write times out. -/
def Sender.full (s : Sender) (buf : Bytes) : Sender :=
  { s.filled buf 1 with sendIdx := sendBufSize }

/-- A call with a full buffer has ended with the write after so many others. -/
def Sender.waited (s : Sender) (ret : Int) (others : Nat) : Sender :=
  { s with
    sendIdx := if ret = 0 then sendBufSize else s.sendIdx
    writes := s.writes + others + 1 }

section Call

variable {net : Nat → Int} {buf : Bytes} {s s' : Sender} {fuel len z : Nat} {ret : Int}

theorem passed_le : passed buf ≤ buf.length := Nat.mod_le _ _

theorem passed_eq (h : buf.length < 2 ^ 32) : passed buf = buf.length := Nat.mod_eq_of_lt h

theorem getInfo_eq (f : Fragment) :
    httpclientGetInfo net fuel f.buf f.len s =
      getInfoLoop net f.buf fuel s s.sendIdx (passed f.buf) := by
  have hlen : (strlen f.buf).toNat = passed f.buf := UInt32.toNat_ofNat'
  rw [httpclientGetInfo]
  rcases f.whole with hzero | hcounted
  · rw [if_pos hzero, hlen]
  · split
    · rw [hlen]
    · rw [hcounted, hlen]

/-- What is passed on fits: it is copied, and nothing is written. -/
theorem loop_fits (hs : s.Formed) (hfits : s.sendIdx + len < sendBufSize)
    (hlen : len ≤ buf.length) :
    getInfoLoop net buf (fuel + 1) s s.sendIdx len =
      .ok (successReturn, s.put (buf.take len)) := by
  have hcp : cpLength s.sendIdx len = len := if_pos (by omega)
  have htake : (buf.take len).length = len := List.length_take_of_le hlen
  have hload : loadN (buf ++ [0]) 0 len = .ok (buf.take len) := by
    rw [loadN_front (by rw [List.length_append]; omega), List.take_append_of_le_length hlen]
  have hroom : s.sendIdx + (buf.take len).length ≤ s.sendBuf.length := by
    rw [hs.size, htake]
    omega
  have hstore := storeN_of_le hroom
  rw [getInfoLoop]
  simp only [hcp, hload, hstore, ok_bind, if_neg (Nat.ne_of_lt hfits), Nat.sub_self, ne_eq,
    not_true_eq_false, if_false]
  rw [Sender.put, htake]

/-- One turn of the loop with a full buffer. -/
theorem loop_full (hs : s.sendBuf.length = sendBufSize) :
    getInfoLoop net buf (fuel + 1) s sendBufSize len =
      if net s.writes ≠ 0 then .ok (net s.writes, s.write net sendBufSize)
      else if len ≠ 0 then getInfoLoop net buf fuel (s.write net sendBufSize) sendBufSize len
      else .ok (successReturn, { s.write net sendBufSize with sendIdx := sendBufSize }) := by
  have hnone : cpLength sendBufSize len = 0 := by
    rw [cpLength, Nat.sub_self]
    split
    · omega
    · rfl
  have hload : loadN (buf ++ [0]) 0 0 = .ok [] := loadN_front (Nat.zero_le _)
  have hstore : storeN s.sendBuf (sendBufSize : Nat) [] = .ok s.sendBuf := by
    rw [storeN_of_le (by rw [hs]; exact Nat.le_refl _), List.nil_append, List.length_nil,
      Nat.add_zero, List.take_append_drop]
  rw [getInfoLoop]
  simp only [hnone, hload, hstore, ok_bind, Nat.add_zero, Nat.sub_zero, if_true]

/-- What is passed on does not fit: the buffer is filled, and from then on it is full. -/
theorem loop_fills (hs : s.Formed) (hfull : sendBufSize ≤ s.sendIdx + len)
    (hlen : len ≤ buf.length) :
    getInfoLoop net buf (fuel + 1) s s.sendIdx len =
      getInfoLoop net buf (fuel + 1) (s.filled buf 0) sendBufSize
        (s.sendIdx + len - sendBufSize) := by
  have hidx := hs.idx
  have hroom : cpLength s.sendIdx len = sendBufSize - s.sendIdx := by
    rw [cpLength]
    split
    · omega
    · rfl
  have htake : (buf.take (sendBufSize - s.sendIdx)).length = sendBufSize - s.sendIdx :=
    List.length_take_of_le (by omega)
  have hload : loadN (buf ++ [0]) 0 (sendBufSize - s.sendIdx) =
      .ok (buf.take (sendBufSize - s.sendIdx)) := by
    rw [loadN_front (by rw [List.length_append]; omega), List.take_append_of_le_length (by omega)]
  have hstore : storeN s.sendBuf (s.sendIdx : Nat) (buf.take (sendBufSize - s.sendIdx)) =
      .ok (s.filled buf 0).sendBuf := by
    have hend : s.sendIdx + (sendBufSize - s.sendIdx) = s.sendBuf.length := by
      rw [hs.size]
      omega
    rw [storeN_of_le (by rw [htake]; exact Nat.le_of_eq hend), htake, hend, List.drop_length,
      List.append_nil]
    rfl
  have hsize : (s.filled buf 0).sendBuf.length = sendBufSize := by
    rw [Sender.filled, List.length_append, htake, List.length_take, hs.size]
    omega
  have hidx' : s.sendIdx + (sendBufSize - s.sendIdx) = sendBufSize := by omega
  have hlen' : len - (sendBufSize - s.sendIdx) = s.sendIdx + len - sendBufSize := by omega
  rw [loop_full hsize, getInfoLoop]
  simp only [hroom, hload, hstore, ok_bind, hidx', hlen', if_true]
  rfl

/-- The writes that the full buffer waits for: all but the last time out, and if nothing is left
to copy, the first is the last. -/
def Waits (net : Nat → Int) (writes len z : Nat) : Prop :=
  (∀ i < z, net (writes + i) = 0) ∧ (len = 0 → z = 0)

/-- A write that fails or times out. -/
theorem write_nothing (h : net s.writes ≤ 0) :
    s.write net len = { s with writes := s.writes + 1 } := by
  rw [Sender.write, Int.toNat_of_nonpos h, List.take_zero, List.append_nil]

/-- A call with a full buffer ends with the first write that does not time out, or that finds
nothing left to copy. -/
theorem loop_full_ok (hs : s.sendBuf.length = sendBufSize)
    (h : getInfoLoop net buf fuel s sendBufSize len = .ok (ret, s')) :
    ∃ z, Waits net s.writes len z ∧ ret = net (s.writes + z) ∧ (ret = 0 → len = 0) ∧
      (ret ≤ 0 → s' = s.waited ret z) := by
  induction fuel generalizing s with
  | zero => cases h
  | succ fuel ih =>
      rw [loop_full hs] at h
      split at h
      next hret =>
        cases h
        refine ⟨0, ⟨nofun, fun _ => rfl⟩, rfl, fun hzero => absurd hzero hret, fun hle => ?_⟩
        rw [Sender.waited, if_neg hret, write_nothing hle]
      next hret =>
        rw [not_not] at hret
        rw [write_nothing (Int.le_of_eq hret)] at h
        split at h
        next hlen =>
          obtain ⟨z, hwaits, hend, hzero, hs'⟩ := ih (s := { s with writes := s.writes + 1 }) hs h
          have hsucc (i : Nat) : s.writes + 1 + i = s.writes + (i + 1) := by omega
          dsimp only at hwaits hend hs'
          refine ⟨z + 1, ⟨fun i hi => ?_, fun hnone => absurd hnone hlen⟩, ?_, hzero, fun hle => ?_⟩
          · cases i with
            | zero => exact hret
            | succ i =>
                rw [← hsucc]
                exact hwaits.1 i (by omega)
          · rw [hend, hsucc]
          · rw [hs' hle, Sender.waited, Sender.waited]
            dsimp only
            rw [hsucc]
        next hlen =>
          rw [not_not] at hlen
          cases h
          refine ⟨0, ⟨nofun, fun _ => rfl⟩, hret.symm, fun _ => hlen, fun _ => ?_⟩
          rfl

theorem waited_error (h : ret < 0) : (s.filled buf 0).waited ret z = s.filled buf (z + 1) := by
  rw [Sender.waited, if_neg (Int.ne_of_lt h)]
  rfl

theorem waited_zero : (s.filled buf 0).waited successReturn 0 = s.full buf := rfl

/-- Such a write ends the call. -/
theorem loop_full_ends (hs : s.sendBuf.length = sendBufSize)
    (hwaits : Waits net s.writes len z) (hend : net (s.writes + z) = 0 → len = 0)
    (hle : net (s.writes + z) ≤ 0) :
    ∃ fuel, getInfoLoop net buf (fuel + 1) s sendBufSize len =
      .ok (net (s.writes + z), s.waited (net (s.writes + z)) z) := by
  induction z generalizing s with
  | zero =>
      rw [Nat.add_zero] at hend hle ⊢
      refine ⟨0, ?_⟩
      rw [loop_full hs, write_nothing hle]
      by_cases hret : net s.writes = 0
      case neg => rw [if_pos hret, Sender.waited, if_neg hret]
      case pos =>
        rw [if_neg (not_not.mpr hret), if_neg (not_not.mpr (hend hret)), hret]
        rfl
  | succ z ih =>
      have hsucc (i : Nat) : s.writes + 1 + i = s.writes + (i + 1) := by omega
      have hret : net s.writes = 0 := hwaits.1 0 (Nat.succ_pos z)
      have hlen : len ≠ 0 := fun hnone => nomatch hwaits.2 hnone
      obtain ⟨fuel, hfuel⟩ := ih (s := { s with writes := s.writes + 1 }) hs
        ⟨fun i hi => by rw [hsucc]; exact hwaits.1 (i + 1) (by omega),
          fun hnone => absurd hnone hlen⟩
        (by rw [hsucc]; exact hend) (by rw [hsucc]; exact hle)
      refine ⟨fuel + 1, ?_⟩
      rw [loop_full hs, write_nothing (Int.le_of_eq hret), if_neg (not_not.mpr hret), if_pos hlen,
        hfuel]
      rw [Sender.waited, Sender.waited]
      dsimp only
      rw [hsucc]

theorem Sender.Formed.filled (hs : s.Formed) (hfull : sendBufSize ≤ s.sendIdx + buf.length)
    (writes : Nat) : (s.filled buf writes).Formed := by
  refine ⟨?_, hs.idx⟩
  have hsize := hs.size
  have hidx := hs.idx
  simp only [Sender.filled, List.length_append, List.length_take]
  omega

/-- A string that does not fit, where the buffer is written in the end. -/
theorem fills_ends (hs : s.Formed) (hfull : sendBufSize ≤ s.sendIdx + len)
    (hlen : len ≤ buf.length) (hwaits : Waits net s.writes (s.sendIdx + len - sendBufSize) z)
    (hend : net (s.writes + z) = 0 → s.sendIdx + len - sendBufSize = 0)
    (hle : net (s.writes + z) ≤ 0) :
    ∃ fuel, getInfoLoop net buf fuel s s.sendIdx len =
      .ok (net (s.writes + z), (s.filled buf 0).waited (net (s.writes + z)) z) := by
  have hsize := (hs.filled (Nat.le_trans hfull (Nat.add_le_add_left hlen _)) 0).size
  obtain ⟨fuel, hloop⟩ := loop_full_ends hsize hwaits hend hle
  exact ⟨fuel + 1, (loop_fills hs hfull hlen).trans hloop⟩

/-! ## What a call leaves -/

theorem left_length (hs : s.Formed) : s.left.length = s.sendIdx :=
  List.length_take_of_le (by rw [hs.size]; exact hs.idx)

theorem Sender.Formed.put (hs : s.Formed) (hfits : s.sendIdx + buf.length < sendBufSize) :
    (s.put buf).Formed := by
  refine ⟨?_, Nat.le_of_lt hfits⟩
  have hsize := hs.size
  simp only [Sender.put, List.length_append, List.length_take, List.length_drop]
  omega

theorem left_put (hs : s.Formed) : (s.put buf).left = s.left ++ buf := by
  have hleft := left_length hs
  rw [Sender.left] at hleft
  rw [Sender.left, Sender.put]
  dsimp only
  rw [List.take_append, hleft, Nat.add_sub_cancel_left,
    List.take_append_of_le_length (Nat.le_refl _), List.take_length,
    List.take_of_length_le (by rw [hleft]; exact Nat.le_add_right _ _), Sender.left]

theorem left_filled (hs : s.Formed) {writes : Nat} : (s.filled buf writes).left = s.left := by
  have hleft := left_length hs
  rw [Sender.left] at hleft
  rw [Sender.left, Sender.filled]
  dsimp only
  rw [List.take_append_of_le_length (Nat.le_of_eq hleft.symm),
    List.take_of_length_le (Nat.le_of_eq hleft), Sender.left]

/-- The buffer is full, and that is what it holds. -/
theorem left_full (hs : s.Formed) (hfull : sendBufSize ≤ s.sendIdx + buf.length) :
    (s.full buf).left = s.left ++ buf.take (sendBufSize - s.sendIdx) :=
  List.take_of_length_le (Nat.le_of_eq (hs.filled hfull 1).size)

end Call

/-! ## The calls for a request -/

/-- A call ends with an error, or what was written and what is left to write is what it was and
the string. -/
def Exact (s : Sender) (buf : Bytes) (ret : Int) (s' : Sender) : Prop :=
  ret < 0 ∨ ret = successReturn ∧ s'.written ++ s'.left = s.written ++ s.left ++ buf

/-- Each of the calls ends and is exact. -/
def Assembles (net : Nat → Int) (Final : Sender → Prop) : Sender → List Fragment → Prop
  | s, [] => Final s
  | s, f :: rest =>
      ∃ fuel ret s', httpclientGetInfo net fuel f.buf f.len s = .ok (ret, s') ∧
        Exact s f.buf ret s' ∧ Assembles net Final s' rest

/-- The strings fit in a buffer that holds `idx` bytes after so many writes; or they fill it
to the last byte, and the write times out; or the first write that does not time out fails, and
the string is lost. -/
def Undisturbed (net : Nat → Int) (Final : Nat → Nat → Prop) : Nat → Nat → List Bytes → Prop
  | idx, writes, [] => Final idx writes
  | idx, writes, buf :: rest =>
      idx + buf.length < sendBufSize ∧ Undisturbed net Final (idx + buf.length) writes rest ∨
      idx + buf.length = sendBufSize ∧ net writes = 0 ∧
        Undisturbed net Final sendBufSize (writes + 1) rest ∨
      sendBufSize ≤ idx + passed buf ∧
        ∃ z, Waits net writes (idx + passed buf - sendBufSize) z ∧ net (writes + z) < 0 ∧
          Undisturbed net Final idx (writes + z + 1) rest

section Calls

variable {net : Nat → Int} {s s' : Sender}

/-- A call that ends without a write. -/
theorem exact_of_fits (hs : s.Formed) {f : Fragment} {fuel : Nat} {ret : Int}
    (hfits : s.sendIdx + passed f.buf < sendBufSize)
    (hcall : getInfoLoop net f.buf (fuel + 1) s s.sendIdx (passed f.buf) = .ok (ret, s'))
    (hexact : Exact s f.buf ret s') :
    s.sendIdx + f.buf.length < sendBufSize ∧ s' = s.put f.buf := by
  have hle : passed f.buf ≤ f.buf.length := passed_le
  rw [loop_fits hs hfits hle] at hcall
  cases hcall
  have hkept := (hexact.resolve_left (by decide)).2
  rw [left_put hs, ← List.append_assoc] at hkept
  have heq : f.buf.take (passed f.buf) = f.buf := List.append_cancel_left hkept
  have hlen : passed f.buf = f.buf.length := by
    rw [← List.length_take_of_le hle, heq]
  rw [heq]
  exact ⟨hlen ▸ hfits, rfl⟩

/-- A call that ends with a write. -/
theorem exact_of_fills (hs : s.Formed) {f : Fragment} {fuel : Nat} {ret : Int}
    (hfull : sendBufSize ≤ s.sendIdx + passed f.buf)
    (hcall : getInfoLoop net f.buf (fuel + 1) s s.sendIdx (passed f.buf) = .ok (ret, s'))
    (hexact : Exact s f.buf ret s') :
    s.sendIdx + f.buf.length = sendBufSize ∧ net s.writes = 0 ∧ s' = s.full f.buf ∨
      ∃ z, Waits net s.writes (s.sendIdx + passed f.buf - sendBufSize) z ∧
        net (s.writes + z) < 0 ∧ s' = s.filled f.buf (z + 1) := by
  have hle : passed f.buf ≤ f.buf.length := passed_le
  have hfull' : sendBufSize ≤ s.sendIdx + f.buf.length :=
    Nat.le_trans hfull (Nat.add_le_add_left hle _)
  rw [loop_fills hs hfull hle] at hcall
  obtain ⟨z, hwaits, rfl, hzero, hs'⟩ := loop_full_ok (hs.filled hfull' 0).size hcall
  rcases hexact with herror | ⟨hret, hkept⟩
  · exact .inr ⟨z, hwaits, herror, (hs' (Int.le_of_lt herror)).trans (waited_error herror)⟩
  · have hlen := hzero hret
    obtain rfl := hwaits.2 hlen
    have hret' : net s.writes = 0 := hret
    have hs'' : s' = s.full f.buf := by
      rw [hs' (Int.le_of_eq hret), hret, waited_zero]
    rw [hs''] at hkept
    have hbuf : s.left ++ f.buf.take (sendBufSize - s.sendIdx) = s.left ++ f.buf := by
      rw [← left_full hs hfull']
      rw [List.append_assoc] at hkept
      exact List.append_cancel_left hkept
    have hlen' := congrArg List.length (List.append_cancel_left hbuf)
    rw [List.length_take] at hlen'
    exact .inl ⟨by omega, hret', hs''⟩

theorem passed_of_fits {f : Fragment} (h : s.sendIdx + f.buf.length ≤ sendBufSize) :
    passed f.buf = f.buf.length :=
  passed_eq (by rw [sendBufSize] at h; omega)

theorem put_exact (hs : s.Formed) (f : Fragment)
    (hfits : s.sendIdx + f.buf.length < sendBufSize) :
    getInfoLoop net f.buf 1 s s.sendIdx (passed f.buf) = .ok (successReturn, s.put f.buf) ∧
      Exact s f.buf successReturn (s.put f.buf) := by
  constructor
  · rw [passed_of_fits (Nat.le_of_lt hfits), loop_fits hs hfits (Nat.le_refl _), List.take_length]
  · refine .inr ⟨rfl, ?_⟩
    rw [left_put hs, ← List.append_assoc]
    rfl

theorem full_exact (hs : s.Formed) (f : Fragment)
    (hfull : s.sendIdx + f.buf.length = sendBufSize) (hret : net s.writes = 0) :
    ∃ fuel, getInfoLoop net f.buf fuel s s.sendIdx (passed f.buf) =
        .ok (successReturn, s.full f.buf) ∧
      Exact s f.buf successReturn (s.full f.buf) := by
  have hlen := passed_of_fits (Nat.le_of_eq hfull)
  have hwaits : Waits net s.writes (s.sendIdx + passed f.buf - sendBufSize) 0 :=
    ⟨nofun, fun _ => rfl⟩
  obtain ⟨fuel, hcall⟩ := fills_ends hs (by omega) passed_le hwaits
    (fun _ => by omega) (Int.le_of_eq hret)
  rw [Nat.add_zero, hret] at hcall
  refine ⟨fuel, hcall, .inr ⟨rfl, ?_⟩⟩
  rw [left_full hs (Nat.le_of_eq hfull.symm), List.take_of_length_le (by omega),
    ← List.append_assoc]
  rfl

/-- A call, where it ends and is exact. -/
theorem call_iff (hs : s.Formed) (f : Fragment) {P : Sender → Prop} :
    (∃ fuel ret s', httpclientGetInfo net fuel f.buf f.len s = .ok (ret, s') ∧
        Exact s f.buf ret s' ∧ P s') ↔
      s.sendIdx + f.buf.length < sendBufSize ∧ P (s.put f.buf) ∨
      s.sendIdx + f.buf.length = sendBufSize ∧ net s.writes = 0 ∧ P (s.full f.buf) ∨
      sendBufSize ≤ s.sendIdx + passed f.buf ∧
        ∃ z, Waits net s.writes (s.sendIdx + passed f.buf - sendBufSize) z ∧
          net (s.writes + z) < 0 ∧ P (s.filled f.buf (z + 1)) := by
  simp only [getInfo_eq]
  constructor
  · rintro ⟨fuel, ret, s', hcall, hexact, hP⟩
    obtain _ | fuel := fuel
    · cases hcall
    rcases Nat.lt_or_ge (s.sendIdx + passed f.buf) sendBufSize with hfits | hfull
    · obtain ⟨hfits', rfl⟩ := exact_of_fits hs hfits hcall hexact
      exact .inl ⟨hfits', hP⟩
    · rcases exact_of_fills hs hfull hcall hexact with
        ⟨hfull', hret, rfl⟩ | ⟨z, hwaits, herror, rfl⟩
      · exact .inr (.inl ⟨hfull', hret, hP⟩)
      · exact .inr (.inr ⟨hfull, z, hwaits, herror, hP⟩)
  · rintro (⟨hfits, hP⟩ | ⟨hfull, hret, hP⟩ | ⟨hfull, z, hwaits, herror, hP⟩)
    · obtain ⟨hcall, hexact⟩ := put_exact hs f hfits
      exact ⟨1, _, _, hcall, hexact, hP⟩
    · obtain ⟨fuel, hcall, hexact⟩ := full_exact hs f hfull hret
      exact ⟨fuel, _, _, hcall, hexact, hP⟩
    · obtain ⟨fuel, hcall⟩ := fills_ends hs hfull passed_le hwaits
        (fun hzero => absurd hzero (Int.ne_of_lt herror)) (Int.le_of_lt herror)
      rw [waited_error herror] at hcall
      exact ⟨fuel, _, _, hcall, .inl herror, hP⟩

/-- Nothing was written yet, and what is left is no more than all the strings so far, and if it
is no less it is them. -/
structure Behind (s : Sender) (strings : Bytes) : Prop where
  written : s.written = []
  le : s.left.length ≤ strings.length
  eq : s.left.length = strings.length → s.left = strings

theorem Behind.append {strings buf : Bytes} (h : Behind s strings) (hwritten : s'.written = [])
    (hleft : s'.left = s.left ++ buf) : Behind s' (strings ++ buf) := by
  refine ⟨hwritten, ?_, fun heq => ?_⟩
  · rw [hleft, List.length_append, List.length_append]
    exact Nat.add_le_add_right h.le _
  · rw [hleft, List.length_append, List.length_append] at heq
    rw [hleft, h.eq (Nat.add_right_cancel heq)]

theorem Behind.lost {strings buf : Bytes} (h : Behind s strings) (hwritten : s'.written = [])
    (hleft : s'.left = s.left) : Behind s' (strings ++ buf) := by
  have hle := h.le
  refine ⟨hwritten, ?_, fun heq => ?_⟩
  · rw [hleft, List.length_append]
    omega
  · rw [hleft, List.length_append] at heq
    have hnone : buf = [] := List.eq_nil_of_length_eq_zero (by omega)
    rw [hnone, List.append_nil, hleft]
    exact h.eq (by omega)

theorem formed_start : Sender.start.Formed := ⟨List.length_replicate, Nat.zero_le _⟩

theorem behind_start : Behind .start [] := ⟨rfl, Nat.le_refl _, fun _ => rfl⟩

/-- The calls for a request, where each ends and is exact. -/
theorem assembles_iff {Final : Sender → Prop} {Final' : Nat → Nat → Prop} {fs : List Fragment}
    {strings : Bytes} (hs : s.Formed) (hbehind : Behind s strings)
    (hfinal : ∀ t : Sender, t.Formed → Behind t (strings ++ fs.flatMap Fragment.buf) →
      (Final t ↔ Final' t.sendIdx t.writes)) :
    Assembles net Final s fs ↔
      Undisturbed net Final' s.sendIdx s.writes (fs.map Fragment.buf) := by
  induction fs generalizing s strings with
  | nil =>
      rw [List.flatMap_nil, List.append_nil] at hfinal
      exact hfinal s hs hbehind
  | cons f rest ih =>
      rw [List.flatMap_cons, ← List.append_assoc] at hfinal
      rw [Assembles, call_iff hs, List.map_cons, Undisturbed]
      refine or_congr (and_congr_right fun hfits => ?_) (or_congr (and_congr_right fun hfull =>
        and_congr_right fun hret => ?_) (and_congr_right fun hfull => exists_congr fun z =>
        and_congr_right fun hwaits => and_congr_right fun herror => ?_))
      · exact ih (hs.put hfits) (hbehind.append hbehind.written (left_put hs)) hfinal
      · have hfull' : sendBufSize ≤ s.sendIdx + f.buf.length := Nat.le_of_eq hfull.symm
        refine ih ⟨(hs.filled hfull' 1).size, Nat.le_refl _⟩
          (hbehind.append hbehind.written ?_) hfinal
        rw [left_full hs hfull', List.take_of_length_le (by omega)]
      · have hfull' : sendBufSize ≤ s.sendIdx + f.buf.length :=
          Nat.le_trans hfull (Nat.add_le_add_left passed_le _)
        exact ih (hs.filled hfull' _) (hbehind.lost hbehind.written (left_filled hs)) hfinal

/-! ## Fuel -/

theorem getInfoLoop_mono {buf : Bytes} {fuel idx len : Nat} {r : Int × Sender} (more : Nat)
    (h : getInfoLoop net buf fuel s idx len = .ok r) :
    getInfoLoop net buf (fuel + more) s idx len = .ok r := by
  induction fuel generalizing s idx len with
  | zero => cases h
  | succ fuel ih =>
      rw [Nat.succ_add, getInfoLoop]
      rw [getInfoLoop] at h
      obtain ⟨bs, hload, h⟩ := bind_eq_ok.mp h
      obtain ⟨sendBuf, hstore, h⟩ := bind_eq_ok.mp h
      rw [hload, ok_bind, hstore, ok_bind]
      dsimp only at h ⊢
      split at h
      next hfull =>
        rw [if_pos hfull]
        split at h
        next hret => rw [if_pos hret, h]
        next hret =>
          rw [if_neg hret]
          split at h
          next hlen => rw [if_pos hlen, ih h]
          next hlen => rw [if_neg hlen, h]
      next hfull =>
        rw [if_neg hfull]
        split at h
        next hlen => rw [if_pos hlen, ih h]
        next hlen => rw [if_neg hlen, h]

theorem getInfo_unique {buf : Bytes} {len : UInt32} {fuel fuel' : Nat} {r r' : Int × Sender}
    (h : httpclientGetInfo net fuel buf len s = .ok r)
    (h' : httpclientGetInfo net fuel' buf len s = .ok r') : r = r' := by
  have hmore := getInfoLoop_mono fuel' h
  rw [Nat.add_comm, getInfoLoop_mono fuel h'] at hmore
  exact (Except.ok.inj hmore).symm

theorem getInfos_cons {fuel : Nat} {f : Fragment} {rest : List Fragment} {t : Sender} :
    getInfos net fuel (f :: rest) s = .ok t ↔
      ∃ ret u, httpclientGetInfo net fuel f.buf f.len s = .ok (ret, u) ∧
        getInfos net fuel rest u = .ok t := by
  rw [getInfos]
  cases httpclientGetInfo net fuel f.buf f.len s with
  | ok r => exact ⟨fun h => ⟨r.1, r.2, rfl, h⟩, fun ⟨_, _, hr, h⟩ => by cases hr; exact h⟩
  | error e => exact ⟨nofun, nofun⟩

theorem getInfos_mono {fuel more : Nat} {fs : List Fragment} {t : Sender}
    (h : getInfos net fuel fs s = .ok t) : getInfos net (fuel + more) fs s = .ok t := by
  induction fs generalizing s with
  | nil => exact h
  | cons f rest ih =>
      obtain ⟨ret, u, hcall, hrest⟩ := getInfos_cons.mp h
      exact getInfos_cons.mpr ⟨ret, u, getInfoLoop_mono _ hcall, ih hrest⟩

/-- The calls one after the other come to what each of them leaves. -/
theorem assembles_getInfos {Final : Sender → Prop} {fs : List Fragment} :
    (Assembles net (fun _ => True) s fs ∧ ∃ fuel t, getInfos net fuel fs s = .ok t ∧ Final t) ↔
      Assembles net Final s fs := by
  induction fs generalizing s with
  | nil =>
      refine ⟨fun ⟨_, fuel, t, ht, hfinal⟩ => ?_, fun hfinal => ⟨trivial, 0, s, rfl, hfinal⟩⟩
      cases ht
      exact hfinal
  | cons f rest ih =>
      constructor
      · rintro ⟨⟨fuel', ret', u', hcall', hexact, hrest'⟩, fuel, t, hinfos, hfinal⟩
        obtain ⟨ret, u, hcall, hrest⟩ := getInfos_cons.mp hinfos
        obtain ⟨rfl, rfl⟩ := Prod.mk.inj (getInfo_unique hcall' hcall)
        exact ⟨fuel, ret', u', hcall, hexact, ih.mp ⟨hrest', fuel, t, hrest, hfinal⟩⟩
      · rintro ⟨fuel, ret, u, hcall, hexact, hrest⟩
        obtain ⟨hrest, more, t, hinfos, hfinal⟩ := ih.mpr hrest
        refine ⟨⟨fuel, ret, u, hcall, hexact, hrest⟩, fuel + more, t, getInfos_cons.mpr ?_, hfinal⟩
        refine ⟨ret, u, getInfoLoop_mono _ hcall, ?_⟩
        rw [Nat.add_comm]
        exact getInfos_mono hinfos

end Calls

/-! ## The request -/

/-- The header lines after the request line. -/
def Headers.lines (h : Headers) : List Bytes :=
  (match h.bAuth with
    | some bAuth => [authorization, bAuth]
    | none => []) ++
  ((match h.header with
    | some header => [header]
    | none => []) ++
  ((if h.postBuf then
      contentLength h.postBufLen ::
        (match h.postContentType with
          | some postContentType => [contentType postContentType]
          | none => [])
    else []) ++ [crlf]))

/-- The request line and the headers. -/
def Headers.request (h : Headers) (method : Int) (p : Url.Parsed) : Bytes :=
  (requestLine method (text p.path) (text p.host) :: h.lines).flatten

/-- What is passed to `httpclient_get_info` for a URL that was parsed. -/
def Headers.passed (h : Headers) (method : Int) (p : Url.Parsed) : List Fragment :=
  .counted (snprintf (requestLine method (text p.path) (text p.host))) :: h.fragments

/-- Strings that may have been cut short are no longer than the lines, and if they are as long
they are the lines. -/
theorem flatMap_initial {fs : List Fragment} {lines : List Bytes}
    (h : List.Forall₂ (fun f line => f.buf <+: line) fs lines) :
    (fs.flatMap Fragment.buf).length ≤ lines.flatten.length ∧
      ((fs.flatMap Fragment.buf).length = lines.flatten.length →
        fs.flatMap Fragment.buf = lines.flatten) := by
  induction h with
  | nil => exact ⟨Nat.le_refl _, fun _ => rfl⟩
  | cons hline _ ih =>
      obtain ⟨hle, heq⟩ := ih
      have hline' := hline.length_le
      rw [List.flatMap_cons, List.flatten_cons, List.length_append, List.length_append]
      refine ⟨Nat.add_le_add hline' hle, fun hlen => ?_⟩
      rw [hline.eq_of_length (by omega), heq (by omega)]

theorem snprintf_initial (line : Bytes) : snprintf line <+: line := List.take_prefix _ _

theorem passed_lines (h : Headers) (method : Int) (p : Url.Parsed) :
    List.Forall₂ (fun f line => f.buf <+: line) (h.passed method p)
      (requestLine method (text p.path) (text p.host) :: h.lines) := by
  refine .cons (snprintf_initial _) ?_
  rw [Headers.fragments, Headers.lines]
  refine List.rel_append ?_ (List.rel_append ?_ (List.rel_append ?_ ?_))
  · cases h.bAuth with
    | none => exact .nil
    | some bAuth => exact .cons (List.prefix_refl _) (.cons (List.prefix_refl _) .nil)
  · cases h.header with
    | none => exact .nil
    | some header => exact .cons (List.prefix_refl _) .nil
  · split
    · refine .cons (snprintf_initial _) ?_
      cases h.postContentType with
      | none => exact .nil
      | some postContentType => exact .cons (snprintf_initial _) .nil
    · exact .nil
  · exact .cons (List.prefix_refl _) .nil

/-- The last write fails, or the whole request was written. -/
def Transmitted (net : Nat → Int) (request : Bytes) (s : Sender) : Prop :=
  net s.writes ≤ 0 ∨ (s.write net s.sendIdx).written = request

/-- The last write fails or times out, or it takes the whole request. -/
def TakesAll (net : Nat → Int) (request : Bytes) (idx writes : Nat) : Prop :=
  net writes ≤ 0 ∨ idx = request.length ∧ (request.length : Int) ≤ net writes

section Header

variable {net : Nat → Int} {s : Sender} {fs : List Fragment} {lines : List Bytes}

theorem transmitted_iff (hs : s.Formed) (hbehind : Behind s (fs.flatMap Fragment.buf))
    (hlines : List.Forall₂ (fun f line => f.buf <+: line) fs lines) :
    Transmitted net lines.flatten s ↔ TakesAll net lines.flatten s.sendIdx s.writes := by
  obtain ⟨hle, heq⟩ := flatMap_initial hlines
  have hleft := left_length hs
  have hbehind' := hbehind.le
  have hwritten : (s.write net s.sendIdx).written = s.left.take (net s.writes).toNat := by
    rw [Sender.write, hbehind.written, List.nil_append, Sender.left]
  rw [Transmitted, TakesAll, hwritten]
  refine or_congr_right' fun hret => ⟨fun hall => ?_, fun ⟨hidx, htakes⟩ => ?_⟩
  · have hlen := congrArg List.length hall
    rw [List.length_take] at hlen
    exact ⟨by omega, by omega⟩
  · rw [List.take_of_length_le (by omega), hbehind.eq (by omega), heq (by omega)]

/-- The request line always fits. -/
theorem line_call (net : Nat → Int) (line : Bytes) (fuel : Nat) :
    httpclientGetInfo net (fuel + 1) (snprintf line) (strlen (snprintf line)) .start =
      .ok (successReturn, Sender.start.put (snprintf line)) := by
  have hlt : (snprintf line).length < sendBufSize := by
    rw [snprintf, List.length_take, sendBufSize]
    omega
  have hpassed : passed (snprintf line) = (snprintf line).length :=
    passed_eq (Nat.lt_trans hlt (by decide))
  have hfits : Sender.start.sendIdx + (snprintf line).length < sendBufSize :=
    Nat.lt_of_le_of_lt (Nat.le_of_eq (Nat.zero_add _)) hlt
  have hloop := @loop_fits net _ _ fuel _ formed_start hfits (Nat.le_refl _)
  rw [List.take_length] at hloop
  exact (getInfo_eq (.counted (snprintf line))).trans (hpassed ▸ hloop)

/-- `httpclient_send_header` from the request line on. -/
theorem sendHeader_reached {h : Headers} {url : Bytes} {method : Int} {p : Url.Parsed}
    (hparse : Url.httpclientParseUrl url 8 64 64 = .ok p) (hret : p.ret = successReturn)
    {fuel : Nat} :
    httpclientSendHeader net (fuel + 1) true h url method =
      match getInfos net (fuel + 1) (h.passed method p) .start with
      | .error e => .error (.fault e)
      | .ok s => .ok (lastCode (net s.writes), s.write net s.sendIdx) := by
  have hline := line_call net (requestLine method (text p.path) (text p.host)) fuel
  have hinfos : getInfos net (fuel + 1) (h.passed method p) .start =
      getInfos net (fuel + 1) h.fragments
        (Sender.start.put (snprintf (requestLine method (text p.path) (text p.host)))) := by
    rw [Headers.passed, getInfos]
    simp only [Fragment.counted, hline]
  rw [hinfos, httpclientSendHeader, if_neg (by decide), hparse]
  dsimp only
  rw [if_neg (not_not.mpr hret), hline]
  rfl

end Header

/-- `httpclient_send_header` ends, with an error or with the whole request written. -/
def SendsOrFails (net : Nat → Int) (allocated : Bool) (h : Headers) (url : Bytes) (method : Int) :
    Prop :=
  ∃ fuel rc s, httpclientSendHeader net fuel allocated h url method = .ok (rc, s) ∧
    (rc = successReturn →
      ∃ p, Url.httpclientParseUrl url 8 64 64 = .ok p ∧ s.written = h.request method p)

/-- What `httpclient_send_header` passes to `httpclient_get_info`. -/
def passedOn (allocated : Bool) (h : Headers) (url : Bytes) (method : Int) : List Fragment :=
  match allocated, Url.httpclientParseUrl url 8 64 64 with
  | true, .ok p => if p.ret = successReturn then h.passed method p else []
  | _, _ => []

/-- There is no memory, or the URL is refused, or the calls of `httpclient_get_info` are not
disturbed and the last write takes the whole request, or fails. -/
def Reaches (net : Nat → Int) (allocated : Bool) (h : Headers) (url : Bytes) (method : Int) :
    Prop :=
  allocated = true →
    ∃ p, Url.httpclientParseUrl url 8 64 64 = .ok p ∧
      (p.ret = successReturn →
        Undisturbed net (TakesAll net (h.request method p)) 0 0
          ((h.passed method p).map Fragment.buf))

section Reached

variable {net : Nat → Int} {h : Headers} {url : Bytes} {method : Int} {p : Url.Parsed}

theorem sendsOrFails_iff (hparse : Url.httpclientParseUrl url 8 64 64 = .ok p)
    (hret : p.ret = successReturn) :
    SendsOrFails net true h url method ↔
      ∃ fuel s, getInfos net fuel (h.passed method p) .start = .ok s ∧
        Transmitted net (h.request method p) s := by
  constructor
  · rintro ⟨fuel, rc, s, hcall, hsent⟩
    obtain _ | fuel := fuel
    · rw [httpclientSendHeader, if_neg (by decide), hparse] at hcall
      dsimp only at hcall
      rw [if_neg (not_not.mpr hret)] at hcall
      cases hcall
    rw [sendHeader_reached hparse hret] at hcall
    cases hinfos : getInfos net (fuel + 1) (h.passed method p) .start with
    | error e =>
        rw [hinfos] at hcall
        cases hcall
    | ok t =>
        rw [hinfos] at hcall
        cases hcall
        refine ⟨fuel + 1, t, hinfos, ?_⟩
        by_cases hpos : 0 < net t.writes
        · obtain ⟨p', hparse', hwritten⟩ := hsent (if_pos hpos)
          cases hparse.symm.trans hparse'
          exact .inr hwritten
        · exact .inl (Int.not_lt.mp hpos)
  · rintro ⟨fuel, t, hinfos, htransmitted⟩
    have hcall : httpclientSendHeader net (fuel + 1) true h url method =
        .ok (lastCode (net t.writes), t.write net t.sendIdx) := by
      rw [sendHeader_reached hparse hret, getInfos_mono hinfos]
    refine ⟨fuel + 1, _, _, hcall, fun hsuccess => ⟨p, hparse, ?_⟩⟩
    refine htransmitted.resolve_left fun hle => ?_
    rw [lastCode, if_neg (Int.not_lt.mpr hle)] at hsuccess
    split at hsuccess
    · cases hsuccess
    · cases hsuccess

theorem reached_iff (hparse : Url.httpclientParseUrl url 8 64 64 = .ok p)
    (hret : p.ret = successReturn) :
    (Assembles net (fun _ => True) .start (h.passed method p) ∧
        SendsOrFails net true h url method) ↔
      Undisturbed net (TakesAll net (h.request method p)) 0 0
        ((h.passed method p).map Fragment.buf) := by
  rw [sendsOrFails_iff hparse hret, assembles_getInfos]
  refine assembles_iff formed_start behind_start fun t ht hbehind => ?_
  exact transmitted_iff ht hbehind (passed_lines h method p)

theorem passedOn_eq (hparse : Url.httpclientParseUrl url 8 64 64 = .ok p) :
    passedOn true h url method = if p.ret = successReturn then h.passed method p else [] := by
  simp only [passedOn, hparse]

end Reached

/-- A call of `httpclient_get_info` ends and is exact, for all the strings of a request, exactly
if the network does not disturb it; and `httpclient_send_header` writes the whole request or
returns an error exactly if, besides, the last write takes all that is left or nothing. -/
theorem request_assembly_iff (net : Nat → Int) (fs : List Fragment) (allocated : Bool)
    (h : Headers) (url : Bytes) (method : Int) :
    (Assembles net (fun _ => True) .start fs ↔
      Undisturbed net (fun _ _ => True) 0 0 (fs.map Fragment.buf)) ∧
    ((Assembles net (fun _ => True) .start (passedOn allocated h url method) ∧
        SendsOrFails net allocated h url method) ↔
      Reaches net allocated h url method) := by
  refine ⟨assembles_iff formed_start behind_start fun _ _ _ => Iff.rfl, ?_⟩
  cases allocated with
  | false =>
      refine ⟨fun _ => nofun, fun _ => ⟨trivial, 0, failReturn, .start, rfl, fun hsuccess => ?_⟩⟩
      exact absurd hsuccess failReturn_ne_success
  | true =>
      rw [Reaches]
      cases hparse : Url.httpclientParseUrl url 8 64 64 with
      | error e =>
          constructor
          · rintro ⟨_, fuel, rc, s, hcall, _⟩
            rw [httpclientSendHeader, if_neg (by decide), hparse] at hcall
            cases hcall
          · intro hreaches
            obtain ⟨p, hp, _⟩ := hreaches rfl
            cases hp
      | ok p =>
          rw [passedOn_eq hparse]
          by_cases hret : p.ret = successReturn
          · rw [if_pos hret, reached_iff hparse hret]
            constructor
            · exact fun hundisturbed _ => ⟨p, rfl, fun _ => hundisturbed⟩
            · intro hreaches
              obtain ⟨p', hp, hundisturbed⟩ := hreaches rfl
              cases hp
              exact hundisturbed hret
          · rw [if_neg hret]
            refine ⟨fun _ _ => ⟨p, rfl, fun hsuccess => absurd hsuccess hret⟩, fun _ => ?_⟩
            refine ⟨trivial, 0, p.ret, .start, ?_, fun hsuccess => absurd hsuccess hret⟩
            rw [httpclientSendHeader, if_neg (by decide), hparse]
            dsimp only
            rw [if_pos hret]

/-- A header line of 1100 bytes. -/
def longHeader : Bytes := List.replicate 1100 120

/-- The network takes the full buffer. -/
theorem long_header_not_assembles :
    ¬Assembles (fun _ => 1024) (fun _ => True) .start [.counted longHeader] := by
  have hlen : longHeader.length = 1100 := List.length_replicate
  have hiff : Assembles (fun _ => 1024) (fun _ => True) .start [.counted longHeader] ↔
      Undisturbed (fun _ => 1024) (fun _ _ => True) 0 0 [longHeader] :=
    assembles_iff formed_start behind_start fun _ _ _ => Iff.rfl
  rw [hiff]
  rintro (⟨hfits, _⟩ | ⟨_, hret, _⟩ | ⟨_, _, _, herror, _⟩)
  · rw [hlen, sendBufSize] at hfits
    omega
  · cases hret
  · cases herror

end IotKit.Http.Request
