import IotKit.Http.Body
import IotKit.Lib.Schedule

/-!
# Bodies in chunks

A body in chunks is sent as a line with the size of each chunk, the chunk and a line
end, and ends with a chunk of size zero and a trailer.  `Retrieval` is what the calls of
`httpclient_retrieve_content` make of it, one after the other, from the end of the
header on.
-/

namespace IotKit.Http

open CMemory

/-! ## The format -/

/-- The line in front of a chunk: the digits of its size, and an extension if there is
one. -/
structure SizeLine where
  digits : Bytes
  extension : Bytes
  nonempty : digits ≠ []
  hex : ∀ b ∈ digits, isDigit 16 b
  separated : ∀ b ∈ extension.head?, b = 59
  oneLine : strstrCrlf extension = none

def SizeLine.bytes (l : SizeLine) : Bytes := l.digits ++ l.extension

/-- The size that the line gives. -/
def SizeLine.size (l : SizeLine) : Nat := Http.digits 16 l.digits

/-- A chunk with its line. -/
structure Chunk where
  line : SizeLine
  data : Bytes
  nonempty : data ≠ []
  size : line.size = data.length

/-- A body in chunks. -/
structure ChunkedBody where
  chunks : List Chunk
  /-- The line of the last chunk, which is empty. -/
  last : SizeLine
  lastSize : last.size = 0
  /-- The header lines behind the last chunk, and the empty line. -/
  trailer : Bytes
  closed : crlf <:+ trailer

namespace ChunkedBody

/-- The bytes of some chunks and what follows the last. -/
def encode (r : ChunkedBody) : List Chunk → Bytes
  | [] => r.last.bytes ++ crlf ++ r.trailer
  | c :: cs => c.line.bytes ++ crlf ++ (c.data ++ crlf ++ r.encode cs)

/-- What the server sends. -/
def bytes (r : ChunkedBody) : Bytes := r.encode r.chunks

def body (r : ChunkedBody) : Bytes := r.chunks.flatMap Chunk.data

/-- The size line in front. -/
def firstLine (r : ChunkedBody) : List Chunk → SizeLine
  | [] => r.last
  | c :: _ => c.line

/-- What follows the size line in front. -/
def afterLine (r : ChunkedBody) : List Chunk → Bytes
  | [] => r.trailer
  | c :: cs => c.data ++ crlf ++ r.encode cs

/-- What follows byte `n` of the body. -/
def afterByte (r : ChunkedBody) : List Chunk → Nat → Bytes
  | [], _ => []
  | c :: cs, n =>
      if n ≤ c.data.length then c.data.drop n ++ crlf ++ r.encode cs
      else r.afterByte cs (n - c.data.length)

/-- So many bytes before the end, a chunk has begun and its line end has not. -/
def Splits (r : ChunkedBody) : List Chunk → Nat → Prop
  | [], _ => False
  | c :: cs, n => ((r.encode cs).length + 2 ≤ n ∧ n < (r.encode cs).length + 2 + c.data.length) ∨
      r.Splits cs n

end ChunkedBody

/-! ## The calls -/

/-- A call, or the end of the last one. -/
inductive Progress where
  | call (status : Status)
  | ended (ok : Bool)
deriving DecidableEq, Repr

/-- The calls for one body: the one that is on, the bytes of the server that are still to
come, and the buffers that have been returned, one after the other. -/
structure Retrieval where
  progress : Progress
  stream : Bytes
  received : Bytes
deriving DecidableEq, Repr

/-- One step: a read, of which the transport delivers at most `cut` bytes, or the return of a
call and the beginning of the next. -/
def Retrieval.step (f : Retrieval) (cut : Nat) : Retrieval :=
  match f.progress with
  | .ended _ => f
  | .call (.undefined _) => { f with progress := .ended false }
  | .call (.done ret d) =>
      if ret < 0 then { f with progress := .ended false }
      else { f with
        progress := if d.isMore then .call (httpclientRecvResponse d) else .ended true
        received := f.received ++ d.responseBuf }
  | .call (.waiting w d) =>
      let c := Call.step ⟨.waiting w d, f.stream⟩ ⟨1, .bytes cut⟩
      { f with progress := .call c.status, stream := c.stream }

/-- The data behind the header of a response in chunks. -/
def chunkedData (bufLen : Nat) (code : Int) : HttpclientData :=
  ⟨true, true, 0, 0, bufLen, [], code⟩

/-- How a body is delivered: what has come with the header is in the scratch buffer, and no
read is empty. -/
structure Delivery (r : ChunkedBody) where
  scratch : Scratch
  stream : Bytes
  code : Int
  split : scratch.content ++ stream = r.bytes
  short : scratch.len < httpclientChunkSize
  cut : Nat → Nat
  cut_pos : ∀ k, 0 < cut k

/-- The calls after `k` steps. -/
def Delivery.run {r : ChunkedBody} (x : Delivery r) (bufLen k : Nat) : Retrieval :=
  Schedule.iter Retrieval.step x.cut
    ⟨.call (httpclientRetrieveContent x.scratch (chunkedData bufLen x.code)), x.stream, []⟩ k

/-! ## The property and its condition -/

/-- A call that stops because its buffer is full has read nothing behind the last byte that
it returns. -/
def ChunkedBody.Lossless (r : ChunkedBody) (f : Retrieval) : Prop :=
  ∀ d, f.progress = .call (.done httpRetrieveMoreData d) →
    f.stream = r.afterByte r.chunks (f.received ++ d.responseBuf).length

/-- The calls return the body, the last one clears `is_more`, and no byte is lost on the way. -/
structure Decoded {r : ChunkedBody} (bufLen : Nat) (x : Delivery r) : Prop where
  ends : ∃ k, (x.run bufLen k).progress = .ended true ∧ (x.run bufLen k).received = r.body
  lossless : ∀ k, r.Lossless (x.run bufLen k)

/-- The size lines fit the scratch buffer and the body one response buffer, and no read ends
behind a byte of a chunk and before the line end of the chunk. -/
structure Clean {r : ChunkedBody} (bufLen : Nat) (x : Delivery r) : Prop where
  lines : ∀ c ∈ r.chunks, c.line.bytes.length + 3 < httpclientChunkSize
  last : r.last.bytes.length + 3 < httpclientChunkSize
  room : r.body.length + 1 < bufLen
  whole : ∀ k, ¬ r.Splits r.chunks (x.run bufLen k).stream.length

/-- How many bytes are unread before step `k`. -/
def Delivery.unread {r : ChunkedBody} (x : Delivery r) (bufLen : Nat) : Nat → Nat
  | 0 => r.bytes.length
  | k + 1 => (x.run bufLen k).stream.length

/-- A chunk whose size an `int` does not hold. -/
def ChunkedBody.Overlong (r : ChunkedBody) : Prop := ∃ c ∈ r.chunks, 2 ^ 31 ≤ c.data.length

/-- A read that leaves `stream` of `had` unread bytes ends with a chunk, and what it brings of
the chunk begins with a line end. -/
def AtDecoy (r : ChunkedBody) (had : Nat) (stream : Bytes) : Prop :=
  ∃ before c after, r.chunks = before ++ c :: after ∧ stream = crlf ++ r.encode after ∧
    crlf <+: c.data.drop (c.data.length - (had - stream.length))

/-- Some read ends so. -/
def Misled {r : ChunkedBody} (bufLen : Nat) (x : Delivery r) : Prop :=
  ∃ k, AtDecoy r (x.unread bufLen k) (x.run bufLen k).stream

/-! ## Size lines -/

section SizeLine

variable {b : UInt8} {l : SizeLine}

theorem isDigit_ranges (h : isDigit 16 b) :
    (48 ≤ b ∧ b ≤ 57) ∨ (97 ≤ b ∧ b ≤ 102) ∨ (65 ≤ b ∧ b ≤ 70) := by
  rw [isDigit, digitValue] at h
  split at h
  next v hv =>
    split at hv
    next hdec => exact Or.inl hdec
    next =>
      split at hv
      next hlow => exact Or.inr (Or.inl hlow)
      next =>
        split at hv
        next hup => exact Or.inr (Or.inr hup)
        next => cases hv
  next => cases h

/-- A digit is none of the characters that have another meaning in front of a number. -/
theorem isDigit_plain (h : isDigit 16 b) :
    b ≠ 0 ∧ b ≠ 13 ∧ b ≠ 43 ∧ b ≠ 45 ∧ b ≠ 120 ∧ b ≠ 88 ∧ isSpace b = false := by
  have hranges := isDigit_ranges h
  simp only [isSpace, decide_eq_false_iff_not, UInt8.le_iff_toNat_le, ne_eq,
    ← UInt8.toNat_inj] at hranges ⊢
  simp at hranges ⊢
  omega

theorem strstrCrlf_digits {ds rest : Bytes} (hds : ∀ b ∈ ds, isDigit 16 b)
    (hrest : strstrCrlf rest = none) : strstrCrlf (ds ++ rest) = none := by
  induction ds with
  | nil => exact hrest
  | cons d ds ih =>
      rw [List.cons_append, strstrCrlf_cons, if_neg,
        ih fun b hb => hds b (List.mem_cons_of_mem d hb)]
      · rfl
      · exact fun h => (isDigit_plain (hds d List.mem_cons_self)).2.1 h.1

theorem SizeLine.crlf_none (l : SizeLine) : strstrCrlf l.bytes = none :=
  strstrCrlf_digits l.hex l.oneLine

theorem takeWhile_digits {ds rest : Bytes} {base : Nat} (hds : ∀ b ∈ ds, isDigit base b)
    (hrest : ∀ b ∈ rest.head?, isDigit base b = false) :
    (ds ++ rest).takeWhile (isDigit base) = ds := by
  rw [List.takeWhile_append_of_pos hds]
  cases rest with
  | nil => simp
  | cons b rest =>
      rw [List.takeWhile_cons_of_neg (by simp [hrest b rfl]), List.append_nil]

/-- Without white space, a sign or a prefix, the digits are read. -/
theorem scanHex_plain {bs : Bytes} {d : UInt8} (hhead : bs.head? = some d)
    (hspace : isSpace d = false) (hsign : d ≠ 43 ∧ d ≠ 45)
    (hradix : bs[1]? ≠ some 120 ∧ bs[1]? ≠ some 88) :
    scanHex bs = (scanDigits 16 bs).map fun (n, rest) => ((n : Int), rest) := by
  obtain ⟨bs, rfl⟩ := List.head?_eq_some_iff.mp hhead
  have hskip : skipSpace (d :: bs) = d :: bs := List.dropWhile_cons_of_neg (by simp [hspace])
  have hsigned : scanSign (d :: bs) = (false, d :: bs) := by
    rw [scanSign]
    · exact fun rest h => hsign.1 (List.cons.inj h).1
    · exact fun rest h => hsign.2 (List.cons.inj h).1
  rw [scanHex, hskip, hsigned]
  simp only [Bool.false_eq_true, if_false]
  split
  next h => exact absurd (congrArg (·[1]?) h) hradix.1
  next h => exact absurd (congrArg (·[1]?) h) hradix.2
  next => rfl

/-- The line is read as its size. -/
theorem SizeLine.scanHex_bytes (l : SizeLine) :
    ∃ rest, scanHex (cString l.bytes) = some ((l.size : Int), rest) := by
  obtain ⟨d, ds, hds⟩ := List.exists_cons_of_ne_nil l.nonempty
  obtain ⟨_, _, hplus, hminus, _, _, hspace⟩ := isDigit_plain (l.hex d (hds ▸ List.mem_cons_self))
  have hzero : 0 ∉ l.digits := fun h => (isDigit_plain (l.hex 0 h)).1 rfl
  have hhead : ∀ b ∈ (cString l.extension).head?, b = 59 := by
    intro b hb
    refine l.separated b ?_
    cases hext : l.extension with
    | nil => simp [hext, cString] at hb
    | cons e rest =>
        rw [hext, cString, List.takeWhile_cons] at hb
        split at hb
        · exact hb
        · cases hb
  have htake := takeWhile_digits l.hex fun b hb => by rw [hhead b hb]; decide
  have hsecond : ∀ b, (l.digits ++ cString l.extension)[1]? = some b → b ≠ 120 ∧ b ≠ 88 := by
    intro b hb
    rw [hds, List.cons_append, List.getElem?_cons_succ] at hb
    cases hrest : ds with
    | nil =>
        rw [hrest, List.nil_append, ← List.head?_eq_getElem?] at hb
        rw [hhead b hb]
        decide
    | cons e es =>
        rw [hrest] at hb hds
        obtain rfl : e = b := Option.some.inj hb
        have he := isDigit_plain (l.hex e (hds ▸ List.mem_cons_of_mem d List.mem_cons_self))
        exact ⟨he.2.2.2.2.1, he.2.2.2.2.2.1⟩
  rw [SizeLine.bytes, cString_append hzero, scanHex_plain (d := d) (by rw [hds]; rfl) hspace
    ⟨hplus, hminus⟩ ⟨fun h => (hsecond _ h).1 rfl, fun h => (hsecond _ h).2 rfl⟩, scanDigits, htake]
  rw [hds]
  exact ⟨_, by rw [SizeLine.size, hds]; rfl⟩

end SizeLine

/-! ## The size of a chunk -/

section Header

variable {r : ChunkedBody} {cs : List Chunk} {s : Scratch} {d : HttpclientData} {stream : Bytes}

theorem ChunkedBody.encode_eq (r : ChunkedBody) (cs : List Chunk) :
    r.encode cs = (r.firstLine cs).bytes ++ crlf ++ r.afterLine cs := by
  cases cs with
  | nil => rfl
  | cons c cs => rfl

/-- The line is not there, or nothing behind it is. -/
theorem chunkHeader_waits (line : Bytes) {after : Bytes} (hline : strstrCrlf line = none)
    (hsplit : s.content ++ stream = line ++ crlf ++ after) (hlen : s.len < line.length + 3)
    (hshort : s.len < httpclientChunkSize) :
    chunkHeader s d = .error (.waiting (.chunkSize s.terminate) d) := by
  have hnone : strstrCrlf (s.content.take (s.len - 1)) = none := by
    rw [← List.take_append_drop (s.len - 1) s.content, List.append_assoc] at hsplit
    refine strstrCrlf_prefix (line_cut hsplit ?_) (strstrCrlf_append_cr hline)
    rw [List.length_take]
    omega
  rw [chunkHeader]
  dsimp only
  rw [show s.terminate.content = s.content from rfl, Scratch.len_terminate, hnone]
  exact if_pos hshort

/-- The line is found. -/
theorem strstrCrlf_scratch (line : Bytes) {after : Bytes} (hline : strstrCrlf line = none)
    (hsplit : s.content ++ stream = line ++ crlf ++ after) (hlen : line.length + 3 ≤ s.len) :
    strstrCrlf (s.content.take (s.len - 1)) = some line.length ∧
      s.content.take line.length = line := by
  have hlength : s.content.length = s.len := rfl
  refine ⟨?_, ?_⟩
  · have htake : (s.content.take (s.len - 1)).length = s.len - 1 := by
      rw [List.length_take]
      omega
    rw [← List.take_append_drop (s.len - 1) s.content, List.append_assoc] at hsplit
    rw [(line_split hsplit (by omega)).1]
    exact strstrCrlf_append_crlf hline _
  · rw [(line_split hsplit (by omega)).1, List.append_assoc, List.take_left]

/-- The line is read and discarded. -/
theorem chunkHeader_line (hsplit : s.content ++ stream = r.encode cs)
    (hlen : (r.firstLine cs).bytes.length + 3 ≤ s.len) :
    ∃ s' : Scratch, s'.content ++ stream = r.afterLine cs ∧
      s'.len + ((r.firstLine cs).bytes.length + 2) = s.len ∧
      chunkHeader s d =
        if (r.firstLine cs).size < 2 ^ 32 then
          let d := { d with
            retrieveLen := toInt32 (r.firstLine cs).size
            responseContentLen :=
              toUInt32 (d.responseContentLen + toInt32 (r.firstLine cs).size) }
          if (r.firstLine cs).size = 0 then .error (.done successReturn { d with isMore := false })
          else .ok (s', (r.firstLine cs).size, d)
        else .error (.undefined .range) := by
  generalize hl : r.firstLine cs = l at hlen
  rw [ChunkedBody.encode_eq, hl] at hsplit
  obtain ⟨hcontent, hafter⟩ := line_split hsplit (Nat.le_of_succ_le hlen)
  obtain ⟨hfound, hline⟩ := strstrCrlf_scratch _ l.crlf_none hsplit hlen
  obtain ⟨rest, hscan⟩ := l.scanHex_bytes
  refine ⟨s.terminate.discardLine l.bytes.length, ?_, ?_, ?_⟩
  · rw [Scratch.content_discardLine]
    exact hafter
  · rw [Scratch.len_discardLine, Scratch.len_terminate]
    omega
  · rw [chunkHeader]
    dsimp only
    rw [show s.terminate.content = s.content from rfl, Scratch.len_terminate, hfound]
    dsimp only
    rw [hline, hscan]
    dsimp only
    rw [Int.natAbs_natCast]
    split
    next hsize => rw [toUInt32_natCast hsize]
    next => rfl

end Header

/-! ## A turn of the main loop -/

section Turn

variable {s : Scratch} {n : Nat} {d : HttpclientData} {next : Scratch → HttpclientData → Status}

/-- The body loop and the line end behind it, where `n` bytes of a chunk are to be read. -/
def turn (s : Scratch) (n : Nat) (d : HttpclientData)
    (next : Scratch → HttpclientData → Status) : Status := Pass.finish do
  let (s, d) ← bodyPass s n d
  let (s, d) ← contentEnd s d
  .ok (next s d)

/-- A chunk is being read: `n` bytes of it are left. -/
structure InChunk (bufLen n : Nat) (d : HttpclientData) : Prop where
  chunked : d.isChunked = true
  more : d.isMore = true
  bufLen : d.responseBufLen = bufLen
  bound : d.cap < d.responseBufLen
  retrieveLen : d.retrieveLen = n
  small : n < 2 ^ 31
  room : d.count < d.cap

variable {bufLen : Nat}

theorem turn_waits (h : InChunk bufLen n d) (hlen : s.len < n) (hroom : d.count + s.len < d.cap) :
    turn s n d next = .waiting (.body s (n - s.len)) (d.copied s.content (n - s.len)) := by
  rw [turn, bodyPass_room h.retrieveLen h.small h.bound (by omega), if_neg (by omega),
    if_neg (by omega)]
  rfl

theorem turn_full (h : InChunk bufLen n d) (hfull : d.cap ≤ d.count + min s.len n) :
    turn s n d next = .done httpRetrieveMoreData
      (d.copied (s.content.take (d.cap - d.count)) (n - (d.cap - d.count))) := by
  rw [turn, bodyPass_full h.retrieveLen h.small h.bound (Nat.le_of_lt h.room) hfull]
  rfl

/-- Two bytes at least are checked for the line end. -/
theorem chunkCheck_of_two (hlen : 2 ≤ s.len) : chunkCheck s d =
    if crlf <+: s.content then .ok (s.discard 2, d)
    else .error (.done errorHttpUnresolvedDns d) := by
  have htake : (s.content ++ s.stale).take 2 = s.content.take 2 :=
    List.take_append_of_le_length hlen
  have hiff : s.content.take 2 = crlf ↔ crlf <+: s.content := by
    rw [List.prefix_iff_eq_take, eq_comm]
    rfl
  rw [chunkCheck, htake, if_neg (Nat.not_lt.mpr hlen)]
  simp only [hiff]

/-- What follows the bytes of a chunk. -/
theorem finish_contentEnd (hd : d.isChunked = true) :
    Pass.finish (do
      let (s, d) ← contentEnd s d
      .ok (next s d)) =
      if s.len < 2 then .waiting (.chunkEnd s) d
      else if crlf <+: s.content then next (s.discard 2) d
      else .done errorHttpUnresolvedDns d := by
  rw [contentEnd, hd, if_pos rfl]
  by_cases hshort : s.len < 2
  · rw [if_pos hshort, if_pos hshort]
    rfl
  · rw [if_neg hshort, if_neg hshort, chunkCheck_of_two (Nat.le_of_not_lt hshort)]
    by_cases hcrlf : crlf <+: s.content
    · rw [if_pos hcrlf, if_pos hcrlf]
      rfl
    · rw [if_neg hcrlf, if_neg hcrlf]
      rfl

/-- The chunk ends with the scratch buffer: its last bytes are taken for the line end. -/
theorem turn_exact (h : InChunk bufLen n d) (hlen : s.len = n) (hroom : d.count + n < d.cap) :
    turn s n d next =
      if s.len < 2 then .waiting (.chunkEnd s) (d.copied s.content 0)
      else if crlf <+: s.content then next (s.discard 2) (d.copied s.content 0)
      else .done errorHttpUnresolvedDns (d.copied s.content 0) := by
  rw [turn, bodyPass_room h.retrieveLen h.small h.bound (by omega), if_neg (by omega),
    if_pos hlen.symm]
  exact finish_contentEnd h.chunked

/-- The chunk is there, and something behind it. -/
theorem turn_whole (h : InChunk bufLen n d) (hlen : n < s.len) (hroom : d.count + n < d.cap) :
    turn s n d next =
      if (s.discard n).len < 2 then
        .waiting (.chunkEnd (s.discard n)) (d.copied (s.content.take n) 0)
      else if crlf <+: (s.discard n).content then
        next ((s.discard n).discard 2) (d.copied (s.content.take n) 0)
      else .done errorHttpUnresolvedDns (d.copied (s.content.take n) 0) := by
  rw [turn, bodyPass_room h.retrieveLen h.small h.bound (by omega), if_pos hlen]
  exact finish_contentEnd h.chunked

end Turn

end IotKit.Http
