import IotKit.Http.Chunked

/-!
# Which chunks are decoded

The code keeps its place in a body in chunks as long as every chunk is in the scratch
buffer, with a byte behind it, when its size is read (`OnTrack`).  A chunk that is read
in pieces ends with the scratch buffer, whose bytes are then taken for the line end, or
with the response buffer, and the next call reads the line end as a size (`OffTrack`).
-/

namespace IotKit.Http

open CMemory

variable {r : ChunkedBody} {bufLen : Nat}

/-! ## Positions -/

theorem ChunkedBody.length_encode_cons (r : ChunkedBody) (c : Chunk) (cs : List Chunk) :
    (r.encode (c :: cs)).length =
      c.line.bytes.length + 2 + (c.data.length + 2 + (r.encode cs).length) := by
  simp only [encode, List.length_append]
  rfl

theorem ChunkedBody.encode_le (r : ChunkedBody) (before cs : List Chunk) :
    (r.encode cs).length ≤ (r.encode (before ++ cs)).length := by
  induction before with
  | nil => exact le_rfl
  | cons c before ih =>
      rw [List.cons_append, length_encode_cons]
      omega

theorem ChunkedBody.Splits.lt {cs : List Chunk} {n : Nat} (h : r.Splits cs n) :
    n < (r.encode cs).length := by
  induction cs with
  | nil => exact h.elim
  | cons c cs ih =>
      rw [length_encode_cons]
      cases h with
      | inl h => omega
      | inr h =>
          have hlt := ih h
          omega

/-- Chunks that are further back do not matter. -/
theorem ChunkedBody.splits_append {before cs : List Chunk} {n : Nat}
    (hn : n < (r.encode cs).length + 2) : r.Splits (before ++ cs) n ↔ r.Splits cs n := by
  induction before with
  | nil => exact Iff.rfl
  | cons c before ih =>
      have hle := r.encode_le before cs
      rw [List.cons_append, Splits, ih]
      exact or_iff_right fun h => by omega

/-- Behind `n` bytes of a chunk. -/
theorem ChunkedBody.afterByte_append {before cs : List Chunk} {c : Chunk} {n : Nat} (hpos : 0 < n)
    (hle : n ≤ c.data.length) :
    r.afterByte (before ++ c :: cs) ((before.flatMap Chunk.data).length + n) =
      c.data.drop n ++ crlf ++ r.encode cs := by
  induction before with
  | nil =>
      rw [List.nil_append, List.flatMap_nil, List.length_nil, Nat.zero_add, afterByte, if_pos hle]
  | cons e before ih =>
      rw [List.cons_append, List.flatMap_cons, List.length_append, afterByte, if_neg (by omega),
        ← ih]
      congr 1
      omega

/-! ## On the track -/

/-- The chunks `before` have been copied, and `cs` are to come. -/
structure AtLine (r : ChunkedBody) (bufLen : Nat) (before cs : List Chunk) (d : HttpclientData) :
    Prop where
  chunks : r.chunks = before ++ cs
  lines : ∀ c ∈ before, c.line.bytes.length + 3 < httpclientChunkSize
  buf : d.responseBuf = before.flatMap Chunk.data
  chunked : d.isChunked = true
  more : d.isMore = true
  bufLen : d.responseBufLen = bufLen
  bound : d.cap < d.responseBufLen
  retrieveLen : d.retrieveLen = 0
  room : d.count < d.cap

/-- The first call is on and has kept its place. -/
inductive OnTrack (r : ChunkedBody) (bufLen : Nat) : Status → Bytes → Prop where
  | size {before cs : List Chunk} {s : Scratch} {d : HttpclientData} {stream : Bytes}
      (hd : AtLine r bufLen before cs d) (hsplit : s.content ++ stream = r.encode cs)
      (hlen : s.len < (r.firstLine cs).bytes.length + 3) (hshort : s.len < httpclientChunkSize) :
      OnTrack r bufLen (.waiting (.chunkSize s) d) stream
  | lineEnd {before cs : List Chunk} {s : Scratch} {d : HttpclientData} {stream : Bytes}
      (hd : AtLine r bufLen before cs d) (hs : s.content = [13])
      (hsplit : s.content ++ stream = crlf ++ r.encode cs) :
      OnTrack r bufLen (.waiting (.chunkEnd s) d) stream
  | done {d : HttpclientData} {stream : Bytes} (hbuf : d.responseBuf = r.body)
      (hmore : d.isMore = false) (hroom : r.body.length + 1 < bufLen)
      (hlines : ∀ c ∈ r.chunks, c.line.bytes.length + 3 < httpclientChunkSize)
      (hlast : r.last.bytes.length + 3 < httpclientChunkSize)
      (hend : stream.length < (r.encode []).length) :
      OnTrack r bufLen (.done successReturn d) stream

theorem OnTrack.not_splits {status : Status} {stream : Bytes} (h : OnTrack r bufLen status stream) :
    ¬ r.Splits r.chunks stream.length := by
  cases h with
  | @size before cs s d _ hd hsplit hlen hshort =>
      have hlength := congrArg List.length hsplit
      rw [List.length_append] at hlength
      have hcontent : s.content.length = s.len := rfl
      rw [hd.chunks, ChunkedBody.splits_append (by omega)]
      cases cs with
      | nil => exact id
      | cons c cs =>
          rw [ChunkedBody.length_encode_cons] at hlength
          rw [ChunkedBody.firstLine] at hlen
          rintro (h | h)
          · omega
          · have hlt := h.lt
            omega
  | @lineEnd before cs s d _ hd hs hsplit =>
      have hlength := congrArg List.length hsplit
      rw [hs, List.length_append, List.length_append] at hlength
      have hone : [(13 : UInt8)].length = 1 := rfl
      have hcrlf : crlf.length = 2 := rfl
      rw [hd.chunks, ChunkedBody.splits_append (by omega)]
      intro h
      have hlt := h.lt
      omega
  | done hbuf hmore hroom hlines hlast hend =>
      have hnil : r.chunks = r.chunks ++ [] := (List.append_nil _).symm
      rw [hnil, ChunkedBody.splits_append (by omega)]
      exact id

/-! ## Off the track -/

/-- The calls have lost their place in the body. -/
inductive OffTrack (r : ChunkedBody) (bufLen : Nat) : Status → Bytes → Prop where
  /-- A chunk is read in pieces: `b` is left of it. -/
  | body {before cs : List Chunk} {c : Chunk} {b : Bytes} {s : Scratch} {d : HttpclientData}
      {stream : Bytes} (hchunks : r.chunks = before ++ c :: cs) (hsuffix : b <:+ c.data)
      (hb : b ≠ []) (hd : InChunk bufLen b.length d) (hstream : stream = b ++ crlf ++ r.encode cs) :
      OffTrack r bufLen (.waiting (.body s b.length) d) stream
  /-- The response buffer is full, and `b` is left of the chunk, which may be nothing. -/
  | full {before cs : List Chunk} {c : Chunk} {b : Bytes} {d : HttpclientData}
      {stream : Bytes} (hchunks : r.chunks = before ++ c :: cs) (hsuffix : b <:+ c.data)
      (hd : InChunk bufLen b.length d.reopened) (hmore : d.isMore = true)
      (hstream : stream = b ++ crlf ++ r.encode cs) :
      OffTrack r bufLen (.done httpRetrieveMoreData d) stream
  /-- The line end of a chunk is read as the line with a size. -/
  | terminator {cs : List Chunk} {s : Scratch} {d : HttpclientData} {stream : Bytes}
      (hchunked : d.isChunked = true) (hretrieve : d.retrieveLen = 0)
      (hsplit : s.content ++ stream = crlf ++ r.encode cs) (hlen : s.len < 3) :
      OffTrack r bufLen (.waiting (.chunkSize s) d) stream
  /-- The last byte of a chunk is taken for the first of the line end. -/
  | dangling {cs : List Chunk} {x : UInt8} {s : Scratch} {d : HttpclientData} {stream : Bytes}
      (hs : s.content = [x]) (hstream : stream = crlf ++ r.encode cs) :
      OffTrack r bufLen (.waiting (.chunkEnd s) d) stream
  | failed {ret : Int} {d : HttpclientData} {stream : Bytes} (h : ret < 0) :
      OffTrack r bufLen (.done ret d) stream

section Turn

variable {s : Scratch} {d : HttpclientData} {stream b : Bytes} {before cs : List Chunk} {c : Chunk}
  {next : Scratch → HttpclientData → Status}

variable (next) in
/-- A turn with a part of a chunk, which may be all of it, leaves the track, or the part
begins with a line end and is the last. -/
theorem turn_cut (hchunks : r.chunks = before ++ c :: cs) (hsuffix : b <:+ c.data) (hb : b ≠ [])
    (hd : InChunk bufLen b.length d) (hsplit : s.content ++ stream = b ++ crlf ++ r.encode cs)
    (hle : s.len ≤ b.length) (hfit : d.count + s.len ≤ d.cap) :
    OffTrack r bufLen (turn s b.length d next) stream ∨
      s.content = b ∧ stream = crlf ++ r.encode cs ∧ crlf <+: b := by
  have hpre : s.content <+: b := List.prefix_of_prefix_length_le ⟨stream, hsplit⟩
    (by rw [List.append_assoc]; exact List.prefix_append _ _) hle
  obtain ⟨rest, rfl⟩ := hpre
  rw [List.append_assoc, List.append_assoc] at hsplit
  have hstream : stream = rest ++ crlf ++ r.encode cs := by
    rw [List.append_assoc]
    exact List.append_cancel_left hsplit
  have hrest : rest <:+ c.data := (List.suffix_append s.content rest).trans hsuffix
  have hlength : (s.content ++ rest).length = s.len + rest.length := List.length_append
  have hcount := d.count_copied s.content rest.length
  by_cases hroom : d.count + s.len < d.cap
  · by_cases hless : s.len < (s.content ++ rest).length
    · have hleft : (s.content ++ rest).length - s.len = rest.length := by omega
      rw [turn_waits hd hless hroom, hleft]
      refine Or.inl (.body hchunks hrest ?_ ?_ hstream)
      · rintro rfl
        simp at hless
        exact absurd hless (Nat.lt_irrefl _)
      · exact ⟨hd.chunked, hd.more, hd.bufLen, hd.bound, rfl, by have := hd.small; omega,
          hcount ▸ hroom⟩
    · obtain rfl : rest = [] := List.eq_nil_of_length_eq_zero (by omega)
      rw [List.append_nil] at *
      rw [turn_exact hd rfl hroom]
      split
      next hshort =>
        obtain ⟨x, hx⟩ := List.length_eq_one_iff.mp
          (show s.content.length = 1 from Nat.le_antisymm (Nat.lt_succ_iff.mp hshort)
            (List.length_pos_of_ne_nil hb))
        exact Or.inl (.dangling hx hstream)
      next =>
        split
        next hcrlf => exact Or.inr ⟨rfl, hstream, hcrlf⟩
        next => exact Or.inl (.failed errorHttpUnresolvedDns_neg)
  · have hfull : d.cap ≤ d.count + min s.len (s.content ++ rest).length := by omega
    have hleft : (s.content ++ rest).length - (d.cap - d.count) = rest.length := by omega
    rw [turn_full hd hfull, hleft]
    exact Or.inl (.full hchunks hrest ⟨hd.chunked, rfl, hd.bufLen, hd.bound, rfl,
      Nat.lt_of_le_of_lt (by omega) hd.small, Nat.zero_lt_of_lt hd.room⟩ hd.more hstream)

variable (next) in
/-- A call that stops with bytes of the scratch buffer behind those it returns has lost them. -/
theorem turn_lost (hchunks : r.chunks = before ++ c :: cs)
    (hbuf : d.responseBuf = before.flatMap Chunk.data) (hd : InChunk bufLen c.data.length d)
    (hsplit : s.content ++ stream = c.data ++ crlf ++ r.encode cs)
    (hfull : d.cap ≤ d.count + min s.len c.data.length) (hlost : d.cap - d.count < s.len) :
    ∃ d', turn s c.data.length d next = .done httpRetrieveMoreData d' ∧
      stream ≠ r.afterByte r.chunks d'.responseBuf.length := by
  refine ⟨_, turn_full hd hfull, fun hstream => ?_⟩
  have hroom := hd.room
  have htake : (s.content.take (d.cap - d.count)).length = d.cap - d.count := by
    rw [List.length_take]
    exact Nat.min_eq_left (Nat.le_of_lt hlost)
  rw [HttpclientData.copied, hbuf, List.length_append, htake, hchunks,
    ChunkedBody.afterByte_append (by omega) (by omega)] at hstream
  have hlength := congrArg List.length hsplit
  simp only [hstream, List.length_append, List.length_drop] at hlength
  have hcontent : s.content.length = s.len := rfl
  omega

end Turn

/-! ## The main loop -/

/-- What the main loop makes of the bytes at hand, of which `had` were unread before. -/
inductive Outcome (r : ChunkedBody) (bufLen had : Nat) (status : Status) (stream : Bytes) :
    Prop where
  | on (h : OnTrack r bufLen status stream)
  | splits (hsplits : r.Splits r.chunks stream.length)
      (h : ¬ r.Overlong → OffTrack r bufLen status stream ∨ AtDecoy r had stream)
  | lost {d : HttpclientData} (hstatus : status = .done httpRetrieveMoreData d)
      (hroom : bufLen ≤ r.body.length + 1)
      (hlost : stream ≠ r.afterByte r.chunks d.responseBuf.length)

theorem toInt32_natCast {n : Nat} (h : n < 2 ^ 31) : toInt32 (n : Int) = n :=
  toInt32_of_lt (by omega) (by omega)

section AtLine

variable {before cs : List Chunk} {c : Chunk} {d : HttpclientData}

theorem AtLine.cap_eq (h : AtLine r bufLen before cs d) : d.cap + 1 = bufLen := by
  have hbound := h.bound
  have hbuf := h.bufLen
  rw [HttpclientData.cap] at hbound ⊢
  split at hbound
  next hzero => omega
  next hzero =>
    rw [if_neg hzero]
    omega

theorem AtLine.body_length (h : AtLine r bufLen before cs d) :
    r.body.length = d.count + (cs.flatMap Chunk.data).length := by
  rw [ChunkedBody.body, h.chunks, List.flatMap_append, List.length_append, HttpclientData.count,
    h.buf]

/-- The data of a chunk whose size has been read. -/
def HttpclientData.sized (d : HttpclientData) (n : Nat) : HttpclientData :=
  { d with
    retrieveLen := toInt32 n
    responseContentLen := toUInt32 (d.responseContentLen + toInt32 n) }

section
variable (d : HttpclientData) (n : Nat)

@[simp] theorem HttpclientData.responseBufLen_sized :
    (d.sized n).responseBufLen = d.responseBufLen := by rw [sized]

@[simp] theorem HttpclientData.isChunked_sized : (d.sized n).isChunked = d.isChunked := by
  rw [sized]

@[simp] theorem HttpclientData.isMore_sized : (d.sized n).isMore = d.isMore := by rw [sized]

@[simp] theorem HttpclientData.responseBuf_sized :
    (d.sized n).responseBuf = d.responseBuf := by rw [sized]

@[simp] theorem HttpclientData.count_sized : (d.sized n).count = d.count := by simp [count]

@[simp] theorem HttpclientData.cap_sized : (d.sized n).cap = d.cap := by simp [cap]

end

theorem HttpclientData.retrieveLen_sized {n : Nat} (h : n < 2 ^ 31) :
    (d.sized n).retrieveLen = n := by
  simp only [sized, toInt32_natCast h]

theorem AtLine.inChunk {n : Nat} (h : AtLine r bufLen before cs d) (hsmall : n < 2 ^ 31) :
    InChunk bufLen n (d.sized n) := by
  constructor
  · simpa using h.chunked
  · simpa using h.more
  · simpa using h.bufLen
  · simpa using h.bound
  · exact HttpclientData.retrieveLen_sized hsmall
  · exact hsmall
  · simpa using h.room

/-- A whole chunk has been copied. -/
theorem AtLine.next {d' : HttpclientData} {n : Nat} (h : AtLine r bufLen before (c :: cs) d)
    (hline : c.line.bytes.length + 3 < httpclientChunkSize)
    (hd' : InChunk bufLen n d') (hbuf : d'.responseBuf = d.responseBuf)
    (hroom : d'.count + c.data.length < d'.cap) :
    AtLine r bufLen (before ++ [c]) cs (d'.copied c.data 0) where
  chunks := by rw [h.chunks, List.append_assoc]; rfl
  lines := by
    intro e he
    rcases List.mem_append.mp he with he | he
    · exact h.lines e he
    · rw [List.mem_singleton.mp he]
      exact hline
  buf := by
    rw [List.flatMap_append, ← h.buf, ← hbuf]
    simp [HttpclientData.copied]
  chunked := hd'.chunked
  more := hd'.more
  bufLen := hd'.bufLen
  bound := hd'.bound
  retrieveLen := rfl
  room := by
    rw [HttpclientData.count_copied]
    exact hroom

/-- The main loop at a size that has not come to its end. -/
theorem contentLoop_waits {fuel : Nat} {s : Scratch} {stream : Bytes}
    (h : AtLine r bufLen before cs d) (hsplit : s.content ++ stream = r.encode cs)
    (hlen : s.len < (r.firstLine cs).bytes.length + 3) (hshort : s.len < httpclientChunkSize) :
    contentLoop (fuel + 1) s d = .waiting (.chunkSize s.terminate) d := by
  rw [contentLoop, contentStart, if_pos ⟨h.chunked, Int.le_of_eq h.retrieveLen⟩,
    chunkHeader_waits _ (SizeLine.crlf_none _) (r.encode_eq cs ▸ hsplit) hlen hshort]
  rfl

/-- The main loop at a size that is there. -/
theorem contentLoop_chunk {fuel : Nat} {s : Scratch} {stream : Bytes}
    (h : AtLine r bufLen before (c :: cs) d) (hsplit : s.content ++ stream = r.encode (c :: cs))
    (hlen : c.line.bytes.length + 3 ≤ s.len) :
    ∃ s' : Scratch, s'.content ++ stream = c.data ++ crlf ++ r.encode cs ∧
      s'.len + (c.line.bytes.length + 2) = s.len ∧
      contentLoop (fuel + 1) s d =
        if c.data.length < 2 ^ 32 then
          turn s' c.data.length (d.sized c.data.length) (contentLoop fuel)
        else .undefined .range := by
  obtain ⟨s', hafter, hlen', hheader⟩ := chunkHeader_line (d := d) hsplit hlen
  have hsize : (r.firstLine (c :: cs)).size = c.data.length := c.size
  have hne : c.data.length ≠ 0 := List.length_eq_zero_iff.not.mpr c.nonempty
  refine ⟨s', hafter, hlen', ?_⟩
  rw [contentLoop, contentStart, if_pos ⟨h.chunked, Int.le_of_eq h.retrieveLen⟩, hheader, hsize]
  by_cases hfits : c.data.length < 2 ^ 32
  · rw [if_pos hfits, if_pos hfits]
    dsimp only
    rw [if_neg hne]
    rfl
  · rw [if_neg hfits, if_neg hfits]
    rfl

/-- A chunk whose size has been read: it is not all there, the response buffer has no room
for it, or the main loop goes on behind it. -/
theorem turn_outcome {s : Scratch} {stream : Bytes} {had : Nat}
    {next : Scratch → HttpclientData → Status} (hd : AtLine r bufLen before (c :: cs) d)
    (hline : c.line.bytes.length + 3 < httpclientChunkSize)
    (hsplit : s.content ++ stream = c.data ++ crlf ++ r.encode cs) (hpos : 0 < s.len)
    (hsmall : c.data.length < 2 ^ 31)
    (hhad : s.len + stream.length ≤ had)
    (hnext : ∀ s' d', AtLine r bufLen (before ++ [c]) cs d' → s'.content ++ stream = r.encode cs →
      s'.len < s.len → Outcome r bufLen had (next s' d') stream) :
    Outcome r bufLen had (turn s c.data.length (d.sized c.data.length) next) stream := by
  have hdata : 0 < c.data.length := List.length_pos_of_ne_nil c.nonempty
  have hchunk := hd.inChunk hsmall
  have hcount := d.count_sized c.data.length
  have hcap := d.cap_sized c.data.length
  have hbuf := d.responseBuf_sized c.data.length
  have hlength := congrArg List.length hsplit
  rw [List.length_append, List.length_append, List.length_append] at hlength
  have hcrlf : crlf.length = 2 := rfl
  have hcontent : s.content.length = s.len := rfl
  have hbody := hd.body_length
  rw [List.flatMap_cons, List.length_append] at hbody
  have hbufLen := hd.cap_eq
  by_cases hlost : d.cap < d.count + s.len ∧ d.cap ≤ d.count + c.data.length
  · obtain ⟨d', hstatus, hloss⟩ := turn_lost next hd.chunks (hbuf.trans hd.buf) hchunk hsplit
      (by omega) (by omega)
    exact .lost hstatus (by omega) hloss
  · by_cases hle : s.len ≤ c.data.length
    · refine .splits ?_ fun _ => ?_
      · rw [hd.chunks, ChunkedBody.splits_append
          (by rw [ChunkedBody.length_encode_cons]; omega)]
        exact Or.inl (by omega)
      · obtain hoff | ⟨hall, hstream, hdecoy⟩ := turn_cut next hd.chunks (List.suffix_refl c.data)
          c.nonempty hchunk hsplit hle (by omega)
        · exact Or.inl hoff
        · refine Or.inr ⟨before, c, cs, hd.chunks, hstream, ?_⟩
          have hlen : s.len = c.data.length := congrArg List.length hall
          rw [Nat.sub_eq_zero_of_le (by omega), List.drop_zero]
          exact hdecoy
    · have hwhole : c.data.length < s.len := Nat.lt_of_not_le hle
      have hdiscard := s.len_discard c.data.length
      have hpre : c.data <+: s.content := List.prefix_of_prefix_length_le
        ⟨crlf ++ r.encode cs, by rw [← List.append_assoc]⟩ ⟨stream, hsplit⟩ (Nat.le_of_lt hwhole)
      obtain ⟨more, hmore⟩ := hpre
      have htake : s.content.take c.data.length = c.data := by rw [← hmore, List.take_left]
      have hdrop : (s.discard c.data.length).content = more := by
        rw [Scratch.discard, ← hmore, List.drop_left]
      rw [← hmore, List.append_assoc, List.append_assoc] at hsplit
      have hrest : more ++ stream = crlf ++ r.encode cs := List.append_cancel_left hsplit
      have hlen : more.length = s.len - c.data.length := by rw [← hdrop, ← hdiscard, Scratch.len]
      have hnext' := hd.next hline hchunk hbuf (by omega)
      rw [turn_whole hchunk hwhole (by omega), htake, hdrop]
      split
      next hone =>
        obtain ⟨x, rfl⟩ := List.length_eq_one_iff.mp (show more.length = 1 by omega)
        have hx : x = 13 := (List.cons.inj hrest).1
        refine .on (.lineEnd hnext' ?_ ?_)
        · rw [hdrop, hx]
        · rw [hdrop]
          exact hrest
      next htwo =>
        have hcrlf' : crlf <+: more := List.prefix_of_prefix_length_le ⟨r.encode cs, rfl⟩
          ⟨stream, hrest⟩ (by omega)
        rw [if_pos hcrlf']
        refine hnext _ _ hnext' ?_ ?_
        · obtain ⟨t, rfl⟩ := hcrlf'
          rw [List.append_assoc] at hrest
          rw [Scratch.discard, hdrop]
          exact List.append_cancel_left hrest
        · rw [Scratch.len_discard, hdiscard]
          omega

end AtLine

theorem contentLoop_outcome {fuel had : Nat} {before cs : List Chunk} {s : Scratch}
    {d : HttpclientData} {stream : Bytes} (hd : AtLine r bufLen before cs d)
    (hsplit : s.content ++ stream = r.encode cs) (hshort : s.len < httpclientChunkSize)
    (hfuel : s.len < fuel) (hhad : (r.afterLine cs).length ≤ had) :
    Outcome r bufLen had (contentLoop fuel s d) stream := by
  induction cs generalizing before s d fuel with
  | nil =>
      obtain ⟨fuel, rfl⟩ := Nat.exists_eq_succ_of_ne_zero (Nat.ne_zero_of_lt hfuel)
      by_cases hlen : s.len < r.last.bytes.length + 3
      · rw [contentLoop_waits hd hsplit hlen hshort]
        exact .on (.size hd hsplit hlen hshort)
      · obtain ⟨s', hafter, hlen', hheader⟩ := chunkHeader_line (d := d) hsplit
          (Nat.le_of_not_lt hlen)
        have hzero : (r.firstLine []).size = 0 := r.lastSize
        have hbody := hd.body_length
        have hcap := hd.cap_eq
        have hroom := hd.room
        have hlength := congrArg List.length hsplit
        rw [List.length_append] at hlength
        have hcontent : s.content.length = s.len := rfl
        rw [contentLoop, contentStart, if_pos ⟨hd.chunked, Int.le_of_eq hd.retrieveLen⟩, hheader,
          hzero, if_pos (by decide)]
        refine .on (.done ?_ rfl ?_ ?_ ?_ ?_)
        · rw [ChunkedBody.body, hd.chunks, List.append_nil]
          exact hd.buf
        · rw [List.flatMap_nil, List.length_nil] at hbody
          omega
        · rw [hd.chunks, List.append_nil]
          exact hd.lines
        · omega
        · omega
  | cons c cs ih =>
      obtain ⟨fuel, rfl⟩ := Nat.exists_eq_succ_of_ne_zero (Nat.ne_zero_of_lt hfuel)
      by_cases hlen : s.len < c.line.bytes.length + 3
      · rw [contentLoop_waits hd hsplit hlen hshort]
        exact .on (.size hd hsplit hlen hshort)
      · obtain ⟨s', hafter, hlen', hloop⟩ := contentLoop_chunk hd hsplit (Nat.le_of_not_lt hlen)
        have hlength := congrArg List.length hafter
        rw [List.length_append, List.length_append, List.length_append] at hlength
        have hcrlf : crlf.length = 2 := rfl
        have hcontent : s'.content.length = s'.len := rfl
        rw [ChunkedBody.afterLine, List.length_append, List.length_append] at hhad
        rw [hloop]
        by_cases hsmall : c.data.length < 2 ^ 31
        · rw [if_pos (by omega)]
          refine turn_outcome hd (by omega) hafter (by omega) hsmall (by omega) ?_
          intro t d' hd' ht hless
          have hbehind := congrArg List.length (r.encode_eq cs)
          rw [List.length_append] at hbehind
          exact ih hd' ht (by omega) (by omega) (by omega)
        · refine .splits ?_ fun hlong => ?_
          · rw [hd.chunks, ChunkedBody.splits_append
              (by rw [ChunkedBody.length_encode_cons]; omega)]
            rw [httpclientChunkSize] at hshort
            exact Or.inl ⟨by omega, by omega⟩
          · refine absurd ⟨c, ?_, Nat.le_of_not_lt hsmall⟩ hlong
            rw [hd.chunks]
            exact List.mem_append_right before List.mem_cons_self

end IotKit.Http
