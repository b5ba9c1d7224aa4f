import IotKit.Http.Headers

/-!
# The body loop on a response with a length

Without chunks the main loop has one turn: what is in the scratch buffer is copied,
until the body is complete (`is_more` is cleared), the response buffer is full or the
scratch buffer is used up (`body_plain`).  Bytes of the scratch buffer that a full
response buffer has no room for are not kept for the next call.
-/

namespace IotKit.Http

open CMemory

/-- Bytes are copied, and `r` bytes are left to retrieve. -/
def HttpclientData.copied (d : HttpclientData) (bs : Bytes) (r : Nat) : HttpclientData :=
  { d with responseBuf := d.responseBuf ++ bs, retrieveLen := r }

/-- The data of a call that begins to retrieve content. -/
def HttpclientData.reopened (d : HttpclientData) : HttpclientData :=
  { d with isMore := true, responseBuf := [] }

/-- What the body loop makes of the scratch buffer when `r` bytes are to be read. -/
def plainBody (s : Scratch) (r : Nat) (d : HttpclientData) : Status :=
  if d.count + min s.len r < d.cap then
    if s.len < r then .waiting (.body s (r - s.len)) (d.copied s.content (r - s.len))
    else .done successReturn { d.copied (s.content.take r) 0 with isMore := false }
  else
    .done httpRetrieveMoreData
      (d.copied (s.content.take (d.cap - d.count)) (r - (d.cap - d.count)))

/-- A response whose length is known is being retrieved: `r` bytes of `M` are left. -/
structure Retrieving (d : HttpclientData) (M r : Nat) : Prop where
  chunked : d.isChunked = false
  contentLen : d.responseContentLen = M
  small : M < 2 ^ 31
  retrieveLen : d.retrieveLen = r
  le : r ≤ M
  room : d.count ≤ d.cap
  bound : d.cap < d.responseBufLen

section
variable {d : HttpclientData} {M r : Nat}

theorem HttpclientData.count_copied (d : HttpclientData) (bs : Bytes) (r : Nat) :
    (d.copied bs r).count = d.count + bs.length := List.length_append

theorem Retrieving.copied {bs : Bytes} {r' : Nat} (h : Retrieving d M r)
    (hroom : d.count + bs.length ≤ d.cap) (hle : r' ≤ M) : Retrieving (d.copied bs r') M r' := by
  refine ⟨h.chunked, h.contentLen, h.small, rfl, hle, ?_, h.bound⟩
  rw [HttpclientData.count_copied]
  exact hroom

theorem Retrieving.closed (h : Retrieving d M r) : Retrieving { d with isMore := false } M r :=
  ⟨h.chunked, h.contentLen, h.small, h.retrieveLen, h.le, h.room, h.bound⟩

theorem Retrieving.reopened (h : Retrieving d M r) : Retrieving d.reopened M r :=
  ⟨h.chunked, h.contentLen, h.small, h.retrieveLen, h.le, Nat.zero_le _, h.bound⟩

end

theorem store_of_lt {d : HttpclientData} {bs : Bytes} (h : d.count + bs.length < d.responseBufLen) :
    store d bs = .ok { d with responseBuf := d.responseBuf ++ bs } := by
  rw [store, if_pos h]

theorem contentEnd_plain {s : Scratch} {d : HttpclientData} (h : d.isChunked = false) :
    contentEnd s d = .error (.done successReturn { d with isMore := false }) := by
  rw [contentEnd, h]
  rfl

section
variable {s : Scratch} {d : HttpclientData} {M r : Nat}

/-- What fits the response buffer is copied. -/
theorem bodyPass_room (hret : d.retrieveLen = r) (hsmall : r < 2 ^ 31)
    (hbound : d.cap < d.responseBufLen) (hroom : d.count + min s.len r < d.cap) :
    bodyPass s r d =
      if r < s.len then .ok (s.discard r, d.copied (s.content.take r) 0)
      else if r = s.len then .ok (s, d.copied s.content 0)
      else .error (.waiting (.body s (r - s.len)) (d.copied s.content (r - s.len))) := by
  have htake : (s.content.take (min s.len r)).length = min s.len r := by
    rw [List.length_take, Scratch.len]
    omega
  have hleft : toInt32 (d.retrieveLen - (min s.len r : Nat)) =
      ((r - min s.len r : Nat) : Int) := by
    rw [hret, toInt32_of_lt (by omega) (by omega)]
    omega
  rw [bodyPass]
  dsimp only
  rw [if_pos hroom, store_of_lt (by rw [htake]; omega)]
  simp only [bind, Except.bind, hleft]
  split
  next hmore =>
    rw [Nat.min_eq_right (Nat.le_of_lt hmore)]
    rfl
  next hle =>
    have hmin : min s.len r = s.len := Nat.min_eq_left (Nat.le_of_not_lt hle)
    have hall : s.content.take s.len = s.content := List.take_length
    rw [hmin, hall]
    split
    next heq =>
      rw [heq, Nat.sub_self]
      rfl
    next => rfl

/-- A full response buffer ends the call. -/
theorem bodyPass_full (hret : d.retrieveLen = r) (hsmall : r < 2 ^ 31)
    (hbound : d.cap < d.responseBufLen) (hcount : d.count ≤ d.cap)
    (hfull : d.cap ≤ d.count + min s.len r) :
    bodyPass s r d = .error (.done httpRetrieveMoreData
      (d.copied (s.content.take (d.cap - d.count)) (r - (d.cap - d.count)))) := by
  have htake : (s.content.take (d.cap - d.count)).length ≤ d.cap - d.count :=
    List.length_take_le _ _
  have hleft : toInt32 (d.retrieveLen - (d.cap - d.count : Nat)) =
      ((r - (d.cap - d.count) : Nat) : Int) := by
    rw [hret, toInt32_of_lt (by omega) (by omega)]
    omega
  rw [bodyPass]
  dsimp only
  rw [if_neg (Nat.not_lt.mpr hfull), store_of_lt (by omega)]
  simp only [bind, Except.bind, hleft]
  rfl

/-- What the body loop is followed by does not matter, since it is the last turn. -/
theorem finish_plain (h : Retrieving d M r) (next : Scratch → HttpclientData → Status) :
    Pass.finish (do
      let (s, d) ← bodyPass s r d
      let (s, d) ← contentEnd s d
      .ok (next s d)) = plainBody s r d := by
  have hsmall : r < 2 ^ 31 := Nat.lt_of_le_of_lt h.le h.small
  rw [plainBody]
  split
  next hroom =>
    rw [bodyPass_room h.retrieveLen hsmall h.bound hroom]
    by_cases hless : s.len < r
    · rw [if_neg (Nat.not_lt.mpr (Nat.le_of_lt hless)), if_neg (Nat.ne_of_gt hless), if_pos hless]
      rfl
    · rw [if_neg hless]
      split
      next =>
        simp only [bind, Except.bind]
        rw [contentEnd_plain (by exact h.chunked)]
        rfl
      next hle =>
        have heq : r = s.len := Nat.le_antisymm (Nat.le_of_not_lt hless) (Nat.le_of_not_lt hle)
        rw [if_pos heq, heq, Scratch.len, List.take_length]
        simp only [bind, Except.bind]
        rw [contentEnd_plain (by exact h.chunked)]
        rfl
  next hfull =>
    rw [bodyPass_full h.retrieveLen hsmall h.bound h.room (Nat.le_of_not_lt hfull)]
    rfl

theorem body_plain (h : Retrieving d M r) : body s r d = plainBody s r d := by
  rw [body, finish_plain h]

theorem content_plain (h : Retrieving d M r) : content s d = plainBody s r d := by
  have hsmall := h.small
  have hle := h.le
  have hstart : contentStart s d = .ok (s, r, d) := by
    rw [contentStart, h.chunked, if_neg (by simp), h.retrieveLen, toUInt32_natCast (by omega)]
  rw [content, contentLoop, hstart]
  exact finish_plain h _

/-- `httpclient_retrieve_content` where the length is known. -/
theorem retrieveContent_plain (h : Retrieving d.reopened M r) :
    httpclientRetrieveContent s d = plainBody s r d.reopened := by
  have hsmall := h.small
  have hlen : ¬ (d.responseContentLen = unknownLength ∧ d.isChunked = false) := by
    rintro ⟨hunknown, _⟩
    have hlen : d.responseContentLen = M := h.contentLen
    rw [unknownLength] at hunknown
    omega
  rw [httpclientRetrieveContent]
  dsimp only
  rw [if_neg hlen]
  exact content_plain h

end

end IotKit.Http
