import IotKit.Http.Dechunk

/-!
# Bodies in chunks, call by call

Runs of the calls for a body in chunks.  As long as no read ends within a chunk the first
call decodes the whole body; a run that has left the track does not return to it, but for
a chunk that looks like the end of another (`decoded_iff`).
-/

namespace IotKit.Http

open CMemory

variable {r : ChunkedBody} {bufLen : Nat}

theorem Retrieval.step_waiting {w : Wait} {d : HttpclientData} {stream received : Bytes}
    {cut : Nat} : Retrieval.step ⟨.call (.waiting w d), stream, received⟩ cut =
      ⟨.call (resume d (stream.take (min cut (w.maxLen d))) w),
        stream.drop (min cut (w.maxLen d)), received⟩ := rfl

theorem Retrieval.step_of_ended {f : Retrieval} {ok : Bool} (cut : Nat)
    (h : f.progress = .ended ok) : f.step cut = f := by
  rw [step, h]

theorem Retrieval.step_stream_nil {f : Retrieval} {cut : Nat} (h : f.stream = []) :
    (f.step cut).stream = [] := by
  obtain ⟨progress, stream, received⟩ := f
  cases h
  cases progress with
  | ended ok => rfl
  | call status =>
      cases status with
      | undefined why => rfl
      | waiting w d => exact List.drop_nil
      | done ret d =>
          rw [step]
          dsimp only
          split
          next => rfl
          next => rfl

/-- The calls have kept their place. -/
inductive Keeps (r : ChunkedBody) (bufLen : Nat) : Retrieval → Prop where
  | call {status : Status} {stream : Bytes} (h : OnTrack r bufLen status stream) :
      Keeps r bufLen ⟨.call status, stream, []⟩
  | ended {stream : Bytes} (hroom : r.body.length + 1 < bufLen)
      (hlines : ∀ c ∈ r.chunks, c.line.bytes.length + 3 < httpclientChunkSize)
      (hlast : r.last.bytes.length + 3 < httpclientChunkSize)
      (hend : stream.length < (r.encode []).length) :
      Keeps r bufLen ⟨.ended true, stream, r.body⟩

/-- The calls have lost it. -/
inductive Loses (r : ChunkedBody) (bufLen : Nat) : Retrieval → Prop where
  | call {status : Status} {stream received : Bytes} (h : OffTrack r bufLen status stream) :
      Loses r bufLen ⟨.call status, stream, received⟩
  | ended {stream received : Bytes} : Loses r bufLen ⟨.ended false, stream, received⟩

/-- What a step leads to that begins with `had` unread bytes. -/
inductive Reaches (r : ChunkedBody) (bufLen had : Nat) (f : Retrieval) : Prop where
  | keeps (h : Keeps r bufLen f)
  | splits (hsplits : r.Splits r.chunks f.stream.length)
      (h : ¬ r.Overlong → Loses r bufLen f ∨ AtDecoy r had f.stream)
  | lost (hroom : bufLen ≤ r.body.length + 1) (hlost : ¬ r.Lossless f)

theorem Outcome.reaches {had : Nat} {status : Status} {stream : Bytes}
    (h : Outcome r bufLen had status stream) : Reaches r bufLen had ⟨.call status, stream, []⟩ := by
  cases h with
  | on h => exact .keeps (.call h)
  | splits hsplits h => exact .splits hsplits fun hlong => (h hlong).imp_left .call
  | lost hstatus hroom hlost =>
      refine .lost hroom fun hlossless => hlost ?_
      rw [hstatus] at hlossless
      exact hlossless _ rfl

theorem content_outcome (had : Nat) {before cs : List Chunk} {s : Scratch} {d : HttpclientData}
    {stream : Bytes} (hd : AtLine r bufLen before cs d) (hsplit : s.content ++ stream = r.encode cs)
    (hshort : s.len < httpclientChunkSize) (hhad : (r.afterLine cs).length ≤ had) :
    Outcome r bufLen had (content s d) stream :=
  contentLoop_outcome hd hsplit hshort (Nat.lt_succ_self _) hhad

theorem ChunkedBody.length_encode (r : ChunkedBody) (cs : List Chunk) : (r.encode cs).length =
    (r.firstLine cs).bytes.length + 2 + (r.afterLine cs).length := by
  rw [encode_eq, List.length_append, List.length_append]
  rfl

/-- The line end behind a chunk is there and is discarded. -/
theorem resume_chunkEnd {s : Scratch} {d : HttpclientData} (rest : Bytes) {m : Nat}
    (hs : s.content = [13]) (hm : 0 < m) :
    ∃ s' : Scratch, s'.content = rest.take (m - 1) ∧
      resume d ((10 :: rest).take m) (.chunkEnd s) = content s' d := by
  obtain ⟨m, rfl⟩ := Nat.exists_eq_succ_of_ne_zero (Nat.ne_of_gt hm)
  have hcontent : (s.extend (10 :: rest.take m)).content = crlf ++ rest.take m := by
    rw [Scratch.extend, hs]
    rfl
  have hlen : 2 ≤ (s.extend (10 :: rest.take m)).len := by
    rw [Scratch.len, hcontent, List.length_append]
    exact Nat.le_add_right 2 _
  refine ⟨(s.extend (10 :: rest.take m)).discard 2, ?_, ?_⟩
  · rw [Scratch.discard, hcontent]
    rfl
  · rw [List.take_succ_cons, resume, chunkCheck_of_two hlen,
      if_pos (hcontent ▸ List.prefix_append crlf _)]
    rfl

/-- The last call returns. -/
theorem Retrieval.step_done {d : HttpclientData} {stream : Bytes} {cut : Nat}
    (hbuf : d.responseBuf = r.body) (hmore : d.isMore = false) :
    Retrieval.step ⟨.call (.done successReturn d), stream, []⟩ cut =
      ⟨.ended true, stream, r.body⟩ := by
  rw [Retrieval.step]
  dsimp only
  rw [if_neg (by decide), hmore, hbuf]
  rfl

theorem Keeps.step {f : Retrieval} {cut : Nat} (h : Keeps r bufLen f) (hcut : 0 < cut) :
    Reaches r bufLen f.stream.length (f.step cut) := by
  cases h with
  | ended hroom hlines hlast hend =>
      rw [Retrieval.step_of_ended cut rfl]
      exact .keeps (.ended hroom hlines hlast hend)
  | @call status stream h =>
      cases h with
      | @size before cs s d _ hd hsplit hlen hshort =>
          rw [Retrieval.step_waiting]
          generalize hm : min cut ((Wait.chunkSize s).maxLen d) = m
          rw [Wait.maxLen] at hm
          have htake : (stream.take m).length ≤ m := List.length_take_le _ _
          have hlength := congrArg List.length hsplit
          rw [List.length_append, r.length_encode] at hlength
          have hcontent : s.content.length = s.len := rfl
          refine (content_outcome _ hd ?_ ?_ (by dsimp only; omega)).reaches
          · rw [Scratch.extend, List.append_assoc, List.take_append_drop]
            exact hsplit
          · rw [Scratch.len_extend]
            omega
      | @lineEnd before cs s d _ hd hs hsplit =>
          rw [hs] at hsplit
          obtain rfl : stream = 10 :: r.encode cs := (List.cons.inj hsplit).2
          rw [Retrieval.step_waiting]
          generalize hm : min cut ((Wait.chunkEnd s).maxLen d) = m
          rw [Wait.maxLen, Scratch.len, hs] at hm
          have hone : [(13 : UInt8)].length = 1 := rfl
          have hsize : httpclientChunkSize = 256 := rfl
          obtain ⟨s', hs', hresume⟩ := resume_chunkEnd (d := d) (r.encode cs) hs
            (show 0 < m by omega)
          obtain ⟨m, rfl⟩ := Nat.exists_eq_succ_of_ne_zero (show m ≠ 0 by omega)
          rw [Nat.succ_sub_one] at hs'
          have htake : ((r.encode cs).take m).length ≤ m := List.length_take_le _ _
          have hlength := r.length_encode cs
          rw [hresume, List.drop_succ_cons]
          refine (content_outcome _ hd ?_ ?_ ?_).reaches
          · rw [hs', List.take_append_drop]
          · rw [Scratch.len, hs']
            omega
          · rw [List.length_cons]
            omega
      | @done d _ hbuf hmore hroom hlines hlast hend =>
          rw [Retrieval.step_done hbuf hmore]
          exact .keeps (.ended hroom hlines hlast hend)

/-! ## Off the track -/

/-- A line end is no size. -/
theorem content_terminator (cs : List Chunk) {s : Scratch} {d : HttpclientData} {stream : Bytes}
    (hchunked : d.isChunked = true) (hretrieve : d.retrieveLen = 0)
    (hsplit : s.content ++ stream = crlf ++ r.encode cs) (hshort : s.len < httpclientChunkSize) :
    OffTrack r bufLen (content s d) stream := by
  rw [content, contentLoop, contentStart, if_pos ⟨hchunked, Int.le_of_eq hretrieve⟩]
  by_cases hlen : s.len < 3
  · rw [chunkHeader_waits [] rfl hsplit hlen hshort]
    exact .terminator hchunked hretrieve hsplit hlen
  · obtain ⟨hfound, _⟩ := strstrCrlf_scratch [] rfl hsplit (Nat.le_of_not_lt hlen)
    rw [chunkHeader]
    dsimp only
    rw [show s.terminate.content = s.content from rfl, Scratch.len_terminate, hfound]
    exact .failed errorHttpUnresolvedDns_neg

/-- The last byte of a chunk and the line end are no line end. -/
theorem resume_dangling {x : UInt8} {s : Scratch} {d : HttpclientData} {rest : Bytes} {m : Nat}
    (hs : s.content = [x]) (hm : 0 < m) :
    resume d ((13 :: rest).take m) (.chunkEnd s) = .done errorHttpUnresolvedDns d := by
  obtain ⟨m, rfl⟩ := Nat.exists_eq_succ_of_ne_zero (Nat.ne_of_gt hm)
  have hcontent : (s.extend (13 :: rest.take m)).content = x :: 13 :: rest.take m := by
    rw [Scratch.extend, hs]
    rfl
  have hlen : 2 ≤ (s.extend (13 :: rest.take m)).len := by
    rw [Scratch.len, hcontent]
    exact Nat.le_add_left 2 _
  have hcrlf : ¬ crlf <+: (s.extend (13 :: rest.take m)).content := by
    rw [hcontent]
    rintro ⟨t, ht⟩
    have hsecond : (10 : UInt8) = 13 := (List.cons.inj (List.cons.inj ht).2).1
    exact absurd hsecond (by decide)
  rw [List.take_succ_cons, resume, chunkCheck_of_two hlen, if_neg hcrlf]
  rfl

theorem retrieveContent_chunked {s : Scratch} {d : HttpclientData} (h : d.isChunked = true) :
    httpclientRetrieveContent s d = content s d.reopened := by
  rw [httpclientRetrieveContent]
  exact if_neg fun hplain => absurd (h.symm.trans hplain.2) (by decide)

/-- The main loop where a chunk has begun. -/
theorem content_inChunk {s : Scratch} {d : HttpclientData} {n : Nat} (hd : InChunk bufLen n d)
    (hn : 0 < n) : content s d = turn s n d (contentLoop s.len) := by
  have hsmall := hd.small
  have hstart : contentStart s d = .ok (s, n, d) := by
    rw [contentStart, hd.retrieveLen, if_neg (by omega), toUInt32_natCast (by omega)]
  rw [content, contentLoop, hstart]
  rfl

/-- The next call, where a chunk is not complete. -/
theorem httpclientRecvResponse_inChunk {d : HttpclientData} {n : Nat}
    (hd : InChunk bufLen n d.reopened) (hmore : d.isMore = true) :
    httpclientRecvResponse d = content Scratch.zeros d.reopened := by
  have hbound : 0 < d.responseBufLen := Nat.zero_lt_of_lt hd.bound
  have hchunked : d.isChunked = true := hd.chunked
  rw [httpclientRecvResponse, if_pos hmore, if_neg (Nat.ne_of_gt hbound),
    retrieveContent_chunked hchunked]

theorem Loses.step {f : Retrieval} {cut : Nat} (h : Loses r bufLen f) (hcut : 0 < cut) :
    Loses r bufLen (f.step cut) ∨ AtDecoy r f.stream.length (f.step cut).stream := by
  cases h with
  | ended => exact Or.inl .ended
  | @call status stream received h =>
      cases h with
      | @body before cs c b s d _ hchunks hsuffix hb hd hstream =>
          rw [Retrieval.step_waiting]
          generalize hm : min cut ((Wait.body s b.length).maxLen d) = m
          rw [Wait.maxLen] at hm
          have htake : (stream.take m).length ≤ m := List.length_take_le _ _
          have hlen := s.len_refill (stream.take m)
          have hroom := hd.room
          have hsplit : (s.refill (stream.take m)).content ++ stream.drop m =
              b ++ crlf ++ r.encode cs := by
            rw [Scratch.refill, List.take_append_drop, hstream]
          obtain hoff | ⟨_, hend, hdecoy⟩ := turn_cut content hchunks hsuffix hb hd hsplit
            (by omega) (by omega)
          · exact Or.inl (.call hoff)
          · refine Or.inr ⟨before, c, cs, hchunks, hend, ?_⟩
            have hhad : stream.length - (stream.drop m).length = b.length := by
              rw [hend, hstream, List.append_assoc, List.length_append, Nat.add_sub_cancel]
            dsimp only
            rw [hhad, ← List.suffix_iff_eq_drop.mp hsuffix]
            exact hdecoy
      | @full before cs c b d _ hchunks hsuffix hd hmore hstream =>
          have hstep : Retrieval.step ⟨.call (.done httpRetrieveMoreData d), stream, received⟩ cut =
              ⟨.call (content Scratch.zeros d.reopened), stream, received ++ d.responseBuf⟩ := by
            rw [Retrieval.step]
            dsimp only
            rw [if_neg (by decide), hmore, if_pos rfl, httpclientRecvResponse_inChunk hd hmore]
          rw [hstep]
          refine Or.inl (.call ?_)
          by_cases hb : b = []
          · subst hb
            exact content_terminator cs hd.chunked hd.retrieveLen hstream (by decide)
          · rw [content_inChunk hd (List.length_pos_of_ne_nil hb)]
            obtain hoff | ⟨hnil, _⟩ := turn_cut (s := Scratch.zeros)
              (contentLoop Scratch.zeros.len) hchunks hsuffix hb hd hstream (Nat.zero_le _)
              (Nat.zero_le _)
            · exact hoff
            · exact absurd hnil.symm hb
      | @terminator cs s d _ hchunked hretrieve hsplit hlen =>
          rw [Retrieval.step_waiting]
          generalize hm : min cut ((Wait.chunkSize s).maxLen d) = m
          rw [Wait.maxLen] at hm
          have htake : (stream.take m).length ≤ m := List.length_take_le _ _
          have hsize : httpclientChunkSize = 256 := rfl
          refine Or.inl (.call (content_terminator cs hchunked hretrieve ?_ ?_))
          · rw [Scratch.extend, List.append_assoc, List.take_append_drop]
            exact hsplit
          · rw [Scratch.len_extend]
            omega
      | @dangling cs x s d _ hs hstream =>
          rw [Retrieval.step_waiting]
          generalize hm : min cut ((Wait.chunkEnd s).maxLen d) = m
          rw [Wait.maxLen, Scratch.len, hs] at hm
          have hone : [x].length = 1 := rfl
          have hsize : httpclientChunkSize = 256 := rfl
          have hcons : stream = 13 :: 10 :: r.encode cs := hstream
          rw [hcons, resume_dangling hs (by omega)]
          exact Or.inl (.call (.failed errorHttpUnresolvedDns_neg))
      | @failed ret d _ hret =>
          have hstep : Retrieval.step ⟨.call (.done ret d), stream, received⟩ cut =
              ⟨.ended false, stream, received⟩ := by
            rw [Retrieval.step]
            dsimp only
            rw [if_pos hret]
          rw [hstep]
          exact Or.inl .ended

/-! ## Runs -/

section Run

variable {x : Delivery r}

theorem Delivery.start_reaches (hbuf : 2 ≤ bufLen) :
    Reaches r bufLen (x.unread bufLen 0) (x.run bufLen 0) := by
  have hcap : (chunkedData bufLen x.code).cap = bufLen - 1 :=
    if_neg (show bufLen ≠ 0 by omega)
  have hd : AtLine r bufLen [] r.chunks (chunkedData bufLen x.code).reopened := by
    refine ⟨rfl, nofun, rfl, rfl, rfl, rfl, ?_, rfl, ?_⟩
    · change (chunkedData bufLen x.code).cap < bufLen
      omega
    · change 0 < (chunkedData bufLen x.code).cap
      omega
  have hlength := r.length_encode r.chunks
  have houtcome := content_outcome r.bytes.length hd x.split x.short
    (by rw [ChunkedBody.bytes]; omega)
  rw [← retrieveContent_chunked rfl] at houtcome
  exact houtcome.reaches

/-- From step to step. -/
theorem Delivery.reaches (hbuf : 2 ≤ bufLen) {k : Nat}
    (h : ∀ i < k, Keeps r bufLen (x.run bufLen i)) :
    Reaches r bufLen (x.unread bufLen k) (x.run bufLen k) := by
  cases k with
  | zero => exact Delivery.start_reaches hbuf
  | succ k => exact (h k (Nat.lt_succ_self k)).step (x.cut_pos k)

/-! ## Clean runs -/

theorem Clean.keeps (h : Clean bufLen x) (hbuf : 2 ≤ bufLen) (k : Nat) :
    Keeps r bufLen (x.run bufLen k) := by
  induction k using Nat.strong_induction_on with
  | _ k ih =>
      cases Delivery.reaches hbuf ih with
      | keeps hkeeps => exact hkeeps
      | splits hsplits _ => exact absurd hsplits (h.whole k)
      | lost hroom _ => exact absurd h.room (Nat.not_lt.mpr hroom)

theorem ChunkedBody.afterLine_pos (r : ChunkedBody) (cs : List Chunk) :
    0 < (r.afterLine cs).length := by
  cases cs with
  | nil => exact Nat.lt_of_lt_of_le Nat.two_pos r.closed.length_le
  | cons c cs =>
      rw [afterLine, List.length_append, List.length_append]
      exact Nat.lt_of_lt_of_le (List.length_pos_of_ne_nil c.nonempty) (by omega)

theorem Clean.firstLine (h : Clean bufLen x) {before cs : List Chunk}
    (hchunks : r.chunks = before ++ cs) :
    (r.firstLine cs).bytes.length + 3 < httpclientChunkSize := by
  cases cs with
  | nil => exact h.last
  | cons c cs => exact h.lines c (hchunks ▸ List.mem_append_right before List.mem_cons_self)

/-- Every read that is waited for on the track brings something. -/
theorem Clean.reads (hx : Clean bufLen x) {f : Retrieval} {cut : Nat} (h : Keeps r bufLen f)
    (hcut : 0 < cut) {w : Wait} {d : HttpclientData} (hw : f.progress = .call (.waiting w d)) :
    (f.step cut).stream.length < f.stream.length := by
  cases h with
  | ended => cases hw
  | @call status stream h =>
      cases hw
      have hsize : httpclientChunkSize = 256 := rfl
      rw [Retrieval.step_waiting, List.length_drop]
      cases h with
      | @size before cs s _ _ hd hsplit hlen hshort =>
          have hline := hx.firstLine hd.chunks
          have hpos := r.afterLine_pos cs
          have hlength := congrArg List.length hsplit
          rw [List.length_append, r.length_encode] at hlength
          have hcontent : s.content.length = s.len := rfl
          rw [Wait.maxLen]
          exact Nat.sub_lt (by omega) (by omega)
      | @lineEnd before cs s _ _ hd hs hsplit =>
          rw [hs] at hsplit
          obtain rfl : stream = 10 :: r.encode cs := (List.cons.inj hsplit).2
          have hone : [(13 : UInt8)].length = 1 := rfl
          rw [Wait.maxLen, Scratch.len, hs]
          exact Nat.sub_lt (Nat.succ_pos _) (by omega)

theorem Keeps.of_not_waiting {f : Retrieval} (h : Keeps r bufLen f) (cut : Nat)
    (hw : ∀ w d, f.progress ≠ .call (.waiting w d)) :
    (f.step cut).progress = .ended true ∧ (f.step cut).received = r.body := by
  cases h with
  | ended => exact ⟨rfl, rfl⟩
  | @call status stream h =>
      cases h with
      | size => exact absurd rfl (hw _ _)
      | lineEnd => exact absurd rfl (hw _ _)
      | done hbuf hmore => rw [Retrieval.step_done hbuf hmore]; exact ⟨rfl, rfl⟩

theorem Clean.ends (h : Clean bufLen x) (hbuf : 2 ≤ bufLen) :
    ∃ k, (x.run bufLen k).progress = .ended true ∧ (x.run bufLen k).received = r.body := by
  by_contra hnever
  have hwaits : ∀ k, ∃ w d, (x.run bufLen k).progress = .call (.waiting w d) := by
    intro k
    by_contra hnot
    refine hnever ⟨k + 1, (h.keeps hbuf k).of_not_waiting (x.cut k) fun w d hw => hnot ⟨w, d, hw⟩⟩
  have hspent : ∀ k, (x.run bufLen k).stream.length + k ≤ (x.run bufLen 0).stream.length := by
    intro k
    induction k with
    | zero => exact Nat.le_refl _
    | succ k ih =>
        obtain ⟨w, d, hw⟩ := hwaits k
        have hless : (x.run bufLen (k + 1)).stream.length < (x.run bufLen k).stream.length :=
          h.reads (h.keeps hbuf k) (x.cut_pos k) hw
        omega
  have hlast := hspent ((x.run bufLen 0).stream.length + 1)
  omega

theorem Keeps.lossless {f : Retrieval} (h : Keeps r bufLen f) : r.Lossless f := by
  intro d hd
  cases h with
  | ended => cases hd
  | call h => cases hd; cases h

theorem Keeps.length_of_ended {f : Retrieval} (h : Keeps r bufLen f)
    (hend : f.progress = .ended true) : f.stream.length < (r.encode []).length := by
  cases h with
  | call h => cases hend
  | ended _ _ _ hlength => exact hlength

/-! ## Runs that decode -/

theorem Keeps.not_splits {f : Retrieval} (h : Keeps r bufLen f) :
    ¬ r.Splits r.chunks f.stream.length := by
  cases h with
  | call h => exact h.not_splits
  | @ended stream hroom hlines hlast hend =>
      have hnil : r.chunks = r.chunks ++ [] := (List.append_nil _).symm
      rw [hnil, ChunkedBody.splits_append (by dsimp only; omega)]
      exact id

theorem Loses.iter {k j : Nat} (hkj : k ≤ j) (hmisled : ¬ Misled bufLen x)
    (h : Loses r bufLen (x.run bufLen k)) : Loses r bufLen (x.run bufLen j) := by
  induction j, hkj using Nat.le_induction with
  | base => exact h
  | succ j _ ih =>
      obtain hloses | hdecoy := ih.step (x.cut_pos j)
      · exact hloses
      · exact absurd ⟨j + 1, hdecoy⟩ hmisled

theorem ended_run {k j : Nat} {ok : Bool} (hkj : k ≤ j)
    (h : (x.run bufLen k).progress = .ended ok) : (x.run bufLen j).progress = .ended ok := by
  have hfinal : ∀ (f : Retrieval) (cut : Nat), f.progress = .ended ok →
      (f.step cut).progress = .ended ok := by
    intro f cut hf
    rwa [Retrieval.step_of_ended cut hf]
  exact Schedule.iter_absorbing hfinal hkj h

theorem Loses.not_ended {f : Retrieval} (h : Loses r bufLen f) : f.progress ≠ .ended true := by
  intro hended
  cases h with
  | call h => cases hended
  | ended => cases hended

/-- A run that decodes is on the track in all its states. -/
theorem Decoded.keeps (h : Decoded bufLen x) (hbuf : 2 ≤ bufLen) (hlong : ¬ r.Overlong)
    (hmisled : ¬ Misled bufLen x) (k : Nat) : Keeps r bufLen (x.run bufLen k) := by
  induction k using Nat.strong_induction_on with
  | _ k ih =>
      have hstays : ¬ Loses r bufLen (x.run bufLen k) := by
        intro hloses
        obtain ⟨n, hend, _⟩ := h.ends
        by_cases hkn : k ≤ n
        · exact (hloses.iter hkn hmisled).not_ended hend
        · exact hloses.not_ended (ended_run (Nat.le_of_not_le hkn) hend)
      cases Delivery.reaches hbuf ih with
      | keeps hkeeps => exact hkeeps
      | splits _ hoff =>
          obtain hloses | hdecoy := hoff hlong
          · exact absurd hloses hstays
          · exact absurd ⟨k, hdecoy⟩ hmisled
      | lost _ hlost => exact absurd (h.lossless k) hlost

theorem Decoded.clean (h : Decoded bufLen x) (hbuf : 2 ≤ bufLen) (hlong : ¬ r.Overlong)
    (hmisled : ¬ Misled bufLen x) : Clean bufLen x := by
  have hkeeps := h.keeps hbuf hlong hmisled
  obtain ⟨n, hend, _⟩ := h.ends
  have hn := hkeeps n
  generalize x.run bufLen n = f at hn hend
  cases hn with
  | call h => cases hend
  | ended hroom hlines hlast _ => exact ⟨hlines, hlast, hroom, fun k => (hkeeps k).not_splits⟩

theorem Clean.decoded (h : Clean bufLen x) (hbuf : 2 ≤ bufLen) : Decoded bufLen x :=
  ⟨h.ends hbuf, fun k => (h.keeps hbuf k).lossless⟩

/-! ## Byte by byte -/

/-- Nothing has come with the header, and every read brings one byte. -/
def bytewise (r : ChunkedBody) : Delivery r where
  scratch := Scratch.zeros
  stream := r.bytes
  code := 200
  split := rfl
  short := by decide
  cut := fun _ => 1
  cut_pos := fun _ => Nat.one_pos

theorem Retrieval.length_step_one (f : Retrieval) :
    f.stream.length ≤ (f.step 1).stream.length + 1 := by
  obtain ⟨progress, stream, received⟩ := f
  cases progress with
  | ended ok => exact Nat.le_succ _
  | call status =>
      cases status with
      | undefined why => exact Nat.le_succ _
      | waiting w d =>
          rw [step_waiting, List.length_drop]
          dsimp only
          omega
      | done ret d =>
          rw [step]
          dsimp only
          split
          next => exact Nat.le_succ _
          next => exact Nat.le_succ _

/-- No byte is passed over. -/
theorem bytewise_passes {n k : Nat} (hn : n ≤ r.bytes.length)
    (hk : ((bytewise r).run bufLen k).stream.length ≤ n) :
    ∃ i, ((bytewise r).run bufLen i).stream.length = n := by
  induction k with
  | zero => exact ⟨0, Nat.le_antisymm hk hn⟩
  | succ k ih =>
      by_cases hbefore : ((bytewise r).run bufLen k).stream.length ≤ n
      · exact ih hbefore
      · have hone : ((bytewise r).run bufLen k).stream.length ≤
            ((bytewise r).run bufLen (k + 1)).stream.length + 1 := Retrieval.length_step_one _
        exact ⟨k + 1, by omega⟩

/-- A read of one byte brings no line end. -/
theorem bytewise_not_misled : ¬ Misled bufLen (bytewise r) := by
  rintro ⟨k, before, c, after, _, _, hdecoy⟩
  have hone : (bytewise r).unread bufLen k - ((bytewise r).run bufLen k).stream.length ≤ 1 := by
    cases k with
    | zero => 
        change r.bytes.length - r.bytes.length ≤ 1
        omega
    | succ k =>
        have hle := ((bytewise r).run bufLen k).length_step_one
        change ((bytewise r).run bufLen k).stream.length -
          (((bytewise r).run bufLen k).step 1).stream.length ≤ 1
        omega
  have htwo := hdecoy.length_le
  rw [List.length_drop] at htwo
  have hcrlf : crlf.length = 2 := rfl
  omega

theorem bytewise_not_clean (hbuf : 2 ≤ bufLen) (hne : r.chunks ≠ []) :
    ¬ Clean bufLen (bytewise r) := by
  intro h
  obtain ⟨c, cs, hcs⟩ := List.exists_cons_of_ne_nil hne
  have hdata : 0 < c.data.length := List.length_pos_of_ne_nil c.nonempty
  obtain ⟨k, hend, _⟩ := h.ends hbuf
  have hlow : ((bytewise r).run bufLen k).stream.length ≤ (r.encode cs).length + 2 := by
    have hle := r.encode_le cs []
    have hlast := (h.keeps hbuf k).length_of_ended hend
    rw [List.append_nil] at hle
    omega
  have hbytes : (r.encode cs).length + 2 ≤ r.bytes.length := by
    rw [ChunkedBody.bytes, hcs, ChunkedBody.length_encode_cons]
    omega
  obtain ⟨i, hi⟩ := bytewise_passes hbytes hlow
  refine h.whole i ?_
  rw [hi, hcs]
  exact Or.inl ⟨Nat.le_refl _, by omega⟩

/-- The calls decode what is delivered without a read that ends in a chunk, and nothing else
but a body that misleads them or has a chunk of 2 GiB.  A body that they decode however it is
delivered is empty. -/
theorem decoded_iff (r : ChunkedBody) (hbuf : 2 ≤ bufLen) :
    (∀ x : Delivery r, (Clean bufLen x → Decoded bufLen x) ∧
      (Decoded bufLen x → Clean bufLen x ∨ Misled bufLen x ∨ r.Overlong)) ∧
    (¬ r.Overlong → ((∀ x : Delivery r, Decoded bufLen x) ↔
      r.chunks = [] ∧ r.last.bytes.length + 3 < httpclientChunkSize)) := by
  have hdecoded : ∀ x : Delivery r, Decoded bufLen x →
      Clean bufLen x ∨ Misled bufLen x ∨ r.Overlong := by
    intro x h
    by_cases hmisled : Misled bufLen x
    · exact Or.inr (Or.inl hmisled)
    · by_cases hlong : r.Overlong
      · exact Or.inr (Or.inr hlong)
      · exact Or.inl (h.clean hbuf hlong hmisled)
  refine ⟨fun x => ⟨fun h => h.decoded hbuf, hdecoded x⟩, fun hlong => ⟨fun hall => ?_, ?_⟩⟩
  · have hclean : Clean bufLen (bytewise r) := by
      obtain h | h | h := hdecoded _ (hall (bytewise r))
      · exact h
      · exact absurd h bytewise_not_misled
      · exact absurd h hlong
    refine ⟨?_, hclean.last⟩
    by_contra hne
    exact bytewise_not_clean hbuf hne hclean
  · rintro ⟨hnil, hlast⟩ x
    refine Clean.decoded ⟨?_, hlast, ?_, fun k => ?_⟩ hbuf
    · rw [hnil]
      exact nofun
    · rw [ChunkedBody.body, hnil]
      exact hbuf
    · rw [hnil]
      exact id

end Run

/-! ## A short body -/

/-- A size of one digit, without an extension. -/
def digitLine (b : UInt8) (h : isDigit 16 b) : SizeLine where
  digits := [b]
  extension := []
  nonempty := by simp
  hex := by simpa using h
  separated := nofun
  oneLine := rfl

/-- The body `hello` in one chunk. -/
def helloChunk : ChunkedBody where
  chunks := [⟨digitLine 53 (by decide), ascii ['h', 'e', 'l', 'l', 'o'], by decide, by decide⟩]
  last := digitLine 48 (by decide)
  lastSize := by decide
  trailer := crlf
  closed := List.suffix_refl crlf

/-- One byte has come with the header, the rest with the first read. -/
def helloLater : Delivery helloChunk where
  scratch := ⟨helloChunk.bytes.take 1, []⟩
  stream := helloChunk.bytes.drop 1
  code := 200
  split := List.take_append_drop 1 _
  short := by decide
  cut := fun _ => 1500
  cut_pos := fun _ => by decide

/-- The first read ends with the chunk. -/
def helloCut : Delivery helloChunk where
  scratch := Scratch.zeros
  stream := helloChunk.bytes
  code := 200
  split := rfl
  short := by decide
  cut := fun _ => 8
  cut_pos := fun _ => by decide

theorem decoded_helloLater : Decoded 1500 helloLater := by
  refine ((decoded_iff helloChunk (show 2 ≤ 1500 by decide)).1 helloLater).1 ?_
  have hempty : ∀ k, (helloLater.run 1500 (k + 1)).stream = [] := by
    intro k
    induction k with
    | zero => decide
    | succ k ih => exact Retrieval.step_stream_nil ih
  refine ⟨by decide, by decide, by decide, fun k => ?_⟩
  cases k with
  | zero =>
      rintro (⟨_, hlt⟩ | hnone)
      · exact absurd hlt (by decide)
      · exact hnone
  | succ k =>
      rw [hempty k]
      rintro (⟨hpos, _⟩ | hnone)
      · exact absurd hpos (by decide)
      · exact hnone

/-- The bytes `he` of the chunk are taken for the line end behind it. -/
theorem not_decoded_helloCut : ¬ ∀ (r : ChunkedBody) (bufLen : Nat) (x : Delivery r),
    2 ≤ bufLen → Decoded bufLen x := by
  intro h
  obtain ⟨k, hend, _⟩ := (h helloChunk 1500 helloCut (by decide)).ends
  have hfailed : (helloCut.run 1500 2).progress = .ended false := by decide +kernel
  have hlate := ended_run (Nat.le_max_left 2 k) hfailed
  have hgood := ended_run (Nat.le_max_right 2 k) hend
  cases hlate.symm.trans hgood

end IotKit.Http
