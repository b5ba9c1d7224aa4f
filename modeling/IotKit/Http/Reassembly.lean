import IotKit.Http.Phase

/-!
# Reassembly of a body

Whether the calls that continue a response report its body depends on where the
transport cuts the stream at two places only: the first read must bring the whole
status line, and the read that brings the end of the header must not bring more of the
body than the response buffer has room for (`reassembled_iff`).  All other cuts give
the same body.
-/

namespace IotKit.Http

open CMemory

/-- The data behind a status line. -/
def parsedStatus (bufLen : Nat) (code : Int) : HttpclientData :=
  ⟨true, false, 0, unknownLength, bufLen, [], code⟩

/-- The status line is read, and the header lines are taken over and give the length of the
body. -/
def Response.Understood (r : Response) (bufLen : Nat) : Prop :=
  ∃ code, scanStatus r.statusLine = some code ∧ (-2 ^ 31 ≤ code ∧ code < 2 ^ 31) ∧
    Announced r.lines (parsedStatus bufLen code) r.body

/-- The data of a download that has begun. -/
def begunData (bufLen : Nat) : HttpclientData := ⟨true, false, 0, 0, bufLen, [], 0⟩

/-- A download behind a first read of `m` bytes. -/
def firstRead (bufLen : Nat) (r : Response) (m : Nat) : Fetch :=
  ⟨.call (httpclientResponseParse (Scratch.zeros.refill (r.bytes.take m)).terminate
    (begunData bufLen)) 0, r.bytes.drop m, []⟩

/-- The download of a response after `k` steps. -/
def fetchAt (cut : Nat → Nat) (bufLen : Nat) (r : Response) (k : Nat) : Fetch :=
  Schedule.iter Fetch.step cut (fetchStart bufLen r.bytes) k

theorem parsedStatus_headed (bufLen : Nat) (code : Int) :
    Headed bufLen (parsedStatus bufLen code) := ⟨rfl, rfl, .inl ⟨rfl, rfl⟩⟩

/-! ## The first read -/

theorem Status.doomed_unresolved (d : HttpclientData) :
    (Status.done errorHttpUnresolvedDns d).Doomed := .inl errorHttpUnresolvedDns_neg

section
variable {r : Response} {bufLen : Nat}

/-- What the first read has brought decides the phase. -/
theorem httpclientResponseParse_phase {s : Scratch} {stream : Bytes} (hbuf : 2 ≤ bufLen)
    (hlen : s.len < httpclientChunkSize) (hsplit : s.content ++ stream = r.bytes) :
    ∃ p, Phase r.body bufLen
      ⟨.call (httpclientResponseParse s (begunData bufLen)) 0, stream, []⟩ p ∧
        (p ↔ r.statusLine.length + 2 ≤ s.len ∧ r.Understood bufLen ∧
          r.body.length ≤ stream.length + (bufLen - 1)) := by
  have hsplit' : s.content ++ stream =
      r.statusLine ++ crlf ++ (headerBytes r.lines ++ r.body) := by
    rw [hsplit, Response.bytes, List.append_assoc]
  rw [httpclientResponseParse]
  by_cases hline : r.statusLine.length + 2 ≤ s.len
  · obtain ⟨hpos, htake, hrest⟩ := strstrCrlf_line r.statusOneLine r.statusNoNul hsplit' hline
    rw [hpos]
    dsimp only
    rw [htake]
    cases hscan : scanStatus r.statusLine with
    | none =>
        refine ⟨False, .doomed (Status.doomed_unresolved _), iff_of_false id ?_⟩
        rintro ⟨_, ⟨code, hcode, _⟩, _⟩
        cases hscan.symm.trans hcode
    | some code =>
        dsimp only
        by_cases hrange : -2 ^ 31 ≤ code ∧ code < 2 ^ 31
        · rw [if_pos hrange]
          have hlen' : (s.discardLine r.statusLine.length).terminate.len < httpclientChunkSize := by
            rw [Scratch.len_terminate, Scratch.len_discardLine]
            omega
          have hsplit'' : (s.discardLine r.statusLine.length).terminate.content ++ stream =
              headerBytes r.lines ++ r.body := by
            rw [Scratch.terminate, Scratch.content_discardLine, hrest]
          obtain ⟨p, hphase, hp⟩ :=
            (headers_outcome hlen' hsplit'').phase (parsedStatus_headed bufLen code) hbuf
          refine ⟨p, hphase, hp.trans ?_⟩
          constructor
          · rintro ⟨hannounced, hroom⟩
            exact ⟨hline, ⟨code, hscan, hrange, hannounced⟩, hroom⟩
          · rintro ⟨_, ⟨code', hcode', _, hannounced⟩, hroom⟩
            cases hscan.symm.trans hcode'
            exact ⟨hannounced, hroom⟩
        · rw [if_neg hrange]
          refine ⟨False, .doomed trivial, iff_of_false id ?_⟩
          rintro ⟨_, ⟨code', hcode', hrange', _⟩, _⟩
          cases hscan.symm.trans hcode'
          exact hrange hrange'
  · rw [strstrCrlf_cut r.statusOneLine hsplit' (Nat.lt_of_not_le hline)]
    exact ⟨False, .doomed (Status.doomed_unresolved _), iff_of_false id fun h => hline h.1⟩

theorem Response.two_lt_length (r : Response) : r.statusLine.length + 2 + r.body.length <
    r.bytes.length := by
  have hheader : 0 < (headerBytes r.lines).length := by
    cases r.lines with
    | nil => exact Nat.two_pos
    | cons line lines =>
        rw [headerBytes, List.length_append, List.length_append]
        exact Nat.lt_of_lt_of_le (List.length_pos_of_ne_nil line.nonempty) (by omega)
  have hcrlf : crlf.length = 2 := rfl
  rw [Response.bytes, List.length_append, List.length_append, List.length_append, hcrlf]
  omega

theorem firstRead_phase (hbuf : 2 ≤ bufLen) {m : Nat} (hm : m < httpclientChunkSize) :
    ∃ p, Phase r.body bufLen (firstRead bufLen r m) p ∧
      (p ↔ r.statusLine.length + 2 ≤ m ∧ r.Understood bufLen ∧
        Fits r.body bufLen (fetchStart bufLen r.bytes) (firstRead bufLen r m)) := by
  have hlength := r.two_lt_length
  have hlen : (Scratch.zeros.refill (r.bytes.take m)).terminate.len = min m r.bytes.length :=
    List.length_take
  have hshort : (Scratch.zeros.refill (r.bytes.take m)).terminate.len < httpclientChunkSize := by
    omega
  obtain ⟨p, hphase, hp⟩ :=
    httpclientResponseParse_phase hbuf hshort (List.take_append_drop m r.bytes)
  refine ⟨p, hphase, hp.trans (and_congr ?_ (and_congr_right fun _ => ?_))⟩
  · rw [hlen]
    omega
  · have hmore : r.body.length < r.bytes.length := by omega
    exact ⟨fun hroom _ => hroom, fun hfits => hfits hmore⟩

theorem fetchStart_eq (bufLen : Nat) (stream : Bytes) :
    fetchStart bufLen stream = ⟨.call (.waiting .first (begunData bufLen)) 0, stream, []⟩ := by
  have hretrieved : retrieved (freshData bufLen) = 0 := by
    change toInt32 ((0 : Nat) - 0) = 0
    decide
  rw [fetchStart, ofcFetch, hretrieved]
  simp [httpclientCommon, httpclientRecvResponse, freshData, begunData]

/-- The first step reads the status line, or a part of it. -/
theorem fetchStart_step (bufLen : Nat) (r : Response) {cut : Nat} (hcut : 0 < cut) :
    (fetchStart bufLen r.bytes).step cut =
      firstRead bufLen r (min cut (httpclientChunkSize - 1)) := by
  have hm : 0 < min cut (httpclientChunkSize - 1) := Nat.lt_min.mpr ⟨hcut, by decide⟩
  have hne : r.bytes.take (min cut (httpclientChunkSize - 1)) ≠ [] := by
    have hlen := r.two_lt_length
    intro hnil
    have hzero := congrArg List.length hnil
    rw [List.length_take, List.length_nil] at hzero
    omega
  rw [fetchStart_eq, Fetch.step_waiting, resume, Wait.maxLen, if_neg hne, firstRead]

theorem Fetch.Delivered.step {body : Bytes} {f : Fetch} (cut : Nat) (h : f.Delivered body) :
    (f.step cut).Delivered body := by
  rwa [Fetch.step_of_over cut h.1]

/-! ## Every way to cut the stream -/

/-- The calls report exactly the body, and the last of them succeeds, if and only if the first
read brings the whole status line, header and status line are understood, and no read
brings the end of the header with more of the body than the response buffer has room for. -/
theorem reassembled_iff (r : Response) (hbuf : 2 ≤ bufLen) {cut : Nat → Nat}
    (hcut : ∀ k, 0 < cut k) :
    (∃ k, (fetchAt cut bufLen r k).Delivered r.body) ↔
      r.statusLine.length + 2 ≤ min (cut 0) (httpclientChunkSize - 1) ∧ r.Understood bufLen ∧
        ∀ k, Fits r.body bufLen (fetchAt cut bufLen r k) (fetchAt cut bufLen r (k + 1)) := by
  have hfirst := fetchStart_step bufLen r (hcut 0)
  have hmax : min (cut 0) (httpclientChunkSize - 1) < httpclientChunkSize :=
    Nat.lt_of_le_of_lt (Nat.min_le_right _ _) (by decide)
  obtain ⟨p, hphase, hp⟩ := firstRead_phase (r := r) hbuf hmax
  have hshift : ∀ k, fetchAt cut bufLen r (k + 1) = Schedule.iter Fetch.step
      (fun i => cut (i + 1)) (firstRead bufLen r (min (cut 0) (httpclientChunkSize - 1))) k := by
    intro k
    rw [fetchAt, Schedule.iter_shift, hfirst]
  calc (∃ k, (fetchAt cut bufLen r k).Delivered r.body)
      ↔ ∃ k, (fetchAt cut bufLen r (k + 1)).Delivered r.body := by
        simp only [fetchAt, Schedule.iter_shift]
        exact Schedule.exists_iter_shift fun f n => Fetch.Delivered.step n
    _ ↔ p ∧ ∀ k, Fits r.body bufLen (fetchAt cut bufLen r (k + 1))
          (fetchAt cut bufLen r (k + 1 + 1)) := by
        simp only [hshift]
        exact hphase.delivered_iff hbuf fun k => hcut (k + 1)
    _ ↔ _ := by
        rw [hp, ← hfirst, and_assoc, and_assoc]
        refine and_congr_right fun _ => and_congr_right fun _ => ?_
        exact Nat.and_forall_add_one (p := fun k =>
          Fits r.body bufLen (fetchAt cut bufLen r k) (fetchAt cut bufLen r (k + 1)))

end

/-! ## A short response -/

/-- `Content-Length: 5`. -/
def fiveLine : HeaderLine where
  bytes := contentLengthKey ++ ascii [':', ' ', '5']
  nonempty := by decide
  oneLine := by decide
  noNul := by decide
  plain := by
    intro value h
    have hscan : scanHeader (contentLengthKey ++ ascii [':', ' ', '5']) =
        some (contentLengthKey, ascii ['5']) := by decide
    rw [hscan] at h
    have hkey : contentLengthKey = transferEncodingKey := congrArg Prod.fst (Option.some.inj h)
    exact absurd hkey (by decide)
  length := by
    intro value h
    have hscan : scanHeader (contentLengthKey ++ ascii [':', ' ', '5']) =
        some (contentLengthKey, ascii ['5']) := by decide
    rw [hscan] at h
    cases h
    exact ⟨5, [], by decide⟩

/-- A response with the body `hello`. -/
def helloResponse : Response where
  statusLine := ascii ['H', 'T', 'T', 'P', '/', '1', '.', '1', ' ', '2', '0', '0', ' ', 'O', 'K']
  statusOneLine := by decide
  statusNoNul := by decide
  lines := [fiveLine]
  body := ascii ['h', 'e', 'l', 'l', 'o']

/-- In one segment the response is taken in. -/
theorem reassembled_helloResponse :
    (fetchAt (fun _ => 20) 1500 helloResponse 1).stream ≠ [] ∧
      ∃ k, (fetchAt (fun _ => 20) 1500 helloResponse k).Delivered helloResponse.body := by
  refine ⟨by decide, (reassembled_iff helloResponse (by decide) fun _ => by decide).mpr
    ⟨by decide, ?_, ?_⟩⟩
  · exact ⟨200, by decide, by decide, ⟨true, false, 5, 5, 1500, [], 200⟩, by decide, rfl, by decide⟩
  · intro k
    match k with
    | 0 => exact fun _ => by decide
    | 1 => exact fun _ => by decide
    | 2 => exact fun _ => by decide
    | k + 3 =>
        have hempty : (fetchAt (fun _ => 20) 1500 helloResponse (k + 3)).stream = [] := by
          induction k with
          | zero => decide
          | succ k ih => exact Fetch.step_stream_nil ih
        intro hmore
        rw [hempty] at hmore
        exact absurd hmore (Nat.not_lt_zero _)

/-- A first segment of five bytes, `HTTP/`, is taken for a response without a line end, and
the download fails. -/
theorem not_reassembled_cutStatusLine :
    ¬ ∃ k, (fetchAt (fun _ => 5) 1500 helloResponse k).Delivered helloResponse.body := by
  rintro ⟨k, hdelivered⟩
  have hfailed : (fetchAt (fun _ => 5) 1500 helloResponse 2).stage = .ended false := by decide
  have hlate := over_iter (Nat.le_max_left 2 k) hfailed
  have hgood := over_iter (Nat.le_max_right 2 k) hdelivered.1
  cases hlate.symm.trans hgood

end IotKit.Http
