import IotKit.Http.Body
import IotKit.Http.Fetch
import IotKit.Lib.Schedule
import Mathlib.Data.List.TakeDrop

/-!
# The phases of a download

A response with a body is cut into reads in any way, and the calls that continue it
report pieces of the body.  `Phase` follows a download from the header on and carries
the proposition that it still can succeed: while the header is read, that the lines are
taken over and give the length of the body; later, that what has been reported, what is
copied and what is to come are the body.  A step changes that proposition at one place,
the read that brings the end of the header: it may bring no more of the body than the
response buffer has room for.
-/

namespace IotKit.Http

open CMemory

/-- The header lines are taken over and give the length of the body. -/
def Announced (lines : List HeaderLine) (d : HttpclientData) (body : Bytes) : Prop :=
  ∃ d', acceptHeaders lines d = some d' ∧ d'.responseContentLen = body.length ∧
    body.length < 2 ^ 31

/-- The last call did not fail, and the calls have reported the body. -/
def Fetch.Delivered (body : Bytes) (f : Fetch) : Prop := f.stage = .ended true ∧ f.reported = body

/-! ## Where a download stands -/

/-- The call cannot succeed any more: it has failed, or it takes the body to end with the
connection, so that its length stays unknown. -/
def Status.Doomed : Status → Prop
  | .waiting (.noLength _) d => d.responseContentLen = unknownLength ∧ d.retrieveLen = 0
  | .waiting _ _ => False
  | .done ret d => ret < 0 ∨ (d.responseContentLen = unknownLength ∧ d.retrieveLen = 0)
  | .undefined _ => True

/-- A download of a response with the body, and whether it can succeed. -/
inductive Phase (body : Bytes) (bufLen : Nat) : Fetch → Prop → Prop where
  /-- The header is being read. -/
  | header {lines : List HeaderLine} {s : Scratch} {d : HttpclientData} {stream : Bytes}
      (hd : Headed bufLen d) (hsplit : s.content ++ stream = headerBytes lines ++ body)
      (hlen : s.len < httpclientChunkSize - 1) (hmore : body.length < stream.length) :
      Phase body bufLen ⟨.call (.waiting (.header s) d) 0, stream, []⟩ (Announced lines d body)
  /-- The body is being read: `r` bytes of `M` are left. -/
  | body {s : Scratch} {d : HttpclientData} {stream reported : Bytes} {M r : Nat}
      (hd : Retrieving d M r) (hbuf : d.responseBufLen = bufLen) (hmore : d.isMore = true)
      (hr : 0 < r) (hcount : d.count < d.cap) (htotal : reported.length + d.count + r = M)
      (hbound : reported.length + d.count + stream.length ≤ body.length) :
      Phase body bufLen ⟨.call (.waiting (.body s r) d) reported.length, stream, reported⟩
        (M = body.length ∧ reported ++ d.responseBuf ++ stream = body)
  /-- A call has returned. -/
  | done {ret : Int} {d : HttpclientData} {stream reported : Bytes} {M r : Nat}
      (hd : Retrieving d M r) (hbuf : d.responseBufLen = bufLen) (hret : 0 ≤ ret)
      (hend : d.isMore = false → r = 0) (htotal : reported.length + d.count + r = M)
      (hbound : reported.length + d.count + stream.length ≤ body.length) :
      Phase body bufLen ⟨.call (.done ret d) reported.length, stream, reported⟩
        (M = body.length ∧ reported ++ d.responseBuf ++ stream = body)
  /-- The first call is doomed. -/
  | doomed {status : Status} {stream : Bytes} (h : status.Doomed) :
      Phase body bufLen ⟨.call status 0, stream, []⟩ False
  /-- The download is over. -/
  | ended {ok : Bool} {stream reported : Bytes} :
      Phase body bufLen ⟨.ended ok, stream, reported⟩ (ok = true ∧ reported = body)

/-- The step brings the end of the header only with a part of the body that the response
buffer has room for. -/
def Fits (body : Bytes) (bufLen : Nat) (f f' : Fetch) : Prop :=
  body.length < f.stream.length → body.length ≤ f'.stream.length + (bufLen - 1)

section
variable {body : Bytes} {bufLen : Nat}

theorem cap_of_bufLen {d : HttpclientData} (hbuf : d.responseBufLen = bufLen) (h : 2 ≤ bufLen) :
    d.cap = bufLen - 1 := by
  rw [HttpclientData.cap, hbuf, if_neg (by omega)]

/-! ## Entering the body -/

theorem plainBody_phase {s : Scratch} {d : HttpclientData} {stream reported : Bytes} {M r : Nat}
    (hd : Retrieving d M r) (hbuf : d.responseBufLen = bufLen) (hmore : d.isMore = true)
    (htotal : reported.length + d.count + r = M)
    (hbound : reported.length + d.count + s.len + stream.length ≤ body.length) :
    Phase body bufLen ⟨.call (plainBody s r d) reported.length, stream, reported⟩
      (M = body.length ∧
        reported ++ (d.responseBuf ++ s.content.take (min r (d.cap - d.count))) ++ stream =
          body) := by
  have hle := hd.le
  have hroom := hd.room
  rw [plainBody]
  split
  next hlt =>
    split
    next hless =>
      have htake : s.content.take (min r (d.cap - d.count)) = s.content := by
        refine List.take_of_length_le ?_
        rw [Scratch.len] at hlt hless
        omega
      have hlen : s.content.length = s.len := rfl
      have hcount := d.count_copied s.content (r - s.len)
      rw [htake]
      refine .body (hd.copied (by omega) (by omega)) hbuf hmore (by omega) ?_ ?_ ?_
      · change (d.copied _ _).count < d.cap
        omega
      · omega
      · omega
    next hless =>
      have hmin : min r (d.cap - d.count) = r := by omega
      have hlen : (s.content.take r).length = r := by
        rw [List.length_take]
        rw [Scratch.len] at hless
        omega
      have hcount := d.count_copied (s.content.take r) 0
      have hd' : Retrieving (d.copied (s.content.take r) 0) M 0 :=
        hd.copied (by omega) (Nat.zero_le _)
      rw [hmin]
      refine .done hd'.closed hbuf (Int.le_refl _) (fun _ => rfl) ?_ ?_
      · change reported.length + (d.copied _ 0).count + 0 = M
        omega
      · change reported.length + (d.copied _ 0).count + stream.length ≤ body.length
        omega
  next hfull =>
    have hmin : min r (d.cap - d.count) = d.cap - d.count := by omega
    have hlen : (s.content.take (d.cap - d.count)).length = d.cap - d.count := by
      rw [List.length_take]
      rw [Scratch.len] at hfull
      omega
    have hcount := d.count_copied (s.content.take (d.cap - d.count)) (r - (d.cap - d.count))
    rw [hmin]
    refine .done (hd.copied (by omega) (by omega)) hbuf (by decide) ?_ ?_ ?_
    · intro hless
      exact absurd (hmore.symm.trans hless) (by decide)
    · omega
    · omega

theorem Status.Failed.doomed {status : Status} (h : status.Failed) : status.Doomed := by
  cases status with
  | waiting w d => exact absurd h id
  | done ret d => exact .inl h
  | undefined why => trivial

theorem take_append_eq_iff {content stream : Bytes} {k : Nat} (hsplit : content ++ stream = body) :
    content.take k ++ stream = body ↔ content.length ≤ k := by
  rw [← hsplit, List.append_left_inj, List.take_eq_self_iff]

/-- A response without a length is doomed. -/
theorem noLengthPass_doomed {s : Scratch} {d : HttpclientData}
    (h : d.responseContentLen = unknownLength ∧ d.retrieveLen = 0) : (noLengthPass s d).Doomed := by
  rw [noLengthPass]
  split
  · rw [store]
    split
    · exact h
    · trivial
  · rw [store]
    split
    · exact .inr h
    · trivial

theorem retrieveContent_phase {s : Scratch} {d : HttpclientData} {stream : Bytes}
    (hd : Headed bufLen d) (hbuf : 2 ≤ bufLen) (hsplit : s.content ++ stream = body) :
    ∃ p, Phase body bufLen ⟨.call (httpclientRetrieveContent s d) 0, stream, []⟩ p ∧
      (p ↔ Announced [] d body ∧ body.length ≤ stream.length + (bufLen - 1)) := by
  have hcap := cap_of_bufLen hd.bufLen hbuf
  have hbufLen := hd.bufLen
  cases hd.lengths with
  | inl hunknown =>
      refine ⟨False, .doomed ?_, (iff_of_false id ?_)⟩
      · rw [httpclientRetrieveContent]
        dsimp only
        rw [if_pos ⟨hunknown.1, hd.chunked⟩]
        exact noLengthPass_doomed hunknown
      · rintro ⟨⟨d', haccept, hlen, hsmall⟩, _⟩
        cases haccept
        rw [hunknown.1, unknownLength] at hlen
        omega
  | inr hknown =>
      obtain ⟨hsmall, hretrieve⟩ := hknown
      have hd' : Retrieving d.reopened d.responseContentLen d.responseContentLen := by
        refine ⟨hd.chunked, rfl, hsmall, hretrieve, Nat.le_refl _, Nat.zero_le _, ?_⟩
        change d.cap < d.responseBufLen
        omega
      have hlength := congrArg List.length hsplit
      rw [List.length_append] at hlength
      have hlen : s.content.length = s.len := rfl
      have hcap' : d.reopened.cap = bufLen - 1 := hcap
      have hcount : d.reopened.count = 0 := rfl
      have hnil : ([] : Bytes).length = 0 := rfl
      have hphase : Phase body bufLen ⟨.call (plainBody s d.responseContentLen d.reopened)
          ([] : Bytes).length, stream, []⟩ _ :=
        plainBody_phase hd' hd.bufLen rfl (by omega) (by omega)
      rw [retrieveContent_plain hd']
      refine ⟨_, hphase, ?_⟩
      rw [HttpclientData.reopened, List.nil_append, List.nil_append, take_append_eq_iff hsplit,
        ← HttpclientData.reopened, hcap', hcount]
      constructor
      · rintro ⟨hM, hroom⟩
        exact ⟨⟨d, rfl, hM, by omega⟩, by omega⟩
      · rintro ⟨⟨d', haccept, hM, _⟩, hroom⟩
        cases haccept
        exact ⟨hM, by omega⟩

/-- What the header loop makes of the lines decides what is left to ask. -/
theorem HeaderOutcome.phase {stream : Bytes} {lines : List HeaderLine} {d : HttpclientData}
    {status : Status} (h : HeaderOutcome stream body lines d status) (hd : Headed bufLen d)
    (hbuf : 2 ≤ bufLen) :
    ∃ p, Phase body bufLen ⟨.call status 0, stream, []⟩ p ∧
      (p ↔ Announced lines d body ∧ body.length ≤ stream.length + (bufLen - 1)) := by
  induction h with
  | waits hsplit hlen hmore =>
      refine ⟨_, .header hd hsplit hlen hmore, ?_⟩
      exact (and_iff_left (by omega)).symm
  | ends hsplit => exact retrieveContent_phase hd hbuf hsplit
  | fails hline hfailed =>
      refine ⟨False, .doomed hfailed.doomed, iff_of_false id ?_⟩
      rintro ⟨⟨d', haccept, _⟩, _⟩
      rw [acceptHeaders, hline] at haccept
      cases haccept
  | accepts hline _ ih =>
      obtain ⟨p, hphase, hp⟩ := ih (hd.acceptLine hline)
      refine ⟨p, hphase, ?_⟩
      rw [hp, Announced, Announced, acceptHeaders, hline]

/-! ## Steps -/

theorem body_step {s : Scratch} {d : HttpclientData} {stream reported : Bytes} {M r cut : Nat}
    (hd : Retrieving d M r) (hbuf : d.responseBufLen = bufLen) (hmore : d.isMore = true)
    (hcut : 0 < cut) (htotal : reported.length + d.count + r = M)
    (hbound : reported.length + d.count + stream.length ≤ body.length) :
    Phase body bufLen
      (Fetch.step ⟨.call (.waiting (.body s r) d) reported.length, stream, reported⟩ cut)
      (M = body.length ∧ reported ++ d.responseBuf ++ stream = body) := by
  rw [Fetch.step_waiting]
  generalize hm : min cut ((Wait.body s r).maxLen d) = m
  have hmax : m ≤ min r (d.cap - d.count) := by
    rw [← hm, Wait.maxLen]
    omega
  have htake : (stream.take m).length ≤ m := List.length_take_le _ _
  have hlen := s.len_refill (stream.take m)
  have hsum : (stream.take m).length + (stream.drop m).length = stream.length := by
    rw [← List.length_append, List.take_append_drop]
  have hbound' : reported.length + d.count + (s.refill (stream.take m)).len +
      (stream.drop m).length ≤ body.length := by
    omega
  have hphase := plainBody_phase hd hbuf hmore htotal hbound'
  have hall : (stream.take m).take (min r (d.cap - d.count)) = stream.take m :=
    List.take_of_length_le (by omega)
  rw [Scratch.refill, hall, List.append_assoc, List.append_assoc, List.take_append_drop,
    ← List.append_assoc] at hphase
  rw [resume, body_plain hd]
  exact hphase

/-- What a call reports is what it has copied. -/
theorem report_eq {d : HttpclientData} {reported : Bytes} {M r : Nat} (hd : Retrieving d M r)
    (htotal : reported.length + d.count + r = M) :
    toInt32 (d.responseContentLen - d.retrieveLen - reported.length) = d.count := by
  have hsmall := hd.small
  rw [hd.contentLen, hd.retrieveLen, toInt32_of_lt (by omega) (by omega)]
  omega

theorem retrieved_eq {d : HttpclientData} {reported : Bytes} {M r : Nat} (hd : Retrieving d M r)
    (htotal : reported.length + d.count + r = M) :
    retrieved d = (reported ++ d.responseBuf).length := by
  have hsmall := hd.small
  have hcount : d.responseBuf.length = d.count := rfl
  rw [retrieved, hd.contentLen, hd.retrieveLen, toInt32_of_lt (by omega) (by omega),
    List.length_append]
  omega

/-- The call that continues a response. -/
theorem ofcFetch_plain {d : HttpclientData} {M r : Nat} (hd : Retrieving d M r)
    (hmore : d.isMore = true) :
    httpclientCommon true 0 0 false d = plainBody Scratch.zeros r d.reopened := by
  have hlen : d.responseBufLen ≠ 0 := Nat.ne_of_gt (Nat.zero_lt_of_lt hd.bound)
  rw [httpclientCommon, httpclientRecvResponse, hmore, retrieveContent_plain hd.reopened]
  simp [hlen]

theorem returned_plain {ret : Int} {d : HttpclientData} {stage : Stage}
    {stream reported : Bytes} {M r : Nat} (hd : Retrieving d M r) (hret : 0 ≤ ret)
    (htotal : reported.length + d.count + r = M) :
    Fetch.returned ret d reported.length ⟨stage, stream, reported⟩ =
      ⟨if d.isMore then ofcFetch true d else .ended true, stream, reported ++ d.responseBuf⟩ := by
  rw [Fetch.returned]
  dsimp only
  rw [report_eq hd htotal, if_neg (by omega), Int.toNat_natCast, HttpclientData.count,
    List.take_length]

theorem done_step {ret : Int} {d : HttpclientData} {stream reported : Bytes} {M r : Nat}
    (cut : Nat) (hd : Retrieving d M r) (hbuf : d.responseBufLen = bufLen) (hret : 0 ≤ ret)
    (hend : d.isMore = false → r = 0) (htotal : reported.length + d.count + r = M)
    (hbound : reported.length + d.count + stream.length ≤ body.length) :
    ∃ p, Phase body bufLen
      (Fetch.step ⟨.call (.done ret d) reported.length, stream, reported⟩ cut) p ∧
        (p ↔ M = body.length ∧ reported ++ d.responseBuf ++ stream = body) := by
  have hlen : (reported ++ d.responseBuf).length = reported.length + d.count := List.length_append
  rw [Fetch.step_done, returned_plain hd hret htotal]
  cases hmore : d.isMore with
  | true =>
      have hcount : d.reopened.count = 0 := rfl
      have hzero := Scratch.len_zeros
      rw [if_pos rfl, ofcFetch, ofcFetch_plain hd hmore, retrieved_eq hd htotal]
      refine ⟨_, plainBody_phase hd.reopened hbuf rfl (by omega) (by omega), ?_⟩
      rw [HttpclientData.reopened, Scratch.zeros, List.take_nil, List.append_nil, List.append_nil]
  | false =>
      refine ⟨_, .ended, ?_⟩
      have hr := hend hmore
      rw [eq_self_iff_true, true_and]
      constructor
      · intro hbody
        have hlength := congrArg List.length hbody
        have hnil : stream = [] := List.eq_nil_of_length_eq_zero (by omega)
        rw [hnil, List.append_nil]
        exact ⟨by omega, hbody⟩
      · rintro ⟨hM, hbody⟩
        have hnil : stream = [] := List.eq_nil_of_length_eq_zero (by omega)
        rwa [hnil, List.append_nil] at hbody

theorem doomed_step {status : Status} {stream : Bytes} (cut : Nat) (h : status.Doomed) :
    ∃ p, Phase body bufLen (Fetch.step ⟨.call status 0, stream, []⟩ cut) p ∧ ¬ p := by
  cases status with
  | waiting w d =>
      cases w with
      | noLength s =>
          rw [Fetch.step_waiting]
          refine ⟨False, .doomed ?_, id⟩
          rw [resume]
          split
          · exact .inr h
          · exact noLengthPass_doomed h
      | first => exact absurd h id
      | header s => exact absurd h id
      | chunkSize s => exact absurd h id
      | body s readLen => exact absurd h id
      | chunkEnd s => exact absurd h id
  | undefined why => exact ⟨_, .ended, by simp⟩
  | done ret d =>
      have hfail : ret < 0 ∨ toInt32 (d.responseContentLen - d.retrieveLen - 0) < 0 := by
        refine h.imp id ?_
        rintro ⟨hunknown, hretrieve⟩
        rw [hunknown, hretrieve]
        decide
      rw [Fetch.step_done, Fetch.returned]
      dsimp only
      rw [if_pos hfail]
      exact ⟨_, .ended, by simp⟩

/-- A step keeps what the download can still achieve, unless it brings the end of the header
with too much of the body. -/
theorem Phase.step {f : Fetch} {p : Prop} (h : Phase body bufLen f p) (hbuf : 2 ≤ bufLen)
    {cut : Nat} (hcut : 0 < cut) :
    ∃ p', Phase body bufLen (f.step cut) p' ∧ (p' ↔ p ∧ Fits body bufLen f (f.step cut)) := by
  have hfits : ∀ {f' : Fetch}, f.stream.length ≤ body.length → Fits body bufLen f f' :=
    fun hle hlt => absurd hlt (Nat.not_lt_of_le hle)
  cases h with
  | @header lines s d stream hd hsplit hlen hmore =>
      rw [Fetch.step_waiting]
      generalize hm : min cut ((Wait.header s).maxLen d) = m
      have hmax : m ≤ httpclientChunkSize - s.len - 1 := by
        rw [← hm]
        exact Nat.min_le_right _ _
      have htake : (stream.take m).length ≤ m := List.length_take_le _ _
      have hlen' : (s.extend (stream.take m)).terminate.len < httpclientChunkSize := by
        rw [Scratch.len_terminate, Scratch.len_extend]
        omega
      have hsplit' : (s.extend (stream.take m)).terminate.content ++ stream.drop m =
          headerBytes lines ++ body := by
        rw [Scratch.terminate, Scratch.extend, List.append_assoc, List.take_append_drop, hsplit]
      obtain ⟨p', hphase, hp'⟩ := (headers_outcome hlen' hsplit').phase hd hbuf
      refine ⟨p', hphase, hp'.trans (and_congr_right fun _ => ?_)⟩
      exact ⟨fun hroom _ => hroom, fun hfit => hfit hmore⟩
  | body hd hbufLen hmore hr hcount htotal hbound =>
      refine ⟨_, body_step hd hbufLen hmore hcut htotal hbound, ?_⟩
      exact (and_iff_left (hfits (by dsimp only; omega))).symm
  | done hd hbufLen hret hend htotal hbound =>
      obtain ⟨p', hphase, hp'⟩ := done_step cut hd hbufLen hret hend htotal hbound
      refine ⟨p', hphase, hp'.trans ?_⟩
      exact (and_iff_left (hfits (by dsimp only; omega))).symm
  | doomed hdoomed =>
      obtain ⟨p', hphase, hp'⟩ := doomed_step cut hdoomed
      exact ⟨p', hphase, iff_of_false hp' fun hp => hp.1⟩
  | ended =>
      refine ⟨_, .ended, (and_iff_left fun _ => ?_).symm⟩
      exact Nat.le_add_right_of_le (Nat.le_of_lt ‹_›)

/-! ## Progress -/

/-- What a download that can succeed still has to do. -/
def Fetch.weight (f : Fetch) : Nat :=
  3 * f.stream.length +
    match f.stage with
    | .call (.done _ d) _ => if d.isMore then 2 else 1
    | _ => 0

theorem Fetch.weight_le (f : Fetch) : f.weight ≤ 3 * f.stream.length + 2 := by
  rw [Fetch.weight]
  split
  · split
    · omega
    · omega
  · omega

/-- A step of a download that can succeed and is not over brings it nearer to its end. -/
theorem Phase.step_weight {f : Fetch} {p : Prop} (h : Phase body bufLen f p) (hp : p)
    (hbuf : 2 ≤ bufLen) {cut : Nat} (hcut : 0 < cut) (hover : ∀ ok, f.stage ≠ .ended ok) :
    (f.step cut).weight < f.weight := by
  cases h with
  | @header lines s d stream hd hsplit hlen hmore =>
      rw [Fetch.step_waiting]
      refine Nat.lt_of_le_of_lt (Fetch.weight_le _) ?_
      rw [Fetch.weight, Wait.maxLen]
      dsimp only
      rw [List.length_drop]
      omega
  | @body s d stream reported M r hd hbufLen hmore hr hcount htotal hbound =>
      have hlength := congrArg List.length hp.2
      simp only [List.length_append] at hlength
      have hdcount : d.responseBuf.length = d.count := rfl
      rw [Fetch.step_waiting]
      refine Nat.lt_of_le_of_lt (Fetch.weight_le _) ?_
      rw [Fetch.weight, Wait.maxLen, httpclientChunkSize]
      dsimp only
      rw [List.length_drop]
      omega
  | @done ret d stream reported M r hd hbufLen hret hend htotal hbound =>
      rw [Fetch.step_done, returned_plain hd hret htotal, Fetch.weight, Fetch.weight]
      dsimp only
      cases hmore : d.isMore with
      | true =>
          have hroom : d.reopened.count + min Scratch.zeros.len r < d.reopened.cap := by
            change 0 + min 0 r < d.cap
            rw [cap_of_bufLen hbufLen hbuf]
            omega
          rw [if_pos rfl, if_pos rfl, ofcFetch, ofcFetch_plain hd hmore, plainBody, if_pos hroom]
          by_cases hless : Scratch.zeros.len < r
          · rw [if_pos hless]
            exact Nat.lt_add_of_pos_right Nat.two_pos
          · rw [if_neg hless]
            exact Nat.lt_succ_self _
      | false => exact Nat.lt_succ_self _
  | doomed => exact absurd hp id
  | ended => exact absurd rfl (hover _)

/-! ## Whole downloads -/

variable {f : Fetch} {p : Prop} {cut : Nat → Nat}

/-- The run of a download is followed by its phases. -/
theorem Phase.iter (h : Phase body bufLen f p) (hbuf : 2 ≤ bufLen) (hcut : ∀ k, 0 < cut k)
    (k : Nat) :
    ∃ p', Phase body bufLen (Schedule.iter Fetch.step cut f k) p' ∧
      (p' ↔ p ∧ ∀ i, i < k → Fits body bufLen (Schedule.iter Fetch.step cut f i)
        (Schedule.iter Fetch.step cut f (i + 1))) := by
  induction k with
  | zero => exact ⟨p, h, (and_iff_left nofun).symm⟩
  | succ k ih =>
      obtain ⟨p', hphase, hp'⟩ := ih
      obtain ⟨p'', hphase', hp''⟩ := hphase.step hbuf (hcut k)
      refine ⟨p'', hphase', ?_⟩
      rw [hp'', hp', and_assoc, Nat.forall_lt_succ_right]
      rfl

/-- A download that is over stays so. -/
theorem over_iter {ok : Bool} {k i : Nat} (hki : k ≤ i)
    (hover : (Schedule.iter Fetch.step cut f k).stage = .ended ok) :
    (Schedule.iter Fetch.step cut f i).stage = .ended ok := by
  have hstep : ∀ (f : Fetch) (n : Nat), f.stage = .ended ok → (f.step n).stage = .ended ok := by
    intro f n hf
    rwa [Fetch.step_of_over n hf]
  exact Schedule.iter_absorbing hstep hki hover

/-- A download that can succeed, and goes on to, comes to its end. -/
theorem Phase.exists_over (h : Phase body bufLen f p) (hbuf : 2 ≤ bufLen) (hcut : ∀ k, 0 < cut k)
    (hp : p) (hfits : ∀ k, Fits body bufLen (Schedule.iter Fetch.step cut f k)
      (Schedule.iter Fetch.step cut f (k + 1))) (k : Nat) :
    ∃ n ok, (Schedule.iter Fetch.step cut f n).stage = .ended ok := by
  -- on what the state after `k` steps still has to do
  induction hw : (Schedule.iter Fetch.step cut f k).weight using Nat.strong_induction_on
    generalizing k with
  | _ w ih =>
      subst hw
      by_cases hover : ∃ ok, (Schedule.iter Fetch.step cut f k).stage = .ended ok
      · exact ⟨k, hover⟩
      · obtain ⟨p', hphase, hp'⟩ := h.iter hbuf hcut k
        have hcan : p' := hp'.mpr ⟨hp, fun i _ => hfits i⟩
        have hless := hphase.step_weight hcan hbuf (hcut k) fun ok hok => hover ⟨ok, hok⟩
        exact ih _ hless (k + 1) rfl

/-- A download delivers the body exactly when it can, and no step brings too much of it with
the end of the header. -/
theorem Phase.delivered_iff (h : Phase body bufLen f p) (hbuf : 2 ≤ bufLen)
    (hcut : ∀ k, 0 < cut k) :
    (∃ k, (Schedule.iter Fetch.step cut f k).Delivered body) ↔
      p ∧ ∀ k, Fits body bufLen (Schedule.iter Fetch.step cut f k)
        (Schedule.iter Fetch.step cut f (k + 1)) := by
  constructor
  · rintro ⟨k, hover, hbody⟩
    obtain ⟨p', hphase, hp'⟩ := h.iter hbuf hcut k
    have hcan : p' := by
      generalize Schedule.iter Fetch.step cut f k = g at hphase hover hbody
      cases hphase with
      | ended => exact ⟨by injection hover, hbody⟩
      | header => cases hover
      | body => cases hover
      | done => cases hover
      | doomed => cases hover
    obtain ⟨hp, hfits⟩ := hp'.mp hcan
    refine ⟨hp, fun i => ?_⟩
    by_cases hik : i < k
    · exact hfits i hik
    · rw [Schedule.iter_succ, Fetch.step_of_over _ (over_iter (Nat.le_of_not_lt hik) hover)]
      exact fun hlt => Nat.le_add_right_of_le (Nat.le_of_lt hlt)
  · rintro ⟨hp, hfits⟩
    obtain ⟨k, ok, hover⟩ := h.exists_over hbuf hcut hp hfits 0
    obtain ⟨p', hphase, hp'⟩ := h.iter hbuf hcut k
    have hcan : p' := hp'.mpr ⟨hp, fun i _ => hfits i⟩
    refine ⟨k, ?_⟩
    generalize Schedule.iter Fetch.step cut f k = g at hphase hover
    cases hphase with
    | ended =>
        obtain ⟨rfl, hbody⟩ := hcan
        exact ⟨rfl, hbody⟩
    | header => cases hover
    | body => cases hover
    | done => cases hover
    | doomed => cases hover

end

end IotKit.Http
