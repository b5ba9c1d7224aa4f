import IotKit.Http.Client
import IotKit.Lib.Run

/-!
# Requests and responses

Every call of `httpclient_common` sends a request, also one that continues a response,
and a call that fails leaves `is_more` set, so that the next one takes the header of a
new response for the body of the old.  A run pairs requests with responses exactly where
no call that finds `is_more` set gets its request out (`paired_iff`).
-/

namespace IotKit.Http

open CMemory Runs

/-- How `httpclient_send_request` goes for a `GET`: it fails before it writes, or `net.write`
returns a number. -/
inductive Sending where
  | refused (rc : Int) (h : rc ≠ 0)
  | write (n : Int)
deriving DecidableEq

/-- `httpclient_send_request`. -/
def httpclientSendRequest : Sending → Int
  | .refused rc _ => rc
  | .write n => if 0 < n then successReturn else if n = 0 then errorHttpClosed else errorHttpConn

/-- The request has been written. -/
def Sending.written : Sending → Bool
  | .refused _ _ => false
  | .write n => 0 < n

theorem httpclientSendRequest_eq_zero {send : Sending} :
    httpclientSendRequest send = 0 ↔ send.written = true := by
  cases send with
  | refused rc h => simpa [httpclientSendRequest, Sending.written] using h
  | write n =>
      rw [httpclientSendRequest, Sending.written, decide_eq_true_iff]
      split
      next hpos => exact iff_of_true rfl hpos
      next hpos =>
        split
        next => exact iff_of_false (by decide) hpos
        next => exact iff_of_false (by decide) hpos

/-! ## Where the header ends -/

/-- The header loop comes to the empty line, in at most `fuel` turns. -/
def headersEnd : Nat → Scratch → HttpclientData → Bool
  | 0, _, _ => false
  | fuel + 1, s, d =>
      match strstrCrlf (cString s.content) with
      | none => false
      | some crlfPos =>
          if crlfPos = 0 then true
          else
            match scanHeader (s.content.take crlfPos) with
            | none => false
            | some (key, value) =>
                match applyHeader key value d with
                | .error _ => false
                | .ok d => headersEnd fuel (s.discardLine crlfPos).terminate d

/-- `httpclient_response_parse` comes to the end of the header. -/
def responseEnds (s : Scratch) (d : HttpclientData) : Bool :=
  match strstrCrlf (cString s.content) with
  | none => false
  | some crlfPos =>
      match scanStatus (s.content.take crlfPos) with
      | none => false
      | some code =>
          let s' := (s.discardLine crlfPos).terminate
          let d := { d with responseContentLen := unknownLength }
          decide (-2 ^ 31 ≤ code ∧ code < 2 ^ 31) &&
            headersEnd (s'.len + 1) s' { d with responseCode := code, isChunked := false }

/-- The code after a read that brought `bs` has a whole header. -/
def headerParsed (d : HttpclientData) (bs : Bytes) : Wait → Bool
  | .first => responseEnds (Scratch.zeros.refill bs).terminate d
  | .header s => headersEnd ((s.extend bs).terminate.len + 1) (s.extend bs).terminate d
  | _ => false

/-! ## The client -/

/-- The client and its data: whether `net.handle` is a connection, the call that is on, and
how many requests have been written and headers parsed on the connection.  `repeated` counts
the requests of calls that found `is_more` set. -/
structure Session where
  isOpen : Bool
  data : HttpclientData
  status : Option Status
  requests : Nat
  headers : Nat
  repeated : Nat

/-- A client behind `httpclient_init`, with its data set to zero. -/
def Session.initial : Session := ⟨false, freshData 0, none, 0, 0, 0⟩

inductive Action where
  /-- A call of `httpclient_common`, with its response buffer and what the network does with
  its request. -/
  | call (bufLen : Nat) (null : Bool) (connect : Int) (send : Sending)
  /-- A read of the call brings bytes, or an error. -/
  | read (bs : Option Bytes)

/-- The call has run to its next read, or to its end: the connection is closed after an error
and when no more is to come. -/
def Session.goOn (c : Session) : Status → Session
  | .done ret d =>
      { c with
        data := d, status := none
        isOpen := if ret < 0 ∨ d.isMore = false then false else c.isOpen }
  | status => { c with status := some status }

/-- `httpclient_common`, up to its first read. -/
def Session.call (c : Session) (bufLen : Nat) (null : Bool) (connect : Int) (send : Sending) :
    Session :=
  let d := { c.data with responseBufLen := bufLen }
  if c.isOpen = false ∧ connect ≠ 0 then { c with data := d }
  else
    let c := if c.isOpen then c else { c with isOpen := true, requests := 0, headers := 0 }
    if httpclientSendRequest send ≠ 0 then { c with data := d, isOpen := false }
    else
      let c := { c with
        requests := c.requests + 1
        repeated := if d.isMore then c.repeated + 1 else c.repeated }
      c.goOn (httpclientCommon true 0 0 null d)

/-- The code after a read. -/
def Session.read (c : Session) (w : Wait) (d : HttpclientData) : Option Bytes → Session
  | none => c.goOn (.done errorHttpConn d)
  | some bs =>
      let bs := bs.take (w.maxLen d)
      let c := { c with headers := if headerParsed d bs w then c.headers + 1 else c.headers }
      c.goOn (resume d bs w)

/-- One step.  A call is made when none is on, and reads when one is. -/
def Session.step (c : Session) (a : Action) : Checked Session :=
  match c.status, a with
  | none, .call bufLen null connect send => .ok (c.call bufLen null connect send)
  | some (.waiting w d), .read bs => .ok (c.read w d bs)
  | _, _ => .ok c

/-! ## The property and its condition -/

/-- A read for bytes of the body. -/
def Wait.InBody : Wait → Prop
  | .first => False
  | .header _ => False
  | _ => True

/-- Requests and responses are paired: on the connection one request at most has no header
yet, body is read only behind a header, and no call that continues a response has written a
request. -/
structure Paired (c : Session) : Prop where
  lower : c.headers ≤ c.requests
  upper : c.requests ≤ c.headers + 1
  body : ∀ w d, c.status = some (.waiting w d) → w.InBody → 0 < c.headers
  once : c.repeated = 0

/-- A call that finds `is_more` set does not get its request out: it cannot connect, or the
request is not written. -/
def Finished (c : Session) : Action → Prop
  | .call _ _ connect send => c.status = none → c.data.isMore = true →
      (c.isOpen = false ∧ connect ≠ 0) ∨ send.written = false
  | .read _ => True

/-! ## What the code waits for -/

/-- Where the call waits, it waits for the body. -/
def Status.Content (status : Status) : Prop := ∀ w d, status = .waiting w d → w.InBody

/-- A part of the code that stops where the body is waited for, or not at a read. -/
def Pass.Content {α : Type} (x : Pass α) : Prop := ∀ status, x = .error status → status.Content

section Content

variable {α β : Type} {s : Scratch} {d : HttpclientData}

theorem Status.content_done {ret : Int} : (Status.done ret d).Content := nofun

theorem Status.content_undefined {why : Undefined} : (Status.undefined why).Content := nofun

theorem Status.content_waiting {w : Wait} (h : w.InBody) : (Status.waiting w d).Content := by
  intro w' d' hw
  cases hw
  exact h

theorem Pass.content_ok (a : α) : Pass.Content (.ok a) := nofun

theorem Pass.content_error {status : Status} (h : status.Content) :
    Pass.Content (.error status : Pass α) := by
  intro status' hstatus
  cases hstatus
  exact h

theorem Pass.Content.bind {x : Pass α} {f : α → Pass β} (hx : x.Content)
    (hf : ∀ a, (f a).Content) : (x >>= f).Content := by
  cases x with
  | ok a => exact hf a
  | error status =>
      intro status' h
      obtain rfl : status = status' := Except.error.inj h
      exact hx status rfl

theorem Pass.Content.finish {x : Pass α} {f : α → Pass Status} (hx : x.Content)
    (hf : ∀ a, (Pass.finish (f a)).Content) : (Pass.finish (x >>= f)).Content := by
  cases x with
  | ok a => exact hf a
  | error status => exact hx status rfl

theorem store_content (bs : Bytes) : (store d bs).Content := by
  rw [store]
  split
  next => exact Pass.content_ok _
  next => exact Pass.content_error Status.content_undefined

theorem noLengthPass_content : (noLengthPass s d).Content := by
  rw [noLengthPass]
  split
  next => exact (store_content _).finish fun d => Status.content_waiting trivial
  next => exact (store_content _).finish fun d => Status.content_done

theorem contentStart_content : (contentStart s d).Content := by
  rw [contentStart]
  split
  next =>
    rw [chunkHeader]
    dsimp only
    split
    next =>
      split
      next => exact Pass.content_error (Status.content_waiting trivial)
      next => exact Pass.content_error Status.content_done
    next =>
      split
      next => exact Pass.content_error Status.content_done
      next =>
        split
        next =>
          split
          next => exact Pass.content_error Status.content_done
          next => exact Pass.content_ok _
        next => exact Pass.content_error Status.content_undefined
  next => exact Pass.content_ok _

theorem bodyPass_content (readLen : Nat) : (bodyPass s readLen d).Content := by
  rw [bodyPass]
  dsimp only
  split
  next =>
    refine (store_content _).bind fun d => ?_
    split
    next => exact Pass.content_ok _
    next =>
      split
      next => exact Pass.content_ok _
      next => exact Pass.content_error (Status.content_waiting trivial)
  next => exact (store_content _).bind fun d => Pass.content_error Status.content_done

theorem chunkCheck_content : (chunkCheck s d).Content := by
  rw [chunkCheck]
  split
  next =>
    split
    next => exact Pass.content_error Status.content_undefined
    next => exact Pass.content_ok _
  next => exact Pass.content_error Status.content_done

theorem contentEnd_content : (contentEnd s d).Content := by
  rw [contentEnd]
  split
  next =>
    split
    next => exact Pass.content_error (Status.content_waiting trivial)
    next => exact chunkCheck_content
  next => exact Pass.content_error Status.content_done

theorem contentLoop_content (fuel : Nat) : (contentLoop fuel s d).Content := by
  induction fuel generalizing s d with
  | zero => exact Status.content_undefined
  | succ fuel ih =>
      rw [contentLoop]
      refine contentStart_content.finish fun p => ?_
      refine (bodyPass_content _).finish fun p => ?_
      exact contentEnd_content.finish fun p => ih

theorem retrieveContent_content : (httpclientRetrieveContent s d).Content := by
  rw [httpclientRetrieveContent]
  dsimp only
  split
  next => exact noLengthPass_content
  next => exact contentLoop_content _

theorem content_content : (content s d).Content := contentLoop_content _

/-- Behind the header only the body is read. -/
theorem resume_content {w : Wait} (h : w.InBody) (bs : Bytes) : (resume d bs w).Content := by
  cases w with
  | first => exact h.elim
  | header s => exact h.elim
  | noLength s =>
      rw [resume]
      split
      next => exact Status.content_done
      next => exact noLengthPass_content
  | chunkSize s => exact content_content
  | body s readLen =>
      refine (bodyPass_content _).finish fun p => ?_
      exact contentEnd_content.finish fun p => content_content
  | chunkEnd s => exact chunkCheck_content.finish fun p => content_content

/-- The header is there and the body is begun, or the call waits in the header or ends. -/
inductive Parsed : Bool → Status → Prop where
  | body (s : Scratch) (d : HttpclientData) : Parsed true (httpclientRetrieveContent s d)
  | header {status : Status} (h : ∀ w d, status = .waiting w d → ¬ w.InBody) :
      Parsed false status

theorem headerLoop_parsed (fuel : Nat) : Parsed (headersEnd fuel s d) (headerLoop fuel s d) := by
  induction fuel generalizing s d with
  | zero => exact .header nofun
  | succ fuel ih =>
      rw [headersEnd, headerLoop]
      cases strstrCrlf (cString s.content) with
      | none =>
          dsimp only
          split
          next =>
            refine .header fun w d' hw => ?_
            cases hw
            exact id
          next => exact .header nofun
      | some crlfPos =>
          dsimp only
          by_cases hzero : crlfPos = 0
          · rw [if_pos hzero, if_pos hzero]
            exact .body _ _
          · rw [if_neg hzero, if_neg hzero]
            cases scanHeader (s.content.take crlfPos) with
            | none => exact .header nofun
            | some header =>
                dsimp only
                cases happly : applyHeader header.1 header.2 d with
                | error status =>
                    rw [applyHeader_error happly]
                    exact .header nofun
                | ok d => exact ih

theorem responseParse_parsed : Parsed (responseEnds s d) (httpclientResponseParse s d) := by
  rw [responseEnds, httpclientResponseParse]
  cases strstrCrlf (cString s.content) with
  | none => exact .header nofun
  | some crlfPos =>
      dsimp only
      cases scanStatus (s.content.take crlfPos) with
      | none => exact .header nofun
      | some code =>
          dsimp only
          by_cases hrange : -2 ^ 31 ≤ code ∧ code < 2 ^ 31
          · rw [decide_eq_true hrange, Bool.true_and, if_pos hrange]
            exact headerLoop_parsed _
          · rw [decide_eq_false hrange, Bool.false_and, if_neg hrange]
            exact .header nofun

/-- A read in the header. -/
theorem resume_parsed {w : Wait} (h : ¬ w.InBody) (bs : Bytes) :
    Parsed (headerParsed d bs w) (resume d bs w) := by
  cases w with
  | first =>
      rw [headerParsed, resume]
      split
      next hbs =>
        subst hbs
        exact .header nofun
      next => exact responseParse_parsed
  | header s => exact headerLoop_parsed _
  | noLength s => exact absurd trivial h
  | chunkSize s => exact absurd trivial h
  | body s readLen => exact absurd trivial h
  | chunkEnd s => exact absurd trivial h

end Content

/-! ## Runs -/

/-- One request at most is written on a connection, and its header is parsed before the body
is read.  A connection that is kept has a response to be continued. -/
structure Steady (c : Session) : Prop where
  lower : c.headers ≤ c.requests
  upper : c.requests ≤ 1
  once : c.repeated = 0
  kept : c.status = none → c.isOpen = true → c.data.isMore = true
  waits : ∀ w d, c.status = some (.waiting w d) →
    c.requests = 1 ∧ (w.InBody → c.headers = 1) ∧ (¬ w.InBody → c.headers = 0)

section Steady

variable {c c' : Session}

theorem Steady.paired (h : Steady c) : Paired c where
  lower := h.lower
  upper := Nat.le_trans h.upper (Nat.le_add_left 1 _)
  body := by
    intro w d hw hbody
    rw [(h.waits w d hw).2.1 hbody]
    exact Nat.one_pos
  once := h.once

theorem Steady.initial : Steady Session.initial :=
  ⟨Nat.le_refl 0, Nat.zero_le 1, rfl, nofun, nofun⟩

theorem Session.repeated_goOn (status : Status) : (c.goOn status).repeated = c.repeated := by
  cases status with
  | done ret d => rfl
  | undefined why => rfl
  | waiting w d => rfl

theorem Steady.goOn {status : Status} (hlower : c.headers ≤ c.requests) (hupper : c.requests ≤ 1)
    (honce : c.repeated = 0)
    (hwaits : ∀ w d, status = .waiting w d →
      c.requests = 1 ∧ (w.InBody → c.headers = 1) ∧ (¬ w.InBody → c.headers = 0)) :
    Steady (c.goOn status) := by
  cases status with
  | done ret d =>
      refine ⟨hlower, hupper, honce, fun _ hopen => ?_, nofun⟩
      simp only [Session.goOn] at hopen ⊢
      split at hopen
      next => cases hopen
      next hkept =>
        rw [not_or, Bool.not_eq_false] at hkept
        exact hkept.2
  | undefined why => exact ⟨hlower, hupper, honce, nofun, nofun⟩
  | waiting w d =>
      refine ⟨hlower, hupper, honce, nofun, fun w' d' hw => ?_⟩
      cases hw
      exact hwaits w d rfl

/-- A read in the body brings no header. -/
theorem headerParsed_inBody {w : Wait} (h : w.InBody) (d : HttpclientData) (bs : Bytes) :
    headerParsed d bs w = false := by
  cases w with
  | first => exact h.elim
  | header s => exact h.elim
  | noLength s => rfl
  | chunkSize s => rfl
  | body s readLen => rfl
  | chunkEnd s => rfl

theorem Steady.read (h : Steady c) {w : Wait} {d : HttpclientData}
    (hw : c.status = some (.waiting w d)) (bs : Option Bytes) : Steady (c.read w d bs) := by
  obtain ⟨hone, hbody, hheader⟩ := h.waits w d hw
  cases bs with
  | none =>
      rw [Session.read]
      exact .goOn h.lower h.upper h.once fun _ _ hw => by cases hw
  | some bs =>
      rw [Session.read]
      generalize bs.take (w.maxLen d) = bs
      by_cases hin : w.InBody
      · rw [headerParsed_inBody hin, if_neg Bool.false_ne_true]
        refine .goOn h.lower h.upper h.once fun w' d' hw' => ?_
        exact ⟨hone, fun _ => hbody hin, fun hout => absurd (resume_content hin bs w' d' hw') hout⟩
      · have hzero := hheader hin
        have hparsed := resume_parsed (d := d) hin bs
        generalize headerParsed d bs w = parsed at hparsed ⊢
        generalize resume d bs w = status at hparsed ⊢
        cases hparsed with
        | body s d =>
            rw [if_pos rfl, hzero]
            refine .goOn (Nat.le_of_eq hone.symm) h.upper h.once fun w' d' hw' => ?_
            exact ⟨hone, fun _ => rfl, fun hout =>
              absurd (retrieveContent_content w' d' hw') hout⟩
        | header hout =>
            rw [if_neg Bool.false_ne_true]
            refine .goOn h.lower h.upper h.once fun w' d' hw' => ?_
            exact ⟨hone, fun hin' => absurd hin' (hout w' d' hw'), fun _ => hzero⟩

/-- The first read of a new response. -/
theorem httpclientCommon_new {null : Bool} {d w' d'} (hmore : d.isMore = false)
    (h : httpclientCommon true 0 0 null d = .waiting w' d') : w' = .first := by
  rw [httpclientCommon, if_neg (by simp), if_neg (by simp)] at h
  split at h
  next => cases h
  next =>
    rw [httpclientRecvResponse, hmore, if_neg Bool.false_ne_true] at h
    cases h
    rfl

/-- A call that closes the connection, or does not get one. -/
theorem Steady.closed {d : HttpclientData} (hidle : c.status = none)
    (hlower : c.headers ≤ c.requests) (hupper : c.requests ≤ 1) (honce : c.repeated = 0)
    (hclosed : c.isOpen = false) : Steady { c with data := d } := by
  refine ⟨hlower, hupper, honce, fun _ hopen => ?_, fun w d hw => ?_⟩
  · cases hclosed.symm.trans hopen
  · cases hidle.symm.trans hw

theorem Steady.call (h : Steady c) (hidle : c.status = none) {bufLen : Nat} {null : Bool}
    {connect : Int} {send : Sending} (hfinished : Finished c (.call bufLen null connect send)) :
    Steady (c.call bufLen null connect send) := by
  have hsent : httpclientSendRequest send = 0 → (c.isOpen = false → connect = 0) →
      c.data.isMore = false := by
    intro hzero hconnect
    rw [← Bool.not_eq_true]
    intro hmore
    obtain ⟨hclosed, hne⟩ | hwritten := hfinished hidle hmore
    · exact hne (hconnect hclosed)
    · rw [httpclientSendRequest_eq_zero.mp hzero] at hwritten
      cases hwritten
  rw [Session.call]
  split
  next hrefused => exact .closed hidle h.lower h.upper h.once hrefused.1
  next hconnected =>
    have hconnect : c.isOpen = false → connect = 0 := by
      intro hclosed
      by_contra hne
      exact hconnected ⟨hclosed, hne⟩
    cases hopen : c.isOpen with
    | true =>
        rw [if_pos rfl]
        split
        next => exact @Steady.closed { c with isOpen := false } _ hidle h.lower h.upper h.once rfl
        next hzero =>
          have hmore := hsent (not_not.mp hzero) hconnect
          cases (h.kept hidle hopen).symm.trans hmore
    | false =>
        rw [if_neg Bool.false_ne_true]
        split
        next =>
          exact @Steady.closed { c with isOpen := false, requests := 0, headers := 0 } _ hidle
            (Nat.le_refl 0) (Nat.zero_le 1) h.once rfl
        next hzero =>
          have hmore := hsent (not_not.mp hzero) hconnect
          dsimp only
          rw [hmore, if_neg Bool.false_ne_true]
          refine .goOn (Nat.zero_le 1) (Nat.le_refl 1) h.once fun w d hw => ?_
          rw [httpclientCommon_new rfl hw]
          exact ⟨rfl, fun hin => hin.elim, fun _ => rfl⟩

theorem Steady.step {a : Action} (h : Steady c) (hfinished : Finished c a)
    (hstep : c.step a = .ok c') : Steady c' := by
  unfold Session.step at hstep
  split at hstep
  next hidle =>
    cases hstep
    exact h.call hidle hfinished
  next hw =>
    cases hstep
    exact h.read hw _
  next =>
    cases hstep
    exact h

/-- A call that finds `is_more` set and gets its request out has broken the pairing. -/
theorem not_paired_of_not_finished {a : Action} (_ : Steady c) (hnot : ¬ Finished c a) :
    ∃ c', c.step a = .ok c' ∧ ¬ Paired c' := by
  cases a with
  | read bs => exact absurd trivial hnot
  | call bufLen null connect send =>
      simp only [Finished, not_forall, not_or, not_and, not_not] at hnot
      obtain ⟨hidle, hmore, hconnect, hsend⟩ := hnot
      have hzero : ¬ httpclientSendRequest send ≠ 0 := by
        rw [not_not, httpclientSendRequest_eq_zero]
        exact Bool.not_eq_false _ ▸ hsend
      refine ⟨c.call bufLen null connect send, ?_, fun hpaired => ?_⟩
      · unfold Session.step
        rw [hidle]
      · have honce := hpaired.once
        rw [Session.call, if_neg (fun hrefused => hrefused.2 (hconnect hrefused.1))] at honce
        dsimp only at honce
        rw [if_neg hzero, hmore, if_pos rfl, Session.repeated_goOn] at honce
        cases honce

/-- Requests and responses are paired all along a run exactly where every call that gets its
request out finds `is_more` clear. -/
theorem paired_iff (as : List Action) :
    (∀ bs c, bs <+: as → run Session.step Session.initial bs = .ok c → Paired c) ↔
      Guarded Session.step Finished Session.initial as :=
  @always_good_iff _ _ _ Session.step Finished Steady Paired Steady.paired Steady.step
    not_paired_of_not_finished _ as Steady.initial

end Steady

/-! ## A failed download -/

/-- A header and a part of its body, an error of the connection, and the next call. -/
def failedDownload : List Action :=
  [.call 1500 false 0 (.write 100),
    .read (some (ascii ['H', 'T', 'T', 'P', '/', '1', '.', '1', ' ', '2', '0', '0', ' ', 'O', 'K']
      ++ crlf ++ contentLengthKey ++ ascii [':', ' ', '5'] ++ crlf ++ crlf ++ ascii ['h', 'e'])),
    .read none, .call 1500 false 0 (.write 100)]

/-- The second call waits for the rest of the body on a connection without a header. -/
theorem not_paired_failedDownload : ¬ ∀ (as bs : List Action) (c : Session), bs <+: as →
    run Session.step Session.initial bs = .ok c → Paired c := by
  intro h
  obtain ⟨c, hc, hcounts⟩ : ∃ c, run Session.step Session.initial failedDownload = .ok c ∧
      (c.requests, c.headers, c.repeated) = (1, 0, 1) := ⟨_, rfl, by decide +kernel⟩
  have hpaired := h failedDownload failedDownload c (List.prefix_refl _) hc
  rw [Prod.mk.injEq, Prod.mk.injEq] at hcounts
  cases hpaired.once.symm.trans hcounts.2.2

end IotKit.Http
