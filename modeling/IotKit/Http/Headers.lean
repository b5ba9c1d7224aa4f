import IotKit.Http.Client

/-!
# The header loop on a well-formed header

A response is cut into reads anywhere, and the header loop sees what has come of it.
It takes over the lines that are there to their end, and on the rest it waits, ends
with an error at a line that is too long or is not read, or hands over to
`httpclient_retrieve_content` with the bytes behind the empty line (`headers_outcome`).
-/

namespace IotKit.Http

open CMemory

/-! ## Responses -/

/-- A header line without its end.  A line that is read as the length of the content gives a
number, and none is read as a chunked encoding. -/
structure HeaderLine where
  /-- The bytes. -/
  bytes : Bytes
  nonempty : bytes ≠ []
  oneLine : strstrCrlf bytes = none
  noNul : 0 ∉ bytes
  plain : ∀ value, scanHeader bytes = some (transferEncodingKey, value) →
    isChunkedValue value = false
  length : ∀ value, scanHeader bytes = some (contentLengthKey, value) →
    ∃ (n : Nat) (rest : Bytes), scanInt value = some ((n : Int), rest)

/-- A response with its body. -/
structure Response where
  /-- The status line without its end. -/
  statusLine : Bytes
  statusOneLine : strstrCrlf statusLine = none
  statusNoNul : 0 ∉ statusLine
  /-- The header lines. -/
  lines : List HeaderLine
  /-- The body. -/
  body : Bytes

/-- Header lines and the empty line behind them. -/
def headerBytes : List HeaderLine → Bytes
  | [] => crlf
  | line :: lines => line.bytes ++ crlf ++ headerBytes lines

/-- What the server sends. -/
def Response.bytes (r : Response) : Bytes :=
  r.statusLine ++ crlf ++ headerBytes r.lines ++ r.body

/-! ## What the client makes of the lines -/

/-- A line is taken over: with its end it is shorter than the scratch buffer, it is read as
a header, and its number fits. -/
def acceptLine (line : Bytes) (d : HttpclientData) : Option HttpclientData :=
  if line.length + 2 < httpclientChunkSize then
    match scanHeader line with
    | some (key, value) =>
        match applyHeader key value d with
        | .ok d => some d
        | .error _ => none
    | none => none
  else none

/-- Every line is taken over. -/
def acceptHeaders : List HeaderLine → HttpclientData → Option HttpclientData
  | [], d => some d
  | line :: lines, d =>
      match acceptLine line.bytes d with
      | some d => acceptHeaders lines d
      | none => none

/-- The data of a response whose header is not chunked: no length is known, or it is and all
of it is to be retrieved. -/
structure Headed (bufLen : Nat) (d : HttpclientData) : Prop where
  chunked : d.isChunked = false
  bufLen : d.responseBufLen = bufLen
  lengths : (d.responseContentLen = unknownLength ∧ d.retrieveLen = 0) ∨
    (d.responseContentLen < 2 ^ 31 ∧ d.retrieveLen = d.responseContentLen)

section
variable {bufLen : Nat} {d d' : HttpclientData}

theorem Headed.acceptLine {line : HeaderLine} (h : Headed bufLen d)
    (haccept : acceptLine line.bytes d = some d') : Headed bufLen d' := by
  rw [Http.acceptLine] at haccept
  split at haccept
  next =>
    split at haccept
    next key value hscan =>
      rw [applyHeader] at haccept
      split at haccept
      next d₁ happly =>
        cases haccept
        split at happly
        next hkey =>
          rw [hkey] at hscan
          obtain ⟨n, rest, hvalue⟩ := line.length value hscan
          rw [hvalue] at happly
          dsimp only at happly
          split at happly
          next hrange =>
            cases happly
            have hn : n < 2 ^ 31 := by omega
            refine ⟨h.chunked, h.bufLen, .inr ?_⟩
            dsimp only
            rw [toUInt32_natCast (by omega)]
            exact ⟨hn, rfl⟩
          next => cases happly
        next =>
          split at happly
          next hchunked =>
            rw [hchunked.1] at hscan
            rw [line.plain value hscan] at hchunked
            exact absurd hchunked.2 (by decide)
          next =>
            cases happly
            exact h
      next => cases haccept
    next => cases haccept
  next => cases haccept

theorem Headed.acceptHeaders {lines : List HeaderLine} (h : Headed bufLen d)
    (haccept : acceptHeaders lines d = some d') : Headed bufLen d' := by
  induction lines generalizing d with
  | nil =>
      cases haccept
      exact h
  | cons line lines ih =>
      rw [Http.acceptHeaders] at haccept
      split at haccept
      next d₁ hline => exact ih (h.acceptLine hline) haccept
      next => cases haccept

end

/-! ## The header loop -/

/-- The call has ended with an error, or has no meaning. -/
def Status.Failed : Status → Prop
  | .waiting _ _ => False
  | .done ret _ => ret < 0
  | .undefined _ => True

/-- What the header loop makes of lines of which a part has come: `stream` is what has not. -/
inductive HeaderOutcome (stream body : Bytes) :
    List HeaderLine → HttpclientData → Status → Prop where
  /-- It waits for the rest of the lines. -/
  | waits {lines : List HeaderLine} {s : Scratch} {d : HttpclientData}
      (hsplit : s.content ++ stream = headerBytes lines ++ body)
      (hlen : s.len < httpclientChunkSize - 1) (hmore : body.length < stream.length) :
      HeaderOutcome stream body lines d (.waiting (.header s) d)
  /-- All lines are taken over, and the content is to be retrieved. -/
  | ends {s : Scratch} {d : HttpclientData} (hsplit : s.content ++ stream = body) :
      HeaderOutcome stream body [] d (httpclientRetrieveContent s d)
  /-- The first line is not taken over. -/
  | fails {line : HeaderLine} {lines : List HeaderLine} {d : HttpclientData} {status : Status}
      (hline : acceptLine line.bytes d = none) (hfailed : status.Failed) :
      HeaderOutcome stream body (line :: lines) d status
  /-- The first line is. -/
  | accepts {line : HeaderLine} {lines : List HeaderLine} {d d' : HttpclientData}
      {status : Status} (hline : acceptLine line.bytes d = some d')
      (hrest : HeaderOutcome stream body lines d' status) :
      HeaderOutcome stream body (line :: lines) d status

/-- A turn over a line that has come whole: the line is not taken over, or the loop goes on
behind it. -/
theorem headerLoop_line {stream rest : Bytes} {line : HeaderLine} {s : Scratch}
    {d : HttpclientData} (fuel : Nat)
    (hsplit : s.content ++ stream = line.bytes ++ crlf ++ rest)
    (hend : line.bytes.length + 2 ≤ s.len) (hlen : s.len < httpclientChunkSize) :
    acceptLine line.bytes d = none ∧ (headerLoop (fuel + 1) s d).Failed ∨
      ∃ d' s', acceptLine line.bytes d = some d' ∧ s'.content ++ stream = rest ∧
        s'.len + 2 ≤ s.len ∧ headerLoop (fuel + 1) s d = headerLoop fuel s' d' := by
  have hline : 0 < line.bytes.length := List.length_pos_of_ne_nil line.nonempty
  have hfits : line.bytes.length + 2 < httpclientChunkSize := Nat.lt_of_le_of_lt hend hlen
  obtain ⟨hpos, htake, hrest⟩ := strstrCrlf_line line.oneLine line.noNul hsplit hend
  rw [acceptLine, if_pos hfits, headerLoop, hpos]
  dsimp only
  rw [if_neg (Nat.ne_of_gt hline), htake]
  cases scanHeader line.bytes with
  | none => exact Or.inl ⟨rfl, errorHttp_neg⟩
  | some header =>
      obtain ⟨key, value⟩ := header
      dsimp only
      cases happly : applyHeader key value d with
      | error status =>
          refine Or.inl ⟨rfl, ?_⟩
          change status.Failed
          rw [applyHeader_error happly]
          exact trivial
      | ok d' =>
          refine Or.inr ⟨d', (s.discardLine line.bytes.length).terminate, rfl, ?_, ?_, rfl⟩
          · rw [Scratch.terminate, Scratch.content_discardLine, hrest]
          · rw [Scratch.len_terminate, Scratch.len_discardLine]
            omega

theorem headerLoop_outcome {stream body : Bytes} {lines : List HeaderLine} {fuel : Nat}
    {s : Scratch} {d : HttpclientData} (hfuel : s.len < fuel) (hlen : s.len < httpclientChunkSize)
    (hsplit : s.content ++ stream = headerBytes lines ++ body) :
    HeaderOutcome stream body lines d (headerLoop fuel s d) := by
  induction lines generalizing fuel s d with
  | nil =>
      obtain ⟨fuel, rfl⟩ := Nat.exists_eq_succ_of_ne_zero (Nat.ne_zero_of_lt hfuel)
      have hsplit' : s.content ++ stream = [] ++ crlf ++ body := hsplit
      rw [headerLoop]
      by_cases hend : 2 ≤ s.len
      · obtain ⟨hpos, _, hrest⟩ := strstrCrlf_line rfl List.not_mem_nil hsplit'
          (by rwa [List.length_nil, Nat.zero_add])
        rw [hpos]
        exact .ends hrest
      · have hcut := Nat.lt_of_not_le hend
        have hshort : s.len < httpclientChunkSize - 1 := Nat.lt_trans hcut (by decide)
        rw [strstrCrlf_cut rfl hsplit' hcut]
        dsimp only
        rw [if_pos hshort]
        exact .waits hsplit hshort (after_lt_of_cut hsplit' hcut)
  | cons line lines ih =>
      obtain ⟨fuel, rfl⟩ := Nat.exists_eq_succ_of_ne_zero (Nat.ne_zero_of_lt hfuel)
      have hsplit' : s.content ++ stream =
          line.bytes ++ crlf ++ (headerBytes lines ++ body) := by
        rw [hsplit, headerBytes, List.append_assoc]
      by_cases hend : line.bytes.length + 2 ≤ s.len
      · obtain ⟨hrefused, hfailed⟩ | ⟨d', s', haccept, hrest, hless, hloop⟩ :=
          headerLoop_line (d := d) fuel hsplit' hend hlen
        · exact .fails hrefused hfailed
        · rw [hloop]
          exact .accepts haccept (ih (by omega) (by omega) hrest)
      · have hcut := Nat.lt_of_not_le hend
        rw [headerLoop, strstrCrlf_cut line.oneLine hsplit' hcut]
        dsimp only
        split
        next hshort =>
          refine .waits hsplit hshort (Nat.lt_of_le_of_lt ?_ (after_lt_of_cut hsplit' hcut))
          rw [List.length_append]
          exact Nat.le_add_left _ _
        next hfull =>
          refine .fails ?_ errorHttp_neg
          rw [acceptLine, if_neg]
          omega

/-- What the header loop makes of the lines that have come. -/
theorem headers_outcome {stream body : Bytes} {lines : List HeaderLine} {s : Scratch}
    {d : HttpclientData} (hlen : s.len < httpclientChunkSize)
    (hsplit : s.content ++ stream = headerBytes lines ++ body) :
    HeaderOutcome stream body lines d (headers s d) :=
  headerLoop_outcome (Nat.lt_succ_self _) hlen hsplit

end IotKit.Http
