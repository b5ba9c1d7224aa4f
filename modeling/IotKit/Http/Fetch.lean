import IotKit.Http.Client

/-!
# Fetching a response piece by piece

`ofc_Fetch` of `iotx_ota_api.c` and the loop of `IOT_OTA_Update` around it: one call of
`httpclient_common` after the other continues the same response, and each reports by
how much `retrieve_len` has decreased.  A step is a read of the call that is on, or
what stands between it and the next.  The requests that the calls send are all
accepted.
-/

namespace IotKit.Http

open CMemory

/-- The state of a download. -/
inductive Stage where
  /-- A call is on: `before` is `diff` of `ofc_Fetch`. -/
  | call (status : Status) (before : Int)
  /-- No call follows, and the last one did not fail or it did. -/
  | ended (ok : Bool)
deriving DecidableEq, Repr

/-- A download: its stage, the bytes of the server that are still to come, and the bytes
that the calls have reported. -/
structure Fetch where
  stage : Stage
  stream : Bytes
  reported : Bytes
deriving DecidableEq, Repr

/-- `response_content_len - retrieve_len`, as an `int`. -/
def retrieved (d : HttpclientData) : Int := toInt32 (d.responseContentLen - d.retrieveLen)

/-- The call that `ofc_Fetch` makes with the data. -/
def ofcFetch (connected : Bool) (d : HttpclientData) : Stage :=
  .call (httpclientCommon connected 0 0 false d) (retrieved d)

/-- The call has returned: its bytes are taken over, and if more are to come the next call
is made. -/
def Fetch.returned (ret : Int) (d : HttpclientData) (before : Int) (f : Fetch) : Fetch :=
  let report := toInt32 (d.responseContentLen - d.retrieveLen - before)
  if ret < 0 ∨ report < 0 then { f with stage := .ended false }
  else { f with
    stage := if d.isMore then ofcFetch true d else .ended true
    reported := f.reported ++ d.responseBuf.take report.toNat }

/-- One step.  The transport delivers `cut` bytes, if it has as many and as many are asked
for. -/
def Fetch.step (f : Fetch) (cut : Nat) : Fetch :=
  match f.stage with
  | .ended _ => f
  | .call (.undefined _) _ => { f with stage := .ended false }
  | .call (.done ret d) before => f.returned ret d before
  | .call (.waiting w d) before =>
      let c := Call.step ⟨.waiting w d, f.stream⟩ ⟨1, .bytes cut⟩
      ⟨.call c.status before, c.stream, f.reported⟩

/-- A download of a stream, from a new handle on. -/
def fetchStart (bufLen : Nat) (stream : Bytes) : Fetch :=
  ⟨ofcFetch false (freshData bufLen), stream, []⟩

/-! ## What a step does -/

/-- A download that is over makes no step. -/
theorem Fetch.step_of_over {f : Fetch} {ok : Bool} (cut : Nat) (h : f.stage = .ended ok) :
    f.step cut = f := by
  rw [Fetch.step, h]

theorem Fetch.step_done {ret before : Int} {d : HttpclientData} {stream reported : Bytes}
    {cut : Nat} : Fetch.step ⟨.call (.done ret d) before, stream, reported⟩ cut =
      Fetch.returned ret d before ⟨.call (.done ret d) before, stream, reported⟩ := rfl

theorem Fetch.step_waiting {w : Wait} {d : HttpclientData} {before : Int}
    {stream reported : Bytes} {cut : Nat} :
    Fetch.step ⟨.call (.waiting w d) before, stream, reported⟩ cut =
      ⟨.call (resume d (stream.take (min cut (w.maxLen d))) w) before,
        stream.drop (min cut (w.maxLen d)), reported⟩ := rfl

theorem Fetch.step_stream_nil {f : Fetch} {cut : Nat} (h : f.stream = []) :
    (f.step cut).stream = [] := by
  obtain ⟨stage, stream, reported⟩ := f
  cases h
  cases stage with
  | ended ok => rfl
  | call status before =>
      cases status with
      | undefined why => rfl
      | waiting w d =>
          rw [Fetch.step_waiting]
          exact List.drop_nil
      | done ret d =>
          rw [Fetch.step_done, Fetch.returned]
          dsimp only
          split
          · rfl
          · rfl

end IotKit.Http
