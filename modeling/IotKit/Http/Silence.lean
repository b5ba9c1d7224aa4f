import IotKit.Http.Client
import IotKit.Lib.Schedule

/-!
# A call whose peer falls silent

A read that brings nothing ends the call where it is the first one, where the body has
no known length and where a chunk is to be closed.  The header loop, the chunk size
loop and the body loop read again instead, and nothing in them looks at the timer, so
a call that is in one of them when the last byte has come never ends.

`Formed` is what a waiting call knows about its locals.  It says as well that the
loops between two reads end, since their fuel is never used up.
-/

namespace IotKit.Http

open CMemory

/-! ## What a waiting call knows -/

/-- The locals at a read. -/
def Wait.Formed (d : HttpclientData) : Wait → Prop
  | .header s => strstrCrlf (cString s.content) = none ∧ s.len < httpclientChunkSize - 1
  | .chunkSize s =>
      (d.isChunked ∧ d.retrieveLen ≤ 0) ∧ strstrCrlf (s.content.take (s.len - 1)) = none ∧
        s.len < httpclientChunkSize
  | .body _ readLen => 0 < readLen ∧ d.count < d.cap ∧ d.count < d.responseBufLen
  | .chunkEnd s => s.len < 2
  | .first => True
  | .noLength _ => True

/-- The call has run to its next read or to its end. -/
def Status.Formed : Status → Prop
  | .waiting w d => w.Formed d
  | .done _ _ => True
  | .undefined why => why ≠ .fault .diverge

/-- The pass goes on with a result that has the property, or stops in a formed status. -/
def Pass.Formed {α : Type} (P : α → Prop) : Pass α → Prop
  | .ok a => P a
  | .error status => status.Formed

section
variable {α β : Type} {P : α → Prop} {Q : β → Prop}

@[simp] theorem Pass.formed_ok {a : α} : Pass.Formed P (.ok a) ↔ P a := Iff.rfl

@[simp] theorem Pass.formed_error {status : Status} :
    Pass.Formed P (.error status) ↔ status.Formed := Iff.rfl

@[simp] theorem Status.formed_undefined {why : Undefined} :
    (Status.undefined why).Formed ↔ why ≠ .fault .diverge := Iff.rfl

theorem Pass.Formed.bind {x : Pass α} {f : α → Pass β} (hx : x.Formed P)
    (hf : ∀ a, P a → (f a).Formed Q) : (x >>= f).Formed Q := by
  cases x with
  | ok a => exact hf a hx
  | error status => exact hx

@[simp] theorem Pass.formed_finish {x : Pass Status} :
    x.finish.Formed ↔ x.Formed Status.Formed := by
  cases x with
  | ok status => exact Iff.rfl
  | error status => exact Iff.rfl

end

/-! ## The passes are formed -/

theorem store_formed (d : HttpclientData) (bs : Bytes) :
    Pass.Formed (fun d' => d' = { d with responseBuf := d.responseBuf ++ bs } ∧
      d'.count = d.count + bs.length ∧ d'.count < d.responseBufLen) (store d bs) := by
  rw [store]
  split
  next h =>
    rw [Pass.formed_ok, HttpclientData.count, List.length_append]
    exact ⟨rfl, rfl, h⟩
  next => simp

theorem noLengthPass_formed (s : Scratch) (d : HttpclientData) : (noLengthPass s d).Formed := by
  rw [noLengthPass, Pass.formed_finish]
  split
  · exact (store_formed d _).bind fun _ _ => trivial
  · exact (store_formed d _).bind fun _ _ => trivial

theorem chunkHeader_formed {s : Scratch} {d : HttpclientData}
    (h : d.isChunked ∧ d.retrieveLen ≤ 0) :
    Pass.Formed (fun p => p.1.len ≤ s.len) (chunkHeader s d) := by
  rw [chunkHeader]
  split
  next hnone =>
    split
    · exact ⟨h, hnone, ‹_›⟩
    · trivial
  next crlfPos _ =>
    split
    · trivial
    · dsimp only
      split
      · split
        · trivial
        · rw [Pass.formed_ok, Scratch.len_discardLine]
          exact Nat.sub_le _ _
      · simp

theorem bodyPass_formed (s : Scratch) (readLen : Nat) (d : HttpclientData) :
    Pass.Formed (fun p => p.1.len ≤ s.len) (bodyPass s readLen d) := by
  rw [bodyPass]
  split
  next hroom =>
    refine (store_formed d _).bind ?_
    rintro d' ⟨hd', hcount, hlt⟩
    have htake : (s.content.take (min s.len readLen)).length = min s.len readLen := by
      rw [List.length_take, Scratch.len]
      omega
    split
    · rw [Pass.formed_ok, Scratch.len_discard]
      exact Nat.sub_le _ _
    · split
      · exact Nat.le_refl _
      · have hcap : d'.cap = d.cap := by rw [hd']; rfl
        have hlen : d'.responseBufLen = d.responseBufLen := by rw [hd']
        refine ⟨by omega, ?_, ?_⟩
        · change d'.count < d'.cap
          omega
        · change d'.count < d'.responseBufLen
          omega
  next => exact (store_formed d _).bind fun _ _ => trivial

theorem chunkCheck_formed (s : Scratch) (d : HttpclientData) :
    Pass.Formed (fun p => p.1.len + 2 ≤ s.len) (chunkCheck s d) := by
  rw [chunkCheck]
  split
  · split
    · simp
    · rw [Pass.formed_ok, Scratch.len_discard]
      omega
  · trivial

theorem contentEnd_formed (s : Scratch) (d : HttpclientData) :
    Pass.Formed (fun p => p.1.len + 2 ≤ s.len) (contentEnd s d) := by
  rw [contentEnd]
  split
  · split
    · assumption
    · exact chunkCheck_formed s d
  · trivial

theorem contentStart_formed (s : Scratch) (d : HttpclientData) :
    Pass.Formed (fun p => p.1.len ≤ s.len) (contentStart s d) := by
  rw [contentStart]
  split
  next hchunk => exact chunkHeader_formed hchunk
  next => exact Nat.le_refl _

theorem contentLoop_formed {fuel : Nat} {s : Scratch} {d : HttpclientData} (h : s.len < fuel) :
    (contentLoop fuel s d).Formed := by
  induction fuel generalizing s d with
  | zero => exact absurd h (Nat.not_lt_zero _)
  | succ fuel ih =>
      rw [contentLoop, Pass.formed_finish]
      refine (contentStart_formed s d).bind ?_
      rintro ⟨s₁, readLen, d₁⟩ h₁
      refine (bodyPass_formed s₁ readLen d₁).bind ?_
      rintro ⟨s₂, d₂⟩ h₂
      refine (contentEnd_formed s₂ d₂).bind ?_
      rintro ⟨s₃, d₃⟩ h₃
      dsimp only at h₁ h₂ h₃
      exact ih (by omega)

theorem content_formed (s : Scratch) (d : HttpclientData) : (content s d).Formed :=
  contentLoop_formed (Nat.lt_succ_self _)

theorem body_formed (s : Scratch) (readLen : Nat) (d : HttpclientData) :
    (body s readLen d).Formed := by
  rw [body, Pass.formed_finish]
  refine (bodyPass_formed s readLen d).bind fun p _ => ?_
  exact (contentEnd_formed p.1 p.2).bind fun q _ => content_formed q.1 q.2

theorem httpclientRetrieveContent_formed (s : Scratch) (d : HttpclientData) :
    (httpclientRetrieveContent s d).Formed := by
  rw [httpclientRetrieveContent]
  split
  · exact noLengthPass_formed s _
  · exact content_formed s _

theorem applyHeader_formed (key value : Bytes) (d : HttpclientData) :
    Pass.Formed (fun _ => True) (applyHeader key value d) := by
  rw [applyHeader]
  split
  · split
    · split
      · trivial
      · simp
    · trivial
  · split
    · trivial
    · trivial

theorem headerLoop_formed {fuel : Nat} {s : Scratch} {d : HttpclientData} (h : s.len < fuel) :
    (headerLoop fuel s d).Formed := by
  induction fuel generalizing s d with
  | zero => exact absurd h (Nat.not_lt_zero _)
  | succ fuel ih =>
      rw [headerLoop]
      split
      next hnone =>
        split
        · exact ⟨hnone, ‹_›⟩
        · trivial
      next crlfPos hpos =>
        split
        · exact httpclientRetrieveContent_formed _ _
        split
        · trivial
        · rw [Pass.formed_finish]
          refine (applyHeader_formed _ _ d).bind fun d' _ => ?_
          have hlen := s.len_discardLine crlfPos
          have hle := strstrCrlf_lt hpos
          have hstring : (cString s.content).length ≤ s.len := cString_length_le _
          refine ih ?_
          rw [Scratch.len_terminate]
          omega

theorem headers_formed (s : Scratch) (d : HttpclientData) : (headers s d).Formed :=
  headerLoop_formed (Nat.lt_succ_self _)

theorem httpclientResponseParse_formed (s : Scratch) (d : HttpclientData) :
    (httpclientResponseParse s d).Formed := by
  rw [httpclientResponseParse]
  split
  · trivial
  · split
    · trivial
    · split
      · exact headers_formed _ _
      · simp

theorem resume_formed (d : HttpclientData) (bs : Bytes) (w : Wait) : (resume d bs w).Formed := by
  cases w with
  | first =>
      rw [resume]
      split
      · trivial
      · exact httpclientResponseParse_formed _ d
  | header s => exact headers_formed _ d
  | noLength s =>
      rw [resume]
      split
      · trivial
      · exact noLengthPass_formed _ d
  | chunkSize s => exact content_formed _ d
  | body s readLen => exact body_formed _ readLen d
  | chunkEnd s =>
      rw [resume, Pass.formed_finish]
      exact (chunkCheck_formed _ d).bind fun p _ => content_formed p.1 p.2

theorem httpclientCommon_formed (connected : Bool) (connect request : Int) (null : Bool)
    (d : HttpclientData) : (httpclientCommon connected connect request null d).Formed := by
  rw [httpclientCommon, httpclientRecvResponse]
  split
  · trivial
  · split
    · trivial
    · split
      · trivial
      · split
        · split
          · simp
          · exact httpclientRetrieveContent_formed _ d
        · trivial

/-! ## Reads that bring nothing -/

/-- The call is over: no further read takes place. -/
def Status.Over : Status → Prop
  | .waiting _ _ => False
  | .done _ _ => True
  | .undefined why => why ≠ .fault .diverge

/-- The read is the one of the header loop, the chunk size loop or the body loop. -/
def Wait.InLoop : Wait → Prop
  | .header _ => True
  | .chunkSize _ => True
  | .body _ _ => True
  | .first => False
  | .noLength _ => False
  | .chunkEnd _ => False

/-- The call waits in one of the three loops. -/
def Status.InLoop : Status → Prop
  | .waiting w _ => w.InLoop
  | .done _ _ => False
  | .undefined _ => False

instance : (w : Wait) → Decidable w.InLoop
  | .header _ => isTrue trivial
  | .chunkSize _ => isTrue trivial
  | .body _ _ => isTrue trivial
  | .first => isFalse id
  | .noLength _ => isFalse id
  | .chunkEnd _ => isFalse id

instance : (status : Status) → Decidable status.InLoop
  | .waiting w _ => inferInstanceAs (Decidable w.InLoop)
  | .done _ _ => isFalse id
  | .undefined _ => isFalse id

/-- The read brings nothing, and no error either. -/
def Call.Idle (t : Turn) (c : Call) : Prop :=
  match c.status with
  | .waiting w d => (netRead (w.maxLen d) t c.stream).map Prod.fst = some []
  | _ => True

/-- The three loops read again after a read that brought nothing. -/
theorem resume_nil_inLoop {w : Wait} {d : HttpclientData} (hw : w.Formed d) (hloop : w.InLoop) :
    (resume d [] w).InLoop := by
  cases w with
  | header s =>
      obtain ⟨hnone, hlen⟩ := hw
      have hcontent : (s.extend []).terminate.content = s.content := List.append_nil _
      rw [resume, headers, headerLoop, hcontent, hnone]
      simp only [Scratch.len, hcontent]
      rw [Scratch.len] at hlen
      rw [if_pos hlen]
      trivial
  | chunkSize s =>
      obtain ⟨hchunk, hnone, hlen⟩ := hw
      have hcontent : (s.extend []).terminate.content = s.content := List.append_nil _
      have hheader : chunkHeader (s.extend []) d =
          .error (.waiting (.chunkSize (s.extend []).terminate) d) := by
        rw [chunkHeader]
        simp only [Scratch.len, hcontent]
        rw [Scratch.len] at hnone hlen
        rw [hnone]
        exact if_pos hlen
      rw [resume, content, contentLoop, contentStart, if_pos hchunk, hheader]
      trivial
  | body s readLen =>
      obtain ⟨hpos, hcap, hlt⟩ := hw
      have hlen : (s.refill []).len = 0 := rfl
      have hbody : bodyPass (s.refill []) readLen d = .error (.waiting (.body (s.refill []) readLen)
          { d with
            responseBuf := d.responseBuf ++ []
            retrieveLen := toInt32 (d.retrieveLen - (0 : Nat)) }) := by
        rw [bodyPass]
        simp only [hlen, Nat.zero_min, Nat.add_zero, if_pos hcap, List.take_zero, store,
          List.length_nil, if_pos hlt, bind, Except.bind, Nat.not_lt_zero, if_false,
          Nat.ne_of_gt hpos, Nat.sub_zero]
      rw [resume, body, hbody]
      trivial
  | first => exact absurd hloop id
  | noLength s => exact absurd hloop id
  | chunkEnd s => exact absurd hloop id

/-- Every other read ends the call when it brings nothing. -/
theorem resume_nil_over {w : Wait} {d : HttpclientData} (hw : w.Formed d) (hloop : ¬ w.InLoop) :
    (resume d [] w).Over := by
  cases w with
  | header s => exact absurd trivial hloop
  | chunkSize s => exact absurd trivial hloop
  | body s readLen => exact absurd trivial hloop
  | first => trivial
  | noLength s => trivial
  | chunkEnd s =>
      have hlen : (s.extend []).len < 2 := by
        rw [Scratch.len_extend]
        exact hw
      rw [resume, chunkCheck]
      split
      · change Undefined.fault .load ≠ .fault .diverge
        decide
      · trivial

/-! ## Whole runs -/

theorem netRead_length {maxLen : Nat} {t : Turn} {stream bs rest : Bytes}
    (h : netRead maxLen t stream = some (bs, rest)) : bs.length + rest.length = stream.length := by
  rw [netRead] at h
  split at h
  · cases h
    exact Nat.zero_add _
  · split at h
    · cases h
    · cases h
      rw [List.length_take, List.length_drop]
      omega

/-- The call after `k` reads. -/
def callAt (turns : Nat → Turn) (c : Call) (k : Nat) : Call := Schedule.iter Call.step turns c k

theorem Call.step_waiting {t : Turn} {w : Wait} {d : HttpclientData} {stream : Bytes} :
    Call.step ⟨.waiting w d, stream⟩ t =
      match netRead (w.maxLen d) t stream with
      | none => ⟨.done errorHttpConn d, stream⟩
      | some (bs, rest) => ⟨resume d bs w, rest⟩ := rfl

/-- A read that brings no bytes. -/
theorem Call.step_of_idle {w : Wait} {d : HttpclientData} {stream : Bytes} {t : Turn}
    (hidle : Call.Idle t ⟨.waiting w d, stream⟩) :
    ∃ rest, Call.step ⟨.waiting w d, stream⟩ t = ⟨resume d [] w, rest⟩ := by
  obtain ⟨⟨bs, rest⟩, hread, hbs⟩ := Option.map_eq_some_iff.mp hidle
  dsimp only at hread hbs
  subst hbs
  rw [Call.step_waiting, hread]
  exact ⟨rest, rfl⟩

/-- Silence keeps a call in its loop, and ends it anywhere else. -/
theorem settles : Schedule.Settles Call.step (fun c => c.status.Formed) (fun c => c.status.Over)
    (fun c => c.status.InLoop) (fun t c => Call.Idle t c) (fun c => c.stream.length) where
  inv := by
    rintro ⟨status, stream⟩ t hformed
    cases status with
    | waiting w d =>
        rw [Call.step_waiting]
        split
        · trivial
        · exact resume_formed d _ w
    | done ret d => exact hformed
    | undefined why => exact hformed
  final := by
    rintro ⟨status, stream⟩ t hover
    cases status with
    | waiting w d => exact absurd hover id
    | done ret d => exact hover
    | undefined why => exact hover
  not_final := by
    rintro ⟨status, stream⟩ hloop hover
    cases status with
    | waiting w d => exact hover
    | done ret d => exact hloop
    | undefined why => exact hloop
  stays := by
    rintro ⟨status, stream⟩ t hformed hloop hidle
    cases status with
    | waiting w d =>
        obtain ⟨rest, hstep⟩ := Call.step_of_idle hidle
        rw [hstep]
        exact resume_nil_inLoop hformed hloop
    | done ret d => exact absurd hloop id
    | undefined why => exact absurd hloop id
  idle := by
    rintro ⟨status, stream⟩ t hformed hover hloop hidle
    cases status with
    | waiting w d =>
        obtain ⟨rest, hstep⟩ := Call.step_of_idle hidle
        rw [hstep]
        exact resume_nil_over hformed hloop
    | done ret d => exact absurd trivial hover
    | undefined why => exact absurd hformed hover
  spends := by
    rintro ⟨status, stream⟩ t hformed hover hbusy
    cases status with
    | waiting w d =>
        rw [Call.step_waiting]
        split
        next => exact .inl trivial
        next bs rest hread =>
          right
          have hlen := netRead_length hread
          have hbs : bs ≠ [] := by
            rintro rfl
            exact hbusy (by rw [Call.Idle]; dsimp only; rw [hread]; rfl)
          have hpos := List.length_pos_of_ne_nil hbs
          change rest.length < stream.length
          omega
    | done ret d => exact absurd trivial hover
    | undefined why => exact absurd hformed hover
  measure_le := by
    rintro ⟨status, stream⟩ t
    cases status with
    | waiting w d =>
        rw [Call.step_waiting]
        split
        · exact Nat.le_refl _
        next bs rest hread =>
          have hlen := netRead_length hread
          change rest.length ≤ stream.length
          omega
    | done ret d => exact Nat.le_refl _
    | undefined why => exact Nat.le_refl _

theorem Call.idle_of_left {c : Call} {t : Turn} (h : t.left = 0) : Call.Idle t c := by
  rw [Call.Idle]
  split
  next => rw [netRead, if_pos h]; rfl
  next => trivial

/-- Once the timer has expired, a call ends exactly if it is in none of the three loops. -/
theorem ends_iff_of_expired {c : Call} {turns : Nat → Turn} {k : Nat} (hc : c.status.Formed)
    (hexpired : ∀ j, k ≤ j → (turns j).left = 0) :
    (∃ n, (callAt turns c n).status.Over) ↔ ¬ (callAt turns c k).status.InLoop :=
  settles.exists_final_iff hc fun j hkj => Call.idle_of_left (hexpired j hkj)

/-- A call makes finitely many reads exactly when, each time it waits in the header loop,
the chunk size loop or the body loop, something still comes in time. -/
theorem httpclientCommon_ends_iff (connected : Bool) (connect request : Int) (null : Bool)
    (d : HttpclientData) (stream : Bytes) (turns : Nat → Turn) :
    let run := callAt turns ⟨httpclientCommon connected connect request null d, stream⟩
    (∃ k, (run k).status.Over) ↔
      ∀ k, (run k).status.InLoop → ∃ j, k ≤ j ∧ ¬ Call.Idle (turns j) (run j) :=
  Schedule.eventually_final_iff settles (httpclientCommon_formed connected connect request null d)

/-! ## A server that stops after the status line -/

/-- `HTTP/1.1 200 OK` and a line end. -/
def statusLine : Bytes :=
  ascii ['H', 'T', 'T', 'P', '/', '1', '.', '1', ' ', '2', '0', '0', ' ', 'O', 'K', '\r', '\n']

theorem Call.idle_of_stream_nil {c : Call} {left n : Nat} (h : c.stream = []) :
    Call.Idle ⟨left, .bytes n⟩ c := by
  rw [Call.Idle]
  split
  next w d _ =>
    rw [h, netRead]
    split
    · rfl
    · simp
  next => trivial

/-- The server sends its status line and no more.  The clock advances by a millisecond from
read to read, and the timer is set to a second.  The call never ends. -/
theorem not_ends_statusLineOnly :
    ¬ ∃ k, (callAt (fun k => ⟨iotxTimeLeft 1000 k, .bytes 255⟩)
      ⟨httpclientCommon false 0 0 false (freshData 1500), statusLine⟩ k).status.Over := by
  intro hends
  have hformed := httpclientCommon_formed false 0 0 false (freshData 1500)
  obtain ⟨j, hj, hbusy⟩ := (Schedule.eventually_final_iff settles hformed).mp hends 1 (by decide)
  refine hbusy (Call.idle_of_stream_nil (List.eq_nil_of_length_eq_zero (Nat.le_zero.mp ?_)))
  exact settles.measure_iter_le hj

end IotKit.Http
