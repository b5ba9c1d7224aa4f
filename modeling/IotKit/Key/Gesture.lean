import IotKit.Key.Loop
import IotKit.Lib.Run

/-!
# Gestures of one key

The callbacks of a key with all callbacks set, as words over its gestures.  A click, and a
press with what comes during and after it, are reported as they should be.  The end of a
double click is also reported as the start of a press, since the case of a double click runs
into the next one.
-/

namespace IotKit.Key

open CMemory Runs

/-! ## Words of gestures -/

/-- What one gesture reports. -/
inductive Gesture : List Callback → Prop
  | click : Gesture [.click]
  | doubleClick : Gesture [.doubleClick]
  | press {start stop : UInt32} {during : List UInt32} : during ≠ [] →
      Gesture (.pressStart start :: (during.map .pressDuring ++ [.pressStop stop]))

/-- One gesture after the other. -/
inductive Gestures : List Callback → Prop
  | nil : Gestures []
  | snoc {word gesture : List Callback} : Gestures word → Gesture gesture →
      Gestures (word ++ gesture)

/-- Whole gestures and a press that goes on. -/
def Pressing (word : List Callback) : Prop :=
  ∃ done start during, Gestures done ∧ during ≠ [] ∧
    word = done ++ .pressStart start :: during.map .pressDuring

theorem Gestures.press {word : List Callback} (h : Gestures word) (start ms : UInt32) :
    Pressing (word ++ [.pressStart start, .pressDuring ms]) :=
  ⟨word, start, [ms], h, List.cons_ne_nil _ _, rfl⟩

theorem Pressing.during {word : List Callback} (h : Pressing word) (ms : UInt32) :
    Pressing (word ++ [.pressDuring ms]) := by
  obtain ⟨done, start, during, hdone, hduring, rfl⟩ := h
  refine ⟨done, start, during ++ [ms], hdone, List.append_ne_nil_of_left_ne_nil hduring _, ?_⟩
  rw [List.append_assoc, List.cons_append, List.map_append]
  rfl

theorem Pressing.stop {word : List Callback} (h : Pressing word) (ms : UInt32) :
    Gestures (word ++ [.pressStop ms]) := by
  obtain ⟨done, start, during, hdone, hduring, rfl⟩ := h
  rw [List.append_assoc, List.cons_append]
  exact hdone.snoc (.press hduring)

/-! ## A key with all callbacks -/

/-- A key with all callbacks set. -/
def fullKey (num : UInt8) : IotxKey := ⟨num, true, true, true, true, true⟩

/-- The variables with that key alone. -/
def oneKey (num : UInt8) (invert : Bool) (debounceTime clickTime pressTime : UInt32) : KeyApi :=
  iotKeySetParams { KeyApi.initial with
    keyListHead := some [fullKey num]
    keyListInitFlag := true } invert debounceTime clickTime pressTime

/-- They are what the calls that register it make of the first ones. -/
theorem oneKey_registered (num : UInt8) (invert : Bool)
    (debounceTime clickTime pressTime : UInt32) :
    (do
      let k ← iotKeyRegister .initial num true true
      let k ← iotKeyCb .click k num
      let k ← iotKeyCb .doubleClick k num
      let k ← iotKeyCb .pressStart k num
      let k ← iotKeyCb .pressStop k num
      let k ← iotKeyCb .pressDuring k num
      .ok (iotKeySetParams k invert debounceTime clickTime pressTime)) =
      (.ok (oneKey num invert debounceTime clickTime pressTime) : Checked KeyApi) := by
  simp [iotKeyRegister, iotKeyCb, KeyApi.keys, keyListInsert, keyListRegisterCbFunc, registerCb,
    KeyApi.initial, oneKey, fullKey]

theorem keyListExeCbFunc_fullKey {num record : UInt8} (h : record = num)
    (cbType : KeyCbFuncType) (ms : UInt32) :
    (keyListExeCbFunc [fullKey num] cbType record ms).map Called.callback =
      exeCbFunc cbType ms (fullKey num) := by
  subst h
  simp [keyListExeCbFunc, fullKey, Function.comp_def]

/-! ## The report -/

/-- The callbacks of a pass. -/
def Pass.callbacks (p : Pass) : List Callback := p.calls.map Called.callback

/-- The callbacks of all passes. -/
def Session.report (s : Session) : List Callback := s.passes.flatMap Pass.callbacks

/-- The report begins a word of gestures, and a double click fires nothing else. -/
structure Consistent (s : Session) : Prop where
  gestures : ∃ word, Gestures word ∧ s.report <+: word
  alone : ∀ p ∈ s.passes, .doubleClick ∈ p.callbacks → p.callbacks = [.doubleClick]

/-- The pass finds the release that completes a double click. -/
def CompletesDoubleClick (s : Session) (i : Poll) : Prop :=
  s.api.keyParams.state = .pressedAgain ∧
    (∀ keys, s.api.keyListHead = some keys →
      pressedKey s.api.keyParams i.levels keys = none) ∧
    s.api.keyParams.debounceTime < i.now - s.api.keyParams.startTime

/-- What the passes keep. -/
structure Reporting (num : UInt8) (s : Session) : Prop where
  keys : s.api.keyListHead = some [fullKey num]
  record : s.api.keyParams.state ≠ .waiting → s.api.keyNumRecord = num
  pressing : s.api.keyParams.state = .longPressed → Pressing s.report
  gestures : s.api.keyParams.state ≠ .longPressed → Gestures s.report
  alone : ∀ p ∈ s.passes, .doubleClick ∈ p.callbacks → p.callbacks = [.doubleClick]

variable {num : UInt8} {s s' : Session} {i : Poll}

theorem Reporting.consistent (h : Reporting num s) : Consistent s := by
  refine ⟨?_, h.alone⟩
  by_cases hlong : s.api.keyParams.state = .longPressed
  · exact ⟨_, (h.pressing hlong).stop 0, List.prefix_append _ _⟩
  · exact ⟨_, h.gestures hlong, List.prefix_refl _⟩

theorem reporting_start (num : UInt8) (invert : Bool)
    (debounceTime clickTime pressTime : UInt32) :
    Reporting num (.start (oneKey num invert debounceTime clickTime pressTime)) := by
  have hstate : (oneKey num invert debounceTime clickTime pressTime).keyParams.state =
      .waiting := by
    cases invert with
    | false => rfl
    | true => rfl
  refine ⟨rfl, fun h => absurd hstate h, fun h => ?_, fun _ => .nil, nofun⟩
  rw [Session.start, hstate] at h
  cases h

/-- The key on record after a pass is the one key, once the machine has left state 0. -/
theorem Reporting.record_step (h : Reporting num s)
    (hlevel : s.api.keyParams.state = .waiting →
      (keyListGetValue s.api i.levels [fullKey num]).1 = s.api.keyParams.buttonPressed) :
    (keyListGetValue s.api i.levels [fullKey num]).2 = num := by
  rw [keyListGetValue] at hlevel ⊢
  split
  next cur hcur =>
    have hmem := List.mem_of_find?_eq_some hcur
    rw [List.mem_singleton.mp hmem]
    rfl
  next hnone =>
    refine h.record fun hstate => s.api.keyParams.levels ?_
    have hpressed := hlevel hstate
    rw [hnone] at hpressed
    exact hpressed

theorem report_snoc {passes : List Pass} {pass : Pass} :
    (passes ++ [pass]).flatMap Pass.callbacks =
      passes.flatMap Pass.callbacks ++ pass.callbacks := by
  rw [List.flatMap_append, List.flatMap_singleton]

/-- The state and the report after a pass, where the machine moves and reports `word`. -/
theorem Reporting.moved (h : Reporting num s) {word : List Callback} {calls : List Called}
    (hkeys : s'.api.keyListHead = some [fullKey num])
    (hrecord : s'.api.keyParams.state ≠ .waiting → s'.api.keyNumRecord = num)
    (hpasses : s'.passes = s.passes ++ [⟨s'.gesture, calls⟩])
    (hword : calls.map Called.callback = word)
    (hpressing : s'.api.keyParams.state = .longPressed → Pressing (s.report ++ word))
    (hgestures : s'.api.keyParams.state ≠ .longPressed → Gestures (s.report ++ word))
    (halone : .doubleClick ∈ word → word = [.doubleClick]) : Reporting num s' := by
  have hreport : s'.report = s.report ++ word := by
    rw [Session.report, hpasses, report_snoc, Pass.callbacks, hword]
    rfl
  refine ⟨hkeys, hrecord, ?_, ?_, fun p hp => ?_⟩
  · rwa [hreport]
  · rwa [hreport]
  · rw [hpasses] at hp
    cases List.mem_append.mp hp with
    | inl hold => exact h.alone p hold
    | inr hnew =>
        rw [List.mem_singleton.mp hnew, Pass.callbacks, hword]
        exact halone

/-- A pass that does not complete a double click keeps the report in order. -/
theorem Reporting.step (h : Reporting num s) (hi : ¬CompletesDoubleClick s i)
    (hstep : Key.step s i = .ok s') : Reporting num s' := by
  obtain ⟨calls, hmove, hrecord, hkeys, -, -, -, hpasses⟩ := step_passed h.keys hstep
  have hnum (hne : s.api.keyParams.state ≠ .waiting) : s'.api.keyNumRecord = num := by
    rw [hrecord]
    exact h.record_step fun hwaiting => absurd hwaiting hne
  generalize hstate' : s'.api.keyParams.state = state' at hmove
  cases hmove with
  | silent _ hlong hlong' hpressed =>
      refine h.moved hkeys (fun hne => ?_) hpasses rfl
        (fun heq => absurd (hstate'.symm.trans heq) hlong') (fun _ => ?_) (fun hmem => nomatch hmem)
      · rw [hrecord]
        exact h.record_step fun hwaiting => hpressed hwaiting (hstate' ▸ hne)
      · rw [List.map_nil, List.append_nil]
        exact h.gestures hlong
  | click hasks =>
      have hrecord := hnum (by rw [hasks.1]; nofun)
      refine h.moved hkeys (fun hne => absurd hstate' hne) hpasses
        (keyListExeCbFunc_fullKey hrecord .click 0)
        (fun heq => nomatch hstate'.symm.trans heq) (fun _ => ?_) (fun hmem => ?_)
      · exact (h.gestures (by rw [hasks.1]; nofun)).snoc .click
      · exact nomatch List.mem_singleton.mp hmem
  | long hasks =>
      have hrecord := hnum (by rw [hasks.1]; nofun)
      have hword : (keyListExeCbFunc [fullKey num] .pressStart s'.api.keyNumRecord 0 ++
          keyListExeCbFunc [fullKey num] .pressDuring s'.api.keyNumRecord
            (i.now - s.api.keyParams.startTime)).map Called.callback =
          [.pressStart 0, .pressDuring (i.now - s.api.keyParams.startTime)] := by
        rw [List.map_append, keyListExeCbFunc_fullKey hrecord .pressStart,
          keyListExeCbFunc_fullKey hrecord .pressDuring]
        rfl
      refine h.moved hkeys (fun _ => hrecord) hpasses hword
        (fun _ => ?_) (fun hne => absurd hstate' hne) (fun hmem => ?_)
      · exact (h.gestures (by rw [hasks.1]; nofun)).press 0 _
      · simp at hmem
  | during hstate =>
      have hrecord := hnum (by rw [hstate]; nofun)
      refine h.moved hkeys (fun _ => hrecord) hpasses
        (keyListExeCbFunc_fullKey hrecord .pressDuring _)
        (fun _ => (h.pressing hstate).during _) (fun hne => absurd hstate' hne) (fun hmem => ?_)
      exact nomatch List.mem_singleton.mp hmem
  | stop hasks =>
      have hrecord := hnum (by rw [hasks.1]; nofun)
      refine h.moved hkeys (fun hne => absurd hstate' hne) hpasses
        (keyListExeCbFunc_fullKey hrecord .pressStop _)
        (fun heq => nomatch hstate'.symm.trans heq) (fun _ => (h.pressing hasks.1).stop _)
        (fun hmem => ?_)
      exact nomatch List.mem_singleton.mp hmem
  | doubleClick hasks =>
      refine absurd ⟨hasks.1, fun keys hk => ?_, hasks.2.2⟩ hi
      rw [h.keys] at hk
      cases hk
      exact released_iff.mp hasks.2.1

/-- A pass that completes a double click also reports the start of a press. -/
theorem Reporting.doubleClick (h : Reporting num s) (hi : CompletesDoubleClick s i) :
    ∃ s', Key.step s i = .ok s' ∧ ¬Consistent s' := by
  obtain ⟨hstate, hreleased, htime⟩ := hi
  obtain ⟨s', hstep⟩ := step_ok h.keys i
  refine ⟨s', hstep, fun hconsistent => ?_⟩
  obtain ⟨calls, hmove, hrecord, hkeys, -, -, -, hpasses⟩ := step_passed h.keys hstep
  have hrecord' : s'.api.keyNumRecord = num := by
    rw [hrecord]
    exact h.record_step fun hwaiting => nomatch hstate.symm.trans hwaiting
  have hasks : Asks [fullKey num] s'.api.keyNumRecord
      (keyListGetValue s.api i.levels [fullKey num]).1 i.now s.api.keyParams .doubleClick :=
    ⟨hstate, released_iff.mpr (hreleased _ h.keys), htime⟩
  have hcallbacks : calls.map Called.callback = [.doubleClick, .pressStart 0] := by
    generalize s'.api.keyParams.state = state' at hmove
    cases hmove with
    | silent hquiet => exact absurd hasks (hquiet _)
    | click hasks' => exact nomatch hstate.symm.trans hasks'.1
    | long hasks' => exact nomatch hstate.symm.trans hasks'.1
    | during hlong => exact nomatch hstate.symm.trans hlong
    | stop hasks' => exact nomatch hstate.symm.trans hasks'.1
    | doubleClick => exact keyListExeCbFunc_fullKey hrecord' .doubleClick 0
  have halone := hconsistent.alone ⟨s'.gesture, calls⟩
    (by rw [hpasses]; exact List.mem_append_right _ (List.mem_singleton_self _))
  rw [Pass.callbacks, hcallbacks] at halone
  exact nomatch halone List.mem_cons_self

/-- For a key with all callbacks and any thresholds, no pass faults, and what is reported is in
order after every pass if and only if no pass completes a double click. -/
theorem one_key_consistent_iff (num : UInt8) (invert : Bool)
    (debounceTime clickTime pressTime : UInt32) (polls : List Poll) :
    let start := Session.start (oneKey num invert debounceTime clickTime pressTime)
    (∃ s, run Key.step start polls = .ok s) ∧
      ((∀ done s, done <+: polls → run Key.step start done = .ok s → Consistent s) ↔
        Guarded Key.step (fun s i => ¬CompletesDoubleClick s i) start polls) := by
  intro start
  have hstart : Reporting num start := reporting_start num invert debounceTime clickTime pressTime
  exact ⟨run_ok hstart.keys polls, always_good_iff Reporting.consistent
    (fun h hi hstep => h.step hi hstep) (fun h hi => h.doubleClick (not_not.mp hi)) hstart⟩

/-- A poll of one key: its level and the clock. -/
def pollOne (level : UInt16) (now : UInt32) : Poll := ⟨fun _ => level, now⟩

/-- Two presses of 100 ms, 100 ms apart. -/
theorem double_click_not_consistent :
    ∃ s, run Key.step (.start (oneKey 1 false 20 600 1000))
        [pollOne 0 0, pollOne 1 100, pollOne 0 200, pollOne 1 300] = .ok s ∧
      s.report = [.doubleClick, .pressStart 0] ∧ ¬Consistent s := by
  have hrun : (fun s : Session => s.passes) <$>
      run Key.step (.start (oneKey 1 false 20 600 1000))
        [pollOne 0 0, pollOne 1 100, pollOne 0 200, pollOne 1 300] =
      .ok [⟨some 1, []⟩, ⟨some 1, []⟩, ⟨some 1, []⟩,
        ⟨some 1, [⟨1, .doubleClick⟩, ⟨1, .pressStart 0⟩]⟩] := by decide
  obtain ⟨s, hs, hpasses⟩ := map_eq_ok.mp hrun
  refine ⟨s, hs, by rw [Session.report, hpasses]; rfl, fun hconsistent => ?_⟩
  have halone := hconsistent.alone ⟨some 1, [⟨1, .doubleClick⟩, ⟨1, .pressStart 0⟩]⟩
    (by rw [hpasses]; decide)
  exact nomatch halone (by decide)

end IotKit.Key
