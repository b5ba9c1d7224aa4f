import IotKit.Key.Loop

/-!
# Whose gesture it is

All keys share one state machine, and its callbacks are those of the key on record: the first
in the order of registration that the last poll with a press found pressed.  A press of
another key in the middle of a gesture puts that key on record, and what the gesture still
reports goes to it.

Whose gesture it is, and which key a poll finds, is read off the levels that the polls show, and
not off the variables (`Session.gestureOf`, `Session.found`).
-/

namespace IotKit.Key

open CMemory Runs

/-! ## Attribution -/

def Callback.isStart : Callback → Prop
  | .pressStart _ => True
  | _ => False

/-- The callbacks that follow the start of a press. -/
def Callback.follows : Callback → Prop
  | .pressDuring _ => True
  | .pressStop _ => True
  | _ => False

/-- The start of a press was reported for the key, and for no other key since. -/
def StartedLast (num : UInt8) (log : List Called) : Prop :=
  ∃ before ms after, log = before ++ ⟨num, .pressStart ms⟩ :: after ∧
    ∀ c ∈ after, c.callback.isStart → c.keyNum = num

/-- What goes on or ends a press was started by the same key, if it reports starts at all. -/
def Led (keys : List IotxKey) (log : List Called) : Prop :=
  ∀ before c after, log = before ++ c :: after → c.callback.follows →
    Sets keys c.keyNum .pressStart → StartedLast c.keyNum before

/-- All callbacks so far. -/
def Session.log (s : Session) : List Called := s.passes.flatMap Pass.calls

/-- Every callback goes to the key whose press started its gesture, and every press that goes on
or ends was started for the same key. -/
structure Attributed (keys : List IotxKey) (s : Session) : Prop where
  gesture : ∀ p ∈ s.passes, ∀ c ∈ p.calls, p.gesture = some c.keyNum
  led : Led keys s.log

/-- A callback is due of the key that the poll is about, and set, and this key is not the one
whose press started the gesture; or a long press goes on or ends for a key that reports starts,
and when a start was last due, another key was found. -/
def Misattributes (keys : List IotxKey) (s : Session) (i : Poll) : Prop :=
  ∃ num, s.found keys i = some num ∧
    (∃ cbType, Due keys s.api.keyParams i num cbType ∧ Sets keys num cbType) ∧
      (s.gesture ≠ some num ∨ s.api.keyParams.state = .longPressed ∧
        Sets keys num .pressStart ∧ s.starter ≠ some num)

/-! ## Callbacks of a key -/

section Calls

variable {keys : List IotxKey} {cbType : KeyCbFuncType} {num : UInt8} {ms ms' : UInt32}

theorem mem_keyListExeCbFunc {c : Called} (h : c ∈ keyListExeCbFunc keys cbType num ms) :
    ∃ cur ∈ keys, cur.keyNum = num ∧ c.callback ∈ exeCbFunc cbType ms cur := by
  induction keys with
  | nil => cases h
  | cons cur keys ih =>
      rw [keyListExeCbFunc, List.mem_append] at h
      cases h with
      | inl hcur =>
          split at hcur
          next hnum =>
            obtain ⟨callback, hcallback, rfl⟩ := List.mem_map.mp hcur
            exact ⟨cur, List.mem_cons_self, hnum, hcallback⟩
          next => cases hcur
      | inr hrest =>
          obtain ⟨cur', hcur', hnum, hcallback⟩ := ih hrest
          exact ⟨cur', List.mem_cons_of_mem _ hcur', hnum, hcallback⟩

/-- A click and a double click are not part of a press that goes on. -/
theorem not_follows {c : Called} (h : c ∈ keyListExeCbFunc keys cbType num ms)
    (htype : cbType ≠ .pressDuring) (htype' : cbType ≠ .pressStop) : ¬c.callback.follows := by
  obtain ⟨cur, -, -, hcallback⟩ := mem_keyListExeCbFunc h
  cases cbType with
  | click =>
      simp only [exeCbFunc, List.mem_ite_nil_right, List.mem_singleton] at hcallback
      rw [hcallback.2]
      exact id
  | doubleClick =>
      simp only [exeCbFunc, List.mem_append, List.mem_ite_nil_right, List.mem_singleton]
        at hcallback
      rcases hcallback with hcallback | hcallback
      · rw [hcallback.2]
        exact id
      · rw [hcallback.2]
        exact id
  | pressStart =>
      simp only [exeCbFunc, List.mem_ite_nil_right, List.mem_singleton] at hcallback
      rw [hcallback.2]
      exact id
  | pressStop => exact absurd rfl htype'
  | pressDuring => exact absurd rfl htype

/-- What goes on or ends a press does so. -/
theorem follows_of_mem (htype : cbType = .pressDuring ∨ cbType = .pressStop) {c : Called}
    (h : c ∈ keyListExeCbFunc keys cbType num ms) : c.callback.follows := by
  obtain ⟨cur, -, -, hcallback⟩ := mem_keyListExeCbFunc h
  rcases htype with rfl | rfl
  · simp only [exeCbFunc, List.mem_ite_nil_right, List.mem_singleton] at hcallback
    rw [hcallback.2]
    exact trivial
  · simp only [exeCbFunc, List.mem_ite_nil_right, List.mem_singleton] at hcallback
    rw [hcallback.2]
    exact trivial

/-- The types that report the start of a press. -/
def KeyCbFuncType.starts : KeyCbFuncType → Prop
  | .pressStart => True
  | .doubleClick => True
  | _ => False

/-- A start is reported for one of these types, by a key that reports starts. -/
theorem starts_of_mem {c : Called} (h : c ∈ keyListExeCbFunc keys cbType num ms)
    (hstart : c.callback.isStart) : cbType.starts ∧ Sets keys num .pressStart := by
  obtain ⟨cur, hcur, hnum, hcallback⟩ := mem_keyListExeCbFunc h
  cases cbType with
  | doubleClick =>
      simp only [exeCbFunc, List.mem_append, List.mem_ite_nil_right, List.mem_singleton]
        at hcallback
      rcases hcallback with hcallback | hcallback
      · rw [hcallback.2] at hstart
        exact hstart.elim
      · exact ⟨trivial, cur, hcur, hnum, hcallback.1⟩
  | pressStart =>
      simp only [exeCbFunc, List.mem_ite_nil_right, List.mem_singleton] at hcallback
      exact ⟨trivial, cur, hcur, hnum, hcallback.1⟩
  | _ =>
      simp only [exeCbFunc, List.mem_ite_nil_right, List.mem_singleton] at hcallback
      rw [hcallback.2] at hstart
      exact hstart.elim

/-- A key that reports starts does so. -/
theorem start_mem (h : Sets keys num .pressStart) (htype : cbType.starts) :
    (⟨num, .pressStart ms⟩ : Called) ∈ keyListExeCbFunc keys cbType num ms := by
  obtain ⟨cur, hcur, hnum, hstart⟩ := h
  have hmade : Callback.pressStart ms ∈ exeCbFunc cbType ms cur := by
    cases cbType with
    | pressStart => rw [exeCbFunc, if_pos hstart, List.mem_singleton]
    | doubleClick =>
        rw [exeCbFunc, if_pos hstart]
        exact List.mem_append_right _ (List.mem_singleton_self _)
    | _ => exact htype.elim
  induction keys with
  | nil => cases hcur
  | cons head keys ih =>
      rw [keyListExeCbFunc, List.mem_append]
      cases List.mem_cons.mp hcur with
      | inl heq =>
          subst heq
          left
          rw [if_pos hnum]
          exact List.mem_map_of_mem hmade
      | inr hmem => exact .inr (ih hmem)

end Calls

/-! ## Starts and what follows them -/

section Logs

variable {keys : List IotxKey} {num : UInt8} {log more : List Called}

/-- Callbacks that start no press of another key leave the last start. -/
theorem StartedLast.append (h : StartedLast num log)
    (hmore : ∀ c ∈ more, c.callback.isStart → c.keyNum = num) :
    StartedLast num (log ++ more) := by
  obtain ⟨before, ms, after, rfl, hafter⟩ := h
  refine ⟨before, ms, after ++ more, by rw [List.append_assoc, List.cons_append], ?_⟩
  intro c hc
  cases List.mem_append.mp hc with
  | inl hold => exact hafter c hold
  | inr hnew => exact hmore c hnew

theorem startedLast_of_mem {ms : UInt32} (h : (⟨num, .pressStart ms⟩ : Called) ∈ more)
    (hmore : ∀ c ∈ more, c.callback.isStart → c.keyNum = num) :
    StartedLast num (log ++ more) := by
  obtain ⟨first, rest, rfl⟩ := List.append_of_mem h
  refine ⟨log ++ first, ms, rest, by rw [List.append_assoc], fun c hc => hmore c ?_⟩
  exact List.mem_append_right _ (List.mem_cons_of_mem _ hc)

/-- Callbacks that start no press leave what was started last. -/
theorem startedLast_append (hmore : ∀ c ∈ more, ¬c.callback.isStart) :
    StartedLast num (log ++ more) ↔ StartedLast num log := by
  refine ⟨?_, fun h => h.append fun c hc hstart => absurd hstart (hmore c hc)⟩
  rintro ⟨before, ms, after, heq, hafter⟩
  rcases List.append_eq_append_iff.mp heq with ⟨first, -, hmore'⟩ | ⟨excess, rfl, hexcess⟩
  · exact absurd trivial (hmore ⟨num, .pressStart ms⟩
      (hmore' ▸ List.mem_append_right _ List.mem_cons_self))
  · cases excess with
    | nil =>
        have hmem : (⟨num, .pressStart ms⟩ : Called) ∈ [] ++ more := hexcess ▸ List.mem_cons_self
        exact absurd trivial (hmore _ hmem)
    | cons c excess =>
        obtain ⟨rfl, rfl⟩ := List.cons.inj hexcess
        exact ⟨before, ms, excess, rfl, fun c hc => hafter c (List.mem_append_left _ hc)⟩

/-- Callbacks of one key among which a press is started. -/
theorem startedLast_append_start {other : UInt8} {ms : UInt32}
    (h : (⟨other, .pressStart ms⟩ : Called) ∈ more) (hmore : ∀ c ∈ more, c.keyNum = other) :
    StartedLast num (log ++ more) ↔ num = other := by
  constructor
  · rintro ⟨before, ms', after, heq, hafter⟩
    rcases List.append_eq_append_iff.mp heq with ⟨first, -, hmore'⟩ | ⟨excess, -, hexcess⟩
    · exact hmore ⟨num, .pressStart ms'⟩ (hmore' ▸ List.mem_append_right _ List.mem_cons_self)
    · cases excess with
      | nil =>
          have hmem : (⟨num, .pressStart ms'⟩ : Called) ∈ [] ++ more :=
            hexcess ▸ List.mem_cons_self
          exact hmore _ hmem
      | cons c excess =>
          obtain ⟨-, rfl⟩ := List.cons.inj hexcess
          exact (hafter _ (List.mem_append_right _ h) trivial).symm
  · rintro rfl
    exact startedLast_of_mem h fun c hc _ => hmore c hc

/-- New callbacks are led if each that follows a start does so. -/
theorem Led.append (h : Led keys log)
    (hmore : ∀ first c rest, more = first ++ c :: rest → c.callback.follows →
      Sets keys c.keyNum .pressStart → StartedLast c.keyNum (log ++ first)) :
    Led keys (log ++ more) := by
  intro before c after heq hfollows hstart
  rcases List.append_eq_append_iff.mp heq with ⟨first, rfl, hmore'⟩ | ⟨excess, hlog, hexcess⟩
  · exact hmore first c after hmore' hfollows hstart
  · cases excess with
    | nil =>
        rw [List.append_nil] at hlog
        subst hlog
        have hled := hmore [] c after hexcess.symm hfollows hstart
        rwa [List.append_nil] at hled
    | cons c' excess =>
        obtain ⟨rfl, -⟩ := List.cons.inj hexcess
        exact h before _ excess hlog hfollows hstart

end Logs

/-! ## Steps -/

section Steps

variable {keys : List IotxKey} {num buttonLevel : UInt8} {now : UInt32} {p : KeyParams}
  {state : State} {calls : List Called}

/-- Each callback of a pass is one that was asked for. -/
theorem Move.asked (h : Move keys num buttonLevel now p state calls) {c : Called}
    (hc : c ∈ calls) :
    c.keyNum = num ∧ p.state ≠ .waiting ∧ ∃ cbType, Asks keys num buttonLevel now p cbType ∧
      Sets keys num cbType := by
  have hset {cbType : KeyCbFuncType} {ms : UInt32}
      (hmem : c ∈ keyListExeCbFunc keys cbType num ms) : Sets keys num cbType :=
    keyListExeCbFunc_ne_nil.mp (List.ne_nil_of_mem hmem)
  cases h with
  | silent => cases hc
  | click hasks =>
      exact ⟨keyListExeCbFunc_keyNum hc, by rw [hasks.1]; nofun, .click, hasks, hset hc⟩
  | long hasks =>
      have hne : p.state ≠ .waiting := by rw [hasks.1]; nofun
      cases List.mem_append.mp hc with
      | inl hstart => exact ⟨keyListExeCbFunc_keyNum hstart, hne, _, hasks, hset hstart⟩
      | inr hduring =>
          exact ⟨keyListExeCbFunc_keyNum hduring, hne, .pressDuring, .inl hasks, hset hduring⟩
  | during hstate hlevel =>
      exact ⟨keyListExeCbFunc_keyNum hc, by rw [hstate]; nofun, .pressDuring,
        .inr ⟨hstate, hlevel⟩, hset hc⟩
  | stop hasks =>
      exact ⟨keyListExeCbFunc_keyNum hc, by rw [hasks.1]; nofun, .pressStop, hasks, hset hc⟩
  | doubleClick hasks =>
      exact ⟨keyListExeCbFunc_keyNum hc, by rw [hasks.1]; nofun, .doubleClick, hasks, hset hc⟩

/-- What goes on or ends a press comes in state 6, or right after the start of the press. -/
theorem Move.follows (h : Move keys num buttonLevel now p state calls)
    {first rest : List Called} {c : Called} (hcalls : calls = first ++ c :: rest)
    (hfollows : c.callback.follows) (hstart : Sets keys num .pressStart) :
    p.state = .longPressed ∨ (⟨num, .pressStart 0⟩ : Called) ∈ first := by
  have hc : c ∈ calls := by
    rw [hcalls]
    exact List.mem_append_right _ List.mem_cons_self
  cases h with
  | silent => cases hc
  | click => exact absurd hfollows (not_follows hc nofun nofun)
  | long =>
      right
      rcases List.append_eq_append_iff.mp hcalls with ⟨during, rfl, -⟩ | ⟨excess, hstarts, hexcess⟩
      · exact List.mem_append_left _ (start_mem hstart trivial)
      · cases excess with
        | nil =>
            rw [List.append_nil] at hstarts
            exact hstarts ▸ start_mem hstart trivial
        | cons c' excess =>
            -- the callback would be one of the starts
            obtain ⟨rfl, -⟩ := List.cons.inj hexcess
            have hmem : c ∈ keyListExeCbFunc keys .pressStart num 0 := by
              rw [hstarts]
              exact List.mem_append_right _ List.mem_cons_self
            exact absurd hfollows (not_follows hmem nofun nofun)
  | during hstate => exact .inl hstate
  | stop hasks => exact .inl hasks.1
  | doubleClick => exact absurd hfollows (not_follows hc nofun nofun)

/-- A callback that is asked for and set is made. -/
theorem Move.made (h : Move keys num buttonLevel now p state calls) {cbType : KeyCbFuncType}
    (hasks : Asks keys num buttonLevel now p cbType)
    (hset : Sets keys num cbType) :
    calls ≠ [] ∧ (p.state = .longPressed → ∀ c ∈ calls, c.callback.follows) := by
  have hmade {ms : UInt32} : keyListExeCbFunc keys cbType num ms ≠ [] :=
    keyListExeCbFunc_ne_nil.mpr hset
  have htype := hasks.cbType
  cases h with
  | silent hquiet => exact absurd hasks (hquiet _)
  | click hasks' =>
      rw [hasks'.1] at htype
      subst htype
      exact ⟨hmade, fun hlong => nomatch hasks'.1.symm.trans hlong⟩
  | long hasks' =>
      rw [hasks'.1] at htype
      refine ⟨?_, fun hlong => nomatch hasks'.1.symm.trans hlong⟩
      rcases htype with rfl | rfl
      · exact List.append_ne_nil_of_left_ne_nil hmade _
      · exact List.append_ne_nil_of_right_ne_nil _ hmade
  | during hstate hlevel =>
      rw [hstate] at htype
      dsimp only at htype
      rw [if_neg hlevel] at htype
      subst htype
      exact ⟨hmade, fun _ c hc => follows_of_mem (.inl rfl) hc⟩
  | stop hasks' =>
      rw [hasks'.1] at htype
      dsimp only at htype
      rw [if_pos hasks'.2] at htype
      subst htype
      exact ⟨hmade, fun _ c hc => follows_of_mem (.inr rfl) hc⟩
  | doubleClick hasks' =>
      rw [hasks'.1] at htype
      subst htype
      exact ⟨hmade, fun hlong => nomatch hasks'.1.symm.trans hlong⟩

/-- A start that is due of a key that reports starts is reported. -/
theorem Move.starts (h : Move keys num buttonLevel now p state calls)
    (hasks : Asks keys num buttonLevel now p .pressStart ∨
      Asks keys num buttonLevel now p .doubleClick) (hset : Sets keys num .pressStart) :
    ∃ ms, (⟨num, .pressStart ms⟩ : Called) ∈ calls := by
  have hstate : p.state = .pressed ∨ p.state = .pressedAgain :=
    hasks.imp (fun h => h.1) (fun h => h.1)
  cases h with
  | silent hquiet => exact (hasks.elim (hquiet _) (hquiet _)).elim
  | click hasks' =>
      rw [hasks'.1] at hstate
      exact hstate.elim nofun nofun
  | long => exact ⟨0, List.mem_append_left _ (start_mem hset trivial)⟩
  | during hlong =>
      rw [hlong] at hstate
      exact hstate.elim nofun nofun
  | stop hasks' =>
      rw [hasks'.1] at hstate
      exact hstate.elim nofun nofun
  | doubleClick => exact ⟨0, start_mem hset trivial⟩

/-- No other start is reported. -/
theorem Move.startless (h : Move keys num buttonLevel now p state calls)
    (hnot : ¬((Asks keys num buttonLevel now p .pressStart ∨
      Asks keys num buttonLevel now p .doubleClick) ∧ Sets keys num .pressStart)) :
    ∀ c ∈ calls, ¬c.callback.isStart := by
  intro c hc hstart
  cases h with
  | silent => cases hc
  | click => exact (starts_of_mem hc hstart).1
  | long hasks =>
      rcases List.mem_append.mp hc with hc | hc
      · exact hnot ⟨.inl hasks, (starts_of_mem hc hstart).2⟩
      · exact (starts_of_mem hc hstart).1
  | during => exact (starts_of_mem hc hstart).1
  | stop => exact (starts_of_mem hc hstart).1
  | doubleClick hasks => exact hnot ⟨.inr hasks, (starts_of_mem hc hstart).2⟩

/-- The machine leaves state 0 at a press. -/
theorem Move.leaves (h : Move keys num buttonLevel now p state calls) (hne : state ≠ .waiting) :
    p.state ≠ .waiting ∨ buttonLevel = p.buttonPressed := by
  by_cases hwaiting : p.state = .waiting
  · cases h with
    | silent _ _ _ hlevel => exact .inr (hlevel hwaiting hne)
    | click => exact absurd rfl hne
    | long hasks => exact .inr hasks.2.1
    | during hlong => exact nomatch hwaiting.symm.trans hlong
    | stop => exact absurd rfl hne
    | doubleClick => exact absurd rfl hne
  · exact .inl hwaiting

end Steps

/-- What the passes keep: the key on record is the one that the polls have shown last, and the
last start was reported for the key that was found then. -/
structure Attributing (keys : List IotxKey) (s : Session) : Prop where
  head : s.api.keyListHead = some keys
  latest : s.api.keyParams.state ≠ .waiting → s.latest = some s.api.keyNumRecord
  started : ∀ num, StartedLast num s.log ↔ s.starter = some num
  attributed : Attributed keys s

section Passes

variable {keys : List IotxKey} {s s' : Session} {i : Poll} {calls : List Called}

theorem Passed.log (h : Passed keys s i calls s') : s'.log = s.log ++ calls := by
  rw [Session.log, h.passes, List.flatMap_append, List.flatMap_singleton]
  rfl

/-- The key on record after a pass is the one that the poll is about. -/
theorem Passed.found (h : Passed keys s i calls s') (hs : Attributing keys s)
    (hstate : s.api.keyParams.state ≠ .waiting ∨
      pressedKey s.api.keyParams i.levels keys ≠ none) :
    s.found keys i = some s'.api.keyNumRecord := by
  rw [h.record, Session.found, keyListGetValue]
  cases hpressed : pressedKey s.api.keyParams i.levels keys with
  | some cur => rfl
  | none => exact hs.latest (hstate.resolve_right fun hne => hne hpressed)

/-- The last start after a pass. -/
theorem Passed.started (h : Passed keys s i calls s') (hs : Attributing keys s) (num : UInt8) :
    StartedLast num s'.log ↔ s'.starter = some num := by
  have hmove := h.move
  rw [h.log, h.starter]
  by_cases hdue : (Due keys s.api.keyParams i s'.api.keyNumRecord .pressStart ∨
      Due keys s.api.keyParams i s'.api.keyNumRecord .doubleClick) ∧
      Sets keys s'.api.keyNumRecord .pressStart
  · have hstate : s.api.keyParams.state ≠ .waiting := fun hwaiting =>
      hdue.1.elim (fun hstart => nomatch hwaiting.symm.trans hstart.1)
        (fun hend => nomatch hwaiting.symm.trans hend.1)
    obtain ⟨ms, hmem⟩ := hmove.starts (hdue.1.imp asks_iff.mpr asks_iff.mpr) hdue.2
    rw [Session.starterOf, h.found hs (.inl hstate)]
    dsimp only
    rw [if_pos hdue, startedLast_append_start hmem fun c hc => (hmove.asked hc).1]
    exact ⟨fun heq => heq ▸ rfl, fun heq => (Option.some.inj heq).symm⟩
  · have hnone := hmove.startless fun hasks => hdue ⟨hasks.1.imp asks_iff.mp asks_iff.mp, hasks.2⟩
    rw [startedLast_append hnone, hs.started]
    -- where nothing is found the machine is in state 0, and nothing is due
    have hsame : s.starterOf keys i = s.starter := by
      rw [Session.starterOf]
      by_cases hstate : s.api.keyParams.state = .waiting
      · split
        next num _ =>
          refine if_neg fun hdue => ?_
          exact hdue.1.elim (fun hstart => nomatch hstate.symm.trans hstart.1)
            (fun hend => nomatch hstate.symm.trans hend.1)
        next => rfl
      · rw [h.found hs (.inl hstate)]
        exact if_neg hdue
    rw [hsame]

theorem Passed.latest_record (h : Passed keys s i calls s') (hs : Attributing keys s)
    (hne : s'.api.keyParams.state ≠ .waiting) : s'.latest = some s'.api.keyNumRecord := by
  rw [h.latest]
  exact h.found hs ((h.move.leaves hne).imp_right pressed_iff.mp)

/-- A pass that does not misattribute keeps the callbacks with their keys. -/
theorem Attributing.step (hs : Attributing keys s) (hi : ¬Misattributes keys s i)
    (hstep : Key.step s i = .ok s') : Attributing keys s' := by
  obtain ⟨calls, h⟩ := step_passed hs.head hstep
  -- a callback of the pass goes to the key of the gesture, and in state 6 to that of the start
  have hcall {c : Called} (hc : c ∈ calls) :
      s'.gesture = some c.keyNum ∧ (s.api.keyParams.state = .longPressed →
        Sets keys c.keyNum .pressStart → StartedLast c.keyNum s.log) := by
    obtain ⟨hnum, hne, cbType, hasks, hset⟩ := h.move.asked hc
    have hfound := h.found hs (.inl hne)
    rw [h.gesture, Session.gestureOf, if_neg fun hwaiting => hne hwaiting.1, hnum]
    constructor
    · by_contra hother
      exact hi ⟨_, hfound, ⟨cbType, asks_iff.mp hasks, hset⟩, .inl hother⟩
    · intro hlong hstart
      by_contra hnot
      exact hi ⟨_, hfound, ⟨cbType, asks_iff.mp hasks, hset⟩,
        .inr ⟨hlong, hstart, fun heq => hnot ((hs.started _).mpr heq)⟩⟩
  refine ⟨h.head, h.latest_record hs, h.started hs, fun p hp c hc => ?_, ?_⟩
  · rw [h.passes] at hp
    cases List.mem_append.mp hp with
    | inl hold => exact hs.attributed.gesture p hold c hc
    | inr hnew =>
        rw [List.mem_singleton.mp hnew] at hc ⊢
        exact (hcall hc).1
  · rw [h.log]
    refine hs.attributed.led.append fun first c rest hcalls hfollows hstart => ?_
    have hc : c ∈ calls := by
      rw [hcalls]
      exact List.mem_append_right _ List.mem_cons_self
    have hnum := (h.move.asked hc).1
    have hfirst : ∀ c' ∈ first, c'.callback.isStart → c'.keyNum = c.keyNum := fun c' hc' _ =>
      (h.move.asked (hcalls ▸ List.mem_append_left _ hc')).1.trans hnum.symm
    rcases h.move.follows hcalls hfollows (hnum ▸ hstart) with hlong | hstarted
    · exact ((hcall hc).2 hlong hstart).append hfirst
    · rw [← hnum] at hstarted
      exact startedLast_of_mem hstarted hfirst

/-- One that does leaves a callback with the wrong key. -/
theorem Attributing.misattributed (hs : Attributing keys s) (hi : Misattributes keys s i) :
    ∃ s', Key.step s i = .ok s' ∧ ¬Attributed keys s' := by
  obtain ⟨s', hstep⟩ := step_ok hs.head i
  refine ⟨s', hstep, fun hattributed => ?_⟩
  obtain ⟨calls, h⟩ := step_passed hs.head hstep
  obtain ⟨num, hfound, ⟨cbType, hdue, hset⟩, hwrong⟩ := hi
  have hne : s.api.keyParams.state ≠ .waiting := by
    intro hwaiting
    have htype := (asks_iff.mpr hdue).cbType
    rw [hwaiting] at htype
    exact htype
  obtain rfl : s'.api.keyNumRecord = num :=
    Option.some.inj ((h.found hs (.inl hne)).symm.trans hfound)
  obtain ⟨hmade, hfollows⟩ := h.move.made (asks_iff.mpr hdue) hset
  obtain ⟨c, rest, rfl⟩ := List.exists_cons_of_ne_nil hmade
  obtain ⟨hnum, -⟩ := h.move.asked List.mem_cons_self
  have hgesture : s'.gesture = s.gesture := by
    rw [h.gesture, Session.gestureOf, if_neg fun hwaiting => hne hwaiting.1]
  rcases hwrong with hother | ⟨hlong, hstart, hnot⟩
  · have hown := hattributed.gesture _
      (h.passes ▸ List.mem_append_right _ (List.mem_singleton_self _)) c List.mem_cons_self
    dsimp only at hown
    rw [hgesture, hnum] at hown
    exact hother hown
  · have hled := hattributed.led s.log c rest h.log (hfollows hlong c List.mem_cons_self)
      (hnum ▸ hstart)
    rw [hnum, hs.started] at hled
    exact hnot hled

end Passes

/-- For every list of keys and any thresholds, no pass faults, and after every pass all callbacks
are attributed to one key a gesture, if and only if no pass misattributes one. -/
theorem attributed_iff (keys : List IotxKey) (record : UInt8) (invert : Bool)
    (debounceTime clickTime pressTime : UInt32) (polls : List Poll) :
    let start := Session.start (iotKeySetParams ⟨KeyApi.initial.keyParams, record, some keys, true⟩
      invert debounceTime clickTime pressTime)
    (∃ s, run Key.step start polls = .ok s) ∧
      ((∀ done s, done <+: polls → run Key.step start done = .ok s → Attributed keys s) ↔
        Guarded Key.step (fun s i => ¬Misattributes keys s i) start polls) := by
  intro start
  have hlog : start.log = [] := rfl
  have hwaiting : start.api.keyParams.state = .waiting := by
    cases invert with
    | false => rfl
    | true => rfl
  have hstart : Attributing keys start := by
    refine ⟨rfl, fun hne => absurd hwaiting hne, fun num => iff_of_false ?_ nofun, nofun, ?_⟩
    · rintro ⟨before, ms, after, heq, -⟩
      exact absurd (heq.symm.trans hlog) (List.append_ne_nil_of_right_ne_nil _ nofun)
    · intro before c after heq
      exact absurd (heq.symm.trans hlog) (List.append_ne_nil_of_right_ne_nil _ nofun)
  exact ⟨run_ok hstart.head polls, always_good_iff Attributing.attributed
    (fun h hi hstep => h.step hi hstep) (fun h hi => h.misattributed (not_not.mp hi)) hstart⟩

/-- The second key is pressed at 0 ms, and at 1500 ms the first one too. -/
theorem other_key_not_attributed :
    ∃ s, run Key.step (.start (iotKeySetParams ⟨KeyApi.initial.keyParams, 0,
          some [⟨1, true, true, true, true, true⟩, ⟨2, true, true, true, true, true⟩], true⟩
          false 20 600 1000))
        [⟨fun num => if num = 2 then 0 else 1, 0⟩, ⟨fun _ => 0, 1500⟩] = .ok s ∧
      s.passes = [⟨some 2, []⟩, ⟨some 2, [⟨1, .pressStart 0⟩, ⟨1, .pressDuring 1500⟩]⟩] ∧
      ¬Attributed [⟨1, true, true, true, true, true⟩, ⟨2, true, true, true, true, true⟩] s := by
  have hrun : (fun s : Session => s.passes) <$>
      run Key.step (.start (iotKeySetParams ⟨KeyApi.initial.keyParams, 0,
          some [⟨1, true, true, true, true, true⟩, ⟨2, true, true, true, true, true⟩], true⟩
          false 20 600 1000))
        [⟨fun num => if num = 2 then 0 else 1, 0⟩, ⟨fun _ => 0, 1500⟩] =
      .ok [⟨some 2, []⟩, ⟨some 2, [⟨1, .pressStart 0⟩, ⟨1, .pressDuring 1500⟩]⟩] := by decide
  obtain ⟨s, hs, hpasses⟩ := map_eq_ok.mp hrun
  refine ⟨s, hs, hpasses, fun hattributed => ?_⟩
  have hown := hattributed.gesture ⟨some 2, [⟨1, .pressStart 0⟩, ⟨1, .pressDuring 1500⟩]⟩
    (by rw [hpasses]; decide) ⟨1, .pressStart 0⟩ (by decide)
  exact absurd hown (by decide)

end IotKit.Key
