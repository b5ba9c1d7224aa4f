import IotKit.Lib.Memory
import IotKit.Lib.Run

/-!
# Keys

`iotx_key_api.c`: the registered keys, and the one state machine that `IOT_KEY_Loop` moves
for all of them.  A pass asks the keys for their levels in the order of their registration,
up to the first that is pressed, and its callbacks are those of the key that was found pressed
last.

A callback is a field that is set or not, and a pass returns the callbacks it makes, in their
order.
-/

namespace IotKit.Key

open CMemory Runs

/-! ## Data -/

/-- A callback that is made, with its argument. -/
inductive Callback where
  | click
  | doubleClick
  | pressStart (ms : UInt32)
  | pressStop (ms : UInt32)
  | pressDuring (ms : UInt32)
deriving DecidableEq, Repr

/-- The callback of a key. -/
structure Called where
  keyNum : UInt8
  callback : Callback
deriving DecidableEq, Repr

/-- `keyCbFuncType`. -/
inductive KeyCbFuncType where
  | click
  | doubleClick
  | pressStart
  | pressStop
  | pressDuring
deriving DecidableEq, Repr

/-- `iotx_key_t`: which of the callbacks are set. -/
structure IotxKey where
  keyNum : UInt8
  cbKeyClickFunc : Bool
  cbKeyDoubleClickFunc : Bool
  cbKeyPressStartFunc : Bool
  cbKeyPressStopFunc : Bool
  cbKeyPressDuringFunc : Bool
deriving DecidableEq, Repr

/-- The values of `_state`. -/
inductive State where
  /-- 0: waiting for a press. -/
  | waiting
  /-- 1: waiting for the release. -/
  | pressed
  /-- 2: waiting for a second press or for the end of the click time. -/
  | released
  /-- 3: waiting for the second release. -/
  | pressedAgain
  /-- 6: waiting for the release after a long press. -/
  | longPressed
deriving DecidableEq, Repr

/-- `iotx_key_param_t`.  `IOT_KEY_SetParams` keeps the two levels apart. -/
structure KeyParams where
  state : State
  debounceTime : UInt32
  clickTime : UInt32
  pressTime : UInt32
  buttonReleased : UInt8
  buttonPressed : UInt8
  isLongPressed : Bool
  startTime : UInt32
  stopTime : UInt32
  levels : buttonReleased ≠ buttonPressed
deriving DecidableEq, Repr

/-- The static variables.  The list is `none` where `keyListHead` is NULL. -/
structure KeyApi where
  keyParams : KeyParams
  keyNumRecord : UInt8
  keyListHead : Option (List IotxKey)
  keyListInitFlag : Bool
deriving DecidableEq, Repr

/-- Before any call. -/
def KeyApi.initial : KeyApi where
  keyParams := ⟨.waiting, 20, 600, 1000, 1, 0, false, 0, 0, by decide⟩
  keyNumRecord := 0
  keyListHead := none
  keyListInitFlag := false

/-- The list behind `keyListHead`. -/
def KeyApi.keys (k : KeyApi) : Checked (List IotxKey) :=
  match k.keyListHead with
  | some keys => .ok keys
  | none => .error .load

theorem KeyApi.keys_eq {k : KeyApi} {keys : List IotxKey} (h : k.keyListHead = some keys) :
    k.keys = .ok keys := by
  rw [KeyApi.keys, h]

/-! ## The list -/

/-- `KeyListInsert`, where `KeyExists` says whether the number is taken. -/
def keyListInsert (obj : IotxKey) (keys : List IotxKey) : List IotxKey :=
  if keys.any (·.keyNum = obj.keyNum) then keys else keys ++ [obj]

/-- `IOT_KEY_Register`, where the head and the node are allocated or not. -/
def iotKeyRegister (k : KeyApi) (num : UInt8) (head node : Bool) : Checked KeyApi :=
  let k :=
    if k.keyListInitFlag = false then
      { k with keyListInitFlag := true, keyListHead := if head then some [] else none }
    else k
  if node = false then .ok k
  else do
    let keys ← k.keys
    .ok { k with
      keyListHead := some (keyListInsert ⟨num, false, false, false, false, false⟩ keys) }

/-- `KeyListRegisterCbFunc` for one node. -/
def registerCb (cbType : KeyCbFuncType) (cur : IotxKey) : IotxKey :=
  match cbType with
  | .click => { cur with cbKeyClickFunc := true }
  | .doubleClick => { cur with cbKeyDoubleClickFunc := true }
  | .pressStart => { cur with cbKeyPressStartFunc := true }
  | .pressStop => { cur with cbKeyPressStopFunc := true }
  | .pressDuring => { cur with cbKeyPressDuringFunc := true }

/-- `KeyListRegisterCbFunc`: the first node with the number. -/
def keyListRegisterCbFunc (cbType : KeyCbFuncType) (num : UInt8) : List IotxKey → List IotxKey
  | [] => []
  | cur :: keys =>
      if cur.keyNum = num then registerCb cbType cur :: keys
      else cur :: keyListRegisterCbFunc cbType num keys

/-- `IOT_KEY_ClickCb`, `IOT_KEY_DoubleClickCb`, `IOT_KEY_PressStartCb`, `IOT_KEY_PressStopCb` and
`IOT_KEY_PressDuringCb`. -/
def iotKeyCb (cbType : KeyCbFuncType) (k : KeyApi) (num : UInt8) : Checked KeyApi := do
  let keys ← k.keys
  .ok { k with keyListHead := some (keyListRegisterCbFunc cbType num keys) }

/-- `IOT_KEY_SetParams`. -/
def iotKeySetParams (k : KeyApi) (invert : Bool) (debounceTime clickTime pressTime : UInt32) :
    KeyApi :=
  { k with
    keyParams :=
      match invert with
      | false => ⟨.waiting, debounceTime, clickTime, pressTime, 1, 0,
          k.keyParams.isLongPressed, 0, 0, by decide⟩
      | true => ⟨.waiting, debounceTime, clickTime, pressTime, 0, 1,
          k.keyParams.isLongPressed, 0, 0, by decide⟩ }

/-! ## Callbacks -/

/-- `KeyListQueryDoubleClickCb`. -/
def keyListQueryDoubleClickCb (keys : List IotxKey) (num : UInt8) : Bool :=
  keys.any fun cur => cur.keyNum = num ∧ cur.cbKeyDoubleClickFunc = true

/-- `KeyListExeCbFunc` for one node.  The case of a double click has no `break` and goes on with
the next one. -/
def exeCbFunc (cbType : KeyCbFuncType) (ms : UInt32) (cur : IotxKey) : List Callback :=
  match cbType with
  | .click => if cur.cbKeyClickFunc then [.click] else []
  | .doubleClick =>
      (if cur.cbKeyDoubleClickFunc then [.doubleClick] else []) ++
        (if cur.cbKeyPressStartFunc then [.pressStart ms] else [])
  | .pressStart => if cur.cbKeyPressStartFunc then [.pressStart ms] else []
  | .pressStop => if cur.cbKeyPressStopFunc then [.pressStop ms] else []
  | .pressDuring => if cur.cbKeyPressDuringFunc then [.pressDuring ms] else []

/-- `KeyListExeCbFunc`. -/
def keyListExeCbFunc (keys : List IotxKey) (cbType : KeyCbFuncType) (num : UInt8) (ms : UInt32) :
    List Called :=
  match keys with
  | [] => []
  | cur :: keys =>
      (if cur.keyNum = num then (exeCbFunc cbType ms cur).map (⟨num, ·⟩) else []) ++
        keyListExeCbFunc keys cbType num ms

/-! ## A pass -/

/-- The key that `KeyListGetValue` finds pressed. -/
def pressedKey (p : KeyParams) (levels : UInt8 → UInt16) (keys : List IotxKey) : Option IotxKey :=
  keys.find? fun cur => levels cur.keyNum = p.buttonPressed.toUInt16

/-- `KeyListGetValue`: the level and the key on record. -/
def keyListGetValue (k : KeyApi) (levels : UInt8 → UInt16) (keys : List IotxKey) :
    UInt8 × UInt8 :=
  match pressedKey k.keyParams levels keys with
  | some cur => (k.keyParams.buttonPressed, cur.keyNum)
  | none => (k.keyParams.buttonReleased, k.keyNumRecord)

/-- The state machine of `IOT_KEY_Loop`. -/
def stateMachine (keys : List IotxKey) (num : UInt8) (buttonLevel : UInt8) (now : UInt32)
    (p : KeyParams) : KeyParams × List Called :=
  match p.state with
  | .waiting =>
      if buttonLevel = p.buttonPressed then ({ p with state := .pressed, startTime := now }, [])
      else (p, [])
  | .pressed =>
      if buttonLevel = p.buttonReleased ∧ now - p.startTime < p.debounceTime then
        ({ p with state := .waiting }, [])
      else if buttonLevel = p.buttonReleased then
        ({ p with state := .released, stopTime := now }, [])
      else if buttonLevel = p.buttonPressed ∧ p.pressTime < now - p.startTime then
        ({ p with state := .longPressed, isLongPressed := true },
          keyListExeCbFunc keys .pressStart num 0 ++
            keyListExeCbFunc keys .pressDuring num (now - p.startTime))
      else (p, [])
  | .released =>
      if keyListQueryDoubleClickCb keys num = false ∨ p.clickTime < now - p.startTime then
        ({ p with state := .waiting }, keyListExeCbFunc keys .click num 0)
      else if buttonLevel = p.buttonPressed ∧ p.debounceTime < now - p.stopTime then
        ({ p with state := .pressedAgain, startTime := now }, [])
      else (p, [])
  | .pressedAgain =>
      if buttonLevel = p.buttonReleased ∧ p.debounceTime < now - p.startTime then
        ({ p with state := .waiting }, keyListExeCbFunc keys .doubleClick num 0)
      else (p, [])
  | .longPressed =>
      if buttonLevel = p.buttonReleased then
        ({ p with state := .waiting, isLongPressed := false },
          keyListExeCbFunc keys .pressStop num (now - p.startTime))
      else
        ({ p with isLongPressed := true },
          keyListExeCbFunc keys .pressDuring num (now - p.startTime))

/-- `IOT_KEY_Loop`, with the levels of the keys and the clock. -/
def iotKeyLoop (k : KeyApi) (levels : UInt8 → UInt16) (now : UInt32) :
    Checked (KeyApi × List Called) := do
  let keys ← k.keys
  let (buttonLevel, num) := keyListGetValue k levels keys
  let (keyParams, calls) := stateMachine keys num buttonLevel now k.keyParams
  .ok ({ k with keyParams, keyNumRecord := num }, calls)

/-! ## What a pass can do -/

/-- The callbacks that the state machine asks for, whether they are set or not. -/
def Asks (keys : List IotxKey) (num buttonLevel : UInt8) (now : UInt32) (p : KeyParams) :
    KeyCbFuncType → Prop
  | .click => p.state = .released ∧
      (keyListQueryDoubleClickCb keys num = false ∨ p.clickTime < now - p.startTime)
  | .doubleClick => p.state = .pressedAgain ∧ buttonLevel = p.buttonReleased ∧
      p.debounceTime < now - p.startTime
  | .pressStart => p.state = .pressed ∧ buttonLevel = p.buttonPressed ∧
      p.pressTime < now - p.startTime
  | .pressStop => p.state = .longPressed ∧ buttonLevel = p.buttonReleased
  | .pressDuring =>
      p.state = .pressed ∧ buttonLevel = p.buttonPressed ∧ p.pressTime < now - p.startTime ∨
        p.state = .longPressed ∧ buttonLevel ≠ p.buttonReleased

/-- A move of the state machine with its callbacks, one constructor for each kind. -/
inductive Move (keys : List IotxKey) (num buttonLevel : UInt8) (now : UInt32) (p : KeyParams) :
    State → List Called → Prop
  | silent {state : State} : (∀ cbType, ¬Asks keys num buttonLevel now p cbType) →
      p.state ≠ .longPressed → state ≠ .longPressed →
      (p.state = .waiting → state ≠ .waiting → buttonLevel = p.buttonPressed) →
      Move keys num buttonLevel now p state []
  | click : Asks keys num buttonLevel now p .click →
      Move keys num buttonLevel now p .waiting (keyListExeCbFunc keys .click num 0)
  | long : Asks keys num buttonLevel now p .pressStart →
      Move keys num buttonLevel now p .longPressed (keyListExeCbFunc keys .pressStart num 0 ++
        keyListExeCbFunc keys .pressDuring num (now - p.startTime))
  | during : p.state = .longPressed → buttonLevel ≠ p.buttonReleased →
      Move keys num buttonLevel now p .longPressed
        (keyListExeCbFunc keys .pressDuring num (now - p.startTime))
  | stop : Asks keys num buttonLevel now p .pressStop →
      Move keys num buttonLevel now p .waiting
        (keyListExeCbFunc keys .pressStop num (now - p.startTime))
  | doubleClick : Asks keys num buttonLevel now p .doubleClick →
      Move keys num buttonLevel now p .waiting (keyListExeCbFunc keys .doubleClick num 0)

section Moves

variable {keys : List IotxKey} {num buttonLevel : UInt8} {now : UInt32} {p : KeyParams}

/-- What is asked for in each state. -/
theorem Asks.cbType {cbType : KeyCbFuncType} (h : Asks keys num buttonLevel now p cbType) :
    match p.state with
    | .waiting => False
    | .pressed => cbType = .pressStart ∨ cbType = .pressDuring
    | .released => cbType = .click
    | .pressedAgain => cbType = .doubleClick
    | .longPressed => cbType = if buttonLevel = p.buttonReleased then .pressStop else .pressDuring
    := by
  cases cbType with
  | click => rw [h.1]
  | doubleClick => rw [h.1]
  | pressStart =>
      rw [h.1]
      exact .inl rfl
  | pressStop =>
      rw [h.1]
      exact (if_pos h.2).symm
  | pressDuring =>
      rcases h with hfirst | hlater
      · rw [hfirst.1]
        exact .inr rfl
      · rw [hlater.1]
        exact (if_neg hlater.2).symm

/-- Nothing is asked for in a state that asks for nothing else. -/
theorem not_asks {state : State} (hstate : p.state = state)
    (hclick : state = .released → ¬Asks keys num buttonLevel now p .click)
    (hdouble : state = .pressedAgain → ¬Asks keys num buttonLevel now p .doubleClick)
    (hstart : state = .pressed → ¬Asks keys num buttonLevel now p .pressStart)
    (hlong : state ≠ .longPressed) (cbType : KeyCbFuncType) :
    ¬Asks keys num buttonLevel now p cbType := by
  intro h
  cases cbType with
  | click => exact hclick (hstate.symm.trans h.1) h
  | doubleClick => exact hdouble (hstate.symm.trans h.1) h
  | pressStart => exact hstart (hstate.symm.trans h.1) h
  | pressStop => exact hlong (hstate.symm.trans h.1)
  | pressDuring =>
      rcases h with hfirst | hlater
      · exact hstart (hstate.symm.trans hfirst.1) hfirst
      · exact hlong (hstate.symm.trans hlater.1)

theorem stateMachine_move (keys : List IotxKey) (num buttonLevel : UInt8) (now : UInt32)
    (p : KeyParams) :
    Move keys num buttonLevel now p (stateMachine keys num buttonLevel now p).1.state
      (stateMachine keys num buttonLevel now p).2 := by
  rw [stateMachine]
  cases hstate : p.state with
  | waiting =>
      have hquiet : ∀ cbType, ¬Asks keys num buttonLevel now p cbType :=
        not_asks hstate nofun nofun nofun nofun
      dsimp only
      split
      next hlevel => exact .silent hquiet (by rw [hstate]; nofun) nofun fun _ _ => hlevel
      next =>
        exact .silent hquiet (by rw [hstate]; nofun) (by rw [hstate]; nofun)
          fun _ hne => absurd hstate hne
  | pressed =>
      have hlong : p.state ≠ .longPressed := by rw [hstate]; nofun
      have hwaiting : p.state ≠ .waiting := by rw [hstate]; nofun
      have hquiet (hnot : ¬(buttonLevel = p.buttonPressed ∧ p.pressTime < now - p.startTime)) :
          ∀ cbType, ¬Asks keys num buttonLevel now p cbType :=
        not_asks hstate nofun nofun (fun _ h => hnot h.2) nofun
      dsimp only
      split
      next h =>
        exact .silent (hquiet fun h' => p.levels (h.1.symm.trans h'.1)) hlong nofun
          fun h => absurd h hwaiting
      split
      next h =>
        exact .silent (hquiet fun h' => p.levels (h.symm.trans h'.1)) hlong nofun
          fun h => absurd h hwaiting
      split
      next h => exact .long ⟨hstate, h⟩
      next h => exact .silent (hquiet h) hlong hlong fun h => absurd h hwaiting
  | released =>
      have hlong : p.state ≠ .longPressed := by rw [hstate]; nofun
      have hwaiting : p.state ≠ .waiting := by rw [hstate]; nofun
      dsimp only
      split
      next h => exact .click ⟨hstate, h⟩
      next h =>
        have hquiet : ∀ cbType, ¬Asks keys num buttonLevel now p cbType :=
          not_asks hstate (fun _ h' => h h'.2) nofun nofun nofun
        split
        · exact .silent hquiet hlong nofun fun h => absurd h hwaiting
        · exact .silent hquiet hlong hlong fun h => absurd h hwaiting
  | pressedAgain =>
      have hlong : p.state ≠ .longPressed := by rw [hstate]; nofun
      have hwaiting : p.state ≠ .waiting := by rw [hstate]; nofun
      dsimp only
      split
      next h => exact .doubleClick ⟨hstate, h⟩
      next h =>
        exact .silent (not_asks hstate nofun (fun _ h' => h h'.2) nofun nofun) hlong hlong
          fun h => absurd h hwaiting
  | longPressed =>
      dsimp only
      split
      next h => exact .stop ⟨hstate, h⟩
      next h => exact .during hstate h

end Moves

/-- All callbacks of a pass are those of the key on record. -/
theorem keyListExeCbFunc_keyNum {keys : List IotxKey} {cbType : KeyCbFuncType} {num : UInt8}
    {ms : UInt32} {c : Called} (h : c ∈ keyListExeCbFunc keys cbType num ms) : c.keyNum = num := by
  induction keys with
  | nil => cases h
  | cons cur keys ih =>
      rw [keyListExeCbFunc, List.mem_append] at h
      cases h with
      | inl hcur =>
          split at hcur
          · obtain ⟨_, -, rfl⟩ := List.mem_map.mp hcur
            rfl
          · cases hcur
      | inr hrest => exact ih hrest

/-! ## Polls -/

/-- What a pass finds. -/
structure Poll where
  levels : UInt8 → UInt16
  now : UInt32

/-- The level is that of a release where no key is pressed. -/
theorem released_iff {api : KeyApi} {levels : UInt8 → UInt16} {keys : List IotxKey} :
    (keyListGetValue api levels keys).1 = api.keyParams.buttonReleased ↔
      pressedKey api.keyParams levels keys = none := by
  rw [keyListGetValue]
  split
  next cur hcur => exact iff_of_false (fun h => api.keyParams.levels h.symm) (by rw [hcur]; nofun)
  next hnone => exact iff_of_true rfl hnone

/-- The level is that of a press where a key is pressed. -/
theorem pressed_iff {api : KeyApi} {levels : UInt8 → UInt16} {keys : List IotxKey} :
    (keyListGetValue api levels keys).1 = api.keyParams.buttonPressed ↔
      pressedKey api.keyParams levels keys ≠ none := by
  rw [keyListGetValue]
  split
  next cur hcur => exact iff_of_true rfl (by rw [hcur]; nofun)
  next hnone => exact iff_of_false api.keyParams.levels (not_not.mpr hnone)

/-- A callback of a key is due by the levels of the keys and the clock, whether it is set or
not. -/
def Due (keys : List IotxKey) (p : KeyParams) (i : Poll) (num : UInt8) : KeyCbFuncType → Prop
  | .click => p.state = .released ∧
      (keyListQueryDoubleClickCb keys num = false ∨ p.clickTime < i.now - p.startTime)
  | .doubleClick => p.state = .pressedAgain ∧ pressedKey p i.levels keys = none ∧
      p.debounceTime < i.now - p.startTime
  | .pressStart => p.state = .pressed ∧ pressedKey p i.levels keys ≠ none ∧
      p.pressTime < i.now - p.startTime
  | .pressStop => p.state = .longPressed ∧ pressedKey p i.levels keys = none
  | .pressDuring =>
      p.state = .pressed ∧ pressedKey p i.levels keys ≠ none ∧ p.pressTime < i.now - p.startTime ∨
        p.state = .longPressed ∧ pressedKey p i.levels keys ≠ none

instance (keys : List IotxKey) (p : KeyParams) (i : Poll) (num : UInt8) :
    (cbType : KeyCbFuncType) → Decidable (Due keys p i num cbType)
  | .click => inferInstanceAs (Decidable (_ ∧ (_ ∨ _)))
  | .doubleClick => inferInstanceAs (Decidable (_ ∧ _ ∧ _))
  | .pressStart => inferInstanceAs (Decidable (_ ∧ _ ∧ _))
  | .pressStop => inferInstanceAs (Decidable (_ ∧ _))
  | .pressDuring => inferInstanceAs (Decidable (_ ∧ _ ∧ _ ∨ _ ∧ _))

/-- The state machine asks for what is due. -/
theorem asks_iff {api : KeyApi} {i : Poll} {keys : List IotxKey} {num : UInt8}
    {cbType : KeyCbFuncType} :
    Asks keys num (keyListGetValue api i.levels keys).1 i.now api.keyParams cbType ↔
      Due keys api.keyParams i num cbType := by
  cases cbType with
  | click => exact Iff.rfl
  | doubleClick => rw [Asks, Due, released_iff]
  | pressStart => rw [Asks, Due, pressed_iff]
  | pressStop => rw [Asks, Due, released_iff]
  | pressDuring =>
      exact or_congr (and_congr_right fun _ => and_congr_left' pressed_iff)
        (and_congr_right fun _ => not_congr released_iff)

/-- A key with the number has a callback set of the type.  At the end of a double click the start
of a press is reported too. -/
def Sets (keys : List IotxKey) (num : UInt8) (cbType : KeyCbFuncType) : Prop :=
  ∃ cur ∈ keys, cur.keyNum = num ∧
    (match cbType with
      | .click => cur.cbKeyClickFunc
      | .doubleClick => cur.cbKeyDoubleClickFunc || cur.cbKeyPressStartFunc
      | .pressStart => cur.cbKeyPressStartFunc
      | .pressStop => cur.cbKeyPressStopFunc
      | .pressDuring => cur.cbKeyPressDuringFunc) = true

instance (keys : List IotxKey) (num : UInt8) (cbType : KeyCbFuncType) :
    Decidable (Sets keys num cbType) :=
  inferInstanceAs (Decidable (∃ _ ∈ keys, _ ∧ _ = true))

/-- What is set is made. -/
theorem keyListExeCbFunc_ne_nil {keys : List IotxKey} {cbType : KeyCbFuncType} {num : UInt8}
    {ms : UInt32} : keyListExeCbFunc keys cbType num ms ≠ [] ↔ Sets keys num cbType := by
  have hone (cur : IotxKey) : exeCbFunc cbType ms cur ≠ [] ↔
      (match cbType with
        | .click => cur.cbKeyClickFunc
        | .doubleClick => cur.cbKeyDoubleClickFunc || cur.cbKeyPressStartFunc
        | .pressStart => cur.cbKeyPressStartFunc
        | .pressStop => cur.cbKeyPressStopFunc
        | .pressDuring => cur.cbKeyPressDuringFunc) = true := by
    cases cbType with
    | doubleClick =>
        cases hdouble : cur.cbKeyDoubleClickFunc with
        | false => simp [exeCbFunc, hdouble]
        | true => simp [exeCbFunc, hdouble]
    | _ => simp [exeCbFunc]
  induction keys with
  | nil => exact iff_of_false (fun h => h rfl) (by rintro ⟨cur, hcur, -⟩; cases hcur)
  | cons cur keys ih =>
      rw [keyListExeCbFunc, ne_eq, List.append_eq_nil_iff, not_and_or, Sets,
        List.exists_mem_cons_iff]
      refine or_congr ?_ ih
      split
      next hnum => rw [List.map_eq_nil_iff, and_iff_right hnum, ← hone cur]
      next hnum => exact iff_of_false (fun h => h rfl) (fun h => hnum h.1)

/-! ## Runs of passes -/

/-- What a pass has done: its callbacks, and the key whose press started the gesture that it
belongs to. -/
structure Pass where
  gesture : Option UInt8
  calls : List Called
deriving DecidableEq, Repr

/-- The variables after some passes, and the passes from the first on.  What the polls have shown
is kept beside them: the key whose press started the last gesture, the key that was found pressed
last, and the key that was found when a start was last due of a key that reports starts. -/
structure Session where
  api : KeyApi
  gesture : Option UInt8
  latest : Option UInt8
  starter : Option UInt8
  passes : List Pass
deriving DecidableEq, Repr

def Session.start (api : KeyApi) : Session := ⟨api, none, none, none, []⟩

/-- The key that a poll is about: the first in the order of registration that it shows pressed,
or where it shows none, that of the last poll that did. -/
def Session.found (s : Session) (keys : List IotxKey) (i : Poll) : Option UInt8 :=
  match pressedKey s.api.keyParams i.levels keys with
  | some cur => some cur.keyNum
  | none => s.latest

/-- A gesture starts where a poll shows a key pressed in state 0. -/
def Session.gestureOf (s : Session) (keys : List IotxKey) (i : Poll) : Option UInt8 :=
  if s.api.keyParams.state = .waiting ∧ pressedKey s.api.keyParams i.levels keys ≠ none then
    s.found keys i
  else s.gesture

/-- A press becomes long, or a double click ends: the start of a press is due of the key that was
found. -/
def Session.starterOf (s : Session) (keys : List IotxKey) (i : Poll) : Option UInt8 :=
  match s.found keys i with
  | some num =>
      if (Due keys s.api.keyParams i num .pressStart ∨ Due keys s.api.keyParams i num .doubleClick) ∧
          Sets keys num .pressStart then
        some num
      else s.starter
  | none => s.starter

/-- A pass of `IOT_KEY_Loop`. -/
def step (s : Session) (i : Poll) : Checked Session := do
  let (api, calls) ← iotKeyLoop s.api i.levels i.now
  let keys ← s.api.keys
  .ok ⟨api, s.gestureOf keys i, s.found keys i, s.starterOf keys i,
    s.passes ++ [⟨s.gestureOf keys i, calls⟩]⟩

/-- The pass that a poll is answered with: the machine moves with the key on record. -/
structure Passed (keys : List IotxKey) (s : Session) (i : Poll) (calls : List Called)
    (s' : Session) : Prop where
  move : Move keys s'.api.keyNumRecord (keyListGetValue s.api i.levels keys).1 i.now
    s.api.keyParams s'.api.keyParams.state calls
  record : s'.api.keyNumRecord = (keyListGetValue s.api i.levels keys).2
  head : s'.api.keyListHead = some keys
  gesture : s'.gesture = s.gestureOf keys i
  latest : s'.latest = s.found keys i
  starter : s'.starter = s.starterOf keys i
  passes : s'.passes = s.passes ++ [⟨s'.gesture, calls⟩]

theorem step_passed {s s' : Session} {i : Poll} {keys : List IotxKey}
    (hkeys : s.api.keyListHead = some keys) (h : step s i = .ok s') :
    ∃ calls, Passed keys s i calls s' := by
  have hloop : iotKeyLoop s.api i.levels i.now =
      .ok ({ s.api with
        keyParams := (stateMachine keys (keyListGetValue s.api i.levels keys).2
          (keyListGetValue s.api i.levels keys).1 i.now s.api.keyParams).1
        keyNumRecord := (keyListGetValue s.api i.levels keys).2 },
        (stateMachine keys (keyListGetValue s.api i.levels keys).2
          (keyListGetValue s.api i.levels keys).1 i.now s.api.keyParams).2) := by
    rw [iotKeyLoop, KeyApi.keys_eq hkeys]
    rfl
  rw [step, hloop, ok_bind, KeyApi.keys_eq hkeys] at h
  cases h
  exact ⟨_, stateMachine_move keys _ _ i.now s.api.keyParams, rfl, hkeys, rfl, rfl, rfl, rfl⟩

/-- With a list of keys no pass faults. -/
theorem step_ok {s : Session} {keys : List IotxKey} (hkeys : s.api.keyListHead = some keys)
    (i : Poll) : ∃ s', step s i = .ok s' := by
  rw [step, iotKeyLoop, KeyApi.keys_eq hkeys]
  exact ⟨_, rfl⟩

theorem run_ok {s : Session} {keys : List IotxKey} (hkeys : s.api.keyListHead = some keys)
    (polls : List Poll) : ∃ s', run step s polls = .ok s' := by
  induction polls generalizing s with
  | nil => exact ⟨s, rfl⟩
  | cons i polls ih =>
      obtain ⟨s₁, hstep⟩ := step_ok hkeys i
      obtain ⟨_, hpassed⟩ := step_passed hkeys hstep
      obtain ⟨s', hs'⟩ := ih hpassed.head
      exact ⟨s', run_cons.mpr ⟨s₁, hstep, hs'⟩⟩

end IotKit.Key
