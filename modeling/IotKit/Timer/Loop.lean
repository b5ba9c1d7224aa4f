import IotKit.Lib.Run
import Mathlib.Data.List.Basic

/-!
# Software timers

`iotx_timer_api.c`.  A callback may call every function of the module again, also
`IOT_TIMER_Loop`, so that the passes at work are a stack of frames, and an action is what the
function on top does next: a call from the application or the callback, one turn of the loop
of a pass, or the return of the callback.

Beside each timer stands a watch, which says what the calls so far ask of it: a stopped
one-shot timer that is started owes one callback within so many passes.  No function reads
a watch.
-/

namespace IotKit.Timer

open Runs

/-! ## Timers -/

/-- `iotx_timer_t`, with whether a callback is set. -/
structure IotxTimer where
  timerNum : UInt8
  period : UInt32
  oneShot : Bool
  start : Bool
  timerTick : UInt32
  timerCbFunc : Bool
deriving DecidableEq, Repr

/-- The assignments of `TimerListChangPeriod`, `TimerListTimerStart`, `TimerListTimerStop` and
`TimerListTimerReset` to a timer with the number. -/
def changPeriod (period : UInt32) (cur : IotxTimer) : IotxTimer := { cur with period }
def timerStart (cur : IotxTimer) : IotxTimer := { cur with start := true }
def timerStop (cur : IotxTimer) : IotxTimer := { cur with start := false }
def timerReset (cur : IotxTimer) : IotxTimer := { cur with timerTick := 0 }

/-- `TimerListLoop` before the callback: whether the time of the timer is over. -/
def due (cur : IotxTimer) : Bool := cur.start && cur.period ≤ cur.timerTick + 1

/-- The count that `TimerListLoop` leaves before the callback. -/
def count (cur : IotxTimer) : IotxTimer :=
  if cur.start then
    if cur.period ≤ cur.timerTick + 1 then { cur with timerTick := 0 }
    else { cur with timerTick := cur.timerTick + 1 }
  else cur

/-- `TimerListLoop` after the callback. -/
def afterCallback (cur : IotxTimer) : IotxTimer :=
  if cur.oneShot then { cur with start := false } else cur

/-! ## Watches -/

/-- What is owed for a timer. -/
inductive Duty where
  /-- Nothing. -/
  | free
  /-- A callback, before so many more passes are over that began after the start; `older` of the
  passes at work began before it. -/
  | pending (passes older : Nat)
  /-- No other callback. -/
  | done
  /-- The callback did not come in time, or it came twice. -/
  | broken
deriving DecidableEq, Repr

/-- What the calls so far say of a timer. -/
structure Watch where
  /-- It was started and has not been stopped or called back since. -/
  live : Bool
  duty : Duty
deriving DecidableEq, Repr

/-- `IOT_TIMER_Start` while so many passes are at work. -/
def Watch.started (cur : IotxTimer) (depth : Nat) (w : Watch) : Watch :=
  if cur.oneShot = true ∧ (cur.start = false ∨ w.live = false) then
    ⟨true, .pending (max cur.period.toNat 1) depth⟩
  else ⟨true, .free⟩

/-- `IOT_TIMER_Stop`. -/
def Watch.stopped : Watch := ⟨false, .free⟩

/-- `IOT_TIMER_Reset` and `IOT_TIMER_ChangePeriod`. -/
def Watch.changed (w : Watch) : Watch := { w with duty := .free }

/-- The time of the timer is over. -/
def Watch.fired (cur : IotxTimer) (w : Watch) : Watch :=
  if cur.oneShot then
    ⟨false,
      match w.duty with
      | .pending _ _ => .done
      | .done => .broken
      | duty => duty⟩
  else w

/-- The callback has returned. -/
def Watch.returned (cur : IotxTimer) (w : Watch) : Watch :=
  if cur.oneShot then { w with live := false } else w

/-- The latest of so many passes is over. -/
def Watch.passed (depth : Nat) (w : Watch) : Watch :=
  { w with
    duty :=
      match w.duty with
      | .pending passes older =>
          if depth ≤ older then .pending passes (depth - 1)
          else if passes ≤ 1 then .broken
          else .pending (passes - 1) older
      | duty => duty }

/-! ## The machine -/

/-- A timer in the list, and its watch. -/
structure Node where
  timer : IotxTimer
  watch : Watch
deriving DecidableEq, Repr

/-- A pass: the place of `cur` in the list, and whether its callback is at work. -/
structure Frame where
  cur : Nat
  calling : Bool
deriving DecidableEq, Repr

/-- The list of timers and the passes at work, the latest first. -/
structure Machine where
  nodes : List Node
  frames : List Frame
deriving DecidableEq, Repr

/-- After `TimerListInit`. -/
def Machine.initial : Machine := ⟨[], []⟩

inductive Action where
  /-- `IOT_TIMER_Register`, where there is memory or not. -/
  | register (num : UInt8) (period : UInt32) (oneShot cbFunc malloc : Bool)
  | changePeriod (num : UInt8) (period : UInt32)
  | start (num : UInt8)
  | stop (num : UInt8)
  | reset (num : UInt8)
  /-- `IOT_TIMER_Loop` is called. -/
  | loop
  /-- A pass comes to its next timer, or to the end of the list. -/
  | turn
  /-- The callback of a pass returns. -/
  | ret
deriving DecidableEq, Repr

/-- `TimerListInsert`, where `TimerExists` says whether the number is taken. -/
def timerListInsert (obj : IotxTimer) (nodes : List Node) : List Node :=
  if nodes.any (·.timer.timerNum = obj.timerNum) then nodes
  else nodes ++ [⟨obj, ⟨false, .free⟩⟩]

/-- A change of the timers with the number. -/
def onTimer (num : UInt8) (change : IotxTimer → IotxTimer) (watch : IotxTimer → Watch → Watch)
    (n : Node) : Node :=
  if n.timer.timerNum = num then ⟨change n.timer, watch n.timer n.watch⟩ else n

/-- The turn of a timer: it is counted, and if its time is over it is called back. -/
def Node.turn (n : Node) : Node :=
  ⟨count n.timer, if due n.timer then n.watch.fired n.timer else n.watch⟩

/-- The callback of a timer has returned. -/
def Node.returned (n : Node) : Node := ⟨afterCallback n.timer, n.watch.returned n.timer⟩

/-- Something else comes next. -/
inductive Refused where
  | refused
deriving DecidableEq, Repr

/-- A call of the application or of a callback. -/
def call (m : Machine) (next : Machine) : Except Refused Machine :=
  match m.frames with
  | ⟨_, false⟩ :: _ => .error .refused
  | _ => .ok next

/-- One turn of the loop of `TimerListLoop`. -/
def turn (m : Machine) : Except Refused Machine :=
  match m.frames with
  | ⟨cur, false⟩ :: frames =>
      match m.nodes[cur]? with
      | none =>
          .ok ⟨m.nodes.map fun n => { n with watch := n.watch.passed m.frames.length }, frames⟩
      | some n =>
          if due n.timer = true ∧ n.timer.timerCbFunc = true then
            .ok ⟨m.nodes.modify cur Node.turn, ⟨cur, true⟩ :: frames⟩
          else if due n.timer = true then
            .ok ⟨m.nodes.modify cur fun n => n.turn.returned, ⟨cur + 1, false⟩ :: frames⟩
          else .ok ⟨m.nodes.modify cur Node.turn, ⟨cur + 1, false⟩ :: frames⟩
  | _ => .error .refused

/-- The callback of the latest pass returns. -/
def ret (m : Machine) : Except Refused Machine :=
  match m.frames with
  | ⟨cur, true⟩ :: frames =>
      .ok ⟨m.nodes.modify cur Node.returned, ⟨cur + 1, false⟩ :: frames⟩
  | _ => .error .refused

def step (m : Machine) : Action → Except Refused Machine
  | .register num period oneShot cbFunc malloc =>
      call m
        (if malloc then
          { m with nodes := timerListInsert ⟨num, period, oneShot, false, 0, cbFunc⟩ m.nodes }
        else m)
  | .changePeriod num period =>
      call m { m with nodes := m.nodes.map (onTimer num (changPeriod period) fun _ => .changed) }
  | .start num =>
      call m { m with
        nodes := m.nodes.map (onTimer num timerStart fun cur => .started cur m.frames.length) }
  | .stop num =>
      call m { m with nodes := m.nodes.map (onTimer num timerStop fun _ _ => .stopped) }
  | .reset num =>
      call m { m with nodes := m.nodes.map (onTimer num timerReset fun _ => .changed) }
  | .loop => call m { m with frames := ⟨0, false⟩ :: m.frames }
  | .turn => turn m
  | .ret => ret m

end IotKit.Timer
