import IotKit.Timer.Loop

/-!
# One-shot timers

Each start of a stopped one-shot timer leads to one callback in time, except where the
loop undoes it: it clears the flag of the timer when the callback has returned, also if the
callback has started the timer again.  Until then the flag of a timer called back is still set,
so that a pass within the callback may call it back once more.

A pass that began after the start and has gone past the timer has counted it.  What the
count lacks of the period is never more than the passes that remain, less those at work
that have gone past (`Owed`).
-/

namespace IotKit.Timer

open Runs

/-! ## The invariant -/

/-- A callback of the timer at place `i` is at work. -/
def AtWork (frames : List Frame) (i : Nat) : Prop := ⟨i, true⟩ ∈ frames

instance (frames : List Frame) (i : Nat) : Decidable (AtWork frames i) :=
  inferInstanceAs (Decidable (_ ∈ _))

/-- The passes at work that have gone past the place `i`, without the oldest ones. -/
def pastBy (frames : List Frame) (older i : Nat) : Nat :=
  (frames.take (frames.length - older)).countP fun f => decide (i < f.cur)

/-- The callback still comes in time. -/
structure Owed (frames : List Frame) (i : Nat) (cur : IotxTimer) (passes older : Nat) : Prop where
  start : cur.start = true
  oneShot : cur.oneShot = true
  within : older ≤ frames.length
  time : cur.period.toNat + pastBy frames older i ≤ cur.timerTick.toNat + passes
  counted : 0 < pastBy frames older i → cur.timerTick.toNat < cur.period.toNat
  some : 0 < passes

/-- What is kept of the timer at place `i`. -/
structure Sound (frames : List Frame) (i : Nat) (n : Node) : Prop where
  tick : n.timer.timerTick.toNat + 1 < 2 ^ 32
  pending : ∀ passes older, n.watch.duty = .pending passes older →
    Owed frames i n.timer passes older
  done : n.watch.duty = .done →
    n.timer.oneShot = true ∧ (n.timer.start = true → AtWork frames i)
  broken : n.watch.duty ≠ .broken

def Machine.Sound (m : Machine) : Prop :=
  ∀ i n, m.nodes[i]? = some n → Timer.Sound m.frames i n

/-! ## What is owed as the passes go on -/

section Frames

variable {frames : List Frame} {i older cur passes : Nat} {t : IotxTimer} {n : Node}

theorem pastBy_cons {f : Frame} (h : older ≤ frames.length) :
    pastBy (f :: frames) older i = pastBy frames older i + if i < f.cur then 1 else 0 := by
  rw [pastBy, List.length_cons, Nat.succ_sub h, List.take_succ_cons, List.countP_cons, pastBy]
  simp only [decide_eq_true_eq]

theorem pastBy_all (h : frames.length ≤ older) : pastBy frames older i = 0 := by
  rw [pastBy, Nat.sub_eq_zero_of_le h, List.take_zero]
  rfl

/-- A pass that stays on its side of the place. -/
theorem pastBy_side {f f' : Frame} (hside : i < f'.cur ↔ i < f.cur) :
    pastBy (f' :: frames) older i = pastBy (f :: frames) older i := by
  rcases Nat.lt_or_ge frames.length older with hlt | hle
  · rw [pastBy_all (by rw [List.length_cons]; omega), pastBy_all (by rw [List.length_cons]; omega)]
  · rw [pastBy_cons hle, pastBy_cons hle]
    simp only [hside]

/-- The frames may change where the place is not passed and no callback there returns. -/
theorem Sound.reframe {frames' : List Frame} (h : Sound frames i n)
    (hlength : frames.length ≤ frames'.length)
    (hpast : ∀ older, older ≤ frames.length → pastBy frames' older i = pastBy frames older i)
    (hwork : AtWork frames i → AtWork frames' i) : Sound frames' i n := by
  refine ⟨h.tick, fun passes older hduty => ?_, fun hduty => ?_, h.broken⟩
  · obtain ⟨hstart, honeShot, holder, htime, hcounted, hpasses⟩ := h.pending passes older hduty
    refine ⟨hstart, honeShot, Nat.le_trans holder hlength, ?_, ?_, hpasses⟩
    · rwa [hpast older holder]
    · rwa [hpast older holder]
  · exact ⟨(h.done hduty).1, fun hstart => hwork ((h.done hduty).2 hstart)⟩

/-- A pass that is at another place. -/
theorem Sound.other {f f' : Frame} (h : Sound (f :: frames) i n) (hne : f.cur ≠ i)
    (hside : i < f'.cur ↔ i < f.cur) : Sound (f' :: frames) i n := by
  refine h.reframe (Nat.le_refl _) (fun _ _ => pastBy_side hside) fun hmem => ?_
  rcases List.mem_cons.mp hmem with heq | hmem
  · exact absurd (congrArg Frame.cur heq).symm hne
  · exact List.mem_cons_of_mem _ hmem

/-- A pass begins. -/
theorem Sound.loop (h : Sound frames i n) : Sound (⟨0, false⟩ :: frames) i n := by
  refine h.reframe (Nat.le_succ _) (fun older holder => ?_) (List.mem_cons_of_mem _)
  rw [pastBy_cons holder, if_neg (Nat.not_lt_zero i), Nat.add_zero]

theorem Sound.of_free (htick : n.timer.timerTick.toNat + 1 < 2 ^ 32)
    (hduty : n.watch.duty = .free) : Sound frames i n := by
  refine ⟨htick, ?_, ?_, ?_⟩
  · rw [hduty]
    nofun
  · rw [hduty]
    nofun
  · rw [hduty]
    nofun

theorem Sound.of_pending (htick : n.timer.timerTick.toNat + 1 < 2 ^ 32)
    (hduty : n.watch.duty = .pending passes older) (howed : Owed frames i n.timer passes older) :
    Sound frames i n := by
  refine ⟨htick, fun passes' older' heq => ?_, ?_, ?_⟩
  · cases hduty.symm.trans heq
    exact howed
  · rw [hduty]
    nofun
  · rw [hduty]
    nofun

theorem Sound.of_done (htick : n.timer.timerTick.toNat + 1 < 2 ^ 32)
    (hduty : n.watch.duty = .done) (honeShot : n.timer.oneShot = true)
    (hwork : n.timer.start = true → AtWork frames i) : Sound frames i n := by
  refine ⟨htick, ?_, fun _ => ⟨honeShot, hwork⟩, ?_⟩
  · rw [hduty]
    nofun
  · rw [hduty]
    nofun

/-- A pass that is over has gone past every timer. -/
theorem Sound.passed (h : Sound (⟨cur, false⟩ :: frames) i n) (hcur : i < cur) :
    Sound frames i ⟨n.timer, n.watch.passed (frames.length + 1)⟩ := by
  cases hduty : n.watch.duty with
  | free => exact .of_free h.tick (by simp only [Watch.passed, hduty])
  | done =>
      obtain ⟨honeShot, hwork⟩ := h.done hduty
      exact .of_done h.tick (by simp only [Watch.passed, hduty]) honeShot fun hstart =>
        (List.mem_cons.mp (hwork hstart)).resolve_left nofun
  | broken => exact absurd hduty h.broken
  | pending passes older =>
      obtain ⟨hstart, honeShot, hwithin, htime, hcounted, hsome⟩ := h.pending passes older hduty
      rw [List.length_cons] at hwithin
      by_cases holder : frames.length + 1 ≤ older
      · -- the pass began before the start
        have hduty' :
            (n.watch.passed (frames.length + 1)).duty = .pending passes frames.length := by
          simp only [Watch.passed, hduty, if_pos holder, Nat.add_sub_cancel]
        have hnone : pastBy frames frames.length i = 0 := pastBy_all (Nat.le_refl _)
        rw [pastBy_all (by rw [List.length_cons]; exact holder)] at htime
        exact .of_pending h.tick hduty'
          ⟨hstart, honeShot, Nat.le_refl _, by rwa [hnone], by rw [hnone]; nofun, hsome⟩
      · -- it is one of those that the callback is owed in, and it has counted the timer
        have hle : older ≤ frames.length := by omega
        rw [pastBy_cons hle, if_pos hcur] at htime hcounted
        have hlt := hcounted (Nat.succ_pos _)
        have hduty' : (n.watch.passed (frames.length + 1)).duty = .pending (passes - 1) older := by
          simp only [Watch.passed, hduty, if_neg holder]
          rw [if_neg (by omega)]
        exact .of_pending h.tick hduty'
          ⟨hstart, honeShot, hle, by dsimp only; omega, fun _ => hlt, by omega⟩

/-! ## The turn of a timer -/

theorem due_iff : due t = true ↔ t.start = true ∧ t.period ≤ t.timerTick + 1 := by
  rw [due, Bool.and_eq_true, decide_eq_true_eq]

theorem tick_succ (h : t.timerTick.toNat + 1 < 2 ^ 32) :
    (t.timerTick + 1).toNat = t.timerTick.toNat + 1 := by
  rw [UInt32.toNat_add, UInt32.toNat_one, Nat.mod_eq_of_lt h]

/-- A timer whose time is not over is counted if it runs. -/
theorem Sound.counted (h : Sound (⟨i, false⟩ :: frames) i n) (hdue : ¬due n.timer = true) :
    Sound (⟨i + 1, false⟩ :: frames) i n.turn := by
  have hwork : AtWork (⟨i, false⟩ :: frames) i → AtWork (⟨i + 1, false⟩ :: frames) i := fun hmem =>
    List.mem_cons_of_mem _ ((List.mem_cons.mp hmem).resolve_left nofun)
  have hwatch : n.turn.watch = n.watch := if_neg hdue
  cases hstart : n.timer.start with
  | false =>
      have htimer : n.turn.timer = n.timer := if_neg (by rw [hstart]; nofun)
      refine ⟨by rw [htimer]; exact h.tick, fun passes older hduty => ?_, fun hduty => ?_,
        hwatch ▸ h.broken⟩
      · rw [hwatch] at hduty
        exact nomatch hstart.symm.trans (h.pending passes older hduty).start
      · rw [hwatch] at hduty
        rw [htimer]
        exact ⟨(h.done hduty).1, fun hstart' => nomatch hstart.symm.trans hstart'⟩
  | true =>
      have hperiod : ¬n.timer.period ≤ n.timer.timerTick + 1 := fun hle =>
        hdue (due_iff.mpr ⟨hstart, hle⟩)
      have htimer : n.turn.timer = { n.timer with timerTick := n.timer.timerTick + 1 } := by
        rw [Node.turn, count, if_pos hstart, if_neg hperiod]
      have htick := tick_succ h.tick
      have hlt : n.timer.timerTick.toNat + 1 < n.timer.period.toNat := by
        rw [UInt32.not_le, UInt32.lt_iff_toNat_lt, htick] at hperiod
        exact hperiod
      have hmax := n.timer.period.toNat_lt
      refine ⟨?_, fun passes older hduty => ?_, fun hduty => ?_, hwatch ▸ h.broken⟩
      · rw [htimer]
        dsimp only
        omega
      · rw [hwatch] at hduty
        obtain ⟨-, honeShot, hwithin, htime, -, hsome⟩ := h.pending passes older hduty
        rw [htimer]
        refine ⟨hstart, honeShot, hwithin, ?_, fun _ => ?_, hsome⟩
        · dsimp only
          rw [htick]
          rw [List.length_cons] at hwithin
          rcases Nat.lt_or_ge frames.length older with hold | hnew
          · rw [pastBy_all (by rw [List.length_cons]; omega)] at htime ⊢
            omega
          · rw [pastBy_cons hnew, if_neg (Nat.lt_irrefl i)] at htime
            rw [pastBy_cons hnew, if_pos (Nat.lt_succ_self i)]
            omega
        · dsimp only
          rw [htick]
          exact hlt
      · rw [hwatch] at hduty
        rw [htimer]
        exact ⟨(h.done hduty).1, fun hstart' => hwork ((h.done hduty).2 hstart')⟩

theorem zero_tick : (0 : UInt32).toNat + 1 < 2 ^ 32 := by decide

/-- What the watch says of a timer that is called back and was not called back before. -/
theorem fired_duty (h : Sound frames i n) (hfresh : n.watch.duty ≠ .done) :
    (n.watch.fired n.timer).duty = .free ∨
      (n.watch.fired n.timer).duty = .done ∧ n.timer.oneShot = true := by
  rw [Watch.fired]
  cases hduty : n.watch.duty with
  | free =>
      left
      split
      · rfl
      · exact hduty
  | pending passes older =>
      have honeShot := (h.pending passes older hduty).oneShot
      rw [if_pos honeShot]
      exact .inr ⟨rfl, honeShot⟩
  | done => exact absurd hduty hfresh
  | broken => exact absurd hduty h.broken

/-- The timer after its count, if its time is over. -/
theorem count_due (h : due t = true) : count t = { t with timerTick := 0 } := by
  obtain ⟨hstart, hperiod⟩ := due_iff.mp h
  rw [count, if_pos hstart, if_pos hperiod]

/-- Called back, with its callback at work. -/
theorem Sound.called (h : Sound (⟨i, false⟩ :: frames) i n) (hdue : due n.timer = true)
    (hfresh : n.watch.duty ≠ .done) : Sound (⟨i, true⟩ :: frames) i n.turn := by
  have hwatch : n.turn.watch = n.watch.fired n.timer := if_pos hdue
  have htimer : n.turn.timer = { n.timer with timerTick := 0 } := count_due hdue
  have htick : n.turn.timer.timerTick.toNat + 1 < 2 ^ 32 := by
    rw [htimer]
    exact zero_tick
  have hduty := fired_duty h hfresh
  rw [← hwatch] at hduty
  rcases hduty with hfree | ⟨hdone, honeShot⟩
  · exact .of_free htick hfree
  · exact .of_done htick hdone (by rw [htimer]; exact honeShot) fun _ => List.mem_cons_self

/-- The callback returns, and the timer was not started in it. -/
theorem Sound.returned (h : Sound (⟨i, true⟩ :: frames) i n)
    (hkept : n.timer.oneShot = true → ∀ passes older, n.watch.duty ≠ .pending passes older) :
    Sound (⟨i + 1, false⟩ :: frames) i n.returned := by
  have hduty : n.returned.watch.duty = n.watch.duty := by
    rw [Node.returned, Watch.returned]
    split
    · rfl
    · rfl
  refine ⟨?_, fun passes older heq => ?_, fun heq => ?_, hduty ▸ h.broken⟩
  · rw [Node.returned, afterCallback]
    split
    · exact h.tick
    · exact h.tick
  · rw [hduty] at heq
    exact absurd heq (hkept (h.pending passes older heq).oneShot passes older)
  · rw [hduty] at heq
    have honeShot := (h.done heq).1
    have htimer : n.returned.timer = { n.timer with start := false } := if_pos honeShot
    rw [htimer]
    exact ⟨honeShot, nofun⟩

/-- A timer that was called back owes nothing until it is started again. -/
theorem turn_not_pending (h : Sound frames i n) (hdue : due n.timer = true)
    (hfresh : n.watch.duty ≠ .done) (passes older : Nat) :
    n.turn.watch.duty ≠ .pending passes older := by
  have hwatch : n.turn.watch = n.watch.fired n.timer := if_pos hdue
  rw [hwatch]
  rcases fired_duty h hfresh with hfree | hdone
  · rw [hfree]
    nofun
  · rw [hdone.1]
    nofun

/-- Called back without a callback. -/
theorem Sound.expired (h : Sound (⟨i, false⟩ :: frames) i n) (hdue : due n.timer = true)
    (hfresh : n.watch.duty ≠ .done) : Sound (⟨i + 1, false⟩ :: frames) i n.turn.returned :=
  (h.called hdue hfresh).returned fun _ => turn_not_pending h hdue hfresh

/-! ## The calls -/

theorem Sound.start (h : Sound frames i n) :
    Sound frames i ⟨timerStart n.timer, n.watch.started n.timer frames.length⟩ := by
  rw [Watch.started]
  split
  next hfresh =>
    have hnone : pastBy frames frames.length i = 0 := pastBy_all (Nat.le_refl _)
    refine .of_pending h.tick rfl ⟨rfl, hfresh.1, Nat.le_refl _, ?_, ?_, Nat.le_max_right _ 1⟩
    · rw [hnone]
      exact Nat.le_trans (Nat.le_max_left _ 1) (Nat.le_add_left _ _)
    · rw [hnone]
      nofun
  next => exact .of_free h.tick rfl

theorem Sound.onTimer {num : UInt8} {change : IotxTimer → IotxTimer}
    {watch : IotxTimer → Watch → Watch} (h : Sound frames i n)
    (hchange : Sound frames i ⟨change n.timer, watch n.timer n.watch⟩) :
    Sound frames i (onTimer num change watch n) := by
  rw [Timer.onTimer]
  split
  · exact hchange
  · exact h

end Frames

/-! ## The machine -/

/-- The timer is as its watch says: it runs while a callback is owed, and when that is over it
is stopped. -/
def Node.Kept (frames : List Frame) (i : Nat) (n : Node) : Prop :=
  match n.watch.duty with
  | .free => True
  | .pending _ _ => n.timer.start = true
  | .done => AtWork frames i ∨ n.timer.start = false
  | .broken => False

def Kept (m : Machine) : Prop := ∀ i (n : Node), m.nodes[i]? = some n → n.Kept m.frames i

theorem Machine.Sound.kept {m : Machine} (h : m.Sound) : Kept m := by
  intro i n hn
  have hsound := h i n hn
  rw [Node.Kept]
  cases hduty : n.watch.duty with
  | free => exact trivial
  | pending passes older => exact (hsound.pending passes older hduty).start
  | done =>
      cases hstart : n.timer.start with
      | true => exact .inl ((hsound.done hduty).2 hstart)
      | false => exact .inr rfl
  | broken => exact absurd hduty hsound.broken

/-- The loop undoes a start: the callback returns after the one-shot timer was started in it, or
the time of the timer is over while it is called back. -/
def Loses (m : Machine) : Action → Prop
  | .ret =>
      ∃ cur frames n passes older, m.frames = ⟨cur, true⟩ :: frames ∧ m.nodes[cur]? = some n ∧
        n.timer.oneShot = true ∧ n.watch.duty = .pending passes older
  | .turn =>
      ∃ cur frames n, m.frames = ⟨cur, false⟩ :: frames ∧ m.nodes[cur]? = some n ∧
        due n.timer = true ∧ n.watch.duty = .done
  | _ => False

theorem sound_initial : Machine.initial.Sound := nofun

theorem Machine.Sound.map {m : Machine} {change : Node → Node} (h : m.Sound)
    (hchange : ∀ i n, Timer.Sound m.frames i n → Timer.Sound m.frames i (change n)) :
    Machine.Sound ⟨m.nodes.map change, m.frames⟩ := by
  intro i n hn
  rw [List.getElem?_map, Option.map_eq_some_iff] at hn
  obtain ⟨old, hold, rfl⟩ := hn
  exact hchange i old (h i old hold)

/-- The pass on top changes the timer at its place. -/
theorem Machine.Sound.modify {nodes : List Node} {frames : List Frame} {f f' : Frame}
    {change : Node → Node} (h : Machine.Sound ⟨nodes, f :: frames⟩)
    (hside : ∀ i, i ≠ f.cur → (i < f'.cur ↔ i < f.cur))
    (hchange : ∀ n, nodes[f.cur]? = some n → Timer.Sound (f' :: frames) f.cur (change n)) :
    Machine.Sound ⟨nodes.modify f.cur change, f' :: frames⟩ := by
  intro i n hn
  dsimp only at hn
  rcases eq_or_ne i f.cur with rfl | hne
  · rw [List.getElem?_modify_eq, Option.map_eq_map, Option.map_eq_some_iff] at hn
    obtain ⟨old, hold, rfl⟩ := hn
    exact hchange old hold
  · rw [List.getElem?_modify_ne change nodes hne.symm] at hn
    exact (h i n hn).other hne.symm (hside i hne)

theorem sound_register {m : Machine} (h : m.Sound) (obj : IotxTimer) (htick : obj.timerTick = 0) :
    Machine.Sound ⟨timerListInsert obj m.nodes, m.frames⟩ := by
  intro i n hn
  dsimp only at hn
  rw [timerListInsert] at hn
  split at hn
  next => exact h i n hn
  next =>
    rcases Nat.lt_or_ge i m.nodes.length with hlt | hge
    · rw [List.getElem?_append_left hlt] at hn
      exact h i n hn
    · rw [List.getElem?_append_right hge] at hn
      obtain rfl := List.mem_singleton.mp (List.mem_of_getElem? hn)
      exact .of_free (htick ▸ zero_tick) rfl

theorem call_ok {m next m' : Machine} (h : call m next = .ok m') : m' = next := by
  rw [call] at h
  split at h
  · cases h
  · exact (Except.ok.inj h).symm

theorem sound_turn {m m' : Machine} (h : m.Sound) (hkept : ¬Loses m .turn)
    (hstep : turn m = .ok m') : m'.Sound := by
  obtain ⟨nodes, frames⟩ := m
  rw [turn] at hstep
  split at hstep
  next cur frames hframes =>
    dsimp only at hframes
    subst hframes
    split at hstep
    next hend =>
      -- the pass is over
      cases hstep
      intro i n hn
      dsimp only at hn hend
      rw [List.getElem?_map, Option.map_eq_some_iff] at hn
      obtain ⟨old, hold, rfl⟩ := hn
      have hlt : i < cur := by
        have hi := (List.getElem?_eq_some_iff.mp hold).1
        have hcur := List.getElem?_eq_none_iff.mp hend
        omega
      exact (h i old hold).passed hlt
    next n hn =>
      have hfresh : ∀ old, nodes[cur]? = some old → due old.timer = true →
          old.watch.duty ≠ .done := fun old hold hdue hduty =>
        hkept ⟨cur, frames, old, rfl, hold, hdue, hduty⟩
      have hnext : ∀ i, i ≠ cur → (i < cur + 1 ↔ i < cur) := by omega
      split at hstep
      next hcall =>
        cases hstep
        refine h.modify (fun _ _ => Iff.rfl) fun old hold => ?_
        obtain rfl := Option.some.inj (hn.symm.trans hold)
        exact (h cur n hn).called hcall.1 (hfresh n hn hcall.1)
      next =>
        split at hstep
        next hdue =>
          cases hstep
          refine h.modify hnext fun old hold => ?_
          obtain rfl := Option.some.inj (hn.symm.trans hold)
          exact (h cur n hn).expired hdue (hfresh n hn hdue)
        next hdue =>
          cases hstep
          refine h.modify hnext fun old hold => ?_
          obtain rfl := Option.some.inj (hn.symm.trans hold)
          exact (h cur n hn).counted hdue
  next => cases hstep

theorem sound_ret {m m' : Machine} (h : m.Sound) (hkept : ¬Loses m .ret)
    (hstep : ret m = .ok m') : m'.Sound := by
  obtain ⟨nodes, frames⟩ := m
  rw [ret] at hstep
  split at hstep
  next cur frames hframes =>
    dsimp only at hframes
    subst hframes
    cases hstep
    refine h.modify (fun i hne => ?_) fun n hn => (h cur n hn).returned ?_
    · dsimp only at hne ⊢
      omega
    · exact fun honeShot passes older hduty =>
        hkept ⟨cur, frames, n, passes, older, rfl, hn, honeShot, hduty⟩
  next => cases hstep

/-- Every step of the machine keeps the invariant, unless the loop undoes a start. -/
theorem sound_step {m m' : Machine} {a : Action} (h : m.Sound) (hkept : ¬Loses m a)
    (hstep : step m a = .ok m') : m'.Sound := by
  cases a with
  | register num period oneShot cbFunc malloc =>
      obtain rfl := call_ok hstep
      split
      · exact sound_register h _ rfl
      · exact h
  | changePeriod num period =>
      obtain rfl := call_ok hstep
      exact h.map fun i n hn => hn.onTimer (.of_free hn.tick rfl)
  | start num =>
      obtain rfl := call_ok hstep
      exact h.map fun i n hn => hn.onTimer hn.start
  | stop num =>
      obtain rfl := call_ok hstep
      exact h.map fun i n hn => hn.onTimer (.of_free hn.tick rfl)
  | reset num =>
      obtain rfl := call_ok hstep
      exact h.map fun i n hn => hn.onTimer (.of_free zero_tick rfl)
  | loop =>
      obtain rfl := call_ok hstep
      exact fun i n hn => (h i n hn).loop
  | turn => exact sound_turn h hkept hstep
  | ret => exact sound_ret h hkept hstep

theorem getElem?_modify {nodes : List Node} {cur : Nat} {n : Node} {change : Node → Node}
    (hn : nodes[cur]? = some n) : (nodes.modify cur change)[cur]? = some (change n) := by
  rw [List.getElem?_modify_eq, hn]
  rfl

/-- What becomes of a start that the loop undoes. -/
theorem not_kept_of_loses {m : Machine} {a : Action} (h : m.Sound) (hloses : Loses m a) :
    ∃ m', step m a = .ok m' ∧ ¬Kept m' := by
  obtain ⟨nodes, frames⟩ := m
  cases a with
  | ret =>
      obtain ⟨cur, frames, n, passes, older, hframes, hn, honeShot, hduty⟩ := hloses
      dsimp only at hframes hn
      subst hframes
      refine ⟨_, rfl, fun hkept => ?_⟩
      have hnode := hkept cur n.returned (getElem?_modify hn)
      have htimer : n.returned.timer = { n.timer with start := false } := if_pos honeShot
      have hwatch : n.returned.watch = { n.watch with live := false } := if_pos honeShot
      rw [Node.Kept, hwatch, htimer, hduty] at hnode
      cases hnode
  | turn =>
      obtain ⟨cur, frames, n, hframes, hn, hdue, hduty⟩ := hloses
      dsimp only at hframes hn
      subst hframes
      have honeShot := ((h cur n hn).done hduty).1
      have hwatch : n.turn.watch = ⟨false, .broken⟩ := by
        rw [Node.turn, if_pos hdue, Watch.fired, if_pos honeShot, hduty]
      have htimer : n.turn.timer = { n.timer with timerTick := 0 } := count_due hdue
      have hreturned : n.turn.returned.watch = ⟨false, .broken⟩ := by
        rw [Node.returned, Watch.returned, htimer, if_pos honeShot, hwatch]
      cases hcall : n.timer.timerCbFunc with
      | true =>
          have hstep : turn ⟨nodes, ⟨cur, false⟩ :: frames⟩ =
              .ok ⟨nodes.modify cur Node.turn, ⟨cur, true⟩ :: frames⟩ := by
            simp only [turn, hn, hdue, hcall, and_self, if_true]
          refine ⟨_, hstep, fun hkept => ?_⟩
          have hnode := hkept cur n.turn (getElem?_modify hn)
          rw [Node.Kept, hwatch] at hnode
          exact hnode
      | false =>
          have hstep : turn ⟨nodes, ⟨cur, false⟩ :: frames⟩ =
              .ok ⟨nodes.modify cur fun n => n.turn.returned, ⟨cur + 1, false⟩ :: frames⟩ := by
            simp only [turn, hn, hdue, hcall, Bool.false_eq_true, and_false, if_false, if_true]
          refine ⟨_, hstep, fun hkept => ?_⟩
          have hnode := hkept cur n.turn.returned (getElem?_modify hn)
          rw [Node.Kept, hreturned] at hnode
          exact hnode
  | register num period oneShot cbFunc malloc => exact hloses.elim
  | changePeriod num period => exact hloses.elim
  | start num => exact hloses.elim
  | stop num => exact hloses.elim
  | reset num => exact hloses.elim
  | loop => exact hloses.elim

/-- In a run of calls and passes each start of a stopped one-shot timer leads to one callback in
time, and the timer is stopped after it, exactly if the loop never undoes a start. -/
theorem one_shot_kept_iff (actions : List Action) :
    (∀ done m, done <+: actions → run step .initial done = .ok m → Kept m) ↔
      Guarded step (fun m a => ¬Loses m a) .initial actions :=
  always_good_iff Machine.Sound.kept sound_step
    (fun h hloses => not_kept_of_loses h (not_not.mp hloses)) sound_initial

/-- The callback of the timer starts it again. -/
def restarted : List Action :=
  [.register 1 1 true true true, .start 1, .loop, .turn, .start 1, .ret]

theorem restart_not_kept :
    ¬∀ done m, done <+: restarted → run step .initial done = .ok m → Kept m := by
  intro hall
  have hkept : false = true := hall restarted
    ⟨[⟨⟨1, 1, true, false, 0, true⟩, ⟨false, .pending 1 1⟩⟩], [⟨1, false⟩]⟩
    (List.prefix_refl _) rfl 0 _ rfl
  cases hkept

end IotKit.Timer
