import Mathlib.Logic.Function.Basic
import Mathlib.Tactic.Common

/-!
# Mutexes of one thread

A thread takes and gives back mutexes that are not recursive: to take one that it holds
is a deadlock.  It calls back into code it does not know, which may take mutexes itself,
and each callback is recorded with the mutexes held.

`touch` takes some mutexes and gives them back: it deadlocks if one of them is held, and
otherwise leaves everything as it was.  A `Polite` action returns with the mutexes it was
entered with.  Entered with none held, it returns having made every callback with none
held, exactly under a condition.
-/

namespace MutexTrace

/-- Why a thread does not go on. -/
inductive Fault where
  /-- It takes a mutex that it holds. -/
  | deadlock
  /-- It gives back a mutex that it does not hold. -/
  | notHeld
deriving DecidableEq, Repr

/-- The mutexes held, and those held at each callback, the latest first. -/
structure Locks (L : Type) where
  held : L → Bool
  calls : List (L → Bool)

abbrev Locking (L α : Type) := StateT (Locks L) (Except Fault) α

variable {L α β : Type}

/-- A callback that goes on with `body`. -/
def callback (body : Locking L Unit) : Locking L Unit := fun s =>
  body { s with calls := s.held :: s.calls }

/-- Take the mutexes and give them back. -/
def touch (ms : List L) : Locking L Unit := fun s =>
  if ms.any s.held then .error .deadlock else .ok ((), s)

section Bind

variable {x : Locking L α} {f : α → Locking L β} {s t s' : Locks L} {a : α} {b : β}

/-- The second part runs in the state that the first one leaves. -/
theorem bind_of_ok (h : x s = .ok (a, t)) : (x >>= f) s = f a t := by
  show (x s >>= fun p => f p.1 p.2) = _
  rw [h]
  rfl

theorem bind_of_error {e : Fault} (h : x s = .error e) : (x >>= f) s = .error e := by
  show (x s >>= fun p => f p.1 p.2) = _
  rw [h]
  rfl

theorem bind_eq_ok :
    (x >>= f) s = .ok (b, s') ↔ ∃ a t, x s = .ok (a, t) ∧ f a t = .ok (b, s') := by
  cases hx : x s with
  | ok p =>
      rw [bind_of_ok hx]
      exact ⟨fun h => ⟨p.1, p.2, rfl, h⟩, fun ⟨a, t, ht, h⟩ => by cases ht; exact h⟩
  | error e =>
      rw [bind_of_error hx]
      exact ⟨nofun, fun ⟨_, _, ht, _⟩ => nomatch ht⟩

end Bind

/-! ## Touching -/

section Touch

variable {ms : List L} {s s' : Locks L}

/-- Locks that are free can be taken and given back. -/
theorem touch_of_free (h : ms.any s.held = false) : touch ms s = .ok ((), s) := by
  rw [touch, h]
  rfl

theorem touch_of_held (h : ms.any s.held = true) : touch ms s = .error .deadlock := by
  rw [touch, h]
  rfl

/-- Taking locks and giving them back leaves the state. -/
theorem touch_eq_ok {u : Unit} :
    touch ms s = .ok (u, s') ↔ ms.any s.held = false ∧ s' = s := by
  cases h : ms.any s.held with
  | true =>
      rw [touch_of_held h]
      exact ⟨nofun, fun h => nomatch h.1⟩
  | false =>
      rw [touch_of_free h]
      exact ⟨fun h => ⟨rfl, by cases h; rfl⟩, fun h => by rw [h.2]⟩

/-- Two such passes are one. -/
@[simp] theorem touch_touch_bind (ms ms' : List L) (k : Unit → Locking L α) :
    (touch ms >>= fun _ => touch ms' >>= k) = touch (ms ++ ms') >>= k := by
  funext s
  cases h : ms.any s.held with
  | true => rw [bind_of_error (touch_of_held h), bind_of_error (touch_of_held (by simp [h]))]
  | false =>
      have hrest : (ms ++ ms').any s.held = ms'.any s.held := by rw [List.any_append, h]; rfl
      rw [bind_of_ok (touch_of_free h)]
      cases h' : ms'.any s.held with
      | true =>
          rw [bind_of_error (touch_of_held h'), bind_of_error (touch_of_held (hrest.trans h'))]
      | false => rw [bind_of_ok (touch_of_free h'), bind_of_ok (touch_of_free (hrest.trans h'))]

end Touch

/-! ## Taking and giving back -/

section Mutex

variable [DecidableEq L] {m : L} {s s' : Locks L}

def lock (m : L) : Locking L Unit := fun s =>
  if s.held m then .error .deadlock else .ok ((), { s with held := Function.update s.held m true })

def unlock (m : L) : Locking L Unit := fun s =>
  if s.held m then .ok ((), { s with held := Function.update s.held m false })
  else .error .notHeld

theorem lock_of_free (h : s.held m = false) :
    lock m s = .ok ((), { s with held := Function.update s.held m true }) := by
  rw [lock, h]
  rfl

/-- A lock that is held is not taken again. -/
theorem lock_of_held (h : s.held m = true) : lock m s = .error .deadlock := by
  rw [lock, h]
  rfl

theorem unlock_of_held (h : s.held m = true) :
    unlock m s = .ok ((), { s with held := Function.update s.held m false }) := by
  rw [unlock, h]
  rfl

/-- Only a lock that is held is given back. -/
theorem unlock_eq_ok {u : Unit} : unlock m s = .ok (u, s') ↔
    s.held m = true ∧ s' = { s with held := Function.update s.held m false } := by
  cases h : s.held m with
  | true =>
      rw [unlock_of_held h]
      exact ⟨fun h => ⟨rfl, by cases h; rfl⟩, fun h => by rw [h.2]⟩
  | false =>
      rw [unlock, h]
      exact ⟨nofun, fun h => nomatch h.1⟩

theorem lock_eq_ok {u : Unit} : lock m s = .ok (u, s') ↔
    s.held m = false ∧ s' = { s with held := Function.update s.held m true } := by
  cases h : s.held m with
  | false =>
      rw [lock_of_free h]
      exact ⟨fun h => ⟨rfl, by cases h; rfl⟩, fun h => by rw [h.2]⟩
  | true =>
      rw [lock_of_held h]
      exact ⟨nofun, fun h => nomatch h.1⟩

/-- To give back a mutex that was just taken leaves it as it was. -/
theorem update_lock (h : s.held m = false) :
    Function.update (Function.update s.held m true) m false = s.held := by
  rw [Function.update_idem, ← h, Function.update_eq_self]

/-- A critical section with nothing in it. -/
@[simp] theorem lock_unlock_bind (m : L) (k : Unit → Locking L α) :
    (lock m >>= fun _ => unlock m >>= k) = touch [m] >>= k := by
  funext s
  cases h : s.held m with
  | true => rw [bind_of_error (lock_of_held h), bind_of_error (touch_of_held (by simp [h]))]
  | false =>
      rw [bind_of_ok (lock_of_free h), bind_of_ok (unlock_of_held (Function.update_self ..)),
        bind_of_ok (touch_of_free (by simp [h]))]
      simp only [update_lock h]

@[simp] theorem lock_unlock (m : L) : (lock m >>= fun _ => unlock m) = touch [m] := by
  simpa only [bind_pure] using lock_unlock_bind m pure

/-- Other mutexes may as well be touched before. -/
@[simp] theorem lock_touch_bind {ms : List L} (hm : m ∉ ms) (k : Unit → Locking L α) :
    (lock m >>= fun _ => touch ms >>= k) = touch ms >>= fun _ => lock m >>= k := by
  funext s
  have hothers : ms.any (Function.update s.held m true) = ms.any s.held := by
    rw [Bool.eq_iff_iff, List.any_eq_true, List.any_eq_true]
    refine exists_congr fun x => and_congr_right fun hx => ?_
    rw [Function.update_of_ne (ne_of_mem_of_not_mem hx hm)]
  cases h : s.held m with
  | true =>
      rw [bind_of_error (lock_of_held h)]
      cases h' : ms.any s.held with
      | true => rw [bind_of_error (touch_of_held h')]
      | false => rw [bind_of_ok (touch_of_free h'), bind_of_error (lock_of_held h)]
  | false =>
      rw [bind_of_ok (lock_of_free h)]
      cases h' : ms.any s.held with
      | true =>
          rw [bind_of_error (touch_of_held h'), bind_of_error (touch_of_held (hothers.trans h'))]
      | false =>
          rw [bind_of_ok (touch_of_free h'), bind_of_ok (lock_of_free h),
            bind_of_ok (touch_of_free (hothers.trans h'))]

end Mutex

/-! ## Balanced actions -/

/-- The action returns with the mutexes it was entered with, its results meet `Q`, and it
forgets no callback. -/
structure Balanced (Q : α → Prop) (f : Locking L α) : Prop where
  ends : ∀ {s t a}, f s = .ok (a, t) → Q a ∧ t.held = s.held ∧ s.calls <:+ t.calls

variable {Q : α → Prop} {R : β → Prop}

namespace Balanced

theorem pure {a : α} (h : Q a) : Balanced Q (Pure.pure a : Locking L α) := by
  constructor
  intro s t b heq
  cases heq
  exact ⟨h, rfl, List.suffix_refl _⟩

theorem touch (ms : List L) : Balanced (fun _ => True) (touch ms) := by
  constructor
  intro s t u heq
  obtain ⟨-, rfl⟩ := touch_eq_ok.mp heq
  exact ⟨trivial, rfl, List.suffix_refl _⟩

theorem bind {f : Locking L α} {g : α → Locking L β} (hf : Balanced Q f)
    (hg : ∀ a, Q a → Balanced R (g a)) : Balanced R (f >>= g) := by
  constructor
  intro s t b heq
  obtain ⟨a, u, hu, ht⟩ := bind_eq_ok.mp heq
  obtain ⟨ha, hheld, hcalls⟩ := hf.ends hu
  obtain ⟨hb, hheld', hcalls'⟩ := (hg a ha).ends ht
  exact ⟨hb, hheld'.trans hheld, hcalls.trans hcalls'⟩

theorem callback {body : Locking L Unit} (h : Balanced (fun _ => True) body) :
    Balanced (fun _ => True) (callback body) := by
  constructor
  intro s t u heq
  obtain ⟨-, hheld, hcalls⟩ := h.ends heq
  exact ⟨trivial, hheld, (List.suffix_cons _ _).trans hcalls⟩

theorem ite {p : Prop} [Decidable p] {f g : Locking L α} (hf : Balanced Q f)
    (hg : Balanced Q g) : Balanced Q (if p then f else g) := by
  split
  · exact hf
  · exact hg

end Balanced

/-! ## Polite actions -/

/-- No mutex is held, and none was at a callback. -/
structure Locks.Unlocked (s : Locks L) : Prop where
  held : ∀ m, s.held m = false
  calls : ∀ h ∈ s.calls, ∀ m, h m = false

/-- Before the first action. -/
def Locks.fresh : Locks L := ⟨fun _ => false, []⟩

/-- At first no lock is held. -/
theorem Locks.fresh_unlocked : (Locks.fresh : Locks L).Unlocked := ⟨fun _ => rfl, nofun⟩

/-- What is unlocked at the end was unlocked before. -/
theorem Locks.Unlocked.back {s t : Locks L} (ht : t.Unlocked) (hheld : t.held = s.held)
    (hcalls : s.calls <:+ t.calls) : s.Unlocked :=
  ⟨hheld ▸ ht.held, fun h hh => ht.calls h (hcalls.subset hh)⟩

/-- A balanced action that comes from an unlocked state to an unlocked state exactly if
`c` holds. -/
structure Polite (c : Prop) (Q : α → Prop) (f : Locking L α) : Prop where
  balanced : Balanced Q f
  returns : c → ∀ {s}, s.Unlocked → ∃ a t, f s = .ok (a, t) ∧ t.Unlocked
  only : ∀ {s t a}, s.Unlocked → f s = .ok (a, t) → t.Unlocked → c

variable {c d : Prop}

namespace Polite

theorem pure {a : α} (h : Q a) : Polite True Q (Pure.pure a : Locking L α) where
  balanced := .pure h
  returns := fun _ s hs => ⟨a, s, rfl, hs⟩
  only := fun _ _ _ => trivial

theorem mono {Q' : α → Prop} {f : Locking L α} (h : Polite c Q f) (hcond : c ↔ d)
    (hQ : ∀ a, Q a → Q' a) : Polite d Q' f where
  balanced := ⟨fun heq => ⟨hQ _ (h.balanced.ends heq).1, (h.balanced.ends heq).2⟩⟩
  returns := fun hd => h.returns (hcond.mpr hd)
  only := fun hs heq ht => hcond.mp (h.only hs heq ht)

theorem bind {f : Locking L α} {g : α → Locking L β} (hf : Polite c Q f)
    (hg : ∀ a, Q a → Polite d R (g a)) : Polite (c ∧ d) R (f >>= g) where
  balanced := hf.balanced.bind fun a ha => (hg a ha).balanced
  returns := by
    intro hcond s hs
    obtain ⟨a, u, hu, hunlocked⟩ := hf.returns hcond.1 hs
    obtain ⟨b, t, ht, hend⟩ := (hg a (hf.balanced.ends hu).1).returns hcond.2 hunlocked
    exact ⟨b, t, bind_eq_ok.mpr ⟨a, u, hu, ht⟩, hend⟩
  only := by
    intro s t b hs heq hend
    obtain ⟨a, u, hu, ht⟩ := bind_eq_ok.mp heq
    obtain ⟨ha, -, -⟩ := hf.balanced.ends hu
    obtain ⟨-, hheld, hcalls⟩ := (hg a ha).balanced.ends ht
    have hunlocked := hend.back hheld hcalls
    exact ⟨hf.only hs hu hunlocked, (hg a ha).only hunlocked ht hend⟩

/-- After an action without a condition. -/
theorem andThen {f : Locking L α} {g : α → Locking L β} (hf : Polite True Q f)
    (hg : ∀ a, Q a → Polite d R (g a)) : Polite d R (f >>= g) :=
  (hf.bind hg).mono (iff_of_eq (true_and d)) fun _ h => h

theorem touch (ms : List L) : Polite True (fun _ => True) (touch ms) where
  balanced := .touch ms
  returns := fun _ s hs => ⟨(), s, touch_eq_ok.mpr ⟨by simp [hs.held], rfl⟩, hs⟩
  only := fun _ _ _ => trivial

/-- An action that only touches mutexes. -/
theorem of_touch {f : Locking L α} (ms : List L) (a : α) (ha : Q a)
    (h : f = MutexTrace.touch ms >>= fun _ => Pure.pure a) : Polite True Q f := by
  rw [h]
  exact (touch ms).andThen fun _ _ => pure ha

theorem callback {body : Locking L Unit} (h : Polite True (fun _ => True) body) :
    Polite True (fun _ => True) (callback body) where
  balanced := .callback h.balanced
  returns := fun _ _ hs =>
    h.returns trivial ⟨hs.held, List.forall_mem_cons.mpr ⟨hs.held, hs.calls⟩⟩
  only := fun _ _ _ => trivial

theorem ite {p : Prop} [Decidable p] {f g : Locking L α} (hf : Polite c Q f)
    (hg : Polite c Q g) : Polite c Q (if p then f else g) := by
  split
  · exact hf
  · exact hg

/-- A callback with a mutex held. -/
theorem held_callback [DecidableEq L] (m : L) {body g : Locking L Unit} {k : Locking L α}
    (hbody : Balanced (fun _ => True) body) (hg : Balanced (fun _ => True) g)
    (hk : Balanced Q k) :
    Polite False Q (do lock m; MutexTrace.callback body; g; unlock m; k) := by
  have hrun : ∀ {s t a},
      (do lock m; MutexTrace.callback body; g; unlock m; k : Locking L α) s = .ok (a, t) →
      (Q a ∧ t.held = s.held ∧ s.calls <:+ t.calls) ∧ ∃ h ∈ t.calls, h m = true := by
    intro s t a heq
    obtain ⟨_, s₁, hlock, heq⟩ := bind_eq_ok.mp heq
    obtain ⟨hfree, rfl⟩ := lock_eq_ok.mp hlock
    obtain ⟨_, s₂, hcallback, heq⟩ := bind_eq_ok.mp heq
    obtain ⟨-, hheld₂, hcalls₂⟩ := hbody.ends hcallback
    obtain ⟨_, s₃, hrest, heq⟩ := bind_eq_ok.mp heq
    obtain ⟨-, hheld₃, hcalls₃⟩ := hg.ends hrest
    obtain ⟨_, s₄, hunlock, hend⟩ := bind_eq_ok.mp heq
    obtain ⟨-, rfl⟩ := unlock_eq_ok.mp hunlock
    obtain ⟨ha, hheld, hcalls⟩ := hk.ends hend
    have hsuffix := hcalls₂.trans (hcalls₃.trans hcalls)
    refine ⟨⟨ha, ?_, (List.suffix_cons _ _).trans hsuffix⟩, _,
      hsuffix.subset List.mem_cons_self, Function.update_self ..⟩
    rw [hheld]
    dsimp only
    rw [hheld₃, hheld₂]
    exact update_lock hfree
  refine ⟨⟨fun heq => (hrun heq).1⟩, False.elim, fun hs heq hend => ?_⟩
  obtain ⟨h, hmem, hheld⟩ := (hrun heq).2
  exact absurd hheld (by simp [hend.calls h hmem m])

end Polite

/-! ## Actions that are polite without a condition -/

/-- Polite without a condition. -/
abbrev Quiet (f : Locking L α) : Prop := Polite True (fun _ => True) f

namespace Quiet

variable {f : Locking L α} {g : α → Locking L β}

theorem of_polite (h : Polite True Q f) : Quiet f := h.mono Iff.rfl fun _ _ => trivial

theorem pure (a : α) : Quiet (Pure.pure a : Locking L α) := Polite.pure trivial

theorem bind (hf : Quiet f) (hg : ∀ a, Quiet (g a)) : Quiet (f >>= g) :=
  hf.andThen fun a _ => hg a

end Quiet

/-! ## Returned values -/

/-- Entered with no mutex held, the action returns `a` with none held. -/
structure Returns (a : α) (f : Locking L α) : Prop where
  ends : ∀ {s}, (∀ m, s.held m = false) → ∃ t, f s = .ok (a, t) ∧ ∀ m, t.held m = false

namespace Returns

variable {a : α} {b : β}

theorem pure (a : α) : Returns a (Pure.pure a : Locking L α) := ⟨fun hs => ⟨_, rfl, hs⟩⟩

theorem bind {f : Locking L α} {g : α → Locking L β} (hf : Returns a f)
    (hg : Returns b (g a)) : Returns b (f >>= g) := by
  constructor
  intro s hs
  obtain ⟨t, hf, ht⟩ := hf.ends hs
  obtain ⟨u, hg, hu⟩ := hg.ends ht
  exact ⟨u, bind_eq_ok.mpr ⟨a, t, hf, hg⟩, hu⟩

theorem touch (ms : List L) : Returns () (touch ms) :=
  ⟨fun {s} hs => ⟨s, touch_eq_ok.mpr ⟨by simp [hs], rfl⟩, hs⟩⟩

/-- An action that only touches mutexes. -/
theorem of_touch {f : Locking L α} (ms : List L)
    (h : f = MutexTrace.touch ms >>= fun _ => Pure.pure a) : Returns a f := by
  rw [h]
  exact (touch ms).bind (pure a)

theorem callback {body : Locking L Unit} (h : Returns () body) :
    Returns () (callback body) := ⟨fun hs => h.ends hs⟩

/-- A callback that takes no mutex, with one held. -/
theorem held_callback [DecidableEq L] (m : L) {k : Locking L α} (hk : Returns a k) :
    Returns a (do lock m; MutexTrace.callback (Pure.pure ()); unlock m; k) := by
  constructor
  intro s hs
  obtain ⟨t, hk, ht⟩ :=
    hk.ends (s := { s with calls := Function.update s.held m true :: s.calls }) hs
  refine ⟨t, ?_, ht⟩
  rw [bind_of_ok (lock_of_free (hs m)), bind_of_ok (a := ()) rfl,
    bind_of_ok (unlock_of_held (Function.update_self ..))]
  simpa only [update_lock (hs m)] using hk

end Returns

end MutexTrace
