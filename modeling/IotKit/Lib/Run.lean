import Mathlib.Algebra.Order.Ring.Int
import Mathlib.Tactic.Common

/-!
# Runs of a fallible step

A run feeds a list of inputs to a step function and stops at the first error.
`Guarded` says that every step of a run meets a condition on the state it is
taken in and on its input.  An invariant that the guarded steps preserve holds
of whatever a guarded run reaches (`run_invariant`), and since every beginning of
a guarded run is guarded (`Guarded.append_left`), of every state on the way.
-/

namespace Runs

variable {ε σ α : Type} {step : σ → α → Except ε σ} {G : σ → α → Prop} {Inv : σ → Prop}

/-- Take one step for each input. -/
def run (step : σ → α → Except ε σ) : σ → List α → Except ε σ
  | s, [] => .ok s
  | s, a :: as =>
      match step s a with
      | .ok s' => run step s' as
      | .error e => .error e

/-- Every step of the run meets `G`. -/
def Guarded (step : σ → α → Except ε σ) (G : σ → α → Prop) : σ → List α → Prop
  | _, [] => True
  | s, a :: as => G s a ∧ ∀ s', step s a = .ok s' → Guarded step G s' as

theorem run_cons {s s' : σ} {a : α} {as : List α} :
    run step s (a :: as) = .ok s' ↔ ∃ t, step s a = .ok t ∧ run step t as = .ok s' := by
  rw [run]
  cases step s a with
  | ok t => exact ⟨fun h => ⟨t, rfl, h⟩, fun ⟨_, ht, h⟩ => by cases ht; exact h⟩
  | error e => exact ⟨nofun, nofun⟩

theorem run_append {s s' : σ} {as bs : List α} :
    run step s (as ++ bs) = .ok s' ↔ ∃ t, run step s as = .ok t ∧ run step t bs = .ok s' := by
  induction as generalizing s with
  | nil => exact ⟨fun h => ⟨s, rfl, h⟩, fun ⟨_, ht, h⟩ => by cases ht; exact h⟩
  | cons a as ih =>
      rw [List.cons_append, run_cons]
      constructor
      · rintro ⟨t, hstep, hrun⟩
        obtain ⟨u, hrun, hrest⟩ := ih.mp hrun
        exact ⟨u, run_cons.mpr ⟨t, hstep, hrun⟩, hrest⟩
      · rintro ⟨u, hrun, hrest⟩
        obtain ⟨t, hstep, hrun⟩ := run_cons.mp hrun
        exact ⟨t, hstep, ih.mpr ⟨u, hrun, hrest⟩⟩

theorem Guarded.append_left {s : σ} {as bs : List α} (h : Guarded step G s (as ++ bs)) :
    Guarded step G s as := by
  induction as generalizing s with
  | nil => exact trivial
  | cons a as ih => exact ⟨h.1, fun s' hstep => ih (h.2 s' hstep)⟩

theorem Guarded.append_right {s t : σ} {as bs : List α} (h : Guarded step G s (as ++ bs))
    (hrun : run step s as = .ok t) : Guarded step G t bs := by
  induction as generalizing s with
  | nil =>
      cases hrun
      exact h
  | cons a as ih =>
      obtain ⟨u, hstep, hrun⟩ := run_cons.mp hrun
      exact ih (h.2 u hstep) hrun

/-- What holds of all inputs may be added to the condition. -/
theorem Guarded.and_mem {P : α → Prop} {s : σ} {as : List α} (h : Guarded step G s as)
    (hmem : ∀ a ∈ as, P a) : Guarded step (fun s a => G s a ∧ P a) s as := by
  induction as generalizing s with
  | nil => exact trivial
  | cons a as ih =>
      obtain ⟨ha, has⟩ := List.forall_mem_cons.mp hmem
      exact ⟨⟨h.1, ha⟩, fun s' hstep => ih (h.2 s' hstep) has⟩

theorem guarded_cons {s : σ} {a : α} {as : List α} :
    Guarded step G s (a :: as) ↔ G s a ∧
      match step s a with
      | .ok t => Guarded step G t as
      | .error _ => True := by
  refine and_congr_right fun _ => ?_
  cases step s a with
  | ok t => exact ⟨fun h => h t rfl, fun h _ ht => by cases ht; exact h⟩
  | error e => exact iff_of_true nofun trivial

/-- A run can be asked whether it is guarded. -/
instance decidableGuarded [∀ s a, Decidable (G s a)] :
    (as : List α) → (s : σ) → Decidable (Guarded step G s as)
  | [], _ => .isTrue trivial
  | a :: as, s =>
      match h : step s a with
      | .ok t =>
          have := decidableGuarded as t
          decidable_of_iff (G s a ∧ Guarded step G t as) (by rw [guarded_cons, h])
      | .error _ => decidable_of_iff (G s a) (by rw [guarded_cons, h, and_true])

/-- A run is guarded if every step that it comes to meets the condition. -/
theorem guarded_of_reached {s : σ} {as : List α}
    (h : ∀ bs a cs t, as = bs ++ a :: cs → run step s bs = .ok t → G t a) :
    Guarded step G s as := by
  induction as generalizing s with
  | nil => exact trivial
  | cons a as ih =>
      refine ⟨h [] a as s rfl rfl, fun t ht => ih fun bs b cs u has hrun => ?_⟩
      exact h (a :: bs) b cs u (congrArg _ has) (run_cons.mpr ⟨t, ht, hrun⟩)

/-- Two conditions that agree on the steps that succeed agree on a run that succeeds. -/
theorem guarded_congr {G' : σ → α → Prop}
    (hstep : ∀ {s a s'}, step s a = .ok s' → (G s a ↔ G' s a)) {s s' : σ} {as : List α}
    (hrun : run step s as = .ok s') : Guarded step G s as ↔ Guarded step G' s as := by
  induction as generalizing s with
  | nil => exact Iff.rfl
  | cons a as ih =>
      obtain ⟨t, ht, hrun⟩ := run_cons.mp hrun
      refine and_congr (hstep ht) ⟨fun hrest t' ht' => ?_, fun hrest t' ht' => ?_⟩
      · rw [ht] at ht'
        cases ht'
        exact (ih hrun).mp (hrest t ht)
      · rw [ht] at ht'
        cases ht'
        exact (ih hrun).mpr (hrest t ht)

/-- What guarded steps preserve, a guarded run preserves. -/
theorem run_invariant
    (hstep : ∀ {s a s'}, Inv s → G s a → step s a = .ok s' → Inv s')
    {s s' : σ} {as : List α} (hinv : Inv s) (hguard : Guarded step G s as)
    (hrun : run step s as = .ok s') : Inv s' := by
  induction as generalizing s with
  | nil => cases hrun; exact hinv
  | cons a as ih =>
      obtain ⟨t, ht, hrun⟩ := run_cons.mp hrun
      exact ih (hstep hinv hguard.1 ht) (hguard.2 t ht) hrun

/-- Every step of a run relates its two states by a preorder, and so does the run.  The
invariant may be needed to know it of a step. -/
theorem run_rel {R : σ → σ → Prop} (hrefl : ∀ s, R s s)
    (htrans : ∀ {s t u}, R s t → R t u → R s u)
    (hstep : ∀ {s a s'}, Inv s → step s a = .ok s' → R s s' ∧ Inv s')
    {s s' : σ} {as : List α} (hinv : Inv s) (hrun : run step s as = .ok s') : R s s' := by
  induction as generalizing s with
  | nil => cases hrun; exact hrefl _
  | cons a as ih =>
      obtain ⟨t, ht, hrun⟩ := run_cons.mp hrun
      obtain ⟨hrel, hinv⟩ := hstep hinv ht
      exact htrans hrel (ih hinv hrun)

/-- Where no invariant is needed. -/
theorem run_preorder {R : σ → σ → Prop} (hrefl : ∀ s, R s s)
    (htrans : ∀ {s t u}, R s t → R t u → R s u) (hstep : ∀ {s a s'}, step s a = .ok s' → R s s')
    {s s' : σ} {as : List α} (hrun : run step s as = .ok s') : R s s' :=
  @run_rel _ _ _ step (fun _ => True) R hrefl htrans (fun _ h => ⟨hstep h, trivial⟩) _ _ _ trivial
    hrun

/-- If `G` is exactly the condition for a step to succeed in a good state, and no step
leads from a bad state to a good one, then guarded runs are exactly those that
succeed in a good state. -/
theorem run_good_iff {Good : σ → Prop}
    (hinv : ∀ {s a s'}, Inv s → step s a = .ok s' → Inv s')
    (hbad : ∀ {s a s'}, Inv s → step s a = .ok s' → Good s' → Good s)
    (hstep : ∀ {s a}, Inv s → Good s → ((∃ s', step s a = .ok s' ∧ Good s') ↔ G s a))
    {s : σ} {as : List α} (hs : Inv s) (hgood : Good s) :
    (∃ s', run step s as = .ok s' ∧ Good s') ↔ Guarded step G s as := by
  have hback : ∀ {as : List α} {s s'}, Inv s → run step s as = .ok s' → Good s' → Good s := by
    intro as
    induction as with
    | nil => intro s s' _ hrun hgood; cases hrun; exact hgood
    | cons a as ih =>
        intro s s' hs hrun hgood
        obtain ⟨t, ht, hrun⟩ := run_cons.mp hrun
        exact hbad hs ht (ih (hinv hs ht) hrun hgood)
  induction as generalizing s with
  | nil => exact ⟨fun _ => trivial, fun _ => ⟨s, rfl, hgood⟩⟩
  | cons a as ih =>
      constructor
      · rintro ⟨s', hrun, hgood'⟩
        obtain ⟨t, ht, hrun⟩ := run_cons.mp hrun
        have htgood := hback (hinv hs ht) hrun hgood'
        refine ⟨(hstep hs hgood).mp ⟨t, ht, htgood⟩, fun t' ht' => ?_⟩
        rw [ht] at ht'
        cases ht'
        exact (ih (hinv hs ht) htgood).mp ⟨s', hrun, hgood'⟩
      · rintro ⟨hguard, hrest⟩
        obtain ⟨t, ht, htgood⟩ := (hstep hs hgood).mpr hguard
        obtain ⟨s', hrun, hgood'⟩ := (ih (hinv hs ht) htgood).mpr (hrest t ht)
        exact ⟨s', run_cons.mpr ⟨t, ht, hrun⟩, hgood'⟩

/-- If a step that meets `G` keeps the invariant and one that does not leads from it to a
bad state, then guarded runs are exactly those that come through good states only. -/
theorem always_good_iff {Good : σ → Prop} (hgood : ∀ {s}, Inv s → Good s)
    (hinv : ∀ {s a s'}, Inv s → G s a → step s a = .ok s' → Inv s')
    (hbad : ∀ {s a}, Inv s → ¬G s a → ∃ s', step s a = .ok s' ∧ ¬Good s')
    {s : σ} {as : List α} (hs : Inv s) :
    (∀ bs s', bs <+: as → run step s bs = .ok s' → Good s') ↔ Guarded step G s as := by
  induction as generalizing s with
  | nil =>
      refine ⟨fun _ => trivial, fun _ bs s' hprefix hrun => ?_⟩
      obtain rfl := List.prefix_nil.mp hprefix
      cases hrun
      exact hgood hs
  | cons a as ih =>
      constructor
      · intro hall
        have hguard : G s a := by
          by_contra hnot
          obtain ⟨s', hstep, hend⟩ := hbad hs hnot
          exact hend (hall [a] s' (by simp) (run_cons.mpr ⟨s', hstep, rfl⟩))
        refine ⟨hguard, fun t ht => (ih (hinv hs hguard ht)).mp fun bs s' hprefix hrun => ?_⟩
        exact hall (a :: bs) s' (List.cons_prefix_cons.mpr ⟨rfl, hprefix⟩)
          (run_cons.mpr ⟨t, ht, hrun⟩)
      · rintro ⟨hguard, hrest⟩ bs s' hprefix hrun
        cases bs with
        | nil =>
            cases hrun
            exact hgood hs
        | cons b bs =>
            obtain ⟨rfl, htail⟩ := List.cons_prefix_cons.mp hprefix
            obtain ⟨t, ht, hrun⟩ := run_cons.mp hrun
            exact (ih (hinv hs hguard ht)).mpr (hrest t ht) bs s' htail hrun

/-- A run is guarded by what an invariant of all steps implies. -/
theorem guarded_of_invariant (hstep : ∀ {s a s'}, Inv s → step s a = .ok s' → Inv s')
    (hguard : ∀ {s a}, Inv s → G s a) {s : σ} {as : List α} (hs : Inv s) :
    Guarded step G s as := by
  induction as generalizing s with
  | nil => exact trivial
  | cons a as ih => exact ⟨hguard hs, fun _ ht => ih (hstep hs ht)⟩

/-- Without a condition on the steps, every run is guarded. -/
theorem guarded_true {s : σ} {as : List α} : Guarded step (fun _ _ => True) s as := by
  induction as generalizing s with
  | nil => exact trivial
  | cons a as ih => exact ⟨trivial, fun _ _ => ih⟩

end Runs
