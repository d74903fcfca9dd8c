import Mathlib

/-!
# TransitionSystem — runs of a deterministic, possibly blocking machine

A machine is a step function `σ → ε → Option σ`: the state after an event, or `none` when the event
is not enabled (or the program aborts).  A *run* folds a list of events.  The rules the
developments below use:

* `runFrom_invariant` — what every step keeps, every run keeps;
* `runFrom_append`, `runFrom_append_eq_some` — runs compose and can be cut.

Where an event that is not enabled has to be told apart from one that aborts, `Reachable` collects the states
of all runs whose events are enabled, with `Reachable.invariant` as its induction rule.
-/

namespace MobilityNebula.Library

universe u v

variable {σ : Type u} {ε : Type v}

/-! ## Runs -/

/-- The state after the events `es`, if none of them blocks. -/
def runFrom (step : σ → ε → Option σ) : σ → List ε → Option σ
  | s, [] => some s
  | s, e :: es =>
    match step s e with
    | some s' => runFrom step s' es
    | none => none

@[simp] lemma runFrom_nil (step : σ → ε → Option σ) (s : σ) : runFrom step s [] = some s := rfl

section

variable {step : σ → ε → Option σ}

lemma runFrom_cons_of_step {s s' : σ} {e : ε} (h : step s e = some s') (es : List ε) :
    runFrom step s (e :: es) = runFrom step s' es := by
  simp [runFrom, h]

variable {es : List ε} {s t : σ}

lemma runFrom_cons_eq_some {e : ε} : runFrom step s (e :: es) = some t ↔
      ∃ s', step s e = some s' ∧ runFrom step s' es = some t := by
  cases h : step s e with
  | none => simp [runFrom, h]
  | some s' => simp [runFrom, h]

lemma runFrom_append (h : runFrom step s es = some t) (fs : List ε) :
    runFrom step s (es ++ fs) = runFrom step t fs := by
  induction es generalizing s with
  | nil =>
    have hst : s = t := by simpa using h
    simp [hst]
  | cons e es ih =>
    rcases runFrom_cons_eq_some.1 h with ⟨s', hstep, hrun⟩
    simpa [runFrom, hstep] using ih hrun

lemma runFrom_append_eq_some {fs : List ε} : runFrom step s (es ++ fs) = some t ↔
      ∃ s', runFrom step s es = some s' ∧ runFrom step s' fs = some t := by
  induction es generalizing s with
  | nil => simp
  | cons e es ih =>
    rw [List.cons_append]
    cases h : step s e with
    | none => simp [runFrom, h]
    | some s' => rw [runFrom_cons_of_step h, runFrom_cons_of_step h, ih]

/-! ## The invariant rule -/

lemma runFrom_invariant (Inv : σ → Prop) (hstep : ∀ s e s', Inv s → step s e = some s' → Inv s')
    (hs : Inv s) (h : runFrom step s es = some t) : Inv t := by
  induction es generalizing s with
  | nil =>
    have hst : s = t := by simpa using h
    exact hst ▸ hs
  | cons e es ih =>
    rcases runFrom_cons_eq_some.1 h with ⟨s', hse, hrun⟩
    exact ih (hstep s e s' hs hse) hrun

end

/-! ## Guarded runs -/

/-- The states after runs in which every event was enabled when it happened and did not abort. -/
inductive Reachable (initial : σ) (enabled : σ → ε → Prop) (step : σ → ε → Option σ) : σ → Prop where
  | initial : Reachable initial enabled step initial
  | step {s s' : σ} {e : ε} : Reachable initial enabled step s → enabled s e → step s e = some s' →
      Reachable initial enabled step s'

variable {initial : σ} {enabled : σ → ε → Prop} {step : σ → ε → Option σ}

lemma Reachable.invariant {s : σ} (Inv : σ → Prop) (hinitial : Inv initial)
    (hstep : ∀ s e s', Inv s → enabled s e → step s e = some s' → Inv s')
    (h : Reachable initial enabled step s) : Inv s := by
  induction h with
  | initial => exact hinitial
  | step _ henabled hstep' ih => exact hstep _ _ _ ih henabled hstep'

lemma Reachable.extend {s s' : σ} (e : ε)
    (hs : Reachable initial enabled step s) (henabled : enabled s e) (hstep : step s e = some s') :
    Reachable initial enabled step s' :=
  .step hs henabled hstep

/-- The state after the events `es`, if each of them is enabled when it happens. -/
def runGuarded (enabled : σ → ε → Prop) [∀ s e, Decidable (enabled s e)] (step : σ → ε → Option σ) :
    σ → List ε → Option σ
  | s, [] => some s
  | s, e :: es => if enabled s e then (step s e).bind fun s' => runGuarded enabled step s' es else none

/-- A run that can be executed reaches its final state. -/
lemma Reachable.of_runGuarded [∀ s e, Decidable (enabled s e)] {s t : σ} {es : List ε}
    (hs : Reachable initial enabled step s)
    (h : runGuarded enabled step s es = some t) : Reachable initial enabled step t := by
  induction es generalizing s with
  | nil =>
    have hst : s = t := Option.some.inj h
    exact hst ▸ hs
  | cons e es ih =>
    rw [runGuarded] at h
    split at h
    case isTrue henabled =>
      rcases Option.bind_eq_some_iff.1 h with ⟨s', hstep, hrest⟩
      exact ih (.step hs henabled hstep) hrest
    case isFalse => cases h

lemma Reachable.trans {s t : σ} (hs : Reachable initial enabled step s) (ht : Reachable s enabled step t) :
    Reachable initial enabled step t := by
  induction ht with
  | initial => exact hs
  | step _ henabled hstep ih => exact .step ih henabled hstep

/-- If no enabled event aborts and each of them lowers a measure, then some state in which nothing is enabled
any more can be reached. -/
lemma Reachable.exists_final (measure : σ → ℕ) (s : σ) (hstep : ∀ t, Reachable s enabled step t → ∀ e, enabled t e →
      ∃ t', step t e = some t' ∧ measure t' < measure t) :
    ∃ t, Reachable s enabled step t ∧ ∀ e, ¬ enabled t e := by
  induction hm : measure s using Nat.strongRecOn generalizing s with
  | ind m ih =>
    by_cases hfinal : ∀ e, ¬ enabled s e
    · exact ⟨s, .initial, hfinal⟩
    · push Not at hfinal
      rcases hfinal with ⟨e, henabled⟩
      rcases hstep s Reachable.initial e henabled with ⟨s', hs', hlt⟩
      have hfirst : Reachable s enabled step s' := .step .initial henabled hs'
      rcases ih _ (hm ▸ hlt) s' (fun t ht => hstep t (hfirst.trans ht)) rfl with ⟨t, ht, hnone⟩
      exact ⟨t, hfirst.trans ht, hnone⟩

end MobilityNebula.Library
