import Mathlib.Logic.Relation

/-!
# Reachable states and runs of a transition system

* `Reach init step s`     `s` is reached from a start state by finitely many steps;
* `Reach.invariant`       what holds at the start and is kept by every step from a reachable state
                          holds in every reachable state;
* `Reach.mono`            more steps reach more states;
* `Run step s tr`         the list `tr` of labels and states is a run from `s`;
* `Meets cond s tr`       every step of the run meets the condition `cond` on the state before it;
* `Always good s tr`      every step of the run is `good`, a property of the step and its result;
* `Run.always_imp`        the rule for runs: a property of steps follows from another, given an
                          invariant;
* `Run.invariant`         what every step keeps holds in every state of a run;
* `Run.always_iff`        if steps from states with an invariant are `good` exactly when they meet
                          `cond`, then a run is `good` throughout exactly when all its steps meet it;
* `Run.meets_iff`         if, from a state where `P` holds, a step keeps `P` exactly when it meets
                          `cond`, then a run stays in `P` exactly when all its steps meet `cond`.
-/

namespace Library

section
variable {σ : Type*}

inductive Reach (init : σ → Prop) (step : σ → σ → Prop) : σ → Prop
  | start {s : σ} (h : init s) : Reach init step s
  | next {s s' : σ} (hr : Reach init step s) (h : step s s') : Reach init step s'

/-- **The invariant rule.** -/
theorem Reach.invariant {init : σ → Prop} {step : σ → σ → Prop} {I : σ → Prop}
    (h0 : ∀ s, init s → I s) (hs : ∀ s s', Reach init step s → I s → step s s' → I s')
    {s : σ} (h : Reach init step s) : I s := by
  induction h with
  | start h => exact h0 _ h
  | next hr h ih => exact hs _ _ hr ih h

theorem Reach.mono {init : σ → Prop} {step step' : σ → σ → Prop}
    (hs : ∀ s s', step s s' → step' s s') {s : σ} (h : Reach init step s) : Reach init step' s := by
  induction h with
  | start h => exact Reach.start h
  | next _ h ih => exact Reach.next ih (hs _ _ h)

end

section
variable {σ ε : Type*}

inductive Run (step : σ → ε → σ → Prop) : σ → List (ε × σ) → Prop
  | nil (s : σ) : Run step s []
  | cons {s s' : σ} {e : ε} {tr : List (ε × σ)} (h : step s e s') (hr : Run step s' tr) :
      Run step s ((e, s') :: tr)

def Meets (cond : σ → ε → Prop) : σ → List (ε × σ) → Prop
  | _, [] => True
  | s, (e, s') :: tr => cond s e ∧ Meets cond s' tr

def Always (good : σ → ε → σ → Prop) : σ → List (ε × σ) → Prop
  | _, [] => True
  | s, (e, s') :: tr => good s e s' ∧ Always good s' tr

theorem always_state_iff (P : σ → Prop) (s : σ) (tr : List (ε × σ)) :
    Always (fun _ _ s' => P s') s tr ↔ ∀ x ∈ tr, P x.2 := by
  induction tr generalizing s with
  | nil => simp [Always]
  | cons x tr ih =>
    rw [List.forall_mem_cons, ← ih x.2]
    rfl

theorem always_cond_iff (cond : σ → ε → Prop) (s : σ) (tr : List (ε × σ)) :
    Always (fun s e _ => cond s e) s tr ↔ Meets cond s tr := by
  induction tr generalizing s with
  | nil => exact Iff.rfl
  | cons x tr ih => exact and_congr_right fun _ => ih x.2

/-- **The rule for runs.**  `I` is kept by every step with `P`, and such a step has `Q`. -/
theorem Run.always_imp {step P Q : σ → ε → σ → Prop} {I : σ → Prop}
    (hI : ∀ s e s', I s → P s e s' → step s e s' → I s')
    (hPQ : ∀ s e s', I s → P s e s' → step s e s' → Q s e s')
    {s : σ} {tr : List (ε × σ)} (hr : Run step s tr) (h0 : I s) (hP : Always P s tr) :
    Always Q s tr := by
  induction hr with
  | nil s => trivial
  | @cons s s' e tr h hr ih =>
    obtain ⟨hstep, htr⟩ := hP
    exact ⟨hPQ s e s' h0 hstep h, ih (hI s e s' h0 hstep h) htr⟩

/-- **The invariant rule for runs.** -/
theorem Run.invariant {step : σ → ε → σ → Prop} {I : σ → Prop}
    (hI : ∀ s e s', I s → step s e s' → I s') {s : σ} {tr : List (ε × σ)} (hr : Run step s tr)
    (h0 : I s) : ∀ x ∈ tr, I x.2 := by
  induction hr with
  | nil s => nofun
  | @cons s s' e tr h _ ih =>
    have hs' := hI s e s' h0 h
    exact List.forall_mem_cons.mpr ⟨hs', ih hs'⟩

/-- **The exact condition of a run.**  `I` is kept by every step that meets `cond`; a step from a
state with `I` is good if and only if it meets `cond`. -/
theorem Run.always_iff {step good : σ → ε → σ → Prop} {I : σ → Prop} {cond : σ → ε → Prop}
    (hI : ∀ s e s', I s → cond s e → step s e s' → I s')
    (hgood : ∀ s e s', I s → step s e s' → (good s e s' ↔ cond s e))
    {s : σ} {tr : List (ε × σ)} (hr : Run step s tr) (h0 : I s) :
    Always good s tr ↔ Meets cond s tr := by
  rw [← always_cond_iff]
  constructor
  · refine Run.always_imp (I := I) (fun s e s' hs hg h => ?_) (fun s e s' hs hg h => ?_) hr h0
    · exact hI s e s' hs ((hgood s e s' hs h).mp hg) h
    · exact (hgood s e s' hs h).mp hg
  · exact Run.always_imp (I := I) hI (fun s e s' hs hc h => (hgood s e s' hs h).mpr hc) hr h0

/-- **The exact condition for staying in `P`.**  `I` is kept by every step; `P` is kept by a step
from a state with `I` and `P` if and only if the step meets `cond`. -/
theorem Run.meets_iff {step : σ → ε → σ → Prop} {I P : σ → Prop} {cond : σ → ε → Prop}
    (hI : ∀ s e s', I s → P s → cond s e → step s e s' → I s')
    (hP : ∀ s e s', I s → P s → step s e s' → (P s' ↔ cond s e))
    {s : σ} {tr : List (ε × σ)} (hr : Run step s tr) (h0 : I s) (h1 : P s) :
    (∀ x ∈ tr, P x.2) ↔ Meets cond s tr := by
  rw [← always_state_iff P s tr]
  refine Run.always_iff (I := fun s => I s ∧ P s) (fun s e s' hs hcond h => ?_)
    (fun s e s' hs h => hP s e s' hs.1 hs.2 h) hr ⟨h0, h1⟩
  exact ⟨hI s e s' hs.1 hs.2 hcond h, (hP s e s' hs.1 hs.2 h).mpr hcond⟩

end

end Library
