import Mathlib.Data.List.Basic
import Mathlib.Order.Basic

/-!
# Runs of a labelled step function

A component is a total step function: a call that reverts or a message that is
rolled back leaves the state where it was.  A run is the left fold of the step
function over a list of labels, so a run on concrete labels computes.
-/

namespace IreBlockchain.Foundation

section Runs

variable {State Label : Type} (step : State → Label → State)

def run (state : State) (labels : List Label) : State :=
  labels.foldl step state

@[simp] theorem run_nil (state : State) : run step state [] = state := rfl

@[simp] theorem run_cons (state : State) (label : Label) (labels : List Label) :
    run step state (label :: labels) = run step (step state label) labels := rfl

theorem run_append (state : State) (earlier later : List Label) :
    run step state (earlier ++ later) =
      run step (run step state earlier) later :=
  List.foldl_append

def Guarded (guard : State → Label → Prop) : State → List Label → Prop
  | _, [] => True
  | state, label :: labels =>
      guard state label ∧ Guarded guard (step state label) labels

instance decidableGuarded (guard : State → Label → Prop)
    [∀ state label, Decidable (guard state label)] :
    ∀ state labels, Decidable (Guarded step guard state labels)
  | _, [] => .isTrue trivial
  | state, label :: labels =>
      have := decidableGuarded guard (step state label) labels
      inferInstanceAs (Decidable (_ ∧ _))

variable {step}

/-- A property kept by every guarded step holds at the end of a guarded run. -/
theorem Guarded.invariant {guard : State → Label → Prop}
    {inv : State → Prop}
    (hstep : ∀ state label, inv state → guard state label →
      inv (step state label))
    {state : State} {labels : List Label}
    (hguard : Guarded step guard state labels) (hinit : inv state) :
    inv (run step state labels) := by
  induction labels generalizing state with
  | nil => exact hinit
  | cons label labels ih =>
      exact ih hguard.2 (hstep state label hinit hguard.1)

/-- A property kept by every step holds at the end of every run. -/
theorem run_invariant {inv : State → Prop}
    (hstep : ∀ state label, inv state → inv (step state label))
    {state : State} (hinit : inv state) (labels : List Label) :
    inv (run step state labels) := by
  induction labels generalizing state with
  | nil => exact hinit
  | cons label labels ih => exact ih (hstep state label hinit)

/--
A property that a step can lose but never regain, and that it keeps exactly
when `guard` holds, is there at the end of a run exactly when it was there at
the start and every step met the guard.
-/
theorem run_iff_guarded {inv p : State → Prop} {guard : State → Label → Prop}
    (hinv : ∀ state label, inv state → inv (step state label))
    (hstep : ∀ state label, inv state →
      (p (step state label) ↔ p state ∧ guard state label))
    {state : State} (hinit : inv state) (labels : List Label) :
    p (run step state labels) ↔
      p state ∧ Guarded step guard state labels := by
  induction labels generalizing state with
  | nil => simp [Guarded]
  | cons label labels ih =>
      rw [run_cons, ih (hinv state label hinit), hstep state label hinit]
      simp only [Guarded, and_assoc]

theorem run_measure_eq_iff {μ : Type} [PartialOrder μ] {measure : State → μ}
    {inv : State → Prop}
    (hinv : ∀ state label, inv state → inv (step state label))
    (hle : ∀ state label, inv state →
      measure (step state label) ≤ measure state)
    {state : State} (hinit : inv state) (labels : List Label) :
    measure (run step state labels) = measure state ↔
      Guarded step (fun state label =>
        measure (step state label) = measure state) state labels := by
  let bounded (now : State) := inv now ∧ measure now ≤ measure state
  have hkept : ∀ now label, bounded now → bounded (step now label) :=
    fun now label h =>
      ⟨hinv now label h.1, le_trans (hle now label h.1) h.2⟩
  have hlatch : ∀ now label, bounded now →
      (measure (step now label) = measure state ↔
        measure now = measure state ∧
          measure (step now label) = measure now) := by
    intro now label h
    constructor
    · intro hnext
      have hnow : measure now = measure state :=
        le_antisymm h.2 (hnext ▸ hle now label h.1)
      exact ⟨hnow, hnext.trans hnow.symm⟩
    · rintro ⟨hnow, hkeep⟩
      exact hkeep.trans hnow
  simpa using run_iff_guarded (p := fun now => measure now = measure state)
    hkept hlatch ⟨hinit, le_refl _⟩ labels

theorem Guarded.congr {guard guard' : State → Label → Prop}
    {inv : State → Prop}
    (hinv : ∀ state label, inv state → inv (step state label))
    (h : ∀ state label, inv state → (guard state label ↔ guard' state label))
    {state : State} (hinit : inv state) (labels : List Label) :
    Guarded step guard state labels ↔ Guarded step guard' state labels := by
  induction labels generalizing state with
  | nil => simp [Guarded]
  | cons label labels ih =>
      simp [Guarded, h state label hinit, ih (hinv state label hinit)]

/-! ## Sums over a run -/

variable (step) in
def runSum (amount : State → Label → Nat) : State → List Label → Nat
  | _, [] => 0
  | state, label :: labels =>
      amount state label + runSum amount (step state label) labels

theorem run_balance {measure : State → Nat} {gain loss : State → Label → Nat}
    (hstep : ∀ state label, measure (step state label) + loss state label =
      measure state + gain state label)
    (state : State) (labels : List Label) :
    measure (run step state labels) + runSum step loss state labels =
      measure state + runSum step gain state labels := by
  induction labels generalizing state with
  | nil => rfl
  | cons label labels ih =>
      have hfirst := hstep state label
      have hrest := ih (step state label)
      simp only [run_cons, runSum]
      omega

end Runs

end IreBlockchain.Foundation
