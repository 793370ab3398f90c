import Mathlib.Logic.Basic

/-! Machines given by a step function: the states their runs reach, what every step keeps, and the
execution of a list of moves. -/
namespace VmManager.Interleaving
variable {σ μ : Type}

/-- The states reached from the start by steps that meet a condition. -/
inductive Reached (step : σ → μ → Option σ) (start : σ → Prop) (K : σ → μ → Prop) : σ → Prop where
  | start {s : σ} (h : start s) : Reached step start K s
  | step {s s' : σ} {mv : μ} (h : Reached step start K s) (hk : K s mv) (hs : step s mv = some s') :
      Reached step start K s'

def execAll (step : σ → μ → Option σ) (ok : σ → μ → Bool) : σ → List μ → Option σ
  | s, [] => some s
  | s, mv :: moves => if ok s mv then (step s mv).bind fun s' => execAll step ok s' moves else none

namespace Reached
variable {step : σ → μ → Option σ} {start : σ → Prop} {K : σ → μ → Prop} {s s' : σ}

theorem invariant {I : σ → Prop} (hstart : ∀ s, start s → I s)
    (hstep : ∀ s mv s', I s → K s mv → step s mv = some s' → I s') (h : Reached step start K s) :
    I s := by
  induction h with
  | start h => exact hstart _ h
  | step _ hk hs ih => exact hstep _ _ _ ih hk hs

theorem execAll {ok : σ → μ → Bool} (hok : ∀ s mv, ok s mv = true → K s mv) {moves : List μ}
    (h : Reached step start K s) (hx : execAll step ok s moves = some s') :
    Reached step start K s' := by
  induction moves generalizing s with
  | nil =>
    cases hx
    exact h
  | cons mv moves ih =>
    rw [Interleaving.execAll] at hx
    split at hx
    · obtain ⟨z, hz, hy⟩ := Option.bind_eq_some_iff.1 hx
      exact ih (h.step (hok _ _ ‹_›) hz) hy
    · cases hx

end Reached

end VmManager.Interleaving
