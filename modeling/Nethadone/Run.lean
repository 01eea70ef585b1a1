import Mathlib.Data.Option.Basic

/-!
# Runs of a machine that can stop

`run step s is` feeds the inputs one by one; there is no result as soon as
one step has none, which is how a process that dies is modelled. An
invariant kept by every completed step holds after every completed run
(`invariant`), and two machines related step by step stay related
(`run_map`).
-/

namespace Run

variable {σ τ ι : Type*} {step : σ → ι → Option σ}

def run (step : σ → ι → Option σ) : σ → List ι → Option σ
  | s, [] => some s
  | s, i :: is => (step s i).bind fun s' => run step s' is

theorem run_cons {s s'' : σ} {i : ι} {is : List ι} (h : run step s (i :: is) = some s'') :
    ∃ s', step s i = some s' ∧ run step s' is = some s'' :=
  Option.bind_eq_some_iff.mp h

theorem invariant {I : σ → Prop} (hstep : ∀ s i s', I s → step s i = some s' → I s') :
    ∀ {is : List ι} {s s' : σ}, run step s is = some s' → I s → I s'
  | [], _, _, h, hs => Option.some.inj h ▸ hs
  | _ :: _, _, _, h, hs => by
      obtain ⟨s₁, h₁, hrest⟩ := run_cons h
      exact invariant hstep hrest (hstep _ _ _ hs h₁)

/-- A map that turns the steps of one machine into those of another turns its
runs into the other's. -/
theorem run_map {step' : τ → ι → Option τ} {f : σ → τ}
    (hstep : ∀ s i, (step s i).map f = step' (f s) i) :
    ∀ (is : List ι) (s : σ), (run step s is).map f = run step' (f s) is
  | [], _ => rfl
  | i :: is, s => by
      rw [run, run, ← hstep]
      cases step s i with
      | none => rfl
      | some s' => exact run_map hstep is s'

end Run
