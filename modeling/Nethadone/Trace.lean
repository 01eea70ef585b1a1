import Mathlib.Data.List.Basic

/-!
# Traces of a deterministic machine

`trace step s is` lists each input of a run with the state it found. A law
about every step of every run is a statement about the members of a trace.

Invariants here may speak of the inputs still to come (`forall_trace`):
that is where a clock that never goes back, or a promise about later
inputs, lives. `trace_eq_append_cons` takes a trace apart at one of its
steps.
-/

namespace Trace

variable {σ ι : Type*}

/-- Each input of the run, with the state before it. -/
def trace (step : σ → ι → σ) : σ → List ι → List (σ × ι)
  | _, [] => []
  | s, i :: is => (s, i) :: trace step (step s i) is

variable {step : σ → ι → σ}

theorem forall_trace {I : σ → List ι → Prop}
    (hstep : ∀ s i is, I s (i :: is) → I (step s i) is) :
    ∀ {is : List ι} {s : σ}, I s is → ∀ x ∈ trace step s is, ∃ rest, I x.1 (x.2 :: rest)
  | [], _, _, _, hx => (List.not_mem_nil hx).elim
  | _ :: is, _, hs, x, hx => by
      rcases List.mem_cons.mp hx with rfl | hx
      · exact ⟨is, hs⟩
      · exact forall_trace hstep (hstep _ _ _ hs) x hx

/-- Two properties of a step that agree wherever the invariant holds agree on
all steps of every run. -/
theorem forall_trace_congr {I : σ → List ι → Prop}
    (hstep : ∀ s i is, I s (i :: is) → I (step s i) is) {P Q : σ × ι → Prop}
    (hPQ : ∀ s i is, I s (i :: is) → (P (s, i) ↔ Q (s, i))) {is : List ι} {s : σ} (hs : I s is) :
    (∀ x ∈ trace step s is, P x) ↔ ∀ x ∈ trace step s is, Q x :=
  forall₂_congr fun x hx => by
    obtain ⟨rest, hI⟩ := forall_trace hstep hs x hx
    exact hPQ x.1 x.2 rest hI

theorem trace_eq_append_cons :
    ∀ {is : List ι} {s : σ} {pre post : List (σ × ι)} {x : σ × ι},
      trace step s is = pre ++ x :: post → post = trace step (step x.1 x.2) (post.map Prod.snd)
  | [], _, pre, _, _, h => by
      cases pre <;> cases h
  | i :: is, s, [], post, x, h => by
      obtain ⟨rfl, rfl⟩ := List.cons.inj h
      have hsnd : ∀ (js : List ι) (s' : σ), (trace step s' js).map Prod.snd = js := by
        intro js
        induction js with
        | nil => intro _; rfl
        | cons j js ih => intro s'; rw [trace, List.map_cons, ih]
      rw [hsnd]
  | _ :: _, _, _ :: _, _, _, h => trace_eq_append_cons (List.cons.inj h).2

/-- A view of the state that no step moves is, when the next step comes, what
it was. -/
theorem view_of_still {ν : Type*} (view : σ → ν) :
    ∀ {is : List ι} {s : σ} {mid post : List (σ × ι)} {y : σ × ι},
      trace step s is = mid ++ y :: post → (∀ z ∈ mid, view (step z.1 z.2) = view z.1) →
        view y.1 = view s
  | [], _, mid, _, _, h, _ => by
      cases mid <;> cases h
  | _ :: _, _, [], _, _, h, _ => by
      obtain ⟨rfl, -⟩ := List.cons.inj h
      rfl
  | _ :: _, _, _ :: _, _, _, h, hstill => by
      obtain ⟨rfl, hrest⟩ := List.cons.inj h
      rw [view_of_still view hrest fun z hz => hstill z (List.mem_cons_of_mem _ hz)]
      exact hstill _ (List.mem_cons_self ..)

end Trace
