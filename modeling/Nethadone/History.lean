import Mathlib.Data.List.Induction
import Nethadone.Run

/-!
# What a run has been through

Invariants of a machine that speak of its past: that something `Happened`
at an earlier step, in the state that step found. What the surroundings may
feed the machine can depend on the state they find it in (`Always`); if
every input allowed so has a result and keeps the invariant, the machine
completes every allowed run (`completes`).
-/

namespace History

open Run

variable {σ ι : Type*} {step : σ → ι → Option σ} {s₀ s : σ} {i : ι} {past rest : List ι}

theorem run_append (step : σ → ι → Option σ) (rest : List ι) :
    ∀ (past : List ι) (s₀ : σ),
      run step s₀ (past ++ rest) = (run step s₀ past).bind fun s => run step s rest
  | [], _ => rfl
  | i :: past, s₀ => by
      rw [List.cons_append, run, run]
      cases step s₀ i with
      | none => rfl
      | some s => exact run_append step rest past s

theorem run_concat (h : run step s₀ past = some s) : run step s₀ (past ++ [i]) = step s i := by
  rw [run_append, h, Option.bind_some, run]
  cases step s i <;> rfl

/-- An invariant that knows the inputs so far, of the runs that are completed. -/
theorem traced {I : List ι → σ → Prop} (hstart : I [] s₀)
    (hstep : ∀ past s i s', run step s₀ past = some s → I past s → step s i = some s' →
      I (past ++ [i]) s') {is : List ι} : ∀ {s : σ}, run step s₀ is = some s → I is s := by
  induction is using List.reverseRecOn with
  | nil =>
      rintro s h
      exact Option.some.inj h ▸ hstart
  | append_singleton past i ih =>
      intro s' h
      rw [run_append, Option.bind_eq_some_iff] at h
      obtain ⟨s, hrun, hlast⟩ := h
      obtain ⟨s₁, h₁, hend⟩ := run_cons hlast
      obtain rfl := Option.some.inj hend
      exact hstep past s i s₁ hrun (ih hrun) h₁

/-! ## Something happened -/

/-- At some step `P` held of the inputs before it, the state it found and its
own input. -/
def Happened (step : σ → ι → Option σ) (s₀ : σ) (past : List ι)
    (P : List ι → σ → ι → Prop) : Prop :=
  ∃ pre i post s, past = pre ++ i :: post ∧ run step s₀ pre = some s ∧ P pre s i

variable {P : List ι → σ → ι → Prop}

theorem Happened.later (h : Happened step s₀ past P) (more : List ι) :
    Happened step s₀ (past ++ more) P := by
  obtain ⟨pre, i, post, s, rfl, hrun, hP⟩ := h
  exact ⟨pre, i, post ++ more, s, by rw [List.append_assoc, List.cons_append], hrun, hP⟩

theorem Happened.now (hrun : run step s₀ past = some s) (hP : P past s i) :
    Happened step s₀ (past ++ [i]) P :=
  ⟨past, i, [], s, rfl, hrun, hP⟩

/-! ## Allowed runs -/

/-- Each input is one the surroundings may give in the state it finds. -/
def Always (step : σ → ι → Option σ) (s₀ : σ) (is : List ι) (A : σ → ι → Prop) : Prop :=
  ∀ pre i post s, is = pre ++ i :: post → run step s₀ pre = some s → A s i

variable {A : σ → ι → Prop}

theorem Always.before (h : Always step s₀ (past ++ rest) A) : Always step s₀ past A := by
  rintro pre i post s rfl hrun
  exact h pre i (post ++ rest) s (by rw [List.append_assoc, List.cons_append]) hrun

theorem always_nil : Always step s₀ [] A := by
  intro pre i post s h
  cases pre <;> cases h

theorem always_cons {is : List ι} (hi : A s₀ i)
    (his : ∀ s, step s₀ i = some s → Always step s is A) : Always step s₀ (i :: is) A := by
  rintro (_ | ⟨j, pre⟩) i' post s h hrun
  · obtain ⟨rfl, rfl⟩ := List.cons.inj h
    obtain rfl := Option.some.inj hrun
    exact hi
  · obtain ⟨rfl, rfl⟩ := List.cons.inj h
    obtain ⟨s₁, h₁, hrest⟩ := run_cons hrun
    exact his s₁ h₁ pre i' post s rfl hrest

theorem Always.head {is : List ι} (h : Always step s₀ (i :: is) A) : A s₀ i :=
  h [] i is s₀ rfl rfl

theorem Always.tail {is : List ι} (h : Always step s₀ (i :: is) A) (hs : step s₀ i = some s) :
    Always step s is A := by
  rintro pre i' post s' rfl hrun
  exact h (i :: pre) i' post s' rfl (by rw [run, hs, Option.bind_some, hrun])

/-- What every allowed step keeps holds after an allowed run. -/
theorem Always.invariant {I : σ → Prop}
    (hstep : ∀ s i s', I s → A s i → step s i = some s' → I s') :
    ∀ {is : List ι} {s₀ s : σ}, Always step s₀ is A → run step s₀ is = some s → I s₀ → I s
  | [], _, _, _, hrun, hs => Option.some.inj hrun ▸ hs
  | _ :: _, _, _, h, hrun, hs => by
      obtain ⟨s₁, h₁, hrest⟩ := run_cons hrun
      exact Always.invariant hstep (h.tail h₁) hrest (hstep _ _ _ hs h.head h₁)

theorem completes {I : List ι → σ → Prop} (hstart : I [] s₀)
    (hstep : ∀ past s i, run step s₀ past = some s → I past s → A s i →
      ∃ s', step s i = some s' ∧ I (past ++ [i]) s') {is : List ι} (h : Always step s₀ is A) :
    ∃ s, run step s₀ is = some s ∧ I is s := by
  induction is using List.reverseRecOn with
  | nil => exact ⟨s₀, rfl, hstart⟩
  | append_singleton past i ih =>
      obtain ⟨s, hrun, hI⟩ := ih h.before
      obtain ⟨s', hs', hI'⟩ := hstep past s i hrun hI (h past i [] s rfl hrun)
      exact ⟨s', by rw [run_concat hrun, hs'], hI'⟩

end History
