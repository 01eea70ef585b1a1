import Mathlib.Data.List.Basic

/-!
# Programs that may stop

A program that works on a world and ends the process where a step fails:
the world stays as the steps before the failure left it, and is what the
next process finds. A triple therefore has two postconditions, for the end
and for the stop. With `False` for the stop it says that the program comes
to its end; with `True` for both it says nothing.
-/

namespace Fatal

/-- Without a result the program has stopped, in the state it left. -/
abbrev Prog (σ α : Type) := OptionT (StateM σ) α

variable {σ α β : Type}

def Prog.exec (m : Prog σ α) (s : σ) : Option α × σ := m.run.run s

theorem exec_bind (m : Prog σ α) (f : α → Prog σ β) (s : σ) :
    (m >>= f).exec s = match m.exec s with
      | (some a, s') => (f a).exec s'
      | (none, s') => (none, s') := by
  rw [Prog.exec, OptionT.run_bind, Option.elimM, StateT.run_bind, Prog.exec]
  rcases m.run.run s with ⟨_ | a, s'⟩
  · rfl
  · rfl

/-! ## Triples -/

/-- From a state in `P` the program ends in one in `Q`, or stops in one in `E`. -/
def Triple (P : σ → Prop) (m : Prog σ α) (Q : α → σ → Prop) (E : σ → Prop) : Prop :=
  ∀ s, P s → match m.exec s with
    | (some a, s') => Q a s'
    | (none, s') => E s'

variable {P P' : σ → Prop} {Q Q' : α → σ → Prop} {R : β → σ → Prop} {E E' : σ → Prop}
  {m : Prog σ α} {f : α → Prog σ β} {s s' : σ} {a : α}

theorem Triple.ends (h : Triple P m Q E) (hs : P s) (hrun : m.exec s = (some a, s')) : Q a s' := by
  have := h s hs
  rwa [hrun] at this

theorem Triple.stops (h : Triple P m Q E) (hs : P s) (hrun : m.exec s = (none, s')) : E s' := by
  have := h s hs
  rwa [hrun] at this

/-- A program that cannot stop has a result. -/
theorem Triple.completes (h : Triple P m Q fun _ => False) (hs : P s) :
    ∃ a s', m.exec s = (some a, s') ∧ Q a s' := by
  have := h s hs
  rcases hrun : m.exec s with ⟨_ | a, s'⟩
  · rw [hrun] at this
    exact this.elim
  · rw [hrun] at this
    exact ⟨a, s', rfl, this⟩

theorem Triple.weaken (h : Triple P m Q E) (hP : ∀ s, P' s → P s) (hQ : ∀ a s, Q a s → Q' a s)
    (hE : ∀ s, E s → E' s) : Triple P' m Q' E' := by
  intro s hs
  have := h s (hP s hs)
  rcases hrun : m.exec s with ⟨_ | a, s'⟩
  · rw [hrun] at this
    exact hE s' this
  · rw [hrun] at this
    exact hQ a s' this

theorem triple_of_and {p : Prop} (h : p → Triple P m Q E) : Triple (fun s => p ∧ P s) m Q E :=
  fun s hs => h hs.1 s hs.2

theorem triple_of_exists {ι : Sort*} {P : ι → σ → Prop} (h : ∀ i, Triple (P i) m Q E) :
    Triple (fun s => ∃ i, P i s) m Q E := by
  rintro s ⟨i, hs⟩
  exact h i s hs

theorem triple_pure (a : α) : Triple (Q a) (pure a) Q E := fun _ h => h

theorem triple_bind (hm : Triple P m Q E) (hf : ∀ a, Triple (Q a) (f a) R E) :
    Triple P (m >>= f) R E := by
  intro s hs
  have := hm s hs
  rw [exec_bind]
  rcases hrun : m.exec s with ⟨_ | a, s'⟩
  · rw [hrun] at this
    exact this
  · rw [hrun] at this
    exact hf a s' this

/-- A loop over a list, with an invariant that knows what has been done. -/
theorem triple_forM {I : List α → σ → Prop} {body : α → Prog σ PUnit} {xs : List α}
    (hbody : ∀ past x rest, xs = past ++ x :: rest →
      Triple (I past) (body x) (fun _ => I (past ++ [x])) E) :
    Triple (I []) (xs.forM body) (fun _ => I xs) E := by
  suffices h : ∀ rest past, xs = past ++ rest →
      Triple (I past) (rest.forM body) (fun _ => I xs) E from h xs [] rfl
  intro rest
  induction rest with
  | nil =>
      rintro past rfl
      rw [List.append_nil]
      exact triple_pure (Q := fun _ => I past) PUnit.unit
  | cons x rest ih =>
      intro past hxs
      refine triple_bind (hbody past x rest hxs) fun _ => ih (past ++ [x]) ?_
      rw [hxs, List.append_assoc]
      rfl

end Fatal
