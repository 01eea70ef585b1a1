import Mathlib.Data.List.Induction
import Mathlib.Logic.Function.Basic

/-!
# Workers with queues of their own

Several workers, each with a queue of jobs. A worker takes the next job of
its queue when its hands are empty, and writes what the job splits into to
a store they share, one write at a time. Jobs arrive, jobs are taken and
writes are made in any order; every write carries a tag of the moment.

`log` lists the writes in the order they were made, each with its worker.
Two things are true of it after every schedule. The store is the fold of
the log (`store_eq`). And each worker's part of the log, with what it has
in its hands and in its queue, is what has arrived for it, job by job
(`run_flow`): nothing is lost, nothing is written twice, and no
worker's writes change places.
-/

namespace Workers

variable {ι β ω τ σ : Type*} [DecidableEq ι]

structure State (ι β ω τ σ : Type*) where
  queue : ι → List β
  hand : ι → List ω
  store : σ
  log : List (ι × ω × τ)

inductive Act (ι β τ : Type*) where
  | arrive (i : ι) (b : β)
  | take (i : ι)
  | write (i : ι) (tag : τ)

def State.start (S : σ) : State ι β ω τ σ := ⟨fun _ => [], fun _ => [], S, []⟩

section Machine

variable (split : β → List ω) (apply : σ → ω × τ → σ)

/-- A worker with nothing to take or to write waits. -/
def State.step (s : State ι β ω τ σ) : Act ι β τ → State ι β ω τ σ
  | .arrive i b => { s with queue := Function.update s.queue i (s.queue i ++ [b]) }
  | .take i =>
      match s.hand i, s.queue i with
      | [], b :: bs =>
          { s with
            queue := Function.update s.queue i bs
            hand := Function.update s.hand i (split b) }
      | _, _ => s
  | .write i tag =>
      match s.hand i with
      | w :: ws =>
          { s with
            hand := Function.update s.hand i ws
            store := apply s.store (w, tag)
            log := s.log ++ [(i, w, tag)] }
      | [] => s

def State.run (s : State ι β ω τ σ) (acts : List (Act ι β τ)) : State ι β ω τ σ :=
  acts.foldl (State.step split apply) s

end Machine

/-- The jobs that arrived for a worker, in order. -/
def arrived (i : ι) (acts : List (Act ι β τ)) : List β :=
  acts.filterMap fun a =>
    match a with
    | .arrive j b => if j = i then some b else none
    | _ => none

/-- The tags of the writes, in order, whether or not there was something to write. -/
def tags (acts : List (Act ι β τ)) : List τ :=
  acts.filterMap fun a =>
    match a with
    | .write _ tag => some tag
    | _ => none

/-- What a worker has written, in order. -/
def logOf (i : ι) (log : List (ι × ω × τ)) : List ω :=
  (log.filter fun e => e.1 = i).map fun e => e.2.1

def State.Idle (s : State ι β ω τ σ) : Prop := ∀ i, s.queue i = [] ∧ s.hand i = []

variable {split : β → List ω} {apply : σ → ω × τ → σ} {s : State ι β ω τ σ} {S : σ}
  {acts : List (Act ι β τ)} {a : Act ι β τ} {i : ι}

theorem arrived_concat : arrived i (acts ++ [a]) = arrived i acts ++ arrived i [a] :=
  List.filterMap_append

theorem logOf_cons (j : ι) (w : ω) (tag : τ) (log : List (ι × ω × τ)) :
    logOf i ((j, w, tag) :: log) = if j = i then w :: logOf i log else logOf i log := by
  by_cases hj : j = i <;> simp [logOf, hj]

/-- A step moves a worker's things along, and lets the new ones in at the end. -/
theorem step_flow : logOf i (s.step split apply a).log
      ++ ((s.step split apply a).hand i ++ ((s.step split apply a).queue i).flatMap split)
    = logOf i s.log ++ (s.hand i ++ (s.queue i).flatMap split)
      ++ (arrived i [a]).flatMap split := by
  cases a with
  | arrive j b =>
      by_cases hj : j = i
      · subst hj
        simp [State.step, arrived, List.append_assoc]
      · simp [State.step, arrived, hj, Function.update_of_ne (Ne.symm hj)]
  | take j =>
      have hnone : arrived i [(Act.take j : Act ι β τ)] = [] := rfl
      rw [hnone, List.flatMap_nil, List.append_nil, State.step]
      split
      · rename_i b bs hhand hqueue
        by_cases hj : j = i
        · subst hj
          simp [hhand, hqueue]
        · simp [Function.update_of_ne (Ne.symm hj)]
      · rfl
  | write j tag =>
      have hnone : arrived i [(Act.write j tag : Act ι β τ)] = [] := rfl
      rw [hnone, List.flatMap_nil, List.append_nil, State.step]
      split
      · rename_i w ws hhand
        by_cases hj : j = i
        · subst hj
          simp [logOf, hhand]
        · simp [logOf, hj, Function.update_of_ne (Ne.symm hj)]
      · rfl

theorem run_concat :
    s.run split apply (acts ++ [a]) = (s.run split apply acts).step split apply a := by
  rw [State.run, List.foldl_append]
  rfl

theorem run_flow (S : σ) (acts : List (Act ι β τ)) (i : ι) :
    logOf i ((State.start S).run split apply acts).log
        ++ (((State.start S).run split apply acts).hand i
          ++ (((State.start S).run split apply acts).queue i).flatMap split)
      = (arrived i acts).flatMap split := by
  induction acts using List.reverseRecOn with
  | nil => rfl
  | append_singleton acts a ih =>
      rw [run_concat, step_flow, ih, arrived_concat, List.flatMap_append]

/-- When all work is done, each worker has written exactly what its jobs split
into, job by job. -/
theorem logOf_of_idle (h : ((State.start S).run split apply acts).Idle) (i : ι) :
    logOf i ((State.start S).run split apply acts).log = (arrived i acts).flatMap split := by
  have hflow : logOf i ((State.start S).run split apply acts).log ++ _ = _ := run_flow S acts i
  obtain ⟨hqueue, hhand⟩ := h i
  rwa [hqueue, hhand, List.flatMap_nil, List.append_nil, List.append_nil] at hflow

theorem step_store (h : s.store = (s.log.map Prod.snd).foldl apply S) :
    (s.step split apply a).store = ((s.step split apply a).log.map Prod.snd).foldl apply S := by
  cases a with
  | arrive j b => exact h
  | take j =>
      rw [State.step]
      split <;> exact h
  | write j tag =>
      rw [State.step]
      split
      · simp [h]
      · exact h

theorem store_eq (S : σ) (acts : List (Act ι β τ)) :
    ((State.start S).run split apply acts).store
      = (((State.start S).run split apply acts).log.map Prod.snd).foldl apply S := by
  induction acts using List.reverseRecOn with
  | nil => rfl
  | append_singleton acts a ih =>
      rw [run_concat]
      exact step_store ih

/-- The tags of the log come in the order of the schedule. -/
theorem log_tags_sublist (S : σ) (acts : List (Act ι β τ)) :
    (((State.start S).run split apply acts).log.map fun e => e.2.2).Sublist (tags acts) := by
  induction acts using List.reverseRecOn with
  | nil => exact List.Sublist.refl _
  | append_singleton acts a ih =>
      have htags : tags (acts ++ [a]) = tags acts ++ tags [a] := List.filterMap_append
      rw [run_concat, htags]
      cases a with
      | arrive j b => exact ih.trans (List.sublist_append_left ..)
      | take j =>
          rw [State.step]
          split <;> exact ih.trans (List.sublist_append_left ..)
      | write j tag =>
          rw [State.step]
          split
          · rw [List.map_append]
            exact ih.append (List.Sublist.refl _)
          · exact ih.trans (List.sublist_append_left ..)

end Workers
