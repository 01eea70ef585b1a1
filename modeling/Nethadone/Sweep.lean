import Mathlib.Data.List.Basic
import Mathlib.Data.List.Nodup

/-!
# Sweeps: one local step for each key of a list

The loop

    changed := false
    for k in keys { ...touch only what belongs to k; maybe changed = true... }

as a fold over `σ × Bool`, for a body that is *local*: its effect on the
state is visible only under the key it is run for, and whether it raises
the flag depends only on what it found there. For such a body the order
of the keys does not matter, each key moves exactly once, and the flag
says whether some key acted (`IsLocal.foldl_view`, `IsLocal.foldl_flag`,
`IsLocal.foldl_still`).
-/

namespace Sweep

variable {σ κ ν : Type*}

/-- `body` moves the view of its own key by `move`, leaves every other
key's view alone, raises the flag exactly when `acts` says so, and writes
nothing when it does not. -/
structure IsLocal (view : σ → κ → ν) (body : σ × Bool → κ → σ × Bool)
    (move : κ → ν → ν) (acts : κ → ν → Bool) : Prop where
  self : ∀ p k, view (body p k).1 k = move k (view p.1 k)
  other : ∀ p k k', k' ≠ k → view (body p k).1 k' = view p.1 k'
  flag : ∀ p k, (body p k).2 = (p.2 || acts k (view p.1 k))
  still : ∀ p k, acts k (view p.1 k) = false → (body p k).1 = p.1

variable {view : σ → κ → ν} {body : σ × Bool → κ → σ × Bool}
  {move : κ → ν → ν} {acts : κ → ν → Bool}

theorem IsLocal.foldl_view_notMem (h : IsLocal view body move acts) :
    ∀ {l : List κ} {k : κ} (p : σ × Bool), k ∉ l →
      view (l.foldl body p).1 k = view p.1 k
  | [], _, _, _ => rfl
  | k₀ :: l, k, p, hk => by
      rw [List.mem_cons, not_or] at hk
      rw [List.foldl_cons, h.foldl_view_notMem _ hk.2, h.other p k₀ k hk.1]

/-- Each key of the list moves exactly once, every other key not at all. -/
theorem IsLocal.foldl_view [DecidableEq κ] (h : IsLocal view body move acts) :
    ∀ {l : List κ}, l.Nodup → ∀ (p : σ × Bool) (k : κ),
      view (l.foldl body p).1 k = if k ∈ l then move k (view p.1 k) else view p.1 k
  | [], _, _, _ => by simp
  | k₀ :: l, hnd, p, k => by
      obtain ⟨hk₀, hnd'⟩ := List.nodup_cons.mp hnd
      rw [List.foldl_cons]
      by_cases hk : k = k₀
      · subst hk
        rw [h.foldl_view_notMem _ hk₀, h.self, if_pos (List.mem_cons_self ..)]
      · rw [h.foldl_view hnd', h.other p k₀ k hk]
        simp only [List.mem_cons, hk, false_or]

theorem IsLocal.foldl_flag (h : IsLocal view body move acts) :
    ∀ {l : List κ}, l.Nodup → ∀ p : σ × Bool,
      (l.foldl body p).2 = true ↔ p.2 = true ∨ ∃ k ∈ l, acts k (view p.1 k) = true
  | [], _, _ => by simp
  | k₀ :: l, hnd, p => by
      obtain ⟨hk₀, hnd'⟩ := List.nodup_cons.mp hnd
      -- the keys still to come are seen as they were before `k₀` was handled
      have hview : ∀ k ∈ l, view (body p k₀).1 k = view p.1 k := fun k hk =>
        h.other p k₀ k fun he => hk₀ (he ▸ hk)
      have hrest : (∃ k ∈ l, acts k (view (body p k₀).1 k) = true)
          ↔ ∃ k ∈ l, acts k (view p.1 k) = true :=
        exists_congr fun k => and_congr_right fun hk => by rw [hview k hk]
      rw [List.foldl_cons, h.foldl_flag hnd', hrest, h.flag, Bool.or_eq_true,
        List.exists_mem_cons_iff, or_assoc]

theorem IsLocal.foldl_still (h : IsLocal view body move acts) :
    ∀ {l : List κ} (p : σ × Bool), (∀ k ∈ l, acts k (view p.1 k) = false) →
      l.foldl body p = p
  | [], _, _ => rfl
  | k₀ :: l, p, hl => by
      have h₀ := hl k₀ (List.mem_cons_self ..)
      have hbody : body p k₀ = p :=
        Prod.ext (h.still p k₀ h₀) (by rw [h.flag, h₀, Bool.or_false])
      rw [List.foldl_cons, hbody]
      exact h.foldl_still p fun k hk => hl k (List.mem_cons_of_mem _ hk)

theorem foldl_iff {P : σ → Prop} {Q : κ → Prop} {f : σ → κ → σ}
    (h : ∀ s k, P (f s k) ↔ P s ∨ Q k) {l : List κ} {s : σ} :
    P (l.foldl f s) ↔ P s ∨ ∃ k ∈ l, Q k := by
  induction l generalizing s with
  | nil => simp
  | cons k l ih => rw [List.foldl_cons, ih, h, List.exists_mem_cons_iff, or_assoc]

/-- A run of steps, each local to its own key, looks from one key like the
run of that key's steps alone. -/
theorem foldl_view_filter [DecidableEq κ] {ι : Type*} {step : σ → ι → σ} {key : ι → κ}
    {move : ι → ν → ν} (hself : ∀ s i, view (step s i) (key i) = move i (view s (key i)))
    (hother : ∀ s i k, k ≠ key i → view (step s i) k = view s k) (k : κ) :
    ∀ (is : List ι) (s : σ), view (is.foldl step s) k
      = (is.filter fun i => key i = k).foldl (fun v i => move i v) (view s k)
  | [], _ => rfl
  | i :: is, s => by
      rw [List.foldl_cons, foldl_view_filter hself hother k is]
      by_cases hk : key i = k
      · have hmove : view (step s i) k = move i (view s k) := by
          rw [← hk]
          exact hself s i
        rw [List.filter_cons, if_pos (decide_eq_true hk), List.foldl_cons, hmove]
      · rw [List.filter_cons, if_neg fun h => hk (of_decide_eq_true h),
          hother s i k fun he => hk he.symm]

end Sweep
