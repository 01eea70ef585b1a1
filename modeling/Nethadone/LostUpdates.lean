import Mathlib.Logic.Function.Basic
import Nethadone.CappedTable
import Nethadone.History

/-!
# A bounded table with several writers

A worker prepares a row for its event from the table as it finds it, and
writes the row later. What the others write to the row of that key in
between is lost.

Which keys have a row is not touched by this: the order of the writes tells
it as before (`Seated.put`). The row of a key is always made of some of its
events, the last one among them (`Kept`), and two workers are enough to get
any row of that kind (`possible_iff`). A key that no two workers have in hand
at once loses nothing (`Intact`).
-/

namespace CappedTable

open History KeyedTable Run

/-! ## Who has a row -/

section Seats

variable {ρ κ : Type*} [DecidableEq κ] {key : ρ → κ} {cap : Nat} {ks : List κ} {k k₀ : κ}
  {t : KeyedTable key} {r : ρ}

/-- The keys that came in time have a row, and no others. -/
structure Seated (cap : Nat) (ks : List κ) (t : KeyedTable key) : Prop where
  length : t.rows.length = min cap ks.toFinset.card
  isSome_iff : ∀ k, (t.lookup k).isSome ↔ FirstWithin cap ks k

theorem Seated.empty : Seated cap [] (KeyedTable.empty : KeyedTable key) where
  length := by simp [KeyedTable.empty]
  isSome_iff := fun _ => iff_of_false (by simp) fun h => List.not_mem_nil h.mem

theorem Seated.lookup_eq_none (h : Seated cap ks t) (hk : ¬FirstWithin cap ks k) :
    t.lookup k = none := by
  rw [← h.isSome_iff, Option.not_isSome_iff_eq_none] at hk
  exact hk

theorem Seated.put_of_in_time (h : Seated cap ks t)
    (hr : FirstWithin cap (ks ++ [key r]) (key r)) : put cap t r = t.upsert r := by
  rw [put, if_neg]
  rintro ⟨hnone, hfull⟩
  rcases firstWithin_concat.mp hr with hold | ⟨-, -, hlt⟩
  · rw [← h.isSome_iff] at hold
    simp [Option.isNone_iff_eq_none.mp hnone] at hold
  · rw [h.length] at hfull
    omega

theorem Seated.full_of_late (h : Seated cap ks t)
    (hr : ¬FirstWithin cap (ks ++ [key r]) (key r)) :
    cap ≤ ks.toFinset.card ∧ put cap t r = t := by
  rw [firstWithin_concat, not_or] at hr
  have hcap : cap ≤ ks.toFinset.card := by
    by_cases hmem : key r ∈ ks
    · exact cap_le_of_not_firstWithin hmem hr.1
    · by_contra hlt
      exact hr.2 ⟨rfl, hmem, not_le.mp hlt⟩
  refine ⟨hcap, ?_⟩
  rw [CappedTable.put, if_pos]
  rw [h.lookup_eq_none hr.1, h.length]
  exact ⟨rfl, by omega⟩

theorem Seated.lookup_put_self (h : Seated cap ks t)
    (hr : FirstWithin cap (ks ++ [key r]) (key r)) : (put cap t r).lookup (key r) = some r := by
  rw [h.put_of_in_time hr, lookup_upsert, if_pos rfl]

theorem Seated.lookup_put_of_ne (h : Seated cap ks t) (hk : key r ≠ k) :
    (put cap t r).lookup k = t.lookup k := by
  by_cases hr : FirstWithin cap (ks ++ [key r]) (key r)
  · rw [h.put_of_in_time hr, lookup_upsert, if_neg hk]
  · rw [(h.full_of_late hr).2]

/-- A write seats its key if it comes in time, and unseats none. -/
theorem Seated.put (h : Seated cap ks t) : Seated cap (ks ++ [key r]) (put cap t r) := by
  by_cases hr : FirstWithin cap (ks ++ [key r]) (key r)
  · refine ⟨?_, fun k => ?_⟩
    · rw [h.put_of_in_time hr, length_upsert, h.length]
      rcases firstWithin_concat.mp hr with hold | ⟨-, hnew, hlt⟩
      · rw [if_pos ((h.isSome_iff _).mpr hold), toFinset_concat_of_mem hold.mem]
      · have hno : ¬(t.lookup (key r)).isSome := fun hs => hnew ((h.isSome_iff _).mp hs).mem
        rw [if_neg hno, card_concat_of_notMem hnew]
        omega
    · by_cases hk : key r = k
      · subst hk
        rw [h.lookup_put_self hr]
        exact iff_of_true rfl hr
      · rw [h.lookup_put_of_ne hk, h.isSome_iff, firstWithin_concat_of_ne (Ne.symm hk)]
  · obtain ⟨hcap, hsame⟩ := h.full_of_late hr
    rw [hsame]
    refine ⟨?_, fun k => ?_⟩
    · rw [h.length]
      by_cases hmem : key r ∈ ks
      · rw [toFinset_concat_of_mem hmem]
      · rw [card_concat_of_notMem hmem]
        omega
    · by_cases hk : key r = k
      · subst hk
        rw [h.isSome_iff]
        exact iff_of_false (fun hold => hr (firstWithin_concat.mpr (Or.inl hold))) hr
      · rw [h.isSome_iff, firstWithin_concat_of_ne (Ne.symm hk)]

/-- The fewer keys came before, the better. -/
theorem FirstWithin.sooner (h : FirstWithin cap (ks ++ [k₀] ++ [k]) k) :
    FirstWithin cap (ks ++ [k]) k := by
  rcases firstWithin_concat.mp h with hold | ⟨-, hnew, hcard⟩
  · by_cases hk : k = k₀
    · exact hk ▸ hold
    · exact firstWithin_concat.mpr (Or.inl ((firstWithin_concat_of_ne hk).mp hold))
  · have hold : k ∉ ks := fun hmem => hnew (List.mem_append_left _ hmem)
    refine firstWithin_concat.mpr (Or.inr ⟨rfl, hold, lt_of_le_of_lt ?_ hcard⟩)
    refine Finset.card_le_card fun x hx => ?_
    rw [List.mem_toFinset] at hx ⊢
    exact List.mem_append_left _ hx

end Seats

/-! ## The workers -/

/-- `held` is what each worker has prepared and not yet written, `through` the
events that are done with, in the order in which they were. -/
structure Shared {ρ κ : Type*} (key : ρ → κ) (ω ε : Type*) where
  table : KeyedTable key
  held : ω → Option (ε × ρ)
  through : List ε

inductive Half (ω ε : Type*) where
  | prepare (w : ω) (e : ε)
  | write (w : ω)

section Machine

variable {ρ κ ω ε : Type*} [DecidableEq κ] [DecidableEq ω] {key : ρ → κ}

def Shared.start : Shared key ω ε := ⟨KeyedTable.empty, fun _ => none, []⟩

/-- An event no row is prepared for is done with at once. A worker has one event
in hand at a time, and a schedule that says otherwise has no run. -/
def Shared.step (cap : Nat) (prepare : KeyedTable key → ε → Option ρ) (s : Shared key ω ε) :
    Half ω ε → Option (Shared key ω ε)
  | .prepare w e =>
      if (s.held w).isSome then none
      else
        some ((prepare s.table e).elim { s with through := s.through ++ [e] }
          fun r => { s with held := Function.update s.held w (some (e, r)) })
  | .write w => (s.held w).map fun p =>
      ⟨put cap s.table p.2, Function.update s.held w none, s.through ++ [p.1]⟩

variable {cap : Nat} {prepare : KeyedTable key → ε → Option ρ} {s s' : Shared key ω ε}

theorem step_cases {i : Half ω ε} (h : s.step cap prepare i = some s') :
    (∃ w e, i = .prepare w e ∧ s.held w = none ∧ prepare s.table e = none ∧
        s' = { s with through := s.through ++ [e] }) ∨
      (∃ w e r, i = .prepare w e ∧ s.held w = none ∧ prepare s.table e = some r ∧
        s' = { s with held := Function.update s.held w (some (e, r)) }) ∨
      ∃ w e r, i = .write w ∧ s.held w = some (e, r) ∧
        s' = ⟨put cap s.table r, Function.update s.held w none, s.through ++ [e]⟩ := by
  cases i with
  | prepare w e =>
      rw [Shared.step] at h
      split at h
      · cases h
      · rename_i hidle
        have hw : s.held w = none := Option.not_isSome_iff_eq_none.mp hidle
        obtain rfl := Option.some.inj h
        cases hp : prepare s.table e with
        | none => exact Or.inl ⟨w, e, rfl, hw, hp, rfl⟩
        | some r => exact Or.inr (Or.inl ⟨w, e, r, rfl, hw, hp, rfl⟩)
  | write w =>
      obtain ⟨⟨e, r⟩, hw, rfl⟩ := Option.map_eq_some_iff.mp h
      exact Or.inr (Or.inr ⟨w, e, r, rfl, hw, rfl⟩)

omit [DecidableEq κ] in
/-- Who holds what after `w` has taken something. -/
theorem held_of_hold {held : ω → Option (ε × ρ)} {w w' : ω} {p q : ε × ρ}
    (h : Function.update held w (some p) w' = some q) :
    (w' = w ∧ q = p) ∨ (w' ≠ w ∧ held w' = some q) := by
  by_cases hw : w' = w
  · rw [hw, Function.update_self] at h
    exact Or.inl ⟨hw, (Option.some.inj h).symm⟩
  · rw [Function.update_of_ne hw] at h
    exact Or.inr ⟨hw, h⟩

omit [DecidableEq κ] in
/-- And after it has let go of it. -/
theorem held_of_write {held : ω → Option (ε × ρ)} {w w' : ω} {q : ε × ρ}
    (h : Function.update held w none w' = some q) : w' ≠ w ∧ held w' = some q := by
  by_cases hw : w' = w
  · rw [hw, Function.update_self] at h
    cases h
  · exact ⟨hw, by rwa [Function.update_of_ne hw] at h⟩

theorem through_prefix {is : List (Half ω ε)}
    (hrun : run (Shared.step cap prepare) s is = some s') : s.through <+: s'.through := by
  refine Run.invariant (I := fun x : Shared key ω ε => s.through <+: x.through) ?_ hrun
    (List.prefix_refl _)
  intro x i x' hx hstep
  rcases step_cases hstep with ⟨w, e, -, -, -, rfl⟩ | ⟨w, e, r, -, -, -, rfl⟩ |
    ⟨w, e, r, -, -, rfl⟩
  · exact hx.trans (List.prefix_append ..)
  · exact hx
  · exact hx.trans (List.prefix_append ..)

end Machine

/-! ## What the rows are made of -/

section Laws

variable {ρ κ ω ε : Type*} [DecidableEq κ] [DecidableEq ω] {key : ρ → κ} {cap : Nat}
  {prepare : KeyedTable key → ε → Option ρ} {counts : ε → Prop} [DecidablePred counts]
  {keyOf : ε → κ} {merge : Option ρ → ε → ρ} {es l : List ε} {e : ε} {k : κ} {r : ρ}
  {s s' : Shared key ω ε} {i : Half ω ε}

/-- An event that counts is merged into the row of its key, for another no row
is prepared. -/
structure Merging (prepare : KeyedTable key → ε → Option ρ) (counts : ε → Prop)
    [DecidablePred counts] (keyOf : ε → κ) (merge : Option ρ → ε → ρ) : Prop where
  prepare_eq : ∀ t e,
    prepare t e = if counts e then some (merge (t.lookup (keyOf e)) e) else none
  key_merge : ∀ v e, key (merge v e) = keyOf e

/-- The keys of the events that count. -/
def keysOf (counts : ε → Prop) [DecidablePred counts] (keyOf : ε → κ) (es : List ε) : List κ :=
  (es.filter counts).map keyOf

/-- Those of one key. -/
def eventsOf (counts : ε → Prop) [DecidablePred counts] (keyOf : ε → κ) (es : List ε) (k : κ) :
    List ε :=
  (es.filter counts).filter fun e => keyOf e = k

omit [DecidableEq κ] in
theorem keysOf_concat_of_counts (he : counts e) :
    keysOf counts keyOf (es ++ [e]) = keysOf counts keyOf es ++ [keyOf e] := by
  simp [keysOf, List.filter_append, he]

omit [DecidableEq κ] in
theorem keysOf_concat_of_not_counts (he : ¬counts e) :
    keysOf counts keyOf (es ++ [e]) = keysOf counts keyOf es := by
  simp [keysOf, List.filter_append, he]

theorem eventsOf_concat_self (he : counts e) : eventsOf counts keyOf (es ++ [e]) (keyOf e)
    = eventsOf counts keyOf es (keyOf e) ++ [e] := by
  simp [eventsOf, List.filter_append, he]

theorem eventsOf_concat_of_other (he : counts e → keyOf e ≠ k) :
    eventsOf counts keyOf (es ++ [e]) k = eventsOf counts keyOf es k := by
  by_cases hc : counts e
  · simp [eventsOf, List.filter_append, hc, he hc]
  · simp [eventsOf, List.filter_append, hc]

theorem eventsOf_eq_nil (h : k ∉ keysOf counts keyOf es) : eventsOf counts keyOf es k = [] := by
  rw [eventsOf, List.filter_eq_nil_iff]
  intro e he hk
  exact h (of_decide_eq_true hk ▸ List.mem_map_of_mem he)

/-- The row is what some of the events come to, the last one among them. -/
def MadeOf (merge : Option ρ → ε → ρ) (es : List ε) (r : ρ) : Prop :=
  ∃ l : List ε, l.Sublist es ∧ l.getLast? = es.getLast? ∧ merged merge l = some r

theorem madeOf_concat (h : l.Sublist es) : MadeOf merge (es ++ [e]) (merge (merged merge l) e) :=
  ⟨l ++ [e], h.append (List.Sublist.refl _), by simp, merged_concat merge l e⟩

/-- What is true of the workers in every schedule. -/
structure Kept (cap : Nat) (counts : ε → Prop) [DecidablePred counts] (keyOf : ε → κ)
    (merge : Option ρ → ε → ρ) (s : Shared key ω ε) : Prop where
  seated : Seated cap (keysOf counts keyOf s.through) s.table
  row : ∀ k r, s.table.lookup k = some r → MadeOf merge (eventsOf counts keyOf s.through k) r
  held : ∀ w e r, s.held w = some (e, r) → counts e ∧
    ∃ l : List ε, l.Sublist (eventsOf counts keyOf s.through (keyOf e))
      ∧ r = merge (merged merge l) e

omit [DecidableEq ω] in
theorem Kept.start : Kept cap counts keyOf merge (Shared.start : Shared key ω ε) where
  seated := Seated.empty
  row := fun _ _ h => by cases h
  held := fun _ _ _ h => by cases h

theorem Merging.counts_of_some (hm : Merging prepare counts keyOf merge) {t : KeyedTable key}
    (h : prepare t e = some r) : counts e ∧ r = merge (t.lookup (keyOf e)) e := by
  rw [hm.prepare_eq] at h
  split at h
  · exact ⟨‹_›, (Option.some.inj h).symm⟩
  · cases h

theorem Merging.not_counts_of_none (hm : Merging prepare counts keyOf merge)
    {t : KeyedTable key} (h : prepare t e = none) : ¬counts e := by
  intro he
  rw [hm.prepare_eq, if_pos he] at h
  cases h

omit [DecidableEq ω] in
theorem Kept.pass (h : Kept cap counts keyOf merge s) (he : ¬counts e) :
    Kept cap counts keyOf merge { s with through := s.through ++ [e] } := by
  have hevents : ∀ k, eventsOf counts keyOf (s.through ++ [e]) k
      = eventsOf counts keyOf s.through k :=
    fun _ => eventsOf_concat_of_other fun hc => absurd hc he
  refine ⟨?_, fun k r hr => ?_, fun w e' r hr => ?_⟩
  · show Seated cap (keysOf counts keyOf (s.through ++ [e])) s.table
    rw [keysOf_concat_of_not_counts he]
    exact h.seated
  · rw [hevents]
    exact h.row k r hr
  · rw [hevents]
    exact h.held w e' r hr

theorem Kept.hold (h : Kept cap counts keyOf merge s) (he : counts e) (w : ω) :
    Kept cap counts keyOf merge { s with
      held := Function.update s.held w (some (e, merge (s.table.lookup (keyOf e)) e)) } := by
  refine ⟨h.seated, h.row, fun w' e' r hr => ?_⟩
  rcases held_of_hold hr with ⟨-, hnew⟩ | ⟨-, hold⟩
  · obtain ⟨rfl, rfl⟩ := Prod.mk.inj hnew
    refine ⟨he, ?_⟩
    cases hrow : s.table.lookup (keyOf e') with
    | none => exact ⟨[], List.nil_sublist _, rfl⟩
    | some r₀ =>
        obtain ⟨l, hsub, -, hl⟩ := h.row _ _ hrow
        exact ⟨l, hsub, by rw [hl]⟩
  · exact h.held w' e' r hold

theorem Kept.write (hm : Merging prepare counts keyOf merge) (h : Kept cap counts keyOf merge s)
    {w : ω} (hw : s.held w = some (e, r)) :
    Kept cap counts keyOf merge
      ⟨put cap s.table r, Function.update s.held w none, s.through ++ [e]⟩ := by
  obtain ⟨he, l, hsub, rfl⟩ := h.held w e r hw
  have hkey : key (merge (merged merge l) e) = keyOf e := hm.key_merge _ _
  refine ⟨?_, fun k r' hr' => ?_, fun w' e' r' hr' => ?_⟩
  · show Seated cap (keysOf counts keyOf (s.through ++ [e])) _
    rw [keysOf_concat_of_counts he, ← hkey]
    exact h.seated.put
  · by_cases hk : keyOf e = k
    · subst hk
      show MadeOf merge (eventsOf counts keyOf (s.through ++ [e]) (keyOf e)) r'
      rw [eventsOf_concat_self he]
      by_cases hin : FirstWithin cap (keysOf counts keyOf s.through ++ [keyOf e]) (keyOf e)
      · have hself := h.seated.lookup_put_self (r := merge (merged merge l) e) (hkey ▸ hin)
        rw [hkey, hr'] at hself
        obtain rfl := Option.some.inj hself
        exact madeOf_concat hsub
      · -- no row was written, and there was none
        have hlate := (h.seated.full_of_late (r := merge (merged merge l) e) (hkey ▸ hin)).2
        rw [hlate, h.seated.lookup_eq_none fun hold =>
          hin (firstWithin_concat.mpr (Or.inl hold))] at hr'
        cases hr'
    · show MadeOf merge (eventsOf counts keyOf (s.through ++ [e]) k) r'
      rw [eventsOf_concat_of_other fun _ => hk]
      exact h.row k r' (by rwa [h.seated.lookup_put_of_ne (hkey ▸ hk)] at hr')
  · obtain ⟨he', l', hsub', hl'⟩ := h.held w' e' r' (held_of_write hr').2
    refine ⟨he', l', hsub'.trans ?_, hl'⟩
    show (eventsOf counts keyOf s.through (keyOf e')).Sublist
      (eventsOf counts keyOf (s.through ++ [e]) (keyOf e'))
    exact ((List.sublist_append_left _ _).filter _).filter _

theorem Kept.step (hm : Merging prepare counts keyOf merge) (h : Kept cap counts keyOf merge s)
    (hs : s.step cap prepare i = some s') : Kept cap counts keyOf merge s' := by
  rcases step_cases hs with ⟨w, e, rfl, -, hp, rfl⟩ | ⟨w, e, r, rfl, -, hp, rfl⟩ |
    ⟨w, e, r, rfl, hw, rfl⟩
  · exact h.pass (hm.not_counts_of_none hp)
  · obtain ⟨he, rfl⟩ := hm.counts_of_some hp
    exact h.hold he w
  · exact h.write hm hw

theorem kept_of_run (hm : Merging prepare counts keyOf merge) {is : List (Half ω ε)}
    (hrun : run (Shared.step cap prepare) Shared.start is = some s) :
    Kept cap counts keyOf merge s :=
  Run.invariant (fun _ _ _ hs hstep => hs.step hm hstep) hrun Kept.start

/-! ## A key in one hand at a time -/

/-- No worker takes an event of the key while another has one in hand. -/
def Alone (counts : ε → Prop) (keyOf : ε → κ) (k : κ) (s : Shared key ω ε) : Half ω ε → Prop
  | .prepare _ e => counts e → keyOf e = k → ∀ w' e' r, s.held w' = some (e', r) → keyOf e' ≠ k
  | .write _ => True

/-- Nothing of the key is lost so far, and what is in hand loses nothing. -/
structure Intact (cap : Nat) (counts : ε → Prop) [DecidablePred counts] (keyOf : ε → κ)
    (merge : Option ρ → ε → ρ) (k : κ) (s : Shared key ω ε) : Prop where
  row : FirstWithin cap (keysOf counts keyOf s.through) k →
    s.table.lookup k = merged merge (eventsOf counts keyOf s.through k)
  held : ∀ w e r, s.held w = some (e, r) → keyOf e = k →
    r = merge (s.table.lookup k) e ∧
      ∀ w' e' r', s.held w' = some (e', r') → keyOf e' = k → w' = w

omit [DecidableEq ω] in
theorem Intact.start : Intact cap counts keyOf merge k (Shared.start : Shared key ω ε) where
  row := fun h => absurd h.mem List.not_mem_nil
  held := fun _ _ _ h => by cases h

omit [DecidableEq ω] in
theorem Intact.lookup_of_in_time (h : Intact cap counts keyOf merge k s)
    (hkept : Kept cap counts keyOf merge s)
    (hin : FirstWithin cap (keysOf counts keyOf s.through ++ [k]) k) :
    s.table.lookup k = merged merge (eventsOf counts keyOf s.through k) := by
  rcases firstWithin_concat.mp hin with hold | ⟨-, hnew, -⟩
  · exact h.row hold
  · rw [eventsOf_eq_nil hnew, hkept.seated.lookup_eq_none fun hold => hnew hold.mem]
    rfl

omit [DecidableEq ω] in
theorem Intact.pass (h : Intact cap counts keyOf merge k s) (he : ¬counts e) :
    Intact cap counts keyOf merge k { s with through := s.through ++ [e] } := by
  refine ⟨fun hin => ?_, h.held⟩
  show s.table.lookup k = merged merge (eventsOf counts keyOf (s.through ++ [e]) k)
  rw [eventsOf_concat_of_other fun hc => absurd hc he]
  refine h.row ?_
  rwa [← keysOf_concat_of_not_counts he]

theorem Intact.hold (h : Intact cap counts keyOf merge k s) {w : ω}
    (hw : s.held w = none)
    (halone : keyOf e = k → ∀ w' e' r, s.held w' = some (e', r) → keyOf e' ≠ k) :
    Intact cap counts keyOf merge k { s with
      held := Function.update s.held w (some (e, merge (s.table.lookup (keyOf e)) e)) } := by
  refine ⟨h.row, fun w₁ e₁ r₁ hr₁ hk₁ => ?_⟩
  -- a worker with the key in hand is `w` with its new event, or another with an old one
  rcases held_of_hold hr₁ with ⟨rfl, hnew₁⟩ | ⟨-, hold₁⟩
  · obtain ⟨rfl, rfl⟩ := Prod.mk.inj hnew₁
    subst hk₁
    refine ⟨rfl, fun w' e' r' hr' hk' => ?_⟩
    rcases held_of_hold hr' with ⟨rfl, -⟩ | ⟨-, hold⟩
    · rfl
    · exact absurd hk' (halone rfl w' e' r' hold)
  · obtain ⟨hrow, honly⟩ := h.held w₁ e₁ r₁ hold₁ hk₁
    refine ⟨hrow, fun w' e' r' hr' hk' => ?_⟩
    rcases held_of_hold hr' with ⟨-, hnew⟩ | ⟨-, hold⟩
    · obtain ⟨rfl, -⟩ := Prod.mk.inj hnew
      exact absurd hk₁ (halone hk' w₁ e₁ r₁ hold₁)
    · exact honly w' e' r' hold hk'

theorem Intact.write (hm : Merging prepare counts keyOf merge)
    (h : Intact cap counts keyOf merge k s) (hkept : Kept cap counts keyOf merge s) {w : ω}
    (hw : s.held w = some (e, r)) : Intact cap counts keyOf merge k
      ⟨put cap s.table r, Function.update s.held w none, s.through ++ [e]⟩ := by
  obtain ⟨he, l, -, hrl⟩ := hkept.held w e r hw
  have hkey : key r = keyOf e := by rw [hrl, hm.key_merge]
  by_cases hk : keyOf e = k
  · subst hk
    obtain ⟨hrow, honly⟩ := h.held w e r hw rfl
    refine ⟨fun hin => ?_, fun w₁ e₁ r₁ hr₁ hk₁ => ?_⟩
    · have hin' : FirstWithin cap (keysOf counts keyOf s.through ++ [keyOf e]) (keyOf e) := by
        rwa [← keysOf_concat_of_counts he]
      show (put cap s.table r).lookup (keyOf e)
        = merged merge (eventsOf counts keyOf (s.through ++ [e]) (keyOf e))
      rw [eventsOf_concat_self he, merged_concat, ← h.lookup_of_in_time hkept hin', ← hrow, ← hkey]
      exact hkept.seated.lookup_put_self (hkey ▸ hin')
    · obtain ⟨hne, hold⟩ := held_of_write hr₁
      exact absurd (honly w₁ e₁ r₁ hold hk₁) hne
  · have hsame : (put cap s.table r).lookup k = s.table.lookup k :=
      hkept.seated.lookup_put_of_ne (hkey ▸ hk)
    refine ⟨fun hin => ?_, fun w₁ e₁ r₁ hr₁ hk₁ => ?_⟩
    · show (put cap s.table r).lookup k
        = merged merge (eventsOf counts keyOf (s.through ++ [e]) k)
      rw [eventsOf_concat_of_other fun _ => hk, hsame]
      refine h.row ?_
      rwa [← firstWithin_concat_of_ne (Ne.symm hk), ← keysOf_concat_of_counts he]
    · obtain ⟨-, hold⟩ := held_of_write hr₁
      obtain ⟨hrow, honly⟩ := h.held w₁ e₁ r₁ hold hk₁
      refine ⟨hrow.trans (by rw [hsame]), fun w' e' r' hr' hk' => ?_⟩
      exact honly w' e' r' (held_of_write hr').2 hk'

/-- Both invariants: the second is kept by the steps that leave the key alone. -/
theorem intact_of_run (hm : Merging prepare counts keyOf merge) {is : List (Half ω ε)}
    (halone : Always (Shared.step cap prepare) Shared.start is (Alone counts keyOf k))
    (hrun : run (Shared.step cap prepare) Shared.start is = some s) :
    Kept cap counts keyOf merge s ∧ Intact cap counts keyOf merge k s := by
  refine halone.invariant
    (I := fun s => Kept cap counts keyOf merge s ∧ Intact cap counts keyOf merge k s)
    ?_ hrun ⟨Kept.start, Intact.start⟩
  rintro s i s' ⟨hkept, hintact⟩ hi hstep
  refine ⟨hkept.step hm hstep, ?_⟩
  rcases step_cases hstep with ⟨w, e, rfl, -, hp, rfl⟩ | ⟨w, e, r, rfl, hw, hp, rfl⟩ |
    ⟨w, e, r, rfl, hw, rfl⟩
  · exact hintact.pass (hm.not_counts_of_none hp)
  · obtain ⟨he, rfl⟩ := hm.counts_of_some hp
    exact hintact.hold hw (hi he)
  · exact hintact.write hm hkept hw

/-! ## What two workers can lose -/

/-- Some schedule leads to the state. -/
def Reached (cap : Nat) (prepare : KeyedTable key → ε → Option ρ) (s : Shared key ω ε) : Prop :=
  ∃ is : List (Half ω ε), run (Shared.step cap prepare) Shared.start is = some s

theorem Reached.start : Reached cap prepare (Shared.start : Shared key ω ε) := ⟨[], rfl⟩

theorem Reached.step (h : Reached cap prepare s) (hs : s.step cap prepare i = some s') :
    Reached cap prepare s' := by
  obtain ⟨is, hrun⟩ := h
  exact ⟨is ++ [i], by rw [run_concat hrun, hs]⟩

theorem Reached.kept (h : Reached cap prepare s) (hm : Merging prepare counts keyOf merge) :
    Kept cap counts keyOf merge s := by
  obtain ⟨is, hrun⟩ := h
  exact kept_of_run hm hrun

theorem Reached.pass (h : Reached cap prepare s) (hm : Merging prepare counts keyOf merge)
    {w : ω} (hw : s.held w = none) (he : ¬counts e) :
    Reached cap prepare { s with through := s.through ++ [e] } := by
  refine h.step (i := .prepare w e) ?_
  simp [Shared.step, hw, hm.prepare_eq, he]

theorem Reached.hold (h : Reached cap prepare s) (hm : Merging prepare counts keyOf merge)
    {w : ω} (hw : s.held w = none) (he : counts e) : Reached cap prepare { s with
      held := Function.update s.held w (some (e, merge (s.table.lookup (keyOf e)) e)) } := by
  refine h.step (i := .prepare w e) ?_
  simp [Shared.step, hw, hm.prepare_eq, he]

theorem Reached.write (h : Reached cap prepare s) {w : ω} (hw : s.held w = some (e, r)) :
    Reached cap prepare ⟨put cap s.table r, Function.update s.held w none, s.through ++ [e]⟩ := by
  refine h.step (i := .write w) ?_
  simp [Shared.step, hw]

/-- A worker that does both halves at once. -/
theorem Reached.whole (h : Reached cap prepare s) (hm : Merging prepare counts keyOf merge)
    {w : ω} (hw : s.held w = none) (he : counts e) : Reached cap prepare
      ⟨put cap s.table (merge (s.table.lookup (keyOf e)) e), s.held, s.through ++ [e]⟩ := by
  have hboth := (h.hold hm hw he).write (Function.update_self ..)
  rwa [Function.update_idem, ← hw, Function.update_eq_self] at hboth

/-- The only worker with something in hand writes it. -/
theorem Reached.let_go {t : KeyedTable key} {a : ω} (h : Reached cap prepare
      ⟨t, Function.update (fun _ => none) a (some (e, r)), es⟩) :
    Reached cap prepare (⟨put cap t r, fun _ => none, es ++ [e]⟩ : Shared key ω ε) := by
  have hwrite := h.write (w := a) (Function.update_self a (some (e, r)) fun _ => none)
  rwa [Function.update_idem, Function.update_eq_self a fun _ : ω => (none : Option (ε × ρ))]
    at hwrite

/-- Worker `b` takes what `a` is to lose: while the row prepared for `e` is in
the hand of `a`, the writes of `b` to it do not matter. -/
theorem reached_holding (hm : Merging prepare counts keyOf merge) {a b : ω} (hab : a ≠ b)
    (he : counts e) (hl : l.Sublist (eventsOf counts keyOf es (keyOf e)))
    (hin : FirstWithin cap (keysOf counts keyOf es ++ [keyOf e]) (keyOf e)) :
    ∃ t : KeyedTable key, Reached cap prepare
      ⟨t, Function.update (fun _ => none) a (some (e, merge (merged merge l) e)), es⟩ := by
  have hb : ∀ x : ε × ρ,
      Function.update (fun _ : ω => (none : Option (ε × ρ))) a (some x) b = none :=
    fun x => Function.update_of_ne (Ne.symm hab) ..
  induction es using List.reverseRecOn generalizing l e with
  | nil =>
      obtain rfl := List.sublist_nil.mp hl
      exact ⟨KeyedTable.empty, Reached.start.hold hm rfl he⟩
  | append_singleton es f ih =>
      by_cases hf : counts f
      · rw [keysOf_concat_of_counts hf] at hin
        have hin' := hin.sooner
        -- `b` does `f`, whatever its key is
        have hbehind : l.Sublist (eventsOf counts keyOf es (keyOf e)) →
            ∃ t : KeyedTable key, Reached cap prepare ⟨t, Function.update (fun _ => none) a
              (some (e, merge (merged merge l) e)), es ++ [f]⟩ := fun hl' => by
          obtain ⟨t, ht⟩ := ih he hl' hin'
          exact ⟨_, ht.whole hm (hb _) hf⟩
        by_cases hk : keyOf f = keyOf e
        · rw [← hk, eventsOf_concat_self hf, hk] at hl
          obtain ⟨l₁, l₂, rfl, h₁, h₂⟩ := List.sublist_append_iff.mp hl
          rcases List.sublist_singleton.mp h₂ with rfl | rfl
          · rw [List.append_nil] at hbehind ⊢
            exact hbehind h₁
          · -- `a` writes what it holds for `f` and takes `e` at once
            obtain ⟨t, ht⟩ := ih hf (hk ▸ h₁) (hk ▸ hin')
            have hkey : key (merge (merged merge l₁) f) = keyOf f := hm.key_merge _ _
            have hrow := (ht.kept hm).seated.lookup_put_self
              (r := merge (merged merge l₁) f) (by rw [hkey, hk]; exact hin')
            rw [hkey, hk] at hrow
            have hnext := ht.let_go.hold hm (w := a) rfl he
            rw [hrow, ← merged_concat] at hnext
            exact ⟨_, hnext⟩
        · exact hbehind (by rwa [eventsOf_concat_of_other fun _ => hk] at hl)
      · rw [keysOf_concat_of_not_counts hf] at hin
        rw [eventsOf_concat_of_other fun hc => absurd hc hf] at hl
        obtain ⟨t, ht⟩ := ih he hl hin
        exact ⟨t, ht.pass hm (hb _) hf⟩

/-- With two workers, the rows a key can have are exactly those made of some of
its events, the last one among them. -/
theorem possible_iff (hm : Merging prepare counts keyOf merge) {a b : ω} (hab : a ≠ b)
    (hin : FirstWithin cap (keysOf counts keyOf es) k) :
    (∃ s : Shared key ω ε, Reached cap prepare s ∧ s.through = es ∧ s.table.lookup k = some r)
      ↔ MadeOf merge (eventsOf counts keyOf es k) r := by
  constructor
  · rintro ⟨s, hs, rfl, hr⟩
    exact (hs.kept hm).row k r hr
  · rintro ⟨l, hl, hlast, hr⟩
    -- the workers have nothing in hand when the last event is through
    suffices h : ∃ t : KeyedTable key, Reached cap prepare
        (⟨t, fun _ => none, es⟩ : Shared key ω ε) ∧ t.lookup k = merged merge l by
      obtain ⟨t, ht, hrow⟩ := h
      exact ⟨_, ht, rfl, hrow.trans hr⟩
    clear hr
    induction es using List.reverseRecOn with
    | nil => exact absurd hin.mem List.not_mem_nil
    | append_singleton es f ih =>
        by_cases hf : counts f
        · rw [keysOf_concat_of_counts hf] at hin
          by_cases hk : keyOf f = k
          · subst hk
            rw [eventsOf_concat_self hf] at hl hlast
            rw [List.getLast?_concat] at hlast
            obtain ⟨l', rfl⟩ := List.getLast?_eq_some_iff.mp hlast
            obtain ⟨t, ht⟩ := reached_holding hm hab hf
              ((List.append_sublist_append_right _).mp hl) hin
            have hkey : key (merge (merged merge l') f) = keyOf f := hm.key_merge _ _
            have hrow := (ht.kept hm).seated.lookup_put_self
              (r := merge (merged merge l') f) (by rw [hkey]; exact hin)
            exact ⟨_, ht.let_go, by rw [merged_concat, ← hrow, hkey]⟩
          · rw [firstWithin_concat_of_ne (Ne.symm hk)] at hin
            rw [eventsOf_concat_of_other fun _ => hk] at hl hlast
            obtain ⟨t, ht, hrow⟩ := ih hin hl hlast
            refine ⟨_, ht.whole hm (w := a) rfl hf, ?_⟩
            rw [(ht.kept hm).seated.lookup_put_of_ne (by rwa [hm.key_merge]), hrow]
        · rw [keysOf_concat_of_not_counts hf] at hin
          rw [eventsOf_concat_of_other fun hc => absurd hc hf] at hl hlast
          obtain ⟨t, ht, hrow⟩ := ih hin hl hlast
          exact ⟨t, ht.pass hm (w := a) rfl hf, hrow⟩

end Laws

end CappedTable
