import Mathlib.Data.List.Sort
import Mathlib.Data.List.TFAE
import Nethadone.Rungs

/-!
# Which tables are reached

The ladder is all there is to know of the tables the policy checks reach.
A table whose classes are rungs and whose stamps are whole seconds is
reached without a failed call and with a clock that never goes back:
every pair climbs on its own (`climb`), its last step at the second its
row is stamped with, and the climbs of all pairs are merged by the clock
(`visits`). A round that finds one pair busy touches that pair only, so
from each pair the merged run looks like its own climb
(`Sweep.foldl_view_filter`). Failures and clocks that jump therefore
reach nothing new (`reachable_tfae`).
-/

namespace Nethadone

/-- Every class is a rung, and every stamp a second of SQLite's `datetime`. -/
def StampedLadder (cfg : Config) (T : PolicyTable) : Prop :=
  ∀ p ∈ T.rows, OnLadder cfg.numQdiscClasses.toNat p.cls ∧ datetime p.tstamp = p.tstamp

theorem datetime_datetime (now : Int) : datetime (datetime now) = datetime now := by
  unfold datetime second
  omega

section Invariant

variable {cfg : Config} {T : PolicyTable}

theorem Reachable.datetime_tstamp (h : Reachable cfg T) :
    ∀ m, ∀ p ∈ T.lookup m, datetime p.tstamp = p.tstamp := by
  induction h with
  | refl => intro m p hp; cases hp
  | @tail T T' _ hstep ih =>
      obtain ⟨f, t, rfl⟩ := hstep
      intro m p hp
      rcases pollPolicyCheck_lookup_cases cfg f t T m with h | h | h <;> rw [h] at hp
      · exact ih m p hp
      · rcases increasedRow_cases cfg t.now f.inc m (T.lookup m) with
          he | he | ⟨q, -, -, -, he⟩ <;> rw [he] at hp
        · exact ih m p hp
        · obtain rfl := Option.some.inj hp
          exact datetime_datetime t.now
        · obtain rfl := Option.some.inj hp
          exact datetime_datetime t.now
      · rcases decreasedRow_cases cfg t.now f.dec m (T.lookup m) with
          he | ⟨q, -, -, -, he⟩ | ⟨q, -, -, -, he⟩ <;> rw [he] at hp
        · exact ih m p hp
        · cases hp
        · obtain rfl := Option.some.inj hp
          exact datetime_datetime t.now

theorem Reachable.stampedLadder (h : Reachable cfg T) : StampedLadder cfg T := fun p hp =>
  ⟨h.onLadder_of_mem hp, h.datetime_tstamp p.key p (KeyedTable.lookup_key hp)⟩

end Invariant

/-! ## One pair climbs -/

/-- Clocks at which one busy pair climbs to rung `k + 1`, the last at `τ`;
two of them are far enough apart for any backoff interval. -/
def climb (cfg : Config) (τ : Int) : Nat → List Int
  | 0 => [τ]
  | k + 1 => climb cfg (τ - (cfg.policyBackoffInterval.natAbs + 1)) k ++ [τ]

section Climb

variable {cfg : Config} {m : SrcGlob}

theorem le_of_mem_climb : ∀ {k : Nat} {τ t : Int}, t ∈ climb cfg τ k → t ≤ τ
  | 0, _, _, h => le_of_eq (List.mem_singleton.mp h)
  | k + 1, τ, t, h => by
      rcases List.mem_append.mp h with h | h
      · have := le_of_mem_climb h
        omega
      · exact le_of_eq (List.mem_singleton.mp h)

theorem pairwise_climb : ∀ (k : Nat) (τ : Int), (climb cfg τ k).Pairwise (· ≤ ·)
  | 0, τ => List.pairwise_singleton _ τ
  | k + 1, τ => by
      rw [climb, List.pairwise_append]
      refine ⟨pairwise_climb k _, List.pairwise_singleton _ τ, fun t ht t' ht' => ?_⟩
      obtain rfl := List.mem_singleton.mp ht'
      have := le_of_mem_climb ht
      omega

theorem foldl_climb : ∀ (k : Nat) (τ : Int), k ≤ cfg.numQdiscClasses.toNat →
    (climb cfg τ k).foldl (fun v now => increasedRow cfg now CallFaults.none m v) none
      = some ⟨m.src, m.glob, 10 * (k + 1), datetime τ⟩
  | 0, _, _ => rfl
  | k + 1, τ, hk => by
      rw [climb, List.foldl_concat, foldl_climb k _ (by omega), increasedRow_some]
      · simp only [Option.some.injEq, Policy.mk.injEq, and_true, true_and]
        push_cast
        ring
      · intro p hp
        obtain rfl := Option.some.inj hp
        have hle := datetime_le (τ - (cfg.policyBackoffInterval.natAbs + 1))
        refine ⟨?_, by simp only; omega⟩
        simp only [tooSoon]
        omega

end Climb

/-! ## All pairs climb -/

/-- The clocks at which the pair of a row is found busy. -/
def Policy.visits (cfg : Config) (p : Policy) : List (SrcGlob × Int) :=
  (climb cfg p.tstamp (p.cls / 10 - 1).toNat).map fun now => (p.key, now)

/-- The visits of all rows, in the order of the clock. -/
def visits (cfg : Config) (T : PolicyTable) : List (SrcGlob × Int) :=
  (T.rows.flatMap (Policy.visits cfg)).mergeSort fun a b => a.2 ≤ b.2

section Merge

variable {cfg : Config} {T : PolicyTable} {m : SrcGlob}

theorem pairwise_visits (cfg : Config) (T : PolicyTable) :
    (visits cfg T).Pairwise fun a b => a.2 ≤ b.2 := by
  have htrans : ∀ a b c : SrcGlob × Int, decide (a.2 ≤ b.2) = true → decide (b.2 ≤ c.2) = true →
      decide (a.2 ≤ c.2) = true := fun a b c hab hbc =>
    decide_eq_true ((of_decide_eq_true hab).trans (of_decide_eq_true hbc))
  have htotal : ∀ a b : SrcGlob × Int, (decide (a.2 ≤ b.2) || decide (b.2 ≤ a.2)) = true := by
    intro a b
    rw [Bool.or_eq_true, decide_eq_true_eq, decide_eq_true_eq]
    exact le_total a.2 b.2
  exact (List.pairwise_mergeSort htrans htotal _).imp fun hab => of_decide_eq_true hab

theorem filter_visits_row (p : Policy) (m : SrcGlob) :
    (p.visits cfg).filter (fun v => v.1 = m) = if p.key = m then p.visits cfg else [] := by
  split
  · rename_i hkey
    refine List.filter_eq_self.mpr fun v hv => ?_
    obtain ⟨now, -, rfl⟩ := List.mem_map.mp hv
    exact decide_eq_true hkey
  · rename_i hkey
    refine List.filter_eq_nil_iff.mpr fun v hv he => ?_
    obtain ⟨now, -, rfl⟩ := List.mem_map.mp hv
    exact hkey (of_decide_eq_true he)

theorem filter_flatMap_visits (m : SrcGlob) : ∀ rows : List Policy,
    (rows.flatMap (Policy.visits cfg)).filter (fun v => v.1 = m)
      = (rows.filter fun p => p.key = m).flatMap (Policy.visits cfg)
  | [] => rfl
  | p :: rows => by
      rw [List.flatMap_cons, List.filter_append, filter_flatMap_visits m rows, filter_visits_row,
        List.filter_cons]
      by_cases hkey : p.key = m
      · rw [if_pos hkey, if_pos (decide_eq_true hkey), List.flatMap_cons]
      · rw [if_neg hkey, if_neg fun h => hkey (of_decide_eq_true h), List.nil_append]

theorem filter_visits_perm (cfg : Config) (T : PolicyTable) (m : SrcGlob) :
    ((visits cfg T).filter fun v => v.1 = m).Perm
      ((T.lookup m).toList.flatMap (Policy.visits cfg)) := by
  rw [← KeyedTable.filter_key, ← filter_flatMap_visits]
  exact (List.mergeSort_perm _ _).filter _

/-- From a pair with a row the merge is the climb of that row. -/
theorem filter_visits {p : Policy} (h : T.lookup m = some p) :
    (visits cfg T).filter (fun v => v.1 = m) = p.visits cfg := by
  have hkey : p.key = m := (KeyedTable.lookup_eq_some.mp h).2
  have hperm : ((visits cfg T).filter fun v => v.1 = m).Perm (p.visits cfg) := by
    have := filter_visits_perm cfg T m
    rwa [h, Option.toList_some, List.flatMap_singleton] at this
  have hsorted : ((visits cfg T).filter fun v => v.1 = m).Pairwise fun a b => a.2 ≤ b.2 :=
    (pairwise_visits cfg T).filter _
  have hclimb : (p.visits cfg).Pairwise fun a b => a.2 ≤ b.2 :=
    List.pairwise_map.mpr (pairwise_climb _ _)
  refine hperm.eq_of_pairwise (fun v v' hv hv' hle hge => ?_) hsorted hclimb
  have hv₁ : v.1 = m := of_decide_eq_true (List.mem_filter.mp hv).2
  obtain ⟨now, -, rfl⟩ := List.mem_map.mp hv'
  exact Prod.ext (hv₁.trans hkey.symm) (le_antisymm hle hge)

theorem filter_visits_of_none (h : T.lookup m = none) :
    (visits cfg T).filter (fun v => v.1 = m) = [] := by
  have hperm := filter_visits_perm cfg T m
  rw [h] at hperm
  exact hperm.eq_nil

end Merge

/-! ## The rounds -/

theorem lookup_step_busyTick (cfg : Config) (T : PolicyTable) (m m' : SrcGlob) (now : Int) :
    (step cfg T (busyTick m now)).lookup m'
      = if m' = m then increasedRow cfg now CallFaults.none m' (T.lookup m') else T.lookup m' := by
  by_cases hr : SomeRaise cfg (busyTick m now) T
  · rw [step, lookup_tick_of_raise hr]
    simp only [mem_active_busyTick]
    rfl
  · have hidle : m' ∉ createSrcGlobSet (busyTick m now).usage.below5m := Finset.notMem_empty m'
    rw [step, lookup_tick_of_not_raise hr, if_neg hidle]
    split
    · rename_i hm
      subst hm
      refine (increasedRow_of_not_raisable _ fun hup => hr ⟨m', ?_, hup⟩).symm
      exact (mem_active_busyTick m' m' now).mpr rfl
    · rfl

/-- From each pair a run of busy rounds looks like the run of its own. -/
theorem lookup_foldl_busyTick (cfg : Config) (vs : List (SrcGlob × Int)) (T : PolicyTable)
    (m : SrcGlob) :
    (vs.foldl (fun T v => step cfg T (busyTick v.1 v.2)) T).lookup m
      = (vs.filter fun v => v.1 = m).foldl
          (fun row v => increasedRow cfg v.2 CallFaults.none v.1 row) (T.lookup m) := by
  have hself : ∀ (T : PolicyTable) (v : SrcGlob × Int),
      (step cfg T (busyTick v.1 v.2)).lookup v.1
        = increasedRow cfg v.2 CallFaults.none v.1 (T.lookup v.1) := fun T v => by
    rw [lookup_step_busyTick, if_pos rfl]
  have hother : ∀ (T : PolicyTable) (v : SrcGlob × Int) (m' : SrcGlob), m' ≠ v.1 →
      (step cfg T (busyTick v.1 v.2)).lookup m' = T.lookup m' := fun T v m' hne => by
    rw [lookup_step_busyTick, if_neg hne]
  exact Sweep.foldl_view_filter hself hother m vs T

/-- A table on the ladder is what some rounds leave, none of whose calls
fails, with a clock that never goes back. -/
theorem exists_run_of_stampedLadder {cfg : Config} {T : PolicyTable} (h : StampedLadder cfg T) :
    ∃ ts : List Tick, ts.Pairwise (fun a b => a.now ≤ b.now)
      ∧ ∀ m, (ts.foldl (step cfg) KeyedTable.empty).lookup m = T.lookup m := by
  refine ⟨(visits cfg T).map fun v => busyTick v.1 v.2, ?_, fun m => ?_⟩
  · exact List.pairwise_map.mpr ((pairwise_visits cfg T).imp fun hle => hle)
  rw [List.foldl_map, lookup_foldl_busyTick]
  cases hp : T.lookup m with
  | none =>
      rw [filter_visits_of_none hp]
      rfl
  | some p =>
      obtain ⟨hmem, hkey⟩ := KeyedTable.lookup_eq_some.mp hp
      obtain ⟨⟨k, hk, hcls⟩, hstamp⟩ := h p hmem
      have hrung : (p.cls / 10 - 1).toNat = k := by omega
      rw [filter_visits hp, Policy.visits, List.foldl_map, hrung, KeyedTable.lookup_empty,
        foldl_climb k p.tstamp hk, hstamp, ← hcls]
      rfl

theorem reachable_tfae (cfg : Config) (T : PolicyTable) :
    [∃ T', Reachable cfg T' ∧ ∀ m, T'.lookup m = T.lookup m,
      ∃ ts : List Tick, ts.Pairwise (fun a b => a.now ≤ b.now)
        ∧ ∀ m, (ts.foldl (step cfg) KeyedTable.empty).lookup m = T.lookup m,
      StampedLadder cfg T].TFAE := by
  tfae_have 2 → 1 := by
    rintro ⟨ts, -, hrows⟩
    exact ⟨_, reachable_foldl Relation.ReflTransGen.refl, hrows⟩
  tfae_have 1 → 3 := by
    rintro ⟨T', hT', hrows⟩ p hp
    refine hT'.stampedLadder p ?_
    exact (KeyedTable.rows_perm_of_lookup hrows).mem_iff.mpr hp
  tfae_have 3 → 2 := exists_run_of_stampedLadder
  tfae_finish

end Nethadone
