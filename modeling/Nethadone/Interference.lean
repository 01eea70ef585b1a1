import Nethadone.Ladder

/-!
# What one client's tick owes to the others

Both loops work pair by pair, but `changed || decreasingThrottling()`
joins them through one flag: a single raise anywhere makes the round skip
every lowering. Two rounds that agree on a pair therefore agree on its row
exactly when they agree on whether somebody is raised, or when the pair is
not due for lowering in the first place (`rowAfter_eq_iff`).
-/

namespace Nethadone

structure AgreeOn (m : SrcGlob) (u u' : Usage) : Prop where
  above2m : m ∈ createSrcGlobSet u.above2m ↔ m ∈ createSrcGlobSet u'.above2m
  above2mAgo5 : m ∈ createSrcGlobSet u.above2mAgo5 ↔ m ∈ createSrcGlobSet u'.above2mAgo5
  above5m : m ∈ createSrcGlobSet u.above5m ↔ m ∈ createSrcGlobSet u'.above5m
  below5m : m ∈ createSrcGlobSet u.below5m ↔ m ∈ createSrcGlobSet u'.below5m

theorem mem_getActiveGlobGroups {m : SrcGlob} {u : Usage} :
    m ∈ getActiveGlobGroups u ↔ m ∈ createSrcGlobSet u.above2m
      ∧ m ∈ createSrcGlobSet u.above2mAgo5 ∧ m ∈ createSrcGlobSet u.above5m := by
  simp only [getActiveGlobGroups, Finset.mem_inter]
  tauto

theorem AgreeOn.active {m : SrcGlob} {u u' : Usage} (h : AgreeOn m u u') :
    m ∈ getActiveGlobGroups u ↔ m ∈ getActiveGlobGroups u' := by
  rw [mem_getActiveGlobGroups, mem_getActiveGlobGroups, h.above2m, h.above2mAgo5, h.above5m]

/-- A pair's row after a round: absent, or its class. -/
def rowAfter (cfg : Config) (t : Tick) (T : PolicyTable) (m : SrcGlob) : Option Int :=
  ((tick cfg t T).1.lookup m).map (·.cls)

/-- The decrease loop, if it ran, would act on the pair. -/
def DueForLowering (cfg : Config) (t : Tick) (T : PolicyTable) (m : SrcGlob) : Prop :=
  m ∈ createSrcGlobSet t.usage.below5m ∧ Lowerable cfg t.now (T.lookup m)

section Rows

variable {cfg : Config} {t : Tick} {T : PolicyTable} {m : SrcGlob}

theorem rowAfter_of_raise (h : SomeRaise cfg t T) :
    rowAfter cfg t T m
      = (if m ∈ getActiveGlobGroups t.usage
          then increasedRow cfg t.now CallFaults.none m (T.lookup m) else T.lookup m).map
        (·.cls) := by
  rw [rowAfter, lookup_tick_of_raise h]

theorem rowAfter_of_not_raise (h : ¬SomeRaise cfg t T) :
    rowAfter cfg t T m
      = (if m ∈ createSrcGlobSet t.usage.below5m
          then decreasedRow cfg t.now CallFaults.none m (T.lookup m) else T.lookup m).map
        (·.cls) := by
  rw [rowAfter, lookup_tick_of_not_raise h]

theorem rowAfter_of_other_raise (h : SomeRaise cfg t T)
    (hm : ¬(m ∈ getActiveGlobGroups t.usage ∧ Raisable cfg t.now (T.lookup m))) :
    rowAfter cfg t T m = (T.lookup m).map (·.cls) := by
  rw [rowAfter_of_raise h]
  split
  · rename_i hact
    rw [increasedRow_of_not_raisable _ fun hr => hm ⟨hact, hr⟩]
  · rfl

theorem rowAfter_ne_iff (h : ¬SomeRaise cfg t T) :
    rowAfter cfg t T m ≠ (T.lookup m).map (·.cls) ↔ DueForLowering cfg t T m := by
  rw [rowAfter_of_not_raise h, DueForLowering]
  split
  · rename_i hm
    by_cases hl : Lowerable cfg t.now (T.lookup m)
    · simp [hm, hl, decreasedRow_ne hl]
    · simp [hl, decreasedRow_of_not_lowerable _ hl]
  · rename_i hm
    simp [hm]

end Rows

section TwoRuns

variable {cfg : Config} {T : PolicyTable} {m : SrcGlob} {t t' : Tick}

theorem DueForLowering.congr (hnow : t.now = t'.now) (hu : AgreeOn m t.usage t'.usage) :
    DueForLowering cfg t T m ↔ DueForLowering cfg t' T m := by
  rw [DueForLowering, DueForLowering, hnow, hu.below5m]

theorem rowAfter_congr (hnow : t.now = t'.now) (hu : AgreeOn m t.usage t'.usage)
    (hr : SomeRaise cfg t T ↔ SomeRaise cfg t' T) : rowAfter cfg t T m = rowAfter cfg t' T m := by
  by_cases h : SomeRaise cfg t T
  · rw [rowAfter_of_raise h, rowAfter_of_raise (hr.mp h), hnow]
    simp only [hu.active]
  · rw [rowAfter_of_not_raise h, rowAfter_of_not_raise fun h' => h (hr.mpr h'), hnow]
    simp only [hu.below5m]

/-- One of the rounds raises somebody, the other does not: the pair's rows
differ exactly when it was due for lowering. -/
theorem rowAfter_eq_of_raise_of_not (hnow : t.now = t'.now) (hu : AgreeOn m t.usage t'.usage)
    (h : SomeRaise cfg t T) (h' : ¬SomeRaise cfg t' T) :
    rowAfter cfg t T m = rowAfter cfg t' T m ↔ ¬DueForLowering cfg t T m := by
  -- the pair is not itself raised, or the other round would raise it too
  have hown : ¬(m ∈ getActiveGlobGroups t.usage ∧ Raisable cfg t.now (T.lookup m)) :=
    fun ⟨hm, hv⟩ => h' ⟨m, hu.active.mp hm, hnow ▸ hv⟩
  rw [rowAfter_of_other_raise h hown, DueForLowering.congr hnow hu, ← rowAfter_ne_iff h',
    not_not, eq_comm]

theorem rowAfter_eq_iff (hnow : t.now = t'.now) (hu : AgreeOn m t.usage t'.usage) :
    rowAfter cfg t T m = rowAfter cfg t' T m ↔
      (SomeRaise cfg t T ↔ SomeRaise cfg t' T) ∨ ¬DueForLowering cfg t T m := by
  by_cases hr : SomeRaise cfg t T ↔ SomeRaise cfg t' T
  · simp only [rowAfter_congr hnow hu hr, hr, true_or]
  · have hcase : SomeRaise cfg t T ∧ ¬SomeRaise cfg t' T
        ∨ ¬SomeRaise cfg t T ∧ SomeRaise cfg t' T := by tauto
    simp only [hr, false_or]
    rcases hcase with ⟨h, h'⟩ | ⟨h', h⟩
    · exact rowAfter_eq_of_raise_of_not hnow hu h h'
    · have hu' : AgreeOn m t'.usage t.usage :=
        ⟨hu.above2m.symm, hu.above2mAgo5.symm, hu.above5m.symm, hu.below5m.symm⟩
      rw [eq_comm, rowAfter_eq_of_raise_of_not hnow.symm hu' h h',
        DueForLowering.congr hnow.symm hu']

end TwoRuns

/-! ## One idle client, alone and beside a busy one -/

def idleUsage (m : SrcGlob) : Usage where
  above2m := []
  above2mAgo5 := []
  above5m := []
  below5m := [⟨m.src, m.glob, 0⟩]

def idleTick (m : SrcGlob) (now : Int) : Tick := Tick.inOrder now (idleUsage m)

def idleBusyTick (m m' : SrcGlob) (now : Int) : Tick :=
  Tick.inOrder now { busyUsage m' with below5m := (idleUsage m).below5m }

def redditTable : PolicyTable := step baseConfig KeyedTable.empty (busyTick redditClient 0)

theorem reddit_row_beside_news :
    rowAfter baseConfig (idleTick redditClient (5 * minute)) redditTable redditClient
        = rowAfter baseConfig (idleBusyTick redditClient newsClient (5 * minute)) redditTable
            redditClient ↔
      (SomeRaise baseConfig (idleTick redditClient (5 * minute)) redditTable
          ↔ SomeRaise baseConfig (idleBusyTick redditClient newsClient (5 * minute)) redditTable)
        ∨ ¬DueForLowering baseConfig (idleTick redditClient (5 * minute)) redditTable
            redditClient :=
  rowAfter_eq_iff rfl ⟨by decide, by decide, by decide, by decide⟩

/-- The idle client is released when alone and held when another is raised. -/
theorem news_holds_reddit :
    AgreeOn redditClient (idleTick redditClient (5 * minute)).usage
        (idleBusyTick redditClient newsClient (5 * minute)).usage ∧
      rowAfter baseConfig (idleTick redditClient (5 * minute)) redditTable redditClient = none ∧
      rowAfter baseConfig (idleBusyTick redditClient newsClient (5 * minute)) redditTable
        redditClient = some 10 :=
  ⟨⟨by decide, by decide, by decide, by decide⟩, by decide, by decide⟩

end Nethadone
