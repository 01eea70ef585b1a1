import Nethadone.LadderLevels

/-!
# One rung at a time

A pair stands on a rung: the ground without a row, rung `k` at class
`10 * k`. The two loops of a round work from queries at different
instants, so the same pair may be in both sets; still no round moves a
pair by more than one rung, because the decrease loop runs only after an
increase loop that moved nobody (`movesOneRung`).
-/

namespace Nethadone

def rung : Option Policy → Int
  | none => 0
  | some p => p.cls / 10

/-- One row a pair, and every class a rung of the ladder 10, 20, …,
`10 * (N + 1)`. -/
def LadderTable (cfg : Config) (T : PolicyTable) : Prop :=
  (T.rows.map Policy.key).Nodup
    ∧ ∀ p ∈ T.rows, 10 ∣ p.cls ∧ 10 ≤ p.cls ∧ p.cls ≤ 10 * (cfg.numQdiscClasses + 1)

/-- Every pair is raised by at most one rung, by the increase loop, and then
not lowered; or not raised, and lowered by at most one rung. -/
def MovesOneRung (cfg : Config) (T : PolicyTable) (t : Tick) : Prop :=
  ∀ m, let before := rung (T.lookup m)
    let between := rung ((afterIncrease cfg T t).lookup m)
    let after := rung ((step cfg T t).lookup m)
    between = before + 1 ∧ after = between
      ∨ between = before ∧ (after = before ∨ after = before - 1)

section Rungs

variable {cfg : Config} {T : PolicyTable} {t : Tick} {m : SrcGlob} {now : Int}

theorem rung_increasedRow (cfg : Config) (now : Int) (m : SrcGlob) (v : Option Policy) :
    rung (increasedRow cfg now CallFaults.none m v) = rung v
      ∨ rung (increasedRow cfg now CallFaults.none m v) = rung v + 1 := by
  by_cases hup : Raisable cfg now v
  · right
    cases v with
    | none => rfl
    | some p =>
        rw [increasedRow_some p hup]
        show (p.cls + 10) / 10 = p.cls / 10 + 1
        omega
  · rw [increasedRow_of_not_raisable v hup]
    exact Or.inl rfl

theorem rung_decreasedRow {v : Option Policy} (hv : ∀ p ∈ v, 10 ≤ p.cls) :
    rung (decreasedRow cfg now CallFaults.none m v) = rung v
      ∨ rung (decreasedRow cfg now CallFaults.none m v) = rung v - 1 := by
  rcases decreasedRow_cases cfg now CallFaults.none m v with
    h | ⟨p, hp, -, hmin, h⟩ | ⟨p, hp, -, -, h⟩ <;> rw [h]
  · exact Or.inl rfl
  · obtain rfl : v = some p := hp
    have := hv p rfl
    right
    show (0 : Int) = p.cls / 10 - 1
    omega
  · obtain rfl : v = some p := hp
    right
    show (p.cls - 10) / 10 = p.cls / 10 - 1
    omega

theorem Reachable.ladderTable (hN : 0 ≤ cfg.numQdiscClasses) (hT : Reachable cfg T) :
    LadderTable cfg T := by
  refine ⟨T.nodup, fun p hp => ?_⟩
  obtain ⟨k, hk, hcls⟩ := hT.onLadder_of_mem hp
  exact ⟨⟨k + 1, hcls⟩, by omega, by omega⟩

theorem movesOneRung (hT : Reachable cfg T) : MovesOneRung cfg T t := by
  intro m
  by_cases hr : SomeRaise cfg t T
  · -- the decrease loop does not run
    rw [step_of_raise hr]
    by_cases hm : m ∈ getActiveGlobGroups t.usage
    · rw [lookup_afterIncrease, if_pos hm]
      rcases rung_increasedRow cfg t.now m (T.lookup m) with h | h
      · exact Or.inr ⟨h, Or.inl h⟩
      · exact Or.inl ⟨h, rfl⟩
    · rw [lookup_afterIncrease, if_neg hm]
      exact Or.inr ⟨rfl, Or.inl rfl⟩
  · rw [afterIncrease_of_not_raise hr, step, lookup_tick_of_not_raise hr]
    refine Or.inr ⟨rfl, ?_⟩
    split
    · exact rung_decreasedRow fun p hp => (hT.onLadder m p hp).ten_le
    · exact Or.inl rfl

end Rungs

theorem reachable_foldl {cfg : Config} {ts : List Tick} {T : PolicyTable} (hT : Reachable cfg T) :
    Reachable cfg (ts.foldl (step cfg) T) := by
  induction ts generalizing T with
  | nil => exact hT
  | cons t ts ih => exact ih (hT.step t)

/-- In every run from the empty table, whatever Prometheus answers and
whatever the clock shows, every table is a ladder table and every round
moves every pair by at most one rung. -/
theorem run_ladder (cfg : Config) (hN : 0 ≤ cfg.numQdiscClasses) (ts : List Tick) :
    LadderTable cfg (ts.foldl (step cfg) KeyedTable.empty)
      ∧ ∀ x ∈ Trace.trace (step cfg) KeyedTable.empty ts,
          LadderTable cfg x.1 ∧ MovesOneRung cfg x.1 x.2 := by
  have hempty : Reachable cfg KeyedTable.empty := Relation.ReflTransGen.refl
  refine ⟨(reachable_foldl hempty).ladderTable hN, fun x hx => ?_⟩
  obtain ⟨-, hT⟩ := Trace.forall_trace (I := fun T _ => Reachable cfg T)
    (fun _ t _ h => h.step t) hempty x hx
  exact ⟨hT.ladderTable hN, movesOneRung hT⟩

theorem run_ladder_both_sets :
    LadderTable baseConfig ([busyTick redditClient 0,
        Tick.inOrder (5 * minute) { busyUsage redditClient with
          below5m := [⟨redditClient.src, redditClient.glob, 0⟩] }].foldl
            (step baseConfig) KeyedTable.empty)
      ∧ ∀ x ∈ Trace.trace (step baseConfig) KeyedTable.empty [busyTick redditClient 0,
          Tick.inOrder (5 * minute) { busyUsage redditClient with
            below5m := [⟨redditClient.src, redditClient.glob, 0⟩] }],
          LadderTable baseConfig x.1 ∧ MovesOneRung baseConfig x.1 x.2 :=
  run_ladder baseConfig (by decide) _

end Nethadone
