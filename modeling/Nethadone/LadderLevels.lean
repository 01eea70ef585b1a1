import Nethadone.ClassHandles
import Nethadone.Trace

/-!
# The documented ladder

The policy document describes bandwidth classes `B_0` (unrestricted) to
`B_N`, one step up when a client is active and one step down when it is
idle. `level` reads a pair's level off the policy table and the classes
the kernel has: no row is the open pipe, and a row of class `cls` is leaf
`cls / 10 - 1` if that is the leaf its rendered class names.

Two things keep a round off the ladder. A pair without a row is given
class 10, whose leaf is the open pipe again, so its first step up is no
step. And a class of three digits names another handle than its leaf's.
A round follows the document exactly when it raises only pairs that have
a row, and none of the rows it acts on needs or gets a class of three
digits (`followsLadder_iff`); a run of such rounds walks the ladder
(`run_followsLadder_iff`).
-/

namespace Nethadone

/-! ## A walk on a bounded ladder -/

inductive Move where
  | raise
  | lower
deriving DecidableEq

def walk (N : Nat) : Nat → List Move → Nat
  | c, [] => c
  | c, .raise :: ms => walk N (min (c + 1) N) ms
  | c, .lower :: ms => walk N (c - 1) ms

/-- No move of the walk is lost at an end of the ladder. -/
def Inside (N : Nat) : Nat → List Move → Prop
  | _, [] => True
  | c, .raise :: ms => c < N ∧ Inside N (c + 1) ms
  | c, .lower :: ms => 0 < c ∧ Inside N (c - 1) ms

section Walks

variable {N : Nat}

theorem walk_append : ∀ (ms ms' : List Move) (c : Nat),
    walk N c (ms ++ ms') = walk N (walk N c ms) ms'
  | [], _, _ => rfl
  | .raise :: ms, ms', c => walk_append ms ms' (min (c + 1) N)
  | .lower :: ms, ms', c => walk_append ms ms' (c - 1)

theorem walk_le : ∀ {ms : List Move} {c : Nat}, c ≤ N → walk N c ms ≤ N
  | [], _, h => h
  | .raise :: ms, c, _ => by
      have h : min (c + 1) N ≤ N := Nat.min_le_right ..
      rw [walk]
      exact walk_le h
  | .lower :: ms, c, hc => by
      have h : c - 1 ≤ N := Nat.le_trans (Nat.sub_le ..) hc
      rw [walk]
      exact walk_le h

theorem walk_of_inside : ∀ {ms : List Move} {c : Nat}, Inside N c ms →
    walk N c ms + ms.count .lower = c + ms.count .raise
  | [], _, _ => rfl
  | .raise :: ms, c, h => by
      obtain ⟨hlt, hrest⟩ := h
      have ih := walk_of_inside hrest
      have hmin : min (c + 1) N = c + 1 := by omega
      rw [walk, hmin, List.count_cons_of_ne (by decide), ih, List.count_cons_self]
      omega
  | .lower :: ms, c, h => by
      obtain ⟨hpos, hrest⟩ := h
      have ih := walk_of_inside hrest
      rw [walk, List.count_cons_self, List.count_cons_of_ne (by decide)]
      omega

theorem walk_raises : ∀ (j : Nat) {c : Nat}, c ≤ N →
    walk N c (List.replicate j .raise) = min (c + j) N
  | 0, c, h => by
      have hmin : min (c + 0) N = c := by omega
      rw [hmin]
      rfl
  | j + 1, c, _ => by
      rw [List.replicate_succ, walk, walk_raises j (Nat.min_le_right ..)]
      omega

/-- The net number of raises decides where a walk ends, if only raises after
the last lowering are lost. -/
theorem walk_net {ms : List Move} {c : Nat} (hc : c ≤ N) (h : Inside N c ms) (j : Nat) :
    walk N c (ms ++ List.replicate j .raise)
      = min (c + (ms.count .raise + j) - ms.count .lower) N := by
  have hms := walk_of_inside h
  rw [walk_append, walk_raises j (walk_le hc)]
  omega

end Walks

/-! ## Levels -/

/-- The index of the leaf the traffic of a pair with this row goes to: leaf 0
without a row, and nothing when the class does not name the leaf it counts
for. -/
def rowLevel (cfg : Config) (iface : Int) : Option Policy → Option Nat
  | none => some 0
  | some p =>
      if LandsOn cfg iface p.cls (p.cls / 10 - 1).toNat then some (p.cls / 10 - 1).toNat else none

def level (cfg : Config) (iface : Int) (T : PolicyTable) (m : SrcGlob) : Option Nat :=
  rowLevel cfg iface (T.lookup m)

def afterIncrease (cfg : Config) (T : PolicyTable) (t : Tick) : PolicyTable :=
  (increaseThrottling cfg t.now CallFaults.none t.incSlice T).1

/-- Neither loop skips a pair with this row for being in backoff. -/
def OutOfBackoff (cfg : Config) (now : Int) (v : Option Policy) : Prop :=
  ∀ p ∈ v, ¬tooSoon cfg now p

instance (cfg : Config) (now : Int) (v : Option Policy) : Decidable (OutOfBackoff cfg now v) :=
  inferInstanceAs (Decidable (∀ p ∈ v, _))

/-- The round moves every pair it acts on as the document says: `B_c` to
`B_(c+1)` up to `B_N` when raised, `B_c` to `B_(c-1)` down to `B_0` when
lowered. -/
def FollowsLadder (cfg : Config) (iface : Int) (T : PolicyTable) (t : Tick) : Prop :=
  (∀ m ∈ getActiveGlobGroups t.usage, OutOfBackoff cfg t.now (T.lookup m) →
    ∃ c, level cfg iface T m = some c ∧
      level cfg iface (afterIncrease cfg T t) m = some (min (c + 1) cfg.numQdiscClasses.toNat))
  ∧ (¬SomeRaise cfg t T →
      ∀ m ∈ createSrcGlobSet t.usage.below5m, OutOfBackoff cfg t.now (T.lookup m) →
        ∃ c, level cfg iface T m = some c ∧ level cfg iface (step cfg T t) m = some (c - 1))

/-- Every pair to be raised has a row, and neither the class it has nor the one
it gets has three digits; no row to be lowered has such a class. -/
structure OnTwoDigits (cfg : Config) (T : PolicyTable) (t : Tick) : Prop where
  raised : ∀ m ∈ getActiveGlobGroups t.usage, OutOfBackoff cfg t.now (T.lookup m) →
    ∃ p ∈ T.lookup m, p.cls < 100 ∧ (p.cls ≤ 80 ∨ cfg.numQdiscClasses ≤ 8)
  lowered : ¬SomeRaise cfg t T → ∀ m ∈ createSrcGlobSet t.usage.below5m,
    ∀ p ∈ T.lookup m, ¬tooSoon cfg t.now p → p.cls < 100

/-- What the two loops of a round do to a pair. -/
def moves (cfg : Config) (m : SrcGlob) (x : PolicyTable × Tick) : List Move :=
  (if m ∈ getActiveGlobGroups x.2.usage ∧ OutOfBackoff cfg x.2.now (x.1.lookup m)
    then [.raise] else [])
  ++ if ¬SomeRaise cfg x.2 x.1 ∧ m ∈ createSrcGlobSet x.2.usage.below5m
      ∧ OutOfBackoff cfg x.2.now (x.1.lookup m) then [.lower] else []

section Levels

variable {cfg : Config} {iface : Int} {T : PolicyTable} {t : Tick} {m : SrcGlob}

theorem lookup_afterIncrease :
    (afterIncrease cfg T t).lookup m
      = if m ∈ getActiveGlobGroups t.usage
        then increasedRow cfg t.now CallFaults.none m (T.lookup m) else T.lookup m :=
  @lookup_increaseThrottling cfg TickFaults.none t T m

theorem afterIncrease_of_not_raise (h : ¬SomeRaise cfg t T) : afterIncrease cfg T t = T := by
  rw [afterIncrease]
  exact congrArg Prod.fst
    (increaseThrottling_still (f := TickFaults.none) fun hr => h (raisesAny_iff.mp hr))

/-- After a raise the decrease loop does not run. -/
theorem step_of_raise (h : SomeRaise cfg t T) : step cfg T t = afterIncrease cfg T t := by
  rw [step, tick, pollPolicyCheck_of_raises (raisesAny_iff.mpr h)]
  rfl

theorem rowLevel_rung {p : Policy} {k : Nat} (hk : k ≤ cfg.numQdiscClasses.toNat)
    (hcls : p.cls = 10 * (k + 1)) :
    rowLevel cfg iface (some p) = if k ≤ 8 then some k else none := by
  have hidx : (p.cls / 10 - 1).toNat = k := by omega
  simp only [rowLevel, hidx]
  simp only [hcls, landsOn_own_iff, hk, true_and]

theorem rowLevel_eq_some {p : Policy} {k c : Nat} (hk : k ≤ cfg.numQdiscClasses.toNat)
    (hcls : p.cls = 10 * (k + 1)) : rowLevel cfg iface (some p) = some c ↔ k ≤ 8 ∧ k = c := by
  rw [rowLevel_rung hk hcls, Option.ite_none_right_eq_some, Option.some.injEq]

theorem Reachable.level_le (hT : Reachable cfg T) {c : Nat} (h : level cfg iface T m = some c) :
    c ≤ cfg.numQdiscClasses.toNat := by
  cases hrow : T.lookup m with
  | none =>
      rw [level, hrow] at h
      obtain rfl := Option.some.inj h
      exact Nat.zero_le _
  | some p =>
      obtain ⟨k, hk, hcls⟩ := hT.onLadder m p hrow
      rw [level, hrow, rowLevel_eq_some hk hcls] at h
      obtain ⟨-, rfl⟩ := h
      exact hk

theorem raise_follows_iff (hT : Reachable cfg T) (hm : m ∈ getActiveGlobGroups t.usage)
    {p : Policy} (h : T.lookup m = some p) (hout : ¬tooSoon cfg t.now p) :
    (∃ c, level cfg iface T m = some c ∧
      level cfg iface (afterIncrease cfg T t) m = some (min (c + 1) cfg.numQdiscClasses.toNat))
      ↔ p.cls < 100 ∧ (p.cls ≤ 80 ∨ cfg.numQdiscClasses ≤ 8) := by
  obtain ⟨k, hk, hcls⟩ := hT.onLadder m p h
  simp only [level, lookup_afterIncrease, if_pos hm, h, rowLevel_eq_some hk hcls]
  by_cases hmax : k < cfg.numQdiscClasses.toNat
  · have hup : Raisable cfg t.now (some p) := fun q hq => by
      obtain rfl := Option.some.inj hq
      exact ⟨hout, by omega⟩
    have hnext : ∀ c, rowLevel cfg iface (some ⟨m.src, m.glob, p.cls + 10, datetime t.now⟩) = some c
        ↔ k + 1 ≤ 8 ∧ k + 1 = c := fun c => rowLevel_eq_some hmax (by simp only; omega)
    simp only [increasedRow_some p hup, hnext]
    constructor
    · rintro ⟨c, -, hk7, -⟩
      omega
    · intro hlow
      exact ⟨k, ⟨by omega, rfl⟩, by omega, (Nat.min_eq_left hmax).symm⟩
  · have hstay : ¬Raisable cfg t.now (some p) := fun hr => by
      have := (hr p rfl).2
      omega
    simp only [increasedRow_of_not_raisable _ hstay, rowLevel_eq_some hk hcls]
    constructor
    · rintro ⟨c, ⟨hk8, -⟩, -⟩
      omega
    · intro hlow
      have hk8 : k ≤ 8 := by omega
      exact ⟨k, ⟨hk8, rfl⟩, hk8, by omega⟩

theorem lower_follows_iff (hT : Reachable cfg T) (hr : ¬SomeRaise cfg t T)
    (hm : m ∈ createSrcGlobSet t.usage.below5m) (hout : OutOfBackoff cfg t.now (T.lookup m)) :
    (∃ c, level cfg iface T m = some c ∧ level cfg iface (step cfg T t) m = some (c - 1))
      ↔ ∀ p ∈ T.lookup m, p.cls < 100 := by
  rw [level, level, step, lookup_tick_of_not_raise hr, if_pos hm]
  cases h : T.lookup m with
  | none => exact iff_of_true ⟨0, rfl, rfl⟩ fun p hp => by cases hp
  | some p =>
      obtain ⟨k, hk, hcls⟩ := hT.onLadder m p h
      rw [h] at hout
      simp only [rowLevel_eq_some hk hcls, decreasedRow_some p (hout p rfl)]
      constructor
      · rintro ⟨c, ⟨hk8, -⟩, -⟩ q hq
        obtain rfl := Option.some.inj hq
        omega
      · intro hlow
        have := hlow p rfl
        refine ⟨k, ⟨by omega, rfl⟩, ?_⟩
        cases k with
        | zero =>
            rw [if_pos (by omega)]
            rfl
        | succ k =>
            rw [if_neg (by omega)]
            exact (rowLevel_eq_some (by omega) (by simp only; omega)).mpr ⟨by omega, rfl⟩

theorem followsLadder_iff (hN : 1 ≤ cfg.numQdiscClasses) (hT : Reachable cfg T) :
    FollowsLadder cfg iface T t ↔ OnTwoDigits cfg T t := by
  constructor
  · intro h
    refine ⟨fun m hm hout => ?_, fun hr m hm p hp hout => ?_⟩
    · have hup := h.1 m hm hout
      cases hrow : T.lookup m with
      | none =>
          -- the first raise should have led to level one
          obtain ⟨c, hc, hc'⟩ := hup
          rw [level, hrow] at hc
          obtain rfl := Option.some.inj hc
          rw [level, lookup_afterIncrease, if_pos hm, hrow, increasedRow_none,
            rowLevel_eq_some (k := 0) (Nat.zero_le _) rfl] at hc'
          omega
      | some p => exact ⟨p, rfl, (raise_follows_iff hT hm hrow (hout p hrow)).mp hup⟩
    · have hrow : OutOfBackoff cfg t.now (T.lookup m) := fun q hq => by
        obtain rfl := Option.mem_unique hp hq
        exact hout
      exact (lower_follows_iff hT hr hm hrow).mp (h.2 hr m hm hrow) p hp
  · intro h
    refine ⟨fun m hm hout => ?_, fun hr m hm hout => ?_⟩
    · obtain ⟨p, hp, hlow⟩ := h.raised m hm hout
      exact (raise_follows_iff hT hm hp (hout p hp)).mpr hlow
    · exact (lower_follows_iff hT hr hm hout).mpr fun p hp => h.lowered hr m hm p hp (hout p hp)

theorem FollowsLadder.raised (h : FollowsLadder cfg iface T t)
    (hm : m ∈ getActiveGlobGroups t.usage) (hout : OutOfBackoff cfg t.now (T.lookup m)) {c : Nat}
    (hc : level cfg iface T m = some c) :
    level cfg iface (afterIncrease cfg T t) m = some (min (c + 1) cfg.numQdiscClasses.toNat) := by
  obtain ⟨c', hc', hup⟩ := h.1 m hm hout
  obtain rfl : c = c' := Option.some.inj (hc.symm.trans hc')
  exact hup

theorem FollowsLadder.lowered (h : FollowsLadder cfg iface T t) (hr : ¬SomeRaise cfg t T)
    (hm : m ∈ createSrcGlobSet t.usage.below5m) (hout : OutOfBackoff cfg t.now (T.lookup m))
    {c : Nat} (hc : level cfg iface T m = some c) :
    level cfg iface (step cfg T t) m = some (c - 1) := by
  obtain ⟨c', hc', hdown⟩ := h.2 hr m hm hout
  obtain rfl : c = c' := Option.some.inj (hc.symm.trans hc')
  exact hdown

/-- A round that follows the ladder walks every pair along its moves. -/
theorem FollowsLadder.level_step (h : FollowsLadder cfg iface T t) {c : Nat}
    (hc : level cfg iface T m = some c) :
    level cfg iface (step cfg T t) m
      = some (walk cfg.numQdiscClasses.toNat c (moves cfg m (T, t))) := by
  by_cases hr : SomeRaise cfg t T
  · simp only [moves, hr, not_true, false_and, if_false, List.append_nil]
    rw [step_of_raise hr]
    split
    · rename_i hup
      exact h.raised hup.1 hup.2 hc
    · rename_i hup
      rw [walk, ← hc, level, level, lookup_afterIncrease]
      split
      · rename_i hm
        rw [increasedRow_of_not_raisable _ fun hv => hup ⟨hm, fun p hp => (hv p hp).1⟩]
      · rfl
  · -- a pair the increase loop met stays: it is at the top
    have hfirst : walk cfg.numQdiscClasses.toNat c
        (if m ∈ getActiveGlobGroups t.usage ∧ OutOfBackoff cfg t.now (T.lookup m)
          then [.raise] else []) = c := by
      split
      · rename_i hup
        have htop := h.raised hup.1 hup.2 hc
        rw [afterIncrease_of_not_raise hr, hc] at htop
        exact (Option.some.inj htop).symm
      · rfl
    rw [moves, walk_append, hfirst]
    simp only [hr, not_false_eq_true, true_and]
    split
    · rename_i hdown
      exact h.lowered hr hdown.1 hdown.2 hc
    · rename_i hdown
      rw [walk, ← hc, level, level, step, lookup_tick_of_not_raise hr]
      split
      · rename_i hm
        rw [decreasedRow_of_not_lowerable _ fun hl => hdown ⟨hm, fun p hp => ?_⟩]
        obtain ⟨q, hq, hout⟩ := hl
        obtain rfl := Option.mem_unique hp hq
        exact hout
      · rfl

end Levels

/-! ## Whole runs -/

section Runs

variable {cfg : Config} {iface : Int} {m : SrcGlob}

theorem level_run : ∀ {ts : List Tick} {T : PolicyTable} {c : Nat},
    (∀ x ∈ Trace.trace (step cfg) T ts, FollowsLadder cfg iface x.1 x.2) →
      level cfg iface T m = some c →
        level cfg iface (ts.foldl (step cfg) T) m
          = some (walk cfg.numQdiscClasses.toNat c
              ((Trace.trace (step cfg) T ts).flatMap (moves cfg m)))
  | [], _, _, _, hc => hc
  | t :: ts, T, c, h, hc => by
      have hfirst := (h (T, t) (List.mem_cons_self ..)).level_step hc
      rw [List.foldl_cons, level_run (fun x hx => h x (List.mem_cons_of_mem _ hx)) hfirst,
        Trace.trace, List.flatMap_cons, walk_append]

/-- In every run from a reachable table, every round follows the documented
ladder exactly when every round keeps to rows and to two digits; and then
every pair walks the ladder, so that `j` net raises take it `j` levels up,
the top level at most. -/
theorem run_followsLadder_iff (cfg : Config) (hN : 1 ≤ cfg.numQdiscClasses) (iface : Int)
    (T : PolicyTable) (hT : Reachable cfg T) (ts : List Tick) :
    ((∀ x ∈ Trace.trace (step cfg) T ts, FollowsLadder cfg iface x.1 x.2)
        ↔ ∀ x ∈ Trace.trace (step cfg) T ts, OnTwoDigits cfg x.1 x.2)
      ∧ ((∀ x ∈ Trace.trace (step cfg) T ts, OnTwoDigits cfg x.1 x.2) →
          ∀ m c, level cfg iface T m = some c →
            level cfg iface (ts.foldl (step cfg) T) m
                = some (walk cfg.numQdiscClasses.toNat c
                    ((Trace.trace (step cfg) T ts).flatMap (moves cfg m)))
              ∧ ∀ ms j, (Trace.trace (step cfg) T ts).flatMap (moves cfg m)
                    = ms ++ List.replicate j .raise →
                  Inside cfg.numQdiscClasses.toNat c ms →
                    level cfg iface (ts.foldl (step cfg) T) m
                      = some (min (c + (ms.count .raise + j) - ms.count .lower)
                          cfg.numQdiscClasses.toNat)) := by
  have hiff : (∀ x ∈ Trace.trace (step cfg) T ts, FollowsLadder cfg iface x.1 x.2)
      ↔ ∀ x ∈ Trace.trace (step cfg) T ts, OnTwoDigits cfg x.1 x.2 :=
    Trace.forall_trace_congr (I := fun T _ => Reachable cfg T) (fun _ t _ h => h.step t)
      (fun _ _ _ h => followsLadder_iff hN h) hT
  refine ⟨hiff, fun h m c hc => ?_⟩
  have hwalk := level_run (hiff.mpr h) hc
  refine ⟨hwalk, fun ms j hms hin => ?_⟩
  rw [hwalk, hms, walk_net (hT.level_le hc) hin]

end Runs

/-- A client with a row, busy for two rounds, is on leaf 2 after them. -/
theorem run_followsLadder_two_raises :
    (∀ x ∈ Trace.trace (step baseConfig)
        (step baseConfig KeyedTable.empty (busyTick redditClient 0))
        [busyTick redditClient (5 * minute), busyTick redditClient (10 * minute)],
      FollowsLadder baseConfig 0 x.1 x.2)
      ∧ level baseConfig 0
          ([busyTick redditClient (5 * minute), busyTick redditClient (10 * minute)].foldl
            (step baseConfig) (step baseConfig KeyedTable.empty (busyTick redditClient 0)))
          redditClient = some 2 := by
  obtain ⟨hiff, hrun⟩ := run_followsLadder_iff baseConfig (by decide) 0
    (step baseConfig KeyedTable.empty (busyTick redditClient 0))
    (Reachable.step Relation.ReflTransGen.refl _)
    [busyTick redditClient (5 * minute), busyTick redditClient (10 * minute)]
  have hrows : ∀ x ∈ Trace.trace (step baseConfig)
      (step baseConfig KeyedTable.empty (busyTick redditClient 0))
      [busyTick redditClient (5 * minute), busyTick redditClient (10 * minute)],
      OnTwoDigits baseConfig x.1 x.2 := by
    intro x hx
    simp only [Trace.trace, List.mem_cons, List.not_mem_nil, or_false] at hx
    rcases hx with rfl | rfl <;>
      refine ⟨fun m hm _ => ?_, fun _ m hm => absurd hm (Finset.notMem_empty m)⟩ <;>
      obtain rfl := (mem_active_busyTick ..).mp hm
    · exact ⟨⟨redditClient.src, redditClient.glob, 10, 0⟩, by decide⟩
    · exact ⟨⟨redditClient.src, redditClient.glob, 20, 5 * minute⟩, by decide⟩
  exact ⟨hiff.mpr hrows, (hrun hrows redditClient 0 (by decide)).2 [] 2 (by decide) trivial⟩

/-- The first raise leaves the client on the open pipe. -/
theorem first_raise_stays_open :
    Reachable baseConfig KeyedTable.empty ∧
      ¬FollowsLadder baseConfig 0 KeyedTable.empty (busyTick redditClient 0) := by
  refine ⟨Relation.ReflTransGen.refl, fun h => ?_⟩
  have hbefore : level baseConfig 0 KeyedTable.empty redditClient = some 0 := by decide
  have hafter : level baseConfig 0
      (afterIncrease baseConfig KeyedTable.empty (busyTick redditClient 0)) redditClient
        = some 0 := by decide
  have hup := h.raised (by decide) (by intro p hp; cases hp) hbefore
  rw [hafter] at hup
  revert hup
  decide

end Nethadone
