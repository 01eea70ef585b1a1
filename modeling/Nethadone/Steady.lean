import Mathlib.Data.Finset.Lattice.Fold
import Mathlib.Logic.Function.Iterate
import Mathlib.Order.Lattice.Nat
import Nethadone.Backoff
import Nethadone.Daemon
import Nethadone.Rungs

/-!
# Under a steady load

While the answers of Prometheus stay the same, the active pairs climb
together, and until the last of them has arrived at the top nobody is let
down, since a round that has raised someone lowers no one. After that the
quiet pairs come down together. So the height of every pair after any
number of rounds has a closed form, with one delay for all quiet pairs:
the longest way an active pair has to go (`steady_heights`). When nobody
is active the ladder empties, and the throttler with it
(`quiet_recovers`).
-/

namespace Nethadone

/-! ## Heights alone -/

section Heights

variable {ι : Type*} [DecidableEq ι]

/-- One round: the active climb, and while one of them does the quiet wait. -/
def nextHeights (A B : Finset ι) (top : Nat) (h : ι → Nat) (m : ι) : Nat :=
  if ∃ m' ∈ A, h m' < top then if m ∈ A then min (h m + 1) top else h m
  else if m ∈ B then h m - 1 else h m

theorem iterate_nextHeights {A B : Finset ι} (hAB : Disjoint A B) (top : Nat) (h : ι → Nat)
    (hA : ∀ m ∈ A, h m ≤ top) (n : Nat) (m : ι) :
    (nextHeights A B top)^[n] h m
      = if m ∈ A then min (h m + n) top
        else if m ∈ B then h m - (n - A.sup fun m' => top - h m')
        else h m := by
  induction n generalizing m with
  | zero =>
      by_cases hm : m ∈ A
      · simp [hm, hA m hm]
      · simp [hm]
  | succ n ih =>
      rw [Function.iterate_succ_apply', nextHeights]
      -- somebody climbs as long as the longest way is longer than `n`
      have hclimb : (∃ m' ∈ A, (nextHeights A B top)^[n] h m' < top)
          ↔ n < A.sup fun m' => top - h m' := by
        rw [Finset.lt_sup_iff]
        refine exists_congr fun m' => and_congr_right fun hm' => ?_
        rw [ih, if_pos hm']
        omega
      by_cases hn : n < A.sup fun m' => top - h m'
      · rw [if_pos (hclimb.mpr hn), ih]
        split
        · omega
        · split
          · omega
          · rfl
      · rw [if_neg (mt hclimb.mp hn), ih]
        by_cases hm : m ∈ A
        · have hle : top - h m ≤ A.sup fun m' => top - h m' :=
            Finset.le_sup (f := fun m' => top - h m') hm
          rw [if_neg (Finset.disjoint_left.mp hAB hm), if_pos hm, if_pos hm]
          omega
        · rw [if_neg hm, if_neg hm]
          split
          · omega
          · rfl

end Heights

/-! ## Rounds under the same load -/

/-- The number of the rung, none without a row. -/
def height (v : Option Policy) : Nat := (rung v).toNat

def topRung (cfg : Config) : Nat := cfg.numQdiscClasses.toNat + 1

/-- The round finds `A` busy and `B` below the threshold, and nobody in backoff. -/
structure SteadyRound (cfg : Config) (A B : Finset SrcGlob) (T : PolicyTable) (t : Tick) :
    Prop where
  active : getActiveGlobGroups t.usage = A
  below : createSrcGlobSet t.usage.below5m = B
  out : ∀ m, OutOfBackoff cfg t.now (T.lookup m)

section Rounds

variable {cfg : Config} {A B : Finset SrcGlob} {T : PolicyTable} {t : Tick} {m : SrcGlob}

theorem height_le (hT : Reachable cfg T) (m : SrcGlob) : height (T.lookup m) ≤ topRung cfg := by
  cases hp : T.lookup m with
  | none => exact Nat.zero_le _
  | some p =>
      obtain ⟨k, hk, hcls⟩ := hT.onLadder m p hp
      rw [height, rung, topRung, hcls]
      omega

theorem raisable_iff (hT : Reachable cfg T) {now : Int}
    (hout : OutOfBackoff cfg now (T.lookup m)) :
    Raisable cfg now (T.lookup m) ↔ height (T.lookup m) < topRung cfg := by
  cases hp : T.lookup m with
  | none => simp [Raisable, height, rung, topRung]
  | some p =>
      obtain ⟨k, hk, hcls⟩ := hT.onLadder m p hp
      have hlow : p.cls ≤ cfg.numQdiscClasses * 10 ↔ height (some p) < topRung cfg := by
        rw [height, rung, topRung, hcls]
        omega
      rw [← hlow]
      exact ⟨fun h => (h p rfl).2, fun h q hq => by
        obtain rfl := Option.some.inj hq
        exact ⟨hout p hp, h⟩⟩

theorem height_increasedRow (hT : Reachable cfg T) {now : Int}
    (hout : OutOfBackoff cfg now (T.lookup m)) :
    height (increasedRow cfg now CallFaults.none m (T.lookup m))
      = min (height (T.lookup m) + 1) (topRung cfg) := by
  by_cases hup : Raisable cfg now (T.lookup m)
  · have hlt := (raisable_iff hT hout).mp hup
    cases hp : T.lookup m with
    | none => simp [height, rung, topRung]
    | some p =>
        rw [hp] at hup hlt
        obtain ⟨k, hk, hcls⟩ := hT.onLadder m p hp
        rw [increasedRow_some p hup]
        simp only [height, rung, hcls, topRung] at *
        omega
  · have hle := height_le hT m
    have hge := mt (raisable_iff hT hout).mpr hup
    rw [increasedRow_of_not_raisable _ hup]
    omega

theorem height_decreasedRow (hT : Reachable cfg T) {now : Int}
    (hout : OutOfBackoff cfg now (T.lookup m)) :
    height (decreasedRow cfg now CallFaults.none m (T.lookup m)) = height (T.lookup m) - 1 := by
  cases hp : T.lookup m with
  | none => rfl
  | some p =>
      obtain ⟨k, hk, hcls⟩ := hT.onLadder m p hp
      rw [decreasedRow_some p (hout p hp)]
      split
      · simp only [height, rung, hcls] at *
        omega
      · simp only [height, rung, hcls]
        omega

theorem height_step (hT : Reachable cfg T) (h : SteadyRound cfg A B T t) (m : SrcGlob) :
    height ((step cfg T t).lookup m)
      = nextHeights A B (topRung cfg) (fun m => height (T.lookup m)) m := by
  have hsome : SomeRaise cfg t T ↔ ∃ m' ∈ A, height (T.lookup m') < topRung cfg := by
    rw [SomeRaise, h.active]
    exact exists_congr fun m' => and_congr_right fun _ => raisable_iff hT (h.out m')
  rw [step, nextHeights]
  by_cases hr : SomeRaise cfg t T
  · rw [lookup_tick_of_raise hr, if_pos (hsome.mp hr), h.active]
    split
    · exact height_increasedRow hT (h.out m)
    · rfl
  · rw [lookup_tick_of_not_raise hr, if_neg (mt hsome.mpr hr), h.below]
    split
    · exact height_decreasedRow hT (h.out m)
    · rfl

theorem outOfBackoff_of_past (hI : 0 < cfg.policyBackoffInterval)
    (hpast : ∀ p ∈ T.rows, p.tstamp ≤ t.now) (m : SrcGlob) :
    OutOfBackoff cfg t.now (T.lookup m) :=
  fun p hp => not_tooSoon hI (hpast p (KeyedTable.lookup_eq_some.mp hp).1)

end Rounds

theorem heights_foldl {cfg : Config} (hI : 0 < cfg.policyBackoffInterval) {A B : Finset SrcGlob}
    {ts : List Tick} {T : PolicyTable} (hT : Reachable cfg T)
    (hload : ∀ t ∈ ts, getActiveGlobGroups t.usage = A ∧ createSrcGlobSet t.usage.below5m = B)
    (hpast : StampsPast T ts) (hclock : ts.Pairwise fun a b => a.now ≤ b.now) (m : SrcGlob) :
    height ((ts.foldl (step cfg) T).lookup m)
      = (nextHeights A B (topRung cfg))^[ts.length] (fun m => height (T.lookup m)) m := by
  induction ts generalizing T with
  | nil => rfl
  | cons t ts ih =>
      have hround : SteadyRound cfg A B T t :=
        { active := (hload t List.mem_cons_self).1
          below := (hload t List.mem_cons_self).2
          out := outOfBackoff_of_past hI fun p hp => hpast p hp t List.mem_cons_self }
      have hfirst : (fun m => height ((step cfg T t).lookup m))
          = nextHeights A B (topRung cfg) fun m => height (T.lookup m) :=
        funext (height_step hT hround)
      rw [List.foldl_cons, List.length_cons, Function.iterate_succ_apply, ← hfirst]
      exact ih (hT.step t) (fun t' ht' => hload t' (List.mem_cons_of_mem t ht'))
        (hpast.step hclock) (List.pairwise_cons.mp hclock).2

/-- From any reachable table, after any number of rounds of the same load: the active
pairs have climbed a rung a round, up to the top; the quiet ones have come
down a rung a round since the last active one got there; the others have not
moved. -/
theorem steady_heights (cfg : Config) (hI : 0 < cfg.policyBackoffInterval) (T : PolicyTable)
    (hT : Reachable cfg T) (A B : Finset SrcGlob) (hAB : Disjoint A B) (ts : List Tick)
    (hload : ∀ t ∈ ts, getActiveGlobGroups t.usage = A ∧ createSrcGlobSet t.usage.below5m = B)
    (hpast : StampsPast T ts) (hclock : ts.Pairwise fun a b => a.now ≤ b.now) (m : SrcGlob) :
    height ((ts.foldl (step cfg) T).lookup m)
      = if m ∈ A then min (height (T.lookup m) + ts.length) (topRung cfg)
        else if m ∈ B then height (T.lookup m)
          - (ts.length - A.sup fun m' => topRung cfg - height (T.lookup m'))
        else height (T.lookup m) := by
  rw [heights_foldl hI hT hload hpast hclock]
  exact iterate_nextHeights hAB _ _ (fun m' _ => height_le hT m') ts.length m

theorem steady_heights_news :
    height (([idleBusyTick redditClient newsClient minute,
        idleBusyTick redditClient newsClient (2 * minute)].foldl (step baseConfig)
        redditTable).lookup redditClient) = 1 := by
  have h := steady_heights baseConfig (by decide) redditTable
    (Reachable.step Relation.ReflTransGen.refl _) {newsClient} {redditClient} (by decide)
    [idleBusyTick redditClient newsClient minute,
      idleBusyTick redditClient newsClient (2 * minute)] (by decide) (by unfold StampsPast; decide)
    (by decide) redditClient
  rw [h]
  decide

/-! ## When nobody is active -/

/-- No pair is busy, and every pair with a row is below the threshold. -/
def QuietRound (x : PolicyTable × Tick) : Prop :=
  getActiveGlobGroups x.2.usage = ∅
    ∧ ∀ p ∈ x.1.rows, p.key ∈ createSrcGlobSet x.2.usage.below5m

section Quiet

variable {glob : Text → Text → Bool} {ord : RowOrder} {cfg : Config} {T : PolicyTable} {t : Tick}

theorem height_step_of_quiet (hT : Reachable cfg T) (hquiet : QuietRound (T, t))
    (hout : ∀ m, OutOfBackoff cfg t.now (T.lookup m)) (m : SrcGlob) :
    height ((step cfg T t).lookup m) = height (T.lookup m) - 1 := by
  have hround : SteadyRound cfg ∅ (createSrcGlobSet t.usage.below5m) T t := ⟨hquiet.1, rfl, hout⟩
  have hnone : ¬∃ m' ∈ (∅ : Finset SrcGlob), height (T.lookup m') < topRung cfg := by
    rintro ⟨m', hm', -⟩
    exact Finset.notMem_empty m' hm'
  rw [height_step hT hround, nextHeights, if_neg hnone]
  split
  · rfl
  · rename_i hm
    cases hp : T.lookup m with
    | none => rfl
    | some p =>
        obtain ⟨hrow, hkey⟩ := KeyedTable.lookup_eq_some.mp hp
        exact absurd (hkey ▸ hquiet.2 p hrow) hm

theorem height_foldl_of_quiet (hI : 0 < cfg.policyBackoffInterval) {ts : List Tick}
    (hT : Reachable cfg T) (hquiet : ∀ x ∈ Trace.trace (step cfg) T ts, QuietRound x)
    (hpast : StampsPast T ts) (hclock : ts.Pairwise fun a b => a.now ≤ b.now) (m : SrcGlob) :
    height ((ts.foldl (step cfg) T).lookup m) = height (T.lookup m) - ts.length := by
  induction ts generalizing T with
  | nil => rfl
  | cons t ts ih =>
      have hfirst := height_step_of_quiet hT (hquiet (T, t) List.mem_cons_self)
        (outOfBackoff_of_past hI fun p hp => hpast p hp t List.mem_cons_self) m
      rw [List.foldl_cons, ih (hT.step t) (fun x hx => hquiet x (List.mem_cons_of_mem _ hx))
        (hpast.step hclock) (List.pairwise_cons.mp hclock).2, hfirst, List.length_cons]
      omega

theorem rows_eq_nil (hT : Reachable cfg T) (h : ∀ m, height (T.lookup m) = 0) : T.rows = [] := by
  refine List.eq_nil_iff_forall_not_mem.mpr fun p hp => ?_
  obtain ⟨k, -, hcls⟩ := hT.onLadder_of_mem hp
  have hzero := h p.key
  rw [KeyedTable.lookup_key hp, height, rung, hcls] at hzero
  omega

/-- No frame is given a class. -/
def LeavesAlone (P : Program) : Prop :=
  ∀ (st : ThrottleStats) (skb : Skb), (throttle P st skb).2.1.tcClassid = skb.tcClassid

/-- With no policy left, nobody is throttled. -/
def Idle (d : Daemon) : Prop := d.policies.rows = [] → LeavesAlone d.attached

theorem leavesAlone_of_inSync {d : Daemon} {now : Int} (h : d.InSync glob ord now)
    (hnone : d.policies.rows = []) : LeavesAlone d.attached := by
  obtain ⟨rules, Q, hrules, hQ, hsame⟩ := h
  have hnil : rules = [] := by
    refine List.eq_nil_iff_forall_not_mem.mpr fun r hr => ?_
    obtain ⟨p, hp, -⟩ := (mem_applyPolicies hrules).mp hr
    rw [hnone] at hp
    exact List.not_mem_nil hp
  subst hnil
  obtain rfl : [] = Q := Option.some.inj hQ
  intro st skb
  by_cases hip : skb.IsIPv4
  · rw [hsame st skb hip, throttle_tcClassid hip]
    rfl
  · rw [throttle_of_not_ipv4 hip]

theorem Idle.tick {d d' : Daemon} (h : Idle d) (hd' : d.step glob ord cfg (.tick t) = some d') :
    Idle d' ∧ d'.policies = step cfg d.policies t := by
  by_cases hc : (Nethadone.tick cfg t d.policies).2 = true
  · obtain ⟨hpolicies, -, -, hsync⟩ := step_tick_of_changed hc hd'
    exact ⟨leavesAlone_of_inSync hsync, hpolicies⟩
  · rw [step_tick_of_not_changed hc] at hd'
    obtain rfl := Option.some.inj hd'
    exact ⟨h, (pollPolicyCheck_still hc).symm⟩

theorem Idle.run {ts : List Tick} {d d' : Daemon} (h : Idle d)
    (hrun : Run.run (Daemon.step glob ord cfg) d (ts.map .tick) = some d') :
    Idle d' ∧ d'.policies = ts.foldl (step cfg) d.policies := by
  induction ts generalizing d with
  | nil =>
      obtain rfl := Option.some.inj hrun
      exact ⟨h, rfl⟩
  | cons t ts ih =>
      obtain ⟨d₁, hd₁, hrest⟩ := Run.run_cons hrun
      obtain ⟨hidle, hpolicies⟩ := h.tick hd₁
      obtain ⟨hidle', hpolicies'⟩ := ih hidle hrest
      exact ⟨hidle', by rw [hpolicies', hpolicies, List.foldl_cons]⟩

end Quiet

/-- A daemon with policies, whatever they are and whatever is attached: after as many
quiet rounds as there are rungs, no policy is left and no frame is given a
class. -/
theorem quiet_recovers (glob : Text → Text → Bool) (ord : RowOrder) (cfg : Config)
    (hI : 0 < cfg.policyBackoffInterval) (d d' : Daemon) (hT : Reachable cfg d.policies)
    (hsome : d.policies.rows ≠ []) (ts : List Tick) (hlen : topRung cfg ≤ ts.length)
    (hquiet : ∀ x ∈ Trace.trace (step cfg) d.policies ts, QuietRound x)
    (hpast : StampsPast d.policies ts) (hclock : ts.Pairwise fun a b => a.now ≤ b.now)
    (hrun : Run.run (Daemon.step glob ord cfg) d (ts.map .tick) = some d') :
    d'.policies.rows = [] ∧ LeavesAlone d'.attached := by
  have hstart : Idle d := fun h => absurd h hsome
  obtain ⟨hidle, hpolicies⟩ := hstart.run hrun
  have hnone : d'.policies.rows = [] := by
    rw [hpolicies]
    refine rows_eq_nil (reachable_foldl hT) fun m => ?_
    have := height_le hT m
    rw [height_foldl_of_quiet hI hT hquiet hpast hclock]
    omega
  exact ⟨hnone, hidle hnone⟩

/-- Two classes below the open pipe, so three rungs. -/
def threeRungs : Config := { baseConfig with numQdiscClasses := 2 }

/-- The client has been busy three times and stands at the top. -/
def busyDaemon : Daemon where
  policies := [busyTick redditClient 0, busyTick redditClient (5 * minute),
    busyTick redditClient (10 * minute)].foldl (step threeRungs) KeyedTable.empty
  globs := redditGlobs
  dns := redditDns
  attached := initialProgram

def quietTicks : List Tick :=
  [idleTick redditClient (15 * minute), idleTick redditClient (20 * minute),
    idleTick redditClient (25 * minute)]

theorem quiet_recovers_reddit : ∃ d',
    Run.run (Daemon.step redditGlob RowOrder.stored threeRungs) busyDaemon
        (quietTicks.map .tick) = some d'
      ∧ d'.policies.rows = [] ∧ LeavesAlone d'.attached := by
  have hrun : (Run.run (Daemon.step redditGlob RowOrder.stored threeRungs) busyDaemon
      (quietTicks.map .tick)).isSome = true := by decide
  obtain ⟨d', hd'⟩ := Option.isSome_iff_exists.mp hrun
  refine ⟨d', hd', quiet_recovers redditGlob RowOrder.stored threeRungs (by decide) busyDaemon d'
    (reachable_foldl Relation.ReflTransGen.refl) (by decide) _ (by decide) (fun x hx => ?_)
    (by unfold StampsPast; decide) (by decide) hd'⟩
  simp only [quietTicks, Trace.trace, List.mem_cons, List.not_mem_nil, or_false] at hx
  rcases hx with rfl | rfl | rfl <;> exact ⟨by decide, by decide⟩

end Nethadone
