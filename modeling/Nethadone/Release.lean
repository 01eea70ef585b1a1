import Nethadone.Interference
import Nethadone.LadderLevels

/-!
# Releasing idle clients

The decrease loop visits the pairs of `rate < k`, so a client is lowered
only when Prometheus has a series for it and its rate is below the
threshold. A rate of zero is not below a threshold of zero, and a client
whose counters went with a restart has no series. Those are the only two
ways an idle client is held: a run of idle rounds takes it off the ladder
exactly when neither occurs (`release_iff`).
-/

namespace Nethadone

def HasSeries (db : PromDb) (m : SrcGlob) (now : Int) : Prop :=
  ∃ vec ∈ db.sumRate 5 now, ∃ s ∈ vec, (⟨s.srcIp, s.glob⟩ : SrcGlob) = m

/-- Whatever five-minute rate Prometheus has for the pair is zero. -/
def NoTraffic (db : PromDb) (m : SrcGlob) (now : Int) : Prop :=
  ∀ vec ∈ db.sumRate 5 now, ∀ s ∈ vec, (⟨s.srcIp, s.glob⟩ : SrcGlob) = m → s.value = 0

/-- A round whose decrease query is answered by `db`, in which nobody is
raised, the pair is not held back by the backoff check and had no traffic. -/
structure IdleRound (cfg : Config) (db : PromDb) (m : SrcGlob) (x : PolicyTable × Tick) :
    Prop where
  asked : x.2.usage.below5m = getSrcGlobUsage db 5 0 cfg.activityThresholdBytes false x.2.now
  noRaise : ¬SomeRaise cfg x.2 x.1
  outOfBackoff : OutOfBackoff cfg x.2.now (x.1.lookup m)
  noTraffic : NoTraffic db m x.2.now

def Lowers (cfg : Config) (m : SrcGlob) (x : PolicyTable × Tick) : Prop :=
  ∀ p ∈ x.1.lookup m,
    rowAfter cfg x.2 x.1 m = if p.cls ≤ 10 then none else some (p.cls - 10)

def Findable (cfg : Config) (db : PromDb) (m : SrcGlob) (now : Int) : Prop :=
  0 < cfg.activityThresholdBytes ∧ HasSeries db m now

section OneRound

variable {cfg : Config} {db : PromDb} {m : SrcGlob} {T : PolicyTable} {t : Tick}

/-- Once the documented interval has passed, the check does not hold the row
back. -/
theorem outOfBackoff_of_elapsed (hI : 0 ≤ cfg.policyBackoffInterval) {now : Int}
    {v : Option Policy} (h : ∀ p ∈ v, p.tstamp + cfg.policyBackoffInterval ≤ now) :
    OutOfBackoff cfg now v := by
  intro p hp
  have := h p hp
  unfold tooSoon
  omega

theorem mem_below5m_iff (h : IdleRound cfg db m (T, t)) :
    m ∈ createSrcGlobSet t.usage.below5m ↔ Findable cfg db m t.now := by
  have hnow : t.now - 0 * minute = t.now := by rw [Int.zero_mul, Int.sub_zero]
  rw [h.asked, getSrcGlobUsage, hnow]
  cases hvec : db.sumRate 5 t.now with
  | none => simp [createSrcGlobSet, Findable, HasSeries, hvec]
  | some vec =>
      have hzero := h.noTraffic vec hvec
      simp only [createSrcGlobSet, List.mem_toFinset, List.mem_map, List.mem_filter,
        Bool.false_eq_true, if_false, decide_eq_true_eq, Findable, HasSeries, hvec,
        Option.mem_def, Option.some.injEq, exists_eq_left']
      constructor
      · rintro ⟨s, ⟨hs, hlt⟩, hm⟩
        rw [hzero s hs hm] at hlt
        exact ⟨by exact_mod_cast hlt, s, hs, hm⟩
      · rintro ⟨hk, s, hs, hm⟩
        refine ⟨s, ⟨hs, ?_⟩, hm⟩
        rw [hzero s hs hm]
        exact_mod_cast hk

theorem lookup_step_of_findable (h : IdleRound cfg db m (T, t)) {p : Policy}
    (hp : T.lookup m = some p) (hf : Findable cfg db m t.now) :
    (step cfg T t).lookup m
      = if p.cls ≤ 10 then none else some ⟨m.src, m.glob, p.cls - 10, datetime t.now⟩ := by
  have hout : ¬tooSoon cfg t.now p := h.outOfBackoff p hp
  rw [step, lookup_tick_of_not_raise h.noRaise, if_pos ((mem_below5m_iff h).mpr hf), hp,
    decreasedRow_some p hout]

theorem lookup_step_of_not_findable (h : IdleRound cfg db m (T, t))
    (hf : ¬Findable cfg db m t.now) : (step cfg T t).lookup m = T.lookup m := by
  rw [step, lookup_tick_of_not_raise h.noRaise, if_neg (mt (mem_below5m_iff h).mp hf)]

theorem lowers_iff (h : IdleRound cfg db m (T, t)) {p : Policy} (hp : T.lookup m = some p) :
    Lowers cfg m (T, t) ↔ Findable cfg db m t.now := by
  constructor
  · intro hl
    by_contra hf
    -- the row stays, on the same rung
    have hrow := hl p hp
    rw [rowAfter, ← step, lookup_step_of_not_findable h hf, hp] at hrow
    split at hrow
    · cases hrow
    · have := Option.some.inj hrow
      simp only at this
      omega
  · intro hf q hq
    obtain rfl : p = q := Option.some.inj (hp.symm.trans hq)
    rw [rowAfter, ← step, lookup_step_of_findable h hp hf]
    split <;> rfl

/-- One rung down there are as many rounds left as rungs: none, and the row is
gone, or some, and it is not. -/
theorem rungs_left (hT : Reachable cfg T) (h : IdleRound cfg db m (T, t)) {p : Policy}
    (hp : T.lookup m = some p) (hf : Findable cfg db m t.now) {ts : List Tick}
    (hlen : ((t :: ts).length : Int) = p.cls / 10) :
    (ts = [] ∧ (step cfg T t).lookup m = none)
      ∨ ∃ p', (step cfg T t).lookup m = some p' ∧ (ts.length : Int) = p'.cls / 10 := by
  have hten := (hT.onLadder m p hp).ten_le
  rw [List.length_cons] at hlen
  push_cast at hlen
  rw [lookup_step_of_findable h hp hf]
  split
  · exact Or.inl ⟨List.length_eq_zero_iff.mp (by omega), rfl⟩
  · refine Or.inr ⟨_, rfl, ?_⟩
    simp only
    omega

end OneRound

/-! ## Down the ladder -/

section Runs

variable {cfg : Config} {db : PromDb} {m : SrcGlob}

/-- A client lowered by every round is off the ladder after as many rounds as
it stands rungs high. -/
theorem lookup_foldl_of_findable :
    ∀ {ts : List Tick} {T : PolicyTable} {p : Policy}, Reachable cfg T → T.lookup m = some p →
      (ts.length : Int) = p.cls / 10 →
      (∀ x ∈ Trace.trace (step cfg) T ts, IdleRound cfg db m x) →
      (∀ t ∈ ts, Findable cfg db m t.now) →
        (∀ x ∈ Trace.trace (step cfg) T ts, Lowers cfg m x)
          ∧ (ts.foldl (step cfg) T).lookup m = none
  | [], T, p, hT, hp, hlen, _, _ => by
      have := (hT.onLadder m p hp).ten_le
      simp only [List.length_nil, Nat.cast_zero] at hlen
      omega
  | t :: ts, T, p, hT, hp, hlen, hidle, hf => by
      have hround := hidle (T, t) (List.mem_cons_self ..)
      have hfound := hf t (List.mem_cons_self ..)
      have hfirst := (lowers_iff hround hp).mpr hfound
      rcases rungs_left hT hround hp hfound hlen with ⟨rfl, hnone⟩ | ⟨p', hp', hlen'⟩
      · refine ⟨fun x hx => ?_, hnone⟩
        obtain rfl := List.mem_singleton.mp hx
        exact hfirst
      · obtain ⟨hall, hnone⟩ := lookup_foldl_of_findable (hT.step t) hp' hlen'
          (fun x hx => hidle x (List.mem_cons_of_mem _ hx))
          (fun t' ht' => hf t' (List.mem_cons_of_mem _ ht'))
        refine ⟨fun x hx => ?_, hnone⟩
        rcases List.mem_cons.mp hx with rfl | hx
        · exact hfirst
        · exact hall x hx

theorem findable_of_lowers :
    ∀ {ts : List Tick} {T : PolicyTable} {p : Policy}, Reachable cfg T → T.lookup m = some p →
      (ts.length : Int) = p.cls / 10 →
      (∀ x ∈ Trace.trace (step cfg) T ts, IdleRound cfg db m x) →
      (∀ x ∈ Trace.trace (step cfg) T ts, Lowers cfg m x) →
        ∀ t ∈ ts, Findable cfg db m t.now
  | [], _, _, _, _, _, _, _ => fun _ ht => (List.not_mem_nil ht).elim
  | t :: ts, T, p, hT, hp, hlen, hidle, hl => by
      have hround := hidle (T, t) (List.mem_cons_self ..)
      have hfound := (lowers_iff hround hp).mp (hl (T, t) (List.mem_cons_self ..))
      intro t' ht'
      rcases List.mem_cons.mp ht' with rfl | ht'
      · exact hfound
      · rcases rungs_left hT hround hp hfound hlen with ⟨rfl, -⟩ | ⟨p', hp', hlen'⟩
        · exact (List.not_mem_nil ht').elim
        · exact findable_of_lowers (hT.step t) hp' hlen'
            (fun x hx => hidle x (List.mem_cons_of_mem _ hx))
            (fun x hx => hl x (List.mem_cons_of_mem _ hx)) t' ht'

end Runs

/-- An idle round lowers a client that has a row exactly when the threshold is
positive and Prometheus has a series for the client. So for a client on
rung `cls / 10` that many idle rounds lower it one by one and off the ladder
exactly when this holds at each of them. -/
theorem release_iff (cfg : Config) (db : PromDb) (m : SrcGlob) (T : PolicyTable)
    (hT : Reachable cfg T) (ts : List Tick)
    (hidle : ∀ x ∈ Trace.trace (step cfg) T ts, IdleRound cfg db m x) :
    (∀ x ∈ Trace.trace (step cfg) T ts, (x.1.lookup m).isSome →
        (Lowers cfg m x ↔ 0 < cfg.activityThresholdBytes ∧ HasSeries db m x.2.now))
      ∧ ∀ p, T.lookup m = some p → (ts.length : Int) = p.cls / 10 →
        (((∀ x ∈ Trace.trace (step cfg) T ts, Lowers cfg m x)
            ∧ (ts.foldl (step cfg) T).lookup m = none)
          ↔ ∀ t ∈ ts, 0 < cfg.activityThresholdBytes ∧ HasSeries db m t.now) := by
  refine ⟨fun x hx hrow => ?_, fun p hp hlen =>
    ⟨fun h => findable_of_lowers hT hp hlen hidle h.1, lookup_foldl_of_findable hT hp hlen hidle⟩⟩
  obtain ⟨p, hp⟩ := Option.isSome_iff_exists.mp hrow
  exact lowers_iff (hidle x hx) hp

/-! ## One idle client -/

def quietProm (ms : List SrcGlob) : PromDb where
  sumRate := fun _ _ => some (ms.map fun m => ⟨m.src, m.glob, 0⟩)

theorem noTraffic_quietProm (ms : List SrcGlob) (m : SrcGlob) (now : Int) :
    NoTraffic (quietProm ms) m now := by
  rintro vec hvec s hs -
  obtain rfl := Option.some.inj hvec
  obtain ⟨m', -, rfl⟩ := List.mem_map.mp hs
  rfl

def quietTick (cfg : Config) (ms : List SrcGlob) (now : Int) : Tick :=
  Tick.inOrder now (Usage.ofProm cfg (quietProm ms) now)

theorem idleRound_quietTick {cfg : Config} (hk : 0 ≤ cfg.activityThresholdBytes)
    {ms : List SrcGlob} {m : SrcGlob} {now : Int} {T : PolicyTable}
    (hout : OutOfBackoff cfg now (T.lookup m)) :
    IdleRound cfg (quietProm ms) m (T, quietTick cfg ms now) where
  asked := rfl
  noRaise := by
    rintro ⟨m', hm', -⟩
    obtain ⟨h2m, -, -⟩ := mem_getActiveGlobGroups.mp hm'
    simp only [quietTick, Tick.inOrder, Usage.ofProm, getSrcGlobUsage, quietProm, createSrcGlobSet,
      List.mem_toFinset, List.mem_map, List.mem_filter, if_true, decide_eq_true_eq] at h2m
    obtain ⟨s, ⟨⟨m'', -, rfl⟩, hlt⟩, -⟩ := h2m
    have : cfg.activityThresholdBytes < 0 := by simpa using hlt
    omega
  outOfBackoff := hout
  noTraffic := noTraffic_quietProm ms m now

theorem lookup_redditTable :
    redditTable.lookup redditClient = some ⟨redditClient.src, redditClient.glob, 10, 0⟩ := by
  decide

theorem outOfBackoff_redditTable {cfg : Config}
    (hI : cfg.policyBackoffInterval = baseConfig.policyBackoffInterval) :
    OutOfBackoff cfg (5 * minute) (redditTable.lookup redditClient) :=
  outOfBackoff_of_elapsed (by rw [hI]; decide) (by
    rw [lookup_redditTable, hI]
    intro p hp
    obtain rfl := Option.some.inj hp
    decide)

/-- The client two rungs high. -/
def redditTwice : PolicyTable := step baseConfig redditTable (busyTick redditClient (5 * minute))

def quietTwice : List Tick :=
  [quietTick baseConfig [redditClient] (10 * minute),
    quietTick baseConfig [redditClient] (15 * minute)]

theorem release_quiet_client :
    (∀ x ∈ Trace.trace (step baseConfig) redditTwice quietTwice, Lowers baseConfig redditClient x)
      ∧ (quietTwice.foldl (step baseConfig) redditTwice).lookup redditClient = none := by
  have hT : Reachable baseConfig redditTwice :=
    (Reachable.step Relation.ReflTransGen.refl (busyTick redditClient 0)).step _
  obtain ⟨-, hall⟩ := release_iff baseConfig (quietProm [redditClient]) redditClient redditTwice hT
    quietTwice fun x hx => by
      simp only [quietTwice, Trace.trace, List.mem_cons, List.not_mem_nil, or_false] at hx
      rcases hx with rfl | rfl
      · exact idleRound_quietTick (by decide) (by decide)
      · exact idleRound_quietTick (by decide) (by decide)
  refine (hall ⟨redditClient.src, redditClient.glob, 20, 5 * minute⟩ (by decide)
    (by decide)).mpr fun t ht => ⟨by decide, _, rfl, ⟨redditClient.src, redditClient.glob, 0⟩, ?_⟩
  exact ⟨List.mem_singleton.mpr rfl, rfl⟩

/-- With a threshold of zero the quiet client keeps its row, and so does, with
any threshold, a client Prometheus has no series for. -/
theorem quiet_client_held :
    (IdleRound { baseConfig with activityThresholdBytes := 0 } (quietProm [redditClient])
          redditClient
          (redditTable, quietTick { baseConfig with activityThresholdBytes := 0 } [redditClient]
            (5 * minute))
        ∧ ¬Lowers { baseConfig with activityThresholdBytes := 0 } redditClient
          (redditTable, quietTick { baseConfig with activityThresholdBytes := 0 } [redditClient]
            (5 * minute)))
      ∧ IdleRound baseConfig (quietProm []) redditClient
          (redditTable, quietTick baseConfig [] (5 * minute))
      ∧ ¬Lowers baseConfig redditClient (redditTable, quietTick baseConfig [] (5 * minute)) := by
  have hzero : IdleRound { baseConfig with activityThresholdBytes := 0 }
      (quietProm [redditClient]) redditClient (redditTable,
        quietTick { baseConfig with activityThresholdBytes := 0 } [redditClient] (5 * minute)) :=
    idleRound_quietTick (by decide) (outOfBackoff_redditTable rfl)
  have hnone : IdleRound baseConfig (quietProm []) redditClient
      (redditTable, quietTick baseConfig [] (5 * minute)) :=
    idleRound_quietTick (by decide) (outOfBackoff_redditTable rfl)
  refine ⟨⟨hzero, fun hl => ?_⟩, hnone, fun hl => ?_⟩
  · exact absurd ((lowers_iff hzero lookup_redditTable).mp hl).1 (by decide)
  · obtain ⟨vec, hvec, s, hs, -⟩ := ((lowers_iff hnone lookup_redditTable).mp hl).2
    obtain rfl := Option.some.inj hvec
    cases hs

end Nethadone
