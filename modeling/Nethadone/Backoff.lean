import Nethadone.Interference
import Nethadone.Trace

/-!
# The backoff interval

A row's stamp is meant to keep the row still for `PolicyBackoffInterval`.
The source compares the stamp with `now + interval`, so with a clock that
never goes back the check never fires (`not_tooSoon`): a young row is
changed as readily as an old one. What the backoff law needs is therefore
exactly that no young row is due for a change when a tick comes, and that no
row is due again within the interval after the tick that changed it
(`backoff_iff`). The stamps alone do not give the second half: SQLite cuts
them to the second, and the cut is lost to the interval
(`spaced_of_respected`).
-/

namespace Nethadone

/-- Every row this round raises, lowers or deletes is at least one interval
old. -/
def BackoffRespected (cfg : Config) (x : PolicyTable × Tick) : Prop :=
  ∀ p ∈ x.1.rows, rowAfter cfg x.2 x.1 p.key ≠ some p.cls →
    p.tstamp + cfg.policyBackoffInterval ≤ x.2.now

def ChangedAt (cfg : Config) (m : SrcGlob) (x : PolicyTable × Tick) : Prop :=
  rowAfter cfg x.2 x.1 m ≠ (x.1.lookup m).map (·.cls)

/-- In a trace, whatever happens to an existing row comes at least `d` after
the round at which the same last happened to its pair. -/
def SpacedBy (d : Int) (P : SrcGlob → PolicyTable × Tick → Prop)
    (l : List (PolicyTable × Tick)) : Prop :=
  ∀ (m : SrcGlob) (pre mid post : List (PolicyTable × Tick)) (x y : PolicyTable × Tick),
    l = pre ++ x :: (mid ++ y :: post) → P m x → (∀ z ∈ mid, ¬P m z) →
      P m y → y.1.lookup m ≠ none → x.2.now + d ≤ y.2.now

def ChangesSpaced (cfg : Config) (l : List (PolicyTable × Tick)) : Prop :=
  SpacedBy cfg.policyBackoffInterval (ChangedAt cfg) l

/-- The row's pair is in all three increase vectors with a class that is not
above the maximum, or in the decrease vector while every pair in the three
increase vectors is above it. -/
def DueForChange (cfg : Config) (x : PolicyTable × Tick) (p : Policy) : Prop :=
  (p.key ∈ getActiveGlobGroups x.2.usage ∧ p.cls ≤ cfg.numQdiscClasses * 10)
  ∨ (p.key ∈ createSrcGlobSet x.2.usage.below5m ∧
      ∀ m ∈ getActiveGlobGroups x.2.usage, ∃ q ∈ x.1.lookup m, cfg.numQdiscClasses * 10 < q.cls)

/-- The pair has no row and is in all three increase vectors, or its row is due. -/
def DuePair (cfg : Config) (m : SrcGlob) (x : PolicyTable × Tick) : Prop :=
  (x.1.lookup m).elim (m ∈ getActiveGlobGroups x.2.usage) (DueForChange cfg x)

def NoYoungRowDue (cfg : Config) (x : PolicyTable × Tick) : Prop :=
  ∀ p ∈ x.1.rows, DueForChange cfg x p → p.tstamp + cfg.policyBackoffInterval ≤ x.2.now

/-- No row is due again within an interval of the round at which its pair was
last due. -/
def NoneDueAgain (cfg : Config) (l : List (PolicyTable × Tick)) : Prop :=
  SpacedBy cfg.policyBackoffInterval (DuePair cfg) l

/-! ## The check never fires -/

/-- No stamp lies in the future of any tick to come. -/
def StampsPast (T : PolicyTable) (ts : List Tick) : Prop :=
  ∀ p ∈ T.rows, ∀ t ∈ ts, p.tstamp ≤ t.now

section OneRound

variable {cfg : Config} {T : PolicyTable} {t : Tick} {m : SrcGlob}

theorem not_tooSoon (hI : 0 < cfg.policyBackoffInterval) {p : Policy} (h : p.tstamp ≤ t.now) :
    ¬tooSoon cfg t.now p := by
  unfold tooSoon
  omega

theorem someRaise_iff (hI : 0 < cfg.policyBackoffInterval)
    (hpast : ∀ p ∈ T.rows, p.tstamp ≤ t.now) :
    SomeRaise cfg t T ↔ ¬∀ m ∈ getActiveGlobGroups t.usage,
      ∃ q ∈ T.lookup m, cfg.numQdiscClasses * 10 < q.cls := by
  have hrow : ∀ m, Raisable cfg t.now (T.lookup m)
      ↔ ¬∃ q ∈ T.lookup m, cfg.numQdiscClasses * 10 < q.cls := by
    intro m
    constructor
    · rintro h ⟨q, hq, hlt⟩
      have := (h q hq).2
      omega
    · intro h q hq
      exact ⟨not_tooSoon hI (hpast q (KeyedTable.lookup_eq_some.mp hq).1),
        not_lt.mp fun hlt => h ⟨q, hq, hlt⟩⟩
  simp only [SomeRaise, hrow, not_forall, exists_prop]

theorem rowAfter_ne_iff_due (hI : 0 < cfg.policyBackoffInterval)
    (hpast : ∀ p ∈ T.rows, p.tstamp ≤ t.now) {p : Policy} (hp : p ∈ T.rows) :
    rowAfter cfg t T p.key ≠ some p.cls ↔ DueForChange cfg (T, t) p := by
  have hlook : T.lookup p.key = some p := KeyedTable.lookup_key hp
  have hout : ¬tooSoon cfg t.now p := not_tooSoon hI (hpast p hp)
  have hraise : Raisable cfg t.now (some p) ↔ p.cls ≤ cfg.numQdiscClasses * 10 := by
    simp [Raisable, hout]
  have hcls : some p.cls = (T.lookup p.key).map (·.cls) := by rw [hlook]; rfl
  rw [hcls]
  by_cases hr : SomeRaise cfg t T
  · have hno := (someRaise_iff hI hpast).mp hr
    rw [rowAfter_of_raise hr, DueForChange]
    simp only [hno, and_false, or_false]
    split
    · rename_i hm
      by_cases hle : p.cls ≤ cfg.numQdiscClasses * 10
      · simp only [hm, hle, and_self, iff_true]
        exact increasedRow_ne (hlook ▸ hraise.mpr hle)
      · simp only [hle, and_false, iff_false, not_not]
        rw [increasedRow_of_not_raisable]
        rw [hlook, hraise]
        exact hle
    · rename_i hm
      simp [hm]
  · have hall := not_not.mp fun h => hr ((someRaise_iff hI hpast).mpr h)
    rw [rowAfter_ne_iff hr, DueForLowering, DueForChange]
    have hlow : Lowerable cfg t.now (T.lookup p.key) := ⟨p, hlook, hout⟩
    -- a pair that could be raised would have been
    have hact : ¬(p.key ∈ getActiveGlobGroups t.usage ∧ p.cls ≤ cfg.numQdiscClasses * 10) := by
      rintro ⟨hm, hle⟩
      exact hr ⟨p.key, hm, hlook ▸ hraise.mpr hle⟩
    simp only [hlow, and_true, hact, false_or]
    exact ⟨fun h => ⟨h, hall⟩, fun h => h.1⟩

theorem backoffRespected_iff (hI : 0 < cfg.policyBackoffInterval)
    (hpast : ∀ p ∈ T.rows, p.tstamp ≤ t.now) :
    BackoffRespected cfg (T, t) ↔ NoYoungRowDue cfg (T, t) :=
  forall₂_congr fun _ hp => imp_congr_left (rowAfter_ne_iff_due hI hpast hp)

theorem rowAfter_ne_iff_active (hrow : T.lookup m = none) :
    rowAfter cfg t T m ≠ none ↔ m ∈ getActiveGlobGroups t.usage := by
  by_cases hm : m ∈ getActiveGlobGroups t.usage
  · have hr : SomeRaise cfg t T := ⟨m, hm, fun p hp => by rw [hrow] at hp; cases hp⟩
    rw [rowAfter_of_raise hr, if_pos hm, hrow, increasedRow_none]
    simp [hm]
  · simp only [hm, iff_false, not_not]
    by_cases hr : SomeRaise cfg t T
    · rw [rowAfter_of_raise hr, if_neg hm, hrow]
      rfl
    · rw [rowAfter_of_not_raise hr, hrow]
      split <;> rfl

/-- A round changes exactly the pairs that are due. -/
theorem changedAt_iff_duePair (hI : 0 < cfg.policyBackoffInterval)
    (hpast : ∀ p ∈ T.rows, p.tstamp ≤ t.now) :
    ChangedAt cfg m (T, t) ↔ DuePair cfg m (T, t) := by
  cases hrow : T.lookup m with
  | none =>
      simp only [ChangedAt, DuePair, hrow]
      exact rowAfter_ne_iff_active hrow
  | some p =>
      obtain ⟨hp, rfl⟩ := KeyedTable.lookup_eq_some.mp hrow
      simp only [ChangedAt, DuePair, hrow]
      exact rowAfter_ne_iff_due hI hpast hp

/-! ## Stamps -/

theorem mem_lookup_step {m : SrcGlob} {p : Policy} (h : p ∈ (step cfg T t).lookup m) :
    p ∈ T.lookup m ∨ p.tstamp = datetime t.now := by
  have hnew : ∀ {cls : Int}, p ∈ some (⟨m.src, m.glob, cls, datetime t.now⟩ : Policy) →
      p.tstamp = datetime t.now := fun hp => by
    obtain rfl := Option.some.inj hp
    rfl
  rcases pollPolicyCheck_lookup_cases cfg TickFaults.none t T m with hc | hc | hc
  · exact Or.inl (hc ▸ h)
  · rcases increasedRow_cases cfg t.now CallFaults.none m (T.lookup m)
      with hv | hv | ⟨q, -, -, -, hv⟩
    · exact Or.inl (hv ▸ hc ▸ h)
    · exact Or.inr (hnew (hv ▸ hc ▸ h))
    · exact Or.inr (hnew (hv ▸ hc ▸ h))
  · rcases decreasedRow_cases cfg t.now CallFaults.none m (T.lookup m)
      with hv | ⟨q, -, -, -, hv⟩ | ⟨q, -, -, -, hv⟩
    · exact Or.inl (hv ▸ hc ▸ h)
    · have hnone : p ∈ (none : Option Policy) := hv ▸ hc ▸ h
      cases hnone
    · exact Or.inr (hnew (hv ▸ hc ▸ h))

theorem lookup_step_of_not_changedAt {m : SrcGlob} (h : ¬ChangedAt cfg m (T, t)) :
    (step cfg T t).lookup m = T.lookup m := by
  have heq := not_not.mp h
  unfold step
  by_cases hr : SomeRaise cfg t T
  · rw [rowAfter_of_raise hr] at heq
    rw [lookup_tick_of_raise hr]
    split
    · rename_i hm
      rw [if_pos hm] at heq
      exact increasedRow_of_not_raisable _ fun hv => increasedRow_ne hv heq
    · rfl
  · rw [rowAfter_of_not_raise hr] at heq
    rw [lookup_tick_of_not_raise hr]
    split
    · rename_i hm
      rw [if_pos hm] at heq
      exact decreasedRow_of_not_lowerable _ fun hv => decreasedRow_ne hv heq
    · rfl

theorem StampsPast.step {ts : List Tick} (h : StampsPast T (t :: ts))
    (hclock : (t :: ts).Pairwise fun a b => a.now ≤ b.now) : StampsPast (step cfg T t) ts := by
  intro p hp t' ht'
  rcases mem_lookup_step (KeyedTable.lookup_key hp) with hold | hnew
  · exact h p (KeyedTable.lookup_eq_some.mp hold).1 t' (List.mem_cons_of_mem _ ht')
  · calc p.tstamp = datetime t.now := hnew
      _ ≤ t.now := datetime_le t.now
      _ ≤ t'.now := (List.pairwise_cons.mp hclock).1 t' ht'

end OneRound

/-! ## Whole runs -/

section Runs

variable {cfg : Config} {T : PolicyTable} {ts : List Tick}

theorem forall_trace_past (hpast : StampsPast T ts)
    (hclock : ts.Pairwise fun a b => a.now ≤ b.now) :
    ∀ x ∈ Trace.trace (step cfg) T ts, ∀ p ∈ x.1.rows, p.tstamp ≤ x.2.now := by
  intro x hx p hp
  obtain ⟨rest, hI, -⟩ := Trace.forall_trace
    (I := fun T ts => StampsPast T ts ∧ ts.Pairwise fun a b => a.now ≤ b.now)
    (fun _ _ _ h => ⟨h.1.step h.2, (List.pairwise_cons.mp h.2).2⟩) ⟨hpast, hclock⟩ x hx
  exact hI p hp x.2 (List.mem_cons_self ..)

theorem SpacedBy.congr {d : Int} {P Q : SrcGlob → PolicyTable × Tick → Prop}
    {l : List (PolicyTable × Tick)} (h : ∀ m, ∀ x ∈ l, P m x ↔ Q m x) :
    SpacedBy d P l ↔ SpacedBy d Q l := by
  refine forall_congr' fun m => forall₅_congr fun pre mid post x y => forall_congr' fun hl => ?_
  have hx : x ∈ l := by simp [hl]
  have hy : y ∈ l := by simp [hl]
  have hmid : ∀ z ∈ mid, z ∈ l := fun z hz => by simp [hl, hz]
  rw [h m x hx, h m y hy, forall₂_congr fun z hz => not_congr (h m z (hmid z hz))]

/-- A run that respects the stamps keeps the changes of a row apart, short of
the part of a second its stamp has lost: the row a later change finds is the
one the earlier change stamped. -/
theorem spaced_of_respected (h : ∀ x ∈ Trace.trace (step cfg) T ts, BackoffRespected cfg x) :
    SpacedBy (cfg.policyBackoffInterval - second + 1) (ChangedAt cfg)
      (Trace.trace (step cfg) T ts) := by
  intro m pre mid post x y hl hx hmid hy hrow
  have hpost := Trace.trace_eq_append_cons hl
  have hview : y.1.lookup m = (step cfg x.1 x.2).lookup m :=
    Trace.view_of_still (fun T : PolicyTable => T.lookup m) hpost.symm
      fun z hz => lookup_step_of_not_changedAt (hmid z hz)
  obtain ⟨p, hp⟩ := Option.ne_none_iff_exists'.mp hrow
  have hstamp : p.tstamp = datetime x.2.now := by
    have hrow' : p ∈ (step cfg x.1 x.2).lookup m := hview ▸ hp
    rcases mem_lookup_step hrow' with hold | hnew
    · refine absurd ?_ hx
      rw [rowAfter, ← step, ← hview, hp, Option.mem_def.mp hold]
    · exact hnew
  have hmem : y ∈ Trace.trace (step cfg) T ts := by
    rw [hl]; simp
  obtain ⟨hrows, hkey⟩ := KeyedTable.lookup_eq_some.mp hp
  have hold : p.tstamp + cfg.policyBackoffInterval ≤ y.2.now := by
    refine h y hmem p hrows ?_
    rw [ChangedAt, hp] at hy
    rw [hkey]
    exact hy
  have hcut : x.2.now < datetime x.2.now + second := by
    unfold datetime second
    omega
  omega

/-- In every run with a clock that never goes back, from rows stamped in the
past, the backoff law holds exactly when no round finds a young row due for a
change, nor a row due again too early. -/
theorem backoff_iff (cfg : Config) (hI : 0 < cfg.policyBackoffInterval) (T : PolicyTable)
    (ts : List Tick) (hpast : StampsPast T ts)
    (hclock : ts.Pairwise fun a b => a.now ≤ b.now) :
    ((∀ x ∈ Trace.trace (step cfg) T ts, BackoffRespected cfg x)
        ∧ ChangesSpaced cfg (Trace.trace (step cfg) T ts))
      ↔ (∀ x ∈ Trace.trace (step cfg) T ts, NoYoungRowDue cfg x)
        ∧ NoneDueAgain cfg (Trace.trace (step cfg) T ts) := by
  have hold : ∀ x ∈ Trace.trace (step cfg) T ts, ∀ p ∈ x.1.rows, p.tstamp ≤ x.2.now :=
    forall_trace_past hpast hclock
  refine and_congr ?_ (SpacedBy.congr fun m x hx => changedAt_iff_duePair hI (hold x hx))
  exact forall₂_congr fun x hx => backoffRespected_iff hI (hold x hx)

end Runs

theorem backoff_five_minutes :
    ((∀ x ∈ Trace.trace (step baseConfig) KeyedTable.empty
          [busyTick redditClient 0, busyTick redditClient (5 * minute)],
        BackoffRespected baseConfig x)
        ∧ ChangesSpaced baseConfig (Trace.trace (step baseConfig) KeyedTable.empty
          [busyTick redditClient 0, busyTick redditClient (5 * minute)]))
      ↔ (∀ x ∈ Trace.trace (step baseConfig) KeyedTable.empty
          [busyTick redditClient 0, busyTick redditClient (5 * minute)],
        NoYoungRowDue baseConfig x)
        ∧ NoneDueAgain baseConfig (Trace.trace (step baseConfig) KeyedTable.empty
          [busyTick redditClient 0, busyTick redditClient (5 * minute)]) :=
  backoff_iff baseConfig (by decide) _ _ (by intro p hp; cases hp) (by decide)

/-- With an interval of three minutes, a client busy at two rounds one minute
apart is raised by both. -/
theorem raised_after_one_minute :
    ¬∀ x ∈ Trace.trace (step baseConfig) KeyedTable.empty
        [busyTick redditClient 0, busyTick redditClient minute], BackoffRespected baseConfig x := by
  intro h
  have hyoung := h (redditTable, busyTick redditClient minute) (by simp [Trace.trace, redditTable])
    ⟨redditClient.src, redditClient.glob, 10, 0⟩ (by decide) (by decide)
  revert hyoung
  decide

end Nethadone
