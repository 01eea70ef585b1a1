import Nethadone.Interference

/-!
# What one pass does to the table

Each pass of the policy goes through its set in any order, with a read and
a write for each pair. Since the bodies are local, a pass is exact: it does
to the row of every pair of the set what one visit does, leaves every other
row, and raises its flag when a row changed (`exactPass_iff`). What one visit
does is the documented rule with the source's backoff check in the place of
the documented one, so the documented effect is had exactly when the two
agree on the rows the pass would change (`passes_exact_iff`).
-/

namespace Nethadone

/-! ## The documented effect -/

/-- Some sample of the vector is about the pair. -/
def OccursIn (m : SrcGlob) (vec : List Sample) : Prop :=
  ∃ v ∈ vec, v.srcIp = m.src ∧ v.glob = m.glob

def OccursInAll (u : Usage) (m : SrcGlob) : Prop :=
  OccursIn m u.above2m ∧ OccursIn m u.above2mAgo5 ∧ OccursIn m u.above5m

/-- The row was stamped less than one interval ago. -/
def Young (cfg : Config) (now : Int) (p : Policy) : Prop :=
  now < p.tstamp + cfg.policyBackoffInterval

instance (cfg : Config) (now : Int) : DecidablePred (Young cfg now) := fun _ =>
  inferInstanceAs (Decidable (_ < _))

section Rules

variable (inBackoff : Policy → Prop) [DecidablePred inBackoff] (cfg : Config) (now : Int)

def raised (m : SrcGlob) : Option Policy → Option Policy
  | none => some ⟨m.src, m.glob, 10, datetime now⟩
  | some p =>
      if inBackoff p ∨ p.cls > cfg.numQdiscClasses * 10 then some p
      else some ⟨m.src, m.glob, p.cls + 10, datetime now⟩

def lowered (m : SrcGlob) : Option Policy → Option Policy
  | none => none
  | some p =>
      if inBackoff p then some p
      else if p.cls ≤ 10 then none
      else some ⟨m.src, m.glob, p.cls - 10, datetime now⟩

end Rules

/-- An order `ToSlice` may hand out the set in. -/
structure Iterates (l : List SrcGlob) (s : Finset SrcGlob) : Prop where
  nodup : l.Nodup
  mem_iff : ∀ m, m ∈ l ↔ m ∈ s

/-- A pass over a set applies the rule to the row of each pair that occurs and
to no other row, in every order with the same table, and its flag says whether
a row was written or deleted. -/
structure ExactPass (pass : List SrcGlob → PolicyTable → PolicyTable × Bool) (s : Finset SrcGlob)
    (occurs : SrcGlob → Prop) (rule : SrcGlob → Option Policy → Option Policy)
    (T : PolicyTable) : Prop where
  row : ∀ l, Iterates l s → ∀ m, occurs m → (pass l T).1.lookup m = rule m (T.lookup m)
  frame : ∀ l, Iterates l s → ∀ m, ¬occurs m → (pass l T).1.lookup m = T.lookup m
  order : ∀ l l', Iterates l s → Iterates l' s → (pass l T).1.rows.Perm (pass l' T).1.rows
  flag : ∀ l, Iterates l s → ((pass l T).2 = true ↔ ∃ m, (pass l T).1.lookup m ≠ T.lookup m)

def ExactIncrease (inBackoff : Policy → Prop) [DecidablePred inBackoff] (cfg : Config) (now : Int)
    (u : Usage) (T : PolicyTable) : Prop :=
  ExactPass (increaseThrottling cfg now CallFaults.none) (getActiveGlobGroups u) (OccursInAll u)
    (raised inBackoff cfg now) T

def ExactDecrease (inBackoff : Policy → Prop) [DecidablePred inBackoff] (cfg : Config) (now : Int)
    (u : Usage) (T : PolicyTable) : Prop :=
  ExactPass (decreasingThrottling cfg now CallFaults.none) (createSrcGlobSet u.below5m)
    (OccursIn · u.below5m) (lowered inBackoff now) T

/-- The source's check and the documented one agree on every row that a pass
over these vectors would otherwise change. -/
def BackoffAgrees (cfg : Config) (now : Int) (u : Usage) (T : PolicyTable) : Prop :=
  (∀ m, OccursInAll u m → ∀ p ∈ T.lookup m, p.cls ≤ cfg.numQdiscClasses * 10 →
    (tooSoon cfg now p ↔ Young cfg now p))
  ∧ ∀ m, OccursIn m u.below5m → ∀ p ∈ T.lookup m, (tooSoon cfg now p ↔ Young cfg now p)

/-! ## Any pass with a local body -/

section Pass

variable {body : PolicyTable × Bool → SrcGlob → PolicyTable × Bool}
  {move : SrcGlob → Option Policy → Option Policy} {acts : SrcGlob → Option Policy → Bool}
  {s : Finset SrcGlob} {occurs : SrcGlob → Prop} {rule : SrcGlob → Option Policy → Option Policy}
  {T : PolicyTable}

/-- A pass is exact for the rule that agrees with its visits where it goes. -/
theorem exactPass_iff (h : Sweep.IsLocal (fun T : PolicyTable => T.lookup) body move acts)
    (hacts : ∀ m v, acts m v = true ↔ move m v ≠ v) (hs : ∀ m, m ∈ s ↔ occurs m) :
    ExactPass (fun l T => l.foldl body (T, false)) s occurs rule T ↔
      ∀ m, occurs m → move m (T.lookup m) = rule m (T.lookup m) := by
  have hview : ∀ l, Iterates l s → ∀ m, (l.foldl body (T, false)).1.lookup m
      = if m ∈ s then move m (T.lookup m) else T.lookup m := by
    intro l hl m
    simp only [h.foldl_view hl.nodup (T, false) m, hl.mem_iff]
  constructor
  · intro hex m hm
    have hlist : Iterates s.toList s := ⟨s.nodup_toList, fun m => Finset.mem_toList⟩
    rw [← hex.row _ hlist m hm, hview _ hlist m, if_pos ((hs m).mpr hm)]
  · intro hrule
    refine ⟨fun l hl m hm => ?_, fun l hl m hm => ?_, fun l l' hl hl' => ?_, fun l hl => ?_⟩
    · rw [hview l hl, if_pos ((hs m).mpr hm), hrule m hm]
    · rw [hview l hl, if_neg fun hmem => hm ((hs m).mp hmem)]
    · exact KeyedTable.rows_perm_of_lookup fun m => (hview l hl m).trans (hview l' hl' m).symm
    · rw [h.foldl_flag hl.nodup]
      simp only [Bool.false_eq_true, false_or, hacts, hview l hl]
      constructor
      · rintro ⟨m, hm, hne⟩
        exact ⟨m, by rwa [if_pos ((hl.mem_iff m).mp hm)]⟩
      · rintro ⟨m, hne⟩
        by_cases hm : m ∈ s
        · rw [if_pos hm] at hne
          exact ⟨m, (hl.mem_iff m).mpr hm, hne⟩
        · rw [if_neg hm] at hne
          exact absurd rfl hne

end Pass

/-! ## The two passes -/

section Passes

variable {cfg : Config} {now : Int} {u : Usage} {T : PolicyTable} {m : SrcGlob}
  {v : Option Policy}

theorem mem_createSrcGlobSet {vec : List Sample} : m ∈ createSrcGlobSet vec ↔ OccursIn m vec := by
  rw [createSrcGlobSet, List.mem_toFinset, List.mem_map, OccursIn]
  refine exists_congr fun v => and_congr_right fun _ => ?_
  rw [SrcGlob.mk.injEq]

theorem mem_getActiveGlobGroups_iff : m ∈ getActiveGlobGroups u ↔ OccursInAll u m := by
  rw [mem_getActiveGlobGroups, mem_createSrcGlobSet, mem_createSrcGlobSet, mem_createSrcGlobSet,
    OccursInAll]

theorem increaseActs_iff_ne :
    increaseActs cfg now CallFaults.none m v = true ↔
      increasedRow cfg now CallFaults.none m v ≠ v := by
  rw [increaseActs_iff]
  refine ⟨fun h heq => increasedRow_ne h (congrArg _ heq), fun hne => ?_⟩
  by_contra hno
  exact hne (increasedRow_of_not_raisable v hno)

theorem decreaseActs_iff_ne :
    decreaseActs cfg now CallFaults.none m v = true ↔
      decreasedRow cfg now CallFaults.none m v ≠ v := by
  rw [decreaseActs_iff]
  refine ⟨fun h heq => decreasedRow_ne h (congrArg _ heq), fun hne => ?_⟩
  by_contra hno
  exact hne (decreasedRow_of_not_lowerable v hno)

/-- One visit is the rule, with the source's own check for backoff. -/
theorem increasedRow_eq_raised :
    increasedRow cfg now CallFaults.none m v = raised (tooSoon cfg now) cfg now m v := by
  cases v with
  | none => rfl
  | some p => simp [increasedRow, readRow, CallFaults.none, raised]

theorem decreasedRow_eq_lowered :
    decreasedRow cfg now CallFaults.none m v = lowered (tooSoon cfg now) now m v := by
  cases v with
  | none => rfl
  | some p => simp [decreasedRow, readRow, CallFaults.none, lowered]

theorem raised_eq_iff {b b' : Policy → Prop} [DecidablePred b] [DecidablePred b'] :
    raised b cfg now m v = raised b' cfg now m v ↔
      ∀ p ∈ v, p.cls ≤ cfg.numQdiscClasses * 10 → (b p ↔ b' p) := by
  cases v with
  | none => simp [raised]
  | some p =>
      have hne : (⟨m.src, m.glob, p.cls + 10, datetime now⟩ : Policy) ≠ p := fun he => by
        have := congrArg Policy.cls he
        simp at this
      simp only [raised, Option.mem_some_iff, forall_eq']
      by_cases hmax : p.cls > cfg.numQdiscClasses * 10
      · simp only [hmax, or_true, if_true, true_iff]
        intro hle
        omega
      · by_cases hb : b p <;> by_cases hb' : b' p <;>
          simp [hmax, hb, hb', hne, hne.symm, not_lt.mp hmax]

theorem lowered_eq_iff {b b' : Policy → Prop} [DecidablePred b] [DecidablePred b'] :
    lowered b now m v = lowered b' now m v ↔ ∀ p ∈ v, (b p ↔ b' p) := by
  cases v with
  | none => simp [lowered]
  | some p =>
      have hne : (if p.cls ≤ 10 then none
          else some (⟨m.src, m.glob, p.cls - 10, datetime now⟩ : Policy)) ≠ some p := by
        split
        · simp
        · intro he
          have := congrArg Policy.cls (Option.some.inj he)
          simp at this
      simp only [lowered, Option.mem_some_iff, forall_eq']
      by_cases hb : b p <;> by_cases hb' : b' p <;> simp [hb, hb', hne, hne.symm]

variable (inBackoff : Policy → Prop) [DecidablePred inBackoff]

theorem exactIncrease_iff :
    ExactIncrease inBackoff cfg now u T ↔ ∀ m, OccursInAll u m → ∀ p ∈ T.lookup m,
      p.cls ≤ cfg.numQdiscClasses * 10 → (tooSoon cfg now p ↔ inBackoff p) := by
  refine (exactPass_iff (increaseBody_isLocal cfg now CallFaults.none)
    (fun _ _ => increaseActs_iff_ne) fun _ => mem_getActiveGlobGroups_iff).trans ?_
  simp only [increasedRow_eq_raised, raised_eq_iff]

theorem exactDecrease_iff :
    ExactDecrease inBackoff cfg now u T ↔ ∀ m, OccursIn m u.below5m → ∀ p ∈ T.lookup m,
      (tooSoon cfg now p ↔ inBackoff p) := by
  refine (exactPass_iff (decreaseBody_isLocal cfg now CallFaults.none)
    (fun _ _ => decreaseActs_iff_ne) fun _ => mem_createSrcGlobSet).trans ?_
  simp only [decreasedRow_eq_lowered, lowered_eq_iff]

end Passes

/-- Both passes are exact for the source's own check. For the documented
backoff they are exactly when the two checks agree on the rows in question. -/
theorem passes_exact_iff (cfg : Config) (now : Int) (u : Usage) (T : PolicyTable) :
    (ExactIncrease (Young cfg now) cfg now u T ∧ ExactDecrease (Young cfg now) cfg now u T
      ↔ BackoffAgrees cfg now u T) ∧
    ExactIncrease (tooSoon cfg now) cfg now u T ∧ ExactDecrease (tooSoon cfg now) cfg now u T := by
  refine ⟨and_congr (exactIncrease_iff _) (exactDecrease_iff _), ?_, ?_⟩
  · exact (exactIncrease_iff _).mpr fun _ _ _ _ _ => Iff.rfl
  · exact (exactDecrease_iff _).mpr fun _ _ _ _ => Iff.rfl

/-- The client's row is a minute old, the interval is three minutes, and the
pass raises it. -/
theorem young_row_is_raised :
    (∃ p ∈ redditTable.lookup redditClient, p.cls = 10 ∧ Young baseConfig minute p) ∧
      ((increaseThrottling baseConfig minute CallFaults.none [redditClient] redditTable).1.lookup
        redditClient).map (·.cls) = some 20 ∧
      ¬ExactIncrease (Young baseConfig minute) baseConfig minute (busyUsage redditClient)
        redditTable := by
  have hset : getActiveGlobGroups (busyUsage redditClient) = {redditClient} := by decide
  have horder : Iterates [redditClient] (getActiveGlobGroups (busyUsage redditClient)) :=
    ⟨List.nodup_singleton _, fun m => by rw [hset, List.mem_singleton, Finset.mem_singleton]⟩
  have hoccurs : OccursInAll (busyUsage redditClient) redditClient :=
    mem_getActiveGlobGroups_iff.mp (hset ▸ Finset.mem_singleton_self _)
  refine ⟨⟨⟨redditClient.src, redditClient.glob, 10, 0⟩, by decide, rfl, by decide⟩, by decide,
    fun h => ?_⟩
  have hrow := h.row _ horder _ hoccurs
  revert hrow
  decide

end Nethadone
