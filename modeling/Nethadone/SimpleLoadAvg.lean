import Mathlib.Data.Finset.Basic
import Mathlib.Data.Finset.Dedup
import Mathlib.Logic.Relation
import Nethadone.Database
import Nethadone.Sweep

/-!
# The SimpleLoadAverage policy

`policy/simpleloadavg.go`: one tick asks Prometheus for the busy pairs,
raises them one rung, and — only if nothing was raised — lowers the idle
ones. A tick happens at one instant `now`; what the four Prometheus
queries answered is an input of the tick, so nothing is assumed about how
the answers relate.

Both loops go through a set whose slice comes in no particular order. The
bodies are local to their pair (`increaseBody_isLocal`,
`decreaseBody_isLocal`), so everything the rest of the development needs
is said pair by pair: `lookup_tick_of_raise` and `lookup_tick_of_not_raise`
give the row after a tick from the row before it, `tick_changed` the
returned flag.
-/

namespace Nethadone

/-! ## The sets of pairs -/

/-- The answers to the four calls of `GetSrcGlobUsage` in one tick, named by
rate, offset and direction of the comparison. -/
structure Usage where
  above2m : List Sample
  above2mAgo5 : List Sample
  above5m : List Sample
  below5m : List Sample

def Usage.ofProm (cfg : Config) (db : PromDb) (now : Int) : Usage where
  above2m := getSrcGlobUsage db 2 0 cfg.activityThresholdBytes true now
  above2mAgo5 := getSrcGlobUsage db 2 5 cfg.activityThresholdBytes true now
  above5m := getSrcGlobUsage db 5 0 cfg.activityThresholdBytes true now
  below5m := getSrcGlobUsage db 5 0 cfg.activityThresholdBytes false now

def createSrcGlobSet (vec : List Sample) : Finset SrcGlob :=
  (vec.map fun v => { src := v.srcIp, glob := v.glob }).toFinset

def getActiveGlobGroups (u : Usage) : Finset SrcGlob :=
  let s1 := createSrcGlobSet u.above2m
  let s2 := createSrcGlobSet u.above2mAgo5
  let s3 := createSrcGlobSet u.above5m
  let s12 := s1 ∩ s2
  s3 ∩ s12

/-- One run of the policy check: when it happens, what Prometheus answers,
and the order in which `ToSlice` hands out the two sets. -/
structure Tick where
  now : Int
  usage : Usage
  incSlice : List SrcGlob
  decSlice : List SrcGlob
  incSlice_nodup : incSlice.Nodup
  decSlice_nodup : decSlice.Nodup
  mem_incSlice : ∀ m, m ∈ incSlice ↔ m ∈ getActiveGlobGroups usage
  mem_decSlice : ∀ m, m ∈ decSlice ↔ m ∈ createSrcGlobSet usage.below5m

def Tick.inOrder (now : Int) (u : Usage) : Tick where
  now := now
  usage := u
  incSlice := ((u.above5m.map fun v => ⟨v.srcIp, v.glob⟩).filter
    (· ∈ getActiveGlobGroups u)).dedup
  decSlice := (u.below5m.map fun v => ⟨v.srcIp, v.glob⟩).dedup
  incSlice_nodup := List.nodup_dedup _
  decSlice_nodup := List.nodup_dedup _
  mem_incSlice := fun m => by
    rw [List.mem_dedup, List.mem_filter, decide_eq_true_eq, and_iff_right_iff_imp]
    intro hm
    exact List.mem_toFinset.mp (Finset.mem_inter.mp hm).1
  mem_decSlice := fun m => by
    rw [List.mem_dedup, createSrcGlobSet, List.mem_toFinset]

/-! ## The loops -/

structure CallFaults where
  getPolicy : SrcGlob → Bool
  updatePolicy : SrcGlob → Bool
  deletePolicy : SrcGlob → Bool

def CallFaults.none : CallFaults := ⟨fun _ => false, fun _ => false, fun _ => false⟩

/-- `p.Tstamp.After(time.Now().Add(PolicyBackoffInterval))`. -/
def tooSoon (cfg : Config) (now : Int) (p : Policy) : Prop :=
  now + cfg.policyBackoffInterval < p.tstamp

instance (cfg : Config) (now : Int) (p : Policy) : Decidable (tooSoon cfg now p) :=
  inferInstanceAs (Decidable (_ < _))

def increaseBody (cfg : Config) (now : Int) (f : CallFaults) :
    PolicyTable × Bool → SrcGlob → PolicyTable × Bool
  | (T, changed), m =>
      match getPolicy (f.getPolicy m) T m.src m.glob with
      | none =>
          let (T', err) := updatePolicy (f.updatePolicy m) T m.src m.glob 10 now
          if err then (T', changed) else (T', true)
      | some p =>
          if tooSoon cfg now p then (T, changed)
          else if p.cls > cfg.numQdiscClasses * 10 then (T, changed)
          -- the error of this write is dropped
          else ((updatePolicy (f.updatePolicy m) T m.src m.glob (p.cls + 10) now).1, true)

def increaseThrottling (cfg : Config) (now : Int) (f : CallFaults) (s : List SrcGlob)
    (T : PolicyTable) : PolicyTable × Bool :=
  s.foldl (increaseBody cfg now f) (T, false)

def decreaseBody (cfg : Config) (now : Int) (f : CallFaults) :
    PolicyTable × Bool → SrcGlob → PolicyTable × Bool
  | (T, changed), m =>
      match getPolicy (f.getPolicy m) T m.src m.glob with
      | none => (T, changed)
      | some p =>
          if tooSoon cfg now p then (T, changed)
          else if p.cls ≤ 10 then ((deletePolicy (f.deletePolicy m) T m.src m.glob).1, true)
          else ((updatePolicy (f.updatePolicy m) T m.src m.glob (p.cls - 10) now).1, true)

def decreasingThrottling (cfg : Config) (now : Int) (f : CallFaults) (s : List SrcGlob)
    (T : PolicyTable) : PolicyTable × Bool :=
  s.foldl (decreaseBody cfg now f) (T, false)

structure TickFaults where
  inc : CallFaults
  dec : CallFaults

def TickFaults.none : TickFaults := ⟨CallFaults.none, CallFaults.none⟩

/-- One round of `pollPolicyCheck`: the table after it, and whether the rules
are to be reapplied. `||` does not evaluate its right side when the left
one is true. -/
def pollPolicyCheck (cfg : Config) (f : TickFaults) (t : Tick) (T : PolicyTable) :
    PolicyTable × Bool :=
  let (T₁, changed) := increaseThrottling cfg t.now f.inc t.incSlice T
  if changed then (T₁, true)
  else decreasingThrottling cfg t.now f.dec t.decSlice T₁

/-- A round in which every database call succeeds. -/
def tick (cfg : Config) (t : Tick) (T : PolicyTable) : PolicyTable × Bool :=
  pollPolicyCheck cfg TickFaults.none t T

/-! ## What the loops do to one pair -/

def readRow (f : CallFaults) (m : SrcGlob) (v : Option Policy) : Option Policy :=
  if f.getPolicy m then none else v

/-- The row of a pair after the increase loop has visited it. -/
def increasedRow (cfg : Config) (now : Int) (f : CallFaults) (m : SrcGlob)
    (v : Option Policy) : Option Policy :=
  match readRow f m v with
  | none => if f.updatePolicy m then v else some ⟨m.src, m.glob, 10, datetime now⟩
  | some p =>
      if tooSoon cfg now p ∨ p.cls > cfg.numQdiscClasses * 10 ∨ f.updatePolicy m then v
      else some ⟨m.src, m.glob, p.cls + 10, datetime now⟩

def increaseActs (cfg : Config) (now : Int) (f : CallFaults) (m : SrcGlob)
    (v : Option Policy) : Bool :=
  match readRow f m v with
  | none => !f.updatePolicy m
  | some p => decide (¬tooSoon cfg now p ∧ ¬p.cls > cfg.numQdiscClasses * 10)

def decreasedRow (cfg : Config) (now : Int) (f : CallFaults) (m : SrcGlob)
    (v : Option Policy) : Option Policy :=
  match readRow f m v with
  | none => v
  | some p =>
      if tooSoon cfg now p then v
      else if p.cls ≤ 10 then (if f.deletePolicy m then v else none)
      else if f.updatePolicy m then v
      else some ⟨m.src, m.glob, p.cls - 10, datetime now⟩

def decreaseActs (cfg : Config) (now : Int) (f : CallFaults) (m : SrcGlob)
    (v : Option Policy) : Bool :=
  match readRow f m v with
  | none => false
  | some p => decide (¬tooSoon cfg now p)

theorem getPolicy_eq (f : CallFaults) (T : PolicyTable) (m : SrcGlob) :
    getPolicy (f.getPolicy m) T m.src m.glob = readRow f m (T.lookup m) := rfl

theorem mem_of_readRow {f : CallFaults} {m : SrcGlob} {v : Option Policy} {p : Policy}
    (h : readRow f m v = some p) : p ∈ v := by
  unfold readRow at h
  split at h
  · cases h
  · exact h

/-- All that one visit of the increase loop can do to a row, failures
included. -/
theorem increasedRow_cases (cfg : Config) (now : Int) (f : CallFaults) (m : SrcGlob)
    (v : Option Policy) :
    increasedRow cfg now f m v = v
      ∨ increasedRow cfg now f m v = some ⟨m.src, m.glob, 10, datetime now⟩
      ∨ ∃ p ∈ v, ¬tooSoon cfg now p ∧ p.cls ≤ cfg.numQdiscClasses * 10
          ∧ increasedRow cfg now f m v = some ⟨m.src, m.glob, p.cls + 10, datetime now⟩ := by
  unfold increasedRow
  cases hr : readRow f m v with
  | none =>
      simp only
      split
      · exact Or.inl rfl
      · exact Or.inr (Or.inl rfl)
  | some p =>
      simp only
      split
      · exact Or.inl rfl
      · rename_i hgo
        simp only [not_or, not_lt] at hgo
        exact Or.inr (Or.inr ⟨p, mem_of_readRow hr, hgo.1, hgo.2.1, rfl⟩)

/-- All that one visit of the decrease loop can do to a row. -/
theorem decreasedRow_cases (cfg : Config) (now : Int) (f : CallFaults) (m : SrcGlob)
    (v : Option Policy) :
    decreasedRow cfg now f m v = v
      ∨ (∃ p ∈ v, ¬tooSoon cfg now p ∧ p.cls ≤ 10 ∧ decreasedRow cfg now f m v = none)
      ∨ ∃ p ∈ v, ¬tooSoon cfg now p ∧ ¬p.cls ≤ 10
          ∧ decreasedRow cfg now f m v = some ⟨m.src, m.glob, p.cls - 10, datetime now⟩ := by
  unfold decreasedRow
  cases hr : readRow f m v with
  | none => exact Or.inl rfl
  | some p =>
      have hp : p ∈ v := mem_of_readRow hr
      simp only
      by_cases hs : tooSoon cfg now p
      · rw [if_pos hs]
        exact Or.inl rfl
      · rw [if_neg hs]
        by_cases hmin : p.cls ≤ 10
        · rw [if_pos hmin]
          split
          · exact Or.inl rfl
          · exact Or.inr (Or.inl ⟨p, hp, hs, hmin, rfl⟩)
        · rw [if_neg hmin]
          split
          · exact Or.inl rfl
          · exact Or.inr (Or.inr ⟨p, hp, hs, hmin, rfl⟩)

theorem lookup_updatePolicy (fails : Bool) (T : PolicyTable) (m m' : SrcGlob) (cls now : Int) :
    (updatePolicy fails T m.src m.glob cls now).1.lookup m'
      = if fails = true ∨ m ≠ m' then T.lookup m'
        else some ⟨m.src, m.glob, cls, datetime now⟩ := by
  unfold updatePolicy
  cases fails with
  | true => simp
  | false =>
      simp only [Bool.false_eq_true, if_false, false_or, ite_not]
      exact KeyedTable.lookup_upsert T _ m'

theorem lookup_deletePolicy (fails : Bool) (T : PolicyTable) (m m' : SrcGlob) :
    (deletePolicy fails T m.src m.glob).1.lookup m'
      = if fails = true ∨ m ≠ m' then T.lookup m' else none := by
  unfold deletePolicy
  cases fails with
  | true => simp
  | false =>
      simp only [Bool.false_eq_true, if_false, false_or, ite_not]
      exact KeyedTable.lookup_erase T m m'

theorem increaseBody_isLocal (cfg : Config) (now : Int) (f : CallFaults) :
    Sweep.IsLocal (fun T : PolicyTable => T.lookup) (increaseBody cfg now f)
      (increasedRow cfg now f) (increaseActs cfg now f) where
  self := by
    rintro ⟨T, b⟩ m
    simp only [increaseBody, getPolicy_eq, increasedRow]
    cases readRow f m (T.lookup m) with
    | none =>
        simp only [apply_ite Prod.fst, ite_self, lookup_updatePolicy]
        simp
    | some p =>
        by_cases hs : tooSoon cfg now p
        · simp [hs]
        · by_cases hm : p.cls > cfg.numQdiscClasses * 10
          · simp [hs, hm]
          · simp [hs, hm, lookup_updatePolicy]
  other := by
    rintro ⟨T, b⟩ m m' hne
    simp only [increaseBody, getPolicy_eq]
    cases readRow f m (T.lookup m) with
    | none =>
        simp only [apply_ite Prod.fst, ite_self, lookup_updatePolicy]
        rw [if_pos (Or.inr hne.symm)]
    | some p =>
        by_cases hs : tooSoon cfg now p
        · simp [hs]
        · by_cases hm : p.cls > cfg.numQdiscClasses * 10
          · simp [hs, hm]
          · simp [hs, hm, lookup_updatePolicy, hne.symm]
  flag := by
    rintro ⟨T, b⟩ m
    simp only [increaseBody, getPolicy_eq, increaseActs]
    cases readRow f m (T.lookup m) with
    | none => cases hf : f.updatePolicy m <;> simp [updatePolicy]
    | some p =>
        by_cases hs : tooSoon cfg now p
        · simp [hs]
        · by_cases hm : p.cls > cfg.numQdiscClasses * 10 <;> simp [hs, hm]
  still := by
    rintro ⟨T, b⟩ m hacts
    simp only [increaseActs] at hacts
    simp only [increaseBody, getPolicy_eq]
    cases hr : readRow f m (T.lookup m) with
    | none =>
        rw [hr] at hacts
        have hf : f.updatePolicy m = true := by simpa using hacts
        simp [updatePolicy, hf]
    | some p =>
        rw [hr] at hacts
        simp only [decide_eq_false_iff_not, not_and_or, not_not] at hacts
        rcases hacts with hs | hm
        · simp [hs]
        · by_cases hs : tooSoon cfg now p <;> simp [hs, hm]

theorem decreaseBody_isLocal (cfg : Config) (now : Int) (f : CallFaults) :
    Sweep.IsLocal (fun T : PolicyTable => T.lookup) (decreaseBody cfg now f)
      (decreasedRow cfg now f) (decreaseActs cfg now f) where
  self := by
    rintro ⟨T, b⟩ m
    simp only [decreaseBody, getPolicy_eq, decreasedRow]
    cases readRow f m (T.lookup m) with
    | none => rfl
    | some p =>
        by_cases hs : tooSoon cfg now p
        · simp [hs]
        · by_cases hm : p.cls ≤ 10
          · simp [hs, hm, lookup_deletePolicy]
          · simp [hs, hm, lookup_updatePolicy]
  other := by
    rintro ⟨T, b⟩ m m' hne
    simp only [decreaseBody, getPolicy_eq]
    cases readRow f m (T.lookup m) with
    | none => rfl
    | some p =>
        by_cases hs : tooSoon cfg now p
        · simp [hs]
        · by_cases hm : p.cls ≤ 10
          · simp [hs, hm, lookup_deletePolicy, hne.symm]
          · simp [hs, hm, lookup_updatePolicy, hne.symm]
  flag := by
    rintro ⟨T, b⟩ m
    simp only [decreaseBody, getPolicy_eq, decreaseActs]
    cases readRow f m (T.lookup m) with
    | none => simp
    | some p =>
        by_cases hs : tooSoon cfg now p
        · simp [hs]
        · by_cases hm : p.cls ≤ 10 <;> simp [hs, hm]
  still := by
    rintro ⟨T, b⟩ m hacts
    simp only [decreaseActs] at hacts
    simp only [decreaseBody, getPolicy_eq]
    cases hr : readRow f m (T.lookup m) with
    | none => rfl
    | some p =>
        rw [hr] at hacts
        have hs : tooSoon cfg now p := by simpa using hacts
        simp [hs]

/-! ## The two passes, pair by pair -/

section Passes

variable {cfg : Config} {f : TickFaults} {t : Tick} {T : PolicyTable}

def RaisesAny (cfg : Config) (f : TickFaults) (t : Tick) (T : PolicyTable) : Prop :=
  ∃ m ∈ getActiveGlobGroups t.usage, increaseActs cfg t.now f.inc m (T.lookup m) = true

theorem lookup_increaseThrottling (m : SrcGlob) :
    (increaseThrottling cfg t.now f.inc t.incSlice T).1.lookup m
      = if m ∈ getActiveGlobGroups t.usage then increasedRow cfg t.now f.inc m (T.lookup m)
        else T.lookup m := by
  simp only [increaseThrottling,
    (increaseBody_isLocal cfg t.now f.inc).foldl_view t.incSlice_nodup (T, false) m,
    t.mem_incSlice]

theorem increaseThrottling_changed :
    (increaseThrottling cfg t.now f.inc t.incSlice T).2 = true ↔ RaisesAny cfg f t T := by
  rw [increaseThrottling,
    (increaseBody_isLocal cfg t.now f.inc).foldl_flag t.incSlice_nodup (T, false)]
  simp only [Bool.false_eq_true, false_or, RaisesAny, t.mem_incSlice]

theorem increaseThrottling_still (h : ¬RaisesAny cfg f t T) :
    increaseThrottling cfg t.now f.inc t.incSlice T = (T, false) :=
  (increaseBody_isLocal cfg t.now f.inc).foldl_still (T, false) fun m hm =>
    Bool.eq_false_iff.mpr fun hacts => h ⟨m, (t.mem_incSlice m).mp hm, hacts⟩

theorem lookup_decreasingThrottling (m : SrcGlob) :
    (decreasingThrottling cfg t.now f.dec t.decSlice T).1.lookup m
      = if m ∈ createSrcGlobSet t.usage.below5m then decreasedRow cfg t.now f.dec m (T.lookup m)
        else T.lookup m := by
  simp only [decreasingThrottling,
    (decreaseBody_isLocal cfg t.now f.dec).foldl_view t.decSlice_nodup (T, false) m,
    t.mem_decSlice]

theorem decreasingThrottling_changed :
    (decreasingThrottling cfg t.now f.dec t.decSlice T).2 = true ↔
      ∃ m ∈ createSrcGlobSet t.usage.below5m,
        decreaseActs cfg t.now f.dec m (T.lookup m) = true := by
  rw [decreasingThrottling,
    (decreaseBody_isLocal cfg t.now f.dec).foldl_flag t.decSlice_nodup (T, false)]
  simp only [Bool.false_eq_true, false_or, t.mem_decSlice]

theorem decreasingThrottling_still
    (h : (decreasingThrottling cfg t.now f.dec t.decSlice T).2 ≠ true) :
    decreasingThrottling cfg t.now f.dec t.decSlice T = (T, false) :=
  (decreaseBody_isLocal cfg t.now f.dec).foldl_still (T, false) fun m hm =>
    Bool.eq_false_iff.mpr fun hacts =>
      h (decreasingThrottling_changed.mpr ⟨m, (t.mem_decSlice m).mp hm, hacts⟩)

/-! ## The round -/

theorem pollPolicyCheck_of_raises (h : RaisesAny cfg f t T) :
    pollPolicyCheck cfg f t T
      = ((increaseThrottling cfg t.now f.inc t.incSlice T).1, true) := by
  unfold pollPolicyCheck
  simp only [increaseThrottling_changed.mpr h, if_true]

theorem pollPolicyCheck_of_not_raises (h : ¬RaisesAny cfg f t T) :
    pollPolicyCheck cfg f t T = decreasingThrottling cfg t.now f.dec t.decSlice T := by
  unfold pollPolicyCheck
  simp only [increaseThrottling_still h, Bool.false_eq_true, if_false]

theorem lookup_of_raises (h : RaisesAny cfg f t T) (m : SrcGlob) :
    (pollPolicyCheck cfg f t T).1.lookup m
      = if m ∈ getActiveGlobGroups t.usage then increasedRow cfg t.now f.inc m (T.lookup m)
        else T.lookup m := by
  rw [pollPolicyCheck_of_raises h, lookup_increaseThrottling]

theorem lookup_of_not_raises (h : ¬RaisesAny cfg f t T) (m : SrcGlob) :
    (pollPolicyCheck cfg f t T).1.lookup m
      = if m ∈ createSrcGlobSet t.usage.below5m then decreasedRow cfg t.now f.dec m (T.lookup m)
        else T.lookup m := by
  rw [pollPolicyCheck_of_not_raises h, lookup_decreasingThrottling]

theorem pollPolicyCheck_still (h : (pollPolicyCheck cfg f t T).2 ≠ true) :
    (pollPolicyCheck cfg f t T).1 = T := by
  by_cases hr : RaisesAny cfg f t T
  · rw [pollPolicyCheck_of_raises hr] at h
    exact absurd rfl h
  · rw [pollPolicyCheck_of_not_raises hr] at h ⊢
    rw [decreasingThrottling_still h]

/-- Every row after a round is the row before it, or that row after one
visit of one of the two loops. -/
theorem pollPolicyCheck_lookup_cases (cfg : Config) (f : TickFaults) (t : Tick)
    (T : PolicyTable) (m : SrcGlob) :
    (pollPolicyCheck cfg f t T).1.lookup m = T.lookup m
      ∨ (pollPolicyCheck cfg f t T).1.lookup m = increasedRow cfg t.now f.inc m (T.lookup m)
      ∨ (pollPolicyCheck cfg f t T).1.lookup m = decreasedRow cfg t.now f.dec m (T.lookup m) := by
  by_cases hr : RaisesAny cfg f t T
  · rw [lookup_of_raises hr]
    split
    · exact Or.inr (Or.inl rfl)
    · exact Or.inl rfl
  · rw [lookup_of_not_raises hr]
    split
    · exact Or.inr (Or.inr rfl)
    · exact Or.inl rfl

/-- A new row belongs to a pair that was found busy. -/
theorem pollPolicyCheck_row {m : SrcGlob}
    (h : ((pollPolicyCheck cfg f t T).1.lookup m).isSome) :
    (T.lookup m).isSome ∨ m ∈ getActiveGlobGroups t.usage := by
  by_cases hr : RaisesAny cfg f t T
  · rw [lookup_of_raises hr] at h
    split at h
    · rename_i hm
      exact Or.inr hm
    · exact Or.inl h
  · rw [lookup_of_not_raises hr] at h
    split at h
    · refine Or.inl ?_
      rcases decreasedRow_cases cfg t.now f.dec m (T.lookup m) with he | ⟨p, hp, -⟩ | ⟨p, hp, -⟩
      · rwa [he] at h
      · exact Option.isSome_iff_exists.mpr ⟨p, hp⟩
      · exact Option.isSome_iff_exists.mpr ⟨p, hp⟩
    · exact Or.inl h

end Passes

/-! ## Rounds without failures -/

/-- The increase loop would act on a pair with this row: there is none, or it
is out of backoff and not above the maximum. -/
def Raisable (cfg : Config) (now : Int) (v : Option Policy) : Prop :=
  ∀ p ∈ v, ¬tooSoon cfg now p ∧ p.cls ≤ cfg.numQdiscClasses * 10

def Lowerable (cfg : Config) (now : Int) (v : Option Policy) : Prop :=
  ∃ p ∈ v, ¬tooSoon cfg now p

def SomeRaise (cfg : Config) (t : Tick) (T : PolicyTable) : Prop :=
  ∃ m ∈ getActiveGlobGroups t.usage, Raisable cfg t.now (T.lookup m)

instance (cfg : Config) (now : Int) (v : Option Policy) : Decidable (Raisable cfg now v) :=
  inferInstanceAs (Decidable (∀ p ∈ v, _))

instance (cfg : Config) (t : Tick) (T : PolicyTable) : Decidable (SomeRaise cfg t T) :=
  inferInstanceAs (Decidable (∃ m ∈ getActiveGlobGroups t.usage, _))

section NoFaults

variable {cfg : Config} {t : Tick} {T : PolicyTable} {now : Int} {m : SrcGlob}

@[simp] theorem increasedRow_none :
    increasedRow cfg now CallFaults.none m none = some ⟨m.src, m.glob, 10, datetime now⟩ := rfl

theorem increasedRow_some (p : Policy) (h : Raisable cfg now (some p)) :
    increasedRow cfg now CallFaults.none m (some p)
      = some ⟨m.src, m.glob, p.cls + 10, datetime now⟩ := by
  obtain ⟨hs, hc⟩ := h p rfl
  have hc' : ¬p.cls > cfg.numQdiscClasses * 10 := by omega
  simp [increasedRow, readRow, CallFaults.none, hs, hc']

theorem increasedRow_of_not_raisable (v : Option Policy) (h : ¬Raisable cfg now v) :
    increasedRow cfg now CallFaults.none m v = v := by
  cases v with
  | none => exact absurd (fun p hp => nomatch hp) h
  | some p =>
      have hstop : tooSoon cfg now p ∨ p.cls > cfg.numQdiscClasses * 10 := by
        by_contra hno
        rw [not_or, not_lt] at hno
        exact h fun q hq => by obtain rfl := Option.some.inj hq; exact hno
      simp only [increasedRow, readRow, CallFaults.none, Bool.false_eq_true, if_false,
        or_false, if_pos hstop]

theorem increaseActs_iff {v : Option Policy} :
    increaseActs cfg now CallFaults.none m v = true ↔ Raisable cfg now v := by
  cases v with
  | none => simp [increaseActs, readRow, CallFaults.none, Raisable]
  | some p => simp [increaseActs, readRow, CallFaults.none, Raisable]

theorem decreasedRow_some (p : Policy) (h : ¬tooSoon cfg now p) :
    decreasedRow cfg now CallFaults.none m (some p)
      = if p.cls ≤ 10 then none else some ⟨m.src, m.glob, p.cls - 10, datetime now⟩ := by
  simp [decreasedRow, readRow, CallFaults.none, h]

theorem decreasedRow_of_not_lowerable (v : Option Policy) (h : ¬Lowerable cfg now v) :
    decreasedRow cfg now CallFaults.none m v = v := by
  cases v with
  | none => rfl
  | some p =>
      have hs : tooSoon cfg now p := by
        by_contra hs
        exact h ⟨p, rfl, hs⟩
      simp [decreasedRow, readRow, CallFaults.none, hs]

theorem decreaseActs_iff {v : Option Policy} :
    decreaseActs cfg now CallFaults.none m v = true ↔ Lowerable cfg now v := by
  cases v with
  | none => simp [decreaseActs, readRow, CallFaults.none, Lowerable]
  | some p => simp [decreaseActs, readRow, CallFaults.none, Lowerable]

theorem raisesAny_iff : RaisesAny cfg TickFaults.none t T ↔ SomeRaise cfg t T := by
  simp only [RaisesAny, SomeRaise, TickFaults.none, increaseActs_iff]

theorem lookup_tick_of_raise (h : SomeRaise cfg t T) (m : SrcGlob) :
    (tick cfg t T).1.lookup m
      = if m ∈ getActiveGlobGroups t.usage
        then increasedRow cfg t.now CallFaults.none m (T.lookup m) else T.lookup m :=
  lookup_of_raises (raisesAny_iff.mpr h) m

theorem lookup_tick_of_not_raise (h : ¬SomeRaise cfg t T) (m : SrcGlob) :
    (tick cfg t T).1.lookup m
      = if m ∈ createSrcGlobSet t.usage.below5m
        then decreasedRow cfg t.now CallFaults.none m (T.lookup m) else T.lookup m :=
  lookup_of_not_raises (fun hr => h (raisesAny_iff.mp hr)) m

theorem increasedRow_ne {v : Option Policy} (h : Raisable cfg now v) :
    (increasedRow cfg now CallFaults.none m v).map (·.cls) ≠ v.map (·.cls) := by
  cases v with
  | none => simp
  | some p =>
      rw [increasedRow_some p h]
      simp

theorem decreasedRow_ne {v : Option Policy} (h : Lowerable cfg now v) :
    (decreasedRow cfg now CallFaults.none m v).map (·.cls) ≠ v.map (·.cls) := by
  obtain ⟨p, rfl, hs⟩ := h
  rw [decreasedRow_some p hs]
  split <;> simp

theorem tick_changed :
    (tick cfg t T).2 = true ↔
      SomeRaise cfg t T
        ∨ ∃ m ∈ createSrcGlobSet t.usage.below5m, Lowerable cfg t.now (T.lookup m) := by
  by_cases hr : SomeRaise cfg t T
  · rw [tick, pollPolicyCheck_of_raises (raisesAny_iff.mpr hr)]
    simp [hr]
  · rw [tick, pollPolicyCheck_of_not_raises fun h => hr (raisesAny_iff.mp h),
      decreasingThrottling_changed]
    simp only [TickFaults.none, decreaseActs_iff, hr, false_or]

/-- The flag is exact: it is raised if and only if the table changed. -/
theorem tick_changed_iff_ne : (tick cfg t T).2 = true ↔ (tick cfg t T).1 ≠ T := by
  refine ⟨fun h he => ?_, fun hne => ?_⟩
  · have hrow : ∀ m, (tick cfg t T).1.lookup m = T.lookup m := fun m => by rw [he]
    by_cases hr : SomeRaise cfg t T
    · obtain ⟨m, hm, hv⟩ := hr
      have := hrow m
      rw [lookup_tick_of_raise ⟨m, hm, hv⟩, if_pos hm] at this
      exact increasedRow_ne hv (congrArg _ this)
    · rcases tick_changed.mp h with hr' | ⟨m, hm, hv⟩
      · exact hr hr'
      · have := hrow m
        rw [lookup_tick_of_not_raise hr, if_pos hm] at this
        exact decreasedRow_ne hv (congrArg _ this)
  · by_contra h
    exact hne (pollPolicyCheck_still h)

end NoFaults

/-- A round without failures, on the table alone. -/
def step (cfg : Config) (T : PolicyTable) (t : Tick) : PolicyTable := (tick cfg t T).1

/-! ## Reachable tables -/

/-- One round, whatever Prometheus answers, whenever it happens and whichever
database calls fail. -/
def TickStep (cfg : Config) (T T' : PolicyTable) : Prop :=
  ∃ f t, T' = (pollPolicyCheck cfg f t T).1

/-- The tables some run of policy ticks leads to from the empty one. -/
def Reachable (cfg : Config) (T : PolicyTable) : Prop :=
  Relation.ReflTransGen (TickStep cfg) KeyedTable.empty T

theorem Reachable.step {cfg : Config} {T : PolicyTable} (h : Reachable cfg T) (t : Tick) :
    Reachable cfg (step cfg T t) :=
  Relation.ReflTransGen.tail h ⟨TickFaults.none, t, rfl⟩

end Nethadone
