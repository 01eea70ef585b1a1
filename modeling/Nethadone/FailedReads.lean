import Nethadone.Exactness

/-!
# Failed reads

The database package answers a failed read with nil, which is also its
answer when there is no row. Both callers of that convention are followed
here through every pattern of failures.

The increase loop takes nil for "no policy yet" and writes the first rung,
so a row whose read failed there is reset (`rowKept_iff`). `applyPolicies`
does not look at what it is handed and dereferences it, so one group that
cannot be read stops the process (`applyPolicies_readable_iff`).
-/

namespace Nethadone

/-! ## Rows through a round -/

/-- A `GetPolicy` call the round makes for the pair fails. -/
def ReadFails (cfg : Config) (f : TickFaults) (t : Tick) (T : PolicyTable) (m : SrcGlob) : Prop :=
  (m ∈ getActiveGlobGroups t.usage ∧ f.inc.getPolicy m = true)
    ∨ (¬RaisesAny cfg f t T ∧ m ∈ createSrcGlobSet t.usage.below5m ∧ f.dec.getPolicy m = true)

def SameClass (p q : Policy) : Prop := p.cls = q.cls

/-- What may become of a row: it stays the `same`, it moves one step up or
down, or it is deleted from the lowest class. -/
def Survives (same : Policy → Policy → Prop) (p : Policy) : Option Policy → Prop
  | none => p.cls = 10
  | some q => same p q ∨ q.cls = p.cls + 10 ∨ q.cls = p.cls - 10

def RowKept (same : Policy → Policy → Prop) (cfg : Config) (f : TickFaults) (t : Tick)
    (T : PolicyTable) (p : Policy) : Prop :=
  Survives same p ((pollPolicyCheck cfg f t T).1.lookup p.key)
    ∧ (ReadFails cfg f t T p.key →
        ∃ q ∈ (pollPolicyCheck cfg f t T).1.lookup p.key, SameClass p q)

/-- The increase loop takes the row for missing and writes the first rung over
it. -/
def ResetUnread (f : TickFaults) (t : Tick) (p : Policy) : Prop :=
  p.key ∈ getActiveGlobGroups t.usage ∧ f.inc.getPolicy p.key = true
    ∧ f.inc.updatePolicy p.key = false

def resetRow (now : Int) (p : Policy) : Policy := ⟨p.srcIp, p.globGroup, 10, datetime now⟩

/-- The decrease loop runs, reads the row and gets its write through. -/
def LoweredBy (cfg : Config) (f : TickFaults) (t : Tick) (T : PolicyTable) (p : Policy) : Prop :=
  ¬RaisesAny cfg f t T ∧ p.key ∈ createSrcGlobSet t.usage.below5m
    ∧ f.dec.getPolicy p.key = false ∧ ¬tooSoon cfg t.now p
    ∧ (if p.cls ≤ 10 then f.dec.deletePolicy p.key else f.dec.updatePolicy p.key) = false

/-- Neither loop harms the row: it is not reset unread, unless that changes
nothing; and it is not lowered from below the ladder, nor after a failed
read. -/
def Unharmed (same : Policy → Policy → Prop) (cfg : Config) (f : TickFaults) (t : Tick)
    (T : PolicyTable) (p : Policy) : Prop :=
  (ResetUnread f t p → same p (resetRow t.now p))
    ∧ (LoweredBy cfg f t T p → 10 ≤ p.cls
        ∧ ¬(p.key ∈ getActiveGlobGroups t.usage ∧ f.inc.getPolicy p.key = true))

section OneRow

variable {same : Policy → Policy → Prop} {cfg : Config} {f : TickFaults} {t : Tick}
  {T : PolicyTable} {p : Policy}

theorem increasedRow_unread {now : Int} {f : CallFaults} (h : f.getPolicy p.key = true) :
    increasedRow cfg now f p.key (some p)
      = if f.updatePolicy p.key then some p else some (resetRow now p) := by
  simp only [increasedRow, readRow, h, if_true]
  rfl

theorem survives_increasedRow (hrefl : ∀ p, same p p) {now : Int} {f : CallFaults}
    (h : f.getPolicy p.key = false) : Survives same p (increasedRow cfg now f p.key (some p)) := by
  simp only [increasedRow, readRow, h, Bool.false_eq_true, if_false]
  split
  · exact Or.inl (hrefl p)
  · exact Or.inr (Or.inl rfl)

theorem decreasedRow_of_written {now : Int} {f : CallFaults} (h : f.getPolicy p.key = false)
    (hs : ¬tooSoon cfg now p)
    (hw : (if p.cls ≤ 10 then f.deletePolicy p.key else f.updatePolicy p.key) = false) :
    decreasedRow cfg now f p.key (some p)
      = if p.cls ≤ 10 then none else some ⟨p.srcIp, p.globGroup, p.cls - 10, datetime now⟩ := by
  simp only [decreasedRow, readRow, h, Bool.false_eq_true, if_false, hs]
  split
  · rename_i hmin
    rw [if_pos hmin] at hw
    rw [hw, if_neg Bool.false_ne_true]
  · rename_i hmin
    rw [if_neg hmin] at hw
    rw [hw, if_neg Bool.false_ne_true]
    rfl

theorem decreasedRow_of_not_written {now : Int} {f : CallFaults}
    (h : ¬(f.getPolicy p.key = false ∧ ¬tooSoon cfg now p
      ∧ (if p.cls ≤ 10 then f.deletePolicy p.key else f.updatePolicy p.key) = false)) :
    decreasedRow cfg now f p.key (some p) = some p := by
  simp only [decreasedRow, readRow]
  cases hget : f.getPolicy p.key with
  | true => rfl
  | false =>
      simp only [hget, true_and, not_and, Bool.not_eq_false] at h
      simp only [Bool.false_eq_true, if_false]
      by_cases hs : tooSoon cfg now p
      · rw [if_pos hs]
      · have hw := h hs
        rw [if_neg hs]
        split
        · rename_i hmin
          rw [if_pos hmin] at hw
          rw [if_pos hw]
        · rename_i hmin
          rw [if_neg hmin] at hw
          rw [if_pos hw]

theorem raisesAny_of_resetUnread (hp : T.lookup p.key = some p) (h : ResetUnread f t p) :
    RaisesAny cfg f t T := by
  obtain ⟨hact, hread, hwrite⟩ := h
  refine ⟨p.key, hact, ?_⟩
  rw [hp]
  simp only [increaseActs, readRow, hread, hwrite, if_true, Bool.not_false]

theorem rowKept_iff_of_raises (hrefl : ∀ p, same p p) (hcls : ∀ p q, same p q → SameClass p q)
    (hp : T.lookup p.key = some p) (hr : RaisesAny cfg f t T) :
    RowKept same cfg f t T p ↔ Unharmed same cfg f t T p := by
  have hlow : ¬LoweredBy cfg f t T p := fun h => h.1 hr
  have hread : ReadFails cfg f t T p.key ↔
      p.key ∈ getActiveGlobGroups t.usage ∧ f.inc.getPolicy p.key = true := by
    simp only [ReadFails, hr, not_true_eq_false, false_and, or_false]
  rw [RowKept, Unharmed, hread, lookup_of_raises hr, hp]
  simp only [hlow, false_implies, and_true, ResetUnread]
  by_cases hact : p.key ∈ getActiveGlobGroups t.usage
  · rw [if_pos hact]
    cases hget : f.inc.getPolicy p.key with
    | false =>
        have hs : Survives same p (increasedRow cfg t.now f.inc p.key (some p)) :=
          survives_increasedRow hrefl hget
        simp [hs]
    | true =>
        rw [increasedRow_unread hget]
        cases hupd : f.inc.updatePolicy p.key with
        | true => simp [Survives, hrefl, SameClass]
        | false =>
            -- the class stays only if it was the first rung
            simp only [hact, Bool.false_eq_true, if_false, Survives, true_and, forall_const,
              Option.mem_def, Option.some.injEq, exists_eq_left']
            constructor
            · rintro ⟨hsame | hup | hdown, hkeep⟩
              · exact hsame
              · simp only [SameClass, resetRow] at hkeep hup
                omega
              · simp only [SameClass, resetRow] at hkeep hdown
                omega
            · intro hsame
              exact ⟨Or.inl hsame, hcls _ _ hsame⟩
  · simp [hact, Survives, hrefl]

theorem lookup_of_lowered (hp : T.lookup p.key = some p) (h : LoweredBy cfg f t T p) :
    (pollPolicyCheck cfg f t T).1.lookup p.key
      = if p.cls ≤ 10 then none
        else some ⟨p.srcIp, p.globGroup, p.cls - 10, datetime t.now⟩ := by
  obtain ⟨hr, hbelow, hget, hs, hw⟩ := h
  rw [lookup_of_not_raises hr, if_pos hbelow, hp, decreasedRow_of_written hget hs hw]

theorem lookup_of_not_lowered (hp : T.lookup p.key = some p) (hr : ¬RaisesAny cfg f t T)
    (h : ¬LoweredBy cfg f t T p) : (pollPolicyCheck cfg f t T).1.lookup p.key = some p := by
  rw [lookup_of_not_raises hr, hp]
  split
  · rename_i hbelow
    exact decreasedRow_of_not_written fun hw => h ⟨hr, hbelow, hw⟩
  · rfl

theorem rowKept_iff_of_not_raises (hrefl : ∀ p, same p p)
    (hp : T.lookup p.key = some p) (hr : ¬RaisesAny cfg f t T) :
    RowKept same cfg f t T p ↔ Unharmed same cfg f t T p := by
  have hreset : ¬ResetUnread f t p := fun h => hr (raisesAny_of_resetUnread hp h)
  by_cases hlow : LoweredBy cfg f t T p
  · have hread : ReadFails cfg f t T p.key ↔
        p.key ∈ getActiveGlobGroups t.usage ∧ f.inc.getPolicy p.key = true := by
      simp [ReadFails, hlow.2.2.1]
    rw [RowKept, Unharmed, hread, lookup_of_lowered hp hlow]
    simp only [hreset, false_implies, true_and, hlow, forall_const]
    split
    · rename_i hmin
      simp only [Survives, Option.mem_def, reduceCtorEq, false_and, exists_false, imp_false]
      exact and_congr_left' ⟨fun h => h ▸ le_refl _, fun h => le_antisymm hmin h⟩
    · rename_i hmin
      have hmoved : ¬SameClass p ⟨p.srcIp, p.globGroup, p.cls - 10, datetime t.now⟩ := by
        simp only [SameClass]
        omega
      simp only [Survives, Option.mem_def, Option.some.injEq, exists_eq_left', hmoved, imp_false,
        or_true, true_and]
      exact (and_iff_right (by omega)).symm
  · rw [RowKept, Unharmed, lookup_of_not_lowered hp hr hlow]
    simp only [hreset, false_implies, hlow, and_self, iff_true]
    exact ⟨Or.inl (hrefl p), fun _ => ⟨p, rfl, rfl⟩⟩

theorem rowKept_iff (hrefl : ∀ p, same p p) (hcls : ∀ p q, same p q → SameClass p q)
    (hp : p ∈ T.rows) : RowKept same cfg f t T p ↔ Unharmed same cfg f t T p := by
  have hrow : T.lookup p.key = some p := KeyedTable.lookup_key hp
  by_cases hr : RaisesAny cfg f t T
  · exact rowKept_iff_of_raises hrefl hcls hrow hr
  · exact rowKept_iff_of_not_raises hrefl hrow hr

end OneRow

/-- Every row survives the round, read as rows and read as classes, exactly
when neither loop harms one. -/
theorem rows_kept_iff (cfg : Config) (f : TickFaults) (t : Tick) (T : PolicyTable) :
    ((∀ p ∈ T.rows, RowKept Eq cfg f t T p) ↔ ∀ p ∈ T.rows, Unharmed Eq cfg f t T p)
      ∧ ((∀ p ∈ T.rows, RowKept SameClass cfg f t T p)
          ↔ ∀ p ∈ T.rows, Unharmed SameClass cfg f t T p) :=
  ⟨forall₂_congr fun _ hp => rowKept_iff (fun _ => rfl) (fun _ _ h => congrArg _ h) hp,
    forall₂_congr fun _ hp => rowKept_iff (fun _ => rfl) (fun _ _ h => h) hp⟩

/-- The read of one pair fails in the increase loop, everything else works. -/
def unreadIncrease (m : SrcGlob) : TickFaults where
  inc := { CallFaults.none with getPolicy := fun m' => decide (m' = m) }
  dec := CallFaults.none

def redditAt (cls : Int) : PolicyTable :=
  KeyedTable.empty.upsert ⟨redditClient.src, redditClient.glob, cls, 0⟩

/-- A busy client at class 50 is put back on class 10. -/
theorem unread_row_is_reset :
    ((pollPolicyCheck baseConfig (unreadIncrease redditClient)
        (busyTick redditClient (5 * minute)) (redditAt 50)).1.lookup redditClient).map (·.cls)
      = some 10
    ∧ ¬∀ p ∈ (redditAt 50).rows, RowKept SameClass baseConfig (unreadIncrease redditClient)
        (busyTick redditClient (5 * minute)) (redditAt 50) p := by
  have hrow : ((pollPolicyCheck baseConfig (unreadIncrease redditClient)
      (busyTick redditClient (5 * minute)) (redditAt 50)).1.lookup redditClient)
        = some ⟨redditClient.src, redditClient.glob, 10, 5 * minute⟩ := by decide
  refine ⟨by rw [hrow]; rfl, fun h => ?_⟩
  obtain ⟨-, hkeep⟩ := h ⟨redditClient.src, redditClient.glob, 50, 0⟩ (List.mem_singleton.mpr rfl)
  obtain ⟨q, hq, hcls⟩ := hkeep (Or.inl ⟨by decide, by decide⟩)
  obtain rfl := Option.some.inj (hrow.symm.trans hq)
  revert hcls
  unfold SameClass
  decide

/-! ## Rules from unreadable groups -/

section Rebuild

variable {glob : Text → Text → Bool} {ord : RowOrder} {f : ReadFaults} {T : PolicyTable}
  {G : GlobTable} {D : DnsTable} {now : Int}

/-- The rules of the policies that could be read, in the order of the rows. -/
def readableRules (glob : Text → Text → Bool) (ord : RowOrder) (f : ReadFaults)
    (T : PolicyTable) (G : GlobTable) (D : DnsTable) (now : Int) : List IpPolicy :=
  ((getAllPolicies ord f.getAllPolicies T).getD []).flatMap fun p =>
    (getIpPolicies glob ord f G D now p).getD []

/-- The policy's group has a row, and both reads made for it succeed. -/
def Readable (f : ReadFaults) (G : GlobTable) (p : Policy) : Prop :=
  f.getGlob p = false ∧ (G.lookup p.globGroup).isSome ∧ f.getIPsMatchingGlob p = false

theorem getIpPolicies_isSome_iff (p : Policy) :
    (getIpPolicies glob ord f G D now p).isSome ↔ Readable f G p := by
  unfold getIpPolicies getGlob getIPsMatchingGlob Readable
  cases f.getGlob p with
  | true => simp
  | false =>
      cases G.lookup p.globGroup with
      | none => simp
      | some g => cases f.getIPsMatchingGlob p <;> simp

theorem applyPolicies_isSome_iff (glob : Text → Text → Bool) (ord : RowOrder) (D : DnsTable)
    (now : Int) : (applyPolicies glob ord f T G D now).isSome
      ↔ f.getAllPolicies = false ∧ ∀ p ∈ T.rows, Readable f G p := by
  unfold applyPolicies getAllPolicies
  cases f.getAllPolicies with
  | true => simp
  | false =>
      simp only [Bool.false_eq_true, if_false, Option.isSome_map, true_and,
        Collect.isSome_mapM_iff, getIpPolicies_isSome_iff, (ord.policies_perm T.rows).mem_iff]

theorem applyPolicies_eq_readable {rules : List IpPolicy}
    (h : applyPolicies glob ord f T G D now = some rules) :
    rules = readableRules glob ord f T G D now := by
  unfold applyPolicies at h
  unfold readableRules
  cases hall : getAllPolicies ord f.getAllPolicies T with
  | none => rw [hall] at h; cases h
  | some ps =>
      rw [hall] at h
      obtain ⟨ls, hls, rfl⟩ := Option.map_eq_some_iff.mp h
      rw [Collect.eq_map_getD hls [], Option.getD_some, List.flatMap_def]

end Rebuild

/-- `applyPolicies` gets the rules of every policy that could be read to the
rebuild exactly when every policy could be read: it reaches the rebuild in
no other case. -/
theorem applyPolicies_readable_iff (glob : Text → Text → Bool) (ord : RowOrder) (f : ReadFaults)
    (T : PolicyTable) (G : GlobTable) (D : DnsTable) (now : Int) :
    applyPolicies glob ord f T G D now = some (readableRules glob ord f T G D now)
      ↔ f.getAllPolicies = false ∧ ∀ p ∈ T.rows, Readable f G p := by
  rw [← applyPolicies_isSome_iff glob ord D now]
  constructor
  · intro h
    exact Option.isSome_iff_exists.mpr ⟨_, h⟩
  · intro h
    obtain ⟨rules, hrules⟩ := Option.isSome_iff_exists.mp h
    rw [hrules, applyPolicies_eq_readable hrules]

/-- A second policy, for a group that has no row. -/
def staleTable : PolicyTable := redditTable.upsert ⟨newsClient.src, newsClient.glob, 10, 0⟩

/-- Nothing fails, one policy is readable, and the rebuild is not reached. -/
theorem stale_group_stops_rebuild :
    readableRules redditGlob RowOrder.stored ReadFaults.none staleTable redditGlobs redditDns
        (5 * minute) = [⟨"192,168,0,20".toList, "151,101,1,140".toList, 10⟩]
      ∧ applyPolicies redditGlob RowOrder.stored ReadFaults.none staleTable redditGlobs redditDns
        (5 * minute) = none :=
  ⟨by decide, by decide⟩

end Nethadone
