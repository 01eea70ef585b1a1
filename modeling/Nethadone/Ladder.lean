import Nethadone.SimpleLoadAvg

/-!
# The ladder of policy classes

Classes live on the rungs 10, 20, …, one for the open pipe and one for
each configured class. The bound checks of the two loops are one step off
the bound they protect, so the invariant is about the rungs
(`Reachable.onLadder`), not about the checks; it survives every failure of
a database call, and `exists_reachable_rung` says that no rung is there in
vain.
-/

namespace Nethadone

/-- `cls` is one of the rungs 10, 20, …, `10 * (n + 1)`. -/
def OnLadder (n : Nat) (cls : Int) : Prop :=
  ∃ k : Nat, k ≤ n ∧ cls = 10 * (k + 1)

theorem OnLadder.ten_le {n : Nat} {cls : Int} (h : OnLadder n cls) : 10 ≤ cls := by
  obtain ⟨k, -, rfl⟩ := h
  omega

theorem onLadder_ten (n : Nat) : OnLadder n 10 := ⟨0, Nat.zero_le n, rfl⟩

theorem OnLadder.up {N : Int} {cls : Int} (h : OnLadder N.toNat cls) (hmax : cls ≤ N * 10) :
    OnLadder N.toNat (cls + 10) := by
  obtain ⟨k, hk, rfl⟩ := h
  exact ⟨k + 1, by omega, by push_cast; ring⟩

theorem OnLadder.down {n : Nat} {cls : Int} (h : OnLadder n cls) (hmin : ¬cls ≤ 10) :
    OnLadder n (cls - 10) := by
  obtain ⟨k, hk, rfl⟩ := h
  exact ⟨k - 1, by omega, by omega⟩

section Invariant

variable {cfg : Config} {now : Int} {f : CallFaults} {m : SrcGlob} {v : Option Policy}

theorem increasedRow_onLadder
    (hv : ∀ p ∈ v, OnLadder cfg.numQdiscClasses.toNat p.cls) :
    ∀ p ∈ increasedRow cfg now f m v, OnLadder cfg.numQdiscClasses.toNat p.cls := by
  intro p hp
  rcases increasedRow_cases cfg now f m v with h | h | ⟨q, hq, -, hmax, h⟩
  · rw [h] at hp
    exact hv p hp
  · rw [h] at hp
    obtain rfl := Option.some.inj hp
    exact onLadder_ten _
  · rw [h] at hp
    obtain rfl := Option.some.inj hp
    exact (hv q hq).up hmax

theorem decreasedRow_onLadder
    (hv : ∀ p ∈ v, OnLadder cfg.numQdiscClasses.toNat p.cls) :
    ∀ p ∈ decreasedRow cfg now f m v, OnLadder cfg.numQdiscClasses.toNat p.cls := by
  intro p hp
  rcases decreasedRow_cases cfg now f m v with h | ⟨q, -, -, -, h⟩ | ⟨q, hq, -, hmin, h⟩
  · rw [h] at hp
    exact hv p hp
  · rw [h] at hp
    cases hp
  · rw [h] at hp
    obtain rfl := Option.some.inj hp
    exact (hv q hq).down hmin

end Invariant

theorem Reachable.onLadder {cfg : Config} {T : PolicyTable} (h : Reachable cfg T) :
    ∀ m, ∀ p ∈ T.lookup m, OnLadder cfg.numQdiscClasses.toNat p.cls := by
  induction h with
  | refl => intro m p hp; cases hp
  | @tail T T' _ hstep ih =>
      obtain ⟨f, t, rfl⟩ := hstep
      intro m
      rcases pollPolicyCheck_lookup_cases cfg f t T m with h | h | h <;> rw [h]
      · exact ih m
      · exact increasedRow_onLadder (ih m)
      · exact decreasedRow_onLadder (ih m)

theorem Reachable.onLadder_of_mem {cfg : Config} {T : PolicyTable} (h : Reachable cfg T)
    {p : Policy} (hp : p ∈ T.rows) : OnLadder cfg.numQdiscClasses.toNat p.cls :=
  h.onLadder p.key p (KeyedTable.lookup_key hp)

/-! ## Every rung is reached -/

def busyUsage (m : SrcGlob) : Usage where
  above2m := [⟨m.src, m.glob, 1⟩]
  above2mAgo5 := [⟨m.src, m.glob, 1⟩]
  above5m := [⟨m.src, m.glob, 1⟩]
  below5m := []

def busyTick (m : SrcGlob) (now : Int) : Tick := Tick.inOrder now (busyUsage m)

def redditClient : SrcGlob := ⟨"192.168.0.20".toList, "reddit".toList⟩

def newsClient : SrcGlob := ⟨"192.168.0.21".toList, "news".toList⟩

theorem mem_active_busyTick (m m' : SrcGlob) (now : Int) :
    m' ∈ getActiveGlobGroups (busyTick m now).usage ↔ m' = m := by
  simp [busyTick, Tick.inOrder, busyUsage, getActiveGlobGroups, createSrcGlobSet]

theorem lookup_busyTick {cfg : Config} {T : PolicyTable} {m : SrcGlob} {now : Int}
    (h : Raisable cfg now (T.lookup m)) :
    (tick cfg (busyTick m now) T).1.lookup m
      = increasedRow cfg now CallFaults.none m (T.lookup m) := by
  have hm : m ∈ getActiveGlobGroups (busyTick m now).usage :=
    (mem_active_busyTick m m now).mpr rfl
  rw [lookup_tick_of_raise ⟨m, hm, h⟩, if_pos hm]
  rfl

/-- A client busy for `k + 1` ticks stands on rung `k + 1`. -/
theorem exists_reachable_rung (cfg : Config) (m : SrcGlob) :
    ∀ k : Nat, k ≤ cfg.numQdiscClasses.toNat →
      ∃ T p, Reachable cfg T ∧ T.lookup m = some p ∧ p.cls = 10 * (k + 1)
  | 0, _ => by
      have h : Raisable cfg 0 ((KeyedTable.empty : PolicyTable).lookup m) := by
        intro p hp; cases hp
      exact ⟨_, _, Reachable.step Relation.ReflTransGen.refl (busyTick m 0),
        (lookup_busyTick h).trans increasedRow_none, rfl⟩
  | k + 1, hk => by
      obtain ⟨T, p, hT, hp, hcls⟩ := exists_reachable_rung cfg m k (by omega)
      -- late enough for the row to be out of backoff
      have h : Raisable cfg (p.tstamp + cfg.policyBackoffInterval.natAbs) (T.lookup m) := by
        rw [hp]
        intro q hq
        obtain rfl := Option.some.inj hq
        refine ⟨?_, by omega⟩
        unfold tooSoon
        omega
      have hrow := lookup_busyTick h
      rw [hp] at h hrow
      rw [increasedRow_some p h] at hrow
      exact ⟨_, _, hT.step (busyTick m _), hrow, by rw [hcls]; push_cast; ring⟩

end Nethadone
