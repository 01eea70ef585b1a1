import Mathlib.Algebra.Order.BigOperators.Group.List
import Nethadone.Counting
import Nethadone.LostUpdates
import Nethadone.TrafficCount

/-!
# The traffic monitor on several CPUs

`traffic_mon` runs on the CPU that has the frame. It reads the pair's entry
and writes the sum back in two calls, and nothing is locked between them: a
frame of the pair that another CPU counts in between is lost.

Which pairs have an entry does not change by this, and an entry is always
the sum of some of the pair's frames, the last one among them. With two CPUs
every such sum can come out (`possible_counts`). A pair that is on one CPU
at a time is counted as if there were no other CPU, whatever happens to the
other pairs (`counted_alone`); then its counts grow, as the exporter needs
them to (`exportRun_of_oneAtATime`).

The value an entry holds is read in the same step as it is looked up.
-/

namespace Nethadone

open CappedTable History

/-! ## The two halves of `traffic_mon` -/

/-- `traffic_mon` up to its update: the entry it is about to write. Without one it
has returned before. -/
def trafficEntry (M : ByteMap) (skb : Skb) : Option ByteEntry :=
  if skb.protocol ≠ bpfHtons ETH_P_IP then none
  else if ethHlen > skb.data.length then none
  else if ethHlen + ipHlen > skb.data.length then none
  else
    let key := trafficKey skb
    let val := match M.lookup key with
      | none => totLen skb
      | some p => p.val + totLen skb
    some ⟨key, val⟩

/-- `src_dest_bytes`, and the frame each CPU is at. -/
abbrev Monitors (Cpu : Type) := Shared ByteEntry.key Cpu Skb

def Monitors.step {Cpu : Type} [DecidableEq Cpu] :
    Monitors Cpu → Half Cpu Skb → Option (Monitors Cpu) :=
  Shared.step srcDestBytesMax trafficEntry

section Halves

variable {M : ByteMap} {skb : Skb}

theorem trafficEntry_eq : trafficEntry M skb
    = if skb.IsIPv4 then some (mergeBytes (M.lookup (trafficKey skb)) skb) else none := by
  rw [trafficEntry, skb.guards_eq]
  rfl

/-- The halves, one right after the other. -/
theorem trafficMon_eq_halves :
    (trafficMon M skb).1 = (trafficEntry M skb).elim M (updateSrcDestBytes M) := by
  by_cases hip : skb.IsIPv4
  · rw [trafficEntry_eq, if_pos hip, trafficMon_of_ipv4 hip]
    rfl
  · rw [trafficEntry_eq, if_neg hip, trafficMon_of_not_ipv4 hip]
    rfl

theorem merging_trafficEntry :
    Merging trafficEntry (fun skb => skb.IsIPv4) trafficKey mergeBytes where
  prepare_eq := fun _ _ => trafficEntry_eq
  key_merge := fun _ _ => rfl

end Halves

/-! ## Every count there can be -/

/-- `v` is the sum of the total lengths of some of the frames, the last one among
them. -/
def SumWithLast (frames : List Skb) (v : BitVec 64) : Prop :=
  ∃ l : List Skb, l.Sublist frames ∧ l.getLast? = frames.getLast?
    ∧ v = .ofNat 64 (l.map ipTotalLength).sum

section Counts

variable {frames : List Skb} {s d : IPv4}

theorem eventsOf_pairKey :
    eventsOf (fun skb => skb.IsIPv4) trafficKey frames (pairKey d s) = pairFrames frames s d :=
  filter_trafficKey

theorem firstWithin_keysOf :
    FirstWithin srcDestBytesMax (keysOf (fun skb => skb.IsIPv4) trafficKey frames) (pairKey d s)
      ↔ CameInTime frames s d :=
  firstWithin_trafficKey

theorem trafficKey_of_mem {skb : Skb} (h : skb ∈ pairFrames frames s d) :
    trafficKey skb = pairKey d s :=
  trafficKey_eq_iff.mpr (of_decide_eq_true (List.mem_filter.mp h).2).2

theorem madeOf_iff (hne : pairFrames frames s d ≠ []) {v : BitVec 64} :
    MadeOf mergeBytes (pairFrames frames s d) ⟨pairKey d s, v⟩
      ↔ SumWithLast (pairFrames frames s d) v := by
  refine exists_congr fun l => and_congr_right fun hsub => and_congr_right fun hlast => ?_
  have hl : l ≠ [] := by
    rintro rfl
    exact hne (List.getLast?_eq_none_iff.mp hlast.symm)
  rw [merged_mergeBytes hl fun skb hskb => trafficKey_of_mem (hsub.subset hskb),
    Option.some.injEq, ByteEntry.mk.injEq]
  exact ⟨fun h => h.2.symm, fun h => ⟨rfl, h.symm⟩⟩

variable {Cpu : Type} [DecidableEq Cpu] {st : Monitors Cpu}

theorem kept_monitors {acts : List (Half Cpu Skb)}
    (hrun : Run.run Monitors.step Shared.start acts = some st) :
    Kept srcDestBytesMax (fun skb => skb.IsIPv4) trafficKey mergeBytes st :=
  kept_of_run merging_trafficEntry hrun

/-- Which pairs have an entry is told by the order of the updates. -/
theorem isSome_monitors {acts : List (Half Cpu Skb)}
    (hrun : Run.run Monitors.step Shared.start acts = some st) :
    (st.table.lookup (pairKey d s)).isSome ↔ CameInTime st.through s d := by
  rw [(kept_monitors hrun).seated.isSome_iff, firstWithin_keysOf]

theorem SumWithLast.le {v : BitVec 64} (hv : SumWithLast frames v)
    (hfits : (frames.map ipTotalLength).sum < 2 ^ 64) :
    v.toNat ≤ (frames.map ipTotalLength).sum
      ∧ ∀ skb ∈ frames.getLast?, ipTotalLength skb ≤ v.toNat := by
  obtain ⟨l, hsub, hlast, rfl⟩ := hv
  have hle : (l.map ipTotalLength).sum ≤ (frames.map ipTotalLength).sum :=
    (hsub.map ipTotalLength).sum_le_sum fun _ _ => Nat.zero_le _
  rw [BitVec.toNat_ofNat, Nat.mod_eq_of_lt (lt_of_le_of_lt hle hfits)]
  refine ⟨hle, fun skb hskb => ?_⟩
  have hmem : skb ∈ l := List.mem_of_getLast? (hlast.trans hskb)
  exact List.single_le_sum (fun _ _ => Nat.zero_le _) _ (List.mem_map_of_mem hmem)

/-- The entry of a pair, whatever the schedule. -/
theorem sumWithLast_monitors {acts : List (Half Cpu Skb)}
    (hrun : Run.run Monitors.step Shared.start acts = some st) {e : ByteEntry}
    (he : st.table.lookup (pairKey d s) = some e) :
    SumWithLast (pairFrames st.through s d) e.val := by
  have hin : CameInTime st.through s d :=
    (isSome_monitors hrun).mp (Option.isSome_iff_exists.mpr ⟨e, he⟩)
  rw [← madeOf_iff (mem_pairsSeen.mp hin.mem), ← eventsOf_pairKey]
  have hkey : e.key = pairKey d s := (KeyedTable.lookup_eq_some.mp he).2
  exact (kept_monitors hrun).row _ _ (by rw [he, ← hkey])

end Counts

/-- Whatever the schedule, the pairs that came in time have an entry and no
others, and it never holds more than the pair's traffic, nor less than its
last frame. On two or more CPUs, what it can hold after these frames are the
sums of some of the pair's frames with the last one among them: all of them,
and nothing else. -/
theorem possible_counts {Cpu : Type} [DecidableEq Cpu] {a b : Cpu} (hab : a ≠ b)
    (frames : List Skb) (s d : IPv4) :
    (∀ (acts : List (Half Cpu Skb)) (st : Monitors Cpu),
        Run.run Monitors.step Shared.start acts = some st →
          ((st.table.lookup (pairKey d s)).isSome ↔ CameInTime st.through s d)
            ∧ ∀ e ∈ st.table.lookup (pairKey d s),
              ((pairFrames st.through s d).map ipTotalLength).sum < 2 ^ 64 →
                e.val.toNat ≤ ((pairFrames st.through s d).map ipTotalLength).sum
                  ∧ ∀ skb ∈ (pairFrames st.through s d).getLast?, ipTotalLength skb ≤ e.val.toNat)
      ∧ (CameInTime frames s d → ∀ v,
        (∃ (acts : List (Half Cpu Skb)) (st : Monitors Cpu),
          Run.run Monitors.step Shared.start acts = some st ∧ st.through = frames
            ∧ st.table.lookup (pairKey d s) = some ⟨pairKey d s, v⟩)
          ↔ SumWithLast (pairFrames frames s d) v) := by
  refine ⟨fun acts st hrun => ⟨isSome_monitors hrun, fun e he hfits => ?_⟩, fun hin v => ?_⟩
  · exact (sumWithLast_monitors hrun he).le hfits
  · rw [← madeOf_iff (mem_pairsSeen.mp hin.mem), ← eventsOf_pairKey,
      ← possible_iff merging_trafficEntry hab (firstWithin_keysOf.mpr hin)]
    constructor
    · rintro ⟨acts, st, hrun, hthrough, hrow⟩
      exact ⟨st, ⟨acts, hrun⟩, hthrough, hrow⟩
    · rintro ⟨st, ⟨acts, hrun⟩, hthrough, hrow⟩
      exact ⟨acts, st, hrun, hthrough, hrow⟩

/-- A frame of `redditServer` to the client, of 100 bytes. -/
def redditPage : Skb where
  protocol := bpfHtons ETH_P_IP
  data := List.replicate 17 0 ++ 100 :: (List.replicate 8 0
    ++ [151, 101, 1, 140, 192, 168, 0, 20])
  tcClassid := 0

theorem cameInTime_redditPages :
    CameInTime [redditPage, redditPage] redditServer redditClientIp :=
  ⟨[], [(redditServer, redditClientIp)], by decide, List.not_mem_nil, by decide⟩

/-- Of two frames one can be lost, both cannot. -/
theorem possible_counts_pages :
    (∃ (acts : List (Half Bool Skb)) (st : Monitors Bool),
        Run.run Monitors.step Shared.start acts = some st
          ∧ st.through = [redditPage, redditPage]
          ∧ st.table.lookup (pairKey redditClientIp redditServer)
            = some ⟨pairKey redditClientIp redditServer, 100⟩)
      ∧ ¬∃ (acts : List (Half Bool Skb)) (st : Monitors Bool),
        Run.run Monitors.step Shared.start acts = some st
          ∧ st.through = [redditPage, redditPage]
          ∧ st.table.lookup (pairKey redditClientIp redditServer)
            = some ⟨pairKey redditClientIp redditServer, 0⟩ := by
  have hpair : pairFrames [redditPage, redditPage] redditServer redditClientIp
      = [redditPage, redditPage] := by decide
  have hiff := (possible_counts (a := false) (b := true) (by decide)
    [redditPage, redditPage] redditServer redditClientIp).2 cameInTime_redditPages
  rw [hpair] at hiff
  refine ⟨(hiff 100).mpr ⟨[redditPage], by decide, by decide, by decide⟩, fun h => ?_⟩
  have hle := ((hiff 0).mp h).le (by decide)
  exact absurd (hle.2 redditPage rfl) (by decide)

/-! ## A pair on one CPU at a time -/

/-- No CPU takes a frame of the pair while another is at one. -/
def OneAtATime {Cpu : Type} (s d : IPv4) : Monitors Cpu → Half Cpu Skb → Prop :=
  Alone (fun skb => skb.IsIPv4) trafficKey (pairKey d s)

section Alone

variable {Cpu : Type} [DecidableEq Cpu] {s d : IPv4} {frames more : List Skb}
  {acts : List (Half Cpu Skb)} {st : Monitors Cpu}

theorem lookup_of_oneAtATime (halone : Always Monitors.step Shared.start acts (OneAtATime s d))
    (hrun : Run.run Monitors.step Shared.start acts = some st) :
    st.table.lookup (pairKey d s) = (monitorAll st.through).lookup (pairKey d s) := by
  obtain ⟨hkept, hintact⟩ := intact_of_run merging_trafficEntry halone hrun
  by_cases hin : CameInTime st.through s d
  · have hfirst := firstWithin_trafficKey.mpr hin
    rw [hintact.row hfirst, monitorAll_fed.taken _ hfirst]
    rfl
  · rw [hkept.seated.lookup_eq_none fun hfirst => hin (firstWithin_keysOf.mp hfirst),
      lookup_monitorAll_of_not_cameInTime hin]

theorem CameInTime.append (h : CameInTime frames s d) (more : List Skb) :
    CameInTime (frames ++ more) s d := by
  obtain ⟨pre, post, heq, hnew, hcard⟩ := h
  refine ⟨pre, post ++ pairsSeen more, ?_, hnew, hcard⟩
  have hseen : pairsSeen (frames ++ more) = pairsSeen frames ++ pairsSeen more := by
    simp [pairsSeen, ipv4Frames]
  rw [hseen, heq, List.append_assoc, List.cons_append]

theorem pairFrames_append : pairFrames (frames ++ more) s d
    = pairFrames frames s d ++ pairFrames more s d :=
  List.filter_append ..

theorem count_monitorAll (hin : CameInTime frames s d)
    (hfits : ((pairFrames frames s d).map ipTotalLength).sum < 2 ^ 64) :
    (monitorAll frames).count (pairKey d s)
      = ((pairFrames frames s d).map ipTotalLength).sum := by
  rw [ByteMap.count, lookup_monitorAll_of_cameInTime hin]
  exact (BitVec.toNat_ofNat ..).trans (Nat.mod_eq_of_lt hfits)

theorem count_monitorAll_le
    (hfits : ((pairFrames (frames ++ more) s d).map ipTotalLength).sum < 2 ^ 64) :
    (monitorAll frames).count (pairKey d s)
      ≤ (monitorAll (frames ++ more)).count (pairKey d s) := by
  by_cases hin : CameInTime frames s d
  · have hsum : ((pairFrames frames s d).map ipTotalLength).sum
        ≤ ((pairFrames (frames ++ more) s d).map ipTotalLength).sum := by
      rw [pairFrames_append, List.map_append, List.sum_append]
      exact Nat.le_add_right _ _
    rw [count_monitorAll hin (lt_of_le_of_lt hsum hfits), count_monitorAll (hin.append more) hfits]
    exact hsum
  · have hzero : (monitorAll frames).count (pairKey d s) = 0 := by
      rw [ByteMap.count, lookup_monitorAll_of_not_cameInTime hin]
    rw [hzero]
    exact Nat.zero_le _

theorem count_le_of_oneAtATime {past later : List (Half Cpu Skb)} {st₀ : Monitors Cpu}
    (halone : Always Monitors.step Shared.start (past ++ later) (OneAtATime s d))
    (hrun₀ : Run.run Monitors.step Shared.start past = some st₀)
    (hrun : Run.run Monitors.step Shared.start (past ++ later) = some st)
    (hfits : ((pairFrames st.through s d).map ipTotalLength).sum < 2 ^ 64) :
    ByteMap.count st₀.table (pairKey d s) ≤ ByteMap.count st.table (pairKey d s) := by
  have hlater : Run.run Monitors.step st₀ later = some st := by
    rwa [run_append, hrun₀, Option.bind_some] at hrun
  obtain ⟨more, hmore⟩ := through_prefix hlater
  have h₀ := lookup_of_oneAtATime halone.before hrun₀
  have h₁ := lookup_of_oneAtATime halone hrun
  rw [← hmore] at h₁ hfits
  simp only [ByteMap.count, h₀, h₁]
  exact count_monitorAll_le hfits

/-- When every pair is on one CPU at a time, the exporter sees the traffic it is
made for: counts that grow. -/
theorem exportRun_of_oneAtATime {past later : List (Half Cpu Skb)} {st₀ : Monitors Cpu}
    (halone : ∀ s d, Always Monitors.step Shared.start (past ++ later) (OneAtATime s d))
    (hrun₀ : Run.run Monitors.step Shared.start past = some st₀)
    (hrun : Run.run Monitors.step Shared.start (past ++ later) = some st)
    (hfits : ∀ s d, ((pairFrames st.through s d).map ipTotalLength).sum < 2 ^ 64)
    {valid : Text → Bool} {fmatch : Text → Text → Bool} {polls : List (RowOrder × Exporter)}
    {x : Exporter} (hx : ExportRun valid fmatch polls { x with bytes := st₀.table }) :
    ExportRun valid fmatch polls { x with bytes := st.table } := by
  refine hx.traffic st.table fun key => ?_
  rw [← pairKey_eq key]
  exact count_le_of_oneAtATime (halone _ _) hrun₀ hrun (hfits _ _)

end Alone

/-- If no two CPUs are at the pair at once, its entry is what one CPU would have
made of the frames in the order of their updates, whatever is done to the
other pairs meanwhile; and as long as its traffic fits the counter, the
count never falls. -/
theorem counted_alone {Cpu : Type} [DecidableEq Cpu] (s d : IPv4) (acts : List (Half Cpu Skb))
    (halone : Always Monitors.step Shared.start acts (OneAtATime s d)) (st : Monitors Cpu)
    (hrun : Run.run Monitors.step Shared.start acts = some st) :
    st.table.lookup (pairKey d s) = (monitorAll st.through).lookup (pairKey d s)
      ∧ (((pairFrames st.through s d).map ipTotalLength).sum < 2 ^ 64 →
        ∀ past later, acts = past ++ later → ∀ st₀ : Monitors Cpu,
          Run.run Monitors.step Shared.start past = some st₀ →
            ByteMap.count st₀.table (pairKey d s) ≤ ByteMap.count st.table (pairKey d s)) := by
  refine ⟨lookup_of_oneAtATime halone hrun, fun hfits past later hacts st₀ hrun₀ => ?_⟩
  subst hacts
  exact count_le_of_oneAtATime halone hrun₀ hrun hfits

/-- Two CPUs at frames of two pairs, one inside the other. -/
def twoPairs : List (Half Bool Skb) :=
  [.prepare false redditPage, .prepare true (frameBetween redditServer (client 1)),
    .write true, .write false]

theorem oneAtATime_twoPairs :
    Always Monitors.step Shared.start twoPairs (OneAtATime redditServer redditClientIp) := by
  refine always_cons (fun _ _ w' e' r h => by cases h) fun st hst => ?_
  obtain rfl := Option.some.inj hst
  refine always_cons (fun _ hkey => absurd hkey (by decide)) fun st hst => ?_
  obtain rfl := Option.some.inj hst
  refine always_cons trivial fun st hst => ?_
  obtain rfl := Option.some.inj hst
  exact always_cons trivial fun _ _ => always_nil

theorem counted_alone_twoPairs :
    ∃ st : Monitors Bool, Run.run Monitors.step Shared.start twoPairs = some st
      ∧ st.table.lookup (pairKey redditClientIp redditServer)
        = (monitorAll st.through).lookup (pairKey redditClientIp redditServer) :=
  ⟨_, rfl, (counted_alone redditServer redditClientIp twoPairs oneAtATime_twoPairs _ rfl).1⟩

/-- The count falls when two CPUs are at the pair: one has taken a frame while the
other counts two. -/
example :
    (Run.run Monitors.step Shared.start [.prepare false redditPage, .prepare true redditPage,
        .write true, .prepare true redditPage, .write true]).map
          (fun st => ByteMap.count st.table (pairKey redditClientIp redditServer)) = some 200
      ∧ (Run.run Monitors.step Shared.start [.prepare false redditPage, .prepare true redditPage,
        .write true, .prepare true redditPage, .write true, .write false]).map
          (fun st => ByteMap.count st.table (pairKey redditClientIp redditServer)) = some 100 := by
  decide

end Nethadone
