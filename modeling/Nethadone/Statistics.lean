import Mathlib.Data.List.Pairwise
import Nethadone.RuleOrder

/-!
# The counters of the throttle program

`throttle_stats` holds "packets scanned" and "packets throttled". The first
counts once a frame. The second is counted up inside each rule that holds,
and nothing ends the chain of rules, so it counts matches: a frame two rules
hold for is two packets throttled. The counters are right for the frames
that came exactly when the surplus matches are a multiple of `2 ^ 32`, and
no frame has a surplus exactly when no two rules overlap
(`throttle_stats_count`).
-/

namespace Nethadone

/-! ## At most one match -/

theorem countP_le_one_iff {α : Type*} {h : α → Bool} : ∀ {l : List α},
    l.countP h ≤ 1 ↔ l.Pairwise fun a b => ¬(h a = true ∧ h b = true)
  | [] => by simp
  | a :: l => by
      rw [List.pairwise_cons, ← countP_le_one_iff, List.countP_cons]
      by_cases ha : h a = true
      · have hzero : l.countP h = 0 ↔ ∀ b ∈ l, ¬(h a = true ∧ h b = true) := by
          simp only [List.countP_eq_zero, ha, true_and]
        rw [if_pos ha, ← hzero]
        omega
      · have hfree : ∀ b ∈ l, ¬(h a = true ∧ h b = true) := fun _ _ hab => ha hab.1
        rw [if_neg ha, add_zero]
        exact (and_iff_right hfree).symm

/-! ## One frame, many frames -/

/-- The rules that hold for the frame. -/
def matchCount (P : Program) (skb : Skb) : Nat :=
  if skb.IsIPv4 then P.countP (·.holds skb.src.word skb.dst.word) else 0

/-- The program assigns the frame a class. -/
def assigned (P : Program) (skb : Skb) : Bool :=
  skb.IsIPv4 && P.any (·.holds skb.src.word skb.dst.word)

/-- The counters of one CPU after it has seen the frames. -/
def throttleAll (P : Program) (frames : List Skb) : ThrottleStats :=
  frames.foldl (fun st skb => (throttle P st skb).1) ⟨0, 0⟩

/-- Matches beyond the first, frame by frame. -/
def surplus (P : Program) (frames : List Skb) : Nat :=
  (frames.map fun skb => matchCount P skb - 1).sum

/-- The counters say what the comment above them says. While fewer than
`2 ^ 32` frames were scanned, no more are throttled than scanned. -/
structure CountsPackets (P : Program) (frames : List Skb) : Prop where
  throttled : (throttleAll P frames).throttled = .ofNat 32 (frames.countP (assigned P))
  scanned : (throttleAll P frames).scanned = .ofNat 32 (frames.countP (·.IsIPv4))
  le : frames.countP (·.IsIPv4) < 2 ^ 32 →
    (throttleAll P frames).throttled.toNat ≤ (throttleAll P frames).scanned.toNat

section Counters

variable {P : Program} {frames : List Skb} {skb : Skb}

/-- The class after the program is one it chose, or the one from before. -/
theorem assigned_iff (h : skb.IsIPv4) (st : ThrottleStats) :
    assigned P skb = true ↔ ∃ r ∈ P, r.holds skb.src.word skb.dst.word = true
      ∧ (throttle P st skb).2.1.tcClassid = r.classid := by
  simp only [assigned, h, decide_true, Bool.true_and, List.any_eq_true]
  constructor
  · rintro ⟨r, hr, hh⟩
    cases hlast : (P.filter (·.holds skb.src.word skb.dst.word)).getLast? with
    | none =>
        rw [List.getLast?_eq_none_iff, List.filter_eq_nil_iff] at hlast
        exact absurd hh (hlast r hr)
    | some r' =>
        obtain ⟨hr', hh'⟩ := List.mem_filter.mp (List.mem_of_getLast? hlast)
        refine ⟨r', hr', hh', ?_⟩
        rw [throttle_tcClassid h, hlast]
        rfl
  · rintro ⟨r, hr, hh, -⟩
    exact ⟨r, hr, hh⟩

theorem runRules_stats (saddr daddr : BitVec 32) : ∀ (P : Program) (st : ThrottleStats) (skb : Skb),
    (runRules saddr daddr P (st, skb)).1
      = ⟨st.scanned, st.throttled + .ofNat 32 (P.countP (·.holds saddr daddr))⟩
  | [], st, _ => by simp [runRules]
  | r :: rs, st, skb => by
      rw [runRules, List.countP_cons]
      by_cases hr : r.holds saddr daddr = true
      · rw [if_pos hr, if_pos hr, runRules_stats, BitVec.ofNat_add, incrementThrottled,
          BitVec.add_assoc, BitVec.add_comm (1 : BitVec 32)]
        rfl
      · rw [if_neg hr, if_neg hr, runRules_stats, add_zero]

theorem throttle_stats (P : Program) (st : ThrottleStats) (skb : Skb) :
    (throttle P st skb).1
      = ⟨st.scanned + .ofNat 32 (if skb.IsIPv4 then 1 else 0),
          st.throttled + .ofNat 32 (matchCount P skb)⟩ := by
  by_cases hip : skb.IsIPv4
  · rw [throttle_eq, if_pos hip, matchCount, if_pos hip, if_pos hip]
    exact runRules_stats _ _ P _ skb
  · rw [throttle_of_not_ipv4 hip, matchCount, if_neg hip, if_neg hip]
    simp

/-- What a run of frames adds to the counters it starts from. -/
theorem foldl_throttle (P : Program) : ∀ (frames : List Skb) (st : ThrottleStats),
    frames.foldl (fun st skb => (throttle P st skb).1) st
      = ⟨st.scanned + .ofNat 32 (frames.countP (·.IsIPv4)),
          st.throttled + .ofNat 32 (frames.map (matchCount P)).sum⟩
  | [], st => by simp
  | skb :: frames, st => by
      rw [List.foldl_cons, foldl_throttle, throttle_stats, List.countP_cons, List.map_cons,
        List.sum_cons, BitVec.ofNat_add, BitVec.ofNat_add, BitVec.add_assoc, BitVec.add_assoc,
        BitVec.add_comm (.ofNat 32 (if skb.IsIPv4 then 1 else 0))]
      simp only [decide_eq_true_eq]

theorem throttleAll_eq (P : Program) (frames : List Skb) :
    throttleAll P frames = ⟨.ofNat 32 (frames.countP (·.IsIPv4)),
      .ofNat 32 (frames.map (matchCount P)).sum⟩ := by
  rw [throttleAll, foldl_throttle]
  simp

theorem assigned_eq_zero_lt (P : Program) (skb : Skb) :
    assigned P skb = decide (0 < matchCount P skb) := by
  rw [Bool.eq_iff_iff, decide_eq_true_eq, assigned, matchCount]
  by_cases hip : skb.IsIPv4
  · simp only [hip, decide_true, Bool.true_and, if_true, List.any_eq_true, List.countP_pos_iff]
  · simp [hip]

theorem assigned_le (P : Program) (frames : List Skb) :
    frames.countP (assigned P) ≤ frames.countP (·.IsIPv4) :=
  List.countP_mono_left fun _ _ h => (Bool.and_eq_true_iff.mp h).1

/-- Every match is the first of its frame or a surplus one. -/
theorem sum_matchCount (P : Program) : ∀ frames : List Skb,
    (frames.map (matchCount P)).sum = frames.countP (assigned P) + surplus P frames
  | [] => rfl
  | skb :: frames => by
      have ih := sum_matchCount P frames
      simp only [surplus, List.map_cons, List.sum_cons, List.countP_cons, assigned_eq_zero_lt,
        decide_eq_true_eq] at ih ⊢
      split <;> omega

theorem countsPackets_iff : CountsPackets P frames ↔ 2 ^ 32 ∣ surplus P frames := by
  have hthrottled : (throttleAll P frames).throttled = .ofNat 32 (frames.countP (assigned P)) ↔
      2 ^ 32 ∣ surplus P frames := by
    rw [throttleAll_eq, sum_matchCount, ← BitVec.toNat_inj, BitVec.toNat_ofNat, BitVec.toNat_ofNat]
    omega
  refine ⟨fun h => hthrottled.mp h.throttled, fun h => ⟨hthrottled.mpr h, ?_, fun hlt => ?_⟩⟩
  · rw [throttleAll_eq]
  · have hle := assigned_le P frames
    rw [hthrottled.mpr h, throttleAll_eq, BitVec.toNat_ofNat, BitVec.toNat_ofNat]
    omega

/-- No run of frames has a surplus exactly when no two rules overlap. -/
theorem surplus_eq_zero_iff :
    (∀ frames, surplus P frames = 0) ↔ P.Pairwise fun r r' => ¬r.Overlap r' := by
  have hframe : (∀ frames, surplus P frames = 0) ↔ ∀ skb, matchCount P skb ≤ 1 := by
    constructor
    · intro h skb
      have := h [skb]
      simp only [surplus, List.map_cons, List.map_nil, List.sum_cons, List.sum_nil] at this
      omega
    · intro h frames
      refine List.sum_eq_zero fun n hn => ?_
      obtain ⟨skb, -, rfl⟩ := List.mem_map.mp hn
      have := h skb
      omega
  rw [hframe]
  constructor
  · intro h
    rw [List.pairwise_iff_getElem]
    intro i j hi hj hij hover
    -- two rules that overlap hold for some frame, which is matched twice
    obtain ⟨s, d, hholds, hholds'⟩ := hover.holds
    obtain ⟨src, rfl⟩ := IPv4.word_surjective s
    obtain ⟨dst, rfl⟩ := IPv4.word_surjective d
    have hcount := h (frameBetween src dst)
    rw [matchCount, if_pos (isIPv4_frameBetween src dst), countP_le_one_iff,
      List.pairwise_iff_getElem] at hcount
    exact hcount i j hi hj hij ⟨hholds, hholds'⟩
  · intro h skb
    rw [matchCount]
    split
    · exact countP_le_one_iff.mpr (h.imp fun hno hh => hno (overlap_of_holds hh.1 hh.2))
    · exact Nat.zero_le 1

end Counters

/-! ## The rules of the tables, one by one -/

/-- What each rule of the program is made of: a policy and an address it
sees. -/
def ruleSources (glob : Text → Text → Bool) (ord : RowOrder) (T : PolicyTable) (G : GlobTable)
    (D : DnsTable) (now : Int) : List (Policy × Text) :=
  (ord.policies T.rows).flatMap fun p => (ruleAddrs glob ord G D now p).map (p, ·)

/-- Two rules, of two policies or for two addresses of one policy, that hold
for one frame. -/
def Collision (glob : Text → Text → Bool) (T : PolicyTable) (G : GlobTable) (D : DnsTable)
    (now : Int) : Prop :=
  ∃ p ∈ T.rows, ∃ q ∈ T.rows, ∃ a b r r', (p, a) ≠ (q, b) ∧ Sees glob G D now p a
    ∧ Sees glob G D now q b ∧ compileRule (ruleFor p a) = some r
    ∧ compileRule (ruleFor q b) = some r' ∧ r.Overlap r'

/-- No frame is matched by both, if both compile. -/
def Apart (x y : Option Rule) : Prop := ∀ r ∈ x, ∀ r' ∈ y, ¬r.Overlap r'

section Sources

variable {glob : Text → Text → Bool} {ord : RowOrder} {T : PolicyTable} {G : GlobTable}
  {D : DnsTable} {now : Int} {P : Program}

theorem ruleAddrs_nodup (p : Policy) : (ruleAddrs glob ord G D now p).Nodup := by
  rw [ruleAddrs]
  cases G.lookup p.globGroup with
  | none => exact List.nodup_nil
  | some g => exact List.nodup_dedup _

theorem mem_ruleSources {p : Policy} {addr : Text} :
    (p, addr) ∈ ruleSources glob ord T G D now ↔ p ∈ T.rows ∧ Sees glob G D now p addr := by
  rw [ruleSources, List.mem_flatMap]
  constructor
  · rintro ⟨q, hq, hmem⟩
    obtain ⟨a, ha, heq⟩ := List.mem_map.mp hmem
    obtain ⟨rfl, rfl⟩ := Prod.mk.inj heq
    exact ⟨(ord.policies_perm _).mem_iff.mp hq, reaches_iff.mp (mem_ruleAddrs.mp ha)⟩
  · rintro ⟨hp, hs⟩
    exact ⟨p, (ord.policies_perm _).mem_iff.mpr hp,
      List.mem_map_of_mem (mem_ruleAddrs.mpr (reaches_iff.mpr hs))⟩

theorem ruleSources_nodup : (ruleSources glob ord T G D now).Nodup := by
  have hrows : (ord.policies T.rows).Nodup :=
    (ord.policies_perm _).nodup_iff.mpr (List.Nodup.of_map _ T.nodup)
  refine List.nodup_flatMap.mpr ⟨fun p _ => ?_, hrows.imp fun hne => ?_⟩
  · exact (ruleAddrs_nodup p).map (Prod.mk_right_injective p)
  · intro x hx hx'
    obtain ⟨a, -, rfl⟩ := List.mem_map.mp hx
    obtain ⟨b, -, heq⟩ := List.mem_map.mp hx'
    exact hne (Prod.mk.inj heq).1.symm

/-- The program, rule by rule. -/
theorem rebuilt_eq (h : Rebuilt glob ord T G D now P) :
    P.map some = (ruleSources glob ord T G D now).map fun s => compileRule (ruleFor s.1 s.2) := by
  obtain ⟨rules, hrules, hP⟩ := h
  rw [applyPolicies_eq] at hrules
  obtain ⟨ls, hls, rfl⟩ := Option.map_eq_some_iff.mp hrules
  have hmap : ls = (ord.policies T.rows).map fun p =>
      (ruleAddrs glob ord G D now p).map (ruleFor p) := by
    rw [Collect.eq_map_getD hls []]
    refine List.map_congr_left fun p hp => ?_
    obtain ⟨rs, -, hrs⟩ := Collect.exists_of_mapM hls hp
    rw [hrs, Option.getD_some, getIpPolicies_eq hrs]
    rfl
  rw [← Collect.mapM_eq_some_iff.mp hP, hmap, ruleSources, ← List.flatMap_def, List.map_flatMap,
    List.map_flatMap]
  simp only [List.map_map, Function.comp_def]

theorem pairwise_rebuilt_iff (h : Rebuilt glob ord T G D now P) :
    (P.Pairwise fun r r' => ¬r.Overlap r') ↔ ¬Collision glob T G D now := by
  have hsome : (P.Pairwise fun r r' => ¬r.Overlap r') ↔ (P.map some).Pairwise Apart := by
    simp only [List.pairwise_map, Apart, Option.mem_some_iff, forall_eq']
  rw [hsome, rebuilt_eq h, List.pairwise_map]
  constructor
  · rintro hpw ⟨p, hp, q, hq, a, b, r, r', hne, ha, hb, hr, hr', hover⟩
    have : Std.Symm fun s t : Policy × Text =>
        Apart (compileRule (ruleFor s.1 s.2)) (compileRule (ruleFor t.1 t.2)) :=
      ⟨fun s t hst r hr r' hr' hover => hst r' hr' r hr hover.symm⟩
    exact hpw.forall (mem_ruleSources.mpr ⟨hp, ha⟩) (mem_ruleSources.mpr ⟨hq, hb⟩) hne
      r hr r' hr' hover
  · intro hno
    refine ruleSources_nodup.pairwise_of_forall_ne ?_
    rintro ⟨p, a⟩ hpa ⟨q, b⟩ hqb hne r hr r' hr' hover
    obtain ⟨hp, ha⟩ := mem_ruleSources.mp hpa
    obtain ⟨hq, hb⟩ := mem_ruleSources.mp hqb
    exact hno ⟨p, hp, q, hq, a, b, r, r', hne, ha, hb, hr, hr', hover⟩

end Sources

/-- The counters say what they are documented to say after the frames that
came exactly when the matches beyond the first are a multiple of `2 ^ 32`.
There are none, whatever comes, exactly when the tables have no two rules for
one frame. -/
theorem throttle_stats_count {glob : Text → Text → Bool} {ord : RowOrder} {T : PolicyTable}
    {G : GlobTable} {D : DnsTable} {now : Int} {P : Program}
    (hP : Rebuilt glob ord T G D now P) :
    (∀ frames, CountsPackets P frames ↔ 2 ^ 32 ∣ surplus P frames) ∧
      ((∀ frames, surplus P frames = 0) ↔ ¬Collision glob T G D now) :=
  ⟨fun _ => countsPackets_iff, surplus_eq_zero_iff.trans (pairwise_rebuilt_iff hP)⟩

/-- One group under policy for the client. -/
theorem reddit_stats_count :
    Rebuilt redditGlob RowOrder.stored redditTable redditGlobs redditDns (5 * minute)
        [⟨0x8c016597, some 0x1400a8c0, 0x10⟩] ∧
      (∀ frames, CountsPackets [⟨0x8c016597, some 0x1400a8c0, 0x10⟩] frames ↔
        2 ^ 32 ∣ surplus [⟨0x8c016597, some 0x1400a8c0, 0x10⟩] frames) ∧
      ((∀ frames, surplus [⟨0x8c016597, some 0x1400a8c0, 0x10⟩] frames = 0) ↔
        ¬Collision redditGlob redditTable redditGlobs redditDns (5 * minute)) := by
  have hP : Rebuilt redditGlob RowOrder.stored redditTable redditGlobs redditDns (5 * minute)
      [⟨0x8c016597, some 0x1400a8c0, 0x10⟩] := Option.bind_eq_some_iff.mp (by decide)
  exact ⟨hP, throttle_stats_count hP⟩

/-- Two groups share the address: one frame is scanned and two are
throttled. -/
theorem one_frame_throttled_twice :
    Rebuilt redditGlob RowOrder.stored overlappingTable socialGlobs redditDns (5 * minute)
        [⟨0x8c016597, some 0x1400a8c0, 0x10⟩, ⟨0x8c016597, some 0x1400a8c0, 0x20⟩] ∧
      throttleAll [⟨0x8c016597, some 0x1400a8c0, 0x10⟩, ⟨0x8c016597, some 0x1400a8c0, 0x20⟩]
        [frameBetween redditServer ⟨192, 168, 0, 20⟩] = ⟨1, 2⟩ ∧
      ¬CountsPackets
        [⟨0x8c016597, some 0x1400a8c0, 0x10⟩, ⟨0x8c016597, some 0x1400a8c0, 0x20⟩]
        [frameBetween redditServer ⟨192, 168, 0, 20⟩] := by
  refine ⟨Option.bind_eq_some_iff.mp (by decide), by decide, fun h => ?_⟩
  have := h.throttled
  revert this
  decide

end Nethadone
