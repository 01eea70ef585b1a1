import Nethadone.CappedTable
import Nethadone.TrafficMon

/-!
# What the traffic monitor counts

The monitor is a table of bounded size fed with frames: nothing removes a
pair, and the result of `bpf_map_update_elem` is not looked at. A pair that
comes while there is room is counted from its first frame to its last, one
that comes later is never counted (`traffic_counted`).
-/

namespace Nethadone

/-! ## The books of a pair -/

/-- The total length in the IP header, high byte first. -/
def ipTotalLength (skb : Skb) : Nat :=
  (byteAt skb.data (ethHlen + 2)).toNat * 256 + (byteAt skb.data (ethHlen + 2 + 1)).toNat

def pairOf (skb : Skb) : IPv4 × IPv4 := (skb.src, skb.dst)

def ipv4Frames (frames : List Skb) : List Skb := frames.filter (·.IsIPv4)

/-- The IPv4 frames from `s` to `d`. -/
def pairFrames (frames : List Skb) (s d : IPv4) : List Skb :=
  frames.filter fun skb => skb.IsIPv4 ∧ pairOf skb = (s, d)

def pairBytes (frames : List Skb) (s d : IPv4) : BitVec 64 :=
  .ofNat 64 ((pairFrames frames s d).map ipTotalLength).sum

/-- The map after the frames, one after the other. -/
def monitorAll (frames : List Skb) : ByteMap :=
  frames.foldl (fun M skb => (trafficMon M skb).1) KeyedTable.empty

/-- The pairs of the frames, in the order of the frames. -/
def pairsSeen (frames : List Skb) : List (IPv4 × IPv4) := (ipv4Frames frames).map pairOf

/-- The map tells the traffic of the pair: nothing without a frame, else the
sum of its total lengths. -/
structure CountedPair (frames : List Skb) (s d : IPv4) : Prop where
  seen : pairFrames frames s d ≠ [] →
    (monitorAll frames).lookup (pairKey d s) = some ⟨pairKey d s, pairBytes frames s d⟩
  unseen : pairFrames frames s d = [] → (monitorAll frames).lookup (pairKey d s) = none

section Counted

variable {M : ByteMap} {skb : Skb} {frames : List Skb} {s d : IPv4}

theorem bpfHtons_append (x y : BitVec 8) : bpfHtons (x ++ y) = y ++ x := by
  have hx := x.isLt
  have hy := y.isLt
  have hdiv : (x.toNat * 256 + y.toNat) / 256 = x.toNat := by omega
  have hmod : (x.toNat * 256 + y.toNat) % 256 = y.toNat := by omega
  apply BitVec.eq_of_toNat_eq
  simp only [bpfHtons, toNat_append_byte, BitVec.extractLsb'_toNat, Nat.shiftRight_eq_div_pow,
    pow_zero, Nat.div_one, Nat.reducePow, hdiv, hmod]
  omega

theorem totLen_eq (skb : Skb) : totLen skb = .ofNat 64 (ipTotalLength skb) := by
  rw [totLen, bpfNtohs, load16, bpfHtons_append, ipTotalLength, ← toNat_append_byte]
  exact (BitVec.ofNat_toNat 64 _).symm

theorem pairKey_injective : Function.Injective fun p : IPv4 × IPv4 => pairKey p.2 p.1 := by
  rintro ⟨s, d⟩ ⟨s', d'⟩ h
  have hd := congrArg keySrcIp h
  have hs := congrArg keyDestIp h
  simp only [keySrcIp_pairKey, keyDestIp_pairKey] at hd hs
  rw [hs, hd]

theorem trafficKey_eq_iff : trafficKey skb = pairKey d s ↔ pairOf skb = (s, d) := by
  rw [trafficKey_eq]
  exact pairKey_injective.eq_iff (a := pairOf skb) (b := (s, d))

/-! ## The monitor as a store -/

/-- The entry of the frame's pair with the frame added. -/
def mergeBytes (v : Option ByteEntry) (skb : Skb) : ByteEntry where
  key := trafficKey skb
  val := match v with
    | none => totLen skb
    | some p => p.val + totLen skb

theorem trafficMon_eq_feed (h : skb.IsIPv4) : (trafficMon M skb).1
    = CappedTable.feed srcDestBytesMax trafficKey mergeBytes M skb :=
  trafficMon_of_ipv4 h

theorem monitorAll_eq : monitorAll frames = (ipv4Frames frames).foldl
    (CappedTable.feed srcDestBytesMax trafficKey mergeBytes) KeyedTable.empty := by
  have hfold : ∀ M : ByteMap, frames.foldl (fun M skb => (trafficMon M skb).1) M
      = (ipv4Frames frames).foldl (CappedTable.feed srcDestBytesMax trafficKey mergeBytes) M := by
    induction frames with
    | nil => exact fun _ => rfl
    | cons skb frames ih =>
        intro M
        rw [List.foldl_cons, ih]
        by_cases hip : skb.IsIPv4
        · have hcons : ipv4Frames (skb :: frames) = skb :: ipv4Frames frames :=
            List.filter_cons_of_pos (decide_eq_true hip)
          rw [hcons, List.foldl_cons, trafficMon_eq_feed hip]
        · have hcons : ipv4Frames (skb :: frames) = ipv4Frames frames :=
            List.filter_cons_of_neg (by simpa using hip)
          rw [hcons, trafficMon_of_not_ipv4 hip]
  exact hfold _

theorem monitorAll_fed : CappedTable.Fed srcDestBytesMax trafficKey mergeBytes (ipv4Frames frames)
    (monitorAll frames) := by
  rw [monitorAll_eq]
  refine CappedTable.fed_foldl ?_ _
  exact fun _ _ => rfl

theorem merged_mergeBytes {k : BitVec 64} {es : List Skb} (hne : es ≠ [])
    (hk : ∀ skb ∈ es, trafficKey skb = k) :
    CappedTable.merged mergeBytes es = some ⟨k, .ofNat 64 (es.map ipTotalLength).sum⟩ := by
  induction es using List.reverseRecOn with
  | nil => exact absurd rfl hne
  | append_singleton es skb ih =>
      rw [CappedTable.merged_concat, List.map_append, List.sum_append, List.map_singleton,
        List.sum_singleton, BitVec.ofNat_add, ← totLen_eq]
      by_cases hes : es = []
      · subst hes
        simp [CappedTable.merged, mergeBytes, hk]
      · rw [ih hes fun skb' hskb' => hk skb' (List.mem_append_left _ hskb')]
        simp [mergeBytes, hk]

/-! ## Pair by pair -/

/-- Fewer than `max_entries` other pairs came before the pair's first frame. -/
def CameInTime (frames : List Skb) (s d : IPv4) : Prop :=
  CappedTable.FirstWithin srcDestBytesMax (pairsSeen frames) (s, d)

theorem firstWithin_trafficKey :
    CappedTable.FirstWithin srcDestBytesMax ((ipv4Frames frames).map trafficKey) (pairKey d s)
      ↔ CameInTime frames s d := by
  have hmap : (ipv4Frames frames).map trafficKey
      = (pairsSeen frames).map fun p => pairKey p.2 p.1 := by
    rw [pairsSeen, List.map_map]
    exact List.map_congr_left fun skb _ => trafficKey_eq skb
  rw [hmap]
  exact CappedTable.firstWithin_map (k := (s, d)) pairKey_injective

theorem filter_trafficKey :
    (ipv4Frames frames).filter (fun skb => trafficKey skb = pairKey d s)
      = pairFrames frames s d := by
  rw [ipv4Frames, List.filter_filter, pairFrames]
  refine List.filter_congr fun skb _ => ?_
  rw [Bool.eq_iff_iff]
  simp only [trafficKey_eq_iff, Bool.and_eq_true, decide_eq_true_eq]
  exact and_comm

theorem mem_pairsSeen : (s, d) ∈ pairsSeen frames ↔ pairFrames frames s d ≠ [] := by
  rw [pairsSeen, List.mem_map, pairFrames, ne_eq, List.filter_eq_nil_iff]
  simp only [ipv4Frames, List.mem_filter, decide_eq_true_eq, and_assoc, not_forall, not_not,
    exists_prop]

theorem lookup_monitorAll_of_cameInTime (h : CameInTime frames s d) :
    (monitorAll frames).lookup (pairKey d s) = some ⟨pairKey d s, pairBytes frames s d⟩ := by
  rw [monitorAll_fed.taken _ (firstWithin_trafficKey.mpr h), filter_trafficKey, pairBytes]
  refine merged_mergeBytes (mem_pairsSeen.mp h.mem) fun skb hskb => ?_
  exact trafficKey_eq_iff.mpr (of_decide_eq_true (List.mem_filter.mp hskb).2).2

theorem lookup_monitorAll_of_not_cameInTime (h : ¬CameInTime frames s d) :
    (monitorAll frames).lookup (pairKey d s) = none :=
  monitorAll_fed.refused _ fun hf => h (firstWithin_trafficKey.mp hf)

theorem lookup_trafficMon_of_other (h : ¬(skb.IsIPv4 ∧ pairOf skb = (s, d))) :
    (trafficMon M skb).1.lookup (pairKey d s) = M.lookup (pairKey d s) := by
  by_cases hip : skb.IsIPv4
  · exact lookup_trafficMon hip fun hk => h ⟨hip, trafficKey_eq_iff.mp hk.symm⟩
  · rw [trafficMon_of_not_ipv4 hip]

theorem countedPair_iff :
    CountedPair frames s d ↔ ((s, d) ∈ pairsSeen frames → CameInTime frames s d) := by
  constructor
  · intro h hmem
    by_contra hlate
    have hentry := h.seen (mem_pairsSeen.mp hmem)
    rw [lookup_monitorAll_of_not_cameInTime hlate] at hentry
    cases hentry
  · refine fun h => ⟨fun hne => lookup_monitorAll_of_cameInTime (h (mem_pairsSeen.mpr hne)),
      fun hnil => lookup_monitorAll_of_not_cameInTime fun hin => ?_⟩
    exact mem_pairsSeen.mp hin.mem hnil

theorem countedPair_all_iff : (∀ s d, CountedPair frames s d) ↔
    (pairsSeen frames).toFinset.card ≤ srcDestBytesMax := by
  rw [← CappedTable.firstWithin_all_iff]
  simp only [countedPair_iff, CameInTime, Prod.forall]

end Counted

/-- The map after any frames: the pairs that came in time have the sum of
their total lengths, the others nothing, and a frame of one pair or of
another protocol leaves every other entry. All traffic is counted exactly
when no more pairs came than the map has entries for. -/
theorem traffic_counted (frames : List Skb) :
    (∀ s d, CameInTime frames s d → (monitorAll frames).lookup (pairKey d s)
        = some ⟨pairKey d s, pairBytes frames s d⟩) ∧
      (∀ s d, ¬CameInTime frames s d → (monitorAll frames).lookup (pairKey d s) = none) ∧
      (∀ (M : ByteMap) (skb : Skb) (s d : IPv4), ¬(skb.IsIPv4 ∧ pairOf skb = (s, d)) →
        (trafficMon M skb).1.lookup (pairKey d s) = M.lookup (pairKey d s)) ∧
      ((∀ s d, CountedPair frames s d) ↔
        (pairsSeen frames).toFinset.card ≤ srcDestBytesMax) :=
  ⟨fun _ _ => lookup_monitorAll_of_cameInTime, fun _ _ => lookup_monitorAll_of_not_cameInTime,
    fun _ _ _ _ => lookup_trafficMon_of_other, countedPair_all_iff⟩

/-! ## One pair too many -/

/-- The `i`-th client of a network that starts at `10.0.0.0`. -/
def client (i : Nat) : IPv4 := ⟨10, 0, .ofNat 8 (i / 256), .ofNat 8 i⟩

/-- One frame from the server to each of `n` clients. -/
def oneEach (n : Nat) : List Skb := (List.range n).map fun i => frameBetween redditServer (client i)

theorem client_injOn {i j : Nat} (hi : i < 65536) (hj : j < 65536) (h : client i = client j) :
    i = j := by
  have h3 := congrArg (fun ip : IPv4 => ip.o3.toNat) h
  have h4 := congrArg (fun ip : IPv4 => ip.o4.toNat) h
  simp only [client, BitVec.toNat_ofNat] at h3 h4
  omega

theorem pairsSeen_oneEach (n : Nat) :
    pairsSeen (oneEach n) = (List.range n).map fun i => (redditServer, client i) := by
  have hall : ipv4Frames (oneEach n) = oneEach n := by
    refine List.filter_eq_self.mpr fun skb hskb => ?_
    obtain ⟨i, -, rfl⟩ := List.mem_map.mp hskb
    exact decide_eq_true (isIPv4_frameBetween _ _)
  rw [pairsSeen, hall, oneEach, List.map_map]
  rfl

/-- The 25001st client is not counted. -/
theorem late_client_uncounted :
    (oneEach 25001).length = 25001 ∧ ¬∀ s d, CountedPair (oneEach 25001) s d := by
  refine ⟨by simp [oneEach], fun h => ?_⟩
  have hnodup : ((List.range 25001).map fun i => (redditServer, client i)).Nodup := by
    refine List.Nodup.map_on (fun i hi j hj hij => ?_) List.nodup_range
    rw [List.mem_range] at hi hj
    exact client_injOn (by omega) (by omega) (Prod.mk.inj hij).2
  have hcard := countedPair_all_iff.mp h
  rw [pairsSeen_oneEach, List.toFinset_card_of_nodup hnodup, List.length_map, List.length_range]
    at hcard
  exact absurd hcard (by decide)

end Nethadone
