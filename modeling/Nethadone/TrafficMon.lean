import Nethadone.Bandwidth
import Nethadone.Exactness

/-!
# The traffic monitor

`ebpf/trafficmon.bpf.c`: the bytes of every IPv4 frame are added to the
map entry of its pair of addresses. The key holds the two words as they
were loaded, the source in the upper half.

The monitor and the throttle program encode the same pair in two ways, raw
words here and octets recombined by shifts there. Both come out as the same
word for the same address (`trafficKey_eq`, `expandIpAddress_text`), so a
rule made from the addresses the list shows is a rule for the packets that
were counted (`monitor_throttle_agree`).
-/

namespace Nethadone

/-- `max_entries` of `src_dest_bytes`. -/
def srcDestBytesMax : Nat := 25000

/-- `bpf_map_update_elem` with `BPF_ANY`: a full map takes no new key. -/
def updateSrcDestBytes (M : ByteMap) (e : ByteEntry) : ByteMap :=
  if (M.lookup e.key).isNone ∧ srcDestBytesMax ≤ M.rows.length then M else M.upsert e

def load16 (data : List (BitVec 8)) (off : Nat) : BitVec 16 :=
  byteAt data (off + 1) ++ byteAt data off

def bpfNtohs (x : BitVec 16) : BitVec 16 := bpfHtons x

/-- `((__u64) l3->saddr) << 32 | ((__u64) l3->daddr)`. -/
def trafficKey (skb : Skb) : BitVec 64 :=
  ((load32 skb.data saddrOff).setWidth 64 <<< 32) ||| (load32 skb.data daddrOff).setWidth 64

/-- `bpf_ntohs(l3->tot_len)`. -/
def totLen (skb : Skb) : BitVec 64 := (bpfNtohs (load16 skb.data (ethHlen + 2))).setWidth 64

def trafficMon (M : ByteMap) (skb : Skb) : ByteMap × TcAction :=
  if skb.protocol ≠ bpfHtons ETH_P_IP then (M, TC_ACT_OK)
  else if ethHlen > skb.data.length then (M, TC_ACT_OK)
  else if ethHlen + ipHlen > skb.data.length then (M, TC_ACT_OK)
  else
    let key := trafficKey skb
    let val := match M.lookup key with
      | none => totLen skb
      | some p => p.val + totLen skb
    (updateSrcDestBytes M ⟨key, val⟩, TC_ACT_OK)

theorem trafficMon_of_not_ipv4 {M : ByteMap} {skb : Skb} (h : ¬skb.IsIPv4) :
    (trafficMon M skb).1 = M := by
  rw [trafficMon, skb.guards_eq, if_neg h]

theorem trafficMon_of_ipv4 {M : ByteMap} {skb : Skb} (h : skb.IsIPv4) : (trafficMon M skb).1
    = updateSrcDestBytes M ⟨trafficKey skb, match M.lookup (trafficKey skb) with
        | none => totLen skb
        | some p => p.val + totLen skb⟩ := by
  rw [trafficMon, skb.guards_eq, if_pos h]

theorem lookup_updateSrcDestBytes_of_ne {M : ByteMap} {e : ByteEntry} {k : BitVec 64}
    (hk : k ≠ e.key) : (updateSrcDestBytes M e).lookup k = M.lookup k := by
  rw [updateSrcDestBytes]
  split
  · rfl
  · rw [KeyedTable.lookup_upsert, if_neg hk.symm]

theorem mem_updateSrcDestBytes {M : ByteMap} {e e' : ByteEntry}
    (h : e' ∈ (updateSrcDestBytes M e).rows) : e' = e ∨ e' ∈ M.rows := by
  rw [updateSrcDestBytes] at h
  split at h
  · exact Or.inr h
  · exact (KeyedTable.mem_upsert.mp h).imp_right And.left

theorem trafficMon_key {M : ByteMap} {skb : Skb} {e : ByteEntry}
    (he : e ∈ (trafficMon M skb).1.rows) :
    (∃ e' ∈ M.rows, e'.key = e.key) ∨ (skb.IsIPv4 ∧ trafficKey skb = e.key) := by
  by_cases hip : skb.IsIPv4
  · rw [trafficMon_of_ipv4 hip] at he
    rcases mem_updateSrcDestBytes he with rfl | he
    · exact Or.inr ⟨hip, rfl⟩
    · exact Or.inl ⟨e, he, rfl⟩
  · rw [trafficMon_of_not_ipv4 hip] at he
    exact Or.inl ⟨e, he, rfl⟩

/-! ## The key -/

theorem shiftLeft_or_setWidth (hi lo : BitVec 32) :
    (hi.setWidth 64 <<< 32) ||| lo.setWidth 64 = hi ++ lo := by
  apply BitVec.eq_of_getLsbD_eq
  intro i hi'
  by_cases hlow : i < 32
  · simp only [BitVec.getLsbD_or, BitVec.getLsbD_shiftLeft, BitVec.getLsbD_setWidth,
      BitVec.getLsbD_append, hlow, hi', decide_true, Bool.not_true, Bool.and_false, Bool.false_and,
      Bool.true_and, Bool.false_or, if_true]
  · have hout : lo.getLsbD i = false := BitVec.getLsbD_of_ge lo i (by omega)
    have hin : i - 32 < 64 := by omega
    simp only [BitVec.getLsbD_or, BitVec.getLsbD_shiftLeft, BitVec.getLsbD_setWidth,
      BitVec.getLsbD_append, hlow, hi', hout, hin, decide_true, decide_false, Bool.not_false,
      Bool.true_and, Bool.and_false, Bool.or_false, if_false]

theorem trafficKey_eq (skb : Skb) : trafficKey skb = pairKey skb.dst skb.src :=
  shiftLeft_or_setWidth _ _

theorem trafficKey_injective {skb skb' : Skb} (h : trafficKey skb = trafficKey skb') :
    skb.src = skb'.src ∧ skb.dst = skb'.dst := by
  rw [trafficKey_eq, trafficKey_eq] at h
  have hdst := congrArg keySrcIp h
  have hsrc := congrArg keyDestIp h
  rw [keySrcIp_pairKey, keySrcIp_pairKey] at hdst
  rw [keyDestIp_pairKey, keyDestIp_pairKey] at hsrc
  exact ⟨hsrc, hdst⟩

/-- An IPv4 frame is counted under its key, and under no other. -/
theorem lookup_trafficMon {M : ByteMap} {skb : Skb} (h : skb.IsIPv4) {k : BitVec 64}
    (hk : k ≠ trafficKey skb) : (trafficMon M skb).1.lookup k = M.lookup k := by
  rw [trafficMon_of_ipv4 h, lookup_updateSrcDestBytes_of_ne hk]

/-- The map can take the key: it has it, or is not full. -/
def HasRoom (M : ByteMap) (key : BitVec 64) : Prop :=
  (M.lookup key).isSome ∨ M.rows.length < srcDestBytesMax

theorem lookup_trafficMon_self {M : ByteMap} {skb : Skb} (h : skb.IsIPv4)
    (hroom : HasRoom M (trafficKey skb)) : (trafficMon M skb).1.lookup (trafficKey skb)
      = some ⟨trafficKey skb, ((M.lookup (trafficKey skb)).elim 0 ByteEntry.val) + totLen skb⟩ := by
  have hin : ¬((M.lookup (trafficKey skb)).isNone ∧ srcDestBytesMax ≤ M.rows.length) := by
    rintro ⟨hnone, hfull⟩
    rcases hroom with hsome | hlt
    · rw [Option.isNone_iff_eq_none.mp hnone] at hsome
      cases hsome
    · omega
  rw [trafficMon_of_ipv4 h, updateSrcDestBytes, if_neg hin, KeyedTable.lookup_upsert, if_pos rfl]
  cases M.lookup (trafficKey skb) with
  | none => simp
  | some e => rfl

/-! ## One pair, two encodings -/

/-- The list shows the addresses a frame was counted under, as the destination
and the source of that frame. -/
theorem mem_getBandwidthList (fmatch : Text → Text → Bool) (ord : RowOrder) (G : GlobTable)
    (D : DnsTable) {skb : Skb} {entries : List ByteEntry} {e : ByteEntry} (he : e ∈ entries)
    (hkey : e.key = trafficKey skb) :
    ∃ b ∈ getBandwidthList fmatch ord G D false entries,
      b.srcIpAddr = skb.dst ∧ b.destIpAddr = skb.src ∧ b.bytes = e.val := by
  refine ⟨bandwidthOf fmatch ord G D e, ?_, ?_, ?_, rfl⟩
  · rw [getBandwidthList]
    exact List.mem_map.mpr ⟨e, List.mem_filter.mpr ⟨he, rfl⟩, rfl⟩
  · show keySrcIp e.key = skb.dst
    rw [hkey, trafficKey_eq, keySrcIp_pairKey]
  · show keyDestIp e.key = skb.src
    rw [hkey, trafficKey_eq, keyDestIp_pairKey]

/-- A rule made of two addresses, of any class that is a constant, holds for a
frame exactly when they are its destination and source. -/
theorem exists_pasted_rule (S R : IPv4) {cls : Int}
    (hcls : (Numeral.cIntConst (classIdLiteral cls)).isSome) (skb : Skb) :
    ∃ rule, compileRule ⟨replaceAll '.' ',' S.text, replaceAll '.' ',' R.text, cls⟩ = some rule
      ∧ (rule.holds (load32 skb.data saddrOff) (load32 skb.data daddrOff) = true
        ↔ (skb.dst, skb.src) = (S, R)) := by
  obtain ⟨n, hn⟩ := Option.isSome_iff_exists.mp hcls
  have hrule := compileRule_text S R cls
  rw [hn, Option.map_some] at hrule
  have hfits := holds_iff ⟨S, R, rfl, rfl⟩ hrule skb
  refine ⟨_, hrule, hfits.trans ?_⟩
  rw [RuleFits, Prod.mk.injEq]
  exact ⟨fun h => ⟨(replaceAll_text_injective h.1).symm, (replaceAll_text_injective h.2).symm⟩,
    fun h => by rw [h.1, h.2]; exact ⟨rfl, rfl⟩⟩

/-- The monitor and the throttle program agree on the pair of every frame: the
monitor counts it under a key of its own pair, which the list decodes to
the frame's destination and source, and a rule made of two addresses holds
for it exactly when they are these two. -/
theorem monitor_throttle_agree (fmatch : Text → Text → Bool) (ord : RowOrder) (G : GlobTable)
    (D : DnsTable) (skb : Skb) (h : skb.IsIPv4) :
    (∀ M, HasRoom M (trafficKey skb) → ∀ entries, entries.Perm (trafficMon M skb).1.rows →
        ∃ b ∈ getBandwidthList fmatch ord G D false entries,
          b.srcIpAddr = skb.dst ∧ b.destIpAddr = skb.src
            ∧ b.bytes = ((M.lookup (trafficKey skb)).elim 0 ByteEntry.val) + totLen skb)
      ∧ (∀ (M : ByteMap) (k : BitVec 64), k ≠ trafficKey skb →
          (trafficMon M skb).1.lookup k = M.lookup k)
      ∧ (∀ skb' : Skb, skb'.IsIPv4 → (skb'.src, skb'.dst) ≠ (skb.src, skb.dst) →
          trafficKey skb' ≠ trafficKey skb)
      ∧ ∀ entries, ∀ e ∈ entries, e.key = trafficKey skb →
          ∃ b ∈ getBandwidthList fmatch ord G D false entries, b.bytes = e.val
            ∧ (b.srcIpAddr, b.destIpAddr) = (skb.dst, skb.src)
            ∧ ∀ (S R : IPv4) (cls : Int), (Numeral.cIntConst (classIdLiteral cls)).isSome →
                ∃ rule, compileRule ⟨replaceAll '.' ',' S.text, replaceAll '.' ',' R.text, cls⟩
                    = some rule
                  ∧ (rule.holds (load32 skb.data saddrOff) (load32 skb.data daddrOff) = true
                    ↔ (b.srcIpAddr, b.destIpAddr) = (S, R)) := by
  refine ⟨fun M hroom entries hperm => ?_, fun M k => lookup_trafficMon h,
    fun skb' _ hne hkey => ?_, fun entries e he hkey => ?_⟩
  · obtain ⟨hmem, hkey⟩ := KeyedTable.lookup_eq_some.mp (lookup_trafficMon_self h hroom)
    exact mem_getBandwidthList fmatch ord G D (hperm.mem_iff.mpr hmem) hkey
  · obtain ⟨hs, hd⟩ := trafficKey_injective hkey
    exact hne (by rw [hs, hd])
  · obtain ⟨b, hb, hsrc, hdest, hbytes⟩ := mem_getBandwidthList fmatch ord G D he hkey
    refine ⟨b, hb, hbytes, by rw [hsrc, hdest], fun S R cls hcls => ?_⟩
    rw [hsrc, hdest]
    exact exists_pasted_rule S R hcls skb

/-- A frame of the reddit server, the first one counted, is listed for its
client, and the client's rule holds for it. -/
theorem monitor_throttle_agree_reddit :
    (∃ b ∈ getBandwidthList redditGlob RowOrder.stored redditGlobs redditDns false
        (trafficMon KeyedTable.empty (frameBetween redditServer ⟨192, 168, 0, 20⟩)).1.rows,
      b.srcIpAddr = ⟨192, 168, 0, 20⟩ ∧ b.destIpAddr = redditServer)
      ∧ ∃ rule, compileRule ⟨"192,168,0,20".toList, "151,101,1,140".toList, 20⟩ = some rule
        ∧ rule.holds (load32 (frameBetween redditServer ⟨192, 168, 0, 20⟩).data saddrOff)
            (load32 (frameBetween redditServer ⟨192, 168, 0, 20⟩).data daddrOff) = true := by
  obtain ⟨hlist, -, -, hrules⟩ := monitor_throttle_agree redditGlob RowOrder.stored redditGlobs
    redditDns _ (isIPv4_frameBetween redditServer ⟨192, 168, 0, 20⟩)
  obtain ⟨b, hb, hsrc, hdest, -⟩ := hlist KeyedTable.empty (Or.inr (by decide)) _
    (List.Perm.refl _)
  obtain ⟨b', -, -, hpair, hrule⟩ := hrules
    [⟨trafficKey (frameBetween redditServer ⟨192, 168, 0, 20⟩), 0⟩] _ (List.mem_singleton.mpr rfl)
    rfl
  obtain ⟨rule, hcompiled, hholds⟩ := hrule ⟨192, 168, 0, 20⟩ redditServer 20 (by decide)
  exact ⟨⟨b, hb, hsrc, hdest⟩, rule, hcompiled, hholds.mpr hpair⟩

end Nethadone
