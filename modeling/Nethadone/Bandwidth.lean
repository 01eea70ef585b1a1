import Mathlib.Tactic.IntervalCases
import Nethadone.Database
import Nethadone.Skb

/-!
# Bandwidth per address pair

`getBandwidthList` of `handlers/handlers.go`: the entries of the traffic
monitor's map, with their keys taken apart into two addresses and each
remote address labelled with its likely domain and the first glob group
that matches it.

A key is read as eight bytes, lowest first. The lower four are the
packet's destination, which for the traffic counted is the client; the
source calls it `SrcIpAddr`.
-/

namespace Nethadone

/-! ## The byte map -/

structure ByteEntry where
  key : BitVec 64
  val : BitVec 64
deriving DecidableEq

abbrev ByteMap := KeyedTable ByteEntry.key

def ByteMap.count (M : ByteMap) (key : BitVec 64) : Nat :=
  match M.lookup key with
  | some e => e.val.toNat
  | none => 0

/-! ## Keys -/

/-- Byte `i` of `binary.LittleEndian.PutUint64`. -/
def leByte (key : BitVec 64) (i : Nat) : BitVec 8 := key.extractLsb' (8 * i) 8

/-- `binary.BigEndian.Uint32`. -/
def beUint32 (b0 b1 b2 b3 : BitVec 8) : BitVec 32 := b0 ++ b1 ++ b2 ++ b3

/-- `binary.BigEndian.PutUint32`, into a four-byte address. -/
def bePutUint32 (x : BitVec 32) : IPv4 :=
  ⟨x.extractLsb' 24 8, x.extractLsb' 16 8, x.extractLsb' 8 8, x.extractLsb' 0 8⟩

def keySrcIp (key : BitVec 64) : IPv4 :=
  bePutUint32 (beUint32 (leByte key 0) (leByte key 1) (leByte key 2) (leByte key 3))

def keyDestIp (key : BitVec 64) : IPv4 :=
  bePutUint32 (beUint32 (leByte key 4) (leByte key 5) (leByte key 6) (leByte key 7))

theorem bePutUint32_beUint32 (b0 b1 b2 b3 : BitVec 8) :
    bePutUint32 (beUint32 b0 b1 b2 b3) = ⟨b0, b1, b2, b3⟩ := by
  have hval : (beUint32 b0 b1 b2 b3).toNat
      = b0.toNat * 16777216 + b1.toNat * 65536 + b2.toNat * 256 + b3.toNat := by
    unfold beUint32
    rw [toNat_append_byte, toNat_append_byte, toNat_append_byte]
    ring
  have h0 := b0.isLt; have h1 := b1.isLt; have h2 := b2.isLt; have h3 := b3.isLt
  simp only [bePutUint32, IPv4.mk.injEq]
  refine ⟨?_, ?_, ?_, ?_⟩ <;> apply BitVec.eq_of_toNat_eq <;>
    simp only [BitVec.extractLsb'_toNat, hval, Nat.shiftRight_eq_div_pow] <;> omega

theorem eq_of_leByte {k k' : BitVec 64} (h : ∀ i < 8, leByte k i = leByte k' i) : k = k' := by
  apply BitVec.eq_of_getLsbD_eq
  intro i hi
  have hbit := congrArg (·.getLsbD (i % 8)) (h (i / 8) (by omega))
  have hlt : i % 8 < 8 := Nat.mod_lt _ (by decide)
  have hpos : 8 * (i / 8) + i % 8 = i := Nat.div_add_mod i 8
  simpa only [leByte, BitVec.getLsbD_extractLsb', hlt, decide_true, Bool.true_and, hpos] using hbit

theorem key_injective {k k' : BitVec 64} (hsrc : keySrcIp k = keySrcIp k')
    (hdest : keyDestIp k = keyDestIp k') : k = k' := by
  simp only [keySrcIp, keyDestIp, bePutUint32_beUint32, IPv4.mk.injEq] at hsrc hdest
  obtain ⟨h0, h1, h2, h3⟩ := hsrc
  obtain ⟨h4, h5, h6, h7⟩ := hdest
  apply eq_of_leByte
  intro i hi
  interval_cases i <;> assumption

/-- The key under which the bytes between a client and a remote address are
counted. -/
def pairKey (src dest : IPv4) : BitVec 64 := dest.word ++ src.word

theorem leByte_append (hi lo : BitVec 32) (i : Nat) :
    leByte (hi ++ lo) i
      = if i < 4 then lo.extractLsb' (8 * i) 8 else hi.extractLsb' (8 * (i - 4)) 8 := by
  apply BitVec.eq_of_getLsbD_eq
  intro j hj
  split
  · rename_i hlo
    have hlt : 8 * i + j < 32 := by omega
    simp only [leByte, BitVec.getLsbD_extractLsb', BitVec.getLsbD_append, hlt, if_true]
  · rename_i hhi
    have hge : ¬8 * i + j < 32 := by omega
    have hsub : 8 * i + j - 32 = 8 * (i - 4) + j := by omega
    simp only [leByte, BitVec.getLsbD_extractLsb', BitVec.getLsbD_append, hge, if_false, hsub]

theorem extract_word (ip : IPv4) :
    ip.word.extractLsb' 0 8 = ip.o1 ∧ ip.word.extractLsb' 8 8 = ip.o2
      ∧ ip.word.extractLsb' 16 8 = ip.o3 ∧ ip.word.extractLsb' 24 8 = ip.o4 := by
  have h1 := ip.o1.isLt; have h2 := ip.o2.isLt; have h3 := ip.o3.isLt; have h4 := ip.o4.isLt
  refine ⟨?_, ?_, ?_, ?_⟩ <;> apply BitVec.eq_of_toNat_eq <;>
    simp only [BitVec.extractLsb'_toNat, IPv4.word, toNat_word32, Nat.shiftRight_eq_div_pow] <;>
    omega

theorem keySrcIp_pairKey (src dest : IPv4) : keySrcIp (pairKey src dest) = src := by
  obtain ⟨h1, h2, h3, h4⟩ := extract_word src
  simp only [keySrcIp, pairKey, leByte_append, bePutUint32_beUint32]
  simp [h1, h2, h3, h4]

theorem keyDestIp_pairKey (src dest : IPv4) : keyDestIp (pairKey src dest) = dest := by
  obtain ⟨h1, h2, h3, h4⟩ := extract_word dest
  simp only [keyDestIp, pairKey, leByte_append, bePutUint32_beUint32]
  simp [h1, h2, h3, h4]

theorem pairKey_eq (key : BitVec 64) : pairKey (keySrcIp key) (keyDestIp key) = key :=
  key_injective (keySrcIp_pairKey _ _) (keyDestIp_pairKey _ _)

/-! ## The list -/

structure BandwidthList where
  srcIpAddr : IPv4
  destIpAddr : IPv4
  bytes : BitVec 64
  probDomain : Text
  globName : Text
deriving DecidableEq

/-- The first group, in the order of the rows, whose glob matches. `fmatch`
stands for `filepath.Match`, the pattern first; a malformed pattern does
not match. -/
def getMatchingGlobGroup (fmatch : Text → Text → Bool) (ord : RowOrder) (G : GlobTable)
    (dom : Text) : Option GlobGroup :=
  (getGlobs ord G).find? fun g => fmatch g.glob dom

def creditedGroup (fmatch : Text → Text → Bool) (ord : RowOrder) (G : GlobTable) (D : DnsTable)
    (ip : Text) : Option GlobGroup :=
  getMatchingGlobGroup fmatch ord G (getDomainForIP ord D ip)

theorem mem_of_creditedGroup {fmatch : Text → Text → Bool} {ord : RowOrder} {G : GlobTable}
    {D : DnsTable} {ip : Text} {g : GlobGroup} (h : creditedGroup fmatch ord G D ip = some g) :
    g ∈ G.rows :=
  (ord.globs_perm _).mem_iff.mp (List.mem_of_find?_eq_some h)

def bandwidthOf (fmatch : Text → Text → Bool) (ord : RowOrder) (G : GlobTable) (D : DnsTable)
    (e : ByteEntry) : BandwidthList where
  srcIpAddr := keySrcIp e.key
  destIpAddr := keyDestIp e.key
  bytes := e.val
  probDomain := getDomainForIP ord D (keyDestIp e.key).text
  globName := match creditedGroup fmatch ord G D (keyDestIp e.key).text with
    | some gg => gg.name
    | none => []

/-- The list over the entries in the order the map hands them out. -/
def getBandwidthList (fmatch : Text → Text → Bool) (ord : RowOrder) (G : GlobTable)
    (D : DnsTable) (globsOnly : Bool) (entries : List ByteEntry) : List BandwidthList :=
  (entries.filter fun e =>
      !globsOnly || (creditedGroup fmatch ord G D (keyDestIp e.key).text).isSome).map
    (bandwidthOf fmatch ord G D)

end Nethadone
