import Nethadone.Models

/-!
# Packets as the tc programs see them

The part of `struct __sk_buff` the eBPF programs use: the protocol, the
linear packet bytes between `data` and `data_end`, and the class the
classifier may write. The host is little-endian: a word loaded from the
packet has its first byte lowest, and `bpf_htons` swaps.
-/

namespace Nethadone

structure Skb where
  protocol : BitVec 16
  data : List (BitVec 8)
  tcClassid : BitVec 32
deriving DecidableEq

abbrev TcAction := Int

def TC_ACT_OK : TcAction := 0

/-! ## Loads -/

def bpfHtons (x : BitVec 16) : BitVec 16 := x.extractLsb' 0 8 ++ x.extractLsb' 8 8

def ETH_P_IP : BitVec 16 := 0x0800#16

def byteAt (data : List (BitVec 8)) (off : Nat) : BitVec 8 := data.getD off 0

def word32 (b0 b1 b2 b3 : BitVec 8) : BitVec 32 := b3 ++ b2 ++ b1 ++ b0

def load32 (data : List (BitVec 8)) (off : Nat) : BitVec 32 :=
  word32 (byteAt data off) (byteAt data (off + 1)) (byteAt data (off + 2)) (byteAt data (off + 3))

theorem toNat_append_byte {w : Nat} (x : BitVec w) (b : BitVec 8) :
    (x ++ b).toNat = x.toNat * 256 + b.toNat := by
  have hb : b.toNat < 2 ^ 8 := b.isLt
  rw [BitVec.toNat_append, ← Nat.shiftLeft_add_eq_or_of_lt hb, Nat.shiftLeft_eq]

theorem toNat_word32 (b0 b1 b2 b3 : BitVec 8) :
    (word32 b0 b1 b2 b3).toNat
      = b0.toNat + b1.toNat * 256 + b2.toNat * 65536 + b3.toNat * 16777216 := by
  unfold word32
  rw [toNat_append_byte, toNat_append_byte, toNat_append_byte]
  ring

/-! ## Headers -/

/-- `sizeof(struct ethhdr)`. -/
def ethHlen : Nat := 14

/-- `sizeof(struct iphdr)`. -/
def ipHlen : Nat := 20

/-- Where `saddr` and `daddr` stand in a frame. -/
def saddrOff : Nat := ethHlen + 12

def daddrOff : Nat := ethHlen + 16

def addrAt (data : List (BitVec 8)) (off : Nat) : IPv4 :=
  ⟨byteAt data off, byteAt data (off + 1), byteAt data (off + 2), byteAt data (off + 3)⟩

def Skb.src (skb : Skb) : IPv4 := addrAt skb.data saddrOff

def Skb.dst (skb : Skb) : IPv4 := addrAt skb.data daddrOff

/-- An IPv4 frame with its Ethernet and IP headers inside the linear data. -/
def Skb.IsIPv4 (skb : Skb) : Prop :=
  skb.protocol = bpfHtons ETH_P_IP ∧ ethHlen + ipHlen ≤ skb.data.length

instance (skb : Skb) : Decidable skb.IsIPv4 := inferInstanceAs (Decidable (_ ∧ _))

/-- The checks with which the programs begin: what passes them is IPv4. -/
theorem Skb.guards_eq {α : Type*} (skb : Skb) (stop go : α) :
    (if skb.protocol ≠ bpfHtons ETH_P_IP then stop
      else if ethHlen > skb.data.length then stop
      else if ethHlen + ipHlen > skb.data.length then stop
      else go) = if skb.IsIPv4 then go else stop := by
  by_cases hip : skb.IsIPv4
  · obtain ⟨hp, hl⟩ := id hip
    have hl1 : ¬ethHlen > skb.data.length := by omega
    have hl2 : ¬ethHlen + ipHlen > skb.data.length := by omega
    rw [if_pos hip, if_neg (not_not.mpr hp), if_neg hl1, if_neg hl2]
  · rw [if_neg hip]
    by_cases hp : skb.protocol = bpfHtons ETH_P_IP
    · have hl : ethHlen + ipHlen > skb.data.length := by
        by_contra hle
        exact hip ⟨hp, not_lt.mp hle⟩
      rw [if_neg (not_not.mpr hp), if_pos hl, ite_self]
    · rw [if_pos hp]

def IPv4.word (ip : IPv4) : BitVec 32 := word32 ip.o1 ip.o2 ip.o3 ip.o4

theorem IPv4.word_injective {a b : IPv4} (h : a.word = b.word) : a = b := by
  obtain ⟨a1, a2, a3, a4⟩ := a
  obtain ⟨b1, b2, b3, b4⟩ := b
  have hn := congrArg BitVec.toNat h
  simp only [IPv4.word, toNat_word32] at hn
  have := a1.isLt; have := a2.isLt; have := a3.isLt; have := a4.isLt
  have := b1.isLt; have := b2.isLt; have := b3.isLt; have := b4.isLt
  have h1 : a1.toNat = b1.toNat := by omega
  have h2 : a2.toNat = b2.toNat := by omega
  have h3 : a3.toNat = b3.toNat := by omega
  have h4 : a4.toNat = b4.toNat := by omega
  rw [BitVec.eq_of_toNat_eq h1, BitVec.eq_of_toNat_eq h2, BitVec.eq_of_toNat_eq h3,
    BitVec.eq_of_toNat_eq h4]

theorem IPv4.word_surjective (w : BitVec 32) : ∃ ip : IPv4, ip.word = w := by
  refine ⟨⟨w.extractLsb' 0 8, w.extractLsb' 8 8, w.extractLsb' 16 8, w.extractLsb' 24 8⟩, ?_⟩
  apply BitVec.eq_of_toNat_eq
  have hw := w.isLt
  simp only [IPv4.word, toNat_word32, BitVec.extractLsb'_toNat, Nat.shiftRight_eq_div_pow]
  omega

/-- The shortest IPv4 frame between two addresses. -/
def frameBetween (src dst : IPv4) : Skb where
  protocol := bpfHtons ETH_P_IP
  data := List.replicate 26 0
    ++ [src.o1, src.o2, src.o3, src.o4, dst.o1, dst.o2, dst.o3, dst.o4]
  tcClassid := 0

theorem isIPv4_frameBetween (src dst : IPv4) : (frameBetween src dst).IsIPv4 := ⟨rfl, le_refl _⟩

end Nethadone
