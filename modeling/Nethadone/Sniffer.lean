import Nethadone.DnsAnswers
import Nethadone.TrafficMon

/-!
# The DNS sniffer

`ebpf/dnspkt.bpf.c`: a UDP packet to or from port 53 has what follows its
headers copied to a per-CPU buffer, and the whole buffer goes to user space.
The headers are taken to stand at fixed offsets.

The copy reads memory, not the packet: it starts behind the UDP header,
takes as many bytes as the whole frame has (at most the buffer's size), and
so runs past the end of a short frame, and past the linear part of one whose
rest lies elsewhere. `memAt` is that memory. What the buffer held before
stays behind the copied bytes.
-/

namespace Nethadone

/-- `DATA_LEN`. -/
def dataLen : Nat := 508

/-- `struct payload_t`. -/
structure Payload where
  len : BitVec 32
  data : Bytes
  length_data : data.length = dataLen

/-- A frame in memory: the packet bytes between `data` and `data_end`, those of
its bytes that are elsewhere, and what the memory behind `data_end` holds. -/
structure SniffedFrame where
  linear : Bytes
  paged : Bytes
  behind : Nat → BitVec 8

/-- `skb->len`. -/
def SniffedFrame.len (f : SniffedFrame) : Nat := f.linear.length + f.paged.length

def SniffedFrame.memAt (f : SniffedFrame) (i : Nat) : BitVec 8 :=
  if i < f.linear.length then byteAt f.linear i else f.behind (i - f.linear.length)

/-- `sizeof(struct udphdr)`. -/
def udpHlen : Nat := 8

/-- Where the program takes the UDP payload to start. -/
def udpDataOff : Nat := ethHlen + ipHlen + udpHlen

def IPPROTO_UDP : BitVec 8 := 17

def hProto (data : Bytes) : BitVec 16 := load16 data 12

def ipProtocol (data : Bytes) : BitVec 8 := byteAt data (ethHlen + 9)

def udpSource (data : Bytes) : BitVec 16 := load16 data (ethHlen + ipHlen)

def udpDest (data : Bytes) : BitVec 16 := load16 data (ethHlen + ipHlen + 2)

/-- The bytes that go to user space: copied ones, then old ones. -/
def sampleOf (f : SniffedFrame) (old : Payload) : Bytes :=
  (List.range dataLen).map fun i =>
    if i < min f.len dataLen then f.memAt (udpDataOff + i) else byteAt old.data i

theorem length_sampleOf (f : SniffedFrame) (old : Payload) :
    (sampleOf f old).length = dataLen := by
  rw [sampleOf, List.length_map, List.length_range]

/-- The sample that is submitted, if any, the buffer afterwards, and the action. -/
def udpDnsSniff (f : SniffedFrame) (old : Payload) : Option Bytes × Payload × TcAction :=
  if udpDataOff > f.linear.length then (none, old, TC_ACT_OK)
  else if hProto f.linear = bpfHtons ETH_P_IP ∧ ipProtocol f.linear = IPPROTO_UDP
      ∧ (udpDest f.linear = bpfHtons 53 ∨ udpSource f.linear = bpfHtons 53) then
    let payload : Payload :=
      ⟨.ofNat 32 f.len - .ofNat 32 udpDataOff, sampleOf f old, length_sampleOf f old⟩
    (some payload.data, payload, TC_ACT_OK)
  else (none, old, TC_ACT_OK)

/-! ## What is taken, and what is copied -/

/-- What the program asks of a frame. -/
structure Accepts (data : Bytes) : Prop where
  headers : udpDataOff ≤ data.length
  proto : hProto data = bpfHtons ETH_P_IP
  udp : ipProtocol data = IPPROTO_UDP
  port : udpDest data = bpfHtons 53 ∨ udpSource data = bpfHtons 53

section Sample

variable {f : SniffedFrame} {old : Payload}

theorem udpDnsSniff_of_accepts (h : Accepts f.linear) (old : Payload) :
    udpDnsSniff f old = (some (sampleOf f old),
      ⟨.ofNat 32 f.len - .ofNat 32 udpDataOff, sampleOf f old, length_sampleOf f old⟩,
      TC_ACT_OK) := by
  rw [udpDnsSniff, if_neg (not_lt.mpr h.headers), if_pos ⟨h.proto, h.udp, h.port⟩]

theorem udpDnsSniff_of_not_accepts (h : ¬Accepts f.linear) (old : Payload) :
    udpDnsSniff f old = (none, old, TC_ACT_OK) := by
  rw [udpDnsSniff]
  by_cases hlen : udpDataOff > f.linear.length
  · rw [if_pos hlen]
  · rw [if_neg hlen, if_neg fun hok => h ⟨not_lt.mp hlen, hok.1, hok.2.1, hok.2.2⟩]

theorem isSome_udpDnsSniff_iff : (udpDnsSniff f old).1.isSome ↔ Accepts f.linear := by
  by_cases h : Accepts f.linear
  · simp [udpDnsSniff_of_accepts h, h]
  · simp [udpDnsSniff_of_not_accepts h, h]

theorem getElem?_sampleOf {i : Nat} (hi : i < dataLen) : (sampleOf f old)[i]?
    = some (if i < min f.len dataLen then f.memAt (udpDataOff + i) else byteAt old.data i) := by
  rw [sampleOf, List.getElem?_map, List.getElem?_range hi, Option.map_some]

/-- As far as the packet is linear and the buffer reaches, the sample is what
the packet has behind its headers. -/
theorem take_sampleOf {k : Nat} (hk : k ≤ dataLen) (hlin : udpDataOff + k ≤ f.linear.length) :
    (sampleOf f old).take k = (f.linear.drop udpDataOff).take k := by
  apply List.ext_getElem?
  intro i
  rw [List.getElem?_take, List.getElem?_take]
  split
  · rename_i hi
    have hlen : i < min f.len dataLen := by
      rw [lt_min_iff, SniffedFrame.len]
      omega
    have hmem : udpDataOff + i < f.linear.length := by omega
    rw [getElem?_sampleOf (by omega), if_pos hlen, SniffedFrame.memAt, if_pos hmem,
      List.getElem?_drop, byteAt, List.getD_eq_getElem?_getD, List.getElem?_eq_getElem hmem,
      Option.getD_some]
  · rfl

end Sample

end Nethadone
