import Nethadone.Capture

/-!
# Which frames the sniffer takes

The program has the UDP header stand 34 bytes into the frame, behind an IP
header of twenty bytes, and does not ask for the header length or the
fragment offset anywhere. What it takes is therefore a matter of four
fields at fixed places (`Accepts`). For a first fragment without IP options
these are the fields of a DNS packet (`IsDns`), for other frames they are
whatever stands there (`sniffer_acceptance`).
-/

namespace Nethadone

/-- `ihl`, in bytes. -/
def ipHeaderLen (data : Bytes) : Nat := (byteAt data ethHlen &&& 0x0f).toNat * 4

def fragOffset (data : Bytes) : BitVec 16 := bpfNtohs (load16 data (ethHlen + 6)) &&& 0x1fff

/-- Where the UDP header stands behind an IP header of the length it says. -/
def udpOff (data : Bytes) : Nat := ethHlen + ipHeaderLen data

/-- A UDP packet to or from port 53, or the first fragment of one, with its
headers in the packet data. -/
structure IsDns (data : Bytes) : Prop where
  headers : udpOff data + udpHlen ≤ data.length
  proto : hProto data = bpfHtons ETH_P_IP
  udp : ipProtocol data = IPPROTO_UDP
  first : fragOffset data = 0
  port : load16 data (udpOff data + 2) = bpfHtons 53 ∨ load16 data (udpOff data) = bpfHtons 53

section Acceptance

variable {data : Bytes}

theorem accepts_iff_isDns (hihl : ipHeaderLen data = ipHlen) (hfirst : fragOffset data = 0) :
    Accepts data ↔ IsDns data := by
  have hoff : udpOff data = ethHlen + ipHlen := by rw [udpOff, hihl]
  constructor
  · intro h
    exact ⟨hoff ▸ h.headers, h.proto, h.udp, hfirst, hoff ▸ h.port⟩
  · intro h
    have hheaders := h.headers
    have hport := h.port
    rw [hoff] at hheaders hport
    exact ⟨hheaders, h.proto, h.udp, hport⟩

end Acceptance

/-- A sample is submitted exactly for the frames with the four fields at their
places, and it starts behind the place of the UDP header. Nothing happens
for any other frame. Without IP options and for a first fragment these
frames are the DNS packets. -/
theorem sniffer_acceptance (f : SniffedFrame) (old : Payload) :
    ((udpDnsSniff f old).1.isSome ↔ Accepts f.linear) ∧
      (∀ sample, (udpDnsSniff f old).1 = some sample →
        ∀ i < min f.len dataLen, sample[i]? = some (f.memAt (udpDataOff + i))) ∧
      (¬Accepts f.linear → udpDnsSniff f old = (none, old, TC_ACT_OK)) ∧
      (ipHeaderLen f.linear = ipHlen → fragOffset f.linear = 0 →
        (Accepts f.linear ↔ IsDns f.linear)) := by
  refine ⟨isSome_udpDnsSniff_iff, fun sample hsample i hi => ?_,
    fun h => udpDnsSniff_of_not_accepts h old, accepts_iff_isDns⟩
  have hacc : Accepts f.linear :=
    isSome_udpDnsSniff_iff.mp (Option.isSome_iff_exists.mpr ⟨_, hsample⟩)
  rw [udpDnsSniff_of_accepts hacc, Option.some.injEq] at hsample
  rw [← hsample, getElem?_sampleOf (lt_min_iff.mp hi).2, if_pos hi]

/-! ## A header with options, and a later fragment -/

/-- A question to port 53 behind a router alert option. -/
def optionFrame : SniffedFrame :=
  ⟨List.replicate 12 0 ++ [0x08, 0x00]
    ++ [0x46, 0, 0, 44, 0, 0, 0x40, 0, 64, 17, 0, 0, 192, 168, 0, 20, 9, 9, 9, 9, 0x94, 4, 0, 0]
    ++ [0xc0, 0, 0, 53, 0, 20, 0, 0]
    ++ [0x12, 0x34, 1, 0, 0, 0, 0, 0, 0, 0, 0, 0], [], fun _ => 0⟩

/-- The end of a large datagram, of any ports, whose bytes there are
`00 35 c0 00`. -/
def fragmentFrame : SniffedFrame :=
  ⟨List.replicate 12 0 ++ [0x08, 0x00]
    ++ [0x45, 0, 0, 28, 0, 1, 0x00, 0xb9, 64, 17, 0, 0, 9, 9, 9, 9, 192, 168, 0, 20]
    ++ [0, 53, 0xc0, 0, 0, 0, 0, 0], [], fun _ => 0⟩

/-- The question is missed, and the fragment is taken for DNS. -/
theorem options_missed_fragment_taken :
    (IsDns optionFrame.linear ∧
        udpDnsSniff optionFrame blankPayload = (none, blankPayload, TC_ACT_OK)) ∧
      ¬IsDns fragmentFrame.linear ∧ (udpDnsSniff fragmentFrame blankPayload).1.isSome := by
  refine ⟨⟨⟨by decide, by decide, by decide, by decide, by decide⟩,
    udpDnsSniff_of_not_accepts (fun h => ?_) _⟩, fun h => ?_, ?_⟩
  · have hport := h.port
    revert hport
    decide
  · have hfirst := h.first
    revert hfirst
    decide
  · exact isSome_udpDnsSniff_iff.mpr ⟨by decide, by decide, by decide, by decide⟩

end Nethadone
