import Nethadone.Sniffer

/-!
# From the answer on the wire to the table

A DNS response passes the sniffer's buffer of `DATA_LEN` bytes and a decoder
that is content with trailing bytes but not with missing ones. So the
records of its answer section reach the table when the section ends within
the buffer, and none of them does when it ends behind it (`dns_capture`).
-/

namespace Nethadone

/-- What is relied on of the decoder for one response: it finds all answers when
the answer section lies inside the given bytes, whatever follows it, and
none when the section is cut off. -/
structure Decodes (unpack : Bytes → List RR) (response : Bytes) (answerEnd : Nat)
    (answers : List RR) : Prop where
  inside : answerEnd ≤ response.length
  complete : ∀ b, response.take answerEnd <+: b → unpack b = answers
  cut : ∀ n < answerEnd, unpack (response.take n) = []

/-- The frame carries the response in one unfragmented IPv4 UDP datagram without
IP options, from port 53. Ethernet may pad it. -/
structure CarriesResponse (f : SniffedFrame) (response : Bytes) : Prop where
  headers : udpDataOff ≤ f.linear.length
  proto : hProto f.linear = bpfHtons ETH_P_IP
  versionIhl : byteAt f.linear ethHlen = 0x45
  totLen : bpfNtohs (load16 f.linear (ethHlen + 2)) = .ofNat 16 (ipHlen + udpHlen + response.length)
  unfragmented : bpfNtohs (load16 f.linear (ethHlen + 6)) &&& 0x3fff = 0
  udp : ipProtocol f.linear = IPPROTO_UDP
  source : udpSource f.linear = bpfHtons 53
  payload : response <+: (f.linear ++ f.paged).drop udpDataOff

section Capture

variable {unpack : Bytes → List RR} {response : Bytes} {answerEnd : Nat} {answers : List RR}
  {f : SniffedFrame}

theorem CarriesResponse.accepts (h : CarriesResponse f response) : Accepts f.linear :=
  ⟨h.headers, h.proto, h.udp, Or.inr h.source⟩

theorem udpDnsSniff_of_carries (h : CarriesResponse f response) (old : Payload) :
    (udpDnsSniff f old).1 = some (sampleOf f old) := by
  rw [udpDnsSniff_of_accepts h.accepts]

theorem take_sampleOf_of_carries (h : CarriesResponse f response) (old : Payload) {k : Nat}
    (hk : k ≤ dataLen) (hlin : udpDataOff + k ≤ f.linear.length) (hres : k ≤ response.length) :
    (sampleOf f old).take k = response.take k := by
  obtain ⟨padding, hpadding⟩ := h.payload
  rw [List.drop_append_of_le_length h.headers] at hpadding
  have hfront : k ≤ (f.linear.drop udpDataOff).length := by
    rw [List.length_drop]
    omega
  rw [take_sampleOf hk hlin, ← List.take_append_of_le_length hfront, ← hpadding,
    List.take_append_of_le_length hres]

theorem unpack_sampleOf (hdec : Decodes unpack response answerEnd answers)
    (h : CarriesResponse f response) (old : Payload) (hend : answerEnd ≤ dataLen)
    (hlin : udpDataOff + answerEnd ≤ f.linear.length) :
    unpack (sampleOf f old) = answers := by
  apply hdec.complete
  rw [← take_sampleOf_of_carries h old hend hlin hdec.inside]
  exact List.take_prefix _ _

theorem unpack_sampleOf_cut (hdec : Decodes unpack response answerEnd answers)
    (h : CarriesResponse f response) (old : Payload) (hend : dataLen < answerEnd)
    (hlin : udpDataOff + dataLen ≤ f.linear.length) : unpack (sampleOf f old) = [] := by
  have hsample : sampleOf f old = response.take dataLen := by
    rw [← take_sampleOf_of_carries h old (le_refl _) hlin (by have := hdec.inside; omega),
      List.take_of_length_le (le_of_eq (length_sampleOf f old))]
  rw [hsample]
  exact hdec.cut dataLen hend

theorem recorded_handleSample {sample : Bytes} {clock : Nat → Int} (D : DnsTable) {name : Text}
    {addr : RecordIP} (h : RR.a name addr ∈ unpack sample) :
    Recorded (handleSample unpack D ⟨sample, clock, fun _ => false⟩) name addr := by
  obtain ⟨i, hi⟩ := List.mem_iff_getElem?.mp h
  exact (lookup_handleSample _ D _).mpr (Or.inr ⟨name, addr, ⟨i, hi, rfl⟩, rfl⟩)

end Capture

/-- A response whose answer section ends within `DATA_LEN` bytes, in the linear
part of its frame, has every A record stored under its owner name; one
whose answer section ends behind that leaves the table as it was. -/
theorem dns_capture (unpack : Bytes → List RR) (response : Bytes) (answerEnd : Nat)
    (answers : List RR) (hdec : Decodes unpack response answerEnd answers) (f : SniffedFrame)
    (h : CarriesResponse f response) (old : Payload) (clock : Nat → Int) (D : DnsTable) :
    ∃ sample, (udpDnsSniff f old).1 = some sample
      ∧ (answerEnd ≤ dataLen → udpDataOff + answerEnd ≤ f.linear.length →
          ∀ name addr, RR.a name addr ∈ answers →
            Recorded (handleSample unpack D ⟨sample, clock, fun _ => false⟩) name addr)
      ∧ (dataLen < answerEnd → udpDataOff + dataLen ≤ f.linear.length →
          handleSample unpack D ⟨sample, clock, fun _ => false⟩ = D) := by
  refine ⟨_, udpDnsSniff_of_carries h old, fun hend hlin name addr hmem => ?_, fun hend hlin => ?_⟩
  · apply recorded_handleSample
    rw [unpack_sampleOf hdec h old hend hlin]
    exact hmem
  · rw [handleSample, unpack_sampleOf_cut hdec h old hend hlin]
    rfl

/-! ## Responses with one and with thirty-one addresses -/

/-- A response to a question for `www.reddit.com.` with `n` A records. -/
def redditResponse (n : Nat) : Bytes :=
  [0x12, 0x34, 0x81, 0x80, 0, 1, 0, .ofNat 8 n, 0, 0, 0, 0]
    ++ [3, 0x77, 0x77, 0x77, 6, 0x72, 0x65, 0x64, 0x64, 0x69, 0x74, 3, 0x63, 0x6f, 0x6d, 0,
        0, 1, 0, 1]
    ++ (List.range n).flatMap fun i =>
        [0xc0, 0x0c, 0, 1, 0, 1, 0, 0, 0, 60, 0, 4, 151, 101, 1, .ofNat 8 i]

def redditAnswers (n : Nat) : List RR :=
  (List.range n).map fun i => .a "www.reddit.com.".toList (some ⟨151, 101, 1, .ofNat 8 i⟩)

/-- The decoder on responses whose answer section is the last one. -/
def unpackReddit (n : Nat) (sample : Bytes) : List RR :=
  if redditResponse n <+: sample then redditAnswers n else []

theorem decodes_reddit (n : Nat) : Decodes (unpackReddit n) (redditResponse n)
    (redditResponse n).length (redditAnswers n) where
  inside := le_refl _
  complete := fun b hb => by
    rw [List.take_length] at hb
    rw [unpackReddit, if_pos hb]
  cut := fun k hk => by
    refine if_neg fun hpre => ?_
    have := hpre.length_le
    rw [List.length_take] at this
    omega

def udpHeaders (payload : Nat) : Bytes :=
  List.replicate 12 0 ++ [0x08, 0x00]
    ++ [0x45, 0, .ofNat 8 ((28 + payload) / 256), .ofNat 8 (28 + payload), 0, 0, 0x40, 0, 64, 17,
        0, 0, 9, 9, 9, 9, 192, 168, 0, 20]
    ++ [0, 53, 0xc0, 0, .ofNat 8 ((8 + payload) / 256), .ofNat 8 (8 + payload), 0, 0]

def redditFrame (n : Nat) : SniffedFrame :=
  ⟨udpHeaders (redditResponse n).length ++ redditResponse n, [], fun _ => 0⟩

/-- The same packet with its payload outside the linear part. -/
def pagedFrame (n : Nat) : SniffedFrame :=
  ⟨udpHeaders (redditResponse n).length, redditResponse n, fun _ => 0⟩

def blankPayload : Payload := ⟨0, List.replicate dataLen 0, List.length_replicate⟩

theorem carries_redditFrame_one : CarriesResponse (redditFrame 1) (redditResponse 1) :=
  ⟨by decide, by decide, by decide, by decide, by decide, by decide, by decide, by decide +kernel⟩

theorem dns_capture_reddit :
    ∃ sample, (udpDnsSniff (redditFrame 1) blankPayload).1 = some sample
      ∧ Recorded (handleSample (unpackReddit 1) KeyedTable.empty
          ⟨sample, fun _ => 0, fun _ => false⟩) "www.reddit.com.".toList
            (some ⟨151, 101, 1, 0⟩) := by
  obtain ⟨sample, hsample, hstored, -⟩ := dns_capture (unpackReddit 1) (redditResponse 1)
    (redditResponse 1).length (redditAnswers 1) (decodes_reddit 1) (redditFrame 1)
    carries_redditFrame_one blankPayload (fun _ => 0) KeyedTable.empty
  exact ⟨sample, hsample, hstored (by decide) (by decide) _ _ (by decide)⟩

/-- The answer section of thirty-one addresses ends at byte 528: none is stored.
Nor is a single one of a packet that is not linear. -/
theorem long_answers_are_lost :
    (Decodes (unpackReddit 31) (redditResponse 31) 528 (redditAnswers 31)
        ∧ CarriesResponse (redditFrame 31) (redditResponse 31)
        ∧ RR.a "www.reddit.com.".toList (some ⟨151, 101, 1, 0⟩) ∈ redditAnswers 31
        ∧ ∃ sample, (udpDnsSniff (redditFrame 31) blankPayload).1 = some sample
          ∧ ¬Recorded (handleSample (unpackReddit 31) KeyedTable.empty
            ⟨sample, fun _ => 0, fun _ => false⟩) "www.reddit.com.".toList
              (some ⟨151, 101, 1, 0⟩))
      ∧ Decodes (unpackReddit 1) (redditResponse 1) 48 (redditAnswers 1)
        ∧ CarriesResponse (pagedFrame 1) (redditResponse 1)
        ∧ ∃ sample, (udpDnsSniff (pagedFrame 1) blankPayload).1 = some sample
          ∧ ¬Recorded (handleSample (unpackReddit 1) KeyedTable.empty
            ⟨sample, fun _ => 0, fun _ => false⟩) "www.reddit.com.".toList
              (some ⟨151, 101, 1, 0⟩) := by
  have hlong : (redditResponse 31).length = 528 := by decide +kernel
  have hdec : Decodes (unpackReddit 31) (redditResponse 31) 528 (redditAnswers 31) :=
    hlong ▸ decodes_reddit 31
  have hcarries : CarriesResponse (redditFrame 31) (redditResponse 31) :=
    ⟨by decide +kernel, by decide +kernel, by decide +kernel, by decide +kernel,
      by decide +kernel, by decide +kernel, by decide +kernel, by decide +kernel⟩
  have hpaged : CarriesResponse (pagedFrame 1) (redditResponse 1) :=
    ⟨by decide, by decide, by decide, by decide, by decide, by decide, by decide,
      by decide +kernel⟩
  have hempty : ∀ unpack sample, unpack sample = [] →
      ¬Recorded (handleSample unpack KeyedTable.empty ⟨sample, fun _ => 0, fun _ => false⟩)
        "www.reddit.com.".toList (some ⟨151, 101, 1, 0⟩) := by
    intro unpack sample hun
    rw [handleSample, hun]
    exact Bool.false_ne_true
  refine ⟨⟨hdec, hcarries, by decide +kernel, _, udpDnsSniff_of_carries hcarries blankPayload, ?_⟩,
    decodes_reddit 1, hpaged, _, udpDnsSniff_of_carries hpaged blankPayload, ?_⟩
  · exact hempty _ _ (unpack_sampleOf_cut hdec hcarries _ (by decide) (by decide +kernel))
  · exact hempty _ _ (by decide +kernel)

end Nethadone
