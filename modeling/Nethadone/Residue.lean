import Nethadone.Acceptance

/-!
# What else is in a sample

Three lengths meet in the sniffer: it copies as many bytes as the frame is
long, from 42 bytes into the frame, to a buffer of which all `DATA_LEN` bytes
are submitted. So the copy ends 42 bytes behind the packet, and a sample of
a short frame ends with what an earlier one left in the buffer. The sample
is the packet's own exactly when the packet data fills the buffer
(`own_packet_iff`).
-/

namespace Nethadone

/-! ## Runs of the sniffer -/

/-- The per-CPU buffer after the frames of its CPU. -/
def bufferAfter (history : List SniffedFrame) : Payload :=
  history.foldl (fun old f => (udpDnsSniff f old).2.1) blankPayload

/-- What is submitted for a frame that comes after the others. -/
def sampleAfter (history : List SniffedFrame) (f : SniffedFrame) : Option Bytes :=
  (udpDnsSniff f (bufferAfter history)).1

/-! ## The payload of a packet -/

def udpPayloadOff (data : Bytes) : Nat := udpOff data + udpHlen

/-- By the length field of the UDP header. -/
def udpPayloadLen (data : Bytes) : Nat := (bpfNtohs (load16 data (udpOff data + 4))).toNat - udpHlen

/-- The first `DATA_LEN` bytes of the UDP payload, or all of it. -/
def udpPayload (packet : Bytes) : Bytes :=
  (packet.drop (udpPayloadOff packet)).take (min (udpPayloadLen packet) dataLen)

/-- What is submitted for the packet, given by its linear data and the rest, is
the same after any frames and beside any memory, and starts with the UDP
payload. -/
structure OwnPacketOnly (linear paged : Bytes) : Prop where
  same : ∀ history history' behind behind',
    sampleAfter history ⟨linear, paged, behind⟩ = sampleAfter history' ⟨linear, paged, behind'⟩
  payload : ∀ history behind sample, sampleAfter history ⟨linear, paged, behind⟩ = some sample →
    sample.take (min (udpPayloadLen (linear ++ paged)) dataLen) = udpPayload (linear ++ paged)

/-- The UDP payload is what stands behind the first 42 bytes. -/
def PayloadInPlace (packet : Bytes) : Prop :=
  (packet.drop udpDataOff).take (min (udpPayloadLen packet) dataLen) = udpPayload packet

/-! ## A frame that fills the buffer -/

/-- A response whose payload is `DATA_LEN` bytes of ones. -/
def fillingFrame : SniffedFrame := ⟨udpHeaders dataLen ++ List.replicate dataLen 1, [], fun _ => 0⟩

section Samples

variable {linear paged : Bytes}

theorem byteAt_replicate {n i : Nat} {b : BitVec 8} (hi : i < n) :
    byteAt (List.replicate n b) i = b := by
  rw [byteAt, List.getD_eq_getElem?_getD, List.getElem?_replicate, if_pos hi, Option.getD_some]

theorem last_lt_dataLen : dataLen - 1 < dataLen := by decide

theorem accepts_append_udpHeaders (n : Nat) (rest : Bytes) : Accepts (udpHeaders n ++ rest) := by
  refine ⟨?_, rfl, rfl, Or.inr rfl⟩
  rw [List.length_append]
  exact Nat.le_add_right_of_le (le_refl 42)

theorem sampleAfter_of_accepts (h : Accepts linear) (history : List SniffedFrame)
    (behind : Nat → BitVec 8) : sampleAfter history ⟨linear, paged, behind⟩
      = some (sampleOf ⟨linear, paged, behind⟩ (bufferAfter history)) := by
  rw [sampleAfter, udpDnsSniff_of_accepts h]

/-- With the buffer filled by packet data nothing else gets in. -/
theorem sampleOf_of_fills (hfill : udpDataOff + dataLen ≤ linear.length) (behind : Nat → BitVec 8)
    (old : Payload) :
    sampleOf ⟨linear, paged, behind⟩ old = (linear.drop udpDataOff).take dataLen := by
  rw [← @take_sampleOf ⟨linear, paged, behind⟩ old _ (le_refl _) hfill,
    List.take_of_length_le (length_sampleOf _ old).le]

theorem data_after_nothing : (bufferAfter []).data = List.replicate dataLen 0 := rfl

theorem data_after_fillingFrame : (bufferAfter [fillingFrame]).data = List.replicate dataLen 1 := by
  have hacc : Accepts fillingFrame.linear := accepts_append_udpHeaders _ _
  have hfill : udpDataOff + dataLen ≤ fillingFrame.linear.length := by
    rw [fillingFrame, List.length_append, List.length_replicate]
    exact le_refl _
  have hbuffer : (bufferAfter [fillingFrame]).data = sampleOf fillingFrame blankPayload := by
    rw [bufferAfter, List.foldl_cons, List.foldl_nil, udpDnsSniff_of_accepts hacc]
  have hpayload : fillingFrame.linear.drop udpDataOff = List.replicate dataLen 1 :=
    List.drop_left' rfl
  calc (bufferAfter [fillingFrame]).data
      = sampleOf fillingFrame blankPayload := hbuffer
    _ = (fillingFrame.linear.drop udpDataOff).take dataLen :=
        sampleOf_of_fills hfill (fun _ => 0) blankPayload
    _ = List.replicate dataLen 1 := by
        rw [hpayload, List.take_of_length_le (List.length_replicate).le]

/-- The last byte of a short frame's sample is an old one. -/
theorem sampleOf_last (hlen : linear.length + paged.length < dataLen) (behind : Nat → BitVec 8)
    (old : Payload) :
    (sampleOf ⟨linear, paged, behind⟩ old)[dataLen - 1]?
      = some (byteAt old.data (dataLen - 1)) := by
  have hold : ¬dataLen - 1 < min (SniffedFrame.len ⟨linear, paged, behind⟩) dataLen := by
    simp only [SniffedFrame.len, lt_min_iff]
    omega
  rw [getElem?_sampleOf (by decide), if_neg hold]

/-- A longer frame's sample goes on behind the packet data. -/
theorem sampleOf_behind (hheaders : udpDataOff ≤ linear.length)
    (hlen : dataLen ≤ linear.length + paged.length) (hshort : linear.length < udpDataOff + dataLen)
    (behind : Nat → BitVec 8) (old : Payload) :
    (sampleOf ⟨linear, paged, behind⟩ old)[linear.length - udpDataOff]? = some (behind 0) := by
  have hcopied : linear.length - udpDataOff
      < min (SniffedFrame.len ⟨linear, paged, behind⟩) dataLen := by
    simp only [SniffedFrame.len, lt_min_iff]
    omega
  have hend : udpDataOff + (linear.length - udpDataOff) = linear.length := by omega
  rw [getElem?_sampleOf (by omega), if_pos hcopied, SniffedFrame.memAt, hend,
    if_neg (lt_irrefl _), Nat.sub_self]

theorem fills_of_same (hacc : Accepts linear)
    (hsame : ∀ history history' behind behind', sampleAfter history ⟨linear, paged, behind⟩
      = sampleAfter history' ⟨linear, paged, behind'⟩) :
    udpDataOff + dataLen ≤ linear.length := by
  by_contra hshort
  have hsample : ∀ history history' behind behind',
      sampleOf ⟨linear, paged, behind⟩ (bufferAfter history)
        = sampleOf ⟨linear, paged, behind'⟩ (bufferAfter history') := by
    intro history history' behind behind'
    have h := hsame history history' behind behind'
    rwa [sampleAfter_of_accepts hacc, sampleAfter_of_accepts hacc, Option.some.injEq] at h
  by_cases hlen : linear.length + paged.length < dataLen
  · -- after nothing the buffer is zero, after a full frame it is not
    have h := congrArg (·[dataLen - 1]?) (hsample [] [fillingFrame] (fun _ => 0) fun _ => 0)
    simp only [sampleOf_last hlen, data_after_fillingFrame, data_after_nothing,
      byteAt_replicate last_lt_dataLen] at h
    revert h
    decide
  · have h := congrArg (·[linear.length - udpDataOff]?) (hsample [] [] (fun _ => 0) fun _ => 1)
    simp only [sampleOf_behind hacc.headers (not_lt.mp hlen) (not_le.mp hshort)] at h
    revert h
    decide

/-- The front of the buffer's worth of packet data is the packet's. -/
theorem take_take_drop {n : Nat} (hn : n ≤ dataLen)
    (hfill : udpDataOff + dataLen ≤ linear.length) :
    ((linear.drop udpDataOff).take dataLen).take n
      = ((linear ++ paged).drop udpDataOff).take n := by
  have hfront : n ≤ (linear.drop udpDataOff).length := by
    rw [List.length_drop]
    omega
  rw [List.take_take, min_eq_left hn, List.drop_append_of_le_length (by omega),
    List.take_append_of_le_length hfront]

theorem payloadInPlace_of_no_options (hacc : Accepts linear)
    (hihl : ipHeaderLen linear = ipHlen) : PayloadInPlace (linear ++ paged) := by
  have hfirst : byteAt (linear ++ paged) ethHlen = byteAt linear ethHlen := by
    rw [byteAt, byteAt, List.getD_eq_getElem?_getD, List.getD_eq_getElem?_getD,
      List.getElem?_append_left (lt_of_lt_of_le (by decide) hacc.headers)]
  have hoff : udpPayloadOff (linear ++ paged) = udpDataOff := by
    rw [udpPayloadOff, udpOff, ipHeaderLen, hfirst, ← ipHeaderLen, hihl]
    rfl
  rw [PayloadInPlace, udpPayload, hoff]

end Samples

/-- Of an accepted packet the sample is a function of the packet, and starts with
the UDP payload, exactly when its linear data reaches `DATA_LEN` bytes behind
the first 42 and these are where the payload is, as they are without IP
options. -/
theorem own_packet_iff (linear paged : Bytes) (h : Accepts linear) :
    (OwnPacketOnly linear paged ↔
      udpDataOff + dataLen ≤ linear.length ∧ PayloadInPlace (linear ++ paged)) ∧
    (ipHeaderLen linear = ipHlen → PayloadInPlace (linear ++ paged)) := by
  have hstart : udpDataOff + dataLen ≤ linear.length →
      ((linear.drop udpDataOff).take dataLen).take (min (udpPayloadLen (linear ++ paged)) dataLen)
        = ((linear ++ paged).drop udpDataOff).take
            (min (udpPayloadLen (linear ++ paged)) dataLen) :=
    take_take_drop (min_le_right _ _)
  refine ⟨⟨fun hown => ?_, ?_⟩, payloadInPlace_of_no_options h⟩
  · have hfill := fills_of_same h hown.same
    have hpayload := hown.payload [] (fun _ => 0) _ (sampleAfter_of_accepts h [] _)
    rw [sampleOf_of_fills hfill, hstart hfill] at hpayload
    exact ⟨hfill, hpayload⟩
  · rintro ⟨hfill, hplace⟩
    refine ⟨fun history history' behind behind' => ?_, fun history behind sample hsample => ?_⟩
    · rw [sampleAfter_of_accepts h, sampleAfter_of_accepts h, sampleOf_of_fills hfill,
        sampleOf_of_fills hfill]
    · rw [sampleAfter_of_accepts h, Option.some.injEq, sampleOf_of_fills hfill] at hsample
      rw [← hsample, hstart hfill]
      exact hplace

/-! ## A short response after a long one -/

theorem filling_own_packet :
    (OwnPacketOnly fillingFrame.linear [] ↔
      udpDataOff + dataLen ≤ fillingFrame.linear.length ∧
        PayloadInPlace (fillingFrame.linear ++ [])) ∧
    (ipHeaderLen fillingFrame.linear = ipHlen → PayloadInPlace (fillingFrame.linear ++ [])) :=
  own_packet_iff fillingFrame.linear [] (accepts_append_udpHeaders _ _)

/-- The sample of a response with one address ends with bytes of the frame
before it. -/
theorem short_response_keeps_old_bytes :
    Accepts (redditFrame 1).linear ∧
      (∃ sample, sampleAfter [] (redditFrame 1) = some sample ∧ sample[507]? = some 0) ∧
      (∃ sample, sampleAfter [fillingFrame] (redditFrame 1) = some sample
        ∧ sample[507]? = some 1) ∧
      ¬OwnPacketOnly (redditFrame 1).linear [] := by
  have hacc : Accepts (redditFrame 1).linear := accepts_append_udpHeaders _ _
  have hshort : (redditFrame 1).linear.length + ([] : Bytes).length < dataLen := by decide
  refine ⟨hacc, ⟨_, sampleAfter_of_accepts hacc _ _, ?_⟩, ⟨_, sampleAfter_of_accepts hacc _ _, ?_⟩,
    fun h => ?_⟩
  · refine (sampleOf_last hshort _ _).trans (congrArg some ?_)
    exact byteAt_replicate last_lt_dataLen
  · refine (sampleOf_last hshort _ _).trans (congrArg some ?_)
    rw [data_after_fillingFrame]
    exact byteAt_replicate last_lt_dataLen
  · have hfill := fills_of_same hacc h.same
    revert hfill
    decide

end Nethadone
