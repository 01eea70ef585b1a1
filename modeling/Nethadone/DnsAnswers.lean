import Nethadone.Database
import Nethadone.Sweep

/-!
# Recording DNS answers

`pollDnsResponses` of `handlers/bpf.go`: every sample of the sniffer is
decoded and the address of every A record in its answer section goes to the
`dns` table. A decoding error is logged and nothing more, so whatever
answers the decoder has found by then are recorded.

`unpack` stands for the decoder (`dns.Msg.Unpack`) and gives the answer
section it leaves behind. Rows are never deleted, so the table has a row
exactly for the answers whose write succeeded (`lookup_pollDnsResponses`).
-/

namespace Nethadone

abbrev Bytes := List (BitVec 8)

/-- A record of an answer section. -/
inductive RR where
  | a (name : Text) (addr : RecordIP)
  | other
deriving DecidableEq

/-- One sample, when its answers are written and which writes fail, both by the
answer's place in the section. -/
structure DnsEvent where
  rawSample : Bytes
  clock : Nat → Int
  fails : Nat → Bool

def DnsEvent.at (rawSample : Bytes) (now : Int) : DnsEvent :=
  ⟨rawSample, fun _ => now, fun _ => false⟩

def recordAnswer (e : DnsEvent) (D : DnsTable) : RR × Nat → DnsTable
  | (.a name addr, i) => if e.fails i then D else addDns D name addr (e.clock i)
  | (.other, _) => D

def handleSample (unpack : Bytes → List RR) (D : DnsTable) (e : DnsEvent) : DnsTable :=
  (unpack e.rawSample).zipIdx.foldl (recordAnswer e) D

def pollDnsResponses (unpack : Bytes → List RR) (D : DnsTable) (events : List DnsEvent) :
    DnsTable :=
  events.foldl (handleSample unpack) D

/-! ## What is recorded -/

/-- The key of the row an answer is recorded under. -/
def answerKey (name : Text) (addr : RecordIP) : Text × Text × Text :=
  (addr.text, "0.0.0.0".toList, name)

def Recorded (D : DnsTable) (name : Text) (addr : RecordIP) : Prop :=
  (D.lookup (answerKey name addr)).isSome

/-- The decoder finds the answer in the sample, and its write succeeds. -/
def Carries (unpack : Bytes → List RR) (e : DnsEvent) (name : Text) (addr : RecordIP) : Prop :=
  ∃ i, (unpack e.rawSample)[i]? = some (.a name addr) ∧ e.fails i = false

theorem lookup_addDns (D : DnsTable) (name : Text) (addr : RecordIP) (now : Int)
    (k : Text × Text × Text) :
    ((addDns D name addr now).lookup k).isSome ↔
      (D.lookup k).isSome ∨ k = answerKey name addr := by
  rw [addDns, KeyedTable.lookup_upsert]
  split
  · rename_i hk
    exact iff_of_true rfl (Or.inr hk.symm)
  · rename_i hk
    exact (or_iff_left fun h : k = answerKey name addr => hk h.symm).symm

section Runs

variable {unpack : Bytes → List RR}

theorem lookup_recordAnswer (e : DnsEvent) (k : Text × Text × Text) (D : DnsTable)
    (x : RR × Nat) :
    ((recordAnswer e D x).lookup k).isSome ↔
      (D.lookup k).isSome
        ∨ ∃ name addr, x.1 = .a name addr ∧ e.fails x.2 = false ∧ k = answerKey name addr := by
  obtain ⟨rr, i⟩ := x
  cases rr with
  | other => simp [recordAnswer]
  | a name addr =>
      cases hf : e.fails i with
      | true => simp [recordAnswer, hf]
      | false => simp [recordAnswer, hf, lookup_addDns]

theorem lookup_handleSample (k : Text × Text × Text) (D : DnsTable) (e : DnsEvent) :
    ((handleSample unpack D e).lookup k).isSome ↔
      (D.lookup k).isSome
        ∨ ∃ name addr, Carries unpack e name addr ∧ k = answerKey name addr := by
  refine (Sweep.foldl_iff (P := fun D : DnsTable => (D.lookup k).isSome)
    (lookup_recordAnswer e k)).trans (or_congr_right ?_)
  constructor
  · rintro ⟨⟨rr, i⟩, hmem, name, addr, rfl, hf, rfl⟩
    exact ⟨name, addr, ⟨i, List.mem_zipIdx_iff_getElem?.mp hmem, hf⟩, rfl⟩
  · rintro ⟨name, addr, ⟨i, hi, hf⟩, rfl⟩
    exact ⟨(.a name addr, i), List.mem_zipIdx_iff_getElem?.mpr hi, name, addr, rfl, hf, rfl⟩

/-- The table has a row for a key exactly if it had one, or some sample carried
the answer. -/
theorem lookup_pollDnsResponses {D : DnsTable} {events : List DnsEvent}
    {k : Text × Text × Text} :
    ((pollDnsResponses unpack D events).lookup k).isSome ↔
      (D.lookup k).isSome
        ∨ ∃ e ∈ events, ∃ name addr, Carries unpack e name addr ∧ k = answerKey name addr :=
  Sweep.foldl_iff (P := fun D : DnsTable => (D.lookup k).isSome) (lookup_handleSample k)

theorem exists_of_mem_rows {events : List DnsEvent} {r : DnsProbe}
    (hr : r ∈ (pollDnsResponses unpack KeyedTable.empty events).rows) :
    ∃ e ∈ events, ∃ addr, Carries unpack e r.domain addr ∧ r.daddr = addr.text := by
  have hsome : ((pollDnsResponses unpack KeyedTable.empty events).lookup r.key).isSome := by
    rw [KeyedTable.lookup_key hr]
    rfl
  rcases lookup_pollDnsResponses.mp hsome with h | ⟨e, he, name, addr, hcar, hkey⟩
  · cases h
  · have hdaddr : r.daddr = addr.text := congrArg Prod.fst hkey
    have hdom : r.domain = name := congrArg (fun k => k.2.2) hkey
    exact ⟨e, he, addr, hdom ▸ hcar, hdaddr⟩

end Runs

theorem handleSample_row {unpack : Bytes → List RR} {D : DnsTable} {e : DnsEvent} {r : DnsProbe}
    (hr : r ∈ (handleSample unpack D e).rows) :
    (∃ r' ∈ D.rows, r'.key = r.key)
      ∨ ∃ addr, Carries unpack e r.domain addr ∧ r.daddr = addr.text := by
  have hsome : ((handleSample unpack D e).lookup r.key).isSome := by
    rw [KeyedTable.lookup_key hr]
    rfl
  rcases (lookup_handleSample r.key D e).mp hsome with h | ⟨name, addr, hcar, hkey⟩
  · obtain ⟨r', hr'⟩ := Option.isSome_iff_exists.mp h
    obtain ⟨hmem, hkey⟩ := KeyedTable.lookup_eq_some.mp hr'
    exact Or.inl ⟨r', hmem, hkey⟩
  · have hdaddr : r.daddr = addr.text := congrArg Prod.fst hkey
    have hdom : r.domain = name := congrArg (fun k => k.2.2) hkey
    exact Or.inr ⟨addr, hdom ▸ hcar, hdaddr⟩

end Nethadone
