import Nethadone.DnsAnswers
import Nethadone.Exactness

/-!
# Addresses from the wire to the compiler

The texts the template pastes into `IP_ADDRESS(...)` come from DNS answers:
decoded, printed, stored as text, selected by a glob and rewritten with
commas. Nothing on the way looks at their shape. An address that is there
arrives as four octets; an A record without one is printed as `<nil>`, and
`clang` rejects the file it is pasted into (`spliced_iff`).
-/

namespace Nethadone

/-- Four decimal numbers up to 255, separated by commas. -/
def FourOctets (t : Text) : Prop :=
  ∃ a b c d : Nat, a ≤ 255 ∧ b ≤ 255 ∧ c ≤ 255 ∧ d ≤ 255
    ∧ t = [','].intercalate
        [Numeral.decimal a, Numeral.decimal b, Numeral.decimal c, Numeral.decimal d]

/-- Whatever policy is asked for, and whenever: each address handed to the
template is four octets, and the macro it is pasted into expands. -/
def AddressesSpliced (glob : Text → Text → Bool) (G : GlobTable) (D : DnsTable) : Prop :=
  ∀ (ord : RowOrder) (now : Int) (p : Policy) (rules : List IpPolicy),
    getIpPolicies glob ord ReadFaults.none G D now p = some rules →
      ∀ r ∈ rules, FourOctets r.destIpAddr ∧ (expandIpAddress r.destIpAddr).isSome

/-- An A record without an address was recorded under a name some group's glob
matches. -/
def EmptyAnswerMatched (glob : Text → Text → Bool) (unpack : Bytes → List RR) (G : GlobTable)
    (events : List DnsEvent) : Prop :=
  ∃ g ∈ G.rows, ∃ e ∈ events, ∃ name, Carries unpack e name none ∧ glob g.glob name = true

theorem fourOctets_text (ip : IPv4) : FourOctets (replaceAll '.' ',' ip.text) := by
  have h1 := ip.o1.isLt; have h2 := ip.o2.isLt; have h3 := ip.o3.isLt; have h4 := ip.o4.isLt
  exact ⟨_, _, _, _, by omega, by omega, by omega, by omega, replaceAll_text ip⟩

theorem FourOctets.isDigit_or {t : Text} (h : FourOctets t) {c : Char} (hc : c ∈ t) :
    c.isDigit = true ∨ c = ',' := by
  obtain ⟨n1, n2, n3, n4, -, -, -, -, rfl⟩ := h
  simp only [List.intercalate, List.intersperse, List.flatten_cons, List.flatten_nil,
    List.append_nil, List.mem_append, List.mem_singleton] at hc
  rcases hc with hc | hc | hc | hc | hc | hc | hc
  all_goals first
    | exact Or.inl (Numeral.isDigit_of_mem_decimal hc)
    | exact Or.inr hc

theorem not_fourOctets_nil : ¬FourOctets (replaceAll '.' ',' (RecordIP.text none)) := by
  intro h
  have hlt := h.isDigit_or (c := '<') (by decide)
  revert hlt
  decide

section Spliced

variable {glob : Text → Text → Bool} {unpack : Bytes → List RR} {G : GlobTable}
  {events : List DnsEvent}

theorem spliced_of_no_empty_answer (h : ¬EmptyAnswerMatched glob unpack G events) :
    AddressesSpliced glob G (pollDnsResponses unpack KeyedTable.empty events) := by
  intro ord now p rules hrules r hr
  obtain ⟨addr, ⟨g, hg, ips, hips, haddr⟩, rfl⟩ := (mem_getIpPolicies hrules).mp hr
  obtain ⟨row, hrow, rfl, hglob, -⟩ := (mem_getIPsMatchingGlob hips addr).mp haddr
  obtain ⟨e, he, ip, hcar, hdaddr⟩ := exists_of_mem_rows hrow
  cases ip with
  | none => exact absurd ⟨g, (KeyedTable.lookup_eq_some.mp hg).1, e, he, _, hcar, hglob⟩ h
  | some ip =>
      have htext : row.daddr = ip.text := hdaddr
      show FourOctets (replaceAll '.' ',' row.daddr)
        ∧ (expandIpAddress (replaceAll '.' ',' row.daddr)).isSome
      rw [htext, expandIpAddress_text]
      exact ⟨fourOctets_text ip, rfl⟩

theorem exists_nil_rule (h : EmptyAnswerMatched glob unpack G events) :
    ∃ now p rules, getIpPolicies glob RowOrder.stored ReadFaults.none G
        (pollDnsResponses unpack KeyedTable.empty events) now p = some rules
      ∧ ∃ r ∈ rules, r.destIpAddr = replaceAll '.' ',' (RecordIP.text none) := by
  obtain ⟨g, hg, e, he, name, hcar, hglob⟩ := h
  obtain ⟨row, hrow⟩ := Option.isSome_iff_exists.mp
    (lookup_pollDnsResponses.mpr (Or.inr ⟨e, he, name, none, hcar, rfl⟩))
  obtain ⟨hmem, hkey⟩ := KeyedTable.lookup_eq_some.mp hrow
  have hdaddr : row.daddr = RecordIP.text none := congrArg Prod.fst hkey
  have hdom : row.domain = name := congrArg (fun k => k.2.2) hkey
  -- ask for the group's policy at the moment the answer came
  have hgroup : (G.lookup (⟨[], g.name, 10, 0⟩ : Policy).globGroup).isSome := by
    rw [KeyedTable.lookup_key hg]
    rfl
  obtain ⟨rules, hrules⟩ := getIpPolicies_isSome glob RowOrder.stored
    (pollDnsResponses unpack KeyedTable.empty events) row.tstamp hgroup
  refine ⟨row.tstamp, _, rules, hrules, _, (mem_getIpPolicies hrules).mpr
    ⟨row.daddr, ⟨g, KeyedTable.lookup_key hg, _, rfl, ?_⟩, rfl⟩, by rw [hdaddr]⟩
  rw [mem_getIPsMatchingGlob rfl]
  exact ⟨row, hmem, rfl, by rw [hdom]; exact hglob, recentProbe_of_day rfl⟩

end Spliced

/-- Every spliced address is an address, exactly when no A record without one
was recorded under a name some group's glob matches. -/
theorem spliced_iff (glob : Text → Text → Bool) (unpack : Bytes → List RR) (G : GlobTable)
    (events : List DnsEvent) :
    AddressesSpliced glob G (pollDnsResponses unpack KeyedTable.empty events)
      ↔ ¬EmptyAnswerMatched glob unpack G events := by
  refine ⟨fun h hempty => ?_, spliced_of_no_empty_answer⟩
  obtain ⟨now, p, rules, hrules, r, hr, hdest⟩ := exists_nil_rule hempty
  have hfour := (h _ now p rules hrules r hr).1
  rw [hdest] at hfour
  exact not_fourOctets_nil hfour

/-! ## One record without an address -/

/-- A response with one answer, an A record for `www.reddit.com.` of data
length zero. -/
def emptyAnswerSample : Bytes :=
  [0x12, 0x34, 0x81, 0x80, 0, 0, 0, 1, 0, 0, 0, 0]
    ++ [3, 0x77, 0x77, 0x77, 6, 0x72, 0x65, 0x64, 0x64, 0x69, 0x74, 3, 0x63, 0x6f, 0x6d, 0]
    ++ [0, 1, 0, 1, 0, 0, 0, 60, 0, 0]

def unpackEmptyAnswer (sample : Bytes) : List RR :=
  if sample.take emptyAnswerSample.length = emptyAnswerSample
  then [.a "www.reddit.com.".toList none] else []

def emptyAnswerDns : DnsTable :=
  pollDnsResponses unpackEmptyAnswer KeyedTable.empty
    [DnsEvent.at (emptyAnswerSample ++ List.replicate 470 0) 0]

/-- The record of length zero ends the process at the next rebuild. -/
theorem empty_answer_breaks_rebuild :
    ¬AddressesSpliced redditGlob redditGlobs emptyAnswerDns
      ∧ applyPolicies redditGlob RowOrder.stored ReadFaults.none redditTable redditGlobs
          emptyAnswerDns (5 * minute) = some [⟨"192,168,0,20".toList, "<nil>".toList, 10⟩]
      ∧ compile [⟨"192,168,0,20".toList, "<nil>".toList, 10⟩] = none := by
  have hrules : applyPolicies redditGlob RowOrder.stored ReadFaults.none redditTable redditGlobs
      emptyAnswerDns (5 * minute) = some [⟨"192,168,0,20".toList, "<nil>".toList, 10⟩] := by decide
  refine ⟨fun h => ?_, hrules, by decide⟩
  have hpolicy : getIpPolicies redditGlob RowOrder.stored ReadFaults.none redditGlobs
      emptyAnswerDns (5 * minute) ⟨redditClient.src, redditClient.glob, 10, 0⟩
        = some [⟨"192,168,0,20".toList, "<nil>".toList, 10⟩] := by decide
  exact not_fourOctets_nil
    (h RowOrder.stored _ _ _ hpolicy _ (List.mem_singleton.mpr rfl)).1

end Nethadone
