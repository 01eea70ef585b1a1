import Nethadone.Bandwidth
import Nethadone.Exactness

/-!
# Which addresses belong to a glob group

Membership of an address in a group is decided twice. Its bytes are
credited to the first group that matches its likely domain, the newest one
seen for it. It is throttled for every group that matches some domain seen
for it in the last five days. Both are heuristics, and the source says so;
`measured_throttled` gives the two sets and where they meet: on addresses
whose likely domain is recent and stands for all their recent domains, and
is claimed by one group at most.
-/

namespace Nethadone

section Sets

variable (m : Text → Text → Bool) (ord : RowOrder) (G : GlobTable) (D : DnsTable)

/-- Bytes exchanged with the address are listed under the group. -/
def Measured (entries : List ByteEntry) (g : GlobGroup) (ip : IPv4) : Prop :=
  ∃ b ∈ getBandwidthList m ord G D true entries, b.destIpAddr = ip ∧ b.globName = g.name

def Throttled (now : Int) (g : GlobGroup) (ip : IPv4) : Prop :=
  ∃ ips ∈ getIPsMatchingGlob m ord false D g now, ip.text ∈ ips

/-- The address was seen in the last five days and not after today, every
domain seen for it in that time matches the same groups, and at most one
group matches. -/
structure Settled (now : Int) (ip : IPv4) : Prop where
  seen : ∃ r ∈ D.rows, r.daddr = ip.text ∧ recentProbe now r
  past : ∀ r ∈ D.rows, r.daddr = ip.text → dayOf r.tstamp ≤ dayOf now
  same : ∀ r ∈ D.rows, ∀ r' ∈ D.rows, r.daddr = ip.text → r'.daddr = ip.text →
    recentProbe now r → recentProbe now r' → ∀ g ∈ G.rows, m g.glob r'.domain = m g.glob r.domain
  one : ∀ r ∈ D.rows, r.daddr = ip.text → recentProbe now r → ∀ g ∈ G.rows, ∀ g' ∈ G.rows,
    m g.glob r.domain = true → m g'.glob r.domain = true → g = g'

end Sets

section Membership

variable {m : Text → Text → Bool} {ord : RowOrder} {G : GlobTable} {D : DnsTable} {now : Int}
  {entries : List ByteEntry} {g : GlobGroup} {ip : IPv4}

theorem matches_of_creditedGroup {a : Text} (h : creditedGroup m ord G D a = some g) :
    m g.glob (getDomainForIP ord D a) = true := by
  unfold creditedGroup getMatchingGlobGroup at h
  have hfound := List.find?_some h
  exact hfound

theorem measured_iff (hg : g ∈ G.rows) :
    Measured m ord G D entries g ip ↔
      (∃ e ∈ entries, keyDestIp e.key = ip) ∧ creditedGroup m ord G D ip.text = some g := by
  have hname : ∀ g', creditedGroup m ord G D ip.text = some g' → g'.name = g.name → g' = g :=
    fun g' h he => KeyedTable.eq_of_key (mem_of_creditedGroup h) hg he
  simp only [Measured, getBandwidthList, Bool.not_true, Bool.false_or, List.mem_map,
    List.mem_filter]
  constructor
  · rintro ⟨b, ⟨e, ⟨he, hsome⟩, rfl⟩, rfl, hb⟩
    obtain ⟨g', hg'⟩ := Option.isSome_iff_exists.mp hsome
    simp only [bandwidthOf, hg'] at hb hname ⊢
    exact ⟨⟨e, he, rfl⟩, by rw [← hname g' rfl hb]⟩
  · rintro ⟨⟨e, he, rfl⟩, hc⟩
    exact ⟨_, ⟨e, ⟨he, by rw [hc]; rfl⟩, rfl⟩, rfl, by simp only [bandwidthOf, hc]⟩

theorem throttled_iff : Throttled m ord D now g ip ↔
    ∃ r ∈ D.rows, r.daddr = ip.text ∧ m g.glob r.domain = true ∧ recentProbe now r :=
  exists_getIPsMatchingGlob_iff

theorem Settled.likely (h : Settled m G D now ip) (ord : RowOrder) :
    ∃ r ∈ D.rows, r.daddr = ip.text ∧ r.domain = getDomainForIP ord D ip.text
      ∧ recentProbe now r := by
  obtain ⟨r₀, hr₀, ha₀, hrec₀⟩ := h.seen
  obtain ⟨r, hr, ha, hdom, hle⟩ := getDomainForIP_newest ord hr₀ ha₀
  exact ⟨r, hr, ha, hdom, hrec₀.1.trans (dayOf_mono hle), h.past r hr ha⟩

theorem Settled.credited_iff (h : Settled m G D now ip) (hg : g ∈ G.rows) :
    creditedGroup m ord G D ip.text = some g ↔ Throttled m ord D now g ip := by
  obtain ⟨r, hr, ha, hdom, hrec⟩ := h.likely ord
  rw [throttled_iff]
  constructor
  · intro hc
    exact ⟨r, hr, ha, hdom ▸ matches_of_creditedGroup hc, hrec⟩
  · rintro ⟨r', hr', ha', hm, hrec'⟩
    rw [h.same r hr r' hr' ha ha' hrec hrec' g hg] at hm
    -- some group matches the likely domain, and only one can
    cases hc : creditedGroup m ord G D ip.text with
    | none =>
        have hno := List.find?_eq_none.mp hc g ((ord.globs_perm _).mem_iff.mpr hg)
        rw [← hdom] at hno
        exact absurd hm hno
    | some g' =>
        have hm' : m g'.glob r.domain = true := hdom ▸ matches_of_creditedGroup hc
        rw [h.one r hr ha hrec g' (mem_of_creditedGroup hc) g hg hm' hm]

end Membership

/-- An address is measured for the first group that matches its likely domain,
and throttled for every group that matches a domain seen for it in the last
five days. On settled addresses with traffic the two are the same. -/
theorem measured_throttled (m : Text → Text → Bool) (ord : RowOrder) (G : GlobTable)
    (D : DnsTable) (now : Int) (entries : List ByteEntry) (g : GlobGroup) (hg : g ∈ G.rows) :
    (∀ ip, Measured m ord G D entries g ip ↔ (∃ e ∈ entries, keyDestIp e.key = ip) ∧
        (getGlobs ord G).find? (fun g' => m g'.glob (getDomainForIP ord D ip.text)) = some g)
      ∧ (∀ ip, Throttled m ord D now g ip ↔ ∃ r ∈ D.rows,
          r.daddr = ip.text ∧ m g.glob r.domain = true ∧ recentProbe now r)
      ∧ ∀ ip, (∃ e ∈ entries, keyDestIp e.key = ip) → Settled m G D now ip →
          (Measured m ord G D entries g ip ↔ Throttled m ord D now g ip) := by
  refine ⟨fun ip => measured_iff hg, fun ip => throttled_iff, fun ip htraffic hset => ?_⟩
  rw [measured_iff hg, hset.credited_iff hg]
  exact and_iff_right htraffic

/-! ## Two domains on one address -/

def redditEntry : ByteEntry := ⟨redditServer.word ++ (⟨192, 168, 0, 20⟩ : IPv4).word, 1000⟩

theorem measured_throttled_reddit :
    (∀ ip, Measured redditGlob RowOrder.stored redditGlobs redditDns [redditEntry] redditGroup ip ↔
        (∃ e ∈ [redditEntry], keyDestIp e.key = ip) ∧ (getGlobs RowOrder.stored redditGlobs).find?
          (fun g' => redditGlob g'.glob (getDomainForIP RowOrder.stored redditDns ip.text))
            = some redditGroup)
      ∧ (∀ ip, Throttled redditGlob RowOrder.stored redditDns (5 * minute) redditGroup ip ↔
          ∃ r ∈ redditDns.rows, r.daddr = ip.text ∧ redditGlob redditGroup.glob r.domain = true
            ∧ recentProbe (5 * minute) r)
      ∧ ∀ ip, (∃ e ∈ [redditEntry], keyDestIp e.key = ip) →
          Settled redditGlob redditGlobs redditDns (5 * minute) ip →
          (Measured redditGlob RowOrder.stored redditGlobs redditDns [redditEntry] redditGroup ip ↔
            Throttled redditGlob RowOrder.stored redditDns (5 * minute) redditGroup ip) :=
  measured_throttled redditGlob RowOrder.stored redditGlobs redditDns (5 * minute) [redditEntry]
    redditGroup (by decide)

def aliasedDns : DnsTable := addDns redditDns "cdn.example.net.".toList (some redditServer) minute

/-- Its bytes are no longer credited to the group it is throttled for. -/
theorem aliased_throttled_not_measured :
    redditGroup ∈ redditGlobs.rows
      ∧ (∃ e ∈ [redditEntry], keyDestIp e.key = redditServer)
      ∧ Throttled redditGlob RowOrder.stored aliasedDns (5 * minute) redditGroup redditServer
      ∧ ¬Measured redditGlob RowOrder.stored redditGlobs aliasedDns [redditEntry] redditGroup
          redditServer := by
  have hlist : getBandwidthList redditGlob RowOrder.stored redditGlobs aliasedDns true
      [redditEntry] = [] := by decide
  refine ⟨by decide, ⟨redditEntry, by decide, by decide⟩, ⟨[redditServer.text], by decide,
    by decide⟩, ?_⟩
  rintro ⟨b, hb, -⟩
  rw [hlist] at hb
  cases hb

end Nethadone
