import Nethadone.Daemon
import Nethadone.DnsAnswers
import Nethadone.History
import Nethadone.Labels
import Nethadone.TrafficMon

/-!
# The program end to end

Everything the process does, in one machine: frames are counted, counts are
exported, Prometheus takes series over and answers the policy check with
them, DNS answers and glob groups come in, the process is restarted over
its databases. What is outside the repository is a parameter (`Outside`);
what the surroundings may do at each step is `Allowed`.

Two things are asked of the whole. The process does not die of what it is
fed (`survives`): every group a policy names has a row, and every rule
compiles. And nobody is throttled without a cause (`throttled_with_cause`):
behind a class set on a frame stand an answer that named its source, bytes
its destination had received from the same group, and a check that found
the pair busy.
-/

namespace Nethadone

open Exposition History

/-! ## The machine -/

/-- SQLite's `GLOB` and `filepath.Match`, the pattern first, the metrics
library's check of a name, and the DNS decoder. -/
structure Outside where
  glob : Text → Text → Bool
  fmatch : Text → Text → Bool
  valid : Text → Bool
  unpack : Bytes → List RR

/-- `scraped` are the series Prometheus has seen; they outlive the process. -/
structure System where
  daemon : Daemon
  bytes : ByteMap
  registry : Registry
  scraped : List Text

inductive SystemEvent where
  | frame (skb : Skb)
  | poll (ord : RowOrder) (entries : List ByteEntry)
  | scrape (names : List Text)
  | check (f : TickFaults) (ord : RowOrder) (t : Tick)
  | sample (e : DnsEvent)
  | addGlob (g : GlobGroup)
  | restart

section Machine

variable (x : Outside) (cfg : Config)

/-- Without a result the process has died. -/
def System.step (s : System) : SystemEvent → Option System
  | .frame skb => some { s with bytes := (trafficMon s.bytes skb).1 }
  | .poll ord entries =>
      (pollMetrics x.valid x.fmatch ord s.daemon.globs s.daemon.dns entries s.registry).map
        fun R => { s with registry := R }
  | .scrape names => some { s with scraped := names ++ s.scraped }
  | .check f ord t =>
      (s.daemon.pollPolicyCheck x.glob ord cfg f ReadFaults.none t).map
        fun d => { s with daemon := d }
  | .sample e =>
      some { s with daemon := { s.daemon with dns := handleSample x.unpack s.daemon.dns e } }
  | .addGlob g =>
      some { s with daemon := { s.daemon with globs := addGlob s.daemon.globs g } }
  -- a new process has a new byte map and no counters
  | .restart =>
      (connectInitialize s.daemon.policies s.daemon.globs s.daemon.dns).map
        fun d => ⟨d, KeyedTable.empty, KeyedTable.empty, s.scraped⟩

/-- The first process, over databases that `Connect` has just created. -/
def System.install : System :=
  ⟨⟨KeyedTable.empty, KeyedTable.empty, KeyedTable.empty, initialProgram⟩, KeyedTable.empty,
    KeyedTable.empty, []⟩

def System.run (es : List SystemEvent) : Option System :=
  Run.run (System.step x cfg) System.install es

end Machine

/-! ## The surroundings -/

def Usage.samples (u : Usage) : List Sample :=
  u.above2m ++ u.above2mAgo5 ++ u.above5m ++ u.below5m

/-- The two labels of the sample are those of a series that was scraped, and
the query's `glob!=""` has let it through. -/
def FromSeries (scraped : List Text) (v : Sample) : Prop :=
  v.glob ≠ [] ∧ ∃ name ∈ scraped, ∃ metric ls, readSeries name = some (metric, ls)
    ∧ ls.lookup "src_ip".toList = some v.srcIp ∧ ls.lookup "glob".toList = some v.glob

/-- What may be fed to the process in a state. Prometheus makes up no series,
the decoder hands out names in presentation form, A records have an
address, and names of groups need no escaping. -/
def System.Allowed (x : Outside) (s : System) : SystemEvent → Prop
  | .frame _ => True
  | .poll _ entries => entries.Perm s.bytes.rows
  | .scrape names => ∀ name ∈ names, (s.registry.lookup name).isSome
  | .check _ _ t => ∀ v ∈ t.usage.samples, FromSeries s.scraped v
  | .sample e => ∀ name addr, Carries x.unpack e name addr → isSealed name = true ∧ addr ≠ none
  | .addGlob g => Plain g.name
  | .restart => True

/-! ## Causes -/

section Causes

variable (x : Outside) (cfg : Config) (past : List SystemEvent)

/-- At some poll the bytes of a pair of addresses, those of a frame to the client
that was counted before, were credited to the group: it is the first one
that matched the likely domain of the frame's source. -/
def Credited (m : SrcGlob) : Prop :=
  Happened (System.step x cfg) System.install past fun pre s i =>
    ∃ ord entries skb g, i = .poll ord entries ∧ (∃ e ∈ entries, e.key = trafficKey skb)
      ∧ .frame skb ∈ pre ∧ skb.IsIPv4 ∧ m.src = skb.dst.text ∧ m.glob = g.name
      ∧ creditedGroup x.fmatch ord s.daemon.globs s.daemon.dns skb.src.text = some g

/-- Some check found the pair in all three increase vectors, after it had been
credited. -/
def FoundBusy (m : SrcGlob) : Prop :=
  Happened (System.step x cfg) System.install past fun pre _ i =>
    ∃ f ord t, i = .check f ord t ∧ m ∈ getActiveGlobGroups t.usage ∧ Credited x cfg pre m

def Answered (domain : Text) (ip : IPv4) : Prop :=
  ∃ e, .sample e ∈ past ∧ Carries x.unpack e domain (some ip)

/-- The pair of addresses has a cause to be throttled: some group that was
added matches a domain the source was answered for, and the client had
traffic with the group and was found busy with it. -/
def HasCause (client server : IPv4) : Prop :=
  ∃ g domain, .addGlob g ∈ past ∧ Answered x past domain server ∧ x.glob g.glob domain = true
    ∧ FoundBusy x cfg past ⟨client.text, g.name⟩

/-- A series of this program's making, for a group that has a row. -/
def Traced (G : GlobTable) (name : Text) : Prop :=
  ∃ b : BandwidthList, name = seriesName b ∧ isSealed b.probDomain = true ∧ Plain b.globName
    ∧ (b.globName ≠ [] → (G.lookup b.globName).isSome
        ∧ Credited x cfg past ⟨b.srcIpAddr.text, b.globName⟩)

/-- The rule is the built-in one, or has a cause. -/
def Grounded (rule : Rule) : Prop :=
  rule ∈ initialProgram ∨ ∃ client server : IPv4, rule.saddr = server.word
    ∧ rule.daddr = some client.word ∧ HasCause x cfg past client server

/-- What is true of the process after the past it has had. -/
structure Sound (s : System) : Prop where
  bytes : ∀ e ∈ s.bytes.rows, ∃ skb, .frame skb ∈ past ∧ skb.IsIPv4 ∧ trafficKey skb = e.key
  globs : ∀ g ∈ s.daemon.globs.rows, Plain g.name ∧ .addGlob g ∈ past
  dns : ∀ r ∈ s.daemon.dns.rows, isSealed r.domain = true
    ∧ ∃ ip : IPv4, r.daddr = ip.text ∧ Answered x past r.domain ip
  registry : ∀ r ∈ s.registry.rows, Traced x cfg past s.daemon.globs r.name
  scraped : ∀ name ∈ s.scraped, Traced x cfg past s.daemon.globs name
  reachable : Reachable cfg s.daemon.policies
  policies : ∀ p ∈ s.daemon.policies.rows, (s.daemon.globs.lookup p.globGroup).isSome
    ∧ FoundBusy x cfg past p.key
  attached : ∀ rule ∈ s.daemon.attached, Grounded x cfg past rule

end Causes

section Later

variable {x : Outside} {cfg : Config} {past : List SystemEvent} {s : System} {G : GlobTable}

theorem Answered.later {domain : Text} {ip : IPv4} (h : Answered x past domain ip)
    (e : SystemEvent) : Answered x (past ++ [e]) domain ip := by
  obtain ⟨e', hmem, hcar⟩ := h
  exact ⟨e', List.mem_append_left _ hmem, hcar⟩

theorem HasCause.later {client server : IPv4} (h : HasCause x cfg past client server)
    (e : SystemEvent) : HasCause x cfg (past ++ [e]) client server := by
  obtain ⟨g, domain, hg, hans, hglob, hbusy⟩ := h
  exact ⟨g, domain, List.mem_append_left _ hg, hans.later e, hglob, Happened.later hbusy [e]⟩

theorem Traced.later {name : Text} (h : Traced x cfg past G name) (e : SystemEvent) :
    Traced x cfg (past ++ [e]) G name := by
  obtain ⟨b, hname, hdom, hplain, hgroup⟩ := h
  exact ⟨b, hname, hdom, hplain, fun hne => ⟨(hgroup hne).1, Happened.later (hgroup hne).2 [e]⟩⟩

theorem Sound.later (h : Sound x cfg past s) (e : SystemEvent) : Sound x cfg (past ++ [e]) s where
  bytes := fun b hb => by
    obtain ⟨skb, hmem, hskb⟩ := h.bytes b hb
    exact ⟨skb, List.mem_append_left _ hmem, hskb⟩
  globs := fun g hg => ⟨(h.globs g hg).1, List.mem_append_left _ (h.globs g hg).2⟩
  dns := fun r hr => by
    obtain ⟨hdom, ip, hip, hans⟩ := h.dns r hr
    exact ⟨hdom, ip, hip, hans.later e⟩
  registry := fun r hr => (h.registry r hr).later e
  scraped := fun name hname => (h.scraped name hname).later e
  reachable := h.reachable
  policies := fun p hp => by
    exact ⟨(h.policies p hp).1, Happened.later (h.policies p hp).2 [e]⟩
  attached := fun rule hrule => by
    rcases h.attached rule hrule with hinit | ⟨client, server, hs, hd, hcause⟩
    · exact Or.inl hinit
    · exact Or.inr ⟨client, server, hs, hd, hcause.later e⟩

end Later

/-! ## What each step keeps -/

section Steps

variable {x : Outside} {cfg : Config} {past : List SystemEvent} {s s' : System}

theorem credited_of_fromSeries {G : GlobTable} {scraped : List Text}
    (h : ∀ name ∈ scraped, Traced x cfg past G name) {v : Sample} (hv : FromSeries scraped v) :
    (G.lookup v.glob).isSome ∧ Credited x cfg past ⟨v.srcIp, v.glob⟩ := by
  obtain ⟨hne, name, hname, metric, ls, hread, hsrc, hglob⟩ := hv
  obtain ⟨b, rfl, hdom, hplain, hgroup⟩ := h name hname
  obtain ⟨hsrc', hglob'⟩ :=
    readSeries_of_isSealed (plain_text _) (plain_text _) hdom hplain hread
  have hvsrc : v.srcIp = b.srcIpAddr.text := Option.some.inj (hsrc.symm.trans hsrc')
  have hvglob : v.glob = b.globName := Option.some.inj (hglob.symm.trans hglob')
  rw [hvsrc, hvglob]
  exact hgroup (hvglob ▸ hne)

theorem Sound.frame (h : Sound x cfg past s) (skb : Skb) :
    Sound x cfg (past ++ [.frame skb]) { s with bytes := (trafficMon s.bytes skb).1 } :=
  { h.later (.frame skb) with
    bytes := fun e he => by
      rcases trafficMon_key he with ⟨e', he', hkey⟩ | ⟨hip, hkey⟩
      · obtain ⟨skb', hmem, hip, hkey'⟩ := h.bytes e' he'
        exact ⟨skb', List.mem_append_left _ hmem, hip, hkey'.trans hkey⟩
      · exact ⟨skb, List.mem_append_right _ (List.mem_singleton.mpr rfl), hip, hkey⟩ }

/-- The series a poll writes for an entry of the map. -/
theorem Sound.traced (h : Sound x cfg past s) (hrun : System.run x cfg past = some s)
    (ord : RowOrder) {entries : List ByteEntry} (hperm : entries.Perm s.bytes.rows)
    {e : ByteEntry} (he : e ∈ entries) :
    Traced x cfg (past ++ [.poll ord entries]) s.daemon.globs
      (seriesOf x.fmatch ord s.daemon.globs s.daemon.dns e).name := by
  obtain ⟨skb, hmem, hip, hkey⟩ := h.bytes e (hperm.mem_iff.mp he)
  have hsrc : keySrcIp e.key = skb.dst := by rw [← hkey, trafficKey_eq, keySrcIp_pairKey]
  have hdest : keyDestIp e.key = skb.src := by rw [← hkey, trafficKey_eq, keyDestIp_pairKey]
  refine ⟨bandwidthOf x.fmatch ord s.daemon.globs s.daemon.dns e, rfl, ?_, ?_, ?_⟩
  · show isSealed (getDomainForIP ord s.daemon.dns (keyDestIp e.key).text) = true
    rcases getDomainForIP_cases ord s.daemon.dns (keyDestIp e.key).text with hnil | ⟨r, hr, hdom⟩
    · rw [hnil]
      rfl
    · rw [← hdom]
      exact (h.dns r hr).1
  · simp only [bandwidthOf]
    cases hg : creditedGroup x.fmatch ord s.daemon.globs s.daemon.dns (keyDestIp e.key).text with
    | none => exact ⟨by simp, by simp, by simp⟩
    | some g => exact (h.globs g (mem_of_creditedGroup hg)).1
  · intro hne
    simp only [bandwidthOf] at hne ⊢
    cases hg : creditedGroup x.fmatch ord s.daemon.globs s.daemon.dns (keyDestIp e.key).text with
    | none => simp only [hg] at hne; exact absurd rfl hne
    | some g =>
        simp only
        refine ⟨?_, Happened.now hrun ⟨ord, entries, skb, g, rfl, ⟨e, he, hkey.symm⟩, hmem, hip,
          ?_, rfl, ?_⟩⟩
        · rw [KeyedTable.lookup_key (mem_of_creditedGroup hg)]
          rfl
        · rw [hsrc]
        · rw [← hdest]
          exact hg

theorem Sound.poll (h : Sound x cfg past s) (hrun : System.run x cfg past = some s)
    {ord : RowOrder} {entries : List ByteEntry} (hperm : entries.Perm s.bytes.rows)
    {R : Registry} (hpoll : pollMetrics x.valid x.fmatch ord s.daemon.globs s.daemon.dns entries
      s.registry = some R) :
    Sound x cfg (past ++ [.poll ord entries]) { s with registry := R } :=
  { h.later (.poll ord entries) with
    registry := fun r hr => by
      rw [pollMetrics_eq hpoll] at hr
      rcases KeyedTable.mem_foldl_upsert hr with hnew | hold
      · obtain ⟨e, he, rfl⟩ := List.mem_map.mp hnew
        exact h.traced hrun ord hperm he
      · exact (h.registry r hold).later _ }

theorem Sound.scrape (h : Sound x cfg past s) {names : List Text}
    (hnames : ∀ name ∈ names, (s.registry.lookup name).isSome) :
    Sound x cfg (past ++ [.scrape names]) { s with scraped := names ++ s.scraped } :=
  { h.later (.scrape names) with
    scraped := fun name hname => by
      refine Traced.later ?_ _
      rcases List.mem_append.mp hname with hnew | hold
      · obtain ⟨r, hr⟩ := Option.isSome_iff_exists.mp (hnames name hnew)
        obtain ⟨hmem, rfl⟩ := KeyedTable.lookup_eq_some.mp hr
        exact h.registry r hmem
      · exact h.scraped name hold }

theorem Sound.sample (h : Sound x cfg past s) {e : DnsEvent}
    (hdecent : ∀ name addr, Carries x.unpack e name addr → isSealed name = true ∧ addr ≠ none) :
    Sound x cfg (past ++ [.sample e]) { s with
      daemon := { s.daemon with dns := handleSample x.unpack s.daemon.dns e } } :=
  { h.later (.sample e) with
    dns := fun r hr => by
      rcases handleSample_row hr with ⟨r', hr', hkey⟩ | ⟨addr, hcar, hdaddr⟩
      · obtain ⟨hdom, ip, hip, hans⟩ := h.dns r' hr'
        have hdaddr : r'.daddr = r.daddr := congrArg Prod.fst hkey
        have hdomain : r'.domain = r.domain := congrArg (fun k => k.2.2) hkey
        rw [hdomain] at hdom hans
        rw [hdaddr] at hip
        exact ⟨hdom, ip, hip, hans.later _⟩
      · obtain ⟨hdom, haddr⟩ := hdecent r.domain addr hcar
        obtain ⟨ip, rfl⟩ := Option.ne_none_iff_exists'.mp haddr
        exact ⟨hdom, ip, hdaddr, e, List.mem_append_right _ (List.mem_singleton.mpr rfl), hcar⟩ }

theorem Traced.addGlob {G : GlobTable} {name : Text} (h : Traced x cfg past G name)
    (g : GlobGroup) : Traced x cfg past (addGlob G g) name := by
  obtain ⟨b, hname, hdom, hplain, hgroup⟩ := h
  exact ⟨b, hname, hdom, hplain,
    fun hne => ⟨lookup_addGlob_isSome (hgroup hne).1 g, (hgroup hne).2⟩⟩

theorem Sound.addGlob (h : Sound x cfg past s) {g : GlobGroup} (hg : Plain g.name) :
    Sound x cfg (past ++ [.addGlob g]) { s with
      daemon := { s.daemon with globs := addGlob s.daemon.globs g } } :=
  { h.later (.addGlob g) with
    globs := fun g' hg' => by
      rcases mem_addGlob hg' with rfl | hold
      · exact ⟨hg, List.mem_append_right _ (List.mem_singleton.mpr rfl)⟩
      · exact ⟨(h.globs g' hold).1, List.mem_append_left _ (h.globs g' hold).2⟩
    registry := fun r hr => ((h.registry r hr).later _).addGlob g
    scraped := fun name hname => ((h.scraped name hname).later _).addGlob g
    policies := fun p hp => by
      obtain ⟨hgroup, hbusy⟩ := (h.later (.addGlob g)).policies p hp
      exact ⟨lookup_addGlob_isSome hgroup g, hbusy⟩ }

theorem Sound.restart (h : Sound x cfg past s) :
    Sound x cfg (past ++ [.restart]) ⟨{ s.daemon with attached := initialProgram },
      KeyedTable.empty, KeyedTable.empty, s.scraped⟩ :=
  { h.later .restart with
    bytes := fun _ he => (List.not_mem_nil he).elim
    registry := fun _ hr => (List.not_mem_nil hr).elim
    attached := fun _ hrule => Or.inl hrule }

/-! ## A check of the policies -/

/-- The rows a check leaves have groups and causes. -/
theorem Sound.checked_policies (h : Sound x cfg past s) (hrun : System.run x cfg past = some s)
    (f : TickFaults) (ord : RowOrder) {t : Tick}
    (hprom : ∀ v ∈ t.usage.samples, FromSeries s.scraped v) :
    ∀ p ∈ (pollPolicyCheck cfg f t s.daemon.policies).1.rows,
      (s.daemon.globs.lookup p.globGroup).isSome
        ∧ FoundBusy x cfg (past ++ [.check f ord t]) p.key := by
  intro p hp
  have hrow : ((pollPolicyCheck cfg f t s.daemon.policies).1.lookup p.key).isSome := by
    rw [KeyedTable.lookup_key hp]
    rfl
  rcases pollPolicyCheck_row hrow with hold | hbusy
  · obtain ⟨p', hp'⟩ := Option.isSome_iff_exists.mp hold
    obtain ⟨hmem, hkey⟩ := KeyedTable.lookup_eq_some.mp hp'
    have hglob : p'.globGroup = p.globGroup := congrArg SrcGlob.glob hkey
    have hpol := (h.later (.check f ord t)).policies p' hmem
    rwa [hkey, hglob] at hpol
  · have hmem : p.key ∈ createSrcGlobSet t.usage.above5m := (Finset.mem_inter.mp hbusy).1
    rw [createSrcGlobSet, List.mem_toFinset] at hmem
    obtain ⟨v, hv, hkey⟩ := List.mem_map.mp hmem
    have hsample : v ∈ t.usage.samples := by
      simp only [Usage.samples, List.mem_append]
      exact Or.inl (Or.inr hv)
    obtain ⟨hgroup, hcred⟩ := credited_of_fromSeries h.scraped (hprom v hsample)
    rw [hkey] at hcred
    have hglob : v.glob = p.globGroup := congrArg SrcGlob.glob hkey
    rw [hglob] at hgroup
    exact ⟨hgroup, Happened.now hrun ⟨f, ord, t, rfl, hbusy, hcred⟩⟩

theorem Reachable.classId_lt {T : PolicyTable} (h : Reachable cfg T)
    (hN : cfg.numQdiscClasses < 10 ^ 14) {p : Policy} (hp : p ∈ T.rows) :
    0 ≤ p.cls ∧ p.cls < 10 ^ 16 := by
  obtain ⟨k, hk, hcls⟩ := h.onLadder_of_mem hp
  omega

theorem FoundBusy.exists_client {m : SrcGlob} (h : FoundBusy x cfg past m) :
    ∃ client : IPv4, m.src = client.text := by
  obtain ⟨_, _, _, _, _, _, _, _, _, _, _, hcred⟩ := h
  obtain ⟨_, _, _, _, _, _, _, _, skb, _, _, _, _, _, hsrc, _⟩ := hcred
  exact ⟨skb.dst, hsrc⟩

/-- The rules made of rows with causes have causes, and are written as the
template needs them. -/
theorem rule_hasCause {T : PolicyTable} {D : DnsTable} {G : GlobTable} {ord : RowOrder}
    {now : Int} {rules : List IpPolicy} {r : IpPolicy}
    (hT : ∀ p ∈ T.rows, FoundBusy x cfg past p.key)
    (hG : ∀ g ∈ G.rows, .addGlob g ∈ past)
    (hD : ∀ r ∈ D.rows, ∃ ip : IPv4, r.daddr = ip.text ∧ Answered x past r.domain ip)
    (hrules : applyPolicies x.glob ord ReadFaults.none T G D now = some rules) (hr : r ∈ rules) :
    ∃ client server : IPv4, r.srcIpAddr = replaceAll '.' ',' client.text
      ∧ r.destIpAddr = replaceAll '.' ',' server.text ∧ HasCause x cfg past client server := by
  obtain ⟨p, hp, addr, ⟨g, hg, ips, hips, haddr⟩, rfl⟩ := (mem_applyPolicies hrules).mp hr
  obtain ⟨row, hrow, rfl, hglob, -⟩ := (mem_getIPsMatchingGlob hips addr).mp haddr
  obtain ⟨server, hserver, hans⟩ := hD row hrow
  obtain ⟨hmem, hname⟩ := KeyedTable.lookup_eq_some.mp hg
  obtain ⟨client, hclient⟩ := (hT p hp).exists_client
  have hsrc : p.srcIp = client.text := hclient
  have hkey : p.key = ⟨client.text, g.name⟩ := by rw [Policy.key, hsrc, hname]
  refine ⟨client, server, by rw [hsrc], by rw [hserver], g, row.domain, hG g hmem, hans,
    hglob, ?_⟩
  rw [← hkey]
  exact hT p hp

theorem Sound.check (h : Sound x cfg past s) (hrun : System.run x cfg past = some s)
    (hN : cfg.numQdiscClasses < 10 ^ 14) (f : TickFaults) (ord : RowOrder) {t : Tick}
    (hprom : ∀ v ∈ t.usage.samples, FromSeries s.scraped v) :
    ∃ d, s.daemon.pollPolicyCheck x.glob ord cfg f ReadFaults.none t = some d
      ∧ Sound x cfg (past ++ [.check f ord t]) { s with daemon := d } := by
  have hpol := h.checked_policies hrun f ord hprom
  have hlater := h.later (.check f ord t)
  have hreach : Reachable cfg (pollPolicyCheck cfg f t s.daemon.policies).1 :=
    Relation.ReflTransGen.tail h.reachable ⟨f, t, rfl⟩
  by_cases hc : (pollPolicyCheck cfg f t s.daemon.policies).2 = true
  · obtain ⟨rules, hrules⟩ := applyPolicies_isSome x.glob ord s.daemon.dns t.now
      fun p hp => (hpol p hp).1
    have hcause := fun r hr => rule_hasCause (r := r) (fun p hp => (hpol p hp).2)
      (fun g hg => (hlater.globs g hg).2) (fun r hr => (hlater.dns r hr).2) hrules hr
    have hdot : ∀ r ∈ rules, r.IsDotted := fun r hr => by
      obtain ⟨client, server, hsrc, hdest, -⟩ := hcause r hr
      exact ⟨client, server, hsrc, hdest⟩
    obtain ⟨P, hP⟩ := compile_isSome hdot fun r hr => by
      obtain ⟨p, hp, addr, -, rfl⟩ := (mem_applyPolicies hrules).mp hr
      exact hreach.classId_lt hN hp
    refine ⟨{ s.daemon with
      policies := (pollPolicyCheck cfg f t s.daemon.policies).1, attached := P }, ?_, ?_⟩
    · simp only [Daemon.pollPolicyCheck, hc, if_true, hrules, Option.bind_some, Daemon.attach, hP,
        Option.map_some]
    · refine { hlater with reachable := hreach, policies := hpol, attached := fun rule hrule => ?_ }
      obtain ⟨r, hr, hcomp⟩ := (Collect.mem_of_mapM hP).mp hrule
      obtain ⟨client, server, hsrc, hdest, hhas⟩ := hcause r hr
      obtain ⟨src, dest, cls⟩ := r
      simp only at hsrc hdest
      rw [hsrc, hdest, compileRule_text] at hcomp
      obtain ⟨n, -, rfl⟩ := Option.map_eq_some_iff.mp hcomp
      exact Or.inr ⟨client, server, rfl, rfl, hhas⟩
  · refine ⟨{ s.daemon with policies := (pollPolicyCheck cfg f t s.daemon.policies).1 }, ?_,
      { hlater with reachable := hreach, policies := hpol }⟩
    simp only [Daemon.pollPolicyCheck, if_neg hc]

end Steps

/-! ## Whole runs -/

section Runs

variable {x : Outside} {cfg : Config}

theorem sound_install : Sound x cfg [] System.install where
  bytes := fun _ he => (List.not_mem_nil he).elim
  globs := fun _ hg => (List.not_mem_nil hg).elim
  dns := fun _ hr => (List.not_mem_nil hr).elim
  registry := fun _ hr => (List.not_mem_nil hr).elim
  scraped := fun _ hname => (List.not_mem_nil hname).elim
  reachable := Relation.ReflTransGen.refl
  policies := fun _ hp => (List.not_mem_nil hp).elim
  attached := fun _ hrule => Or.inl hrule

/-- A step that has a result keeps the process sound; only an export can be
without one. -/
theorem Sound.step {past : List SystemEvent} {s : System} {e : SystemEvent}
    (h : Sound x cfg past s) (hrun : System.run x cfg past = some s)
    (hN : cfg.numQdiscClasses < 10 ^ 14) (hallowed : s.Allowed x e)
    (hexport : ∀ ord entries, e = .poll ord entries →
      (pollMetrics x.valid x.fmatch ord s.daemon.globs s.daemon.dns entries s.registry).isSome) :
    ∃ s', s.step x cfg e = some s' ∧ Sound x cfg (past ++ [e]) s' := by
  cases e with
  | frame skb => exact ⟨_, rfl, h.frame skb⟩
  | poll ord entries =>
      obtain ⟨R, hR⟩ := Option.isSome_iff_exists.mp (hexport ord entries rfl)
      exact ⟨_, by rw [System.step, hR, Option.map_some], h.poll hrun hallowed hR⟩
  | scrape names => exact ⟨_, rfl, h.scrape hallowed⟩
  | check f ord t =>
      obtain ⟨d, hd, hsound⟩ := h.check hrun hN f ord hallowed
      exact ⟨_, by rw [System.step, hd, Option.map_some], hsound⟩
  | sample e => exact ⟨_, rfl, h.sample hallowed⟩
  | addGlob g => exact ⟨_, rfl, h.addGlob hallowed⟩
  | restart =>
      refine ⟨_, ?_, h.restart⟩
      rw [System.step, connectInitialize_eq, Option.map_some]

/-- The metrics library takes a series whose labels are escaped. -/
def Outside.TakesEscaped (x : Outside) : Prop :=
  ∀ b : BandwidthList, isSealed b.probDomain = true → Plain b.globName →
    x.valid (seriesName b) = true

theorem Sound.exports {past : List SystemEvent} {s : System} (h : Sound x cfg past s)
    (hrun : System.run x cfg past = some s) (hvalid : x.TakesEscaped) {ord : RowOrder}
    {entries : List ByteEntry} (hperm : entries.Perm s.bytes.rows) :
    (pollMetrics x.valid x.fmatch ord s.daemon.globs s.daemon.dns entries
      s.registry).isSome := by
  refine pollMetrics_isSome _ fun e he => ?_
  obtain ⟨b, hname, hdom, hplain, -⟩ := h.traced hrun ord hperm he
  rw [hname]
  exact hvalid b hdom hplain

end Runs

/-- Whatever frames, answers, groups, polls, scrapes, checks and restarts come,
and whichever writes of the checks fail, the process does not die of them. -/
theorem survives (x : Outside) (cfg : Config) (hvalid : x.TakesEscaped)
    (hN : cfg.numQdiscClasses < 10 ^ 14) (es : List SystemEvent)
    (hallowed : Always (System.step x cfg) System.install es (System.Allowed x)) :
    ∃ s, System.run x cfg es = some s := by
  obtain ⟨s, hrun, -⟩ := completes sound_install
    (fun past s₁ e hpast hs hall => hs.step hpast hN hall fun ord entries he => by
      subst he
      exact hs.exports hpast hvalid hall) hallowed
  exact ⟨s, hrun⟩

/-! A busy client, from the first answer to the first rule. -/

/-- A response for `www.reddit.com.` with the address of `redditServer`. -/
def redditSample : Bytes :=
  [0x12, 0x34, 0x81, 0x80, 0, 1, 0, 1, 0, 0, 0, 0]
    ++ [3, 0x77, 0x77, 0x77, 6, 0x72, 0x65, 0x64, 0x64, 0x69, 0x74, 3, 0x63, 0x6f, 0x6d, 0,
        0, 1, 0, 1]
    ++ [0xc0, 0x0c, 0, 1, 0, 1, 0, 0, 0, 60, 0, 4, 151, 101, 1, 140]

def redditOutside : Outside where
  glob := redditGlob
  fmatch := redditGlob
  valid := fun _ => true
  unpack := fun sample =>
    if sample = redditSample then [.a "www.reddit.com.".toList (some redditServer)] else []

def redditDownload : Skb := frameBetween redditServer ⟨192, 168, 0, 20⟩

def redditExport : Text :=
  formatSeries (⟨192, 168, 0, 20⟩ : IPv4).text redditServer.text "www.reddit.com.".toList
    redditGroup.name

def busyDay : List SystemEvent :=
  [.addGlob redditGroup, .sample (DnsEvent.at redditSample 0), .frame redditDownload,
    .poll RowOrder.stored (trafficMon KeyedTable.empty redditDownload).1.rows,
    .scrape [redditExport],
    .check TickFaults.none RowOrder.stored (busyTick redditClient minute)]

theorem fromSeries_redditExport :
    FromSeries [redditExport] ⟨redditClient.src, redditClient.glob, 1⟩ :=
  ⟨by decide, redditExport, List.mem_singleton.mpr rfl, _, _,
    (roundTrips_iff _ _ _ _).mpr ⟨plain_text _, plain_text _, by decide, by decide⟩,
    by decide, by decide⟩

theorem allowed_busyDay : Always (System.step redditOutside baseConfig) System.install busyDay
    (System.Allowed redditOutside) := by
  refine always_cons (show Plain redditGroup.name by decide) fun s hs => ?_
  obtain rfl := Option.some.inj hs
  refine always_cons ?_ fun s hs => ?_
  · rintro name addr ⟨i, hi, -⟩
    have hanswers : redditOutside.unpack (DnsEvent.at redditSample 0).rawSample
        = [.a "www.reddit.com.".toList (some redditServer)] := by
      simp only [redditOutside, DnsEvent.at, if_true]
    rw [hanswers, List.getElem?_singleton] at hi
    split at hi
    · obtain ⟨rfl, rfl⟩ := RR.a.inj (Option.some.inj hi)
      exact ⟨by decide, by simp⟩
    · cases hi
  obtain rfl := Option.some.inj hs
  refine always_cons trivial fun s hs => ?_
  obtain rfl := Option.some.inj hs
  refine always_cons (List.Perm.refl _) fun s hs => ?_
  rw [System.step, Option.map_eq_some_iff] at hs
  obtain ⟨R, hR, rfl⟩ := hs
  obtain rfl := pollMetrics_eq hR
  refine always_cons ?_ fun s hs => ?_
  · intro name hname
    obtain rfl := List.mem_singleton.mp hname
    decide
  obtain rfl := Option.some.inj hs
  refine always_cons ?_ fun _ _ => always_nil
  intro v hv
  have hsample : v = ⟨redditClient.src, redditClient.glob, 1⟩ := by
    revert v
    decide
  rw [hsample]
  exact fromSeries_redditExport

theorem survives_busyDay : ∃ s, System.run redditOutside baseConfig busyDay = some s :=
  survives redditOutside baseConfig (fun _ _ _ => rfl) (by decide) busyDay allowed_busyDay

end Nethadone
