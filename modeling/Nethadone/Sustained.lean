import Nethadone.ClassHandles
import Nethadone.Steady
import Nethadone.TornReads

/-!
# Sustained use

What the loop is for. A client that is busy with a group in every round
climbs a rung a round, whatever other events fall in between, and once it
is on the top rung the attached program sends the frames it gets from the
group's addresses to the slowest leaf (`busy_throttled`).

Two facts meet at the end of the run. The height of the pair grows with
the rounds (`height_foldl_of_busy`); and from the first round that changes
a row, the attached program gives the frame the class that the pair's row
had at the last one (`Followed`), which is the row it still has. Before
that round the pair is below the top, so a run that ends on the top has
seen one.
-/

namespace Nethadone

def Event.tick? : Event → Option Tick
  | .tick t => some t
  | .addDns _ _ _ => none
  | .addGlob _ => none

/-- The clock of the events that read it. -/
def Event.now? : Event → Option Int
  | .tick t => some t.now
  | .addDns _ _ now => some now
  | .addGlob _ => none

/-! ## The pair climbs -/

section Climbing

variable {glob : Text → Text → Bool} {ord : RowOrder} {cfg : Config} {T : PolicyTable} {t : Tick}
  {m : SrcGlob}

/-- The round finds the pair busy, and does not find it below the threshold. -/
def BusyIn (m : SrcGlob) (t : Tick) : Prop :=
  m ∈ getActiveGlobGroups t.usage ∧ m ∉ createSrcGlobSet t.usage.below5m

theorem height_step_of_busy (hT : Reachable cfg T) (hout : OutOfBackoff cfg t.now (T.lookup m))
    (hbusy : BusyIn m t) :
    height ((step cfg T t).lookup m) = min (height (T.lookup m) + 1) (topRung cfg) := by
  by_cases hr : SomeRaise cfg t T
  · rw [step, lookup_tick_of_raise hr, if_pos hbusy.1]
    exact height_increasedRow hT hout
  · -- nobody can be raised, this pair included
    have hle := height_le hT m
    have hge : ¬height (T.lookup m) < topRung cfg := fun hlt =>
      hr ⟨m, hbusy.1, (raisable_iff hT hout).mpr hlt⟩
    rw [step, lookup_tick_of_not_raise hr, if_neg hbusy.2]
    omega

theorem height_foldl_of_busy (hI : 0 < cfg.policyBackoffInterval) {ts : List Tick}
    (hT : Reachable cfg T) (hbusy : ∀ t ∈ ts, BusyIn m t) (hpast : StampsPast T ts)
    (hclock : ts.Pairwise fun a b => a.now ≤ b.now) :
    height ((ts.foldl (step cfg) T).lookup m)
      = min (height (T.lookup m) + ts.length) (topRung cfg) := by
  induction ts generalizing T with
  | nil =>
      have hle := height_le hT m
      rw [List.foldl_nil, List.length_nil]
      omega
  | cons t ts ih =>
      have hout : OutOfBackoff cfg t.now (T.lookup m) :=
        outOfBackoff_of_past hI (fun p hp => hpast p hp t List.mem_cons_self) m
      have hfirst := height_step_of_busy hT hout (hbusy t List.mem_cons_self)
      have hrest := ih (hT.step t) (fun t' ht' => hbusy t' (List.mem_cons_of_mem t ht'))
        (hpast.step hclock) (List.pairwise_cons.mp hclock).2
      rw [List.foldl_cons, hrest, hfirst, List.length_cons]
      omega

/-- Only ticks move the policy table. -/
theorem policies_run {es : List Event} {d d' : Daemon}
    (hrun : Run.run (Daemon.step glob ord cfg) d es = some d') :
    d'.policies = (es.filterMap Event.tick?).foldl (step cfg) d.policies := by
  induction es generalizing d with
  | nil =>
      obtain rfl := Option.some.inj hrun
      rfl
  | cons e es ih =>
      obtain ⟨d₁, hd₁, hrest⟩ := Run.run_cons hrun
      rw [ih hrest]
      cases e with
      | tick t =>
          have hpolicies : d₁.policies = step cfg d.policies t := by
            by_cases hc : (tick cfg t d.policies).2 = true
            · exact (step_tick_of_changed hc hd₁).1
            · rw [step_tick_of_not_changed hc] at hd₁
              obtain rfl := Option.some.inj hd₁
              exact (pollPolicyCheck_still hc).symm
          rw [hpolicies]
          rfl
      | addDns domain ipaddr now =>
          obtain rfl := Option.some.inj hd₁
          rfl
      | addGlob g =>
          obtain rfl := Option.some.inj hd₁
          rfl

theorem ticks_pairwise {es : List Event} (h : (es.filterMap Event.now?).Pairwise (· ≤ ·)) :
    (es.filterMap Event.tick?).Pairwise fun a b => a.now ≤ b.now := by
  have hsub : ∀ es : List Event,
      ((es.filterMap Event.tick?).map (·.now)).Sublist (es.filterMap Event.now?) := by
    intro es
    induction es with
    | nil => exact List.Sublist.slnil
    | cons e es ih =>
        cases e with
        | tick t => exact ih.cons_cons t.now
        | addDns domain ipaddr now => exact ih.cons now
        | addGlob g => exact ih
  exact List.pairwise_map.mp (h.sublist (hsub es))

end Climbing

/-! ## The frames of the pair -/

/-- The pair is one of another client. -/
def Elsewhere (client : IPv4) (m : SrcGlob) : Prop :=
  ∃ c : IPv4, m.src = c.text ∧ c ≠ client

/-- No other policy names the client. -/
def SoleClient (m : SrcGlob) (client : IPv4) (T : PolicyTable) : Prop :=
  ∀ q ∈ T.rows, q.key ≠ m → Elsewhere client q.key

/-- The attached program gives the frame the class of the pair's row. -/
def Followed (m : SrcGlob) (skb : Skb) (d : Daemon) : Prop :=
  SoleClient m skb.dst d.policies → ∀ p ∈ d.policies.lookup m, ∀ st : ThrottleStats,
    (throttle d.attached st skb).2.1.tcClassid = classWord (ruleFor p skb.src.text)

section Frames

variable {glob : Text → Text → Bool} {ord : RowOrder} {cfg : Config} {d d' : Daemon}
  {m : SrcGlob} {skb : Skb} {now : Int}

theorem daddr_of_compileRule {c : IPv4} {dest : Text} {cls : Int} {r : Rule}
    (h : compileRule ⟨replaceAll '.' ',' c.text, dest, cls⟩ = some r) : r.daddr = some c.word := by
  unfold compileRule compileRuleBy at h
  split at h
  · rename_i saddr daddr classid _ hdaddr _
    obtain rfl := Option.some.inj h
    rw [expandSrc, if_neg (replaceAll_text_ne_nil c), expandIpAddress_text] at hdaddr
    exact (Option.some.inj hdaddr).symm
  · cases h

theorem followed_of_inSync (hip : skb.IsIPv4) (hclient : m.src = skb.dst.text)
    (hsync : d.InSync glob ord now)
    (hsees : ∀ p, p.globGroup = m.glob → Sees glob d.globs d.dns now p skb.src.text) :
    Followed m skb d := by
  intro hsole p hp st
  obtain ⟨hrow, hkey⟩ := KeyedTable.lookup_eq_some.mp hp
  have hgroup : p.globGroup = m.glob := congrArg SrcGlob.glob hkey
  have hsrc : p.srcIp = skb.dst.text := (congrArg SrcGlob.src hkey).trans hclient
  obtain ⟨rules, Q, hrules, hQ, hsame⟩ := hsync
  have hbuilt : Rebuilt glob ord d.policies d.globs d.dns now Q := ⟨rules, hrules, hQ⟩
  rw [hsame st skb hip, throttle_tcClassid hip]
  -- every rule that holds for the frame is one of the pair's own
  have hown : ∀ r ∈ Q.filter (·.holds skb.src.word skb.dst.word),
      r.classid = classWord (ruleFor p skb.src.text) := by
    intro r hr
    obtain ⟨hr, hholds⟩ := List.mem_filter.mp hr
    obtain ⟨q, hq, addr, -, hcompiled⟩ := (mem_rebuilt hbuilt).mp hr
    by_cases hqm : q.key = m
    · obtain rfl := KeyedTable.eq_of_key hq hrow (hqm.trans hkey.symm)
      exact (compileRule_classid hcompiled).1
    · obtain ⟨c, hc, hne⟩ := hsole q hq hqm
      have hq' : q.srcIp = c.text := hc
      rw [ruleFor, hq'] at hcompiled
      have hdaddr := daddr_of_compileRule hcompiled
      rw [Rule.holds, hdaddr, Bool.and_eq_true] at hholds
      exact absurd (IPv4.word_injective (beq_iff_eq.mp hholds.2)) hne.symm
  -- and one of them holds
  obtain ⟨r, hr, hcompiled⟩ : ∃ r ∈ Q, compileRule (ruleFor p skb.src.text) = some r := by
    have hmem : ruleFor p skb.src.text ∈ rules :=
      (mem_applyPolicies hrules).mpr ⟨p, hrow, _, reaches_iff.mpr (hsees p hgroup), rfl⟩
    exact Collect.exists_of_mapM hQ hmem
  have hholds : r.holds skb.src.word skb.dst.word = true := by
    rw [ruleFor, hsrc, compileRule_text, Option.map_eq_some_iff] at hcompiled
    obtain ⟨n, -, rfl⟩ := hcompiled
    simp [Rule.holds]
  cases hlast : (Q.filter (·.holds skb.src.word skb.dst.word)).getLast? with
  | none =>
      rw [List.getLast?_eq_none_iff] at hlast
      exact absurd (List.mem_filter.mpr ⟨hr, hholds⟩) (hlast ▸ List.not_mem_nil)
  | some r' => exact hown r' (List.mem_of_getLast? hlast)

/-- A new row belongs to a pair that was found busy. -/
theorem SoleClient.foldl {client : IPv4} {ts : List Tick} {T : PolicyTable}
    (h : SoleClient m client T)
    (hbusy : ∀ t ∈ ts, ∀ m' ∈ getActiveGlobGroups t.usage, m' ≠ m → Elsewhere client m') :
    SoleClient m client (ts.foldl (step cfg) T) := by
  induction ts generalizing T with
  | nil => exact h
  | cons t ts ih =>
      refine ih (fun q hq hne => ?_) fun t' ht' => hbusy t' (List.mem_cons_of_mem t ht')
      have hrow : ((pollPolicyCheck cfg TickFaults.none t T).1.lookup q.key).isSome :=
        Option.isSome_iff_exists.mpr ⟨q, KeyedTable.lookup_key hq⟩
      rcases pollPolicyCheck_row hrow with hold | hnew
      · obtain ⟨p, hp⟩ := Option.isSome_iff_exists.mp hold
        obtain ⟨hp, hkey⟩ := KeyedTable.lookup_eq_some.mp hp
        have helse := h p hp (hkey ▸ hne)
        rwa [hkey] at helse
      · exact hbusy t List.mem_cons_self q.key hnew hne

theorem sees_of_reachesWithin {G : GlobTable} {D : DnsTable} {first last : Int} {p : Policy}
    {addr : Text} (h : ReachesWithin glob G D first last p addr) (hlast : last ≤ dayOf now)
    (hfirst : dayOf now - 5 ≤ first) : Sees glob G D now p addr := by
  obtain ⟨g, hg, r, hr, haddr, hglob, hge, hle⟩ := h
  exact ⟨g, hg, r, hr, haddr, hglob, hfirst.trans hge, hle.trans hlast⟩

/-- A pair below the top stays there, or gets a row that the attached program
follows. -/
theorem followed_run (hip : skb.IsIPv4) (hclient : m.src = skb.dst.text) {first : Int} :
    ∀ {es : List Event} {last : Int} {d d' : Daemon},
      Run.run (Daemon.step glob ord cfg) d es = some d' →
      (es.filterMap Event.now?).Pairwise (· ≤ ·) → first ≤ last →
      (∀ now ∈ es.filterMap Event.now?, last ≤ dayOf now ∧ dayOf now - 5 ≤ first) →
      (∀ p, p.globGroup = m.glob →
        ReachesWithin glob d.globs d.dns first last p skb.src.text) →
      (height (d.policies.lookup m) < topRung cfg ∨ Followed m skb d) →
      height (d'.policies.lookup m) < topRung cfg ∨ Followed m skb d'
  | [], _, _, _, hrun, _, _, _, _, h => by
      obtain rfl := Option.some.inj hrun
      exact h
  | e :: es, last, d, d', hrun, hclock, hfl, hdays, hseen, h => by
      obtain ⟨d₁, hd₁, hrest⟩ := Run.run_cons hrun
      cases e with
      | tick t =>
          obtain ⟨hlast, hfirst⟩ := hdays t.now List.mem_cons_self
          have hclock' := (List.pairwise_cons.mp hclock).2
          have hdays' := fun now hnow => hdays now (List.mem_cons_of_mem t.now hnow)
          by_cases hc : (tick cfg t d.policies).2 = true
          · obtain ⟨-, hglobs, hdns, hsync⟩ := step_tick_of_changed hc hd₁
            rw [← hglobs, ← hdns] at hseen
            have hfollowed : Followed m skb d₁ := followed_of_inSync hip hclient hsync fun p hp =>
              sees_of_reachesWithin (hseen p hp) hlast hfirst
            exact followed_run hip hclient hrest hclock' hfl hdays' hseen (Or.inr hfollowed)
          · rw [step_tick_of_not_changed hc] at hd₁
            obtain rfl := Option.some.inj hd₁
            exact followed_run hip hclient hrest hclock' hfl hdays' hseen h
      | addDns domain ipaddr now =>
          obtain rfl := Option.some.inj hd₁
          obtain ⟨hlast, hfirst⟩ := hdays now List.mem_cons_self
          obtain ⟨hlater, hclock'⟩ := List.pairwise_cons.mp hclock
          have hfn : first ≤ dayOf now := hfl.trans hlast
          refine followed_run hip hclient hrest hclock' hfn (fun now' hnow' => ?_)
            (fun p hp => (hseen p hp).addDns hfn hlast domain ipaddr) h
          exact ⟨dayOf_mono (hlater now' hnow'), (hdays now' (List.mem_cons_of_mem now hnow')).2⟩
      | addGlob g =>
          obtain rfl := Option.some.inj hd₁
          exact followed_run hip hclient hrest hclock hfl hdays
            (fun p hp => (hseen p hp).addGlob g) h

end Frames

/-! ## The slowest leaf -/

theorem exists_top_row {cfg : Config} {T : PolicyTable} {m : SrcGlob} (hT : Reachable cfg T)
    (h : height (T.lookup m) = topRung cfg) :
    ∃ p ∈ T.lookup m, p.cls = 10 * (cfg.numQdiscClasses.toNat + 1) := by
  cases hp : T.lookup m with
  | none =>
      rw [hp, height, rung, topRung] at h
      cases h
  | some p =>
      obtain ⟨k, hk, hcls⟩ := hT.onLadder m p hp
      rw [hp, height, rung, topRung, hcls] at h
      exact ⟨p, rfl, by omega⟩

theorem exists_slowest_leaf (cfg : Config) (hN : cfg.numQdiscClasses ≤ 8) (iface : Int)
    {r : IpPolicy} (hr : r.classId = 10 * (cfg.numQdiscClasses.toNat + 1)) :
    ∃ c ∈ (lanClasses cfg iface).getLast?, classWord r = .ofNat 32 c.handle.toNat := by
  obtain ⟨c, hc, hhandle⟩ := exists_lanClass cfg iface (le_refl cfg.numQdiscClasses.toNat)
  refine ⟨c, ?_, ?_⟩
  · have hlen : (lanClasses cfg iface).length = cfg.numQdiscClasses.toNat + 1 := by
      simp [lanClasses, createLeafQdiscs]
    rw [List.getLast?_eq_getElem?, hlen, Nat.add_sub_cancel]
    exact hc
  · rw [classWord, hr, cIntConst_rung (by omega), hhandle, toNat_handleId (by omega),
      Option.getD_some]

/-- The pair is busy in every round, for as many rounds as there are rungs, on a
clock that does not go back; the other busy pairs are of other clients. -/
structure SustainedUse (cfg : Config) (m : SrcGlob) (client : IPv4) (T : PolicyTable)
    (es : List Event) : Prop where
  busy : ∀ t ∈ es.filterMap Event.tick?, BusyIn m t
  rounds : topRung cfg ≤ (es.filterMap Event.tick?).length
  sole : SoleClient m client T
  others : ∀ t ∈ es.filterMap Event.tick?, ∀ m' ∈ getActiveGlobGroups t.usage, m' ≠ m →
    Elsewhere client m'
  past : StampsPast T (es.filterMap Event.tick?)
  clock : (es.filterMap Event.now?).Pairwise (· ≤ ·)

/-- The address was answered for the group, not after the first event and at most
five days before the last. -/
def AnsweredFor (glob : Text → Text → Bool) (d : Daemon) (group addr : Text) (es : List Event) :
    Prop :=
  ∃ g ∈ d.globs.lookup group, ∃ r ∈ d.dns.rows, r.daddr = addr ∧ glob g.glob r.domain = true
    ∧ ∀ now ∈ es.filterMap Event.now?,
        dayOf r.tstamp ≤ dayOf now ∧ dayOf now ≤ dayOf r.tstamp + 5

/-- After sustained use, with DNS answers and new groups coming in between, the frames
that the client gets from an address answered for the group are in the last
leaf. -/
theorem busy_throttled (glob : Text → Text → Bool) (ord : RowOrder) (cfg : Config)
    (hI : 0 < cfg.policyBackoffInterval) (hN : cfg.numQdiscClasses ≤ 8) (iface : Int)
    (d d' : Daemon) (hT : Reachable cfg d.policies) (m : SrcGlob)
    (hlow : height (d.policies.lookup m) < topRung cfg) (skb : Skb) (hip : skb.IsIPv4)
    (hclient : m.src = skb.dst.text) (es : List Event)
    (huse : SustainedUse cfg m skb.dst d.policies es)
    (hanswered : AnsweredFor glob d m.glob skb.src.text es)
    (hrun : Run.run (Daemon.step glob ord cfg) d es = some d') :
    ∃ c ∈ (lanClasses cfg iface).getLast?, ∀ st : ThrottleStats,
      (throttle d'.attached st skb).2.1.tcClassid = .ofNat 32 c.handle.toNat := by
  have hpolicies := policies_run hrun
  have htop : height (d'.policies.lookup m) = topRung cfg := by
    have hrounds := huse.rounds
    rw [hpolicies, height_foldl_of_busy hI hT huse.busy huse.past (ticks_pairwise huse.clock)]
    omega
  have hT' : Reachable cfg d'.policies := hpolicies ▸ reachable_foldl hT
  have hsole' : SoleClient m skb.dst d'.policies := hpolicies ▸ huse.sole.foldl huse.others
  obtain ⟨p, hp, hcls⟩ := exists_top_row hT' htop
  obtain ⟨c, hc, hword⟩ :=
    exists_slowest_leaf cfg hN iface (r := ruleFor p skb.src.text) hcls
  obtain ⟨g, hg, r, hr, haddr, hglob, hdays⟩ := hanswered
  have hseen : ∀ p, p.globGroup = m.glob → ReachesWithin glob d.globs d.dns (dayOf r.tstamp)
      (dayOf r.tstamp) p skb.src.text := by
    intro p hgroup
    exact ⟨g, hgroup ▸ hg, r, hr, haddr, hglob, le_refl _, le_refl _⟩
  have hwindow : ∀ now ∈ es.filterMap Event.now?,
      dayOf r.tstamp ≤ dayOf now ∧ dayOf now - 5 ≤ dayOf r.tstamp := by
    intro now hnow
    obtain ⟨hge, hle⟩ := hdays now hnow
    exact ⟨hge, by omega⟩
  rcases followed_run hip hclient hrun huse.clock (le_refl _) hwindow hseen (Or.inl hlow) with h | h
  · omega
  · exact ⟨c, hc, fun st => (h hsole' p hp st).trans hword⟩

/-- One class below the open pipe, so two rungs. -/
def twoRungConfig : Config := { baseConfig with numQdiscClasses := 1 }

def freshDaemon : Daemon where
  policies := KeyedTable.empty
  globs := redditGlobs
  dns := redditDns
  attached := initialProgram

def busyEvening : List Event :=
  [.tick (busyTick redditClient minute), .addDns "example.org.".toList (some redditServer) minute,
    .tick (busyTick redditClient (2 * minute))]

theorem sustainedUse_busyEvening : SustainedUse twoRungConfig redditClient ⟨192, 168, 0, 20⟩
    freshDaemon.policies busyEvening where
  busy := by unfold BusyIn; decide
  rounds := by decide
  sole := fun q hq => absurd hq List.not_mem_nil
  others := by
    intro t ht m' hm' hne
    refine absurd ?_ hne
    rcases List.mem_cons.mp ht with rfl | ht
    · exact (mem_active_busyTick redditClient m' minute).mp hm'
    · obtain rfl := List.mem_singleton.mp ht
      exact (mem_active_busyTick redditClient m' (2 * minute)).mp hm'
  past := fun p hp => absurd hp List.not_mem_nil
  clock := by decide

theorem busy_throttled_evening : ∃ d',
    Run.run (Daemon.step redditGlob RowOrder.stored twoRungConfig) freshDaemon busyEvening = some d'
      ∧ ∃ c ∈ (lanClasses twoRungConfig 0).getLast?, ∀ st : ThrottleStats,
        (throttle d'.attached st (frameBetween redditServer ⟨192, 168, 0, 20⟩)).2.1.tcClassid
          = .ofNat 32 c.handle.toNat := by
  have hrun : (Run.run (Daemon.step redditGlob RowOrder.stored twoRungConfig) freshDaemon
      busyEvening).isSome = true := by decide
  obtain ⟨d', hd'⟩ := Option.isSome_iff_exists.mp hrun
  have hanswered : AnsweredFor redditGlob freshDaemon redditClient.glob redditServer.text
      busyEvening :=
    ⟨redditGroup, by decide, ⟨"0.0.0.0".toList, redditServer.text, "www.reddit.com.".toList, 0⟩,
      by decide, rfl, by decide, by decide⟩
  exact ⟨d', hd', busy_throttled redditGlob RowOrder.stored twoRungConfig (by decide) (by decide) 0
    freshDaemon d' Relation.ReflTransGen.refl redditClient (by decide)
    (frameBetween redditServer ⟨192, 168, 0, 20⟩)
    (isIPv4_frameBetween redditServer ⟨192, 168, 0, 20⟩) (by decide) busyEvening
    sustainedUse_busyEvening hanswered hd'⟩

end Nethadone
