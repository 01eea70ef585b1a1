import Nethadone.History
import Nethadone.RuleOrder

/-!
# A pass among other writers

`applyPolicies` of `policy/simpleloadavg.go` asks the databases twice for
every policy row, and between any two of its calls the DNS pollers and the
web server may write. The rules it collects are then those of no single
moment. Here the pass is a machine that makes one call at a time, the other
goroutines' writes coming in between in any order.

Nothing is ever deleted from the two tables, so the collected rules lie
between those of the tables before the pass and those of the tables after
it (`pass_between`), whatever the schedule; and no schedule stops the pass
or keeps it from its end (`pass_completes`). Left alone, the machine
collects what `applyPolicies` does (`pass_alone`).
-/

namespace Nethadone

open History

/-! ## One call at a time -/

/-- A pass of `applyPolicies`, and what it shares with the other goroutines.
`group` is what `GetGlob` has answered for the first row of `todo`. -/
structure Pass where
  globs : GlobTable
  dns : DnsTable
  todo : List Policy
  group : Option GlobGroup
  collected : List IpPolicy
  now : Int

inductive Call where
  | read
  | addDns (domain : Text) (ipaddr : RecordIP)
  | addGlob (g : GlobGroup)

/-- A call, and when it is made. -/
structure TimedCall where
  now : Int
  call : Call

section Machine

variable (glob : Text → Text → Bool) (ord : RowOrder)

/-- The next call of the pass. Without a result a nil pointer was dereferenced. -/
def Pass.read (s : Pass) : Option Pass :=
  match s.todo, s.group with
  | [], _ => some s
  | p :: _, none => (getGlob false s.globs p.globGroup).map fun gg => { s with group := some gg }
  | p :: ps, some gg =>
      (getIPsMatchingGlob glob ord false s.dns gg s.now).map fun ips =>
        { s with todo := ps, group := none, collected := s.collected ++ ips.map (ruleFor p) }

def Pass.step (s : Pass) (c : TimedCall) : Option Pass :=
  match c.call with
  | .read => Pass.read glob ord { s with now := c.now }
  | .addDns domain ipaddr =>
      some { s with dns := addDns s.dns domain ipaddr c.now, now := c.now }
  | .addGlob g => some { s with globs := addGlob s.globs g, now := c.now }

/-- The pass after `GetAllPolicies`. -/
def Pass.start (T : PolicyTable) (G : GlobTable) (D : DnsTable) (now : Int) : Pass :=
  ⟨G, D, ord.policies T.rows, none, [], now⟩

end Machine

/-- The clock does not go back. -/
def Pass.Later (s : Pass) (c : TimedCall) : Prop := s.now ≤ c.now

/-- The policy has a group, which matches a domain the address was answered for
on a day of the window. -/
def ReachesWithin (glob : Text → Text → Bool) (G : GlobTable) (D : DnsTable) (first last : Int)
    (p : Policy) (addr : Text) : Prop :=
  ∃ g ∈ G.lookup p.globGroup, ∃ r ∈ D.rows, r.daddr = addr ∧ glob g.glob r.domain = true
    ∧ first ≤ dayOf r.tstamp ∧ dayOf r.tstamp ≤ last

section Between

variable {glob : Text → Text → Bool} {ord : RowOrder} {s₀ s s' : Pass} {c : TimedCall}

/-! ## The pass alone -/

theorem getIpPolicies_calls (G : GlobTable) (D : DnsTable) (now : Int) (p : Policy) :
    getIpPolicies glob ord ReadFaults.none G D now p
      = (getGlob false G p.globGroup).bind fun gg =>
          (getIPsMatchingGlob glob ord false D gg now).map fun ips => ips.map (ruleFor p) := by
  simp only [getIpPolicies, ReadFaults.none]
  cases getGlob false G p.globGroup with
  | none => rfl
  | some gg => cases getIPsMatchingGlob glob ord false D gg now <;> rfl

theorem reads_alone (G : GlobTable) (D : DnsTable) (now : Int) :
    ∀ (todo : List Policy) (rules : List IpPolicy),
      Run.run (Pass.step glob ord) ⟨G, D, todo, none, rules, now⟩
          (List.replicate (2 * todo.length) ⟨now, .read⟩)
        = (todo.mapM (getIpPolicies glob ord ReadFaults.none G D now)).map fun ls =>
            ⟨G, D, [], none, rules ++ ls.flatten, now⟩
  | [], rules => by
      rw [List.mapM_nil]
      simp [Run.run, Option.pure_def]
  | p :: ps, rules => by
      have htwo : 2 * (p :: ps).length = 2 * ps.length + 1 + 1 := by
        rw [List.length_cons]
        omega
      rw [htwo, List.replicate_succ, List.replicate_succ, Run.run, List.mapM_cons,
        getIpPolicies_calls]
      simp only [Pass.step, Pass.read]
      cases getGlob false G p.globGroup with
      | none => rfl
      | some gg =>
          simp only [Option.map_some, Option.bind_some, Run.run, Pass.step, Pass.read]
          cases getIPsMatchingGlob glob ord false D gg now with
          | none => rfl
          | some ips =>
              simp only [Option.map_some, Option.bind_some, Option.bind_eq_bind]
              rw [reads_alone G D now ps]
              cases ps.mapM (getIpPolicies glob ord ReadFaults.none G D now) with
              | none => rfl
              | some ls => simp [List.append_assoc]

/-- With no other writer, and at one instant, the pass collects the rules that
`applyPolicies` makes of the tables. -/
theorem pass_alone (T : PolicyTable) (G : GlobTable) (D : DnsTable) (now : Int) :
    (Run.run (Pass.step glob ord) (Pass.start ord T G D now)
        (List.replicate (2 * T.rows.length) ⟨now, .read⟩)).map (·.collected)
      = applyPolicies glob ord ReadFaults.none T G D now := by
  rw [← (ord.policies_perm T.rows).length_eq, Pass.start, reads_alone, Option.map_map,
    applyPolicies_eq]
  rfl

/-! ## What the other goroutines' writes leave -/

section Within

variable {G : GlobTable} {D : DnsTable} {first last first' last' : Int} {p : Policy} {addr : Text}

theorem ReachesWithin.mono (h : ReachesWithin glob G D first last p addr) (hf : first' ≤ first)
    (hl : last ≤ last') : ReachesWithin glob G D first' last' p addr := by
  obtain ⟨g, hg, r, hr, haddr, hglob, hfirst, hlast⟩ := h
  exact ⟨g, hg, r, hr, haddr, hglob, hf.trans hfirst, hlast.trans hl⟩

theorem ReachesWithin.addGlob (h : ReachesWithin glob G D first last p addr) (g : GlobGroup) :
    ReachesWithin glob (addGlob G g) D first last p addr := by
  obtain ⟨g', hg', hrow⟩ := h
  exact ⟨g', lookup_addGlob hg' g, hrow⟩

theorem ReachesWithin.addDns (h : ReachesWithin glob G D first last p addr) {now : Int}
    (hf : first ≤ dayOf now) (hl : last ≤ dayOf now) (domain : Text) (ipaddr : RecordIP) :
    ReachesWithin glob G (addDns D domain ipaddr now) first (dayOf now) p addr := by
  obtain ⟨g, hg, r, hr, haddr, hglob, hfirst, hlast⟩ := h
  obtain ⟨r', hr', hkey, hstamp⟩ := exists_addDns hr domain ipaddr now
  have hdaddr : r'.daddr = r.daddr := congrArg Prod.fst hkey
  have hdomain : r'.domain = r.domain := congrArg (fun k => k.2.2) hkey
  refine ⟨g, hg, r', hr', hdaddr.trans haddr, hdomain ▸ hglob, ?_⟩
  rcases hstamp with rfl | hstamp
  · exact ⟨hfirst, hlast.trans hl⟩
  · rw [hstamp, dayOf_datetime]
    exact ⟨hf, le_refl _⟩

theorem reachesWithin_of_answer {gg : GlobGroup} {now : Int} {ips : List Text}
    (hg : gg ∈ G.lookup p.globGroup)
    (hips : getIPsMatchingGlob glob ord false D gg now = some ips) (haddr : addr ∈ ips) :
    ReachesWithin glob G D (dayOf now - 5) (dayOf now) p addr := by
  obtain ⟨r, hr, hdaddr, hglob, hrecent⟩ := (mem_getIPsMatchingGlob hips addr).mp haddr
  exact ⟨gg, hg, r, hr, hdaddr, hglob, hrecent⟩

end Within

/-! ## Between the tables before and after -/

/-- Where a pass started from `s₀` may be: the rows it is done with have at least
the rules of the tables it started from, and it has no rules but those of
the tables as they are. -/
structure Between (glob : Text → Text → Bool) (s₀ s : Pass) : Prop where
  clock : s₀.now ≤ s.now
  globs : ∀ name, ∀ g ∈ s₀.globs.lookup name, g ∈ s.globs.lookup name
  dns : ∀ r ∈ s₀.dns.rows, dayOf r.tstamp ≤ dayOf s₀.now → ∃ r' ∈ s.dns.rows, r'.key = r.key
    ∧ dayOf r.tstamp ≤ dayOf r'.tstamp ∧ dayOf r'.tstamp ≤ dayOf s.now
  group : ∀ gg ∈ s.group, ∀ p ∈ s.todo.head?, gg ∈ s.globs.lookup p.globGroup
  todo : ∀ p ∈ s.todo, p ∈ s₀.todo
  least : ∀ p ∈ s₀.todo, p ∈ s.todo ∨ ∀ addr,
    ReachesWithin glob s₀.globs s₀.dns (dayOf s.now - 5) (dayOf s₀.now) p addr →
      ruleFor p addr ∈ s.collected
  most : ∀ r ∈ s.collected, ∃ p ∈ s₀.todo, ∃ addr,
    ReachesWithin glob s.globs s.dns (dayOf s₀.now - 5) (dayOf s.now) p addr
      ∧ r = ruleFor p addr

theorem Between.start (s₀ : Pass) (hgroup : s₀.group = none) (hcollected : s₀.collected = []) :
    Between glob s₀ s₀ where
  clock := le_refl _
  globs := fun _ _ hg => hg
  dns := fun r hr hday => ⟨r, hr, rfl, le_refl _, hday⟩
  group := fun gg hgg => by rw [hgroup] at hgg; cases hgg
  todo := fun _ hp => hp
  least := fun _ hp => Or.inl hp
  most := fun r hr => by rw [hcollected] at hr; cases hr

/-- Time alone changes nothing. -/
theorem Between.wait (h : Between glob s₀ s) {now : Int} (hnow : s.now ≤ now) :
    Between glob s₀ { s with now := now } := by
  have hday : dayOf s.now ≤ dayOf now := dayOf_mono hnow
  refine { h with clock := h.clock.trans hnow, dns := ?_, least := ?_, most := ?_ }
  · intro r hr hr₀
    obtain ⟨r', hr', hkey, hfrom, hto⟩ := h.dns r hr hr₀
    exact ⟨r', hr', hkey, hfrom, hto.trans hday⟩
  · intro p hp
    refine (h.least p hp).imp_right fun hall addr haddr => hall addr ?_
    exact haddr.mono (Int.sub_le_sub_right hday 5) (le_refl _)
  · intro r hr
    obtain ⟨p, hp, addr, hreach, hrule⟩ := h.most r hr
    exact ⟨p, hp, addr, hreach.mono (le_refl _) hday, hrule⟩

theorem Between.addDns (h : Between glob s₀ s) (domain : Text) (ipaddr : RecordIP) :
    Between glob s₀ { s with dns := addDns s.dns domain ipaddr s.now } := by
  have hday : dayOf s₀.now ≤ dayOf s.now := dayOf_mono h.clock
  refine { h with dns := ?_, most := ?_ }
  · intro r hr hr₀
    obtain ⟨r', hr', hkey, hfrom, hto⟩ := h.dns r hr hr₀
    obtain ⟨r'', hr'', hkey', hstamp⟩ := exists_addDns hr' domain ipaddr s.now
    refine ⟨r'', hr'', hkey'.trans hkey, ?_⟩
    rcases hstamp with rfl | hstamp
    · exact ⟨hfrom, hto⟩
    · rw [hstamp, dayOf_datetime]
      exact ⟨hr₀.trans hday, le_refl _⟩
  · intro r hr
    obtain ⟨p, hp, addr, hreach, hrule⟩ := h.most r hr
    exact ⟨p, hp, addr, hreach.addDns (by omega) (le_refl _) domain ipaddr, hrule⟩

theorem Between.addGlob (h : Between glob s₀ s) (g : GlobGroup) :
    Between glob s₀ { s with globs := addGlob s.globs g } := by
  refine { h with globs := ?_, group := ?_, most := ?_ }
  · intro name g' hg'
    exact lookup_addGlob (h.globs name g' hg') g
  · intro gg hgg p hp
    exact lookup_addGlob (h.group gg hgg p hp) g
  · intro r hr
    obtain ⟨p, hp, addr, hreach, hrule⟩ := h.most r hr
    exact ⟨p, hp, addr, hreach.addGlob g, hrule⟩

/-- The rows of a policy that was reached before are among those it finds. -/
theorem Between.mem_ips (h : Between glob s₀ s) {p : Policy} {gg : GlobGroup} {ips : List Text}
    (hgg : gg ∈ s.globs.lookup p.globGroup)
    (hips : getIPsMatchingGlob glob ord false s.dns gg s.now = some ips) {addr : Text}
    (hreach : ReachesWithin glob s₀.globs s₀.dns (dayOf s.now - 5) (dayOf s₀.now) p addr) :
    addr ∈ ips := by
  obtain ⟨g, hg, r, hr, haddr, hglob, hfirst, hlast⟩ := hreach
  obtain rfl : g = gg := Option.some.inj ((h.globs _ g hg).symm.trans hgg)
  obtain ⟨r', hr', hkey, hfrom, hto⟩ := h.dns r hr hlast
  have hdaddr : r'.daddr = r.daddr := congrArg Prod.fst hkey
  have hdomain : r'.domain = r.domain := congrArg (fun k => k.2.2) hkey
  exact (mem_getIPsMatchingGlob hips addr).mpr
    ⟨r', hr', hdaddr.trans haddr, hdomain ▸ hglob, hfirst.trans hfrom, hto⟩

theorem Between.read (h : Between glob s₀ s) (hread : s.read glob ord = some s') :
    Between glob s₀ s' := by
  obtain ⟨G, D, todo, group, rules, now⟩ := s
  unfold Pass.read at hread
  split at hread
  · obtain rfl := Option.some.inj hread
    exact h
  · -- `GetGlob` for the next row
    rename_i p ps htodo hgroup
    simp only at htodo hgroup hread
    subst htodo hgroup
    obtain ⟨gg, hgg, rfl⟩ := Option.map_eq_some_iff.mp hread
    refine { h with group := fun gg' hgg' p' hp' => ?_ }
    obtain rfl := Option.some.inj hgg'
    obtain rfl := Option.some.inj hp'
    exact hgg
  · -- `GetIPsMatchingGlob` for its group
    rename_i p ps gg htodo hgroup
    simp only at htodo hgroup hread
    subst htodo hgroup
    obtain ⟨ips, hips, rfl⟩ := Option.map_eq_some_iff.mp hread
    have hgg : gg ∈ G.lookup p.globGroup := h.group gg rfl p rfl
    refine { h with
      group := fun gg' hgg' => nomatch hgg'
      todo := fun p' hp' => h.todo p' (List.mem_cons_of_mem _ hp')
      least := fun p' hp' => ?_
      most := fun r hr => ?_ }
    · rcases h.least p' hp' with hmem | hall
      · rcases List.mem_cons.mp hmem with rfl | hmem
        · exact Or.inr fun addr haddr => List.mem_append_right _
            (List.mem_map_of_mem (h.mem_ips hgg hips haddr))
        · exact Or.inl hmem
      · exact Or.inr fun addr haddr => List.mem_append_left _ (hall addr haddr)
    · rcases List.mem_append.mp hr with hold | hnew
      · exact h.most r hold
      · obtain ⟨addr, haddr, rfl⟩ := List.mem_map.mp hnew
        have hday := Int.sub_le_sub_right (dayOf_mono h.clock) 5
        exact ⟨p, h.todo p (List.mem_cons_self ..), addr,
          (reachesWithin_of_answer hgg hips haddr).mono hday (le_refl _), rfl⟩

theorem Between.step (h : Between glob s₀ s) (hnow : s.Later c)
    (hstep : s.step glob ord c = some s') : Between glob s₀ s' := by
  have hwait := h.wait hnow
  obtain ⟨now, call⟩ := c
  cases call with
  | read => exact hwait.read hstep
  | addDns domain ipaddr =>
      obtain rfl := Option.some.inj hstep
      exact hwait.addDns domain ipaddr
  | addGlob g =>
      obtain rfl := Option.some.inj hstep
      exact hwait.addGlob g

theorem step_now (h : s.step glob ord c = some s') : s'.now = c.now := by
  obtain ⟨now, call⟩ := c
  cases call with
  | read =>
      have hread : Pass.read glob ord { s with now := now } = some s' := h
      unfold Pass.read at hread
      split at hread
      · obtain rfl := Option.some.inj hread
        rfl
      · obtain ⟨gg, -, rfl⟩ := Option.map_eq_some_iff.mp hread
        rfl
      · obtain ⟨ips, -, rfl⟩ := Option.map_eq_some_iff.mp hread
        rfl
  | addDns domain ipaddr => exact Option.some.inj h ▸ rfl
  | addGlob g => exact Option.some.inj h ▸ rfl

theorem always_later : ∀ {cs : List TimedCall} {s₀ : Pass},
    (s₀.now :: cs.map (·.now)).Pairwise (· ≤ ·) →
      Always (Pass.step glob ord) s₀ cs Pass.Later
  | [], _, _ => always_nil
  | c :: cs, s₀, h => by
      obtain ⟨hnow, hrest⟩ := List.pairwise_cons.mp h
      refine always_cons (hnow _ (List.mem_cons_self ..)) fun s hs => always_later ?_
      rw [step_now hs]
      exact hrest

end Between

theorem reaches_iff_within {glob : Text → Text → Bool} {ord : RowOrder} {G : GlobTable}
    {D : DnsTable} {now : Int} {p : Policy} {addr : Text} : Reaches glob ord G D now p addr
      ↔ ReachesWithin glob G D (dayOf now - 5) (dayOf now) p addr :=
  reaches_iff

section Ended

variable {glob : Text → Text → Bool} {ord : RowOrder} {T : PolicyTable} {G : GlobTable}
  {D : DnsTable} {start : Int} {cs : List TimedCall} {s : Pass}

theorem between_of_run (hclock : (start :: cs.map (·.now)).Pairwise (· ≤ ·))
    (hrun : Run.run (Pass.step glob ord) (Pass.start ord T G D start) cs = some s) :
    Between glob (Pass.start ord T G D start) s :=
  (always_later hclock).invariant (fun _ _ _ hs hnow hstep => hs.step hnow hstep) hrun
    (Between.start _ rfl rfl)

theorem mem_start_todo {p : Policy} : p ∈ (Pass.start ord T G D start).todo ↔ p ∈ T.rows :=
  (ord.policies_perm T.rows).mem_iff

theorem Between.mem_collected (h : Between glob (Pass.start ord T G D start) s)
    (hend : s.todo = []) {p : Policy} (hp : p ∈ T.rows) {addr : Text}
    (hreach : ReachesWithin glob G D (dayOf s.now - 5) (dayOf start) p addr) :
    ruleFor p addr ∈ s.collected := by
  rcases h.least p (mem_start_todo.mpr hp) with hmem | hall
  · rw [hend] at hmem
    cases hmem
  · exact hall addr hreach

theorem Between.exists_policy (h : Between glob (Pass.start ord T G D start) s) {r : IpPolicy}
    (hr : r ∈ s.collected) : ∃ p ∈ T.rows, ∃ addr,
      ReachesWithin glob s.globs s.dns (dayOf start - 5) (dayOf s.now) p addr
        ∧ r = ruleFor p addr := by
  obtain ⟨p, hp, hreach⟩ := h.most r hr
  exact ⟨p, mem_start_todo.mp hp, hreach⟩

end Ended

/-- Whatever is written between the calls of a pass, it collects every rule of
the tables it started from, as far as the window has not left it behind, and
no rule that the tables do not have when it ends. On one day, these are the
rules of a pass before all of the writes and of one after all of them. -/
theorem pass_between (glob : Text → Text → Bool) (ord : RowOrder) (T : PolicyTable)
    (G : GlobTable) (D : DnsTable) (start : Int) (cs : List TimedCall)
    (hclock : (start :: cs.map (·.now)).Pairwise (· ≤ ·)) (s : Pass)
    (hrun : Run.run (Pass.step glob ord) (Pass.start ord T G D start) cs = some s)
    (hend : s.todo = []) :
    (∀ p ∈ T.rows, ∀ addr, ReachesWithin glob G D (dayOf s.now - 5) (dayOf start) p addr →
        ruleFor p addr ∈ s.collected)
      ∧ (∀ r ∈ s.collected, ∃ p ∈ T.rows, ∃ addr,
          ReachesWithin glob s.globs s.dns (dayOf start - 5) (dayOf s.now) p addr
            ∧ r = ruleFor p addr)
      ∧ (dayOf s.now = dayOf start →
          (∀ before, applyPolicies glob ord ReadFaults.none T G D start = some before →
            before ⊆ s.collected)
          ∧ ∀ after, applyPolicies glob ord ReadFaults.none T s.globs s.dns s.now = some after →
            s.collected ⊆ after) := by
  have h := between_of_run hclock hrun
  refine ⟨fun p hp addr => h.mem_collected hend hp, fun r => h.exists_policy, fun hday =>
    ⟨fun before hbefore r hr => ?_, fun after hafter r hr => ?_⟩⟩
  · obtain ⟨p, hp, addr, hreach, rfl⟩ := (mem_applyPolicies hbefore).mp hr
    rw [reaches_iff_within, ← hday] at hreach
    exact h.mem_collected hend hp (hreach.mono (le_refl _) hday.le)
  · obtain ⟨p, hp, addr, hreach, rfl⟩ := h.exists_policy hr
    rw [← hday] at hreach
    exact (mem_applyPolicies hafter).mpr ⟨p, hp, addr, reaches_iff_within.mpr hreach, rfl⟩

def redditPass : Pass := Pass.start RowOrder.stored redditTable redditGlobs redditDns minute

/-- Another address of the server is answered after the pass has asked for its
group and before it asks for the addresses. -/
def redditSchedule : List TimedCall :=
  [⟨minute, .read⟩, ⟨minute + second, .addDns "www.reddit.com.".toList (some ⟨151, 101, 65, 140⟩)⟩,
    ⟨minute + 2 * second, .read⟩]

theorem pass_between_reddit :
    ∃ s, Run.run (Pass.step redditGlob RowOrder.stored) redditPass redditSchedule = some s
      ∧ (∀ before, applyPolicies redditGlob RowOrder.stored ReadFaults.none redditTable redditGlobs
            redditDns minute = some before → before ⊆ s.collected)
      ∧ (∀ after, applyPolicies redditGlob RowOrder.stored ReadFaults.none redditTable s.globs
            s.dns s.now = some after → s.collected ⊆ after) := by
  have hend : (Run.run (Pass.step redditGlob RowOrder.stored) redditPass redditSchedule).map
        (fun s => (s.todo, s.now)) = some ([], minute + 2 * second) := by decide
  obtain ⟨s, hrun, hs⟩ := Option.map_eq_some_iff.mp hend
  obtain ⟨htodo, hnow⟩ := Prod.mk.inj hs
  have hday : dayOf s.now = dayOf minute := by
    rw [hnow]
    decide
  exact ⟨s, hrun, (pass_between redditGlob RowOrder.stored redditTable redditGlobs redditDns minute
    redditSchedule (by decide) s hrun htodo).2.2 hday⟩

/-! ## No schedule stops the pass -/

def Call.isRead : Call → Bool
  | .read => true
  | .addDns _ _ => false
  | .addGlob _ => false

/-- The calls the pass has still to make. -/
def Pass.left (s : Pass) : Nat := 2 * s.todo.length - s.group.toList.length

/-- Every row to come has a group. -/
def Pass.Fit (s : Pass) : Prop := ∀ p ∈ s.todo, (s.globs.lookup p.globGroup).isSome

section Fit

variable {s : Pass}

theorem left_eq_zero : s.left = 0 ↔ s.todo = [] := by
  have hlen : s.group.toList.length ≤ 1 := by
    cases s.group <;> simp
  unfold Pass.left
  constructor
  · intro hleft
    rw [← List.length_eq_zero_iff]
    omega
  · intro htodo
    simp [htodo]

theorem Pass.Fit.read (h : s.Fit) (glob : Text → Text → Bool) (ord : RowOrder) :
    ∃ s', s.read glob ord = some s' ∧ s'.Fit ∧ s'.left = s.left - 1 := by
  obtain ⟨G, D, todo, group, rules, now⟩ := s
  cases todo with
  | nil => exact ⟨_, rfl, h, by simp [Pass.left]⟩
  | cons p ps =>
      cases group with
      | none =>
          obtain ⟨gg, hgg⟩ := Option.isSome_iff_exists.mp (h p (List.mem_cons_self ..))
          have hget : getGlob false G p.globGroup = some gg := hgg
          refine ⟨⟨G, D, p :: ps, some gg, rules, now⟩, by simp only [Pass.read, hget]; rfl,
            h, ?_⟩
          simp [Pass.left]
      | some gg =>
          refine ⟨_, rfl, fun p' hp' => h p' (List.mem_cons_of_mem _ hp'), ?_⟩
          simp only [Pass.left, List.length_cons, Option.toList_some, Option.toList_none,
            List.length_nil]
          omega

theorem Pass.Fit.step (h : s.Fit) (glob : Text → Text → Bool) (ord : RowOrder) (c : TimedCall) :
    ∃ s', s.step glob ord c = some s' ∧ s'.Fit
      ∧ s'.left = s.left - if c.call.isRead then 1 else 0 := by
  obtain ⟨now, call⟩ := c
  cases call with
  | read => exact Pass.Fit.read (s := { s with now := now }) h glob ord
  | addDns domain ipaddr => exact ⟨_, rfl, h, rfl⟩
  | addGlob g => exact ⟨_, rfl, fun p hp => lookup_addGlob_isSome (h p hp) g, rfl⟩

theorem Pass.Fit.run (glob : Text → Text → Bool) (ord : RowOrder) :
    ∀ (cs : List TimedCall) {s : Pass}, s.Fit → ∃ s', Run.run (Pass.step glob ord) s cs = some s'
      ∧ s'.Fit ∧ s'.left = s.left - cs.countP (·.call.isRead)
  | [], s, h => ⟨s, rfl, h, rfl⟩
  | c :: cs, s, h => by
      obtain ⟨s₁, h₁, hfit, hleft⟩ := h.step glob ord c
      obtain ⟨s', hrun, hfit', hleft'⟩ := Pass.Fit.run glob ord cs hfit
      refine ⟨s', by rw [Run.run, h₁, Option.bind_some, hrun], hfit', ?_⟩
      rw [hleft', hleft, List.countP_cons]
      omega

end Fit

/-- If the policies have their groups when the pass starts, it gets through all
of its calls, and is at its end after two for each row, whatever is written
between them. -/
theorem pass_completes (glob : Text → Text → Bool) (ord : RowOrder) (T : PolicyTable)
    (G : GlobTable) (D : DnsTable) (start : Int)
    (hgroups : ∀ p ∈ T.rows, (G.lookup p.globGroup).isSome) (cs : List TimedCall) :
    ∃ s, Run.run (Pass.step glob ord) (Pass.start ord T G D start) cs = some s
      ∧ (s.todo = [] ↔ 2 * T.rows.length ≤ cs.countP (·.call.isRead)) := by
  have hfit : (Pass.start ord T G D start).Fit := fun p hp =>
    hgroups p ((ord.policies_perm T.rows).mem_iff.mp hp)
  obtain ⟨s, hrun, -, hleft⟩ := hfit.run glob ord cs
  refine ⟨s, hrun, ?_⟩
  have hstart : (Pass.start ord T G D start).left = 2 * T.rows.length := by
    simp [Pass.left, Pass.start, (ord.policies_perm T.rows).length_eq]
  rw [← left_eq_zero, hleft, hstart]
  omega

theorem pass_completes_reddit :
    ∃ s, Run.run (Pass.step redditGlob RowOrder.stored) redditPass redditSchedule = some s
      ∧ (s.todo = [] ↔ 2 * redditTable.rows.length ≤ redditSchedule.countP (·.call.isRead)) :=
  pass_completes redditGlob RowOrder.stored redditTable redditGlobs redditDns minute
    (by decide) redditSchedule

/-! ## The frames of a torn program -/

/-- The program of a pass throttles every frame that the tables before it asked
for, and none that the tables after it do not ask for; a frame it throttles
gets the class of a policy that asks for it. The clients, and the addresses
the tables after it ask for, are IPv4 addresses as Go prints them. -/
theorem pass_frames (glob : Text → Text → Bool) (ord : RowOrder) (T : PolicyTable)
    (G : GlobTable) (D : DnsTable) (start : Int) (cs : List TimedCall)
    (hclock : (start :: cs.map (·.now)).Pairwise (· ≤ ·)) (s : Pass)
    (hrun : Run.run (Pass.step glob ord) (Pass.start ord T G D start) cs = some s)
    (hend : s.todo = []) (hT : ∀ p ∈ T.rows, ∃ client : IPv4, p.srcIp = client.text)
    (hD : ∀ p ∈ T.rows, ∀ addr,
      ReachesWithin glob s.globs s.dns (dayOf start - 5) (dayOf s.now) p addr →
        ∃ server : IPv4, addr = server.text)
    (P : Program) (hP : compile s.collected = some P) (st : ThrottleStats) (skb : Skb)
    (hip : skb.IsIPv4) :
    ((∃ p ∈ T.rows, p.srcIp = skb.dst.text
        ∧ ReachesWithin glob G D (dayOf s.now - 5) (dayOf start) p skb.src.text) →
      ∃ p ∈ T.rows, p.srcIp = skb.dst.text
        ∧ ReachesWithin glob s.globs s.dns (dayOf start - 5) (dayOf s.now) p skb.src.text
        ∧ (throttle P st skb).2.1.tcClassid = classWord (ruleFor p skb.src.text))
      ∧ ((¬∃ p ∈ T.rows, p.srcIp = skb.dst.text
          ∧ ReachesWithin glob s.globs s.dns (dayOf start - 5) (dayOf s.now) p skb.src.text) →
        (throttle P st skb).2.1.tcClassid = skb.tcClassid) := by
  have h := between_of_run hclock hrun
  have hdot : ∀ r ∈ s.collected, r.IsDotted := by
    intro r hr
    obtain ⟨p, hp, addr, hreach, rfl⟩ := h.exists_policy hr
    obtain ⟨client, hclient⟩ := hT p hp
    obtain ⟨server, hserver⟩ := hD p hp addr hreach
    refine ⟨client, server, ?_, ?_⟩
    · show replaceAll '.' ',' p.srcIp = _
      rw [hclient]
    · show replaceAll '.' ',' addr = _
      rw [hserver]
  -- a rule that fits the frame comes from a policy that asks for it
  have hfits : ∀ r ∈ s.collected, RuleFits skb r → ∃ p ∈ T.rows, p.srcIp = skb.dst.text
      ∧ ReachesWithin glob s.globs s.dns (dayOf start - 5) (dayOf s.now) p skb.src.text
      ∧ r = ruleFor p skb.src.text := by
    rintro r hr ⟨hsrc, hdest⟩
    obtain ⟨p, hp, addr, hreach, rfl⟩ := h.exists_policy hr
    obtain ⟨client, hclient⟩ := hT p hp
    obtain ⟨server, hserver⟩ := hD p hp addr hreach
    have hsrc' : replaceAll '.' ',' p.srcIp = replaceAll '.' ',' skb.dst.text := hsrc
    have hdest' : replaceAll '.' ',' addr = replaceAll '.' ',' skb.src.text := hdest
    rw [hclient] at hsrc'
    rw [hserver] at hdest'
    have haddr : addr = skb.src.text := by
      rw [hserver, replaceAll_text_injective hdest']
    rw [haddr] at hreach
    exact ⟨p, hp, by rw [hclient, replaceAll_text_injective hsrc'], hreach, by rw [haddr]⟩
  have hclass : (throttle P st skb).2.1.tcClassid
      = ((lastRule s.collected skb).map classWord).getD skb.tcClassid := by
    rw [throttle_tcClassid hip, getLast?_holds hdot hP]
  constructor
  · rintro ⟨p, hp, hsrc, hreach⟩
    have hmem : ruleFor p skb.src.text ∈ s.collected := h.mem_collected hend hp hreach
    have hfit : RuleFits skb (ruleFor p skb.src.text) :=
      ⟨congrArg (replaceAll '.' ',') hsrc, rfl⟩
    obtain ⟨r, hr⟩ : ∃ r, lastRule s.collected skb = some r := by
      rw [← Option.isSome_iff_exists, lastRule, List.getLast?_isSome, ne_eq,
        List.filter_eq_nil_iff]
      intro hnone
      exact hnone _ hmem (decide_eq_true hfit)
    obtain ⟨hr', hrfit⟩ := List.mem_filter.mp (List.mem_of_getLast? hr)
    obtain ⟨p', hp', hsrc', hreach', rfl⟩ := hfits r hr' (of_decide_eq_true hrfit)
    exact ⟨p', hp', hsrc', hreach', by rw [hclass, hr, Option.map_some, Option.getD_some]⟩
  · intro hno
    rw [hclass]
    cases hlast : lastRule s.collected skb with
    | none => rfl
    | some r =>
        obtain ⟨hr, hrfit⟩ := List.mem_filter.mp (List.mem_of_getLast? hlast)
        obtain ⟨p, hp, hsrc, hreach, -⟩ := hfits r hr (of_decide_eq_true hrfit)
        exact absurd ⟨p, hp, hsrc, hreach⟩ hno

theorem pass_frames_reddit :
    ∃ s P, Run.run (Pass.step redditGlob RowOrder.stored) redditPass redditSchedule = some s
      ∧ compile s.collected = some P
      ∧ ∃ p ∈ redditTable.rows, p.srcIp = (⟨192, 168, 0, 20⟩ : IPv4).text
        ∧ (throttle P ⟨0, 0⟩ (frameBetween redditServer ⟨192, 168, 0, 20⟩)).2.1.tcClassid
          = classWord (ruleFor p redditServer.text) := by
  have hend : (Run.run (Pass.step redditGlob RowOrder.stored) redditPass redditSchedule).map
        (fun s => (s.todo, s.now, s.dns.rows.map (·.daddr), (compile s.collected).isSome))
      = some ([], minute + 2 * second, [redditServer.text, (⟨151, 101, 65, 140⟩ : IPv4).text],
          true) := by decide
  obtain ⟨s, hrun, hs⟩ := Option.map_eq_some_iff.mp hend
  simp only [Prod.mk.injEq] at hs
  obtain ⟨htodo, hnow, haddrs, hcompiles⟩ := hs
  obtain ⟨P, hP⟩ := Option.isSome_iff_exists.mp hcompiles
  have hD : ∀ p ∈ redditTable.rows, ∀ addr, ReachesWithin redditGlob s.globs s.dns
      (dayOf minute - 5) (dayOf s.now) p addr → ∃ server : IPv4, addr = server.text := by
    rintro p - addr ⟨g, -, r, hr, rfl, -⟩
    have hmem : r.daddr ∈ s.dns.rows.map (·.daddr) := List.mem_map_of_mem hr
    rw [haddrs, List.mem_cons, List.mem_singleton] at hmem
    rcases hmem with h | h
    · exact ⟨_, h⟩
    · exact ⟨_, h⟩
  have hT : ∀ p ∈ redditTable.rows, p.srcIp = (⟨192, 168, 0, 20⟩ : IPv4).text := by decide
  have hwindow : dayOf s.now - 5 ≤ 0 := by
    rw [hnow]
    decide
  obtain ⟨hcovered, -⟩ := pass_frames redditGlob RowOrder.stored redditTable redditGlobs redditDns
    minute redditSchedule (by decide) s hrun htodo (fun p hp => ⟨_, hT p hp⟩) hD P hP ⟨0, 0⟩
    (frameBetween redditServer ⟨192, 168, 0, 20⟩)
    (isIPv4_frameBetween redditServer ⟨192, 168, 0, 20⟩)
  obtain ⟨p, hp, hsrc, -, hcls⟩ := hcovered
    ⟨⟨redditClient.src, redditClient.glob, 10, 0⟩, by decide, by decide, redditGroup, by decide,
      ⟨"0.0.0.0".toList, redditServer.text, "www.reddit.com.".toList, 0⟩, by decide, rfl,
      by decide, hwindow, by decide⟩
  exact ⟨s, P, hrun, hP, p, hp, hsrc, hcls⟩

end Nethadone
