import Nethadone.History
import Nethadone.Startup

/-!
# One life after another

The daemon as the host sees it: processes are started over the tables and
the objects that are there, handle events, replace the throttler request by
request, and die, of a refused request, of a nil pointer or because they
are killed. In the model of `Nethadone.Daemon` a process has an attached
program and nothing else is left of it. This is what the host holds
(`attached_refines`): while a process runs, the objects on both interfaces
are exactly those of its model since its start, with one throttle filter
that carries the attached program, and one monitor and two sniffers,
however many processes there were before it.
-/

namespace Nethadone

open Fatal

/-- `running` is the process; the rest outlives it. -/
structure Life (κ : Type) where
  policies : PolicyTable
  globs : GlobTable
  dns : DnsTable
  host : κ
  running : Bool

inductive LifeEvent where
  | start
  | kill
  | event (e : Event)

section Machine

variable {κ : Type} (H : Host κ) (glob : Text → Text → Bool) (ord : RowOrder) (cfg : Config)
  (ifs : Interfaces)

/-- `handlers.ApplyPolicies`; the process ends where it stops. -/
def Life.attach (s : Life κ) (ipPolicies : List IpPolicy) : Life κ :=
  let (r, host) := (H.applyPolicies ifs ipPolicies).exec s.host
  { s with host := host, running := r.isSome }

/-- One round of `pollPolicyCheck`, every database call succeeding. -/
def Life.pollPolicyCheck (t : Tick) (s : Life κ) : Life κ :=
  let (T, changed) := Nethadone.pollPolicyCheck cfg TickFaults.none t s.policies
  let s' := { s with policies := T }
  if changed then
    match applyPolicies glob ord ReadFaults.none T s.globs s.dns t.now with
    | some rules => s'.attach H ifs rules
    | none => { s' with running := false }
  else s'

/-- A running process handles events, and no second one is started. -/
def Life.step (s : Life κ) : LifeEvent → Option (Life κ)
  | .start =>
      if s.running then none
      else
        let (r, host) := (H.handlersInitialize cfg ifs).exec s.host
        some { s with host := host, running := r.isSome }
  | .kill => some { s with running := false }
  | .event e =>
      if s.running then
        match e with
        | .tick t => some (s.pollPolicyCheck H glob ord cfg ifs t)
        | .addDns domain ipaddr now => some { s with dns := addDns s.dns domain ipaddr now }
        | .addGlob g => some { s with globs := addGlob s.globs g }
      else none

end Machine

/-! ## The host under a running process -/

namespace Host

variable {κ : Type} {H : Host κ} {ifs : Interfaces} {cfg : Config} {t : Trees}
  {P Q : Program} {place : Place}

/-- The places that the process works on. -/
def Configures (H : Host κ) (ifs : Interfaces) (place : Place) : Prop :=
  place = (H.index ifs.lanInterface, .root)
    ∨ ∃ link, H.Serves ifs link ∧ place = (link, .clsact)

theorem built_eq_none (h : ¬H.Configures ifs place) : H.built ifs cfg P place = none := by
  obtain ⟨link, _ | _⟩ := place
  · refine if_neg ?_
    rintro rfl
    exact h (Or.inl rfl)
  · exact if_neg fun hlink => h (Or.inr ⟨link, hlink, rfl⟩)

theorem exists_built (h : H.Configures ifs place) :
    ∃ objs, H.built ifs cfg P place = some objs := by
  rcases h with rfl | ⟨link, hlink, rfl⟩
  · exact ⟨_, if_pos rfl⟩
  · exact ⟨_, if_pos hlink⟩

theorem over_of_not_configures (h : ¬H.Configures ifs place) {b : Built}
    (hb : b.Begins (H.built ifs cfg P)) : t.over b place = t place := by
  cases hplace : b place with
  | none => rw [Trees.over, hplace]
  | some objs =>
      obtain ⟨rest, hrest⟩ := hb place objs hplace
      rw [built_eq_none h] at hrest
      cases hrest

theorem built_root : H.built ifs cfg P (H.index ifs.lanInterface, .root)
    = some (lanTree cfg (H.index ifs.lanInterface) ++ [throttler P]) :=
  if_pos rfl

/-- The trees of a running process differ from those of another in the throttler. -/
theorem built_update : Function.update (H.built ifs cfg P) (H.index ifs.lanInterface, .root)
    (some (lanTree cfg (H.index ifs.lanInterface) ++ [throttler Q])) = H.built ifs cfg Q := by
  funext place
  by_cases hplace : place = (H.index ifs.lanInterface, .root)
  · rw [hplace, Function.update_self, built_root]
  · rw [Function.update_of_ne hplace]
    obtain ⟨link, _ | _⟩ := place
    · have hlink : link ≠ H.index ifs.lanInterface := fun h => hplace (by rw [h])
      rw [built, built, started, started, layout, layout, if_neg hlink, if_neg hlink]
    · rfl

theorem over_built_root : t.over (H.built ifs cfg P) (H.index ifs.lanInterface, .root)
    = (lanTree cfg (H.index ifs.lanInterface) : Multiset TcObject) + {throttler P} :=
  over_some built_root

theorem hasRoot_built : (t.over (H.built ifs cfg P)).HasRoot (H.index ifs.lanInterface) := by
  refine ⟨rootQdisc, ?_, rfl, rfl⟩
  rw [over_built_root]
  exact Multiset.mem_add.mpr (Or.inl (Multiset.mem_coe.mpr (List.mem_cons_self ..)))

theorem throttlers_built : throttlers (t.over (H.built ifs cfg P)) (H.index ifs.lanInterface)
    = {throttler P} := by
  rw [throttlers, over_built_root, Multiset.filter_add, filter_throttle_lanTree, zero_add,
    Multiset.filter_singleton, if_pos ⟨rfl, rfl⟩]

/-- `ApplyPolicies` in a running process. -/
theorem triple_applyPolicies_built (hH : H.Lawful) (hdel : H.DeletesFilters)
    (rules : List IpPolicy) :
    Triple (fun k => H.trees k = t.over (H.built ifs cfg P)) (H.applyPolicies ifs rules)
      (fun _ k => ∃ Q, compile rules = some Q ∧ H.trees k = t.over (H.built ifs cfg Q))
      (fun k => ∀ place, ¬H.Configures ifs place → H.trees k place = t place) := by
  have hstop : H.StopsAt ifs (t.over (H.built ifs cfg P)) rules
      fun k => ∀ place, ¬H.Configures ifs place → H.trees k place = t place := by
    intro k gone _ hk _ place hplace
    have hroot : place ≠ (H.index ifs.lanInterface, .root) := fun h => hplace (Or.inl h)
    rw [hk, Trees.without, Function.update_of_ne hroot, Trees.over, built_eq_none hplace]
  refine (triple_applyPolicies hH hstop).weaken (fun _ h => h) (fun _ k hk => ?_) fun _ h => h
  obtain ⟨Q, hQ, gone, -, hall, hk⟩ := hk
  refine ⟨Q, hQ, ?_⟩
  rw [hk, hall hdel, throttlers_built, over_built_root, add_tsub_cancel_right,
    ← built_update (P := P) (Q := Q), over_update]
  exact congrArg _ (Multiset.coe_eq_coe.mpr (List.perm_append_singleton _ _).symm)

end Host

/-! ## Simulation -/

section Simulation

variable {κ : Type} {H : Host κ} {glob : Text → Text → Bool} {ord : RowOrder} {cfg : Config}
  {ifs : Interfaces} {t : Trees} {s s' : Life κ} {P : Program}

/-- Outside the places of the process the host is as in `t`. -/
def Life.Framed (H : Host κ) (ifs : Interfaces) (t : Trees) (s : Life κ) : Prop :=
  ∀ place, ¬H.Configures ifs place → H.trees s.host place = t place

theorem framed_of_built (h : H.trees s.host = t.over (H.built ifs cfg P)) : s.Framed H ifs t :=
  fun place hplace => by rw [h, Trees.over, Host.built_eq_none hplace]

theorem attach_simulates (hH : H.Lawful) (hdel : H.DeletesFilters)
    (htrees : H.trees s.host = t.over (H.built ifs cfg P)) (rules : List IpPolicy) :
    (s.attach H ifs rules).Framed H ifs t
      ∧ ((s.attach H ifs rules).running = true → ∃ Q, compile rules = some Q
        ∧ H.trees (s.attach H ifs rules).host = t.over (H.built ifs cfg Q)) := by
  have hspec : Triple (fun k => H.trees k = t.over (H.built ifs cfg P)) _ _ _ :=
    Host.triple_applyPolicies_built hH hdel rules
  rcases hexec : (H.applyPolicies ifs rules).exec s.host with ⟨_ | _, k⟩
  · have hattach : s.attach H ifs rules = { s with host := k, running := false } := by
      rw [Life.attach, hexec]
      rfl
    rw [hattach]
    exact ⟨hspec.stops htrees hexec, fun h => by cases h⟩
  · have hattach : s.attach H ifs rules = { s with host := k, running := true } := by
      rw [Life.attach, hexec]
      rfl
    obtain ⟨Q, hQ, hk⟩ := hspec.ends htrees hexec
    rw [hattach]
    exact ⟨framed_of_built hk, fun _ => ⟨Q, hQ, hk⟩⟩

theorem pollPolicyCheck_simulates (hH : H.Lawful) (hdel : H.DeletesFilters)
    (htrees : H.trees s.host = t.over (H.built ifs cfg P)) (tk : Tick)
    (hs' : s.pollPolicyCheck H glob ord cfg ifs tk = s') :
    s'.Framed H ifs t ∧ (s'.running = true → ∃ Q,
      (⟨s.policies, s.globs, s.dns, P⟩ : Daemon).step glob ord cfg (.tick tk)
          = some ⟨s'.policies, s'.globs, s'.dns, Q⟩
        ∧ H.trees s'.host = t.over (H.built ifs cfg Q)) := by
  subst hs'
  rw [Daemon.step, Daemon.pollPolicyCheck, Life.pollPolicyCheck]
  rcases Nethadone.pollPolicyCheck cfg TickFaults.none tk s.policies with ⟨T, _ | _⟩
  · exact ⟨framed_of_built htrees, fun _ => ⟨P, rfl, htrees⟩⟩
  · dsimp only
    rw [if_pos rfl, if_pos rfl]
    cases applyPolicies glob ord ReadFaults.none T s.globs s.dns tk.now with
    | none => exact ⟨framed_of_built htrees, fun h => by cases h⟩
    | some rules =>
        obtain ⟨hframed, hends⟩ := attach_simulates (s := { s with policies := T }) hH hdel htrees
          rules
        refine ⟨hframed, fun hrunning => ?_⟩
        obtain ⟨Q, hQ, hk⟩ := hends hrunning
        refine ⟨Q, ?_, hk⟩
        rw [Option.bind_some, Daemon.attach, hQ]
        rfl

theorem event_simulates (hH : H.Lawful) (hdel : H.DeletesFilters) (hrunning : s.running = true)
    (htrees : H.trees s.host = t.over (H.built ifs cfg P)) {e : Event}
    (hs' : s.step H glob ord cfg ifs (.event e) = some s') :
    s'.Framed H ifs t ∧ (s'.running = true → ∃ Q,
      (⟨s.policies, s.globs, s.dns, P⟩ : Daemon).step glob ord cfg e
          = some ⟨s'.policies, s'.globs, s'.dns, Q⟩
        ∧ H.trees s'.host = t.over (H.built ifs cfg Q)) := by
  simp only [Life.step, if_pos hrunning] at hs'
  cases e with
  | tick tk => exact pollPolicyCheck_simulates hH hdel htrees tk (Option.some.inj hs')
  | addDns domain ipaddr now =>
      obtain rfl := Option.some.inj hs'
      exact ⟨framed_of_built htrees, fun _ => ⟨P, rfl, htrees⟩⟩
  | addGlob g =>
      obtain rfl := Option.some.inj hs'
      exact ⟨framed_of_built htrees, fun _ => ⟨P, rfl, htrees⟩⟩

theorem over_of_framed (h : s.Framed H ifs t) :
    (H.trees s.host).over (H.built ifs cfg P) = t.over (H.built ifs cfg P) := by
  funext place
  by_cases hplace : H.Configures ifs place
  · obtain ⟨objs, hobjs⟩ : ∃ objs, H.built ifs cfg P place = some objs := Host.exists_built hplace
    rw [over_some hobjs, over_some hobjs]
  · rw [Trees.over, Trees.over, Host.built_eq_none hplace]
    exact h place hplace

theorem start_simulates (hH : H.Lawful) (hframed : s.Framed H ifs t)
    (hs' : s.step H glob ord cfg ifs .start = some s') :
    s'.Framed H ifs t ∧ (s'.running = true →
      (s'.policies = s.policies ∧ s'.globs = s.globs ∧ s'.dns = s.dns)
        ∧ H.trees s'.host = t.over (H.built ifs cfg initialProgram)) := by
  have hspec := Host.triple_handlersInitialize hH cfg ifs (H.trees s.host)
  rw [Life.step] at hs'
  split at hs'
  · cases hs'
  · rcases hexec : (H.handlersInitialize cfg ifs).exec s.host with ⟨_ | _, k⟩
    · rw [hexec] at hs'
      obtain rfl := Option.some.inj hs'
      obtain ⟨⟨b, hb, hk⟩, -⟩ := hspec.stops rfl hexec
      refine ⟨fun place hplace => ?_, fun h => by cases h⟩
      rw [hk, Host.over_of_not_configures hplace hb]
      exact hframed place hplace
    · rw [hexec] at hs'
      obtain rfl := Option.some.inj hs'
      have hk : H.trees k = t.over (H.built ifs cfg initialProgram) := by
        rw [hspec.ends rfl hexec, over_of_framed hframed]
      exact ⟨framed_of_built hk, fun _ => ⟨⟨rfl, rfl, rfl⟩, hk⟩⟩

end Simulation

/-- A running process is what the model of the daemon has become of its start: from
the tables found then, over the events since, with the attached program on
the host. -/
def Modelled {κ : Type} (H : Host κ) (glob : Text → Text → Bool) (ord : RowOrder) (cfg : Config)
    (ifs : Interfaces) (s₀ : Life κ) (past : List LifeEvent) (s : Life κ) : Prop :=
  ∃ before after s₁ P, past = before ++ .start :: after.map .event
    ∧ Run.run (Life.step H glob ord cfg ifs) s₀ before = some s₁
    ∧ ((connectInitialize s₁.policies s₁.globs s₁.dns).bind fun d =>
        Run.run (Daemon.step glob ord cfg) d after) = some ⟨s.policies, s.globs, s.dns, P⟩
    ∧ H.trees s.host = (H.trees s₀.host).over (H.built ifs cfg P)

section Lives

variable {κ : Type} {H : Host κ} {glob : Text → Text → Bool} {ord : RowOrder} {cfg : Config}
  {ifs : Interfaces} {s₀ s s' : Life κ} {past : List LifeEvent}

/-- What holds after any number of lives. -/
def Lived (H : Host κ) (glob : Text → Text → Bool) (ord : RowOrder) (cfg : Config)
    (ifs : Interfaces) (s₀ : Life κ) (past : List LifeEvent) (s : Life κ) : Prop :=
  (s.running = true → Modelled H glob ord cfg ifs s₀ past s) ∧ s.Framed H ifs (H.trees s₀.host)

theorem Modelled.event (h : Modelled H glob ord cfg ifs s₀ past s) (hH : H.Lawful)
    (hdel : H.DeletesFilters) (hrunning : s.running = true) {e : Event}
    (hs' : s.step H glob ord cfg ifs (.event e) = some s') :
    Lived H glob ord cfg ifs s₀ (past ++ [.event e]) s' := by
  obtain ⟨before, after, s₁, P, hsplit, hbefore, hd, htrees⟩ := h
  obtain ⟨hframed', hnext⟩ := event_simulates hH hdel hrunning htrees hs'
  refine ⟨fun hrunning' => ?_, hframed'⟩
  obtain ⟨Q, hQ, htrees'⟩ := hnext hrunning'
  refine ⟨before, after ++ [e], s₁, Q, ?_, hbefore, ?_, htrees'⟩
  · rw [hsplit, List.map_append, List.append_assoc]
    rfl
  · obtain ⟨d₀, hd₀, hafter⟩ := Option.bind_eq_some_iff.mp hd
    rw [hd₀, Option.bind_some, History.run_concat hafter]
    exact hQ

theorem Lived.step (h : Lived H glob ord cfg ifs s₀ past s) (hH : H.Lawful)
    (hdel : H.DeletesFilters) (hpast : Run.run (Life.step H glob ord cfg ifs) s₀ past = some s)
    {i : LifeEvent} (hs' : s.step H glob ord cfg ifs i = some s') :
    Lived H glob ord cfg ifs s₀ (past ++ [i]) s' := by
  obtain ⟨hmodel, hframed⟩ := h
  cases i with
  | start =>
      obtain ⟨hframed', hstarted⟩ := start_simulates hH hframed hs'
      refine ⟨fun hrunning => ?_, hframed'⟩
      obtain ⟨⟨hpolicies, hglobs, hdns⟩, htrees⟩ := hstarted hrunning
      refine ⟨past, [], s, initialProgram, rfl, hpast, ?_, htrees⟩
      rw [connectInitialize_eq, hpolicies, hglobs, hdns]
      rfl
  | kill =>
      obtain rfl := Option.some.inj hs'
      exact ⟨fun h => absurd h Bool.false_ne_true, hframed⟩
  | event e =>
      by_cases hrunning : s.running = true
      · exact (hmodel hrunning).event hH hdel hrunning hs'
      · simp only [Life.step, if_neg hrunning] at hs'
        cases hs'

theorem lived_of_run (hH : H.Lawful) (hdel : H.DeletesFilters) (hdead : s₀.running = false)
    {es : List LifeEvent} (hrun : Run.run (Life.step H glob ord cfg ifs) s₀ es = some s) :
    Lived H glob ord cfg ifs s₀ es s := by
  refine History.traced (I := Lived H glob ord cfg ifs s₀) ⟨fun h => ?_, fun _ _ => rfl⟩
    (fun _ _ _ _ hpast h hs' => h.step hH hdel hpast hs') hrun
  rw [hdead] at h
  cases h

end Lives

/-- Whatever lives there have been, on a host in whatever state that refuses no
deletion of a filter: the objects of a running process are those of its
model since its start, and nothing but the places of the process has ever
been touched. -/
theorem attached_refines {κ : Type} (H : Host κ) (hH : H.Lawful) (hdel : H.DeletesFilters)
    (glob : Text → Text → Bool) (ord : RowOrder) (cfg : Config) (ifs : Interfaces)
    (s₀ s : Life κ) (hdead : s₀.running = false) (es : List LifeEvent)
    (hrun : Run.run (Life.step H glob ord cfg ifs) s₀ es = some s) :
    (s.running = true → ∃ before after s₁ P, es = before ++ .start :: after.map .event
        ∧ Run.run (Life.step H glob ord cfg ifs) s₀ before = some s₁
        ∧ ((connectInitialize s₁.policies s₁.globs s₁.dns).bind fun d =>
            Run.run (Daemon.step glob ord cfg) d after) = some ⟨s.policies, s.globs, s.dns, P⟩
        ∧ H.trees s.host = (H.trees s₀.host).over (H.built ifs cfg P))
      ∧ ∀ place, ¬H.Configures ifs place → H.trees s.host place = H.trees s₀.host place :=
  lived_of_run hH hdel hdead hrun

theorem deletesFilters_tableHost : tableHost.DeletesFilters := by
  intro T link o _ ho
  obtain ⟨⟨l, o'⟩, he, hplace, rfl⟩ := ObjectTable.mem_trees.mp (Multiset.mem_coe.mp ho)
  obtain rfl : l = link := (Prod.mk.inj hplace).1
  show (T.send _).1 = true
  rw [ObjectTable.send, if_pos he]

def killed : Life ObjectTable := ⟨KeyedTable.empty, redditGlobs, redditDns, remains, false⟩

/-- Started, killed, started again, and a check that finds a busy client. -/
def killedLife : List LifeEvent :=
  [.start, .kill, .start, .event (.tick (busyTick redditClient minute))]

def busyRules : List IpPolicy := [⟨"192,168,0,20".toList, "151,101,1,140".toList, 10⟩]

theorem run_killed : ∃ T,
    Run.run (Life.step tableHost redditGlob RowOrder.stored baseConfig tableInterfaces) killed
      killedLife = some ⟨step baseConfig KeyedTable.empty (busyTick redditClient minute),
        redditGlobs, redditDns, T, true⟩ := by
  have hcfg : baseConfig.Buildable := ⟨by decide, by decide, by decide⟩
  obtain ⟨T₁, h₁⟩ := Host.handlersInitialize_completes lawful_tableHost obliging_tableHost
    baseConfig hcfg remains
  obtain ⟨T₂, h₂⟩ := Host.handlersInitialize_completes lawful_tableHost obliging_tableHost
    baseConfig hcfg T₁
  have hroot : (tableHost.trees T₂).HasRoot (tableHost.index tableInterfaces.lanInterface) := by
    rw [(startup_fresh tableHost lawful_tableHost baseConfig tableInterfaces T₁ T₂ _ h₂).1 rfl]
    exact Host.hasRoot_built
  have hpoll : Nethadone.pollPolicyCheck baseConfig TickFaults.none (busyTick redditClient minute)
      KeyedTable.empty = (step baseConfig KeyedTable.empty (busyTick redditClient minute), true) :=
    Prod.ext rfl (by decide)
  have hrules : applyPolicies redditGlob RowOrder.stored ReadFaults.none
      (step baseConfig KeyedTable.empty (busyTick redditClient minute)) redditGlobs redditDns
      (busyTick redditClient minute).now
        = some busyRules := by decide
  obtain ⟨T₃, h₃⟩ := Host.applyPolicies_completes lawful_tableHost obliging_tableHost
    (show (compile busyRules).isSome by decide) hroot
  exact ⟨T₃, by simp [Run.run, Life.step, killedLife, killed, Life.pollPolicyCheck, Life.attach,
    h₁, h₂, hpoll, hrules, h₃]⟩

theorem attached_refines_killed :
    ∃ s, Run.run (Life.step tableHost redditGlob RowOrder.stored baseConfig tableInterfaces) killed
        killedLife = some s
      ∧ ∃ before after s₁ P, killedLife = before ++ .start :: after.map .event
        ∧ Run.run (Life.step tableHost redditGlob RowOrder.stored baseConfig tableInterfaces)
          killed before = some s₁
        ∧ ((connectInitialize s₁.policies s₁.globs s₁.dns).bind fun d =>
            Run.run (Daemon.step redditGlob RowOrder.stored baseConfig) d after)
          = some ⟨s.policies, s.globs, s.dns, P⟩
        ∧ tableHost.trees s.host = (tableHost.trees killed.host).over
          (tableHost.built tableInterfaces baseConfig P) := by
  obtain ⟨T, hrun⟩ := run_killed
  exact ⟨_, hrun, (attached_refines tableHost lawful_tableHost deletesFilters_tableHost redditGlob
    RowOrder.stored baseConfig tableInterfaces killed _ rfl _ hrun).1 rfl⟩

/-! ## Once and only once -/

/-- The object is a filter that runs the program. -/
def TcObject.runs (prog : BpfProgram) (o : TcObject) : Bool :=
  match o.kind with
  | .filter _ (some bpf) => bpf.prog == prog
  | _ => false

theorem filter_trafficMon (lan wan : Int) :
    (clsactTree (staticFilters lan wan) lan).filter (TcObject.runs .trafficMon)
      = [trafficMonitor handleMinEgress] := by
  by_cases h : wan = lan
  · have hown : (staticFilters lan wan).filter (·.1 = lan) = staticFilters lan wan := by
      simp [staticFilters, h]
    rw [clsactTree, hown]
    rfl
  · have hown : (staticFilters lan wan).filter (·.1 = lan)
        = [(lan, trafficMonitor handleMinEgress)] := by simp [staticFilters, h]
    rw [clsactTree, hown]
    rfl

theorem filter_udpDnsSniff (lan wan : Int) :
    (clsactTree (staticFilters lan wan) wan).filter (TcObject.runs .udpDnsSniff)
      = [dnsSniffer handleMinEgress, dnsSniffer handleMinIngress] := by
  by_cases h : lan = wan
  · have hown : (staticFilters lan wan).filter (·.1 = wan) = staticFilters lan wan := by
      simp [staticFilters, h]
    rw [clsactTree, hown]
    rfl
  · have hown : (staticFilters lan wan).filter (·.1 = wan)
        = [(wan, dnsSniffer handleMinEgress), (wan, dnsSniffer handleMinIngress)] := by
      simp [staticFilters, h]
    rw [clsactTree, hown]
    rfl

/-- In every state of every running process, however often it was killed and started
again, as long as no deletion of a filter is refused: one throttle filter below the
leaves, one monitor on the LAN, and one sniffer for each direction on the WAN. -/
theorem attached_once {κ : Type} (H : Host κ) (hH : H.Lawful) (hdel : H.DeletesFilters)
    (glob : Text → Text → Bool) (ord : RowOrder) (cfg : Config) (ifs : Interfaces)
    (s₀ s : Life κ) (hdead : s₀.running = false) (es : List LifeEvent)
    (hrun : Run.run (Life.step H glob ord cfg ifs) s₀ es = some s) (hrunning : s.running = true) :
    (∃ P, throttlers (H.trees s.host) (H.index ifs.lanInterface) = {throttler P})
      ∧ (H.trees s.host (H.index ifs.lanInterface, .clsact)).filter
          (fun o => o.runs .trafficMon = true) = {trafficMonitor handleMinEgress}
      ∧ (H.trees s.host (H.index ifs.wanInterface, .clsact)).filter
          (fun o => o.runs .udpDnsSniff = true)
        = {dnsSniffer handleMinEgress, dnsSniffer handleMinIngress} := by
  obtain ⟨-, -, -, P, -, -, -, htrees⟩ := (lived_of_run hH hdel hdead hrun).1 hrunning
  have hclsact : ∀ link, H.Serves ifs link → H.trees s.host (link, .clsact)
      = (clsactTree (staticFilters (H.index ifs.lanInterface) (H.index ifs.wanInterface)) link :
        List TcObject) := by
    intro link hlink
    rw [htrees]
    exact over_some (started_clsact cfg P hlink)
  refine ⟨⟨P, by rw [htrees, Host.throttlers_built]⟩, ?_, ?_⟩
  · rw [hclsact _ (Or.inl rfl), Multiset.filter_coe]
    simp only [Bool.decide_eq_true]
    rw [filter_trafficMon]
    rfl
  · rw [hclsact _ (Or.inr rfl), Multiset.filter_coe]
    simp only [Bool.decide_eq_true]
    rw [filter_udpDnsSniff]
    rfl

theorem attached_once_killed :
    ∃ T, (∃ P, throttlers (tableHost.trees T) 2 = {throttler P})
      ∧ (tableHost.trees T (2, .clsact)).filter (fun o => o.runs .trafficMon = true)
        = {trafficMonitor handleMinEgress}
      ∧ (tableHost.trees T (3, .clsact)).filter (fun o => o.runs .udpDnsSniff = true)
        = {dnsSniffer handleMinEgress, dnsSniffer handleMinIngress} := by
  obtain ⟨T, hrun⟩ := run_killed
  exact ⟨T, attached_once tableHost lawful_tableHost deletesFilters_tableHost redditGlob
    RowOrder.stored baseConfig tableInterfaces killed _ rfl _ hrun rfl⟩

end Nethadone
