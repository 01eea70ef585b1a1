import Nethadone.Exactness
import Nethadone.Run

/-!
# The running process

What outlives a tick: the three tables, which are on disk, and the
attached throttle program, which is not. `handlers.Initialize` attaches a
built-in program; from then on only a policy tick that changed a row
attaches another (`Daemon.pollPolicyCheck`). DNS answers and new glob
groups come in between and move nothing but their tables.

So the attached program is always explained by an earlier state: the
built-in rule, or the policy table as it is now together with the glob
groups, DNS answers and date of the last tick that changed a row
(`Explained`).
-/

namespace Nethadone

structure Daemon where
  policies : PolicyTable
  globs : GlobTable
  dns : DnsTable
  attached : Program

/-- `handlers.ApplyPolicies`: render, compile and attach. -/
def Daemon.attach (d : Daemon) (ipPolicies : List IpPolicy) : Option Daemon :=
  (compile ipPolicies).map fun P => { d with attached := P }

/-- The rule `Initialize` starts with, so that something is attached. -/
def initialRules : List IpPolicy := [⟨[], "192,168,0,174".toList, 10⟩]

/-- `Connect` and `Initialize` in a fresh process, over the tables found on
disk. -/
def connectInitialize (T : PolicyTable) (G : GlobTable) (D : DnsTable) : Option Daemon :=
  Daemon.attach ⟨T, G, D, []⟩ initialRules

def initialProgram : Program := [⟨(⟨192, 168, 0, 174⟩ : IPv4).word, none, 0x10⟩]

theorem compile_initialRules : compile initialRules = some initialProgram := by decide

theorem connectInitialize_eq (T : PolicyTable) (G : GlobTable) (D : DnsTable) :
    connectInitialize T G D = some ⟨T, G, D, initialProgram⟩ := by
  rw [connectInitialize, Daemon.attach, compile_initialRules]
  rfl

/-! ## Events -/

section Events

variable (glob : Text → Text → Bool) (ord : RowOrder) (cfg : Config)

/-- One round of `pollPolicyCheck` with the rebuild behind it. Without a
result the process has died. -/
def Daemon.pollPolicyCheck (f : TickFaults) (rf : ReadFaults) (t : Tick) (d : Daemon) :
    Option Daemon :=
  let (T, changed) := Nethadone.pollPolicyCheck cfg f t d.policies
  let d' := { d with policies := T }
  if changed then
    (applyPolicies glob ord rf T d.globs d.dns t.now).bind d'.attach
  else some d'

/-- What happens to the process: a policy tick in which every database call
succeeds, a DNS answer, a new glob group. -/
inductive Event where
  | tick (t : Tick)
  | addDns (domain : Text) (ipaddr : RecordIP) (now : Int)
  | addGlob (g : GlobGroup)

def Daemon.step (d : Daemon) : Event → Option Daemon
  | .tick t => d.pollPolicyCheck glob ord cfg TickFaults.none ReadFaults.none t
  | .addDns domain ipaddr now => some { d with dns := addDns d.dns domain ipaddr now }
  | .addGlob g => some { d with globs := addGlob d.globs g }

/-! ## Where the attached program comes from -/

structure Basis where
  globs : GlobTable
  dns : DnsTable
  now : Int

/-- The program classifies every IPv4 frame as the rules computed from the
policy table and the basis would. -/
def Enforces (P : Program) (T : PolicyTable) (b : Basis) : Prop :=
  ∃ rules Q, applyPolicies glob ord ReadFaults.none T b.globs b.dns b.now = some rules
    ∧ compile rules = some Q
    ∧ ∀ (st : ThrottleStats) (skb : Skb), skb.IsIPv4 →
        (throttle P st skb).2.1.tcClassid = (throttle Q st skb).2.1.tcClassid

/-- The attached program classifies every IPv4 frame as the rules computed
from the tables at `now` would. -/
def Daemon.InSync (d : Daemon) (now : Int) : Prop :=
  Enforces glob ord d.attached d.policies ⟨d.globs, d.dns, now⟩

/-- A process, with the basis of its last rebuild; none before the first. -/
structure Dated where
  daemon : Daemon
  basis : Option Basis

def Dated.basisAfter (s : Dated) : Event → Option Basis
  | .tick t =>
      if (Nethadone.tick cfg t s.daemon.policies).2 then
        some ⟨s.daemon.globs, s.daemon.dns, t.now⟩
      else s.basis
  | .addDns _ _ _ => s.basis
  | .addGlob _ => s.basis

def Dated.step (s : Dated) (e : Event) : Option Dated :=
  (s.daemon.step glob ord cfg e).map fun d' => ⟨d', s.basisAfter cfg e⟩

theorem run_daemon (es : List Event) (s : Dated) :
    (Run.run (Dated.step glob ord cfg) s es).map (·.daemon)
      = Run.run (fun d => d.step glob ord cfg) s.daemon es :=
  Run.run_map (f := Dated.daemon)
    (fun _ _ => by rw [Dated.step, Option.map_map]; exact Option.map_id') es s

/-- The attached program is the built-in one until a tick has changed a row,
and from then on the one built at the last tick that did. -/
def Explained (s : Dated) : Prop :=
  match s.basis with
  | none => s.daemon.attached = initialProgram
  | some b => Enforces glob ord s.daemon.attached s.daemon.policies b

end Events

/-! ## Ticks -/

section Ticks

variable {glob : Text → Text → Bool} {ord : RowOrder} {cfg : Config}

theorem step_tick_of_changed {d d' : Daemon} {t : Tick}
    (hc : (tick cfg t d.policies).2 = true) (h : d.step glob ord cfg (.tick t) = some d') :
    d'.policies = step cfg d.policies t ∧ d'.globs = d.globs ∧ d'.dns = d.dns
      ∧ d'.InSync glob ord t.now := by
  unfold tick at hc
  simp only [Daemon.step, Daemon.pollPolicyCheck, hc, if_true, Option.bind_eq_some_iff,
    Daemon.attach, Option.map_eq_some_iff] at h
  obtain ⟨rules, hrules, P, hP, rfl⟩ := h
  exact ⟨rfl, rfl, rfl, rules, P, hrules, hP, fun _ _ _ => rfl⟩

theorem step_tick_of_not_changed {d : Daemon} {t : Tick}
    (hc : (tick cfg t d.policies).2 ≠ true) : d.step glob ord cfg (.tick t) = some d := by
  have hstill : (tick cfg t d.policies).1 = d.policies := pollPolicyCheck_still hc
  unfold tick at hc hstill
  simp only [Daemon.step, Daemon.pollPolicyCheck, if_neg hc, hstill]

theorem Explained.step {s s' : Dated} {e : Event} (hs : Explained glob ord s)
    (h : s.step glob ord cfg e = some s') : Explained glob ord s' := by
  obtain ⟨d', hd', rfl⟩ := Option.map_eq_some_iff.mp h
  cases e with
  | tick t =>
      by_cases hc : (tick cfg t s.daemon.policies).2 = true
      · obtain ⟨-, hglobs, hdns, hsync⟩ := step_tick_of_changed hc hd'
        simp only [Explained, Dated.basisAfter, if_pos hc]
        rw [← hglobs, ← hdns]
        exact hsync
      · rw [step_tick_of_not_changed hc] at hd'
        obtain rfl := Option.some.inj hd'
        simp only [Explained, Dated.basisAfter, if_neg hc]
        exact hs
  | addDns domain ipaddr now =>
      obtain rfl := Option.some.inj hd'
      exact hs
  | addGlob g =>
      obtain rfl := Option.some.inj hd'
      exact hs

theorem Explained.run {s s' : Dated} {es : List Event} (hs : Explained glob ord s)
    (h : Run.run (Dated.step glob ord cfg) s es = some s') : Explained glob ord s' :=
  Run.invariant (fun _ _ _ hs h => Explained.step hs h) h hs

theorem Enforces.congr_day {P : Program} {T : PolicyTable} {G : GlobTable} {D : DnsTable}
    {now now' : Int} (hday : dayOf now = dayOf now') :
    Enforces glob ord P T ⟨G, D, now⟩ ↔ Enforces glob ord P T ⟨G, D, now'⟩ := by
  have hips : ∀ g, getIPsMatchingGlob glob ord false D g now
      = getIPsMatchingGlob glob ord false D g now' := by
    intro g
    have hfilter : (D.rows.filter fun r => glob g.glob r.domain ∧ recentProbe now r)
        = D.rows.filter fun r => glob g.glob r.domain ∧ recentProbe now' r :=
      List.filter_congr fun r _ => by rw [decide_eq_decide, recentProbe, recentProbe, hday]
    rw [getIPsMatchingGlob, getIPsMatchingGlob, hfilter]
  have hrules : applyPolicies glob ord ReadFaults.none T G D now
      = applyPolicies glob ord ReadFaults.none T G D now' := by
    simp only [applyPolicies_eq]
    congr 2
    funext p
    simp only [getIpPolicies, ReadFaults.none, hips]
  simp only [Enforces, hrules]

end Ticks

end Nethadone
