import Nethadone.ClassHandles
import Nethadone.Lifetime

/-!
# Where frames are sent

A rule names a class by a number in its text; the kernel has the classes
that a start has built. Nothing in the source holds the two together: the
numbers come from a table that outlives the process, the classes from the
configuration. Through any number of lives they agree nevertheless, up to
eight configured classes: the table stays on the ladder
(`reachable_life`), a program compiled from it names rungs only
(`OnRungs`), and every rung has its leaf in the tree below which the
program is attached (`classes_exist`).
-/

namespace Nethadone

/-- Every class that the program names is the handle of a leaf. -/
def OnRungs (cfg : Config) (P : Program) : Prop :=
  ∀ rule ∈ P, ∃ k ≤ cfg.numQdiscClasses.toNat, rule.classid = .ofNat 32 ((k + 1) * 16)

section Rungs

variable {glob : Text → Text → Bool} {ord : RowOrder} {cfg : Config} {T : PolicyTable}

theorem onRungs_initialProgram (cfg : Config) : OnRungs cfg initialProgram := by
  intro rule hrule
  obtain rfl := List.mem_singleton.mp hrule
  exact ⟨0, Nat.zero_le _, rfl⟩

theorem onRungs_of_compile (hN : cfg.numQdiscClasses ≤ 8) (hT : Reachable cfg T) {G : GlobTable}
    {D : DnsTable} {now : Int} {rules : List IpPolicy} {P : Program}
    (hrules : applyPolicies glob ord ReadFaults.none T G D now = some rules)
    (hP : compile rules = some P) : OnRungs cfg P := by
  intro rule hrule
  obtain ⟨r, hr, hcompiled⟩ := (Collect.mem_of_mapM hP).mp hrule
  obtain ⟨p, hp, addr, -, rfl⟩ := (mem_applyPolicies hrules).mp hr
  obtain ⟨k, hk, hcls⟩ := hT.onLadder_of_mem hp
  refine ⟨k, hk, ?_⟩
  rw [(compileRule_classid hcompiled).1, classWord]
  simp only [hcls]
  rw [cIntConst_rung (by omega), Option.getD_some]

/-- The table stays on the ladder, and the attached program on the leaves. -/
theorem onRungs_step (hN : cfg.numQdiscClasses ≤ 8) (d : Daemon) (e : Event) (d' : Daemon)
    (h : Reachable cfg d.policies ∧ OnRungs cfg d.attached)
    (hd' : d.step glob ord cfg e = some d') :
    Reachable cfg d'.policies ∧ OnRungs cfg d'.attached := by
  obtain ⟨hT, hP⟩ := h
  cases e with
  | tick t =>
      by_cases hc : (tick cfg t d.policies).2 = true
      · obtain ⟨hpolicies, -, -, -⟩ := step_tick_of_changed hc hd'
        have hT' : Reachable cfg d'.policies := hpolicies ▸ hT.step t
        refine ⟨hT', ?_⟩
        unfold tick at hc
        simp only [Daemon.step, Daemon.pollPolicyCheck, hc, if_true, Option.bind_eq_some_iff,
          Daemon.attach, Option.map_eq_some_iff] at hd'
        obtain ⟨rules, hrules, P, hP, rfl⟩ := hd'
        exact onRungs_of_compile hN hT' hrules hP
      · rw [step_tick_of_not_changed hc] at hd'
        obtain rfl := Option.some.inj hd'
        exact ⟨hT, hP⟩
  | addDns domain ipaddr now =>
      obtain rfl := Option.some.inj hd'
      exact ⟨hT, hP⟩
  | addGlob g =>
      obtain rfl := Option.some.inj hd'
      exact ⟨hT, hP⟩

end Rungs

/-! ## Over many lives -/

section Lives

variable {κ : Type} {H : Host κ} {glob : Text → Text → Bool} {ord : RowOrder} {cfg : Config}
  {ifs : Interfaces}

theorem policies_pollPolicyCheck (s : Life κ) (t : Tick) :
    (s.pollPolicyCheck H glob ord cfg ifs t).policies = step cfg s.policies t := by
  unfold Life.pollPolicyCheck step tick
  rcases hround : pollPolicyCheck cfg TickFaults.none t s.policies with ⟨T, changed⟩
  cases changed with
  | false => rfl
  | true =>
      simp only [if_true]
      cases applyPolicies glob ord ReadFaults.none T s.globs s.dns t.now with
      | none => rfl
      | some rules => rfl

theorem reachable_life (s : Life κ) (e : LifeEvent) (s' : Life κ) (hT : Reachable cfg s.policies)
    (hs' : s.step H glob ord cfg ifs e = some s') : Reachable cfg s'.policies := by
  cases e with
  | start =>
      rw [Life.step] at hs'
      split at hs'
      · cases hs'
      · obtain rfl := Option.some.inj hs'
        exact hT
  | kill =>
      obtain rfl := Option.some.inj hs'
      exact hT
  | event e =>
      simp only [Life.step] at hs'
      split at hs'
      · -- one case for each kind of event
        split at hs'
        · obtain rfl := Option.some.inj hs'
          rw [policies_pollPolicyCheck]
          exact hT.step _
        · obtain rfl := Option.some.inj hs'
          exact hT
        · obtain rfl := Option.some.inj hs'
          exact hT
      · cases hs'

theorem exists_leaf_object (cfg : Config) (lan : Int) {k : Nat}
    (hk : k ≤ cfg.numQdiscClasses.toNat) :
    ∃ o ∈ lanTree cfg lan, o.isClass = true ∧ o.handle = ⟨1, handleId k⟩ := by
  obtain ⟨c, hc, hhandle⟩ := exists_lanClass cfg lan hk
  refine ⟨c.classObject, ?_, rfl, by rw [LeafClass.classObject, hhandle]⟩
  exact mem_treeUpTo.mpr (Or.inr (Or.inr ⟨c, List.mem_of_getElem? hc, Or.inl rfl⟩))

end Lives

/-- Through any number of lives, with whatever requests are refused except the
deletions of filters: while the process runs, the attached throttler leaves the class
of a frame alone, or sets it to the minor number of a class that the LAN interface has. -/
theorem classes_exist {κ : Type} (H : Host κ) (hH : H.Lawful) (hdel : H.DeletesFilters)
    (glob : Text → Text → Bool) (ord : RowOrder) (cfg : Config) (hN : cfg.numQdiscClasses ≤ 8)
    (ifs : Interfaces) (s₀ s : Life κ) (hdead : s₀.running = false)
    (hT : Reachable cfg s₀.policies) (es : List LifeEvent)
    (hrun : Run.run (Life.step H glob ord cfg ifs) s₀ es = some s) (hrunning : s.running = true) :
    ∃ P, throttlers (H.trees s.host) (H.index ifs.lanInterface) = {throttler P}
      ∧ ∀ (st : ThrottleStats) (skb : Skb),
        (throttle P st skb).2.1.tcClassid = skb.tcClassid
          ∨ ∃ o ∈ H.trees s.host (H.index ifs.lanInterface, .root), o.isClass = true
            ∧ o.handle.major = 1
            ∧ (throttle P st skb).2.1.tcClassid = .ofNat 32 o.handle.minor.toNat := by
  obtain ⟨before, after, s₁, P, -, hbefore, hd, htrees⟩ :=
    (lived_of_run hH hdel hdead hrun).1 hrunning
  rw [connectInitialize_eq, Option.bind_some] at hd
  have hT₁ : Reachable cfg s₁.policies := Run.invariant (I := fun s => Reachable cfg s.policies)
    (fun s e s' hT hs' => reachable_life s e s' hT hs') hbefore hT
  obtain ⟨-, hP⟩ := Run.invariant
    (I := fun d : Daemon => Reachable cfg d.policies ∧ OnRungs cfg d.attached)
    (onRungs_step hN) hd ⟨hT₁, onRungs_initialProgram cfg⟩
  refine ⟨P, by rw [htrees, Host.throttlers_built], fun st skb => ?_⟩
  by_cases hip : skb.IsIPv4
  · rw [throttle_tcClassid hip]
    cases hlast : (P.filter (·.holds skb.src.word skb.dst.word)).getLast? with
    | none => exact Or.inl rfl
    | some rule =>
        have hmem : rule ∈ P := List.mem_of_mem_filter (List.mem_of_getLast? hlast)
        obtain ⟨k, hk, hclassid⟩ := hP rule hmem
        obtain ⟨o, ho, hclass, hhandle⟩ := exists_leaf_object cfg (H.index ifs.lanInterface) hk
        refine Or.inr ⟨o, ?_, hclass, by rw [hhandle], ?_⟩
        · rw [htrees, Host.over_built_root]
          exact Multiset.mem_add.mpr (Or.inl (Multiset.mem_coe.mpr ho))
        · rw [hhandle, toNat_handleId (by omega)]
          exact hclassid
  · rw [throttle_of_not_ipv4 hip]
    exact Or.inl rfl

theorem classes_exist_killed : ∃ T, ∃ P, throttlers (tableHost.trees T) 2 = {throttler P}
    ∧ ∀ (st : ThrottleStats) (skb : Skb),
      (throttle P st skb).2.1.tcClassid = skb.tcClassid
        ∨ ∃ o ∈ tableHost.trees T (2, .root), o.isClass = true ∧ o.handle.major = 1
          ∧ (throttle P st skb).2.1.tcClassid = .ofNat 32 o.handle.minor.toNat := by
  obtain ⟨T, hrun⟩ := run_killed
  exact ⟨T, classes_exist tableHost lawful_tableHost deletesFilters_tableHost redditGlob
    RowOrder.stored baseConfig (by decide) tableInterfaces killed _ rfl
    Relation.ReflTransGen.refl _ hrun rfl⟩

end Nethadone
