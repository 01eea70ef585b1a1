import Nethadone.FailedReads

/-!
# The order of the rules

Neither `GetAllPolicies` nor `GetIPsMatchingGlob` asks for an order, and
the program made of their rows lets the last matching rule decide. Its
class is the same for every order exactly when no frame is matched by the
rules of two policies with different classes (`orderFree_iff`): if there is
such a pair, each of the two policies decides in the order that puts its
row last. Groups with an address in common, under policy for one client at
different classes, are such a pair. None of this depends on which texts the
compiler takes for an address.
-/

namespace Nethadone

/-! ## The last match -/

section LastMatch

variable {α β : Type*} {h : α → Bool} {f : α → β}

/-- Two lists with the same members agree on their last match, seen through a
function that does not tell matches apart. -/
theorem map_getLast?_filter_congr {l l' : List α} (hmem : ∀ a, a ∈ l ↔ a ∈ l')
    (hf : ∀ a ∈ l, ∀ b ∈ l, h a = true → h b = true → f a = f b) :
    (l.filter h).getLast?.map f = (l'.filter h).getLast?.map f := by
  cases ha : (l.filter h).getLast? with
  | none =>
      have hnil : l'.filter h = [] := by
        rw [List.getLast?_eq_none_iff, List.filter_eq_nil_iff] at ha
        exact List.filter_eq_nil_iff.mpr fun a hl => ha a ((hmem a).mpr hl)
      rw [hnil]
      rfl
  | some a =>
      obtain ⟨hal, hha⟩ := List.mem_filter.mp (List.mem_of_getLast? ha)
      cases hb : (l'.filter h).getLast? with
      | none =>
          rw [List.getLast?_eq_none_iff, List.filter_eq_nil_iff] at hb
          exact absurd hha (hb a ((hmem a).mp hal))
      | some b =>
          obtain ⟨hbl, hhb⟩ := List.mem_filter.mp (List.mem_of_getLast? hb)
          rw [Option.map_some, Option.map_some, hf a hal b ((hmem b).mpr hbl) hha hhb]

/-- When the end of a list has a match, the last match is there. -/
theorem getLast?_filter_append {l l' : List α} {a : α} (ha : a ∈ l') (hha : h a = true) :
    ∃ b ∈ l', ((l ++ l').filter h).getLast? = some b := by
  rw [List.filter_append, List.getLast?_append]
  cases hb : (l'.filter h).getLast? with
  | none =>
      rw [List.getLast?_eq_none_iff, List.filter_eq_nil_iff] at hb
      exact absurd hha (hb a ha)
  | some b => exact ⟨b, (List.mem_filter.mp (List.mem_of_getLast? hb)).1, rfl⟩

end LastMatch

/-! ## The rules, whatever the order -/

def ruleFor (p : Policy) (addr : Text) : IpPolicy :=
  ⟨replaceAll '.' ',' p.srcIp, replaceAll '.' ',' addr, p.cls⟩

/-- The address was seen, in the window, under a name the policy's group
matches. -/
def Sees (glob : Text → Text → Bool) (G : GlobTable) (D : DnsTable) (now : Int) (p : Policy)
    (addr : Text) : Prop :=
  ∃ g ∈ G.lookup p.globGroup,
    ∃ r ∈ D.rows, r.daddr = addr ∧ glob g.glob r.domain = true ∧ recentProbe now r

/-- The tables have a program: every policy's group exists, and every rule
compiles. -/
def Renders (read : Text → Option (BitVec 32)) (glob : Text → Text → Bool) (T : PolicyTable)
    (G : GlobTable) (D : DnsTable) (now : Int) : Prop :=
  ∀ p ∈ T.rows, (G.lookup p.globGroup).isSome
    ∧ ∀ addr, Sees glob G D now p addr → (compileRuleBy read (ruleFor p addr)).isSome

/-- Some frame is matched by both rules. -/
def Rule.Overlap (r r' : Rule) : Prop :=
  r.saddr = r'.saddr ∧ ∀ d ∈ r.daddr, ∀ d' ∈ r'.daddr, d = d'

/-- Two policies have rules for one frame, with different classes. -/
def Conflict (read : Text → Option (BitVec 32)) (glob : Text → Text → Bool) (T : PolicyTable)
    (G : GlobTable) (D : DnsTable) (now : Int) : Prop :=
  ∃ p ∈ T.rows, ∃ q ∈ T.rows, ∃ a b r r', Sees glob G D now p a ∧ Sees glob G D now q b
    ∧ compileRuleBy read (ruleFor p a) = some r ∧ compileRuleBy read (ruleFor q b) = some r'
    ∧ r.Overlap r' ∧ r.classid ≠ r'.classid

/-- The program the tables lead to when rows come in this order. -/
def RebuiltBy (read : Text → Option (BitVec 32)) (glob : Text → Text → Bool) (ord : RowOrder)
    (T : PolicyTable) (G : GlobTable) (D : DnsTable) (now : Int) (P : Program) : Prop :=
  ∃ rules, applyPolicies glob ord ReadFaults.none T G D now = some rules
    ∧ rules.mapM (compileRuleBy read) = some P

def Rebuilt (glob : Text → Text → Bool) (ord : RowOrder) (T : PolicyTable) (G : GlobTable)
    (D : DnsTable) (now : Int) (P : Program) : Prop :=
  ∃ rules, applyPolicies glob ord ReadFaults.none T G D now = some rules ∧ compile rules = some P

theorem Rebuilt.rebuiltBy {glob : Text → Text → Bool} {ord : RowOrder} {T : PolicyTable}
    {G : GlobTable} {D : DnsTable} {now : Int} {P : Program} (h : Rebuilt glob ord T G D now P) :
    RebuiltBy expandIpAddress glob ord T G D now P := h

/-- Any two orders lead to programs that classify every frame alike. -/
def OrderFree (read : Text → Option (BitVec 32)) (glob : Text → Text → Bool) (T : PolicyTable)
    (G : GlobTable) (D : DnsTable) (now : Int) : Prop :=
  ∀ (ord ord' : RowOrder) (P P' : Program), RebuiltBy read glob ord T G D now P →
    RebuiltBy read glob ord' T G D now P' → ∀ (st : ThrottleStats) (skb : Skb),
      (throttle P st skb).2.1.tcClassid = (throttle P' st skb).2.1.tcClassid

section Order

variable {read : Text → Option (BitVec 32)} {glob : Text → Text → Bool} {ord ord' : RowOrder}
  {T : PolicyTable} {G : GlobTable} {D : DnsTable} {now : Int} {P P' : Program}

theorem reaches_iff {p : Policy} {addr : Text} :
    Reaches glob ord G D now p addr ↔ Sees glob G D now p addr := by
  exact exists_congr fun _ => and_congr_right fun _ => exists_getIPsMatchingGlob_iff

theorem mem_rebuiltBy (h : RebuiltBy read glob ord T G D now P) {r : Rule} :
    r ∈ P ↔ ∃ p ∈ T.rows, ∃ addr, Sees glob G D now p addr
      ∧ compileRuleBy read (ruleFor p addr) = some r := by
  obtain ⟨rules, hrules, hP⟩ := h
  rw [Collect.mem_of_mapM hP]
  constructor
  · rintro ⟨x, hx, hr⟩
    obtain ⟨p, hp, addr, haddr, rfl⟩ := (mem_applyPolicies hrules).mp hx
    exact ⟨p, hp, addr, reaches_iff.mp haddr, hr⟩
  · rintro ⟨p, hp, addr, haddr, hr⟩
    exact ⟨_, (mem_applyPolicies hrules).mpr ⟨p, hp, addr, reaches_iff.mpr haddr, rfl⟩, hr⟩

theorem mem_rebuilt (h : Rebuilt glob ord T G D now P) {r : Rule} :
    r ∈ P ↔ ∃ p ∈ T.rows, ∃ addr, Sees glob G D now p addr
      ∧ compileRule (ruleFor p addr) = some r := mem_rebuiltBy h.rebuiltBy

theorem overlap_of_holds {r r' : Rule} {s d : BitVec 32} (h : r.holds s d = true)
    (h' : r'.holds s d = true) : r.Overlap r' := by
  simp only [Rule.holds, Bool.and_eq_true, beq_iff_eq] at h h'
  refine ⟨h.1.symm.trans h'.1, fun x hx y hy => ?_⟩
  obtain rfl : d = x := by
    have := h.2
    rw [Option.mem_def.mp hx] at this
    exact beq_iff_eq.mp this
  have := h'.2
  rw [Option.mem_def.mp hy] at this
  exact beq_iff_eq.mp this

theorem Rule.Overlap.symm {r r' : Rule} (h : r.Overlap r') : r'.Overlap r :=
  ⟨h.1.symm, fun d hd d' hd' => (h.2 d' hd' d hd).symm⟩

theorem Rule.Overlap.holds {r r' : Rule} (h : r.Overlap r') :
    ∃ s d, r.holds s d = true ∧ r'.holds s d = true := by
  obtain ⟨hs, hd⟩ := h
  refine ⟨r.saddr, (r.daddr.or r'.daddr).getD 0, ?_, ?_⟩
  · cases hr : r.daddr <;> simp [Rule.holds, hr]
  · cases hr : r.daddr with
    | none => cases hr' : r'.daddr <;> simp [Rule.holds, hr', hs]
    | some d =>
        cases hr' : r'.daddr with
        | none => simp [Rule.holds, hr', hs]
        | some d' =>
            obtain rfl := hd d hr d' hr'
            simp [Rule.holds, hr', hs]

theorem orderFree_of_not_conflict (h : ¬Conflict read glob T G D now) :
    OrderFree read glob T G D now := by
  intro ord ord' P P' hP hP' st skb
  by_cases hip : skb.IsIPv4
  · have hmem : ∀ r, r ∈ P ↔ r ∈ P' := fun r =>
      (mem_rebuiltBy hP).trans (mem_rebuiltBy hP').symm
    have hclass : ∀ r ∈ P, ∀ r' ∈ P, r.holds skb.src.word skb.dst.word = true →
        r'.holds skb.src.word skb.dst.word = true → r.classid = r'.classid := by
      intro r hr r' hr' hh hh'
      obtain ⟨p, hp, a, ha, hcr⟩ := (mem_rebuiltBy hP).mp hr
      obtain ⟨q, hq, b, hb, hcr'⟩ := (mem_rebuiltBy hP).mp hr'
      by_contra hne
      exact h ⟨p, hp, q, hq, a, b, r, r', ha, hb, hcr, hcr', overlap_of_holds hh hh', hne⟩
    rw [throttle_tcClassid hip, throttle_tcClassid hip, map_getLast?_filter_congr hmem hclass]
  · rw [throttle_of_not_ipv4 hip, throttle_of_not_ipv4 hip]

theorem Renders.rebuiltBy (h : Renders read glob T G D now) (ord : RowOrder) :
    ∃ P, RebuiltBy read glob ord T G D now P := by
  obtain ⟨rules, hrules⟩ := applyPolicies_isSome glob ord D now fun p hp => (h p hp).1
  have hcompile : (rules.mapM (compileRuleBy read)).isSome := by
    rw [Collect.isSome_mapM_iff]
    intro r hr
    obtain ⟨p, hp, addr, haddr, rfl⟩ := (mem_applyPolicies hrules).mp hr
    exact (h p hp).2 addr (reaches_iff.mp haddr)
  obtain ⟨P, hP⟩ := Option.isSome_iff_exists.mp hcompile
  exact ⟨P, rules, hrules, hP⟩

theorem renders_of_rebuiltBy (h : RebuiltBy read glob ord T G D now P) :
    Renders read glob T G D now := by
  obtain ⟨rules, hrules, hP⟩ := h
  have hread := ((applyPolicies_isSome_iff (f := ReadFaults.none) glob ord D now).mp
    (Option.isSome_iff_exists.mpr ⟨rules, hrules⟩)).2
  refine fun p hp => ⟨(hread p hp).2.1, fun addr haddr => ?_⟩
  obtain ⟨r, -, hr⟩ := Collect.exists_of_mapM hP
    ((mem_applyPolicies hrules).mpr ⟨p, hp, addr, reaches_iff.mpr haddr, rfl⟩)
  exact Option.isSome_iff_exists.mpr ⟨r, hr⟩

/-- The order that puts one policy's row last. -/
def RowOrder.withLast (p : Policy) : RowOrder where
  policies := fun l => l.filter (fun q => !decide (q = p)) ++ l.filter (fun q => decide (q = p))
  globs := id
  probes := id
  policies_perm := fun l =>
    List.perm_append_comm.trans (List.filter_append_perm (fun q => decide (q = p)) l)
  globs_perm := List.Perm.refl
  probes_perm := List.Perm.refl

/-- The program for that order ends with rules of the policy, among them its
rules for every address it sees. -/
theorem rebuilt_withLast {p : Policy} (hp : p ∈ T.rows)
    (h : RebuiltBy read glob (RowOrder.withLast p) T G D now P) :
    ∃ P₁ P₂, P = P₁ ++ P₂
      ∧ (∀ r ∈ P₂, ∃ addr, compileRuleBy read (ruleFor p addr) = some r)
      ∧ ∀ addr r, Sees glob G D now p addr → compileRuleBy read (ruleFor p addr) = some r →
          r ∈ P₂ := by
  obtain ⟨rules, hrules, hP⟩ := h
  rw [applyPolicies_eq] at hrules
  obtain ⟨ls, hls, rfl⟩ := Option.map_eq_some_iff.mp hrules
  obtain ⟨front, back, hfront, hback, rfl⟩ := Collect.mapM_append hls
  rw [List.flatten_append] at hP
  obtain ⟨P₁, P₂, hP₁, hP₂, rfl⟩ := Collect.mapM_append hP
  have hmem : ∀ {r : Rule}, r ∈ P₂ ↔ ∃ addr, Reaches glob (RowOrder.withLast p) G D now p addr
      ∧ compileRuleBy read (ruleFor p addr) = some r := by
    intro r
    rw [Collect.mem_of_mapM hP₂]
    constructor
    · rintro ⟨x, hx, hr⟩
      obtain ⟨l, hl, hxl⟩ := List.mem_flatten.mp hx
      obtain ⟨q, hq, hql⟩ := (Collect.mem_of_mapM hback).mp hl
      obtain rfl : q = p := of_decide_eq_true (List.mem_filter.mp hq).2
      obtain ⟨addr, haddr, rfl⟩ := (mem_getIpPolicies hql).mp hxl
      exact ⟨addr, haddr, hr⟩
    · rintro ⟨addr, haddr, hr⟩
      have hlast : p ∈ T.rows.filter (fun q => decide (q = p)) :=
        List.mem_filter.mpr ⟨hp, decide_eq_true rfl⟩
      obtain ⟨l, hl, hpl⟩ := Collect.exists_of_mapM hback hlast
      exact ⟨_, List.mem_flatten.mpr ⟨l, hl, (mem_getIpPolicies hpl).mpr ⟨addr, haddr, rfl⟩⟩, hr⟩
  refine ⟨P₁, P₂, rfl, fun r hr => ?_, fun addr r haddr hr => ?_⟩
  · obtain ⟨addr, -, hr⟩ := hmem.mp hr
    exact ⟨addr, hr⟩
  · exact hmem.mpr ⟨addr, reaches_iff.mpr haddr, hr⟩

/-- In that order the policy decides every frame that one of its rules matches. -/
theorem throttle_withLast {p : Policy} (hp : p ∈ T.rows)
    (h : RebuiltBy read glob (RowOrder.withLast p) T G D now P) {addr : Text} {r : Rule}
    (haddr : Sees glob G D now p addr) (hr : compileRuleBy read (ruleFor p addr) = some r)
    {skb : Skb} (hip : skb.IsIPv4) (hholds : r.holds skb.src.word skb.dst.word = true)
    (st : ThrottleStats) :
    (throttle P st skb).2.1.tcClassid = r.classid := by
  obtain ⟨P₁, P₂, rfl, hfrom, hmem⟩ := rebuilt_withLast hp h
  obtain ⟨r', hr', hlast⟩ := getLast?_filter_append (l := P₁)
    (h := fun x : Rule => x.holds skb.src.word skb.dst.word) (hmem addr r haddr hr) hholds
  obtain ⟨addr', hr''⟩ := hfrom r' hr'
  rw [throttle_tcClassid hip, hlast, Option.map_some, Option.getD_some,
    (compileRule_classid hr'').1, (compileRule_classid hr).1]
  -- the class constant comes from the policy, not from the address
  rfl

theorem not_orderFree_of_conflict (hren : Renders read glob T G D now)
    (h : Conflict read glob T G D now) : ¬OrderFree read glob T G D now := by
  obtain ⟨p, hp, q, hq, a, b, r, r', ha, hb, hr, hr', hover, hne⟩ := h
  obtain ⟨P, hP⟩ := hren.rebuiltBy (RowOrder.withLast p)
  obtain ⟨P', hP'⟩ := hren.rebuiltBy (RowOrder.withLast q)
  obtain ⟨s, d, hholds, hholds'⟩ := hover.holds
  obtain ⟨src, rfl⟩ := IPv4.word_surjective s
  obtain ⟨dst, rfl⟩ := IPv4.word_surjective d
  intro hfree
  have hip := isIPv4_frameBetween src dst
  have hsame := hfree _ _ P P' hP hP' ⟨0, 0⟩ (frameBetween src dst)
  rw [throttle_withLast hp hP ha hr hip hholds,
    throttle_withLast hq hP' hb hr' hip hholds'] at hsame
  exact hne hsame

end Order

/-- The order does not matter exactly when no two policies have rules for one
frame with different classes, or there is no program in any order; whatever
constants the compiler reads the pasted texts as. -/
theorem orderFree_iff (read : Text → Option (BitVec 32)) (glob : Text → Text → Bool)
    (T : PolicyTable) (G : GlobTable) (D : DnsTable) (now : Int) :
    OrderFree read glob T G D now
      ↔ ¬(Renders read glob T G D now ∧ Conflict read glob T G D now) := by
  constructor
  · rintro hfree ⟨hren, hconf⟩
    exact not_orderFree_of_conflict hren hconf hfree
  · intro h
    by_cases hren : Renders read glob T G D now
    · exact orderFree_of_not_conflict fun hconf => h ⟨hren, hconf⟩
    · intro ord ord' P P' hP
      exact absurd (renders_of_rebuiltBy hP) hren

/-! ## Two groups, one address -/

/-- A second group that matches the same names. -/
def socialGlobs : GlobTable := addGlob redditGlobs { redditGroup with name := "social".toList }

/-- The client is at class 10 for one group and at class 20 for the other. -/
def overlappingTable : PolicyTable := redditTable.upsert ⟨redditClient.src, "social".toList, 20, 0⟩

def RowOrder.reversed : RowOrder where
  policies := List.reverse
  globs := id
  probes := id
  policies_perm := List.reverse_perm
  globs_perm := List.Perm.refl
  probes_perm := List.Perm.refl

/-- The class of the client's packets is that of the row that came last. -/
theorem overlapping_groups_conflict :
    ¬OrderFree expandIpAddress redditGlob overlappingTable socialGlobs redditDns
      (5 * minute) := by
  have hrebuilt : ∀ ord P, ((applyPolicies redditGlob ord ReadFaults.none overlappingTable
      socialGlobs redditDns (5 * minute)).bind compile) = some P →
        Rebuilt redditGlob ord overlappingTable socialGlobs redditDns (5 * minute) P :=
    fun ord P h => Option.bind_eq_some_iff.mp h
  have hstored := hrebuilt RowOrder.stored
    [⟨0x8c016597, some 0x1400a8c0, 0x10⟩, ⟨0x8c016597, some 0x1400a8c0, 0x20⟩] (by decide)
  have hreversed := hrebuilt RowOrder.reversed
    [⟨0x8c016597, some 0x1400a8c0, 0x20⟩, ⟨0x8c016597, some 0x1400a8c0, 0x10⟩] (by decide)
  intro h
  have hsame := h _ _ _ _ hstored.rebuiltBy hreversed.rebuiltBy ⟨0, 0⟩
    (frameBetween redditServer ⟨192, 168, 0, 20⟩)
  revert hsame
  decide

end Nethadone
