import Nethadone.Collect
import Nethadone.Interference
import Nethadone.Throttle

/-!
# From policy rows to packets

The path of a policy row through the template, end to end. An address
keeps its identity on the way: dots become commas, the octets become macro
arguments, and the sum of shifts is the word the program loads from the
packet (`expandIpAddress_text`). So a rule holds for a frame exactly when
its two texts are the frame's addresses (`holds_iff`), and the program sets
the class of the last such rule (`throttle_exact`).
-/

namespace Nethadone

/-! ## An address through the template -/

theorem replaceAll_decimal (n : Nat) :
    replaceAll '.' ',' (Numeral.decimal n) = Numeral.decimal n := by
  have hid : ∀ c ∈ Numeral.decimal n, (if c = '.' then ',' else c) = id c := fun c hc =>
    if_neg fun (he : c = '.') => Numeral.notMem_decimal (c := '.') (by decide) n (he ▸ hc)
  rw [replaceAll, List.map_congr_left hid, List.map_id]

theorem replaceAll_text (ip : IPv4) :
    replaceAll '.' ',' ip.text = [','].intercalate ip.numerals := by
  have hdec := fun n => replaceAll_decimal n
  unfold replaceAll at hdec ⊢
  simp only [IPv4.text, IPv4.numerals, List.intercalate, List.intersperse, List.flatten_cons,
    List.flatten_nil, List.append_nil, List.map_append, hdec, List.map_cons, List.map_nil, if_true]

theorem splitOn_replaceAll_text (ip : IPv4) :
    (replaceAll '.' ',' ip.text).splitOn ',' = ip.numerals := by
  rw [replaceAll_text]
  exact List.splitOn_intercalate ',' (IPv4.notMem_numerals (by decide)) (by simp [IPv4.numerals])

theorem replaceAll_text_injective {a b : IPv4}
    (h : replaceAll '.' ',' a.text = replaceAll '.' ',' b.text) : a = b := by
  apply IPv4.numerals_injective
  rw [← splitOn_replaceAll_text a, h, splitOn_replaceAll_text]

theorem replaceAll_text_ne_nil (ip : IPv4) : replaceAll '.' ',' ip.text ≠ [] := by
  intro h
  have := splitOn_replaceAll_text ip
  rw [h] at this
  simp [IPv4.numerals] at this

theorem cIntConst_octet (o : BitVec 8) :
    Numeral.cIntConst (Numeral.decimal o.toNat) = some o.toNat :=
  Numeral.cIntConst_decimal (by have := o.isLt; omega)

/-- The sum of the shifted octets is the address as loaded from a packet. -/
theorem ipAddress_octets (ip : IPv4) :
    ipAddress (.ofNat 32 ip.o1.toNat) (.ofNat 32 ip.o2.toNat) (.ofNat 32 ip.o3.toNat)
      (.ofNat 32 ip.o4.toNat) = ip.word := by
  apply BitVec.eq_of_toNat_eq
  have h1 := ip.o1.isLt; have h2 := ip.o2.isLt; have h3 := ip.o3.isLt; have h4 := ip.o4.isLt
  simp only [ipAddress, IPv4.word, toNat_word32, BitVec.toNat_add, BitVec.toNat_shiftLeft,
    BitVec.toNat_ofNat, Nat.shiftLeft_eq]
  omega

theorem expandIpAddress_text (ip : IPv4) :
    expandIpAddress (replaceAll '.' ',' ip.text) = some ip.word := by
  rw [expandIpAddress, splitOn_replaceAll_text]
  simp only [IPv4.numerals, List.map_cons, List.map_nil, cIntConst_octet, ipAddress_octets]

theorem compileRule_text (c d : IPv4) (cls : Int) :
    compileRule ⟨replaceAll '.' ',' c.text, replaceAll '.' ',' d.text, cls⟩
      = (Numeral.cIntConst (classIdLiteral cls)).map
          fun n => ⟨d.word, some c.word, .ofNat 32 n⟩ := by
  rw [compileRule, compileRuleBy]
  simp only [expandSrc, if_neg (replaceAll_text_ne_nil c), expandIpAddress_text, Option.map_some]
  cases Numeral.cIntConst (classIdLiteral cls) <;> rfl

/-! ## The rules of a policy table -/

section Rules

variable {glob : Text → Text → Bool} {ord : RowOrder} {T : PolicyTable} {G : GlobTable}
  {D : DnsTable} {now : Int}

def Reaches (glob : Text → Text → Bool) (ord : RowOrder) (G : GlobTable) (D : DnsTable)
    (now : Int) (p : Policy) (addr : Text) : Prop :=
  ∃ g ∈ G.lookup p.globGroup, ∃ ips ∈ getIPsMatchingGlob glob ord false D g now, addr ∈ ips

/-- Every policy's group exists, and the addresses the rules are made of are
IPv4 addresses as Go prints them. -/
structure Dotted (glob : Text → Text → Bool) (ord : RowOrder) (T : PolicyTable) (G : GlobTable)
    (D : DnsTable) (now : Int) : Prop where
  group : ∀ p ∈ T.rows, (G.lookup p.globGroup).isSome
  src : ∀ p ∈ T.rows, ∃ c : IPv4, p.srcIp = c.text
  dest : ∀ p ∈ T.rows, ∀ addr, Reaches glob ord G D now p addr → ∃ d : IPv4, addr = d.text

/-- The addresses a policy has rules for, in the order of the rules. -/
def ruleAddrs (glob : Text → Text → Bool) (ord : RowOrder) (G : GlobTable) (D : DnsTable)
    (now : Int) (p : Policy) : List Text :=
  ((G.lookup p.globGroup).bind fun g => getIPsMatchingGlob glob ord false D g now).getD []

theorem mem_ruleAddrs {p : Policy} {addr : Text} :
    addr ∈ ruleAddrs glob ord G D now p ↔ Reaches glob ord G D now p addr := by
  rw [ruleAddrs, Reaches]
  cases G.lookup p.globGroup with
  | none => simp
  | some g => cases hips : getIPsMatchingGlob glob ord false D g now <;> simp [hips]

theorem getIpPolicies_eq {p : Policy} {rules : List IpPolicy}
    (h : getIpPolicies glob ord ReadFaults.none G D now p = some rules) :
    rules = (ruleAddrs glob ord G D now p).map fun addr =>
      ⟨replaceAll '.' ',' p.srcIp, replaceAll '.' ',' addr, p.cls⟩ := by
  simp only [getIpPolicies, getGlob, ReadFaults.none, Bool.false_eq_true, if_false] at h
  rw [ruleAddrs]
  cases hg : G.lookup p.globGroup with
  | none => simp [hg] at h
  | some g =>
      simp only [hg, getIPsMatchingGlob, Bool.false_eq_true, if_false, Option.some.injEq] at h
      exact h.symm

theorem mem_getIpPolicies {p : Policy} {rules : List IpPolicy}
    (h : getIpPolicies glob ord ReadFaults.none G D now p = some rules) {r : IpPolicy} :
    r ∈ rules ↔ ∃ addr, Reaches glob ord G D now p addr ∧
      r = ⟨replaceAll '.' ',' p.srcIp, replaceAll '.' ',' addr, p.cls⟩ := by
  rw [getIpPolicies_eq h, List.mem_map]
  exact exists_congr fun addr => and_congr mem_ruleAddrs eq_comm

theorem getIpPolicies_isSome (glob : Text → Text → Bool) (ord : RowOrder) (D : DnsTable)
    (now : Int) {p : Policy} (h : (G.lookup p.globGroup).isSome) :
    ∃ rules, getIpPolicies glob ord ReadFaults.none G D now p = some rules := by
  obtain ⟨g, hg⟩ := Option.isSome_iff_exists.mp h
  simp only [getIpPolicies, getGlob, ReadFaults.none, Bool.false_eq_true, if_false, hg,
    getIPsMatchingGlob]
  exact ⟨_, rfl⟩

theorem applyPolicies_eq : applyPolicies glob ord ReadFaults.none T G D now
    = ((ord.policies T.rows).mapM (getIpPolicies glob ord ReadFaults.none G D now)).map
        List.flatten := rfl

theorem applyPolicies_isSome (glob : Text → Text → Bool) (ord : RowOrder) (D : DnsTable)
    (now : Int) (h : ∀ p ∈ T.rows, (G.lookup p.globGroup).isSome) :
    ∃ rules, applyPolicies glob ord ReadFaults.none T G D now = some rules := by
  have hall : ∀ p ∈ ord.policies T.rows, getIpPolicies glob ord ReadFaults.none G D now p
      = some ((getIpPolicies glob ord ReadFaults.none G D now p).getD []) := by
    intro p hp
    obtain ⟨rules, hrules⟩ :=
      getIpPolicies_isSome glob ord D now (h p ((ord.policies_perm _).mem_iff.mp hp))
    rw [hrules, Option.getD_some]
  rw [applyPolicies_eq, Collect.mapM_eq_map hall]
  exact ⟨_, rfl⟩

theorem mem_applyPolicies {rules : List IpPolicy}
    (h : applyPolicies glob ord ReadFaults.none T G D now = some rules) {r : IpPolicy} :
    r ∈ rules ↔ ∃ p ∈ T.rows, ∃ addr, Reaches glob ord G D now p addr ∧
      r = ⟨replaceAll '.' ',' p.srcIp, replaceAll '.' ',' addr, p.cls⟩ := by
  rw [applyPolicies_eq] at h
  obtain ⟨ls, hls, rfl⟩ := Option.map_eq_some_iff.mp h
  rw [List.mem_flatten]
  constructor
  · rintro ⟨l, hl, hr⟩
    obtain ⟨p, hp, hpl⟩ := (Collect.mem_of_mapM hls).mp hl
    exact ⟨p, (ord.policies_perm _).mem_iff.mp hp, (mem_getIpPolicies hpl).mp hr⟩
  · rintro ⟨p, hp, hr⟩
    obtain ⟨l, hl, hpl⟩ := Collect.exists_of_mapM hls ((ord.policies_perm _).mem_iff.mpr hp)
    exact ⟨l, hl, (mem_getIpPolicies hpl).mpr hr⟩

end Rules

/-! ## The compiled rules -/

/-- The rule's texts are the frame's addresses. The client a policy names is
the destination: the program sees what the LAN interface sends out. -/
def RuleFits (skb : Skb) (r : IpPolicy) : Prop :=
  r.srcIpAddr = replaceAll '.' ',' skb.dst.text ∧ r.destIpAddr = replaceAll '.' ',' skb.src.text

instance (skb : Skb) (r : IpPolicy) : Decidable (RuleFits skb r) :=
  inferInstanceAs (Decidable (_ ∧ _))

/-- The last rule, in the order of the list, that fits the frame. -/
def lastRule (rules : List IpPolicy) (skb : Skb) : Option IpPolicy :=
  (rules.filter fun r => RuleFits skb r).getLast?

def IpPolicy.IsDotted (r : IpPolicy) : Prop :=
  ∃ c d : IPv4, r.srcIpAddr = replaceAll '.' ',' c.text ∧ r.destIpAddr = replaceAll '.' ',' d.text

def classWord (r : IpPolicy) : BitVec 32 :=
  .ofNat 32 ((Numeral.cIntConst (classIdLiteral r.classId)).getD 0)

section Compiled

variable {r : IpPolicy} {rule : Rule} {rules : List IpPolicy} {P : Program}

theorem compileRule_classid {read : Text → Option (BitVec 32)}
    (h : compileRuleBy read r = some rule) :
    rule.classid = classWord r ∧ (Numeral.cIntConst (classIdLiteral r.classId)).isSome := by
  unfold compileRuleBy at h
  split at h
  · rename_i hcls
    obtain rfl := Option.some.inj h
    rw [classWord, hcls]
    exact ⟨rfl, rfl⟩
  · cases h

theorem holds_iff (hd : r.IsDotted) (h : compileRule r = some rule) (skb : Skb) :
    rule.holds skb.src.word skb.dst.word = true ↔ RuleFits skb r := by
  obtain ⟨src, dest, cls⟩ := r
  obtain ⟨c, d, hc, hdst⟩ := hd
  simp only at hc hdst
  subst hc hdst
  rw [compileRule_text, Option.map_eq_some_iff] at h
  obtain ⟨n, -, rfl⟩ := h
  simp only [Rule.holds, Bool.and_eq_true, beq_iff_eq, RuleFits]
  constructor
  · rintro ⟨hs, hd⟩
    rw [IPv4.word_injective hs, IPv4.word_injective hd]
    exact ⟨rfl, rfl⟩
  · rintro ⟨hd, hs⟩
    rw [replaceAll_text_injective hs, replaceAll_text_injective hd]
    exact ⟨rfl, rfl⟩

/-- The rule of a policy in a program that compiled. -/
def compiledRule (r : IpPolicy) : Rule := (compileRule r).getD ⟨0, none, 0⟩

theorem compile_eq_map (hP : compile rules = some P) : P = rules.map compiledRule :=
  Collect.eq_map_getD hP _

theorem compileRule_of_mem (hP : compile rules = some P) (hr : r ∈ rules) :
    compileRule r = some (compiledRule r) := by
  obtain ⟨rule, -, hrule⟩ := Collect.exists_of_mapM hP hr
  rw [compiledRule, hrule, Option.getD_some]

theorem getLast?_holds (hd : ∀ r ∈ rules, r.IsDotted) (hP : compile rules = some P) (skb : Skb) :
    (P.filter (·.holds skb.src.word skb.dst.word)).getLast?.map (·.classid)
      = (lastRule rules skb).map classWord := by
  have hfilter : rules.filter ((fun r => r.holds skb.src.word skb.dst.word) ∘ compiledRule)
      = rules.filter fun r => RuleFits skb r :=
    List.filter_congr fun r hr => by
      rw [Bool.eq_iff_iff, decide_eq_true_eq]
      exact holds_iff (hd r hr) (compileRule_of_mem hP hr) skb
  rw [compile_eq_map hP, List.filter_map, hfilter, List.getLast?_map, Option.map_map, lastRule]
  apply Option.map_congr
  intro r hr
  have hmem : r ∈ rules := List.mem_of_mem_filter (List.mem_of_getLast? hr)
  exact (compileRule_classid (compileRule_of_mem hP hmem)).1

theorem compile_isSome (hd : ∀ r ∈ rules, r.IsDotted)
    (hcls : ∀ r ∈ rules, 0 ≤ r.classId ∧ r.classId < 10 ^ 16) : ∃ P, compile rules = some P := by
  have hrule : ∀ r ∈ rules, compileRule r = some ((compileRule r).getD ⟨0, none, 0⟩) := by
    intro r hr
    obtain ⟨src, dest, cls⟩ := r
    obtain ⟨c, d, hc, hdst⟩ := hd _ hr
    simp only at hc hdst
    subst hc hdst
    obtain ⟨hpos, hlt⟩ := hcls _ hr
    obtain ⟨n, rfl⟩ := Int.eq_ofNat_of_zero_le hpos
    rw [compileRule_text, classIdLiteral, Numeral.decimalInt_natCast,
      Numeral.cIntConst_hex (Numeral.hexOfDecimal_lt (by simp only at hlt; exact_mod_cast hlt))]
    rfl
  exact ⟨_, Collect.mapM_eq_map hrule⟩

end Compiled

/-! ## End to end -/

/-- The policy row asks for the frame: its client is the frame's destination,
and the source is one of the addresses seen for its group. -/
def Covers (glob : Text → Text → Bool) (ord : RowOrder) (G : GlobTable) (D : DnsTable)
    (now : Int) (p : Policy) (skb : Skb) : Prop :=
  p.srcIp = skb.dst.text ∧ Reaches glob ord G D now p skb.src.text

section EndToEnd

variable {glob : Text → Text → Bool} {ord : RowOrder} {T : PolicyTable} {G : GlobTable}
  {D : DnsTable} {now : Int} {rules : List IpPolicy}

theorem isDotted_of_mem (h : Dotted glob ord T G D now)
    (hrules : applyPolicies glob ord ReadFaults.none T G D now = some rules) :
    ∀ r ∈ rules, r.IsDotted := by
  intro r hr
  obtain ⟨p, hp, addr, haddr, rfl⟩ := (mem_applyPolicies hrules).mp hr
  obtain ⟨c, hc⟩ := h.src p hp
  obtain ⟨d, hd⟩ := h.dest p hp addr haddr
  exact ⟨c, d, by rw [hc], by rw [hd]⟩

/-- A rule that fits a frame comes from a policy row that covers it. -/
theorem exists_covers_of_fits (h : Dotted glob ord T G D now)
    (hrules : applyPolicies glob ord ReadFaults.none T G D now = some rules) {skb : Skb}
    {r : IpPolicy} (hr : r ∈ rules) (hfits : RuleFits skb r) :
    ∃ p ∈ T.rows, Covers glob ord G D now p skb ∧ r.classId = p.cls := by
  obtain ⟨p, hp, addr, haddr, rfl⟩ := (mem_applyPolicies hrules).mp hr
  obtain ⟨c, hc⟩ := h.src p hp
  obtain ⟨d, hd⟩ := h.dest p hp addr haddr
  obtain ⟨hsrc, hdest⟩ := hfits
  rw [hc] at hsrc
  rw [hd] at hdest
  refine ⟨p, hp, ⟨?_, ?_⟩, rfl⟩
  · rw [hc, replaceAll_text_injective hsrc]
  · rw [← replaceAll_text_injective hdest, ← hd]
    exact haddr

theorem lastRule_isSome_iff (h : Dotted glob ord T G D now)
    (hrules : applyPolicies glob ord ReadFaults.none T G D now = some rules) (skb : Skb) :
    (lastRule rules skb).isSome ↔ ∃ p ∈ T.rows, Covers glob ord G D now p skb := by
  have hne : (lastRule rules skb).isSome ↔ ∃ r ∈ rules, RuleFits skb r := by
    rw [lastRule, List.getLast?_isSome, ne_eq, List.filter_eq_nil_iff]
    simp
  rw [hne]
  constructor
  · rintro ⟨r, hr, hfits⟩
    obtain ⟨p, hp, hcov, -⟩ := exists_covers_of_fits h hrules hr hfits
    exact ⟨p, hp, hcov⟩
  · rintro ⟨p, hp, hsrc, haddr⟩
    exact ⟨_, (mem_applyPolicies hrules).mpr ⟨p, hp, _, haddr, rfl⟩, by rw [hsrc], rfl⟩

end EndToEnd

/-- The program built from the tables sets the class of an IPv4 frame exactly
when a policy row covers it, to the constant of the class of the last rule
that fits, which is the class of a row that covers it; every other frame
keeps its class, and every frame passes. -/
theorem throttle_exact (glob : Text → Text → Bool) (ord : RowOrder) (T : PolicyTable)
    (G : GlobTable) (D : DnsTable) (now : Int) (h : Dotted glob ord T G D now) :
    ∃ rules, applyPolicies glob ord ReadFaults.none T G D now = some rules
      ∧ (∀ P, compile rules = some P → ∀ (st : ThrottleStats) (skb : Skb),
          (throttle P st skb).2.2 = TC_ACT_OK
          ∧ ((skb.IsIPv4 ∧ ∃ p ∈ T.rows, Covers glob ord G D now p skb) →
              ∃ r ∈ lastRule rules skb,
                (∃ p ∈ T.rows, Covers glob ord G D now p skb ∧ r.classId = p.cls)
                ∧ ∃ n ∈ Numeral.cIntConst (classIdLiteral r.classId),
                    (throttle P st skb).2.1.tcClassid = .ofNat 32 n)
          ∧ (¬(skb.IsIPv4 ∧ ∃ p ∈ T.rows, Covers glob ord G D now p skb) →
              (throttle P st skb).2.1.tcClassid = skb.tcClassid))
      ∧ ((∀ p ∈ T.rows, 0 ≤ p.cls ∧ p.cls < 10 ^ 16) → ∃ P, compile rules = some P) := by
  obtain ⟨rules, hrules⟩ := applyPolicies_isSome glob ord D now h.group
  have hdot := isDotted_of_mem h hrules
  refine ⟨rules, hrules, fun P hP st skb => ⟨throttle_action P st skb, ?_, ?_⟩, fun hcls => ?_⟩
  · rintro ⟨hip, hcov⟩
    obtain ⟨r, hr⟩ := Option.isSome_iff_exists.mp ((lastRule_isSome_iff h hrules skb).mpr hcov)
    obtain ⟨hmem, hfits⟩ := List.mem_filter.mp (List.mem_of_getLast? hr)
    obtain ⟨rule, -, hrule⟩ := Collect.exists_of_mapM hP hmem
    obtain ⟨n, hn⟩ := Option.isSome_iff_exists.mp (compileRule_classid hrule).2
    refine ⟨r, hr, exists_covers_of_fits h hrules hmem (of_decide_eq_true hfits), n, hn, ?_⟩
    rw [throttle_tcClassid hip, getLast?_holds hdot hP, hr, Option.map_some, Option.getD_some,
      classWord, hn, Option.getD_some]
  · intro hno
    by_cases hip : skb.IsIPv4
    · have hnone : lastRule rules skb = none := Option.not_isSome_iff_eq_none.mp fun hsome =>
        hno ⟨hip, (lastRule_isSome_iff h hrules skb).mp hsome⟩
      rw [throttle_tcClassid hip, getLast?_holds hdot hP, hnone, Option.map_none, Option.getD_none]
    · rw [throttle_of_not_ipv4 hip]
  · refine compile_isSome hdot fun r hr => ?_
    obtain ⟨p, hp, addr, -, rfl⟩ := (mem_applyPolicies hrules).mp hr
    exact hcls p hp

/-! ## One policy, one address -/

def redditGlob (pattern domain : Text) : Bool :=
  pattern = "*reddit*".toList ∧ "reddit".toList <:+: domain

def redditGroup : GlobGroup := ⟨"reddit".toList, [], "*reddit*".toList, []⟩

def redditGlobs : GlobTable := addGlob KeyedTable.empty redditGroup

def redditServer : IPv4 := ⟨151, 101, 1, 140⟩

def redditDns : DnsTable := addDns KeyedTable.empty "www.reddit.com.".toList (some redditServer) 0

theorem dotted_reddit :
    Dotted redditGlob RowOrder.stored redditTable redditGlobs redditDns (5 * minute) := by
  have hrows : redditTable.rows = [⟨redditClient.src, redditClient.glob, 10, 0⟩] := by decide
  have hglob : redditGlobs.lookup redditClient.glob = some redditGroup := by decide
  have hips : getIPsMatchingGlob redditGlob RowOrder.stored false redditDns redditGroup
      (5 * minute) = some [redditServer.text] := by decide
  constructor <;> simp only [hrows, List.mem_singleton, forall_eq]
  · decide
  · exact ⟨⟨192, 168, 0, 20⟩, by decide⟩
  · rintro addr ⟨g, hg, ips, hips', haddr⟩
    obtain rfl := Option.some.inj (hglob.symm.trans hg)
    obtain rfl := Option.some.inj (hips.symm.trans hips')
    exact ⟨redditServer, List.mem_singleton.mp haddr⟩

theorem throttle_exact_reddit :
    ∃ rules, applyPolicies redditGlob RowOrder.stored ReadFaults.none redditTable redditGlobs
          redditDns (5 * minute) = some rules
      ∧ (∀ P, compile rules = some P → ∀ (st : ThrottleStats) (skb : Skb),
          (throttle P st skb).2.2 = TC_ACT_OK
          ∧ ((skb.IsIPv4 ∧ ∃ p ∈ redditTable.rows, Covers redditGlob RowOrder.stored redditGlobs
                redditDns (5 * minute) p skb) →
              ∃ r ∈ lastRule rules skb,
                (∃ p ∈ redditTable.rows, Covers redditGlob RowOrder.stored redditGlobs redditDns
                    (5 * minute) p skb ∧ r.classId = p.cls)
                ∧ ∃ n ∈ Numeral.cIntConst (classIdLiteral r.classId),
                    (throttle P st skb).2.1.tcClassid = .ofNat 32 n)
          ∧ (¬(skb.IsIPv4 ∧ ∃ p ∈ redditTable.rows, Covers redditGlob RowOrder.stored redditGlobs
                redditDns (5 * minute) p skb) →
              (throttle P st skb).2.1.tcClassid = skb.tcClassid))
      ∧ ((∀ p ∈ redditTable.rows, 0 ≤ p.cls ∧ p.cls < 10 ^ 16) → ∃ P, compile rules = some P) :=
  throttle_exact redditGlob RowOrder.stored redditTable redditGlobs redditDns (5 * minute)
    dotted_reddit

end Nethadone
