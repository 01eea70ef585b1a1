import Nethadone.Database
import Nethadone.Skb

/-!
# The throttle program

`handlers/throttle.bpf.c.tpl` and the path to it: `applyPolicies` collects
the rules of every policy, the template pastes each rule's texts into C,
and the compiled program runs the rules against a frame in order.

Only the pasted parts are kept as text, since the rest of the template is
fixed. What the compiler makes of a pasted address is a parameter of
`compileRuleBy`; `compileRule` reads the four integer constants that a
dotted decimal gives, and has no program for texts beyond these. A rule
that does not compile makes `clang` reject the whole file. Rules are not
exclusive: every match overwrites the class, so the last one stays
(`throttle_tcClassid`).
-/

namespace Nethadone

/-! ## From policies to rules -/

/-- The rules of all policies, in the order the rows come. Without a result
is a nil pointer dereference, here or in the loop. -/
def applyPolicies (glob : Text → Text → Bool) (ord : RowOrder) (f : ReadFaults)
    (T : PolicyTable) (G : GlobTable) (D : DnsTable) (now : Int) : Option (List IpPolicy) :=
  match getAllPolicies ord f.getAllPolicies T with
  | none => none
  | some policies => (policies.mapM (getIpPolicies glob ord f G D now)).map List.flatten

/-! ## From rules to a program -/

/-- `IP_ADDRESS(o1, o2, o3, o4)`, the sum taken modulo the word. -/
def ipAddress (o1 o2 o3 o4 : BitVec 32) : BitVec 32 :=
  o1 + (o2 <<< 8) + (o3 <<< 16) + (o4 <<< 24)

/-- The constant of `IP_ADDRESS(args)`, for four integer constants without
blanks or suffixes, as in a dotted decimal with commas. Other texts `clang`
may take ("20 ", "20u", an expression) are not read. -/
def expandIpAddress (args : Text) : Option (BitVec 32) :=
  match (args.splitOn ',').map Numeral.cIntConst with
  | [some o1, some o2, some o3, some o4] =>
      some (ipAddress (.ofNat 32 o1) (.ofNat 32 o2) (.ofNat 32 o3) (.ofNat 32 o4))
  | _ => none

/-- `0x{{ .ClassId }}`. -/
def classIdLiteral (classId : Int) : Text := '0' :: 'x' :: Numeral.decimalInt classId

structure Rule where
  saddr : BitVec 32
  daddr : Option (BitVec 32)
  classid : BitVec 32
deriving DecidableEq

section Reading

-- what the compiler makes of a text pasted into `IP_ADDRESS`: its constant, or
-- an error
variable (read : Text → Option (BitVec 32))

/-- `{{ if .SrcIpAddr }}`: an empty text leaves the second condition out. -/
def expandSrc (srcIpAddr : Text) : Option (Option (BitVec 32)) :=
  if srcIpAddr = [] then some none else (read srcIpAddr).map some

def compileRuleBy (p : IpPolicy) : Option Rule :=
  match read p.destIpAddr, expandSrc read p.srcIpAddr,
      Numeral.cIntConst (classIdLiteral p.classId) with
  | some saddr, some daddr, some classid => some ⟨saddr, daddr, .ofNat 32 classid⟩
  | _, _, _ => none

end Reading

abbrev Program := List Rule

/-- The rule of a policy whose texts `expandIpAddress` reads; there is none for
others, though `clang` might take them. -/
def compileRule (p : IpPolicy) : Option Rule := compileRuleBy expandIpAddress p

/-- `rebuildBpf`: without a result, `clang` failed and the process ends. -/
def compile (rules : List IpPolicy) : Option Program := rules.mapM compileRule

/-! ## Running the program -/

structure ThrottleStats where
  scanned : BitVec 32
  throttled : BitVec 32
deriving DecidableEq

def incrementScanned (st : ThrottleStats) : ThrottleStats := { st with scanned := st.scanned + 1 }

def incrementThrottled (st : ThrottleStats) : ThrottleStats :=
  { st with throttled := st.throttled + 1 }

def Rule.holds (r : Rule) (saddr daddr : BitVec 32) : Bool :=
  saddr == r.saddr && (match r.daddr with
    | some d => daddr == d
    | none => true)

def runRules (saddr daddr : BitVec 32) : Program → ThrottleStats × Skb → ThrottleStats × Skb
  | [], s => s
  | r :: rs, (st, skb) =>
      if r.holds saddr daddr then
        runRules saddr daddr rs (incrementThrottled st, { skb with tcClassid := r.classid })
      else runRules saddr daddr rs (st, skb)

def throttle (P : Program) (st : ThrottleStats) (skb : Skb) : ThrottleStats × Skb × TcAction :=
  if skb.protocol ≠ bpfHtons ETH_P_IP then (st, skb, TC_ACT_OK)
  else if ethHlen > skb.data.length then (st, skb, TC_ACT_OK)
  else if ethHlen + ipHlen > skb.data.length then (st, skb, TC_ACT_OK)
  else
    let (st', skb') := runRules (load32 skb.data saddrOff) (load32 skb.data daddrOff) P
      (incrementScanned st, skb)
    (st', skb', TC_ACT_OK)

/-! ## What a program does -/

theorem runRules_tcClassid (saddr daddr : BitVec 32) :
    ∀ (P : Program) (s : ThrottleStats × Skb),
      (runRules saddr daddr P s).2.tcClassid
        = (((P.filter (·.holds saddr daddr)).getLast?).map (·.classid)).getD s.2.tcClassid
  | [], _ => rfl
  | r :: rs, (st, skb) => by
      rw [runRules]
      by_cases hr : r.holds saddr daddr = true
      · rw [if_pos hr, runRules_tcClassid, List.filter_cons, if_pos hr]
        -- a later match hides this one, and only a later match does
        cases hf : rs.filter (·.holds saddr daddr) with
        | nil => rfl
        | cons r' rs' => simp [List.getLast?_cons]
      · rw [if_neg hr, runRules_tcClassid, List.filter_cons, if_neg hr]

theorem throttle_eq (P : Program) (st : ThrottleStats) (skb : Skb) : throttle P st skb
    = if skb.IsIPv4 then
        ((runRules skb.src.word skb.dst.word P (incrementScanned st, skb)).1,
          (runRules skb.src.word skb.dst.word P (incrementScanned st, skb)).2, TC_ACT_OK)
      else (st, skb, TC_ACT_OK) :=
  skb.guards_eq _ _

theorem throttle_action (P : Program) (st : ThrottleStats) (skb : Skb) :
    (throttle P st skb).2.2 = TC_ACT_OK := by
  rw [throttle_eq]
  split <;> rfl

theorem throttle_of_not_ipv4 {P : Program} {st : ThrottleStats} {skb : Skb}
    (h : ¬skb.IsIPv4) : throttle P st skb = (st, skb, TC_ACT_OK) := by
  rw [throttle_eq, if_neg h]

/-- On an IPv4 frame the last rule that holds decides. -/
theorem throttle_tcClassid {P : Program} {st : ThrottleStats} {skb : Skb} (h : skb.IsIPv4) :
    (throttle P st skb).2.1.tcClassid
      = (((P.filter (·.holds skb.src.word skb.dst.word)).getLast?).map (·.classid)).getD
          skb.tcClassid := by
  rw [throttle_eq, if_pos h]
  exact runRules_tcClassid _ _ P _

end Nethadone
