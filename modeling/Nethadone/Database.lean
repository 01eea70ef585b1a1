import Mathlib.Data.List.Dedup
import Mathlib.Data.Rat.Defs
import Nethadone.Models

/-!
# The database package

The queries of `database/database.go`, `database/dns.go` and
`database/prom.go` over explicit tables. A call that can fail takes the
outcome as an argument (`fails`): the source answers a failed read with a
nil pointer, which is also what it answers when there is no row, and a
failed write leaves the table alone and returns an error.

`glob` stands for SQLite's `GLOB` operator, the pattern first. Rows of a
query without `ORDER BY` come in whatever order `ord` gives them.
-/

namespace Nethadone

/-! ## Glob groups and DNS answers -/

def getGlob (fails : Bool) (G : GlobTable) (name : Text) : Option GlobGroup :=
  if fails then none else G.lookup name

def getGlobs (ord : RowOrder) (G : GlobTable) : List GlobGroup :=
  ord.globs G.rows

def addGlob (G : GlobTable) (g : GlobGroup) : GlobTable :=
  (G.insert? g).getD G

/-- A group stays as it was added. -/
theorem lookup_addGlob {G : GlobTable} {name : Text} {g : GlobGroup} (h : G.lookup name = some g)
    (g' : GlobGroup) : (addGlob G g').lookup name = some g := by
  rw [addGlob, KeyedTable.insert?]
  split
  · exact h
  · rename_i hfree
    rw [Option.getD_some, KeyedTable.lookup_upsert, if_neg, h]
    rintro rfl
    obtain ⟨hg, hname⟩ := KeyedTable.lookup_eq_some.mp h
    exact hfree (List.mem_map.mpr ⟨g, hg, hname⟩)

theorem lookup_addGlob_isSome {G : GlobTable} {name : Text} (h : (G.lookup name).isSome)
    (g : GlobGroup) : ((addGlob G g).lookup name).isSome := by
  obtain ⟨g', hg'⟩ := Option.isSome_iff_exists.mp h
  rw [lookup_addGlob hg']
  rfl

theorem mem_addGlob {G : GlobTable} {g g' : GlobGroup} (h : g' ∈ (addGlob G g).rows) :
    g' = g ∨ g' ∈ G.rows := by
  rw [addGlob, KeyedTable.insert?] at h
  split at h
  · exact Or.inr h
  · exact (KeyedTable.mem_upsert.mp h).imp_right And.left

def addDns (D : DnsTable) (domain : Text) (ipaddr : RecordIP) (now : Int) : DnsTable :=
  D.upsert
    { saddr := "0.0.0.0".toList
      daddr := ipaddr.text
      domain := domain
      tstamp := datetime now }

/-- A row stays, or is there with the stamp of the write. -/
theorem exists_addDns {D : DnsTable} {r : DnsProbe} (hr : r ∈ D.rows) (domain : Text)
    (ipaddr : RecordIP) (now : Int) :
    ∃ r' ∈ (addDns D domain ipaddr now).rows, r'.key = r.key
      ∧ (r' = r ∨ r'.tstamp = datetime now) := by
  by_cases hkey : r.key = (ipaddr.text, "0.0.0.0".toList, domain)
  · exact ⟨_, KeyedTable.mem_upsert.mpr (Or.inl rfl), hkey.symm, Or.inr rfl⟩
  · exact ⟨r, KeyedTable.mem_upsert.mpr (Or.inr ⟨hr, hkey⟩), rfl, Or.inl rfl⟩

/-- `ORDER BY tstamp DESC LIMIT 1`: the first of the newest rows. -/
def newest : List DnsProbe → Option DnsProbe
  | [] => none
  | r :: rs =>
      match newest rs with
      | some r' => if r.tstamp < r'.tstamp then some r' else some r
      | none => some r

theorem exists_newest : ∀ {rs : List DnsProbe} {r : DnsProbe}, r ∈ rs →
    ∃ r' ∈ rs, newest rs = some r' ∧ ∀ x ∈ rs, x.tstamp ≤ r'.tstamp
  | [r₀], r, _ => ⟨r₀, List.mem_cons_self .., rfl, by simp⟩
  | r₀ :: r₁ :: rs, r, _ => by
      obtain ⟨r', hr', heq, hmax⟩ := exists_newest (List.mem_cons_self (a := r₁) (l := rs))
      rw [newest, heq]
      simp only
      split
      · refine ⟨r', List.mem_cons_of_mem _ hr', rfl, fun x hx => ?_⟩
        rcases List.mem_cons.mp hx with rfl | hx
        · omega
        · exact hmax x hx
      · refine ⟨r₀, List.mem_cons_self .., rfl, fun x hx => ?_⟩
        rcases List.mem_cons.mp hx with rfl | hx
        · exact le_refl _
        · have := hmax x hx
          omega

/-- The domain of a newest row for `ip`, the empty string when there is none.
Rows with equal stamps are in no particular order. -/
def getDomainForIP (ord : RowOrder) (D : DnsTable) (ip : Text) : Text :=
  match newest (ord.probes (D.rows.filter fun r => r.daddr = ip)) with
  | some r => r.domain
  | none => []

theorem getDomainForIP_newest (ord : RowOrder) {D : DnsTable} {a : Text} {r : DnsProbe}
    (hr : r ∈ D.rows) (ha : r.daddr = a) :
    ∃ r' ∈ D.rows, r'.daddr = a ∧ r'.domain = getDomainForIP ord D a ∧ r.tstamp ≤ r'.tstamp := by
  have hmem : ∀ x, x ∈ ord.probes (D.rows.filter fun r => r.daddr = a)
      ↔ x ∈ D.rows ∧ x.daddr = a := by
    intro x
    rw [(ord.probes_perm _).mem_iff, List.mem_filter, decide_eq_true_eq]
  obtain ⟨r', hr', hnew, hmax⟩ := exists_newest ((hmem r).mpr ⟨hr, ha⟩)
  refine ⟨r', ((hmem r').mp hr').1, ((hmem r').mp hr').2, ?_, hmax r ((hmem r).mpr ⟨hr, ha⟩)⟩
  rw [getDomainForIP, hnew]

theorem getDomainForIP_cases (ord : RowOrder) (D : DnsTable) (a : Text) :
    getDomainForIP ord D a = [] ∨ ∃ r ∈ D.rows, r.domain = getDomainForIP ord D a := by
  by_cases h : ∃ r ∈ D.rows, r.daddr = a
  · obtain ⟨r, hr, ha⟩ := h
    obtain ⟨r', hr', -, hdom, -⟩ := getDomainForIP_newest ord hr ha
    exact Or.inr ⟨r', hr', hdom⟩
  · have hnil : D.rows.filter (fun r => r.daddr = a) = [] := by
      rw [List.filter_eq_nil_iff]
      intro r hr ha
      exact h ⟨r, hr, of_decide_eq_true ha⟩
    have hord : ord.probes [] = [] := (ord.probes_perm []).eq_nil
    rw [getDomainForIP, hnil, hord]
    exact Or.inl rfl

/-- `tstamp between date('now', '-5 days') and date('now', '1 days')`. The
comparison is on texts: a stamp has a time of day after its date, so the
upper bound excludes tomorrow altogether. -/
def recentProbe (now : Int) (r : DnsProbe) : Prop :=
  dayOf now - 5 ≤ dayOf r.tstamp ∧ dayOf r.tstamp ≤ dayOf now

instance (now : Int) (r : DnsProbe) : Decidable (recentProbe now r) :=
  inferInstanceAs (Decidable (_ ∧ _))

theorem recentProbe_of_day {now : Int} {r : DnsProbe} (h : dayOf r.tstamp = dayOf now) :
    recentProbe now r := by
  unfold recentProbe
  omega

def getIPsMatchingGlob (glob : Text → Text → Bool) (ord : RowOrder) (fails : Bool)
    (D : DnsTable) (g : GlobGroup) (now : Int) : Option (List Text) :=
  if fails then none
  else some ((ord.probes (D.rows.filter fun r =>
    glob g.glob r.domain ∧ recentProbe now r)).map (·.daddr)).dedup

theorem mem_getIPsMatchingGlob {glob : Text → Text → Bool} {ord : RowOrder}
    {D : DnsTable} {g : GlobGroup} {now : Int} {ips : List Text}
    (h : getIPsMatchingGlob glob ord false D g now = some ips) (a : Text) :
    a ∈ ips ↔ ∃ r ∈ D.rows, r.daddr = a ∧ glob g.glob r.domain = true ∧ recentProbe now r := by
  rw [getIPsMatchingGlob, if_neg (by decide), Option.some.injEq] at h
  subst h
  rw [List.mem_dedup, ((ord.probes_perm _).map _).mem_iff]
  simp only [List.mem_map, List.mem_filter, decide_eq_true_eq]
  constructor
  · rintro ⟨r, ⟨hr, hm⟩, rfl⟩; exact ⟨r, hr, rfl, hm⟩
  · rintro ⟨r, hr, rfl, hm⟩; exact ⟨r, ⟨hr, hm⟩, rfl⟩

theorem exists_getIPsMatchingGlob_iff {glob : Text → Text → Bool} {ord : RowOrder}
    {D : DnsTable} {g : GlobGroup} {now : Int} {a : Text} :
    (∃ ips ∈ getIPsMatchingGlob glob ord false D g now, a ∈ ips) ↔
      ∃ r ∈ D.rows, r.daddr = a ∧ glob g.glob r.domain = true ∧ recentProbe now r := by
  constructor
  · rintro ⟨ips, hips, ha⟩
    exact (mem_getIPsMatchingGlob hips a).mp ha
  · intro h
    exact ⟨_, rfl, (mem_getIPsMatchingGlob rfl a).mpr h⟩

/-! ## Policies -/

def getPolicy (fails : Bool) (T : PolicyTable) (src_ip glob_group : Text) : Option Policy :=
  if fails then none else T.lookup ⟨src_ip, glob_group⟩

def getAllPolicies (ord : RowOrder) (fails : Bool) (T : PolicyTable) : Option (List Policy) :=
  if fails then none else some (ord.policies T.rows)

/-- The table after the call, and whether the call returned an error. -/
def updatePolicy (fails : Bool) (T : PolicyTable) (src_ip glob_group : Text) (cls : Int)
    (now : Int) : PolicyTable × Bool :=
  if fails then (T, true)
  else (T.upsert
    { srcIp := src_ip, globGroup := glob_group, cls := cls, tstamp := datetime now }, false)

def deletePolicy (fails : Bool) (T : PolicyTable) (src_ip glob_group : Text) :
    PolicyTable × Bool :=
  if fails then (T, true) else (T.erase ⟨src_ip, glob_group⟩, false)

structure ReadFaults where
  getAllPolicies : Bool
  getGlob : Policy → Bool
  getIPsMatchingGlob : Policy → Bool

def ReadFaults.none : ReadFaults := ⟨false, fun _ => false, fun _ => false⟩

/-- `strings.ReplaceAll` for one-character strings. -/
def replaceAll (old new : Char) (s : Text) : Text :=
  s.map fun c => if c = old then new else c

def getIpPolicies (glob : Text → Text → Bool) (ord : RowOrder) (f : ReadFaults)
    (G : GlobTable) (D : DnsTable) (now : Int) (p : Policy) : Option (List IpPolicy) :=
  match getGlob (f.getGlob p) G p.globGroup with
  | none => none
  | some gg =>
      match getIPsMatchingGlob glob ord (f.getIPsMatchingGlob p) D gg now with
      | none => none
      | some ipstr => some (ipstr.map fun ip =>
          { srcIpAddr := replaceAll '.' ',' p.srcIp
            destIpAddr := replaceAll '.' ',' ip
            classId := p.cls })

/-! ## Usage, as Prometheus reports it -/

structure Sample where
  srcIp : Text
  glob : Text
  value : ℚ
deriving DecidableEq

/-- What Prometheus has: the result of
`sum by (src_ip, glob) (rate(ip_pair_vic_bytes_total{glob!=""}[rate m]))`
at an instant, or nothing when the query fails. -/
structure PromDb where
  sumRate : Int → Int → Option (List Sample)

/-- The comparison ends the query, so only series that exist can be in the
answer. A failed query is answered with an empty vector. -/
def getSrcGlobUsage (db : PromDb) (rate mins k : Int) (above : Bool) (now : Int) :
    List Sample :=
  match db.sumRate rate (now - mins * minute) with
  | none => []
  | some vec => vec.filter fun s => if above then (k : ℚ) < s.value else s.value < (k : ℚ)

end Nethadone
