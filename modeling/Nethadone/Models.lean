import Mathlib.Data.List.Basic
import Nethadone.KeyedTable
import Nethadone.Numeral

/-!
# Configuration, rows and addresses

The data of `config/config.go` and `models/models.go`, and the two
notions the rest is written in: instants as SQLite stamps them, and IPv4
addresses with the text Go prints for them.

Go's `int` fields are integers here: the configured counts stay far below
any word size, since one HTB class per count is created at startup.
Configuration that only names files, interfaces and polling intervals is
not modelled.
-/

namespace Nethadone

abbrev Text := List Char

/-! ## Instants

An instant is an integer, the nanoseconds since the epoch. -/

def second : Int := 1000000000

def minute : Int := 60 * second

def day : Int := 86400 * second

/-- SQLite's `datetime()`: the current instant, cut to the second. -/
def datetime (now : Int) : Int := now / second * second

/-- The calendar day of an instant, as `date()` tells it (UTC). -/
def dayOf (t : Int) : Int := t / day

theorem datetime_le (now : Int) : datetime now ≤ now := by
  unfold datetime second
  omega

theorem dayOf_mono {t t' : Int} (h : t ≤ t') : dayOf t ≤ dayOf t' :=
  Int.ediv_le_ediv (by decide) h

theorem dayOf_datetime (now : Int) : dayOf (datetime now) = dayOf now := by
  unfold dayOf datetime day second
  omega

/-! ## Configuration -/

structure Config where
  numQdiscClasses : Int
  wanMbps : Int
  startRateKbs : Int
  maxDelayMs : Int
  minRateKbs : Int
  activityThresholdBytes : Int
  policyBackoffInterval : Int
deriving Repr, DecidableEq

def baseConfig : Config where
  numQdiscClasses := 5
  wanMbps := 100
  startRateKbs := 1000
  maxDelayMs := 50
  minRateKbs := 50
  activityThresholdBytes := 100
  policyBackoffInterval := 3 * minute

/-! ## Addresses -/

structure IPv4 where
  o1 : BitVec 8
  o2 : BitVec 8
  o3 : BitVec 8
  o4 : BitVec 8
deriving Repr, DecidableEq

namespace IPv4

def numerals (ip : IPv4) : List Text :=
  [Numeral.decimal ip.o1.toNat, Numeral.decimal ip.o2.toNat,
   Numeral.decimal ip.o3.toNat, Numeral.decimal ip.o4.toNat]

/-- `net.IP.String` of a four-byte address. -/
def text (ip : IPv4) : Text := ['.'].intercalate ip.numerals

theorem numerals_injective {a b : IPv4} (h : a.numerals = b.numerals) : a = b := by
  obtain ⟨a1, a2, a3, a4⟩ := a
  obtain ⟨b1, b2, b3, b4⟩ := b
  simp only [numerals, List.cons.injEq, and_true] at h
  obtain ⟨h1, h2, h3, h4⟩ := h
  rw [BitVec.eq_of_toNat_eq (Numeral.decimal_injective h1),
    BitVec.eq_of_toNat_eq (Numeral.decimal_injective h2),
    BitVec.eq_of_toNat_eq (Numeral.decimal_injective h3),
    BitVec.eq_of_toNat_eq (Numeral.decimal_injective h4)]

theorem isDigit_of_mem_numerals {ip : IPv4} {t : Text} (ht : t ∈ ip.numerals) :
    ∀ c ∈ t, c.isDigit = true := by
  simp only [numerals, List.mem_cons, List.not_mem_nil, or_false] at ht
  rcases ht with rfl | rfl | rfl | rfl <;> exact fun c hc => Numeral.isDigit_of_mem_decimal hc

theorem notMem_numerals {ip : IPv4} {c : Char} (hc : c.isDigit = false) :
    ∀ t ∈ ip.numerals, c ∉ t := fun t ht hct => by
  rw [isDigit_of_mem_numerals ht c hct] at hc
  cases hc

theorem splitOn_text (ip : IPv4) : ip.text.splitOn '.' = ip.numerals :=
  List.splitOn_intercalate '.' (notMem_numerals (by decide)) (by simp [numerals])

theorem text_injective {a b : IPv4} (h : a.text = b.text) : a = b := by
  apply numerals_injective
  rw [← splitOn_text a, h, splitOn_text]

end IPv4

/-- The address an A record carries, as the DNS decoder hands it over: a
record of length zero has none. -/
abbrev RecordIP := Option IPv4

/-- `net.IP.String`. -/
def RecordIP.text : RecordIP → Text
  | some ip => ip.text
  | none => "<nil>".toList

/-! ## Rows -/

structure DnsProbe where
  saddr : Text
  daddr : Text
  domain : Text
  tstamp : Int
deriving DecidableEq

structure GlobGroup where
  name : Text
  description : Text
  glob : Text
  device : Text
deriving DecidableEq

structure SrcGlob where
  src : Text
  glob : Text
deriving DecidableEq

structure Policy where
  srcIp : Text
  globGroup : Text
  cls : Int
  tstamp : Int
deriving DecidableEq

/-- One throttle rule for the template. Addresses are comma separated. -/
structure IpPolicy where
  srcIpAddr : Text
  destIpAddr : Text
  classId : Int
deriving DecidableEq

/-! ## Tables -/

def DnsProbe.key (r : DnsProbe) : Text × Text × Text := (r.daddr, r.saddr, r.domain)

def Policy.key (p : Policy) : SrcGlob := ⟨p.srcIp, p.globGroup⟩

abbrev DnsTable := KeyedTable DnsProbe.key

abbrev GlobTable := KeyedTable GlobGroup.name

abbrev PolicyTable := KeyedTable Policy.key

/-- The order in which SQLite returns the rows of a query that asks for
none: any rearrangement of the rows. -/
structure RowOrder where
  policies : List Policy → List Policy
  globs : List GlobGroup → List GlobGroup
  probes : List DnsProbe → List DnsProbe
  policies_perm : ∀ l, (policies l).Perm l
  globs_perm : ∀ l, (globs l).Perm l
  probes_perm : ∀ l, (probes l).Perm l

def RowOrder.stored : RowOrder where
  policies := id
  globs := id
  probes := id
  policies_perm := List.Perm.refl
  globs_perm := List.Perm.refl
  probes_perm := List.Perm.refl

end Nethadone
