import Nethadone.Database

/-!
# The table after a history of answers

`AddDns` keeps one row for each address and domain, with the second of the
last call; `GetDomainForIP` takes the newest row of the address. A history
of calls whose clock does not go back is read back from the table up to
that second (`filter_replay`): the likely domain of an address is the one
of its last call exactly when no other domain was answered for it within
the same second (`likely_latest_iff`). One DNS message is enough to put two
of them there.
-/

namespace Nethadone

/-- One call of `AddDns` that succeeds, and when it happens. -/
structure DnsCall where
  domain : Text
  addr : RecordIP
  now : Int
deriving DecidableEq

def replay (calls : List DnsCall) : DnsTable :=
  calls.foldl (fun D c => addDns D c.domain c.addr c.now) KeyedTable.empty

def DnsCall.row (c : DnsCall) : DnsProbe :=
  ⟨"0.0.0.0".toList, c.addr.text, c.domain, datetime c.now⟩

theorem DnsCall.key_row (c : DnsCall) :
    c.row.key = (c.addr.text, "0.0.0.0".toList, c.domain) := rfl

/-- The clock does not go back. -/
def ClockForward (calls : List DnsCall) : Prop := calls.Pairwise fun c c' => c.now ≤ c'.now

def callsFor (calls : List DnsCall) (addr : Text) : List DnsCall :=
  calls.filter fun c => c.addr.text = addr

def callsForPair (calls : List DnsCall) (addr domain : Text) : List DnsCall :=
  calls.filter fun c => c.addr.text = addr ∧ c.domain = domain

/-! ## Rows and calls -/

section Rows

variable {calls : List DnsCall} {addr domain : Text} {c : DnsCall}

theorem replay_eq (calls : List DnsCall) :
    replay calls = (calls.map DnsCall.row).foldl KeyedTable.upsert KeyedTable.empty := by
  rw [replay, List.foldl_map]
  rfl

theorem lookup_replay (calls : List DnsCall) (addr domain : Text) :
    (replay calls).lookup (addr, "0.0.0.0".toList, domain)
      = (callsForPair calls addr domain).getLast?.map DnsCall.row := by
  have hkey : (calls.map DnsCall.row).filter
        (fun r => r.key = (addr, "0.0.0.0".toList, domain))
      = (callsForPair calls addr domain).map DnsCall.row := by
    rw [List.filter_map, callsForPair]
    refine congrArg (List.map DnsCall.row) (List.filter_congr fun c _ => ?_)
    rw [Function.comp_apply, decide_eq_decide, DnsCall.key_row]
    simp only [Prod.mk.injEq, true_and]
  rw [replay_eq, KeyedTable.lookup_foldl_upsert, hkey, KeyedTable.lookup_empty, Option.or_none,
    List.getLast?_map]

theorem saddr_of_mem_replay {r : DnsProbe} (hr : r ∈ (replay calls).rows) :
    r.saddr = "0.0.0.0".toList := by
  have hrow : ∀ {rs : List DnsProbe} {D : DnsTable}, (∀ x ∈ rs, x.saddr = "0.0.0.0".toList) →
      (∀ x ∈ D.rows, x.saddr = "0.0.0.0".toList) →
        ∀ x ∈ (rs.foldl KeyedTable.upsert D).rows, x.saddr = "0.0.0.0".toList := by
    intro rs
    induction rs with
    | nil => exact fun _ hD => hD
    | cons r rs ih =>
        intro D hrs hD
        obtain ⟨hr, hrs⟩ := List.forall_mem_cons.mp hrs
        refine ih hrs fun x hx => ?_
        rcases KeyedTable.mem_upsert.mp hx with rfl | ⟨hx, -⟩
        · exact hr
        · exact hD x hx
  rw [replay_eq] at hr
  refine hrow (fun x hx => ?_) (fun x hx => absurd hx List.not_mem_nil) r hr
  obtain ⟨c, -, rfl⟩ := List.mem_map.mp hx
  rfl

/-- The rows of an address and a domain: the row of the last call for the two,
if there was one. -/
theorem filter_replay (calls : List DnsCall) (addr domain : Text) :
    (replay calls).rows.filter (fun r => r.daddr = addr ∧ r.domain = domain)
      = ((callsForPair calls addr domain).getLast?.map DnsCall.row).toList := by
  rw [← lookup_replay, ← KeyedTable.filter_key]
  refine List.filter_congr fun r hr => ?_
  rw [decide_eq_decide]
  simp only [DnsProbe.key, saddr_of_mem_replay hr, Prod.mk.injEq, true_and]

theorem mem_replay_iff {r : DnsProbe} : r ∈ (replay calls).rows ↔
    ∃ c ∈ (callsForPair calls r.daddr r.domain).getLast?, r = c.row := by
  have hmem : r ∈ (replay calls).rows ↔
      r ∈ (replay calls).rows.filter (fun x => x.daddr = r.daddr ∧ x.domain = r.domain) := by
    simp
  rw [hmem, filter_replay, Option.mem_toList, Option.map_eq_some_iff]
  exact exists_congr fun c => and_congr_right fun _ => eq_comm

theorem mem_of_getLast?_callsForPair (h : c ∈ (callsForPair calls addr domain).getLast?) :
    c ∈ calls ∧ c.addr.text = addr ∧ c.domain = domain := by
  have hmem := List.mem_filter.mp (List.mem_of_getLast? h)
  exact ⟨hmem.1, of_decide_eq_true hmem.2⟩

end Rows

/-! ## The last second -/

/-- Whatever order the rows of the query come in, the likely domain of an
address is the one of its last call. -/
def LikelyIsLatest (calls : List DnsCall) (addr : Text) : Prop :=
  ∀ c ∈ (callsFor calls addr).getLast?, ∀ ord, getDomainForIP ord (replay calls) addr = c.domain

/-- In the second of the last call for an address, no other domain was answered
for it. -/
def LastSecondAgrees (calls : List DnsCall) (addr : Text) : Prop :=
  ∀ c ∈ (callsFor calls addr).getLast?, ∀ c' ∈ calls, c'.addr.text = addr →
    datetime c'.now = datetime c.now → c'.domain = c.domain

/-- One row for each address and domain that were answered, stamped with the
second of their last call, and no others. -/
def OneRowPerPair (calls : List DnsCall) : Prop :=
  ∀ addr domain, (replay calls).rows.filter (fun r => r.daddr = addr ∧ r.domain = domain)
    = ((callsForPair calls addr domain).getLast?.map DnsCall.row).toList

theorem datetime_mono {t t' : Int} (h : t ≤ t') : datetime t ≤ datetime t' := by
  unfold datetime second
  omega

theorem ClockForward.le_last {calls : List DnsCall} (h : ClockForward calls) {c : DnsCall}
    (hc : calls.getLast? = some c) : ∀ c' ∈ calls, c'.now ≤ c.now := by
  obtain ⟨front, rfl⟩ := List.getLast?_eq_some_iff.mp hc
  intro c' hc'
  rcases List.mem_append.mp hc' with hfront | hlast
  · exact (List.pairwise_append.mp h).2.2 c' hfront c (List.mem_singleton.mpr rfl)
  · rw [List.mem_singleton.mp hlast]

theorem newest_of_head {r : DnsProbe} {rs : List DnsProbe} (h : ∀ x ∈ rs, x.tstamp ≤ r.tstamp) :
    newest (r :: rs) = some r := by
  rw [newest]
  cases hrs : newest rs with
  | none => rfl
  | some r' =>
      have hmem : r' ∈ rs := by
        cases rs with
        | nil => cases hrs
        | cons x xs =>
            obtain ⟨y, hy, heq, -⟩ := exists_newest (List.mem_cons_self (a := x) (l := xs))
            obtain rfl := Option.some.inj (heq.symm.trans hrs)
            exact hy
      exact if_neg (not_lt.mpr (h r' hmem))

theorem exists_filter_append_eq_cons {α : Type*} [DecidableEq α] {x : α} {l l' : List α}
    (hx : x ∈ l) : ∃ xs, l.filter (fun y => decide (y = x)) ++ l' = x :: xs := by
  have hmem : x ∈ l.filter fun y => decide (y = x) :=
    List.mem_filter.mpr ⟨hx, decide_eq_true rfl⟩
  cases hf : l.filter fun y => decide (y = x) with
  | nil =>
      rw [hf] at hmem
      cases hmem
  | cons y ys =>
      have hy : y ∈ l.filter fun y => decide (y = x) := by
        rw [hf]
        exact List.mem_cons_self ..
      obtain rfl : y = x := of_decide_eq_true (List.mem_filter.mp hy).2
      exact ⟨ys ++ l', rfl⟩

/-- The order that puts one row of the dns table first. -/
def RowOrder.withFirst (r : DnsProbe) : RowOrder where
  policies := id
  globs := id
  probes := fun l => l.filter (fun x => decide (x = r)) ++ l.filter (fun x => !decide (x = r))
  policies_perm := List.Perm.refl
  globs_perm := List.Perm.refl
  probes_perm := List.filter_append_perm fun x => decide (x = r)

/-- A row with the newest stamp of its address is the likely one in the order
that puts it first. -/
theorem getDomainForIP_withFirst {D : DnsTable} {r : DnsProbe} (hr : r ∈ D.rows)
    (hmax : ∀ x ∈ D.rows, x.daddr = r.daddr → x.tstamp ≤ r.tstamp) :
    getDomainForIP (RowOrder.withFirst r) D r.daddr = r.domain := by
  obtain ⟨rs, hrs⟩ : ∃ rs, (RowOrder.withFirst r).probes (D.rows.filter fun x => x.daddr = r.daddr)
      = r :: rs :=
    exists_filter_append_eq_cons (List.mem_filter.mpr ⟨hr, decide_eq_true rfl⟩)
  have hle : ∀ x ∈ rs, x.tstamp ≤ r.tstamp := by
    intro x hx
    have hx : x ∈ (RowOrder.withFirst r).probes (D.rows.filter fun x => x.daddr = r.daddr) := by
      rw [hrs]
      exact List.mem_cons_of_mem _ hx
    have hx := List.mem_filter.mp (((RowOrder.withFirst r).probes_perm _).mem_iff.mp hx)
    exact hmax x hx.1 (of_decide_eq_true hx.2)
  rw [getDomainForIP, hrs, newest_of_head hle]

section Likely

variable {calls : List DnsCall} {addr : Text} {c : DnsCall}

theorem le_last_callsFor (h : ClockForward calls) (hc : (callsFor calls addr).getLast? = some c)
    {c' : DnsCall} (hc' : c' ∈ calls) (ha : c'.addr.text = addr) : c'.now ≤ c.now :=
  ClockForward.le_last (List.Pairwise.filter _ h) hc c'
    (List.mem_filter.mpr ⟨hc', decide_eq_true ha⟩)

/-- The row of a call is not older than the call. -/
theorem exists_row_of_call (h : ClockForward calls) (hc : c ∈ calls) :
    ∃ r ∈ (replay calls).rows, r.daddr = c.addr.text ∧ r.domain = c.domain
      ∧ datetime c.now ≤ r.tstamp := by
  have hmem : c ∈ callsForPair calls c.addr.text c.domain :=
    List.mem_filter.mpr ⟨hc, decide_eq_true ⟨rfl, rfl⟩⟩
  obtain ⟨l, hl⟩ := Option.isSome_iff_exists.mp
    (List.getLast?_isSome.mpr (List.ne_nil_of_mem hmem))
  obtain ⟨-, haddr, hdom⟩ := mem_of_getLast?_callsForPair hl
  refine ⟨l.row, mem_replay_iff.mpr ⟨l, ?_, rfl⟩, haddr, hdom, ?_⟩
  · show l ∈ (callsForPair calls l.addr.text l.domain).getLast?
    rw [haddr, hdom]
    exact hl
  · exact datetime_mono (ClockForward.le_last (List.Pairwise.filter _ h) hl c hmem)

theorem exists_call_of_row {r : DnsProbe} (hr : r ∈ (replay calls).rows) :
    ∃ c ∈ calls, c.addr.text = r.daddr ∧ c.domain = r.domain ∧ r.tstamp = datetime c.now := by
  obtain ⟨c, hc, heq⟩ := mem_replay_iff.mp hr
  obtain ⟨hmem, haddr, hdom⟩ := mem_of_getLast?_callsForPair hc
  exact ⟨c, hmem, haddr, hdom, congrArg DnsProbe.tstamp heq⟩

theorem likelyIsLatest_of_agrees (h : ClockForward calls) (hagree : LastSecondAgrees calls addr) :
    LikelyIsLatest calls addr := by
  intro c hc ord
  obtain ⟨hmem, haddr⟩ := List.mem_filter.mp (List.mem_of_getLast? hc)
  have haddr : c.addr.text = addr := of_decide_eq_true haddr
  obtain ⟨r, hr, hdaddr, -, hle⟩ := exists_row_of_call h hmem
  obtain ⟨r', hr', hdaddr', hdom', hle'⟩ := getDomainForIP_newest ord hr (hdaddr.trans haddr)
  obtain ⟨c', hc', ha', hd', hstamp⟩ := exists_call_of_row hr'
  have haddr' : c'.addr.text = addr := ha'.trans hdaddr'
  -- the newest row is from the second of the last call
  have hsame : datetime c'.now = datetime c.now := by
    refine le_antisymm (datetime_mono (le_last_callsFor h hc hc' haddr')) ?_
    rw [← hstamp]
    exact hle.trans hle'
  rw [← hdom', ← hd', hagree c hc c' hc' haddr' hsame]

theorem agrees_of_likelyIsLatest (h : ClockForward calls) (hlate : LikelyIsLatest calls addr) :
    LastSecondAgrees calls addr := by
  intro c hc c' hc' haddr' hsame
  obtain ⟨r, hr, hdaddr, hdom, hle⟩ := exists_row_of_call h hc'
  have hmax : ∀ x ∈ (replay calls).rows, x.daddr = r.daddr → x.tstamp ≤ r.tstamp := by
    intro x hx hxa
    obtain ⟨cx, hcx, hax, -, hstamp⟩ := exists_call_of_row hx
    have hcxa : cx.addr.text = addr := by rw [hax, hxa, hdaddr, haddr']
    rw [hstamp]
    calc datetime cx.now ≤ datetime c.now := datetime_mono (le_last_callsFor h hc hcx hcxa)
      _ = datetime c'.now := hsame.symm
      _ ≤ r.tstamp := hle
  have hfirst := getDomainForIP_withFirst hr hmax
  rw [hdaddr, haddr', hlate c hc, hdom] at hfirst
  exact hfirst.symm

end Likely

/-- The table has one row for each pair answered. The likely domain of an
address is the latest one exactly when no other domain was answered for it
in the second of its last call. -/
theorem likely_latest_iff (calls : List DnsCall) (h : ClockForward calls) :
    OneRowPerPair calls
      ∧ ∀ addr, LikelyIsLatest calls addr ↔ LastSecondAgrees calls addr :=
  ⟨filter_replay calls, fun _ => ⟨agrees_of_likelyIsLatest h, likelyIsLatest_of_agrees h⟩⟩

/-! ## Two domains of one server -/

def cdnServer : IPv4 := ⟨151, 101, 1, 140⟩

/-- The server is answered for one domain, and a while later for another. -/
def cdnCalls (later : Int) : List DnsCall :=
  [⟨"cdn.example.net.".toList, some cdnServer, 0⟩,
   ⟨"www.reddit.com.".toList, some cdnServer, later⟩]

theorem likely_latest_minute :
    OneRowPerPair (cdnCalls minute) ∧ LikelyIsLatest (cdnCalls minute) cdnServer.text := by
  obtain ⟨hrows, hlikely⟩ := likely_latest_iff (cdnCalls minute) (by unfold ClockForward; decide)
  refine ⟨hrows, (hlikely cdnServer.text).mpr fun c hc c' hc' _ hsame => ?_⟩
  obtain rfl : (⟨"www.reddit.com.".toList, some cdnServer, minute⟩ : DnsCall) = c :=
    Option.some.inj hc
  rcases List.mem_cons.mp hc' with rfl | hc'
  · exact absurd hsame (by decide)
  · rw [List.mem_singleton.mp hc']

/-- Within one second the older answer is taken for the likely one when its row
comes first, as it does in the order of the domains. -/
theorem burst_hides_latest :
    ClockForward (cdnCalls 1)
      ∧ (callsFor (cdnCalls 1) cdnServer.text).getLast?
          = some ⟨"www.reddit.com.".toList, some cdnServer, 1⟩
      ∧ getDomainForIP RowOrder.stored (replay (cdnCalls 1)) cdnServer.text
          = "cdn.example.net.".toList
      ∧ ¬LikelyIsLatest (cdnCalls 1) cdnServer.text := by
  have hlast : (callsFor (cdnCalls 1) cdnServer.text).getLast?
      = some ⟨"www.reddit.com.".toList, some cdnServer, 1⟩ := by decide
  have hlikely : getDomainForIP RowOrder.stored (replay (cdnCalls 1)) cdnServer.text
      = "cdn.example.net.".toList := by decide
  refine ⟨by unfold ClockForward; decide, hlast, hlikely, fun h => ?_⟩
  have hdom := h _ hlast RowOrder.stored
  rw [hlikely] at hdom
  revert hdom
  decide

end Nethadone
