import Mathlib.Data.List.Find
import Nethadone.Bandwidth
import Nethadone.DnsHistory
import Nethadone.Globs

/-!
# The case of letters in names

DNS names do not depend on the case of their letters, and a resolver may
answer with any. Nothing on the way from an answer to a group's addresses
folds it: the table keeps one row for each spelling, and both matchers
compare letters as they are.

So what a name's case may change is what the patterns make of it. Two
histories of answers that differ in nothing but case lead to the same
addresses and the same groups, for every such history, exactly when each
pattern of the table, in both of its readings, has at each place a set of
characters closed under case, or matches nothing (`letter_case_iff`). A
plain letter is not such a set.
-/

namespace Nethadone

open Wildcard

def sameLetter (c c' : Char) : Prop := c.toLower = c'.toLower

/-- Equal but for the case of ASCII letters. -/
def SameLetters (d d' : Text) : Prop := List.Forall₂ sameLetter d d'

/-- The same answer at the same time, in another spelling. -/
def DnsCall.Respelled (c c' : DnsCall) : Prop :=
  c.addr = c'.addr ∧ c.now = c'.now ∧ SameLetters c.domain c'.domain

/-- The calls come one after the other, no two in one second. -/
def DistinctSeconds (calls : List DnsCall) : Prop :=
  calls.Pairwise fun c c' => datetime c.now < datetime c'.now

/-- `GetIPsMatchingGlob` returns the address. -/
def Selected (ord : RowOrder) (D : DnsTable) (now : Int) (g : GlobGroup) (addr : Text) : Prop :=
  ∃ ips ∈ getIPsMatchingGlob sqliteGlob ord false D g now, addr ∈ ips

/-- Respelling the names of a history changes neither which addresses a group
has nor which group an address is credited to. -/
def CaseIrrelevant (G : GlobTable) : Prop :=
  ∀ calls calls', List.Forall₂ DnsCall.Respelled calls calls' → DistinctSeconds calls →
    ∀ now, (∀ c ∈ calls, c.now ≤ now) → ∀ ord,
      (∀ g ∈ G.rows, ∀ addr, Selected ord (replay calls) now g addr
          ↔ Selected ord (replay calls') now g addr)
        ∧ ∀ addr, creditedGroup filepathMatch ord G (replay calls) addr
          = creditedGroup filepathMatch ord G (replay calls') addr

/-- The reading matches nothing, or has at each place a set of characters that
is closed under case. -/
def FoldsCase (wild : Char → Bool) (r : Reading) : Prop :=
  MatchesNothing wild r ∨ ∃ ts ∈ r, Folds sameLetter wild ts

/-! ## One name -/

theorem toLower_eq_slash {c : Char} (h : c.toLower = '/') : c = '/' := by
  unfold Char.toLower at h
  split at h
  · rename_i hup
    have hlow : (65 : Nat) ≤ c.val.toNat := hup.1
    have hhigh : c.val.toNat ≤ 90 := hup.2
    have hval : (c.val + ('a'.val - 'A'.val)).toNat = 47 :=
      congrArg (fun c : Char => c.val.toNat) h
    have hshift : ('a'.val - 'A'.val).toNat = 32 := by decide
    rw [UInt32.toNat_add, hshift] at hval
    omega
  · exact h

theorem notSlash_sameLetter {c c' : Char} (h : sameLetter c c') : notSlash c = notSlash c' := by
  have himp : ∀ {c c' : Char}, sameLetter c c' → c = '/' → c' = '/' := fun {c c'} h hc =>
    toLower_eq_slash (h.symm.trans (by rw [hc]; rfl))
  rw [Bool.eq_iff_iff, notSlash, notSlash, bne_iff_ne, bne_iff_ne]
  exact not_congr ⟨himp h, himp h.symm⟩

theorem foldsCase_iff {wild : Char → Bool}
    (hw : ∀ c c', sameLetter c c' → wild c = wild c') (r : Reading) :
    (∀ d d', SameLetters d d' → matchReading wild r d = matchReading wild r d')
      ↔ FoldsCase wild r := by
  cases r with
  | none =>
      refine iff_of_true (fun _ _ _ => rfl) (Or.inl fun ts hts => ?_)
      cases hts
  | some ts =>
      simp only [FoldsCase, MatchesNothing, Option.mem_def, Option.some.injEq, forall_eq',
        exists_eq_left']
      exact folds_iff (R := sameLetter) (fun _ => rfl) hw

theorem sqliteGlob_foldsCase (pattern : Text) :
    (∀ d d', SameLetters d d' → sqliteGlob pattern d = sqliteGlob pattern d')
      ↔ FoldsCase anyChar (sqlReading pattern) :=
  foldsCase_iff (fun _ _ _ => rfl) _

theorem filepathMatch_foldsCase (pattern : Text) :
    (∀ d d', SameLetters d d' → filepathMatch pattern d = filepathMatch pattern d')
      ↔ FoldsCase notSlash (goReading pattern) :=
  foldsCase_iff (fun _ _ => notSlash_sameLetter) _

/-! ## Histories -/

theorem DistinctSeconds.clockForward {calls : List DnsCall} (h : DistinctSeconds calls) :
    ClockForward calls :=
  h.imp fun {c c'} hlt => by
    by_contra hgt
    exact absurd (datetime_mono (le_of_not_ge hgt)) (not_le.mpr hlt)

section Histories

variable {calls calls' : List DnsCall} {ord : RowOrder} {G : GlobTable} {g : GlobGroup}
  {now : Int} {addr : Text}

theorem selected_iff (h : ClockForward calls) (hnow : ∀ c ∈ calls, c.now ≤ now) :
    Selected ord (replay calls) now g addr ↔ ∃ c ∈ calls, c.addr.text = addr
      ∧ sqliteGlob g.glob c.domain = true ∧ dayOf now - 5 ≤ dayOf c.now := by
  rw [Selected, exists_getIPsMatchingGlob_iff]
  constructor
  · rintro ⟨r, hr, rfl, hglob, hrec⟩
    obtain ⟨c, hc, haddr, hdom, hstamp⟩ := exists_call_of_row hr
    have hday := hrec.1
    rw [hstamp, dayOf_datetime] at hday
    exact ⟨c, hc, haddr, by rw [hdom]; exact hglob, hday⟩
  · rintro ⟨c, hc, rfl, hglob, hday⟩
    obtain ⟨r, hr, hdaddr, hdom, hle⟩ := exists_row_of_call h hc
    obtain ⟨c', hc', -, -, hstamp⟩ := exists_call_of_row hr
    have hold := dayOf_mono hle
    rw [dayOf_datetime] at hold
    have hnew : dayOf r.tstamp ≤ dayOf now := by
      rw [hstamp, dayOf_datetime]
      exact dayOf_mono (hnow c' hc')
    exact ⟨r, hr, hdaddr, by rw [hdom]; exact hglob, hday.trans hold, hnew⟩

theorem getDomainForIP_replay (h : DistinctSeconds calls) (ord : RowOrder) (addr : Text) :
    getDomainForIP ord (replay calls) addr
      = ((callsFor calls addr).getLast?.map DnsCall.domain).getD [] := by
  cases hl : (callsFor calls addr).getLast? with
  | none =>
      have hrows : (replay calls).rows.filter (fun r => r.daddr = addr) = [] := by
        rw [List.filter_eq_nil_iff]
        intro r hr haddr
        obtain ⟨c, hc, hca, -, -⟩ := exists_call_of_row hr
        have hmem : c ∈ callsFor calls addr :=
          List.mem_filter.mpr ⟨hc, decide_eq_true (hca.trans (of_decide_eq_true haddr))⟩
        rw [List.getLast?_eq_none_iff.mp hl] at hmem
        cases hmem
      rw [getDomainForIP, hrows, (ord.probes_perm []).eq_nil]
      rfl
  | some c =>
      refine likelyIsLatest_of_agrees h.clockForward (fun c hc c' hc' haddr hsame => ?_) c hl ord
      -- the last call for the address is alone in its second
      by_contra hne
      have hc' : c' ∈ callsFor calls addr := List.mem_filter.mpr ⟨hc', decide_eq_true haddr⟩
      obtain ⟨front, hfront⟩ := List.getLast?_eq_some_iff.mp hc
      have hpair : (callsFor calls addr).Pairwise fun c c' => datetime c.now < datetime c'.now :=
        List.Pairwise.filter _ h
      rw [hfront] at hc' hpair
      rcases List.mem_append.mp hc' with hin | hin
      · have := (List.pairwise_append.mp hpair).2.2 c' hin c (List.mem_singleton.mpr rfl)
        omega
      · exact hne (by rw [List.mem_singleton.mp hin])

theorem DnsCall.Respelled.symm {c c' : DnsCall} (h : c.Respelled c') : c'.Respelled c :=
  ⟨h.1.symm, h.2.1.symm, (h.2.2.imp fun _ _ hc => Eq.symm hc).flip⟩

theorem respelled_flip (h : List.Forall₂ DnsCall.Respelled calls calls') :
    List.Forall₂ DnsCall.Respelled calls' calls :=
  (h.imp fun _ _ hc => hc.symm).flip

theorem exists_respelled (h : List.Forall₂ DnsCall.Respelled calls calls') {c : DnsCall}
    (hc : c ∈ calls) : ∃ c' ∈ calls', c.Respelled c' := by
  induction h with
  | nil => cases hc
  | cons hcc _ ih =>
      rcases List.mem_cons.mp hc with rfl | hc
      · exact ⟨_, List.mem_cons_self .., hcc⟩
      · obtain ⟨c', hc', hr⟩ := ih hc
        exact ⟨c', List.mem_cons_of_mem _ hc', hr⟩

theorem DistinctSeconds.respelled (h : List.Forall₂ DnsCall.Respelled calls calls')
    (hd : DistinctSeconds calls) : DistinctSeconds calls' := by
  induction h with
  | nil => exact hd
  | cons hc hrest ih =>
      obtain ⟨hfirst, hd⟩ := List.pairwise_cons.mp hd
      refine List.pairwise_cons.mpr ⟨fun x' hx' => ?_, ih hd⟩
      obtain ⟨x, hx, hxx⟩ := exists_respelled (respelled_flip hrest) hx'
      rw [← hc.2.1, hxx.2.1]
      exact hfirst x hx

theorem callsFor_respelled (h : List.Forall₂ DnsCall.Respelled calls calls') (addr : Text) :
    List.Forall₂ DnsCall.Respelled (callsFor calls addr) (callsFor calls' addr) := by
  refine List.rel_filter (fun {c c'} hc => ?_) h
  show decide (c.addr.text = addr) = true ↔ decide (c'.addr.text = addr) = true
  rw [hc.1]

theorem sameLetters_last (h : List.Forall₂ DnsCall.Respelled calls calls') :
    SameLetters ((calls.getLast?.map DnsCall.domain).getD [])
      ((calls'.getLast?.map DnsCall.domain).getD []) := by
  induction h with
  | nil => exact List.Forall₂.nil
  | cons hc hrest ih =>
      cases hrest with
      | nil => exact hc.2.2
      | cons hc' hrest =>
          rw [List.getLast?_cons_cons, List.getLast?_cons_cons]
          exact ih

theorem selected_of_folds (h : List.Forall₂ DnsCall.Respelled calls calls')
    (hd : DistinctSeconds calls) (hnow : ∀ c ∈ calls, c.now ≤ now)
    (hg : FoldsCase anyChar (sqlReading g.glob)) (hs : Selected ord (replay calls) now g addr) :
    Selected ord (replay calls') now g addr := by
  have hnow' : ∀ c ∈ calls', c.now ≤ now := by
    intro c' hc'
    obtain ⟨c, hc, hcc⟩ := exists_respelled (respelled_flip h) hc'
    rw [hcc.2.1]
    exact hnow c hc
  obtain ⟨c, hc, haddr, hglob, hday⟩ := (selected_iff hd.clockForward hnow).mp hs
  obtain ⟨c', hc', hcc⟩ := exists_respelled h hc
  refine (selected_iff (hd.respelled h).clockForward hnow').mpr ⟨c', hc', ?_, ?_, ?_⟩
  · rw [← hcc.1]
    exact haddr
  · rw [← (sqliteGlob_foldsCase g.glob).mpr hg _ _ hcc.2.2]
    exact hglob
  · rw [← hcc.2.1]
    exact hday

theorem credited_of_folds (h : List.Forall₂ DnsCall.Respelled calls calls')
    (hd : DistinctSeconds calls) (hG : ∀ g ∈ G.rows, FoldsCase notSlash (goReading g.glob)) :
    creditedGroup filepathMatch ord G (replay calls) addr
      = creditedGroup filepathMatch ord G (replay calls') addr := by
  rw [creditedGroup, creditedGroup, getDomainForIP_replay hd,
    getDomainForIP_replay (hd.respelled h)]
  refine List.find?_congr fun g hg => ?_
  have hmem : g ∈ G.rows := (ord.globs_perm _).mem_iff.mp hg
  exact (filepathMatch_foldsCase g.glob).mpr (hG g hmem) _ _
    (sameLetters_last (callsFor_respelled h addr))

theorem caseIrrelevant_of_folds (hG : ∀ g ∈ G.rows, FoldsCase anyChar (sqlReading g.glob)
    ∧ FoldsCase notSlash (goReading g.glob)) : CaseIrrelevant G := by
  intro calls calls' h hd now hnow ord
  have hnow' : ∀ c ∈ calls', c.now ≤ now := by
    intro c' hc'
    obtain ⟨c, hc, hcc⟩ := exists_respelled (respelled_flip h) hc'
    rw [hcc.2.1]
    exact hnow c hc
  refine ⟨fun g hg addr => ⟨fun hs => ?_, fun hs => ?_⟩,
    fun addr => credited_of_folds h hd fun g hg => (hG g hg).2⟩
  · exact selected_of_folds h hd hnow (hG g hg).1 hs
  · exact selected_of_folds (respelled_flip h) (hd.respelled h) hnow' (hG g hg).1 hs

/-! ## One answer is enough -/

theorem selected_once {d : Text} {i : RecordIP} :
    Selected ord (replay [⟨d, i, 0⟩]) 0 g i.text ↔ sqliteGlob g.glob d = true := by
  rw [selected_iff (List.pairwise_singleton ..) (by simp)]
  constructor
  · rintro ⟨c, hc, -, hglob, -⟩
    rw [List.mem_singleton.mp hc] at hglob
    exact hglob
  · intro hglob
    exact ⟨_, List.mem_singleton.mpr rfl, rfl, hglob, (by decide : dayOf 0 - 5 ≤ dayOf 0)⟩

/-- The order that puts one glob group first. -/
def RowOrder.withFirstGroup (g : GlobGroup) : RowOrder where
  policies := id
  globs := fun l => l.filter (fun x => decide (x = g)) ++ l.filter (fun x => !decide (x = g))
  probes := id
  policies_perm := List.Perm.refl
  globs_perm := List.filter_append_perm fun x => decide (x = g)
  probes_perm := List.Perm.refl

theorem credited_once {d : Text} {i : RecordIP} (hg : g ∈ G.rows) :
    creditedGroup filepathMatch (RowOrder.withFirstGroup g) G (replay [⟨d, i, 0⟩]) i.text = some g
      ↔ filepathMatch g.glob d = true := by
  have hdom : getDomainForIP (RowOrder.withFirstGroup g) (replay [⟨d, i, 0⟩]) i.text = d := by
    rw [getDomainForIP_replay (List.pairwise_singleton ..)]
    simp [callsFor]
  obtain ⟨gs, hgs⟩ : ∃ gs, getGlobs (RowOrder.withFirstGroup g) G = g :: gs :=
    exists_filter_append_eq_cons hg
  rw [creditedGroup, getMatchingGlobGroup, hdom, hgs, List.find?_cons]
  cases hm : filepathMatch g.glob d with
  | true => simp
  | false =>
      simp only [Bool.false_eq_true, iff_false]
      intro hfound
      have hmatch := List.find?_some hfound
      rw [hm] at hmatch
      cases hmatch

theorem folds_of_caseIrrelevant (h : CaseIrrelevant G) (hg : g ∈ G.rows) :
    FoldsCase anyChar (sqlReading g.glob) ∧ FoldsCase notSlash (goReading g.glob) := by
  have hpair : ∀ d d', SameLetters d d' → sqliteGlob g.glob d = sqliteGlob g.glob d'
      ∧ filepathMatch g.glob d = filepathMatch g.glob d' := by
    intro d d' hd
    have hrun : List.Forall₂ DnsCall.Respelled [⟨d, none, 0⟩] [⟨d', none, 0⟩] :=
      List.Forall₂.cons ⟨rfl, rfl, hd⟩ List.Forall₂.nil
    obtain ⟨hsel, hcred⟩ := h _ _ hrun (List.pairwise_singleton ..) 0 (by simp)
      (RowOrder.withFirstGroup g)
    constructor
    · rw [Bool.eq_iff_iff, ← selected_once (i := none), ← selected_once (i := none)]
      exact hsel g hg _
    · rw [Bool.eq_iff_iff, ← credited_once (i := none) hg, ← credited_once (i := none) hg,
        hcred]
  exact ⟨(sqliteGlob_foldsCase g.glob).mp fun d d' hd => (hpair d d' hd).1,
    (filepathMatch_foldsCase g.glob).mp fun d d' hd => (hpair d d' hd).2⟩

end Histories

/-- Letter case is irrelevant for a table exactly when every pattern of it, as
SQLite reads it and as Go does, folds case. -/
theorem letter_case_iff (G : GlobTable) : CaseIrrelevant G ↔ ∀ g ∈ G.rows,
    FoldsCase anyChar (sqlReading g.glob) ∧ FoldsCase notSlash (goReading g.glob) :=
  ⟨fun h _ hg => folds_of_caseIrrelevant h hg, caseIrrelevant_of_folds⟩

/-! ## A name in two spellings -/

def siteGlobs : GlobTable := addGlob KeyedTable.empty (siteGroup "*.site.com.".toList)

/-- Two groups whose patterns fold case. -/
def foldingGlobs : GlobTable :=
  addGlob (addGlob KeyedTable.empty ⟨"a".toList, [], "[aA].".toList, []⟩)
    ⟨"b".toList, [], "[bB].".toList, []⟩

/-- A clock that goes back, over two spellings of one name. -/
def backwardCalls (first : Text) : List DnsCall :=
  [⟨first, some cdnServer, 3 * second⟩, ⟨"b.".toList, some cdnServer, 2 * second⟩,
   ⟨"a.".toList, some cdnServer, second⟩]

/-- A name in two spellings, the second answered in two days. -/
def earlyCalls (first : Text) : List DnsCall :=
  [⟨first, some cdnServer, 0⟩, ⟨"a.".toList, some cdnServer, 2 * day⟩]

/-- A capital letter hides the address from its group. Patterns that fold case
are not enough when the clock goes back, or before the calls: a stamp is
then lost with the spelling it was for. -/
theorem spelling_matters :
    (Selected RowOrder.stored (replay [⟨"www.site.com.".toList, some cdnServer, 0⟩]) 0
          (siteGroup "*.site.com.".toList) cdnServer.text
        ∧ ¬Selected RowOrder.stored (replay [⟨"www.Site.com.".toList, some cdnServer, 0⟩]) 0
          (siteGroup "*.site.com.".toList) cdnServer.text)
      ∧ ¬CaseIrrelevant siteGlobs
      ∧ creditedGroup filepathMatch RowOrder.stored foldingGlobs
          (replay (backwardCalls "A.".toList)) cdnServer.text
        ≠ creditedGroup filepathMatch RowOrder.stored foldingGlobs
          (replay (backwardCalls "a.".toList)) cdnServer.text
      ∧ getIPsMatchingGlob sqliteGlob RowOrder.stored false (replay (earlyCalls "A.".toList))
          (siteGroup "[aA].".toList) 0 = some [cdnServer.text]
      ∧ getIPsMatchingGlob sqliteGlob RowOrder.stored false (replay (earlyCalls "a.".toList))
          (siteGroup "[aA].".toList) 0 = some [] := by
  have hlower : Selected RowOrder.stored (replay [⟨"www.site.com.".toList, some cdnServer, 0⟩]) 0
      (siteGroup "*.site.com.".toList) cdnServer.text :=
    selected_once.mpr (by decide +kernel)
  have hupper : ¬Selected RowOrder.stored (replay [⟨"www.Site.com.".toList, some cdnServer, 0⟩]) 0
      (siteGroup "*.site.com.".toList) cdnServer.text := fun h =>
    absurd (selected_once.mp h) (by decide +kernel)
  refine ⟨⟨hlower, hupper⟩, fun h => ?_, by decide +kernel, by decide +kernel, by decide +kernel⟩
  have hrun : List.Forall₂ DnsCall.Respelled [⟨"www.site.com.".toList, some cdnServer, 0⟩]
      [⟨"www.Site.com.".toList, some cdnServer, 0⟩] :=
    List.Forall₂.cons ⟨rfl, rfl, by unfold SameLetters sameLetter; decide +kernel⟩
      List.Forall₂.nil
  have hsel := (h _ _ hrun (List.pairwise_singleton ..) 0 (by simp) RowOrder.stored).1
    (siteGroup "*.site.com.".toList) (by decide +kernel) cdnServer.text
  exact hupper (hsel.mp hlower)

end Nethadone
