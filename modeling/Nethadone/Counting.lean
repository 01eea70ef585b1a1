import Nethadone.Membership
import Nethadone.Metrics

/-!
# Counting bytes once

A poll writes the pair's whole count into the counter of the moment. The
increase of that counter since it was last written is the traffic of the
pair only if nothing of it was written elsewhere meanwhile: a counter whose
labels the pair left and came back to jumps by everything counted since,
and the counters it visited have been credited with the same bytes.

A run is kept with the polls it has made, the latest first. The counter of
a name then holds the pair's count at the last poll that wrote the name
(`Tallied`), and a poll counts a pair's bytes once exactly when no poll
since that one has found traffic of the pair (`countedOnce_iff`).
-/

namespace Nethadone

/-- The process as far as counting goes. `polled` is the byte map of the last
poll, empty before the first. -/
structure Exporter where
  bytes : ByteMap
  dns : DnsTable
  globs : GlobTable
  registry : Registry
  polled : ByteMap

def Exporter.fresh (M : ByteMap) (D : DnsTable) (G : GlobTable) : Exporter :=
  ⟨M, D, G, KeyedTable.empty, KeyedTable.empty⟩

section Steps

variable (valid : Text → Bool) (fmatch : Text → Text → Bool)

/-- One poll, the map and the tables read in any order. -/
def Polls (ord : RowOrder) (entries : List ByteEntry) (s s' : Exporter) : Prop :=
  entries.Perm s.bytes.rows ∧
    ∃ R, pollMetrics valid fmatch ord s.globs s.dns entries s.registry = some R ∧
      s' = { s with registry := R, polled := s.bytes }

/-- A run, whatever was in the map and the tables at first, with the polls it
has made: the row order and the state of each, the latest first. -/
inductive ExportRun : List (RowOrder × Exporter) → Exporter → Prop where
  | fresh (M : ByteMap) (D : DnsTable) (G : GlobTable) : ExportRun [] (Exporter.fresh M D G)
  | traffic {past : List (RowOrder × Exporter)} {s : Exporter} (M : ByteMap)
      (hrun : ExportRun past s) (h : ∀ key, s.bytes.count key ≤ M.count key) :
      ExportRun past { s with bytes := M }
  | addDns {past : List (RowOrder × Exporter)} {s : Exporter} (domain : Text)
      (ipaddr : RecordIP) (now : Int) (hrun : ExportRun past s) :
      ExportRun past { s with dns := addDns s.dns domain ipaddr now }
  | addGlob {past : List (RowOrder × Exporter)} {s : Exporter} (g : GlobGroup)
      (hrun : ExportRun past s) : ExportRun past { s with globs := addGlob s.globs g }
  | poll {past : List (RowOrder × Exporter)} {s s' : Exporter} (ord : RowOrder)
      (entries : List ByteEntry) (hrun : ExportRun past s)
      (h : Polls valid fmatch ord entries s s') : ExportRun ((ord, s) :: past) s'

def Exporter.seriesNow (ord : RowOrder) (s : Exporter) (src dest : IPv4) : Text :=
  (seriesOf fmatch ord s.globs s.dns ⟨pairKey src dest, 0⟩).name

end Steps

/-- What a poll added to those counters of the pair that were there before. -/
def counted (src dest : IPv4) (R R' : Registry) : Int :=
  (R.rows.map fun r => if OfPair src dest r.name then (R'.value r.name : Int) - r.value else 0).sum

/-- The poll counts the pair's bytes once: what it added is covered by the
growth since the previous poll, and only the pair's present counter grew. -/
def CountedOnce (fmatch : Text → Text → Bool) (ord : RowOrder) (src dest : IPv4)
    (s s' : Exporter) : Prop :=
  counted src dest s.registry s'.registry
      ≤ (s.bytes.count (pairKey src dest) : Int) - s.polled.count (pairKey src dest)
    ∧ ∀ r ∈ s.registry.rows, OfPair src dest r.name → r.value < s'.registry.value r.name →
        r.name = s.seriesNow fmatch ord src dest

/-- The poll wrote the pair's count into the counter of that name. -/
def Wrote (fmatch : Text → Text → Bool) (src dest : IPv4) (name : Text)
    (q : RowOrder × Exporter) : Prop :=
  (q.2.bytes.lookup (pairKey src dest)).isSome ∧ q.2.seriesNow fmatch q.1 src dest = name

instance (fmatch : Text → Text → Bool) (src dest : IPv4) (name : Text) :
    DecidablePred (Wrote fmatch src dest name) :=
  fun _ => inferInstanceAs (Decidable (_ ∧ _))

/-- No poll since the last one that found the pair under its present labels has
found the pair's count changed. -/
def NotReturned (fmatch : Text → Text → Bool) (ord : RowOrder) (src dest : IPv4)
    (past : List (RowOrder × Exporter)) (s : Exporter) : Prop :=
  ∀ later q earlier, past = later ++ q :: earlier →
    Wrote fmatch src dest (s.seriesNow fmatch ord src dest) q →
      (∀ x ∈ later, ¬Wrote fmatch src dest (s.seriesNow fmatch ord src dest) x) →
        ∀ x ∈ later, x.2.bytes.count (pairKey src dest) = q.2.bytes.count (pairKey src dest)

/-- A pair's counters hold what the last poll that wrote them found, and no
count ever falls. -/
structure Tallied (fmatch : Text → Text → Bool) (past : List (RowOrder × Exporter))
    (s : Exporter) : Prop where
  registry : ∀ src dest name, OfPair src dest name →
    s.registry.lookup name
      = (past.find? fun q => Wrote fmatch src dest name q).map fun q =>
          ⟨name, q.2.bytes.count (pairKey src dest)⟩
  polled : s.polled = (past.head?.map fun q => q.2.bytes).getD KeyedTable.empty
  grown : ∀ key, (s.bytes :: past.map fun q => q.2.bytes).Pairwise fun M M' =>
    M'.count key ≤ M.count key

section Polls

variable {valid : Text → Bool} {fmatch : Text → Text → Bool} {ord : RowOrder}
  {entries : List ByteEntry} {past : List (RowOrder × Exporter)} {s s' : Exporter}

theorem seriesOf_name_eq {e : ByteEntry} {src dest : IPv4} (h : e.key = pairKey src dest) :
    (seriesOf fmatch ord s.globs s.dns e).name = s.seriesNow fmatch ord src dest := by
  simp only [Exporter.seriesNow, seriesOf, bandwidthOf, seriesName, h]

theorem ofPair_seriesNow (src dest : IPv4) : OfPair src dest (s.seriesNow fmatch ord src dest) := by
  rw [Exporter.seriesNow, ofPair_seriesOf]

theorem nodup_entries (hperm : entries.Perm s.bytes.rows) : (entries.map ByteEntry.key).Nodup :=
  (hperm.map ByteEntry.key).nodup_iff.mpr s.bytes.nodup

/-- What a poll does to one counter of a pair. -/
theorem lookup_poll (h : Polls valid fmatch ord entries s s') {src dest : IPv4} {name : Text}
    (hpair : OfPair src dest name) :
    s'.registry.lookup name
      = if Wrote fmatch src dest name (ord, s)
        then some ⟨name, s.bytes.count (pairKey src dest)⟩ else s.registry.lookup name := by
  obtain ⟨hperm, R, hpoll, rfl⟩ := h
  split
  · rename_i hwrote
    obtain ⟨hrow, hname⟩ := hwrote
    obtain ⟨e, hlook⟩ := Option.isSome_iff_exists.mp hrow
    obtain ⟨he, hkey⟩ := KeyedTable.lookup_eq_some.mp hlook
    have hmem := lookup_pollMetrics_of_mem (nodup_entries hperm) hpoll (hperm.mem_iff.mpr he)
    rw [seriesOf_name_eq hkey] at hmem
    have hname' : s.seriesNow fmatch ord src dest = name := hname
    have hcount : s.bytes.count (pairKey src dest) = e.val.toNat := by
      rw [ByteMap.count, hlook]
    rw [← hname', hmem, hcount, ← seriesOf_name_eq hkey]
    rfl
  · rename_i hnot
    refine lookup_pollMetrics_of_notMem hpoll fun e he hname => hnot ?_
    have hkey : e.key = pairKey src dest := by
      rw [← hname, ofPair_seriesOf] at hpair
      exact hpair
    refine ⟨?_, (seriesOf_name_eq hkey).symm.trans hname⟩
    rw [← hkey, KeyedTable.lookup_key (hperm.mem_iff.mp he)]
    rfl

theorem ExportRun.tallied (h : ExportRun valid fmatch past s) : Tallied fmatch past s := by
  induction h with
  | fresh M D G => exact ⟨fun _ _ _ _ => rfl, rfl, fun _ => List.pairwise_singleton ..⟩
  | traffic M _ hgrow ih =>
      refine ⟨ih.registry, ih.polled, fun key => ?_⟩
      obtain ⟨hhead, htail⟩ := List.pairwise_cons.mp (ih.grown key)
      exact List.pairwise_cons.mpr ⟨fun y hy => (hhead y hy).trans (hgrow key), htail⟩
  | addDns _ _ _ _ ih => exact ⟨ih.registry, ih.polled, ih.grown⟩
  | addGlob _ _ ih => exact ⟨ih.registry, ih.polled, ih.grown⟩
  | @poll past s s' ord entries _ hpoll ih =>
      refine ⟨fun src dest name hpair => ?_, ?_, fun key => ?_⟩
      · rw [lookup_poll hpoll hpair, List.find?_cons]
        split
        · rename_i hwrote
          simp only [hwrote, decide_true, Option.map_some]
        · rename_i hnot
          simp only [hnot, decide_false]
          exact ih.registry src dest name hpair
      · obtain ⟨-, R, -, rfl⟩ := hpoll
        rfl
      · obtain ⟨-, R, -, rfl⟩ := hpoll
        have hgrown := ih.grown key
        rw [List.map_cons]
        refine List.pairwise_cons.mpr ⟨fun M hM => ?_, hgrown⟩
        rcases List.mem_cons.mp hM with rfl | hM
        · exact Nat.le_refl _
        · exact (List.pairwise_cons.mp hgrown).1 M hM

theorem value_of_ne_now (h : Polls valid fmatch ord entries s s') {r : Series}
    (hr : r ∈ s.registry.rows) {src dest : IPv4} (hpair : OfPair src dest r.name)
    (hne : r.name ≠ s.seriesNow fmatch ord src dest) : s'.registry.value r.name = r.value := by
  have hnot : ¬Wrote fmatch src dest r.name (ord, s) := fun hw => hne hw.2.symm
  rw [Registry.value, lookup_poll h hpair, if_neg hnot, KeyedTable.lookup_key hr]

theorem counted_eq (h : Polls valid fmatch ord entries s s') (src dest : IPv4) :
    counted src dest s.registry s'.registry
      = (s.registry.lookup (s.seriesNow fmatch ord src dest)).elim 0
          fun r => (s'.registry.value r.name : Int) - r.value := by
  rw [counted, KeyedTable.sum_rows_of_key (k := s.seriesNow fmatch ord src dest)]
  · cases hrow : s.registry.lookup (s.seriesNow fmatch ord src dest) with
    | none => rfl
    | some r =>
        have hpair : OfPair src dest r.name := by
          rw [(KeyedTable.lookup_eq_some.mp hrow).2]
          exact ofPair_seriesNow src dest
        simp only [Option.elim_some, if_pos hpair]
  · intro r hr hne
    split
    · rename_i hpair
      rw [value_of_ne_now h hr hpair hne, sub_self]
    · rfl

theorem countedOnce_of_counted_le (h : Polls valid fmatch ord entries s s') {src dest : IPv4} :
    CountedOnce fmatch ord src dest s s' ↔ counted src dest s.registry s'.registry
      ≤ (s.bytes.count (pairKey src dest) : Int) - s.polled.count (pairKey src dest) := by
  refine and_iff_left fun r hr hpair hlt => ?_
  by_contra hne
  rw [value_of_ne_now h hr hpair hne] at hlt
  exact lt_irrefl _ hlt

end Polls

section Split

variable {valid : Text → Bool} {fmatch : Text → Text → Bool} {ord : RowOrder}
  {entries : List ByteEntry} {later earlier : List (RowOrder × Exporter)}
  {q : RowOrder × Exporter} {s s' : Exporter} {src dest : IPv4}

/-- The counter with the pair's present labels goes from the count at the poll
that last wrote it to the present one. -/
theorem counted_of_split (hs : Tallied fmatch (later ++ q :: earlier) s)
    (h : Polls valid fmatch ord entries s s')
    (hq : Wrote fmatch src dest (s.seriesNow fmatch ord src dest) q)
    (hlater : ∀ x ∈ later, ¬Wrote fmatch src dest (s.seriesNow fmatch ord src dest) x) :
    counted src dest s.registry s'.registry
      = (s.bytes.count (pairKey src dest) : Int) - q.2.bytes.count (pairKey src dest) := by
  have hpair : OfPair src dest (s.seriesNow fmatch ord src dest) := ofPair_seriesNow src dest
  have hfind : (later ++ q :: earlier).find?
      (fun x => Wrote fmatch src dest (s.seriesNow fmatch ord src dest) x) = some q :=
    List.find?_eq_some_iff_append.mpr ⟨decide_eq_true hq, later, earlier, rfl,
      fun x hx => by simp [hlater x hx]⟩
  have hrow := hs.registry src dest _ hpair
  rw [hfind, Option.map_some] at hrow
  rw [counted_eq h, hrow, Option.elim_some]
  by_cases hnow : Wrote fmatch src dest (s.seriesNow fmatch ord src dest) (ord, s)
  · rw [Registry.value, lookup_poll h hpair, if_pos hnow]
  · -- the pair has no entry, so it had no traffic either when it was written
    have hnone : s.bytes.lookup (pairKey src dest) = none := by
      cases hrow' : s.bytes.lookup (pairKey src dest) with
      | none => rfl
      | some e => exact absurd ⟨Option.isSome_iff_exists.mpr ⟨e, hrow'⟩, rfl⟩ hnow
    have hzero : s.bytes.count (pairKey src dest) = 0 := by rw [ByteMap.count, hnone]
    have hle : q.2.bytes.count (pairKey src dest) ≤ s.bytes.count (pairKey src dest) :=
      (List.pairwise_cons.mp (hs.grown _)).1 q.2.bytes (by simp)
    rw [Registry.value, lookup_poll h hpair, if_neg hnow, hrow]
    simp only
    omega

theorem countedOnce_of_split (hs : Tallied fmatch (later ++ q :: earlier) s)
    (h : Polls valid fmatch ord entries s s')
    (hq : Wrote fmatch src dest (s.seriesNow fmatch ord src dest) q)
    (hlater : ∀ x ∈ later, ¬Wrote fmatch src dest (s.seriesNow fmatch ord src dest) x) :
    CountedOnce fmatch ord src dest s s' ↔
      ∀ x ∈ later, x.2.bytes.count (pairKey src dest) = q.2.bytes.count (pairKey src dest) := by
  rw [countedOnce_of_counted_le h, counted_of_split hs h hq hlater, hs.polled]
  have hgrown := (List.pairwise_cons.mp (hs.grown (pairKey src dest))).2
  rw [List.map_append, List.map_cons, List.pairwise_append] at hgrown
  obtain ⟨hdown, -, hq'⟩ := hgrown
  have hle : ∀ x ∈ later, q.2.bytes.count (pairKey src dest) ≤ x.2.bytes.count (pairKey src dest) :=
    fun x hx => hq' x.2.bytes (List.mem_map.mpr ⟨x, hx, rfl⟩) q.2.bytes (List.mem_cons_self ..)
  cases later with
  | nil => simp
  | cons x₀ later =>
      simp only [List.cons_append, List.head?_cons, Option.map_some, Option.getD_some]
      constructor
      · intro hcount x hx
        have hfirst : x.2.bytes.count (pairKey src dest) ≤ x₀.2.bytes.count (pairKey src dest) := by
          rcases List.mem_cons.mp hx with rfl | hx
          · exact Nat.le_refl _
          · exact (List.pairwise_cons.mp hdown).1 x.2.bytes (List.mem_map.mpr ⟨x, hx, rfl⟩)
        have := hle x hx
        omega
      · intro hsame
        have := hsame x₀ (List.mem_cons_self ..)
        omega

end Split

/-- At every poll of every run and for every pair, the poll counts the pair's
bytes once if and only if the pair has not come back to labels it had left,
with traffic in between. -/
theorem countedOnce_iff (valid : Text → Bool) (fmatch : Text → Text → Bool) (ord : RowOrder)
    (entries : List ByteEntry) (past : List (RowOrder × Exporter)) (s s' : Exporter)
    (hs : ExportRun valid fmatch past s) (h : Polls valid fmatch ord entries s s')
    (src dest : IPv4) :
    CountedOnce fmatch ord src dest s s' ↔ NotReturned fmatch ord src dest past s := by
  have hrec := hs.tallied
  constructor
  · rintro honce later q earlier rfl hq hlater
    exact (countedOnce_of_split hrec h hq hlater).mp honce
  · intro hnot
    cases hfind : past.find? fun x =>
        Wrote fmatch src dest (s.seriesNow fmatch ord src dest) x with
    | none =>
        -- the counter is new
        have hnew := hrec.registry src dest (s.seriesNow fmatch ord src dest)
          (ofPair_seriesNow src dest)
        rw [hfind, Option.map_none] at hnew
        rw [countedOnce_of_counted_le h, counted_eq h, hnew, Option.elim_none, hrec.polled]
        have hgrown := (List.pairwise_cons.mp (hrec.grown (pairKey src dest))).1
        cases past with
        | nil => exact Int.sub_nonneg.mpr (Int.ofNat_le.mpr (Nat.zero_le _))
        | cons x past =>
            have hle := hgrown x.2.bytes (List.mem_cons_self ..)
            simp only [List.head?_cons, Option.map_some, Option.getD_some]
            omega
    | some q =>
        obtain ⟨hq, later, earlier, rfl, hlater⟩ := List.find?_eq_some_iff_append.mp hfind
        have hlater' : ∀ x ∈ later,
            ¬Wrote fmatch src dest (s.seriesNow fmatch ord src dest) x := fun x hx =>
          of_decide_eq_false (by simpa using hlater x hx)
        exact (countedOnce_of_split hrec h (of_decide_eq_true hq) hlater').mpr
          (hnot later q earlier rfl (of_decide_eq_true hq) hlater')

/-! ## Leaving a label and coming back -/

def redditClientIp : IPv4 := ⟨192, 168, 0, 20⟩

def redditBytes (n : BitVec 64) : ByteMap :=
  KeyedTable.empty.upsert ⟨pairKey redditClientIp redditServer, n⟩

def redditSeries (n : Nat) : Series :=
  ⟨seriesName ⟨redditClientIp, redditServer, 0, "www.reddit.com.".toList, "reddit".toList⟩, n⟩

def aliasSeries (n : Nat) : Series :=
  ⟨seriesName ⟨redditClientIp, redditServer, 0, "cdn.example.net.".toList, []⟩, n⟩

def freshReddit : Exporter := Exporter.fresh (redditBytes 100) redditDns redditGlobs

def polledOnce : Exporter :=
  ⟨redditBytes 100, redditDns, redditGlobs, KeyedTable.empty.upsert (redditSeries 100),
    redditBytes 100⟩

/-- The address has been answered for another name, and its count is `n`. -/
def underAlias (n : BitVec 64) : Exporter :=
  { polledOnce with bytes := redditBytes n, dns := aliasedDns }

def polledTwice (n : BitVec 64) : Exporter :=
  ⟨redditBytes n, aliasedDns, redditGlobs,
    (KeyedTable.empty.upsert (redditSeries 100)).upsert (aliasSeries n.toNat), redditBytes n⟩

/-- The first name is back, and the count is `n'`. -/
def relabelled (n n' : BitVec 64) : Exporter :=
  { polledTwice n with
    bytes := redditBytes n'
    dns := addDns aliasedDns "www.reddit.com.".toList (some redditServer) (2 * minute) }

/-- The polls before, the latest first. -/
def relabelledPast (n : BitVec 64) : List (RowOrder × Exporter) :=
  [(RowOrder.stored, underAlias n), (RowOrder.stored, freshReddit)]

def polledAgain (n n' : BitVec 64) : Exporter :=
  { relabelled n n' with
    registry := (KeyedTable.empty.upsert (redditSeries n'.toNat)).upsert (aliasSeries n.toNat)
    polled := redditBytes n' }

theorem redditBytes_mono {n n' : BitVec 64} (h : n.toNat ≤ n'.toNat) (key : BitVec 64) :
    (redditBytes n).count key ≤ (redditBytes n').count key := by
  simp only [ByteMap.count, redditBytes, KeyedTable.lookup_upsert, KeyedTable.lookup_empty]
  by_cases hk : pairKey redditClientIp redditServer = key
  · simp only [hk, if_true]
    exact h
  · simp only [hk, if_false]
    exact Nat.le_refl 0

/-- With one entry in the map a poll writes one counter. -/
theorem polls_one {ord : RowOrder} {s : Exporter} {n : BitVec 64} {name : Text}
    (hbytes : s.bytes = redditBytes n)
    (hname : s.seriesNow redditGlob ord redditClientIp redditServer = name) :
    Polls (fun _ => true) redditGlob ord (redditBytes n).rows s
      { s with registry := s.registry.upsert ⟨name, n.toNat⟩, polled := redditBytes n } := by
  refine ⟨by rw [hbytes], _, ?_, by rw [hbytes]⟩
  have hpoll : pollMetrics (fun _ => true) redditGlob ord s.globs s.dns (redditBytes n).rows
      s.registry = some (s.registry.upsert (seriesOf redditGlob ord s.globs s.dns
        ⟨pairKey redditClientIp redditServer, n⟩)) := rfl
  have hseries : seriesOf redditGlob ord s.globs s.dns ⟨pairKey redditClientIp redditServer, n⟩
      = ⟨name, n.toNat⟩ := by
    rw [← hname, ← seriesOf_name_eq (e := ⟨pairKey redditClientIp redditServer, n⟩) rfl]
    rfl
  rw [hpoll, hseries]

theorem exportRun_relabelled {n n' : BitVec 64} (h : 100 ≤ n.toNat) (h' : n.toNat ≤ n'.toNat) :
    ExportRun (fun _ => true) redditGlob (relabelledPast n) (relabelled n n') := by
  have h₁ : ExportRun (fun _ => true) redditGlob [(RowOrder.stored, freshReddit)] polledOnce :=
    (ExportRun.fresh (redditBytes 100) redditDns redditGlobs).poll RowOrder.stored
      (redditBytes 100).rows (polls_one rfl rfl)
  have h₂ : ExportRun (fun _ => true) redditGlob [(RowOrder.stored, freshReddit)]
      (underAlias n) :=
    (h₁.addDns "cdn.example.net.".toList (some redditServer) minute).traffic (redditBytes n)
      (redditBytes_mono h)
  have h₃ : ExportRun (fun _ => true) redditGlob (relabelledPast n) (polledTwice n) :=
    h₂.poll RowOrder.stored (redditBytes n).rows (polls_one rfl rfl)
  exact (h₃.addDns "www.reddit.com.".toList (some redditServer) (2 * minute)).traffic
    (redditBytes n') (redditBytes_mono h')

/-- Coming back without traffic in between: the next poll adds 100 to the first
counter, for 100 bytes of traffic. -/
theorem countedOnce_without_traffic :
    CountedOnce redditGlob RowOrder.stored redditClientIp redditServer (relabelled 100 200)
        (polledAgain 100 200)
      ∧ counted redditClientIp redditServer (relabelled 100 200).registry
          (polledAgain 100 200).registry = 100 := by
  refine ⟨(countedOnce_iff (fun _ => true) redditGlob RowOrder.stored (redditBytes 200).rows
    (relabelledPast 100) _ _ (exportRun_relabelled (by decide) (by decide))
    (polls_one rfl rfl) redditClientIp redditServer).mpr ?_, by decide⟩
  intro later q earlier hpast _ _ x hx
  rcases later with - | ⟨x₁, - | ⟨x₂, - | ⟨x₃, later⟩⟩⟩
  · cases hx
  · cases hpast
    obtain rfl := List.mem_singleton.mp hx
    decide
  · cases hpast
  · cases hpast

/-- With 100 bytes while under the other name, the next poll adds 200 to the
first counter, for 100 bytes of traffic. -/
theorem relabelled_counted_twice :
    ExportRun (fun _ => true) redditGlob (relabelledPast 200) (relabelled 200 300) ∧
      ∃ s', Polls (fun _ => true) redditGlob RowOrder.stored (redditBytes 300).rows
          (relabelled 200 300) s'
        ∧ ¬CountedOnce redditGlob RowOrder.stored redditClientIp redditServer
            (relabelled 200 300) s' := by
  refine ⟨exportRun_relabelled (by decide) (by decide), polledAgain 200 300,
    polls_one rfl rfl, fun h => ?_⟩
  have hsum := h.1
  revert hsum
  decide

end Nethadone
