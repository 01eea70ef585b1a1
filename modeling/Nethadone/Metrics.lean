import Nethadone.Bandwidth
import Nethadone.Run

/-!
# Exported counters

`handlers/prom.go`: at every poll each entry of the byte map is written
into the counter named after its addresses, its likely domain and its glob
group. A counter once registered stays registered.

`valid` stands for the metrics library's check of a name; a name that
fails it makes the library panic, and the process dies. Values are read as
exact integers.
-/

namespace Nethadone

/-! ## Names -/

/-- `name="value"`. -/
def label (name value : Text) : Text := name ++ '=' :: '"' :: (value ++ ['"'])

def metricName : Text := "ip_pair_vic_bytes_total\x7b".toList

def seriesName (b : BandwidthList) : Text :=
  metricName ++ (", ".toList.intercalate
    [label "src_ip".toList b.srcIpAddr.text, label "dest_ip".toList b.destIpAddr.text,
     label "prob_domain".toList b.probDomain, label "glob".toList b.globName]
    ++ ['\x7d'])

/-- The series is one of the pair's: its name starts with the pair's two
labels. -/
def OfPair (src dest : IPv4) (name : Text) : Prop :=
  metricName ++ (label "src_ip".toList src.text ++ (", ".toList
    ++ (label "dest_ip".toList dest.text ++ ", ".toList))) <+: name

instance (src dest : IPv4) (name : Text) : Decidable (OfPair src dest name) :=
  inferInstanceAs (Decidable (_ <+: _))

theorem prefix_sep {c : Char} {r s : Text} :
    ∀ {a b : Text}, c ∉ a → c ∉ b → a ++ c :: r <+: b ++ c :: s → a = b ∧ r <+: s
  | [], [], _, _, h => ⟨rfl, (List.cons_prefix_cons.mp h).2⟩
  | [], y :: _, _, hb, h => by
      obtain ⟨rfl, -⟩ := List.cons_prefix_cons.mp h
      exact absurd (List.mem_cons_self ..) hb
  | x :: _, [], ha, _, h => by
      obtain ⟨rfl, -⟩ := List.cons_prefix_cons.mp h
      exact absurd (List.mem_cons_self ..) ha
  | x :: a, y :: b, ha, hb, h => by
      obtain ⟨rfl, hrest⟩ := List.cons_prefix_cons.mp h
      obtain ⟨rfl, hrs⟩ := prefix_sep (fun hc => ha (List.mem_cons_of_mem _ hc))
        (fun hc => hb (List.mem_cons_of_mem _ hc)) hrest
      exact ⟨rfl, hrs⟩

theorem quote_notMem_text (ip : IPv4) : '"' ∉ ip.text := by
  intro h
  rw [IPv4.text, IPv4.numerals] at h
  have hdec := fun n => Numeral.notMem_decimal (c := '"') (by decide) n
  simp [List.intercalate, List.intersperse, hdec] at h

theorem ofPair_seriesName {src dest : IPv4} {b : BandwidthList} :
    OfPair src dest (seriesName b) ↔ b.srcIpAddr = src ∧ b.destIpAddr = dest := by
  simp only [OfPair, seriesName, label, List.intercalate, List.intersperse, List.flatten_cons,
    List.append_assoc, List.cons_append, List.prefix_append_right_inj, List.nil_append]
  constructor
  · intro h
    rw [List.cons_prefix_cons, List.cons_prefix_cons] at h
    obtain ⟨hsrc, hrest⟩ := prefix_sep (quote_notMem_text _) (quote_notMem_text _) h.2.2
    simp only [List.prefix_append_right_inj] at hrest
    rw [List.cons_prefix_cons, List.cons_prefix_cons] at hrest
    obtain ⟨hdest, -⟩ := prefix_sep (quote_notMem_text _) (quote_notMem_text _) hrest.2.2
    exact ⟨(IPv4.text_injective hsrc).symm, (IPv4.text_injective hdest).symm⟩
  · rintro ⟨rfl, rfl⟩
    simp

/-! ## The registry -/

structure Series where
  name : Text
  value : Nat
deriving DecidableEq

abbrev Registry := KeyedTable Series.name

def Registry.value (R : Registry) (name : Text) : Nat :=
  match R.lookup name with
  | some r => r.value
  | none => 0

/-- `metrics.GetOrCreateFloatCounter(s).Set(...)`. -/
def setCounter (valid : Text → Bool) (R : Registry) (b : BandwidthList) : Option Registry :=
  if valid (seriesName b) then some (R.upsert ⟨seriesName b, b.bytes.toNat⟩) else none

def pollMetrics (valid : Text → Bool) (fmatch : Text → Text → Bool) (ord : RowOrder)
    (G : GlobTable) (D : DnsTable) (entries : List ByteEntry) (R : Registry) : Option Registry :=
  Run.run (setCounter valid) R (getBandwidthList fmatch ord G D false entries)

section Poll

variable {valid : Text → Bool} {fmatch : Text → Text → Bool} {ord : RowOrder} {G : GlobTable}
  {D : DnsTable} {entries : List ByteEntry} {R R' : Registry}

def seriesOf (fmatch : Text → Text → Bool) (ord : RowOrder) (G : GlobTable) (D : DnsTable)
    (e : ByteEntry) : Series :=
  ⟨seriesName (bandwidthOf fmatch ord G D e), e.val.toNat⟩

theorem run_setCounter : ∀ {bl : List BandwidthList} {R R' : Registry},
    Run.run (setCounter valid) R bl = some R' →
      R' = (bl.map fun b => (⟨seriesName b, b.bytes.toNat⟩ : Series)).foldl KeyedTable.upsert R
  | [], _, _, h => (Option.some.inj h).symm
  | b :: bl, R, R', h => by
      obtain ⟨R₁, h₁, hrest⟩ := Run.run_cons h
      unfold setCounter at h₁
      split at h₁
      · obtain rfl := Option.some.inj h₁
        rw [List.map_cons, List.foldl_cons]
        exact run_setCounter hrest
      · cases h₁

theorem pollMetrics_eq (h : pollMetrics valid fmatch ord G D entries R = some R') :
    R' = (entries.map (seriesOf fmatch ord G D)).foldl KeyedTable.upsert R := by
  have hlist : getBandwidthList fmatch ord G D false entries
      = entries.map (bandwidthOf fmatch ord G D) := by
    simp [getBandwidthList]
  rw [run_setCounter h, hlist, List.map_map]
  rfl

theorem run_setCounter_isSome : ∀ {bl : List BandwidthList} (R : Registry),
    (∀ b ∈ bl, valid (seriesName b) = true) → (Run.run (setCounter valid) R bl).isSome
  | [], _, _ => rfl
  | b :: bl, R, h => by
      rw [Run.run, setCounter, if_pos (h b (List.mem_cons_self ..)), Option.bind_some]
      exact run_setCounter_isSome _ fun b' hb' => h b' (List.mem_cons_of_mem _ hb')

theorem pollMetrics_isSome (R : Registry)
    (h : ∀ e ∈ entries, valid (seriesOf fmatch ord G D e).name = true) :
    (pollMetrics valid fmatch ord G D entries R).isSome := by
  refine run_setCounter_isSome R fun b hb => ?_
  rw [getBandwidthList] at hb
  obtain ⟨e, he, rfl⟩ := List.mem_map.mp hb
  exact h e (List.mem_of_mem_filter he)

theorem ofPair_seriesOf {src dest : IPv4} {e : ByteEntry} :
    OfPair src dest (seriesOf fmatch ord G D e).name ↔ e.key = pairKey src dest := by
  rw [seriesOf, ofPair_seriesName]
  constructor
  · rintro ⟨rfl, rfl⟩
    exact (pairKey_eq e.key).symm
  · intro h
    simp only [bandwidthOf, h]
    exact ⟨keySrcIp_pairKey _ _, keyDestIp_pairKey _ _⟩

theorem seriesOf_name_injective {e e' : ByteEntry}
    (h : (seriesOf fmatch ord G D e).name = (seriesOf fmatch ord G D e').name) :
    e.key = e'.key := by
  have hpair : OfPair (keySrcIp e.key) (keyDestIp e.key) (seriesOf fmatch ord G D e).name :=
    ofPair_seriesOf.mpr (pairKey_eq e.key).symm
  rw [h, ofPair_seriesOf, pairKey_eq] at hpair
  exact hpair.symm

theorem lookup_pollMetrics_of_mem (hnd : (entries.map ByteEntry.key).Nodup)
    (h : pollMetrics valid fmatch ord G D entries R = some R') {e : ByteEntry} (he : e ∈ entries) :
    R'.lookup (seriesOf fmatch ord G D e).name = some (seriesOf fmatch ord G D e) := by
  have hnd' : ((entries.map (seriesOf fmatch ord G D)).map Series.name).Nodup := by
    rw [List.map_map]
    exact (List.Nodup.of_map _ hnd).map_on fun e he e' he' hname =>
      List.inj_on_of_nodup_map hnd he he' (seriesOf_name_injective hname)
  rw [pollMetrics_eq h]
  exact KeyedTable.lookup_foldl_upsert_of_mem hnd' (List.mem_map_of_mem he)

theorem lookup_pollMetrics_of_notMem (h : pollMetrics valid fmatch ord G D entries R = some R')
    {name : Text} (hname : ∀ e ∈ entries, (seriesOf fmatch ord G D e).name ≠ name) :
    R'.lookup name = R.lookup name := by
  rw [pollMetrics_eq h]
  refine KeyedTable.lookup_foldl_upsert_of_notMem fun r hr => ?_
  obtain ⟨e, he, rfl⟩ := List.mem_map.mp hr
  exact hname e he

end Poll

end Nethadone
