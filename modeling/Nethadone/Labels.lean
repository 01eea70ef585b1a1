import Nethadone.Exactness
import Nethadone.Exposition
import Nethadone.Metrics

/-!
# Labels through Prometheus

`pollMetrics` pastes four texts between quotes; Prometheus reads them back
and answers the policy code's queries with them. Nothing is escaped on the
way out, so the texts that come back are those that went in exactly when
none of them has a quote, a backslash or a line feed
(`roundTrips_iff`). Addresses never do; names of glob groups and of domains
may.
-/

namespace Nethadone

open Exposition

/-- The format string of `pollMetrics` over four texts. -/
def formatSeries (src dest dom glob : Text) : Text :=
  metricName ++ (", ".toList.intercalate
    [label "src_ip".toList src, label "dest_ip".toList dest,
     label "prob_domain".toList dom, label "glob".toList glob]
    ++ ['\x7d'])

theorem seriesName_eq (b : BandwidthList) : seriesName b
    = formatSeries b.srcIpAddr.text b.destIpAddr.text b.probDomain b.globName := rfl

/-- The series is well formed and its labels are the four texts. -/
def RoundTrips (src dest dom glob : Text) : Prop :=
  readSeries (formatSeries src dest dom glob)
    = some ("ip_pair_vic_bytes_total".toList,
        [("src_ip".toList, src), ("dest_ip".toList, dest), ("prob_domain".toList, dom),
          ("glob".toList, glob)])

/-- What `readLabels` is given of the series. -/
def labelText (src dest dom glob : Text) : Text :=
  "src_ip".toList ++ '=' :: '"' :: (src ++ '"' :: ',' :: ' ' ::
    ("dest_ip".toList ++ '=' :: '"' :: (dest ++ '"' :: ',' :: ' ' ::
      ("prob_domain".toList ++ '=' :: '"' :: (dom ++ '"' :: ',' :: ' ' ::
        ("glob".toList ++ '=' :: '"' :: (glob ++ ['"', '\x7d'])))))))

theorem formatSeries_eq (src dest dom glob : Text) : formatSeries src dest dom glob
    = "ip_pair_vic_bytes_total".toList ++ '\x7b' :: labelText src dest dom glob := by
  have hsep : ", ".toList = [',', ' '] := rfl
  have hname : metricName = "ip_pair_vic_bytes_total".toList ++ ['\x7b'] := by decide
  unfold formatSeries labelText
  rw [hsep, hname]
  -- the constant texts do not matter
  generalize "ip_pair_vic_bytes_total".toList = name
  generalize "src_ip".toList = l1
  generalize "dest_ip".toList = l2
  generalize "prob_domain".toList = l3
  generalize "glob".toList = l4
  simp [label, List.intercalate, List.intersperse]

theorem readSeries_formatSeries (src dest dom glob : Text) :
    readSeries (formatSeries src dest dom glob)
      = (readLabels (formatSeries src dest dom glob).length (labelText src dest dom glob)).map
          fun ls => ("ip_pair_vic_bytes_total".toList, ls) := by
  rw [readSeries, formatSeries_eq, ident_append (by decide) (by decide)]
  rfl

theorem four_le_length (src dest dom glob : Text) :
    ∃ n, (formatSeries src dest dom glob).length = n + 1 + 1 + 1 + 1 := by
  have hlen : 4 ≤ (formatSeries src dest dom glob).length := by
    rw [formatSeries, List.length_append]
    exact le_trans (by decide) (Nat.le_add_right metricName.length _)
  exact ⟨_, (Nat.sub_add_cancel hlen).symm⟩

/-- The labels come back exactly when nothing in them needed escaping. -/
theorem roundTrips_iff (src dest dom glob : Text) :
    RoundTrips src dest dom glob ↔ Plain src ∧ Plain dest ∧ Plain dom ∧ Plain glob := by
  obtain ⟨n, hn⟩ := four_le_length src dest dom glob
  have hread : RoundTrips src dest dom glob ↔
      readLabels (n + 1 + 1 + 1 + 1) (labelText src dest dom glob)
        = some [("src_ip".toList, src), ("dest_ip".toList, dest), ("prob_domain".toList, dom),
            ("glob".toList, glob)] := by
    rw [RoundTrips, readSeries_formatSeries, hn]
    cases readLabels (n + 1 + 1 + 1 + 1) (labelText src dest dom glob) <;> simp
  rw [hread]
  unfold labelText
  rw [readLabels_label_iff (by decide) rfl,
    readLabels_label_iff (by decide) rfl, readLabels_label_iff (by decide) rfl,
    readLabels_last_iff (by decide)]

/-- A sealed domain may be read back as another one, but the labels the policy
code asks for come back as they were. -/
theorem readSeries_of_isSealed {src dest dom glob metric : Text} {ls : List (Text × Text)}
    (hsrc : Plain src) (hdest : Plain dest) (hdom : isSealed dom = true) (hglob : Plain glob)
    (h : readSeries (formatSeries src dest dom glob) = some (metric, ls)) :
    ls.lookup "src_ip".toList = some src ∧ ls.lookup "glob".toList = some glob := by
  obtain ⟨n, hn⟩ := four_le_length src dest dom glob
  rw [readSeries_formatSeries, hn] at h
  obtain ⟨ls', hread, heq⟩ := Option.map_eq_some_iff.mp h
  obtain ⟨-, rfl⟩ := Prod.mk.inj heq
  unfold labelText at hread
  obtain ⟨w1, l1, rfl, hread, hw1⟩ :=
    readLabels_of_isSealed (by decide) rfl (isSealed_of_plain hsrc) hread
  obtain ⟨w2, l2, rfl, hread, -⟩ :=
    readLabels_of_isSealed (by decide) rfl (isSealed_of_plain hdest) hread
  obtain ⟨w3, l3, rfl, hread, -⟩ := readLabels_of_isSealed (by decide) rfl hdom hread
  obtain rfl := readLabels_last_of_plain (by decide) hglob hread
  rw [hw1 hsrc]
  exact ⟨rfl, rfl⟩

theorem plain_text (ip : IPv4) : Plain ip.text := by
  have hnot : ∀ {c : Char}, c.isDigit = false → c ≠ '.' → c ∉ ip.text := by
    intro c hdigit hdot hc
    have hdec := fun n => Numeral.notMem_decimal hdigit n
    rw [IPv4.text, IPv4.numerals] at hc
    simp [List.intercalate, List.intersperse, hdec, hdot] at hc
  exact ⟨hnot (by decide) (by decide), hnot (by decide) (by decide),
    hnot (by decide) (by decide)⟩

/-- The glob label read back from an entry's series is the name of `gg`, and
`GetGlob` finds it there. -/
def GlobLabelFound (G : GlobTable) (b : BandwidthList) (gg : GlobGroup) : Prop :=
  ∃ ls, readSeries (seriesName b) = some ("ip_pair_vic_bytes_total".toList, ls)
    ∧ ls.lookup "glob".toList = some gg.name ∧ getGlob false G gg.name = some gg

section Credited

variable {fmatch : Text → Text → Bool} {ord : RowOrder} {G : GlobTable} {D : DnsTable}

theorem globLabelFound_of_plain {e : ByteEntry} {gg : GlobGroup}
    (h : creditedGroup fmatch ord G D (keyDestIp e.key).text = some gg)
    (hdom : Plain (bandwidthOf fmatch ord G D e).probDomain) (hname : Plain gg.name) :
    GlobLabelFound G (bandwidthOf fmatch ord G D e) gg := by
  have hglob : (bandwidthOf fmatch ord G D e).globName = gg.name := by
    simp only [bandwidthOf, h]
  have hround : RoundTrips (bandwidthOf fmatch ord G D e).srcIpAddr.text
      (bandwidthOf fmatch ord G D e).destIpAddr.text
      (bandwidthOf fmatch ord G D e).probDomain gg.name :=
    (roundTrips_iff _ _ _ _).mpr ⟨plain_text _, plain_text _, hdom, hname⟩
  have hlookup : G.lookup gg.name = some gg := KeyedTable.lookup_key (mem_of_creditedGroup h)
  exact ⟨_, by rw [seriesName_eq, hglob]; exact hround, rfl, hlookup⟩

end Credited

/-- The labels of a series come back exactly when none of the four texts needed
escaping; and then the policy code finds the group it is given. -/
theorem labels_roundTrip (fmatch : Text → Text → Bool) (ord : RowOrder) (G : GlobTable)
    (D : DnsTable) :
    (∀ src dest dom glob, RoundTrips src dest dom glob ↔
        Plain src ∧ Plain dest ∧ Plain dom ∧ Plain glob)
      ∧ ∀ (e : ByteEntry) (gg : GlobGroup),
          creditedGroup fmatch ord G D (keyDestIp e.key).text = some gg →
          Plain (bandwidthOf fmatch ord G D e).probDomain → Plain gg.name →
            GlobLabelFound G (bandwidthOf fmatch ord G D e) gg :=
  ⟨roundTrips_iff, fun _ _ => globLabelFound_of_plain⟩

theorem glob_label_found_reddit :
    GlobLabelFound redditGlobs (bandwidthOf redditGlob RowOrder.stored redditGlobs redditDns
      ⟨pairKey ⟨192, 168, 0, 20⟩ redditServer, 100⟩) redditGroup :=
  (labels_roundTrip redditGlob RowOrder.stored redditGlobs redditDns).2 _ _ (by decide)
    (by decide) (by decide)

def namedGlobs (name : Text) : GlobTable :=
  addGlob KeyedTable.empty { redditGroup with name := name }

def namedEntry (name : Text) : BandwidthList :=
  bandwidthOf redditGlob RowOrder.stored (namedGlobs name) redditDns
    ⟨pairKey ⟨192, 168, 0, 20⟩ redditServer, 100⟩

/-- A quote in the group's name makes the series malformed; two backslashes are
read back as one, and no group has that name. -/
theorem unescaped_names :
    readSeries (seriesName (namedEntry "red\"dit".toList)) = none
      ∧ ¬RoundTrips "192.168.0.20".toList "151.101.1.140".toList "www.reddit.com.".toList
          "red\"dit".toList
      ∧ (readSeries (seriesName (namedEntry "red\\\\dit".toList))).map Prod.snd
          = some [("src_ip".toList, "192.168.0.20".toList),
              ("dest_ip".toList, "151.101.1.140".toList),
              ("prob_domain".toList, "www.reddit.com.".toList), ("glob".toList, "red\\dit".toList)]
      ∧ getGlob false (namedGlobs "red\\\\dit".toList) "red\\dit".toList = none := by
  refine ⟨by decide +kernel, fun h => ?_, by decide +kernel, by decide⟩
  have hplain := ((roundTrips_iff _ _ _ _).mp h).2.2.2
  revert hplain
  decide

end Nethadone
