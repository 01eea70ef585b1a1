import Mathlib.Data.Finset.Card
import Mathlib.Data.Finset.Dedup
import Nethadone.KeyedTable

/-!
# Tables with a bounded number of rows

A store that takes a new key only while it holds fewer than `cap` rows and
says nothing when it does not (`put`), fed with events that are each merged
into the row of their key (`feed`).

Which keys get a row depends on the order in which new keys come, and on
nothing else: those with fewer than `cap` other keys before their first
event (`FirstWithin`). They keep up with all their events, from the first
one on, and the others never get a row (`feed_lookup`). So no key is left
out exactly when there are at most `cap` of them (`firstWithin_all_iff`).
-/

namespace CappedTable

open KeyedTable

/-! ## The first keys -/

section Keys

variable {κ : Type*} [DecidableEq κ] {cap : Nat} {ks : List κ} {k k₀ : κ}

/-- Fewer than `cap` keys came before the first `k`. -/
def FirstWithin (cap : Nat) (ks : List κ) (k : κ) : Prop :=
  ∃ pre post, ks = pre ++ k :: post ∧ k ∉ pre ∧ pre.toFinset.card < cap

theorem FirstWithin.mem (h : FirstWithin cap ks k) : k ∈ ks := by
  obtain ⟨pre, post, rfl, -, -⟩ := h
  simp

theorem firstWithin_concat : FirstWithin cap (ks ++ [k₀]) k ↔
    FirstWithin cap ks k ∨ (k = k₀ ∧ k₀ ∉ ks ∧ ks.toFinset.card < cap) := by
  constructor
  · rintro ⟨pre, post, heq, hnew, hcard⟩
    rcases List.eq_nil_or_concat post with rfl | ⟨post, k', rfl⟩
    · obtain ⟨rfl, hk⟩ := List.append_inj' heq rfl
      obtain rfl := List.singleton_inj.mp hk
      exact Or.inr ⟨rfl, hnew, hcard⟩
    · rw [List.concat_eq_append, ← List.cons_append, ← List.append_assoc] at heq
      exact Or.inl ⟨pre, post, (List.append_inj' heq rfl).1, hnew, hcard⟩
  · rintro (⟨pre, post, rfl, hnew, hcard⟩ | ⟨rfl, hnew, hcard⟩)
    · exact ⟨pre, post ++ [k₀], by simp, hnew, hcard⟩
    · exact ⟨ks, [], rfl, hnew, hcard⟩

theorem firstWithin_concat_of_mem (h : k₀ ∈ ks) :
    FirstWithin cap (ks ++ [k₀]) k ↔ FirstWithin cap ks k := by
  rw [firstWithin_concat]
  exact or_iff_left fun hnew => hnew.2.1 h

theorem firstWithin_concat_of_ne (h : k ≠ k₀) :
    FirstWithin cap (ks ++ [k₀]) k ↔ FirstWithin cap ks k := by
  rw [firstWithin_concat]
  exact or_iff_left fun hnew => h hnew.1

theorem toFinset_concat_of_mem (h : k₀ ∈ ks) : (ks ++ [k₀]).toFinset = ks.toFinset := by
  simp [h]

theorem card_concat_of_notMem (h : k₀ ∉ ks) :
    (ks ++ [k₀]).toFinset.card = ks.toFinset.card + 1 := by
  rw [List.toFinset_append, List.toFinset_cons, List.toFinset_nil, Finset.union_comm,
    insert_empty_eq, ← Finset.insert_eq, Finset.card_insert_of_notMem]
  rwa [List.mem_toFinset]

/-- A key that came too late came when there were `cap` keys already. -/
theorem cap_le_of_not_firstWithin (hk : k ∈ ks) (h : ¬FirstWithin cap ks k) :
    cap ≤ ks.toFinset.card := by
  obtain ⟨pre, post, rfl, hnew⟩ := List.eq_append_cons_of_mem hk
  have hcap : cap ≤ pre.toFinset.card := by
    by_contra hlt
    exact h ⟨pre, post, rfl, hnew, not_le.mp hlt⟩
  refine hcap.trans (Finset.card_le_card fun x hx => ?_)
  rw [List.mem_toFinset] at hx ⊢
  exact List.mem_append_left _ hx

theorem firstWithin_all_iff : (∀ k ∈ ks, FirstWithin cap ks k) ↔ ks.toFinset.card ≤ cap := by
  induction ks using List.reverseRecOn with
  | nil => simp
  | append_singleton ks k₀ ih =>
      by_cases hk₀ : k₀ ∈ ks
      · rw [toFinset_concat_of_mem hk₀, ← ih]
        constructor
        · exact fun h k hk => (firstWithin_concat_of_mem hk₀).mp (h k (List.mem_append_left _ hk))
        · intro h k hk
          refine (firstWithin_concat_of_mem hk₀).mpr (h k ?_)
          rcases List.mem_append.mp hk with hk | hk
          · exact hk
          · obtain rfl := List.mem_singleton.mp hk
            exact hk₀
      · rw [card_concat_of_notMem hk₀]
        constructor
        · intro h
          rcases firstWithin_concat.mp (h k₀ (by simp)) with hold | ⟨-, -, hlt⟩
          · exact absurd hold.mem hk₀
          · exact hlt
        · intro hlt k hk
          rcases List.mem_append.mp hk with hk | hk
          · exact firstWithin_concat.mpr (Or.inl (ih.mpr (by omega) k hk))
          · obtain rfl := List.mem_singleton.mp hk
            exact firstWithin_concat.mpr (Or.inr ⟨rfl, hk₀, hlt⟩)

/-- What the keys are called does not matter. -/
theorem firstWithin_map {κ' : Type*} [DecidableEq κ'] {f : κ → κ'} (hf : f.Injective) :
    FirstWithin cap (ks.map f) (f k) ↔ FirstWithin cap ks k := by
  have hcard : ∀ pre : List κ, (pre.map f).toFinset.card = pre.toFinset.card := fun pre => by
    have himage : (pre.map f).toFinset = pre.toFinset.image f := by ext; simp
    rw [himage, Finset.card_image_of_injective _ hf]
  constructor
  · rintro ⟨pre', post', heq, hnew, hlt⟩
    obtain ⟨pre, rest, rfl, rfl, hrest⟩ := List.map_eq_append_iff.mp heq
    obtain ⟨a, post, rfl, ha, rfl⟩ := List.map_eq_cons_iff.mp hrest
    obtain rfl := hf ha
    refine ⟨pre, post, rfl, fun hmem => hnew (List.mem_map_of_mem hmem), ?_⟩
    rwa [hcard] at hlt
  · rintro ⟨pre, post, rfl, hnew, hlt⟩
    refine ⟨pre.map f, post.map f, by simp, fun hmem => ?_, by rwa [hcard]⟩
    obtain ⟨a, ha, hak⟩ := List.mem_map.mp hmem
    exact hnew (hf hak ▸ ha)

end Keys

/-! ## The store -/

section Store

variable {ρ κ ε : Type*} [DecidableEq κ] {key : ρ → κ}

def put (cap : Nat) (t : KeyedTable key) (r : ρ) : KeyedTable key :=
  if (t.lookup (key r)).isNone ∧ cap ≤ t.rows.length then t else t.upsert r

/-- An event is merged into the row of its key. -/
def feed (cap : Nat) (keyOf : ε → κ) (merge : Option ρ → ε → ρ) (t : KeyedTable key) (e : ε) :
    KeyedTable key :=
  put cap t (merge (t.lookup (keyOf e)) e)

/-- What all the events of one key come to. -/
def merged (merge : Option ρ → ε → ρ) (es : List ε) : Option ρ :=
  es.foldl (fun v e => some (merge v e)) none

theorem merged_concat (merge : Option ρ → ε → ρ) (es : List ε) (e : ε) :
    merged merge (es ++ [e]) = some (merge (merged merge es) e) := by
  rw [merged, List.foldl_append]
  rfl

variable {cap : Nat} {keyOf : ε → κ} {merge : Option ρ → ε → ρ} {es : List ε}

/-- The store after the events, as the keys of the events tell it. -/
structure Fed (cap : Nat) (keyOf : ε → κ) (merge : Option ρ → ε → ρ) (es : List ε)
    (t : KeyedTable key) : Prop where
  length : t.rows.length = min cap (es.map keyOf).toFinset.card
  taken : ∀ k, FirstWithin cap (es.map keyOf) k →
    t.lookup k = merged merge (es.filter fun e => keyOf e = k)
  refused : ∀ k, ¬FirstWithin cap (es.map keyOf) k → t.lookup k = none

theorem Fed.isSome_iff {t : KeyedTable key} (h : Fed cap keyOf merge es t) (k : κ) :
    (t.lookup k).isSome ↔ FirstWithin cap (es.map keyOf) k := by
  constructor
  · intro hs
    by_contra hno
    rw [h.refused k hno] at hs
    cases hs
  · intro hf
    rw [h.taken k hf]
    obtain ⟨e, he, rfl⟩ := List.mem_map.mp hf.mem
    cases hl : es.filter (fun e' => keyOf e' = keyOf e) using List.reverseRecOn with
    | nil =>
        rw [List.filter_eq_nil_iff] at hl
        exact absurd (decide_eq_true rfl) (hl e he)
    | append_singleton l e' =>
        rw [merged_concat]
        rfl

section Feeding

variable {t : KeyedTable key} {e : ε}

theorem feed_of_taken (hkey : ∀ v e, key (merge v e) = keyOf e) (h : Fed cap keyOf merge es t)
    (he : FirstWithin cap (es.map keyOf ++ [keyOf e]) (keyOf e)) :
    feed cap keyOf merge t e = t.upsert (merge (t.lookup (keyOf e)) e) := by
  rw [feed, put, if_neg]
  rintro ⟨hnone, hfull⟩
  rw [hkey] at hnone
  rcases firstWithin_concat.mp he with hold | ⟨-, -, hlt⟩
  · rw [← h.isSome_iff] at hold
    simp [Option.isNone_iff_eq_none.mp hnone] at hold
  · rw [h.length] at hfull
    omega

theorem feed_of_refused (hkey : ∀ v e, key (merge v e) = keyOf e) (h : Fed cap keyOf merge es t)
    (he : ¬FirstWithin cap (es.map keyOf ++ [keyOf e]) (keyOf e)) :
    feed cap keyOf merge t e = t := by
  rw [firstWithin_concat, not_or] at he
  have hcap : cap ≤ (es.map keyOf).toFinset.card := by
    by_cases hmem : keyOf e ∈ es.map keyOf
    · exact cap_le_of_not_firstWithin hmem he.1
    · by_contra hlt
      exact he.2 ⟨rfl, hmem, not_le.mp hlt⟩
  rw [feed, put, if_pos]
  rw [hkey, h.refused _ he.1, h.length]
  exact ⟨rfl, by omega⟩

theorem filter_concat_of_ne {k : κ} (hk : k ≠ keyOf e) :
    (es ++ [e]).filter (fun e => keyOf e = k) = es.filter fun e => keyOf e = k := by
  simp [List.filter_append, hk.symm]

/-- A key that gets a row, now or before, has had all its events merged. -/
theorem Fed.lookup_of_taken (h : Fed cap keyOf merge es t)
    (he : FirstWithin cap (es.map keyOf ++ [keyOf e]) (keyOf e)) :
    t.lookup (keyOf e) = merged merge (es.filter fun e' => keyOf e' = keyOf e) := by
  rcases firstWithin_concat.mp he with hold | ⟨-, hnew, -⟩
  · exact h.taken _ hold
  · have hnil : es.filter (fun e' => keyOf e' = keyOf e) = [] := by
      rw [List.filter_eq_nil_iff]
      intro e' he' heq
      exact hnew (of_decide_eq_true heq ▸ List.mem_map_of_mem he')
    rw [hnil, h.refused _ fun hold => hnew hold.mem]
    rfl

theorem Fed.feed_taken (hkey : ∀ v e, key (merge v e) = keyOf e) (h : Fed cap keyOf merge es t)
    (he : FirstWithin cap (es.map keyOf ++ [keyOf e]) (keyOf e)) :
    Fed cap keyOf merge (es ++ [e]) (feed cap keyOf merge t e) := by
  have hmap : (es ++ [e]).map keyOf = es.map keyOf ++ [keyOf e] := List.map_append
  rw [feed_of_taken hkey h he]
  refine ⟨?_, fun k hk => ?_, fun k hk => ?_⟩
  · rw [hmap, length_upsert, hkey, h.length]
    rcases firstWithin_concat.mp he with hold | ⟨-, hnew, hlt⟩
    · rw [if_pos ((h.isSome_iff _).mpr hold), toFinset_concat_of_mem hold.mem]
    · have hno : ¬(t.lookup (keyOf e)).isSome := fun hs => hnew ((h.isSome_iff _).mp hs).mem
      rw [if_neg hno, card_concat_of_notMem hnew]
      omega
  · rw [lookup_upsert, hkey]
    by_cases hke : keyOf e = k
    · subst hke
      rw [if_pos rfl, List.filter_append, List.filter_singleton, decide_eq_true rfl, cond_true,
        merged_concat, h.lookup_of_taken he]
    · rw [hmap, firstWithin_concat_of_ne (Ne.symm hke)] at hk
      rw [if_neg hke, filter_concat_of_ne (Ne.symm hke), h.taken k hk]
  · rw [hmap] at hk
    have hne : k ≠ keyOf e := fun heq => hk (heq ▸ he)
    rw [firstWithin_concat_of_ne hne] at hk
    rw [lookup_upsert, hkey, if_neg hne.symm, h.refused k hk]

theorem Fed.feed_refused (hkey : ∀ v e, key (merge v e) = keyOf e) (h : Fed cap keyOf merge es t)
    (he : ¬FirstWithin cap (es.map keyOf ++ [keyOf e]) (keyOf e)) :
    Fed cap keyOf merge (es ++ [e]) (feed cap keyOf merge t e) := by
  have hmap : (es ++ [e]).map keyOf = es.map keyOf ++ [keyOf e] := List.map_append
  rw [feed_of_refused hkey h he]
  refine ⟨?_, fun k hk => ?_, fun k hk => ?_⟩
  · rw [hmap, h.length]
    rw [firstWithin_concat, not_or] at he
    by_cases hmem : keyOf e ∈ es.map keyOf
    · rw [toFinset_concat_of_mem hmem]
    · have hfull : ¬(es.map keyOf).toFinset.card < cap := fun hlt => he.2 ⟨rfl, hmem, hlt⟩
      rw [card_concat_of_notMem hmem]
      omega
  · rw [hmap] at hk
    have hne : k ≠ keyOf e := fun heq => he (heq ▸ hk)
    rw [firstWithin_concat_of_ne hne] at hk
    rw [filter_concat_of_ne hne, h.taken k hk]
  · rw [hmap, firstWithin_concat, not_or] at hk
    exact h.refused k hk.1

/-- One more event: the step of `fed_foldl`. -/
theorem Fed.feed (hkey : ∀ v e, key (merge v e) = keyOf e) (h : Fed cap keyOf merge es t) (e : ε) :
    Fed cap keyOf merge (es ++ [e]) (feed cap keyOf merge t e) := by
  by_cases he : FirstWithin cap (es.map keyOf ++ [keyOf e]) (keyOf e)
  · exact h.feed_taken hkey he
  · exact h.feed_refused hkey he

theorem fed_foldl (hkey : ∀ v e, key (merge v e) = keyOf e) (es : List ε) :
    Fed cap keyOf merge es (es.foldl (feed cap keyOf merge) (empty : KeyedTable key)) := by
  induction es using List.reverseRecOn with
  | nil =>
      refine ⟨by simp [empty], fun k hk => ?_, fun k _ => rfl⟩
      exact absurd hk.mem List.not_mem_nil
  | append_singleton es e ih =>
      rw [List.foldl_append]
      exact ih.feed hkey e

end Feeding

end Store

end CappedTable
