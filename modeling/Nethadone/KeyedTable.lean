import Mathlib.Algebra.BigOperators.Group.List.Basic
import Mathlib.Data.List.Nodup

/-!
# Tables with a primary key

A table is the list of its rows, in the order the store keeps them, with
the proof that no two rows share a key. The three writes a keyed store
offers are here:

- `upsert` — "insert, or on conflict update": the row with the same key
  is replaced where it stands, a new key goes to the end;
- `insert?` — a plain insert, which the key constraint refuses when the
  key is taken;
- `erase` — delete by key.

Clients reason about `lookup` only: `lookup_upsert` and `lookup_erase` say
what each write does to every key at once, so the frame condition ("every
other row is unchanged") comes with the update.
-/

structure KeyedTable {ρ κ : Type*} (key : ρ → κ) where
  rows : List ρ
  nodup : (rows.map key).Nodup

namespace KeyedTable

variable {ρ κ : Type*} {key : ρ → κ}

@[ext] theorem ext {t t' : KeyedTable key} (h : t.rows = t'.rows) : t = t' := by
  cases t; cases t'; cases h; rfl

def empty : KeyedTable key := ⟨[], List.nodup_nil⟩

theorem eq_of_key {t : KeyedTable key} {r r' : ρ} (h : r ∈ t.rows)
    (h' : r' ∈ t.rows) (hk : key r = key r') : r = r' :=
  List.inj_on_of_nodup_map t.nodup h h' hk

variable [DecidableEq κ]

/-! ## Reading -/

def lookup (t : KeyedTable key) (k : κ) : Option ρ :=
  t.rows.find? fun r => key r = k

theorem lookup_eq_some {t : KeyedTable key} {k : κ} {r : ρ} :
    t.lookup k = some r ↔ r ∈ t.rows ∧ key r = k := by
  constructor
  · intro h
    exact ⟨List.mem_of_find?_eq_some h, by simpa using List.find?_some h⟩
  · rintro ⟨hr, rfl⟩
    cases hf : t.lookup (key r) with
    | none =>
        have := List.find?_eq_none.mp hf r hr
        simp at this
    | some r' =>
        have hk : key r' = key r := by simpa using List.find?_some hf
        rw [eq_of_key (List.mem_of_find?_eq_some hf) hr hk]

theorem lookup_key {t : KeyedTable key} {r : ρ} (h : r ∈ t.rows) :
    t.lookup (key r) = some r :=
  lookup_eq_some.mpr ⟨h, rfl⟩

@[simp] theorem lookup_empty (k : κ) : (empty : KeyedTable key).lookup k = none := rfl

/-! ## Writing -/

def overwrite (key : ρ → κ) (r x : ρ) : ρ := if key x = key r then r else x

theorem key_overwrite (r x : ρ) : key (overwrite key r x) = key x := by
  unfold overwrite
  split
  · rename_i h; exact h.symm
  · rfl

def upsert (t : KeyedTable key) (r : ρ) : KeyedTable key :=
  if h : key r ∈ t.rows.map key then
    ⟨t.rows.map (overwrite key r), by
      rw [List.map_map, show key ∘ overwrite key r = key from
        funext (key_overwrite r)]
      exact t.nodup⟩
  else
    ⟨t.rows ++ [r], by
      rw [List.map_append]
      exact t.nodup.append (by simp) (by simpa using h)⟩

def insert? (t : KeyedTable key) (r : ρ) : Option (KeyedTable key) :=
  if key r ∈ t.rows.map key then none else some (t.upsert r)

def erase (t : KeyedTable key) (k : κ) : KeyedTable key :=
  ⟨t.rows.filter fun r => key r ≠ k, (t.nodup.sublist (List.filter_sublist.map key))⟩

theorem mem_upsert {t : KeyedTable key} {r x : ρ} :
    x ∈ (t.upsert r).rows ↔ x = r ∨ (x ∈ t.rows ∧ key x ≠ key r) := by
  unfold upsert
  split
  · rename_i hr
    simp only [List.mem_map, overwrite]
    constructor
    · rintro ⟨y, hy, rfl⟩
      by_cases hyr : key y = key r
      · exact Or.inl (if_pos hyr)
      · rw [if_neg hyr]; exact Or.inr ⟨hy, hyr⟩
    · rintro (rfl | ⟨hx, hne⟩)
      · obtain ⟨y, hy, hyk⟩ := List.mem_map.mp hr
        exact ⟨y, hy, if_pos hyk⟩
      · exact ⟨x, hx, if_neg hne⟩
  · rename_i hr
    have hfresh : x ∈ t.rows → key x ≠ key r := fun hx he =>
      hr (List.mem_map.mpr ⟨x, hx, he⟩)
    simp only [List.mem_append, List.mem_singleton]
    tauto

theorem mem_erase {t : KeyedTable key} {k : κ} {x : ρ} :
    x ∈ (t.erase k).rows ↔ x ∈ t.rows ∧ key x ≠ k := by
  simp [erase]

theorem lookup_upsert (t : KeyedTable key) (r : ρ) (k : κ) :
    (t.upsert r).lookup k = if key r = k then some r else t.lookup k := by
  apply Option.ext
  intro x
  rw [lookup_eq_some, mem_upsert]
  split
  · rename_i hk
    subst hk
    simp only [Option.some.injEq]
    constructor
    · rintro ⟨rfl | ⟨-, hne⟩, he⟩
      · rfl
      · exact absurd he hne
    · rintro rfl; exact ⟨Or.inl rfl, rfl⟩
  · rename_i hk
    rw [lookup_eq_some]
    constructor
    · rintro ⟨rfl | ⟨hx, -⟩, he⟩
      · exact absurd he hk
      · exact ⟨hx, he⟩
    · rintro ⟨hx, rfl⟩
      exact ⟨Or.inr ⟨hx, fun he => hk he.symm⟩, rfl⟩

theorem length_upsert (t : KeyedTable key) (r : ρ) :
    (t.upsert r).rows.length
      = if (t.lookup (key r)).isSome then t.rows.length else t.rows.length + 1 := by
  have hmem : key r ∈ t.rows.map key ↔ (t.lookup (key r)).isSome := by
    rw [lookup, List.find?_isSome, List.mem_map]
    simp
  rw [upsert]
  by_cases h : key r ∈ t.rows.map key
  · rw [dif_pos h, if_pos (hmem.mp h)]
    exact List.length_map ..
  · rw [dif_neg h, if_neg fun hs => h (hmem.mpr hs)]
    exact List.length_append

theorem lookup_erase (t : KeyedTable key) (k k' : κ) :
    (t.erase k).lookup k' = if k = k' then none else t.lookup k' := by
  apply Option.ext
  intro x
  rw [lookup_eq_some, mem_erase]
  split
  · rename_i hk
    subst hk
    simp
  · rename_i hk
    rw [lookup_eq_some]
    constructor
    · rintro ⟨⟨hx, -⟩, he⟩; exact ⟨hx, he⟩
    · rintro ⟨hx, rfl⟩; exact ⟨⟨hx, fun he => hk he.symm⟩, rfl⟩

/-- Tables that answer every key alike have the same rows, in some order. -/
theorem rows_perm_of_lookup {t t' : KeyedTable key} (h : ∀ k, t.lookup k = t'.lookup k) :
    t.rows.Perm t'.rows := by
  rw [List.perm_ext_iff_of_nodup (List.Nodup.of_map _ t.nodup) (List.Nodup.of_map _ t'.nodup)]
  intro r
  have hmem : ∀ t : KeyedTable key, r ∈ t.rows ↔ t.lookup (key r) = some r := fun t => by
    rw [lookup_eq_some, and_iff_left rfl]
  rw [hmem, hmem, h]

/-- The rows under a key are the one row that lookup finds, or none. -/
theorem filter_key (t : KeyedTable key) (k : κ) :
    t.rows.filter (fun r => key r = k) = (t.lookup k).toList := by
  have hlist : ∀ l : List ρ, (l.map key).Nodup →
      l.filter (fun r => key r = k) = (l.find? fun r => key r = k).toList := by
    intro l
    induction l with
    | nil => intro _; rfl
    | cons r l ih =>
        intro hnd
        obtain ⟨hr, hnd'⟩ := List.nodup_cons.mp hnd
        by_cases hk : key r = k
        · have hnone : l.filter (fun r => key r = k) = [] := by
            rw [List.filter_eq_nil_iff]
            intro r' hr' he
            exact hr (List.mem_map.mpr ⟨r', hr', (of_decide_eq_true he).trans hk.symm⟩)
          simp [hk, hnone]
        · simp [hk, ih hnd']
  exact hlist t.rows t.nodup

/-! ## Many writes -/

/-- After many writes a key has the row that was written last for it. -/
theorem lookup_foldl_upsert (rs : List ρ) (t : KeyedTable key) (k : κ) :
    (rs.foldl upsert t).lookup k
      = ((rs.filter fun r => key r = k).getLast?).or (t.lookup k) := by
  induction rs generalizing t with
  | nil => rfl
  | cons r rs ih =>
      rw [List.foldl_cons, ih, lookup_upsert]
      by_cases hk : key r = k
      · rw [if_pos hk, List.filter_cons_of_pos (by simpa using hk), List.getLast?_cons]
        cases (rs.filter fun r => key r = k).getLast? <;> rfl
      · rw [if_neg hk, List.filter_cons_of_neg (by simpa using hk)]

theorem lookup_foldl_upsert_of_notMem {rs : List ρ} {t : KeyedTable key} {k : κ}
    (h : ∀ r ∈ rs, key r ≠ k) : (rs.foldl upsert t).lookup k = t.lookup k := by
  have hnil : rs.filter (fun r => key r = k) = [] := by simpa using h
  rw [lookup_foldl_upsert, hnil]
  rfl

theorem lookup_foldl_upsert_of_mem {rs : List ρ} {t : KeyedTable key} {r : ρ}
    (hnd : (rs.map key).Nodup) (hr : r ∈ rs) : (rs.foldl upsert t).lookup (key r) = some r := by
  cases hl : (rs.filter fun r' => key r' = key r).getLast? with
  | none =>
      rw [List.getLast?_eq_none_iff, List.filter_eq_nil_iff] at hl
      exact absurd (decide_eq_true rfl) (hl r hr)
  | some r' =>
      obtain ⟨hr', hkey⟩ := List.mem_filter.mp (List.mem_of_getLast? hl)
      rw [lookup_foldl_upsert, hl, List.inj_on_of_nodup_map hnd hr' hr (of_decide_eq_true hkey)]
      rfl

theorem mem_foldl_upsert {rs : List ρ} {t : KeyedTable key} {x : ρ}
    (hx : x ∈ (rs.foldl upsert t).rows) : x ∈ rs ∨ x ∈ t.rows := by
  induction rs generalizing t with
  | nil => exact Or.inr hx
  | cons r rs ih =>
      rcases ih hx with h | h
      · exact Or.inl (List.mem_cons_of_mem _ h)
      · rcases mem_upsert.mp h with rfl | ⟨h, -⟩
        · exact Or.inl (List.mem_cons_self ..)
        · exact Or.inr h

/-- A sum over the rows to which only one key contributes. -/
theorem sum_rows_of_key {M : Type*} [AddMonoid M] {f : ρ → M} {k : κ} (t : KeyedTable key)
    (h : ∀ r ∈ t.rows, key r ≠ k → f r = 0) :
    (t.rows.map f).sum = (t.lookup k).elim 0 f := by
  have hlist : ∀ l : List ρ, (l.map key).Nodup → (∀ r ∈ l, key r ≠ k → f r = 0) →
      (l.map f).sum = (l.find? fun r => key r = k).elim 0 f := by
    intro l
    induction l with
    | nil => intro _ _; rfl
    | cons r l ih =>
        intro hnd hl
        obtain ⟨hr, hnd'⟩ := List.nodup_cons.mp hnd
        have ih := ih hnd' fun r' hr' => hl r' (List.mem_cons_of_mem _ hr')
        rw [List.map_cons, List.sum_cons, ih, List.find?_cons]
        by_cases hk : key r = k
        · have hnone : (l.find? fun r => key r = k) = none := by
            rw [List.find?_eq_none]
            intro r' hr' he
            exact hr (List.mem_map.mpr ⟨r', hr', (of_decide_eq_true he).trans hk.symm⟩)
          simp [hk, hnone]
        · simp [hk, hl r (List.mem_cons_self ..) hk]
  exact hlist t.rows t.nodup h

end KeyedTable
