import Mathlib.Data.List.Basic

/-!
# Collecting fallible results

`l.mapM f` for a partial `f`: all the results in order, or none at all.
`mapM_eq_some_iff` takes the monad out of it; the rest is what clients ask
for, member by member.
-/

namespace Collect

variable {α β : Type*} {f : α → Option β}

theorem mapM_eq_some_iff : ∀ {l : List α} {ys : List β},
    l.mapM f = some ys ↔ l.map f = ys.map some
  | [], ys => by cases ys <;> simp
  | a :: l, [] => by
      rw [List.mapM_cons]
      cases f a <;> cases l.mapM f <;> simp
  | a :: l, y :: ys => by
      rw [List.mapM_cons, List.map_cons, List.map_cons, List.cons.injEq, ← mapM_eq_some_iff]
      cases f a <;> cases l.mapM f <;> simp

theorem mapM_eq_map {g : α → β} {l : List α} (h : ∀ a ∈ l, f a = some (g a)) :
    l.mapM f = some (l.map g) := by
  rw [mapM_eq_some_iff, List.map_map]
  exact List.map_congr_left h

variable {l : List α} {ys : List β}

theorem exists_of_mapM (h : l.mapM f = some ys) {a : α} (ha : a ∈ l) : ∃ b ∈ ys, f a = some b := by
  have hmem : f a ∈ ys.map some := mapM_eq_some_iff.mp h ▸ List.mem_map_of_mem ha
  obtain ⟨b, hb, hab⟩ := List.mem_map.mp hmem
  exact ⟨b, hb, hab.symm⟩

theorem mem_of_mapM (h : l.mapM f = some ys) {b : β} : b ∈ ys ↔ ∃ a ∈ l, f a = some b := by
  constructor
  · intro hb
    have hmem : some b ∈ l.map f := (mapM_eq_some_iff.mp h).symm ▸ List.mem_map_of_mem hb
    exact List.mem_map.mp hmem
  · rintro ⟨a, ha, hab⟩
    obtain ⟨b', hb', hab'⟩ := exists_of_mapM h ha
    obtain rfl : b' = b := Option.some.inj (hab'.symm.trans hab)
    exact hb'

theorem mapM_append {l₁ l₂ : List α} (h : (l₁ ++ l₂).mapM f = some ys) :
    ∃ ys₁ ys₂, l₁.mapM f = some ys₁ ∧ l₂.mapM f = some ys₂ ∧ ys = ys₁ ++ ys₂ := by
  rw [mapM_eq_some_iff, List.map_append] at h
  obtain ⟨ys₁, ys₂, rfl, h₁, h₂⟩ := List.map_eq_append_iff.mp h.symm
  exact ⟨ys₁, ys₂, mapM_eq_some_iff.mpr h₁.symm, mapM_eq_some_iff.mpr h₂.symm, rfl⟩

theorem eq_map_getD (h : l.mapM f = some ys) (d : β) : ys = l.map fun a => (f a).getD d := by
  have hmap : (l.map f).map (·.getD d) = (ys.map some).map (·.getD d) := by
    rw [mapM_eq_some_iff.mp h]
  rw [List.map_map, List.map_map] at hmap
  exact (List.map_id ys).symm.trans hmap.symm

theorem isSome_mapM_iff : (l.mapM f).isSome ↔ ∀ a ∈ l, (f a).isSome := by
  constructor
  · intro h a ha
    obtain ⟨ys, hys⟩ := Option.isSome_iff_exists.mp h
    obtain ⟨b, -, hb⟩ := exists_of_mapM hys ha
    exact Option.isSome_iff_exists.mpr ⟨b, hb⟩
  · intro h
    induction l with
    | nil => rfl
    | cons a l ih =>
        obtain ⟨b, hb⟩ := Option.isSome_iff_exists.mp (h a (List.mem_cons_self ..))
        obtain ⟨ys, hys⟩ := Option.isSome_iff_exists.mp
          (ih fun a' ha' => h a' (List.mem_cons_of_mem _ ha'))
        rw [List.mapM_cons, hb, hys]
        rfl

end Collect
