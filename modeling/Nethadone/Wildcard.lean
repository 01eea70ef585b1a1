import Mathlib.Data.List.Forall2

/-!
# Wildcard patterns

A pattern is a list of pieces over an alphabet: a set of letters, of which
one is read; `any`, one wild letter; and `star`, a run of wild letters.
Which letters are wild is a parameter. Two matchers may differ in that, so
that what is the same pattern to both matches more for one.

`matchToks_congr` says that they agree on words of letters wild for both.
`agree_iff` says when a matcher with a letter that is not wild agrees with
one for which every letter is, on all words: a star is never matched by the
two alike, since one of them can bound how often the letter occurs and the
other cannot. What is left are patterns that match nothing and patterns
without a star that ask for the same sets.
-/

namespace Wildcard

variable {α : Type*}

inductive Tok (α : Type*) where
  | star
  | any
  | set (member : α → Bool)

def Tok.isStar : Tok α → Bool
  | .star => true
  | .any | .set _ => false

/-- The letters a piece other than `star` reads. -/
def accepts (wild : α → Bool) : Tok α → α → Bool
  | .star, _ => false
  | .any, c => wild c
  | .set member, c => member c

/-! ## Matching -/

/-- A run of wild letters, then `k`. -/
def runs (wild : α → Bool) (k : List α → Bool) : List α → Bool
  | [] => k []
  | c :: s => k (c :: s) || (wild c && runs wild k s)

/-- One letter, then `k`. -/
def one (p : α → Bool) (k : List α → Bool) : List α → Bool
  | [] => false
  | c :: s => p c && k s

def matchToks (wild : α → Bool) : List (Tok α) → List α → Bool
  | [] => fun s => s.isEmpty
  | t :: ts =>
      match t with
      | .star => runs wild (matchToks wild ts)
      | .any => one (accepts wild .any) (matchToks wild ts)
      | .set member => one (accepts wild (.set member)) (matchToks wild ts)

theorem runs_iff {wild : α → Bool} {k : List α → Bool} {s : List α} :
    runs wild k s = true ↔ ∃ u v, s = u ++ v ∧ (∀ c ∈ u, wild c = true) ∧ k v = true := by
  induction s with
  | nil =>
      constructor
      · intro h
        exact ⟨[], [], rfl, by simp, h⟩
      · rintro ⟨u, v, heq, -, hk⟩
        obtain ⟨rfl, rfl⟩ := List.append_eq_nil_iff.mp heq.symm
        exact hk
  | cons c s ih =>
      rw [runs, Bool.or_eq_true, Bool.and_eq_true, ih]
      constructor
      · rintro (hk | ⟨hc, u, v, rfl, hu, hk⟩)
        · exact ⟨[], c :: s, rfl, by simp, hk⟩
        · exact ⟨c :: u, v, rfl, List.forall_mem_cons.mpr ⟨hc, hu⟩, hk⟩
      · rintro ⟨u, v, heq, hu, hk⟩
        cases u with
        | nil =>
            obtain rfl : c :: s = v := heq
            exact Or.inl hk
        | cons a u =>
            obtain ⟨rfl, rfl⟩ := List.cons.inj heq
            obtain ⟨hc, hu⟩ := List.forall_mem_cons.mp hu
            exact Or.inr ⟨hc, u, v, rfl, hu, hk⟩

section Steps

variable {wild : α → Bool} {t : Tok α} {ts : List (Tok α)} {s : List α}

theorem matchToks_nil_iff : matchToks wild [] s = true ↔ s = [] := List.isEmpty_iff

theorem matchToks_star_iff (ht : t.isStar = true) : matchToks wild (t :: ts) s = true ↔
    ∃ u v, s = u ++ v ∧ (∀ c ∈ u, wild c = true) ∧ matchToks wild ts v = true := by
  cases t with
  | star => exact runs_iff
  | any => cases ht
  | set member => cases ht

theorem matchToks_one_cons_iff (ht : t.isStar = false) {c : α} :
    matchToks wild (t :: ts) (c :: s) = true
      ↔ accepts wild t c = true ∧ matchToks wild ts s = true := by
  have hone : matchToks wild (t :: ts) (c :: s)
      = (accepts wild t c && matchToks wild ts s) := by
    cases t with
    | star => cases ht
    | any => rfl
    | set member => rfl
  rw [hone, Bool.and_eq_true]

theorem matchToks_one_iff (ht : t.isStar = false) : matchToks wild (t :: ts) s = true ↔
    ∃ c v, s = c :: v ∧ accepts wild t c = true ∧ matchToks wild ts v = true := by
  constructor
  · intro h
    cases s with
    | nil =>
        cases t with
        | star => cases ht
        | any => cases h
        | set member => cases h
    | cons c v => exact ⟨c, v, rfl, (matchToks_one_cons_iff ht).mp h⟩
  · rintro ⟨c, v, rfl, hcv⟩
    exact (matchToks_one_cons_iff ht).mpr hcv

end Steps

theorem accepts_congr {w w' : α → Bool} {t : Tok α} {c : α} (h : w c = w' c) :
    accepts w t c = accepts w' t c := by
  cases t with
  | star => rfl
  | any => exact h
  | set member => rfl

/-- Matchers that take the same letters of a word for wild agree on the word. -/
theorem matchToks_congr {w w' : α → Bool} {ts : List (Tok α)} {s : List α}
    (h : ∀ c ∈ s, w c = w' c) : matchToks w ts s = matchToks w' ts s := by
  have himp : ∀ {w w' : α → Bool} {ts : List (Tok α)} {s : List α}, (∀ c ∈ s, w c = w' c) →
      matchToks w ts s = true → matchToks w' ts s = true := by
    intro w w' ts
    induction ts with
    | nil => exact fun _ hm => hm
    | cons t ts ih =>
        intro s h hm
        cases ht : t.isStar with
        | true =>
            obtain ⟨u, v, rfl, hu, hv⟩ := (matchToks_star_iff ht).mp hm
            refine (matchToks_star_iff ht).mpr ⟨u, v, rfl, fun c hc => ?_,
              ih (fun c hc => h c (List.mem_append_right _ hc)) hv⟩
            rw [← h c (List.mem_append_left _ hc), hu c hc]
        | false =>
            obtain ⟨c, v, rfl, hc, hv⟩ := (matchToks_one_iff ht).mp hm
            refine (matchToks_one_iff ht).mpr ⟨c, v, rfl, ?_,
              ih (fun c hc => h c (List.mem_cons_of_mem _ hc)) hv⟩
            rw [← accepts_congr (h c (List.mem_cons_self ..)), hc]
  rw [Bool.eq_iff_iff]
  exact ⟨himp h, himp fun c hc => (h c hc).symm⟩

/-! ## What a pattern's words look like -/

/-- Some piece asks for a letter of which there is none. -/
def Barren (wild : α → Bool) (ts : List (Tok α)) : Prop :=
  ∃ t ∈ ts, t.isStar = false ∧ ∀ c, accepts wild t c = false

def NoStar (ts : List (Tok α)) : Prop := ∀ t ∈ ts, t.isStar = false

/-- The pieces, one by one, accept the same letters. -/
def SameSets (w w' : α → Bool) (ts us : List (Tok α)) : Prop :=
  List.Forall₂ (fun t u => ∀ c, accepts w t c = accepts w' u c) ts us

section Words

variable {wild : α → Bool} {ts : List (Tok α)} {s : List α}

theorem exists_match_iff : (∃ s, matchToks wild ts s = true) ↔ ¬Barren wild ts := by
  induction ts with
  | nil => exact iff_of_true ⟨[], rfl⟩ fun ⟨t, ht, _⟩ => List.not_mem_nil ht
  | cons t ts ih =>
      have hcons : Barren wild (t :: ts) ↔
          (t.isStar = false ∧ ∀ c, accepts wild t c = false) ∨ Barren wild ts :=
        List.exists_mem_cons_iff ..
      rw [hcons, not_or, ← ih]
      cases ht : t.isStar with
      | true =>
          constructor
          · rintro ⟨s, hs⟩
            obtain ⟨u, v, -, -, hv⟩ := (matchToks_star_iff ht).mp hs
            exact ⟨fun h => Bool.noConfusion h.1, v, hv⟩
          · rintro ⟨-, s, hs⟩
            exact ⟨s, (matchToks_star_iff ht).mpr ⟨[], s, rfl, by simp, hs⟩⟩
      | false =>
          constructor
          · rintro ⟨s, hs⟩
            obtain ⟨c, v, -, hc, hv⟩ := (matchToks_one_iff ht).mp hs
            refine ⟨fun h => ?_, v, hv⟩
            rw [h.2 c] at hc
            cases hc
          · rintro ⟨hne, s, hs⟩
            obtain ⟨c, hc⟩ : ∃ c, accepts wild t c = true := by
              by_contra hno
              exact hne ⟨rfl, fun c => Bool.eq_false_iff.mpr fun h => hno ⟨c, h⟩⟩
            exact ⟨c :: s, (matchToks_one_iff ht).mpr ⟨c, s, rfl, hc, hs⟩⟩

theorem length_of_noStar (hts : NoStar ts) (h : matchToks wild ts s = true) :
    s.length = ts.length := by
  induction ts generalizing s with
  | nil =>
      rw [matchToks_nil_iff.mp h]
      rfl
  | cons t ts ih =>
      obtain ⟨ht, hts⟩ := List.forall_mem_cons.mp hts
      obtain ⟨c, v, rfl, -, hv⟩ := (matchToks_one_iff ht).mp h
      rw [List.length_cons, List.length_cons, ih hts hv]

variable [DecidableEq α]

/-- A letter that is not wild occurs at most once for each piece. -/
theorem count_le_length {sep : α} (hsep : wild sep = false) (h : matchToks wild ts s = true) :
    s.count sep ≤ ts.length := by
  induction ts generalizing s with
  | nil =>
      rw [matchToks_nil_iff.mp h]
      exact Nat.le_refl _
  | cons t ts ih =>
      cases ht : t.isStar with
      | true =>
          obtain ⟨u, v, rfl, hu, hv⟩ := (matchToks_star_iff ht).mp h
          have hnot : sep ∉ u := fun hmem => by
            rw [hu sep hmem] at hsep
            cases hsep
          have := ih hv
          rw [List.count_append, List.count_eq_zero_of_not_mem hnot, List.length_cons]
          omega
      | false =>
          obtain ⟨c, v, rfl, -, hv⟩ := (matchToks_one_iff ht).mp h
          have := ih hv
          rw [List.count_cons, List.length_cons]
          split <;> omega

/-- Behind a star a wild letter occurs as often as one likes. -/
theorem exists_count_ge {x : α} (hx : wild x = true) (hstar : ¬NoStar ts)
    (h : matchToks wild ts s = true) (k : Nat) :
    ∃ s', matchToks wild ts s' = true ∧ k ≤ s'.count x := by
  induction ts generalizing s with
  | nil => exact absurd (fun t ht => absurd ht List.not_mem_nil) hstar
  | cons t ts ih =>
      cases ht : t.isStar with
      | true =>
          obtain ⟨u, v, rfl, hu, hv⟩ := (matchToks_star_iff ht).mp h
          refine ⟨List.replicate k x ++ v, (matchToks_star_iff ht).mpr
            ⟨_, v, rfl, fun c hc => ?_, hv⟩, ?_⟩
          · rw [List.eq_of_mem_replicate hc, hx]
          · rw [List.count_append, List.count_replicate_self]
            omega
      | false =>
          obtain ⟨c, v, rfl, hc, hv⟩ := (matchToks_one_iff ht).mp h
          have hrest : ¬NoStar ts := fun hno => hstar (List.forall_mem_cons.mpr ⟨ht, hno⟩)
          obtain ⟨s', hs', hk⟩ := ih hrest hv
          refine ⟨c :: s', (matchToks_one_iff ht).mpr ⟨c, s', rfl, hc, hs'⟩, ?_⟩
          rw [List.count_cons]
          omega

end Words

/-! ## When two matchers agree -/

section Agree

variable {w w' : α → Bool} {ts us : List (Tok α)}

theorem not_match_of_barren (h : Barren w ts) (s : List α) : matchToks w ts s = false :=
  Bool.eq_false_iff.mpr fun hs => exists_match_iff.mp ⟨s, hs⟩ h

theorem matchToks_of_sameSets (hts : NoStar ts) (hus : NoStar us) (h : SameSets w w' ts us)
    (s : List α) : matchToks w ts s = matchToks w' us s := by
  induction h generalizing s with
  | nil => rfl
  | @cons t u ts us hset _ ih =>
      obtain ⟨ht, hts⟩ := List.forall_mem_cons.mp hts
      obtain ⟨hu, hus⟩ := List.forall_mem_cons.mp hus
      rw [Bool.eq_iff_iff, matchToks_one_iff ht, matchToks_one_iff hu]
      simp only [hset, ih hts hus]

/-- Patterns without a star that match the same words, and some word at all, ask
for the same sets. -/
theorem sameSets_of_agree (hts : NoStar ts) (hus : NoStar us)
    (h : ∀ s, matchToks w ts s = matchToks w' us s) (hne : ∃ s, matchToks w ts s = true) :
    SameSets w w' ts us := by
  induction ts generalizing us with
  | nil =>
      obtain ⟨s, hs⟩ := hne
      have hlen := length_of_noStar hus ((h s).symm.trans hs)
      rw [matchToks_nil_iff.mp hs] at hlen
      obtain rfl := List.length_eq_zero_iff.mp hlen.symm
      exact List.Forall₂.nil
  | cons t ts ih =>
      obtain ⟨ht, hts⟩ := List.forall_mem_cons.mp hts
      obtain ⟨s, hs⟩ := hne
      obtain ⟨c, v, rfl, hc, hv⟩ := (matchToks_one_iff ht).mp hs
      cases us with
      | nil =>
          have hnil := matchToks_nil_iff.mp ((h (c :: v)).symm.trans hs)
          cases hnil
      | cons u us =>
          obtain ⟨hu, hus⟩ := List.forall_mem_cons.mp hus
          have hword : ∀ a r, accepts w t a = true ∧ matchToks w ts r = true ↔
              accepts w' u a = true ∧ matchToks w' us r = true := by
            intro a r
            rw [← matchToks_one_cons_iff ht, ← matchToks_one_cons_iff hu, h]
          obtain ⟨hc', hv'⟩ := (hword c v).mp ⟨hc, hv⟩
          refine List.Forall₂.cons (fun a => ?_) (ih hts hus (fun r => ?_) ⟨v, hv⟩)
          · -- vary the first letter before a fixed rest
            rw [Bool.eq_iff_iff]
            exact ⟨fun ha => ((hword a v).mp ⟨ha, hv⟩).1, fun ha => ((hword a v).mpr ⟨ha, hv'⟩).1⟩
          · rw [Bool.eq_iff_iff]
            exact ⟨fun hr => ((hword c r).mp ⟨hc, hr⟩).2, fun hr => ((hword c r).mpr ⟨hc', hr⟩).2⟩

variable [DecidableEq α]

theorem noStar_of_agree {sep x : α} (hsep : w sep = false) (hx : w x = true)
    (h : ∀ s, matchToks w ts s = matchToks (fun _ => true) us s)
    (hne : ∃ s, matchToks w ts s = true) : NoStar ts ∧ NoStar us := by
  obtain ⟨s, hs⟩ := hne
  have hs' : matchToks (fun _ => true) us s = true := (h s).symm.trans hs
  have hus : NoStar us := by
    by_contra hstar
    obtain ⟨s', hm, hcount⟩ := exists_count_ge (x := sep) rfl hstar hs' (ts.length + 1)
    have := count_le_length hsep ((h s').trans hm)
    omega
  refine ⟨?_, hus⟩
  by_contra hstar
  obtain ⟨s', hm, hcount⟩ := exists_count_ge hx hstar hs (us.length + 1)
  have hlen := length_of_noStar hus ((h s').symm.trans hm)
  have := List.count_le_length (a := x) (l := s')
  omega

/-- A matcher with a letter that is not wild agrees on every word with one for
which all letters are, exactly on patterns that match nothing for either
and on patterns without a star that ask for the same sets. -/
theorem agree_iff (sep x : α) (hsep : w sep = false) (hx : w x = true) :
    (∀ s, matchToks w ts s = matchToks (fun _ => true) us s) ↔
      Barren w ts ∧ Barren (fun _ => true) us
        ∨ NoStar ts ∧ NoStar us ∧ SameSets w (fun _ => true) ts us := by
  constructor
  · intro h
    by_cases hb : Barren w ts
    · refine Or.inl ⟨hb, ?_⟩
      by_contra hus
      obtain ⟨s, hs⟩ := exists_match_iff.mpr hus
      exact exists_match_iff.mp ⟨s, (h s).trans hs⟩ hb
    · have hne := exists_match_iff.mpr hb
      obtain ⟨hts, hus⟩ := noStar_of_agree hsep hx h hne
      exact Or.inr ⟨hts, hus, sameSets_of_agree hts hus h hne⟩
  · rintro (⟨hb, hb'⟩ | ⟨hts, hus, hsame⟩) s
    · rw [not_match_of_barren hb, not_match_of_barren hb']
    · exact matchToks_of_sameSets hts hus hsame s

end Agree

/-! ## When a matcher does not tell letters apart -/

section Variants

variable {R : α → α → Prop} {w : α → Bool} {t : Tok α} {ts : List (Tok α)} {s s' : List α}

/-- No piece tells related letters apart. -/
def Folds (R : α → α → Prop) (w : α → Bool) (ts : List (Tok α)) : Prop :=
  ∀ t ∈ ts, ∀ c c', R c c' → accepts w t c = accepts w t c'

/-- The pieces that read one letter. -/
def letters (ts : List (Tok α)) : List (Tok α) := ts.filter (!·.isStar)

theorem forall₂_append_left {u v s' : List α} (h : List.Forall₂ R (u ++ v) s') :
    ∃ u' v', s' = u' ++ v' ∧ List.Forall₂ R u u' ∧ List.Forall₂ R v v' := by
  induction u generalizing s' with
  | nil => exact ⟨[], s', rfl, List.Forall₂.nil, h⟩
  | cons c u ih =>
      rw [List.cons_append, List.forall₂_cons_left_iff] at h
      obtain ⟨c', s₁, hc, hs, rfl⟩ := h
      obtain ⟨u', v', rfl, hu, hv⟩ := ih hs
      exact ⟨c' :: u', v', rfl, List.Forall₂.cons hc hu, hv⟩

theorem forall_mem_of_forall₂ {P : α → Prop} (hP : ∀ c c', R c c' → P c → P c') {u u' : List α}
    (h : List.Forall₂ R u u') (hu : ∀ c ∈ u, P c) : ∀ c ∈ u', P c := by
  induction h with
  | nil => exact hu
  | cons hc _ ih =>
      obtain ⟨hPc, hu⟩ := List.forall_mem_cons.mp hu
      exact List.forall_mem_cons.mpr ⟨hP _ _ hc hPc, ih hu⟩

theorem match_of_folds (hw : ∀ c c', R c c' → w c = w c') (hts : Folds R w ts)
    (hs : List.Forall₂ R s s') (h : matchToks w ts s = true) : matchToks w ts s' = true := by
  induction ts generalizing s s' with
  | nil =>
      obtain rfl := matchToks_nil_iff.mp h
      rw [List.forall₂_nil_left_iff.mp hs]
      rfl
  | cons t ts ih =>
      obtain ⟨ht, hts⟩ := List.forall_mem_cons.mp hts
      cases hstar : t.isStar with
      | true =>
          obtain ⟨u, v, rfl, hu, hv⟩ := (matchToks_star_iff hstar).mp h
          obtain ⟨u', v', rfl, huu, hvv⟩ := forall₂_append_left hs
          have hu' : ∀ c ∈ u', w c = true :=
            forall_mem_of_forall₂ (fun c c' hc hwc => (hw c c' hc).symm.trans hwc) huu hu
          exact (matchToks_star_iff hstar).mpr ⟨u', v', rfl, hu', ih hts hvv hv⟩
      | false =>
          obtain ⟨c, v, rfl, hc, hv⟩ := (matchToks_one_iff hstar).mp h
          obtain ⟨c', v', hcc, hvv, rfl⟩ := List.forall₂_cons_left_iff.mp hs
          exact (matchToks_one_cons_iff hstar).mpr
            ⟨(ht c c' hcc).symm.trans hc, ih hts hvv hv⟩

/-- Words related letter by letter match a pattern alike, if neither its pieces
nor the wild letters tell related letters apart. -/
theorem matchToks_of_folds (hw : ∀ c c', R c c' → w c = w c') (hts : Folds R w ts)
    (hs : List.Forall₂ R s s') : matchToks w ts s = matchToks w ts s' := by
  have hback : Folds (fun c c' => R c' c) w ts := fun t ht c c' hc => (hts t ht c' c hc).symm
  rw [Bool.eq_iff_iff]
  exact ⟨match_of_folds hw hts hs,
    match_of_folds (R := fun c c' => R c' c) (fun c c' hc => (hw c' c hc).symm) hback hs.flip⟩

theorem length_le_of_match (h : matchToks w ts s = true) : (letters ts).length ≤ s.length := by
  induction ts generalizing s with
  | nil => exact Nat.zero_le _
  | cons t ts ih =>
      cases ht : t.isStar with
      | true =>
          obtain ⟨u, v, rfl, -, hv⟩ := (matchToks_star_iff ht).mp h
          have := ih hv
          rw [letters, List.filter_cons_of_neg (by simp [ht]), List.length_append]
          rw [letters] at this
          omega
      | false =>
          obtain ⟨c, v, rfl, -, hv⟩ := (matchToks_one_iff ht).mp h
          have := ih hv
          rw [letters, List.filter_cons_of_pos (by simp [ht]), List.length_cons, List.length_cons]
          rw [letters] at this
          omega

/-- A word as short as the pattern allows is matched letter by letter. -/
theorem match_shortest_iff (hlen : s.length = (letters ts).length) :
    matchToks w ts s = true ↔ List.Forall₂ (fun t c => accepts w t c = true) (letters ts) s := by
  induction ts generalizing s with
  | nil =>
      rw [List.length_eq_zero_iff.mp hlen]
      exact iff_of_true rfl List.Forall₂.nil
  | cons t ts ih =>
      cases ht : t.isStar with
      | true =>
          have hskip : letters (t :: ts) = letters ts := List.filter_cons_of_neg (by simp [ht])
          rw [hskip] at hlen ⊢
          rw [← ih hlen, matchToks_star_iff ht]
          constructor
          · rintro ⟨u, v, rfl, -, hv⟩
            -- nothing is left for the star
            have hu : u = [] := by
              have := length_le_of_match hv
              rw [List.length_append] at hlen
              exact List.length_eq_zero_iff.mp (by omega)
            rw [hu]
            exact hv
          · intro hs
            exact ⟨[], s, rfl, by simp, hs⟩
      | false =>
          have hkeep : letters (t :: ts) = t :: letters ts := List.filter_cons_of_pos (by simp [ht])
          rw [hkeep] at hlen ⊢
          cases s with
          | nil => cases hlen
          | cons c s =>
              rw [matchToks_one_cons_iff ht, List.forall₂_cons,
                ih (Nat.succ.inj hlen)]

/-- Some word fits the given pieces of a pattern that matches something. -/
theorem exists_fitting (hb : ¬Barren w ts) {us : List (Tok α)} (hus : ∀ u ∈ us, u ∈ letters ts) :
    ∃ q, List.Forall₂ (fun t c => accepts w t c = true) us q := by
  induction us with
  | nil => exact ⟨[], List.Forall₂.nil⟩
  | cons u us ih =>
      obtain ⟨hu, hus⟩ := List.forall_mem_cons.mp hus
      obtain ⟨q, hq⟩ := ih hus
      obtain ⟨hu, hone⟩ := List.mem_filter.mp hu
      obtain ⟨a, ha⟩ : ∃ a, accepts w u a = true := by
        by_contra hno
        exact hb ⟨u, hu, by simpa using hone,
          fun a => Bool.eq_false_iff.mpr fun ha => hno ⟨a, ha⟩⟩
      exact ⟨a :: q, List.Forall₂.cons ha hq⟩

/-- A piece can be asked about a letter through a word around it. -/
theorem exists_context (hb : ¬Barren w ts) (ht : t ∈ letters ts) :
    ∃ p q, ∀ a, matchToks w ts (p ++ a :: q) = accepts w t a := by
  obtain ⟨front, back, hsplit⟩ := List.append_of_mem ht
  have hfront : ∀ u ∈ front, u ∈ letters ts := fun u hu => by
    rw [hsplit]
    exact List.mem_append_left _ hu
  have hback : ∀ u ∈ back, u ∈ letters ts := fun u hu => by
    rw [hsplit]
    exact List.mem_append_right _ (List.mem_cons_of_mem _ hu)
  obtain ⟨p, hp⟩ := exists_fitting hb hfront
  obtain ⟨q, hq⟩ := exists_fitting hb hback
  refine ⟨p, q, fun a => ?_⟩
  have hlen : (p ++ a :: q).length = (letters ts).length := by
    rw [hsplit, List.length_append, List.length_append, List.length_cons, List.length_cons,
      hp.length_eq, hq.length_eq]
  rw [Bool.eq_iff_iff, match_shortest_iff hlen, hsplit]
  constructor
  · intro hall
    have hrest := List.forall₂_drop front.length hall
    rw [List.drop_left, hp.length_eq, List.drop_left, List.forall₂_cons] at hrest
    exact hrest.1
  · intro ha
    exact List.rel_append hp (List.Forall₂.cons ha hq)

/-- A matcher does not tell related letters apart in any word exactly for
patterns that match nothing, and for those none of whose pieces does. -/
theorem folds_iff (hrefl : ∀ c, R c c) (hw : ∀ c c', R c c' → w c = w c') :
    (∀ s s', List.Forall₂ R s s' → matchToks w ts s = matchToks w ts s') ↔
      Barren w ts ∨ Folds R w ts := by
  constructor
  · intro h
    by_cases hb : Barren w ts
    · exact Or.inl hb
    refine Or.inr fun t ht c c' hc => ?_
    cases t with
    | star => rfl
    | any => exact hw c c' hc
    | set member =>
        obtain ⟨p, q, hask⟩ := exists_context hb (List.mem_filter.mpr ⟨ht, rfl⟩)
        have hsame : ∀ l : List α, List.Forall₂ R l l := fun l =>
          List.forall₂_same.mpr fun a _ => hrefl a
        have hrel : List.Forall₂ R (p ++ c :: q) (p ++ c' :: q) :=
          List.rel_append (hsame p) (List.Forall₂.cons hc (hsame q))
        rw [← hask c, ← hask c', h _ _ hrel]
  · rintro (hb | hts) s s' hs
    · rw [not_match_of_barren hb, not_match_of_barren hb]
    · exact matchToks_of_folds hw hts hs

end Variants

end Wildcard
