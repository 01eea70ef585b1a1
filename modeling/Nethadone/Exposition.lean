import Mathlib.Data.List.TakeWhile

/-!
# Reading the text exposition format

One series of the text format that metrics are scraped in: a name, then
labels in braces, each an identifier with a quoted value. In a value a
backslash escapes a backslash, a quote or (written `n`) a line feed, and
none of the three may stand bare; anything else is malformed.

A writer that pastes values between quotes without escaping is read back
correctly exactly when the value is `Plain`: `quoted_of_plain` is the easy
direction, and `eq_of_quoted_self` says that no value with one of the three
characters is ever read back as itself, whatever the text behind it.
-/

namespace Exposition

/-- None of the characters that have to be escaped. -/
def Plain (v : List Char) : Prop := '"' ∉ v ∧ '\\' ∉ v ∧ '\n' ∉ v

instance (v : List Char) : Decidable (Plain v) := inferInstanceAs (Decidable (_ ∧ _))

/-! ## Quoted values -/

def unescape (c : Char) : Option Char :=
  if c = '\\' then some '\\' else if c = '"' then some '"' else if c = 'n' then some '\n' else none

/-- The value up to the closing quote, and what is behind it. -/
def quoted : List Char → Option (List Char × List Char)
  | [] => none
  | c :: rest =>
      if c = '"' then some ([], rest)
      else if c = '\n' then none
      else if c = '\\' then
        match rest with
        | [] => none
        | e :: rest' =>
            match unescape e with
            | none => none
            | some d => (quoted rest').map fun p => (d :: p.1, p.2)
      else (quoted rest).map fun p => (c :: p.1, p.2)

theorem quoted_cons (c : Char) (rest : List Char) :
    quoted (c :: rest)
      = if c = '"' then some ([], rest)
        else if c = '\n' then none
        else if c = '\\' then
          match rest with
          | [] => none
          | e :: rest' =>
              match unescape e with
              | none => none
              | some d => (quoted rest').map fun p => (d :: p.1, p.2)
        else (quoted rest).map fun p => (c :: p.1, p.2) := by
  rw [quoted.eq_def]

theorem quoted_quote (rest : List Char) : quoted ('"' :: rest) = some ([], rest) := by
  rw [quoted_cons, if_pos rfl]

theorem quoted_bare {c : Char} (hq : c ≠ '"') (hn : c ≠ '\n') (hb : c ≠ '\\')
    (rest : List Char) : quoted (c :: rest) = (quoted rest).map fun p => (c :: p.1, p.2) := by
  rw [quoted_cons, if_neg hq, if_neg hn, if_neg hb]

theorem quoted_of_plain {v : List Char} (h : Plain v) (rest : List Char) :
    quoted (v ++ '"' :: rest) = some (v, rest) := by
  induction v with
  | nil => exact quoted_quote rest
  | cons c v ih =>
      simp only [Plain, List.mem_cons, not_or] at h
      obtain ⟨⟨hq, hqs⟩, ⟨hb, hbs⟩, hn, hns⟩ := h
      rw [List.cons_append, quoted_bare (Ne.symm hq) (Ne.symm hn) (Ne.symm hb),
        ih ⟨hqs, hbs, hns⟩, Option.map_some]

theorem unescape_eq_backslash {e : Char} (h : unescape e = some '\\') : e = '\\' := by
  unfold unescape at h
  split at h
  · assumption
  · split at h
    · exact absurd (Option.some.inj h) (by decide)
    · split at h
      · exact absurd (Option.some.inj h) (by decide)
      · cases h

/-- A backslash is only read from an escaped one. -/
theorem quoted_eq_backslash {t v rest : List Char} (h : quoted t = some ('\\' :: v, rest)) :
    ∃ t', t = '\\' :: '\\' :: t' ∧ quoted t' = some (v, rest) := by
  cases t with
  | nil => cases h
  | cons c t =>
      rw [quoted_cons] at h
      by_cases hq : c = '"'
      · rw [if_pos hq] at h
        cases h
      · rw [if_neg hq] at h
        by_cases hn : c = '\n'
        · rw [if_pos hn] at h
          cases h
        · rw [if_neg hn] at h
          by_cases hb : c = '\\'
          · rw [if_pos hb] at h
            cases t with
            | nil => cases h
            | cons e t' =>
                cases hu : unescape e with
                | none => simp only [hu] at h; cases h
                | some d =>
                    simp only [hu] at h
                    obtain ⟨⟨w, r⟩, hw, heq⟩ := Option.map_eq_some_iff.mp h
                    obtain ⟨hcons, rfl⟩ := Prod.mk.inj heq
                    obtain ⟨rfl, rfl⟩ := List.cons.inj hcons
                    exact ⟨t', by rw [hb, unescape_eq_backslash hu], hw⟩
          · rw [if_neg hb] at h
            obtain ⟨p, -, heq⟩ := Option.map_eq_some_iff.mp h
            exact absurd (List.cons.inj (Prod.mk.inj heq).1).1 hb

/-- Reading halves the backslashes, so text in front of a quote is never read as
itself with more backslashes before it. -/
theorem quoted_ne_backslashes :
    ∀ {v : List Char} {k : Nat} {rest r : List Char},
      quoted (v ++ '"' :: rest) ≠ some (List.replicate (k + 1) '\\' ++ v, r)
  | [], k, rest, r, h => by
      rw [List.replicate_succ, List.cons_append] at h
      obtain ⟨t', ht, -⟩ := quoted_eq_backslash h
      exact absurd (List.cons.inj ht).1 (by decide)
  | [c], k, rest, r, h => by
      rw [List.replicate_succ, List.cons_append] at h
      obtain ⟨t', ht, -⟩ := quoted_eq_backslash h
      exact absurd (List.cons.inj (List.cons.inj ht).2).1 (by decide)
  | c :: e :: v, k, rest, r, h => by
      rw [List.replicate_succ, List.cons_append] at h
      obtain ⟨t', ht, hrest⟩ := quoted_eq_backslash h
      obtain ⟨hc, ht⟩ := List.cons.inj ht
      obtain ⟨he, ht⟩ := List.cons.inj ht
      have hmore : List.replicate k '\\' ++ c :: e :: v
          = List.replicate (k + 1 + 1) '\\' ++ v := by
        rw [hc, he, List.replicate_succ', List.replicate_succ', List.append_assoc,
          List.append_assoc]
        rfl
      have hrest : quoted t' = some (List.replicate k '\\' ++ c :: e :: v, r) := hrest
      rw [hmore, ← ht] at hrest
      exact quoted_ne_backslashes hrest

/-- Text that is read back as itself needed no escaping, and was read up to the
quote it was pasted before. -/
theorem eq_of_quoted_self :
    ∀ {v rest r : List Char}, quoted (v ++ '"' :: rest) = some (v, r) → Plain v ∧ r = rest
  | [], rest, r, h => by
      rw [List.nil_append, quoted_quote] at h
      obtain ⟨-, rfl⟩ := Prod.mk.inj (Option.some.inj h)
      exact ⟨⟨by simp, by simp, by simp⟩, rfl⟩
  | c :: v, rest, r, h => by
      by_cases hb : c = '\\'
      · subst hb
        obtain ⟨t', ht, hrest⟩ := quoted_eq_backslash h
        cases v with
        | nil => exact absurd (List.cons.inj (List.cons.inj ht).2).1 (by decide)
        | cons e v =>
            obtain ⟨rfl, rfl⟩ := List.cons.inj (List.cons.inj ht).2
            exact absurd hrest (quoted_ne_backslashes (k := 0))
      · have hq : c ≠ '"' := by
          rintro rfl
          rw [List.cons_append, quoted_quote] at h
          cases h
        have hn : c ≠ '\n' := by
          rintro rfl
          rw [List.cons_append, quoted_cons, if_neg (by decide), if_pos rfl] at h
          cases h
        rw [List.cons_append, quoted_bare hq hn hb] at h
        obtain ⟨⟨w, r'⟩, hw, heq⟩ := Option.map_eq_some_iff.mp h
        obtain ⟨hcons, rfl⟩ := Prod.mk.inj heq
        obtain ⟨-, rfl⟩ := List.cons.inj hcons
        obtain ⟨⟨hqs, hbs, hns⟩, hr⟩ := eq_of_quoted_self hw
        simp only [Plain, List.mem_cons, not_or]
        exact ⟨⟨⟨Ne.symm hq, hqs⟩, ⟨Ne.symm hb, hbs⟩, Ne.symm hn, hns⟩, hr⟩

/-! ## Sealed values

A writer with escapes of its own may leave text that is not plain, and yet
lets no quote stand bare. Such text is read back as something else, or not
at all, but the reader never takes its inside for the end of the value. -/

/-- `escaped` tells whether a backslash stands before the text. -/
def sealedFrom : Bool → List Char → Bool
  | escaped, [] => !escaped
  | true, _ :: rest => sealedFrom false rest
  | false, c :: rest =>
      if c = '\\' then sealedFrom true rest else c ≠ '"' && c ≠ '\n' && sealedFrom false rest

/-- Every quote, and every backslash, has a backslash of its own before it. -/
def isSealed (v : List Char) : Bool := sealedFrom false v

theorem isSealed_of_plain {v : List Char} (h : Plain v) : isSealed v = true := by
  induction v with
  | nil => rfl
  | cons c v ih =>
      simp only [Plain, List.mem_cons, not_or] at h
      obtain ⟨⟨hq, hqs⟩, ⟨hb, hbs⟩, hn, hns⟩ := h
      rw [isSealed, sealedFrom, if_neg (Ne.symm hb)]
      simp only [ne_eq, Ne.symm hq, Ne.symm hn, not_false_eq_true, decide_true, Bool.true_and]
      exact ih ⟨hqs, hbs, hns⟩

/-- If a sealed value is read at all, it is read up to the quote behind it. -/
theorem quoted_of_isSealed :
    ∀ {v rest w r : List Char}, isSealed v = true → quoted (v ++ '"' :: rest) = some (w, r) →
      r = rest
  | [], rest, w, r, _, h => by
      rw [List.nil_append, quoted_quote] at h
      exact (Prod.mk.inj (Option.some.inj h)).2.symm
  | c :: v, rest, w, r, hv, h => by
      rw [isSealed, sealedFrom] at hv
      rw [List.cons_append, quoted_cons] at h
      by_cases hb : c = '\\'
      · subst hb
        cases v with
        | nil => cases hv
        | cons e v =>
            rw [if_neg (by decide), if_neg (by decide), if_pos rfl] at h
            simp only [List.cons_append] at h
            cases hu : unescape e with
            | none => simp only [hu] at h; cases h
            | some d =>
                simp only [hu] at h
                obtain ⟨⟨w', r'⟩, hread, heq⟩ := Option.map_eq_some_iff.mp h
                obtain ⟨-, rfl⟩ := Prod.mk.inj heq
                exact quoted_of_isSealed hv hread
      · simp only [hb, if_false, Bool.and_eq_true, decide_eq_true_eq] at hv
        obtain ⟨⟨hq, hn⟩, hv⟩ := hv
        rw [if_neg hq, if_neg hn, if_neg hb] at h
        obtain ⟨⟨w', r'⟩, hread, heq⟩ := Option.map_eq_some_iff.mp h
        obtain ⟨-, rfl⟩ := Prod.mk.inj heq
        exact quoted_of_isSealed hv hread

/-! ## Labels and series -/

def isIdentStart (c : Char) : Bool := c.isAlpha || c = '_'

def isIdentChar (c : Char) : Bool := isIdentStart c || c.isDigit

/-- The longest identifier the text starts with, and what is behind it. -/
def ident (t : List Char) : Option (List Char × List Char) :=
  match t with
  | c :: _ =>
      if isIdentStart c then some (t.takeWhile isIdentChar, t.dropWhile isIdentChar) else none
  | [] => none

def readLabel (t : List Char) : Option ((List Char × List Char) × List Char) :=
  match ident t with
  | some (name, '=' :: '"' :: rest) => (quoted rest).map fun p => ((name, p.1), p.2)
  | _ => none

/-- Labels up to the closing brace, which ends the text. -/
def readLabels : Nat → List Char → Option (List (List Char × List Char))
  | 0, _ => none
  | n + 1, t =>
      match readLabel t with
      | some (l, '\x7d' :: rest) => if rest = [] then some [l] else none
      | some (l, ',' :: rest) =>
          (readLabels n (rest.dropWhile (· = ' '))).map fun ls => l :: ls
      | _ => none

/-- The name and the labels of a series, in the order they stand. -/
def readSeries (t : List Char) : Option (List Char × List (List Char × List Char)) :=
  match ident t with
  | some (name, '\x7b' :: rest) => (readLabels t.length rest).map fun ls => (name, ls)
  | _ => none

/-- An identifier of the format. -/
def IsIdent (name : List Char) : Prop :=
  (name.head?.map isIdentStart) = some true ∧ name.all isIdentChar = true

instance (name : List Char) : Decidable (IsIdent name) := inferInstanceAs (Decidable (_ ∧ _))

theorem ident_append {name : List Char} (h : IsIdent name) {c : Char} (hc : isIdentChar c = false)
    (rest : List Char) : ident (name ++ c :: rest) = some (name, c :: rest) := by
  obtain ⟨hstart, hall⟩ := h
  have hall : ∀ x ∈ name, isIdentChar x = true := List.all_eq_true.mp hall
  cases name with
  | nil => cases hstart
  | cons a name =>
      have ha : isIdentStart a = true := Option.some.inj hstart
      have htake : ((a :: name) ++ c :: rest).takeWhile isIdentChar = a :: name := by
        rw [List.takeWhile_append_of_pos hall, List.takeWhile_cons, hc]
        simp
      have hdrop : ((a :: name) ++ c :: rest).dropWhile isIdentChar = c :: rest := by
        rw [List.dropWhile_append_of_pos hall, List.dropWhile_cons, hc]
        simp
      rw [List.cons_append] at htake hdrop ⊢
      simp only [ident, ha, if_true, htake, hdrop]

section Labels

variable {name v rest : List Char} {n : Nat} {ls : List (List Char × List Char)}

theorem readLabel_append (h : IsIdent name) (rest : List Char) :
    readLabel (name ++ '=' :: '"' :: rest) = (quoted rest).map fun p => ((name, p.1), p.2) := by
  rw [readLabel, ident_append h (by decide)]
  rfl

theorem readLabel_of_plain (h : IsIdent name) (hv : Plain v) (rest : List Char) :
    readLabel (name ++ '=' :: '"' :: (v ++ '"' :: rest)) = some ((name, v), rest) := by
  rw [readLabel_append h, quoted_of_plain hv, Option.map_some]

theorem plain_of_readLabels (h : IsIdent name)
    (hread : readLabels n (name ++ '=' :: '"' :: (v ++ '"' :: rest)) = some ((name, v) :: ls)) :
    Plain v := by
  cases n with
  | zero => cases hread
  | succ n =>
      rw [readLabels, readLabel_append h] at hread
      cases hq : quoted (v ++ '"' :: rest) with
      | none => rw [hq] at hread; cases hread
      | some p =>
          obtain ⟨w, r⟩ := p
          rw [hq, Option.map_some] at hread
          have hw : w = v := by
            split at hread
            · rename_i heq
              obtain ⟨rfl, -⟩ := Prod.mk.inj (Option.some.inj heq)
              split at hread
              · exact (Prod.mk.inj (List.cons.inj (Option.some.inj hread)).1).2
              · cases hread
            · rename_i heq
              obtain ⟨rfl, -⟩ := Prod.mk.inj (Option.some.inj heq)
              obtain ⟨ls', -, hcons⟩ := Option.map_eq_some_iff.mp hread
              exact (Prod.mk.inj (List.cons.inj hcons).1).2
            · cases hread
          subst hw
          exact (eq_of_quoted_self hq).1

/-- A label that is not the last one is read back exactly when its value is
plain and the labels behind it are read back. -/
theorem readLabels_label_iff (h : IsIdent name) (hrest : rest.dropWhile (· = ' ') = rest) :
    readLabels (n + 1) (name ++ '=' :: '"' :: (v ++ '"' :: ',' :: ' ' :: rest))
        = some ((name, v) :: ls)
      ↔ Plain v ∧ readLabels n rest = some ls := by
  have hskip : (' ' :: rest).dropWhile (· = ' ') = rest := by
    rw [List.dropWhile_cons, if_pos (by decide), hrest]
  have hstep : Plain v → (readLabels (n + 1)
      (name ++ '=' :: '"' :: (v ++ '"' :: ',' :: ' ' :: rest)) = some ((name, v) :: ls)
        ↔ readLabels n rest = some ls) := by
    intro hv
    rw [readLabels, readLabel_of_plain h hv]
    simp only [hskip]
    cases readLabels n rest <;> simp
  constructor
  · intro hread
    have hv := plain_of_readLabels h hread
    exact ⟨hv, (hstep hv).mp hread⟩
  · rintro ⟨hv, hread⟩
    exact (hstep hv).mpr hread

theorem readLabels_last_iff (h : IsIdent name) :
    readLabels (n + 1) (name ++ '=' :: '"' :: (v ++ ['"', '\x7d'])) = some [(name, v)]
      ↔ Plain v := by
  constructor
  · exact plain_of_readLabels h
  · intro hv
    rw [readLabels, readLabel_of_plain h hv]
    rfl

/-- Whatever a sealed value is read as, the labels behind it are read. -/
theorem readLabels_of_isSealed (h : IsIdent name) (hrest : rest.dropWhile (· = ' ') = rest)
    (hv : isSealed v = true)
    (hread : readLabels (n + 1) (name ++ '=' :: '"' :: (v ++ '"' :: ',' :: ' ' :: rest))
      = some ls) :
    ∃ w ls', ls = (name, w) :: ls' ∧ readLabels n rest = some ls' ∧ (Plain v → w = v) := by
  have hskip : (' ' :: rest).dropWhile (· = ' ') = rest := by
    rw [List.dropWhile_cons, if_pos (by decide), hrest]
  rw [readLabels, readLabel_append h] at hread
  cases hq : quoted (v ++ '"' :: ',' :: ' ' :: rest) with
  | none => rw [hq] at hread; cases hread
  | some p =>
      obtain ⟨w, r⟩ := p
      obtain rfl := quoted_of_isSealed hv hq
      rw [hq, Option.map_some] at hread
      simp only [hskip] at hread
      obtain ⟨ls', hls', rfl⟩ := Option.map_eq_some_iff.mp hread
      refine ⟨w, ls', rfl, hls', fun hplain => ?_⟩
      rw [quoted_of_plain hplain] at hq
      exact (Prod.mk.inj (Option.some.inj hq)).1.symm

theorem readLabels_last_of_plain (h : IsIdent name) (hv : Plain v)
    (hread : readLabels (n + 1) (name ++ '=' :: '"' :: (v ++ ['"', '\x7d'])) = some ls) :
    ls = [(name, v)] :=
  Option.some.inj (hread.symm.trans ((readLabels_last_iff h).mpr hv))

end Labels

end Exposition
