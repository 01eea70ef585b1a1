import Nethadone.Bandwidth
import Nethadone.Wildcard

/-!
# Two matchers for one glob

Traffic is credited to a group with `filepath.Match` and throttled for it
with SQLite's `GLOB`. Both read a pattern as a list of pieces, by different
rules: only Go has an escape character, the two disagree on what may stand
in brackets, and `*` and `?` stop at a slash in Go.

On a name without a slash they agree for every pattern they read alike, in
particular for one without brackets and backslashes. Over all names a
pattern with a `*` that matches anything is matched differently
(`matchers_agree_iff`).
-/

namespace Nethadone

open Wildcard

/-! ## Reading a pattern -/

abbrev Reading := Option (List (Tok Char))

/-- Piece after piece. Every piece takes at least one character, so the length
of the pattern is fuel enough. -/
def readToks (step : Text → Option (Tok Char × Text)) : Nat → Text → Reading
  | _, [] => some []
  | 0, _ :: _ => none
  | n + 1, c :: p =>
      match step (c :: p) with
      | none => none
      | some (t, rest) => (readToks step n rest).map (t :: ·)

def lit (c : Char) : Tok Char := .set (· == c)

def inRanges (rs : List (Char × Char)) (c : Char) : Bool :=
  rs.any fun r => decide (r.1 ≤ c) && decide (c ≤ r.2)

def classTok (negated : Bool) (rs : List (Char × Char)) : Tok Char :=
  .set fun c => inRanges rs c != negated

/-! ### Go -/

/-- `getEsc`: one possibly escaped character of a class. The class does not end
there. -/
def getEsc (p : Text) : Option (Char × Text) :=
  match p with
  | [] => none
  | c :: rest =>
      if c = '-' ∨ c = ']' then none
      else if c = '\\' then
        match rest with
        | e :: r :: rest' => some (e, r :: rest')
        | _ => none
      else if rest = [] then none else some (c, rest)

/-- The ranges of a class, up to its bracket, which may not come first. -/
def goRanges : Nat → Bool → Text → Option (List (Char × Char) × Text)
  | 0, _, _ => none
  | n + 1, first, p =>
      if p.head? = some ']' ∧ first = false then some ([], p.tail)
      else match getEsc p with
        | none => none
        | some (lo, rest) =>
            if rest.head? = some '-' then
              match getEsc rest.tail with
              | none => none
              | some (hi, rest') => (goRanges n false rest').map fun x => ((lo, hi) :: x.1, x.2)
            else (goRanges n false rest).map fun x => ((lo, lo) :: x.1, x.2)

/-- One piece as `filepath.Match` reads it on Unix. -/
def goStep : Text → Option (Tok Char × Text)
  | [] => none
  | c :: p =>
      if c = '*' then some (.star, p)
      else if c = '?' then some (.any, p)
      else if c = '[' then
        let negated := p.head? = some '^'
        (goRanges p.length true (if negated then p.tail else p)).map fun x =>
          (classTok negated x.1, x.2)
      else if c = '\\' then
        match p with
        | [] => none
        | e :: rest => some (lit e, rest)
      else some (lit c, p)

def goReading (pattern : Text) : Reading := readToks goStep pattern.length pattern

/-! ### SQLite -/

/-- The rest of a class, up to its bracket. A dash makes a range when something
stands before it, that is not itself the end of a range, and something
other than the bracket behind it. -/
def sqlRanges : Option Char → Text → Option (List (Char × Char) × Text)
  | _, [] => none
  | prior, c :: p =>
      if c = ']' then some ([], p)
      else
        match prior, p with
        | some lo, hi :: p' =>
            if c = '-' ∧ hi ≠ ']' then (sqlRanges none p').map fun x => ((lo, hi) :: x.1, x.2)
            else (sqlRanges (some c) (hi :: p')).map fun x => ((c, c) :: x.1, x.2)
        | _, p => (sqlRanges (some c) p).map fun x => ((c, c) :: x.1, x.2)

def sqlClass (negated : Bool) (p : Text) : Option (Tok Char × Text) :=
  if p.head? = some ']' then
    (sqlRanges none p.tail).map fun x => (classTok negated ((']', ']') :: x.1), x.2)
  else (sqlRanges none p).map fun x => (classTok negated x.1, x.2)

/-- One piece as SQLite's `GLOB` reads it. -/
def sqlStep : Text → Option (Tok Char × Text)
  | [] => none
  | c :: p =>
      if c = '*' then some (.star, p)
      else if c = '?' then some (.any, p)
      else if c = '[' then
        if p.head? = some '^' then sqlClass true p.tail else sqlClass false p
      else some (lit c, p)

def sqlReading (pattern : Text) : Reading := readToks sqlStep pattern.length pattern

/-! ### Patterns both read alike -/

theorem goStep_plain {c : Char} (hb : c ≠ '[') (he : c ≠ '\\') (p : Text) :
    goStep (c :: p) = sqlStep (c :: p) := by
  rw [goStep.eq_def, sqlStep]
  simp only [hb, he, if_false]

theorem reading_plain {p : Text} (hb : '[' ∉ p) (he : '\\' ∉ p) : goReading p = sqlReading p := by
  have hread : ∀ (n : Nat) (p : Text), '[' ∉ p → '\\' ∉ p →
      readToks goStep n p = readToks sqlStep n p := by
    intro n
    induction n with
    | zero => intro p _ _; cases p <;> rfl
    | succ n ih =>
        intro p hb he
        cases p with
        | nil => rfl
        | cons c p =>
            rw [List.mem_cons, not_or] at hb he
            rw [readToks, readToks, goStep_plain (Ne.symm hb.1) (Ne.symm he.1)]
            cases hstep : sqlStep (c :: p) with
            | none => rfl
            | some x =>
                -- the piece is one character long
                have hrest : x.2 = p := by
                  rw [sqlStep, if_neg (show c ≠ '[' from Ne.symm hb.1)] at hstep
                  split at hstep
                  · exact congrArg Prod.snd (Option.some.inj hstep).symm
                  · split at hstep <;> exact congrArg Prod.snd (Option.some.inj hstep).symm
                obtain ⟨t, rest⟩ := x
                obtain rfl : rest = p := hrest
                simp only [ih rest hb.2 he.2]
  exact hread p.length p hb he

/-! ## Matching -/

/-- What `*` and `?` match in Go. -/
def notSlash (c : Char) : Bool := c != '/'

def anyChar (_ : Char) : Bool := true

/-- A pattern that cannot be read matches nothing. -/
def matchReading (wild : Char → Bool) : Reading → Text → Bool
  | none, _ => false
  | some ts, name => matchToks wild ts name

/-- Whether `filepath.Match` returns true; a malformed pattern is an error. -/
def filepathMatch (pattern name : Text) : Bool :=
  matchReading notSlash (goReading pattern) name

/-- `name GLOB pattern`. -/
def sqliteGlob (pattern name : Text) : Bool :=
  matchReading anyChar (sqlReading pattern) name

/-- The reading failed, or has a class no character is in. -/
def MatchesNothing (wild : Char → Bool) (r : Reading) : Prop := ∀ ts ∈ r, Barren wild ts

/-- Neither reading has a star, and they accept the same characters at each
place. -/
def SameFixedSets (r r' : Reading) : Prop :=
  ∃ ts ∈ r, ∃ us ∈ r', NoStar ts ∧ NoStar us ∧ SameSets notSlash anyChar ts us

theorem matchesNothing_iff {wild : Char → Bool} {r : Reading} :
    MatchesNothing wild r ↔ ∀ name, matchReading wild r name = false := by
  cases r with
  | none => exact iff_of_true (fun ts hts => by cases hts) fun _ => rfl
  | some ts =>
      constructor
      · intro h
        exact not_match_of_barren (h ts rfl)
      · intro h us hus
        obtain rfl := Option.some.inj hus
        by_contra hb
        obtain ⟨name, hname⟩ := exists_match_iff.mpr hb
        exact absurd hname (Bool.eq_false_iff.mp (h name))

theorem readings_agree_iff (r r' : Reading) :
    (∀ name, matchReading notSlash r name = matchReading anyChar r' name) ↔
      MatchesNothing notSlash r ∧ MatchesNothing anyChar r' ∨ SameFixedSets r r' := by
  cases r with
  | none =>
      have hfixed : ¬SameFixedSets none r' := fun ⟨ts, hts, _⟩ => by cases hts
      have hnothing : MatchesNothing notSlash none := fun ts hts => by cases hts
      rw [or_iff_left hfixed, and_iff_right hnothing, matchesNothing_iff]
      exact forall_congr' fun name => eq_comm
  | some ts =>
      cases r' with
      | none =>
          have hfixed : ¬SameFixedSets (some ts) none := fun ⟨_, _, us, hus, _⟩ => by cases hus
          have hnothing : MatchesNothing anyChar none := fun us hus => by cases hus
          rw [or_iff_left hfixed, and_iff_left hnothing, matchesNothing_iff]
          exact Iff.rfl
      | some us =>
          simp only [MatchesNothing, SameFixedSets, Option.mem_def, Option.some.injEq, forall_eq',
            exists_eq_left']
          exact agree_iff '/' 'a' rfl rfl

theorem agree_of_no_slash {pattern name : Text} (hread : goReading pattern = sqlReading pattern)
    (hname : '/' ∉ name) : filepathMatch pattern name = sqliteGlob pattern name := by
  rw [filepathMatch, sqliteGlob, hread]
  cases sqlReading pattern with
  | none => rfl
  | some ts =>
      refine matchToks_congr fun c hc => ?_
      show (c != '/') = true
      rw [bne_iff_ne]
      rintro rfl
      exact hname hc

/-! ## One group, one domain -/

/-- `getMatchingGlobGroup` takes the domain for a member of the group. -/
def Credits (g : GlobGroup) (domain : Text) : Prop :=
  getMatchingGlobGroup filepathMatch RowOrder.stored (addGlob KeyedTable.empty g) domain = some g

/-- `GetIPsMatchingGlob` returns the address just answered for the domain. -/
def Selects (g : GlobGroup) (domain : Text) (ip : RecordIP) (now : Int) : Prop :=
  ∃ ips, getIPsMatchingGlob sqliteGlob RowOrder.stored false
      (addDns KeyedTable.empty domain ip now) g now = some ips ∧ ip.text ∈ ips

def MatchersAgree (g : GlobGroup) (domain : Text) : Prop :=
  ∀ (ip : RecordIP) (now : Int), Credits g domain ↔ Selects g domain ip now

theorem credits_iff {g : GlobGroup} {domain : Text} :
    Credits g domain ↔ filepathMatch g.glob domain = true := by
  have hrows : getGlobs RowOrder.stored (addGlob KeyedTable.empty g) = [g] := rfl
  rw [Credits, getMatchingGlobGroup, hrows, List.find?_cons]
  cases filepathMatch g.glob domain <;> simp

theorem selects_iff {g : GlobGroup} {domain : Text} {ip : RecordIP} {now : Int} :
    Selects g domain ip now ↔ sqliteGlob g.glob domain = true := by
  have hrows : (addDns KeyedTable.empty domain ip now).rows
      = [⟨"0.0.0.0".toList, ip.text, domain, datetime now⟩] := rfl
  constructor
  · rintro ⟨ips, hips, hmem⟩
    obtain ⟨r, hr, -, hglob, -⟩ := (mem_getIPsMatchingGlob hips _).mp hmem
    rw [hrows, List.mem_singleton] at hr
    rw [hr] at hglob
    exact hglob
  · intro h
    refine ⟨_, rfl, (mem_getIPsMatchingGlob rfl _).mpr ?_⟩
    rw [hrows]
    exact ⟨_, List.mem_singleton.mpr rfl, rfl, h, recentProbe_of_day (dayOf_datetime now)⟩

theorem matchersAgree_eq {g : GlobGroup} {domain : Text} :
    MatchersAgree g domain ↔ filepathMatch g.glob domain = sqliteGlob g.glob domain := by
  rw [Bool.eq_iff_iff, ← credits_iff]
  constructor
  · intro h
    exact (h none 0).trans selects_iff
  · intro h ip now
    exact h.trans selects_iff.symm

/-- The matchers agree on all domains exactly for patterns that match nothing in
either reading and for those without a star whose readings accept the same
characters at each place. On a domain without a slash they agree for every
pattern with one reading, and a pattern without brackets and backslashes has
one. -/
theorem matchers_agree_iff (g : GlobGroup) :
    ((∀ domain, MatchersAgree g domain) ↔
        MatchesNothing notSlash (goReading g.glob) ∧ MatchesNothing anyChar (sqlReading g.glob)
          ∨ SameFixedSets (goReading g.glob) (sqlReading g.glob))
      ∧ (∀ domain, '/' ∉ domain → goReading g.glob = sqlReading g.glob → MatchersAgree g domain)
      ∧ ('[' ∉ g.glob → '\\' ∉ g.glob → goReading g.glob = sqlReading g.glob) := by
  refine ⟨?_, fun domain hslash hread => ?_, reading_plain⟩
  · simp only [matchersAgree_eq]
    exact readings_agree_iff _ _
  · exact matchersAgree_eq.mpr (agree_of_no_slash hread hslash)

def siteGroup (glob : Text) : GlobGroup := ⟨"site".toList, [], glob, []⟩

theorem site_names_agree : MatchersAgree (siteGroup "*.site.com.".toList) "www.site.com.".toList :=
  (matchers_agree_iff (siteGroup "*.site.com.".toList)).2.1 _ (by decide)
    ((matchers_agree_iff (siteGroup "*.site.com.".toList)).2.2 (by decide) (by decide))

/-- A slash in the name stops Go's star; a backslash in the pattern is an escape
for Go and a character for SQLite. -/
theorem matchers_part :
    (¬Credits (siteGroup "*.site.com.".toList) "a/b.site.com.".toList
        ∧ Selects (siteGroup "*.site.com.".toList) "a/b.site.com.".toList none 0)
      ∧ (Credits (siteGroup "a\\.b.com.".toList) "a.b.com.".toList
        ∧ ¬Selects (siteGroup "a\\.b.com.".toList) "a.b.com.".toList none 0)
      ∧ ¬∀ g domain, MatchersAgree g domain := by
  have hslash : ¬Credits (siteGroup "*.site.com.".toList) "a/b.site.com.".toList := by
    rw [credits_iff]
    decide +kernel
  have hselects : Selects (siteGroup "*.site.com.".toList) "a/b.site.com.".toList none 0 :=
    selects_iff.mpr (by decide +kernel)
  refine ⟨⟨hslash, hselects⟩, ⟨credits_iff.mpr (by decide +kernel), ?_⟩, fun h => ?_⟩
  · rw [selects_iff]
    decide +kernel
  · exact hslash ((h _ _ none 0).mpr hselects)

end Nethadone
