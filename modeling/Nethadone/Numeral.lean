import Mathlib.Data.List.Basic
import Mathlib.Tactic.IntervalCases
import Mathlib.Tactic.Ring

/-!
# Numerals in text

How numbers are printed and how they are read back:

- `decimal` is what a formatter prints for a natural number;
- `readBase b` reads a string of digits in base `b`;
- `cIntConst` reads a C integer constant, whose prefix picks the base:
  `0x` sixteen, a leading `0` eight, anything else ten. A constant no
  integer type can hold is rejected.

A decimal numeral read as a C constant gives the number back
(`cIntConst_decimal`). Pasted behind `0x` its digits are read in base
sixteen instead, and the value is `hexOfDecimal` (`cIntConst_hex`), which
is another number as soon as there are two digits.
-/

namespace Numeral

/-! ## Printing -/

def decimal (n : Nat) : List Char := Nat.toDigits 10 n

def decimalInt : Int → List Char
  | .ofNat n => decimal n
  | .negSucc n => '-' :: decimal (n + 1)

@[simp] theorem decimalInt_natCast (n : Nat) : decimalInt (n : Int) = decimal n := rfl

theorem decimal_ne_nil (n : Nat) : decimal n ≠ [] := Nat.toDigits_ne_nil

theorem isDigit_of_mem_decimal {n : Nat} {c : Char} (h : c ∈ decimal n) :
    c.isDigit = true :=
  Nat.isDigit_of_mem_toDigits (by decide) (by decide) h

theorem notMem_decimal {c : Char} (hc : c.isDigit = false) (n : Nat) : c ∉ decimal n :=
  fun h => by rw [isDigit_of_mem_decimal h] at hc; cases hc

theorem decimal_injective {m n : Nat} (h : decimal m = decimal n) : m = n := by
  have := congrArg (Nat.ofDigitChars 10 · 0) h
  simpa [decimal, Nat.ofDigitChars_ten_toDigits] using this

theorem head_decimal_ne_zero {n : Nat} (hn : 0 < n) :
    ∀ {c : Char} {cs : List Char}, decimal n = c :: cs → c ≠ '0' := by
  induction n using Nat.strong_induction_on with
  | _ n ih =>
      intro c cs h
      by_cases hlt : n < 10
      · rw [decimal, Nat.toDigits_of_lt_base hlt] at h
        obtain ⟨rfl, -⟩ := List.cons.inj h
        interval_cases n <;> decide
      · rw [decimal, Nat.toDigits_of_base_le (by decide) (by omega)] at h
        cases hd : Nat.toDigits 10 (n / 10) with
        | nil => exact absurd hd Nat.toDigits_ne_nil
        | cons c' cs' =>
            rw [hd, List.cons_append] at h
            obtain ⟨rfl, -⟩ := List.cons.inj h
            exact ih (n / 10) (by omega) (by omega) hd

/-! ## Reading -/

def digit? (c : Char) : Option Nat :=
  if c.isDigit then some (c.toNat - 48)
  else if 97 ≤ c.toNat ∧ c.toNat ≤ 102 then some (c.toNat - 87)
  else if 65 ≤ c.toNat ∧ c.toNat ≤ 70 then some (c.toNat - 55)
  else none

def readDigits (b : Nat) : List Char → Nat → Option Nat
  | [], acc => some acc
  | c :: cs, acc =>
      match digit? c with
      | some d => if d < b then readDigits b cs (b * acc + d) else none
      | none => none

def readBase (b : Nat) (cs : List Char) : Option Nat :=
  if cs = [] then none else readDigits b cs 0

/-- The number an unsuffixed C integer constant denotes, before the bound
check. -/
def cIntConstRaw : List Char → Option Nat
  | '0' :: 'x' :: cs => readBase 16 cs
  | '0' :: 'X' :: cs => readBase 16 cs
  | ['0'] => some 0
  | '0' :: cs => readBase 8 cs
  | cs => readBase 10 cs

/-- A C integer constant: the compiler rejects one that fits no integer type. -/
def cIntConst (cs : List Char) : Option Nat :=
  (cIntConstRaw cs).bind fun n => if n < 2 ^ 64 then some n else none

/-- The digits of the decimal numeral of `n`, read in base sixteen. -/
def hexOfDecimal (n : Nat) : Nat := Nat.ofDigitChars 16 (decimal n) 0

example : hexOfDecimal 90 = 0x90 ∧ hexOfDecimal 100 = 0x100 := by decide

theorem digit?_of_isDigit {c : Char} (h : c.isDigit = true) :
    digit? c = some (c.toNat - 48) := if_pos h

theorem digit_lt_ten {c : Char} (h : c.isDigit = true) : c.toNat - 48 < 10 := by
  obtain ⟨-, hle⟩ := Char.isDigit_iff_toNat.mp h
  have : '9'.toNat = 57 := rfl
  omega

theorem readDigits_of_isDigit {b : Nat} (hb : 10 ≤ b) :
    ∀ {cs : List Char} (acc : Nat), (∀ c ∈ cs, c.isDigit = true) →
      readDigits b cs acc = some (Nat.ofDigitChars b cs acc)
  | [], acc, _ => by rw [readDigits, Nat.ofDigitChars_nil]
  | c :: cs, acc, h => by
      have hc := h c (List.mem_cons_self ..)
      have hlt : c.toNat - 48 < b := Nat.lt_of_lt_of_le (digit_lt_ten hc) hb
      rw [readDigits, digit?_of_isDigit hc]
      simp only [hlt, if_true]
      rw [readDigits_of_isDigit hb _ fun c' hc' => h c' (List.mem_cons_of_mem _ hc'),
        Nat.ofDigitChars_cons]
      rfl

theorem readBase_decimal {b : Nat} (hb : 10 ≤ b) (n : Nat) :
    readBase b (decimal n) = some (Nat.ofDigitChars b (decimal n) 0) := by
  rw [readBase, if_neg (decimal_ne_nil n)]
  exact readDigits_of_isDigit hb 0 fun c hc => isDigit_of_mem_decimal hc

theorem cIntConstRaw_decimal (n : Nat) : cIntConstRaw (decimal n) = some n := by
  rcases Nat.eq_zero_or_pos n with rfl | hn
  · rfl
  · have hread : readBase 10 (decimal n) = some n := by
      rw [readBase_decimal (Nat.le_refl _), decimal, Nat.ofDigitChars_ten_toDigits]
    cases hd : decimal n with
    | nil => exact absurd hd (decimal_ne_nil n)
    | cons c cs =>
        have hc := head_decimal_ne_zero hn hd
        rw [← hread, hd]
        unfold cIntConstRaw
        split <;> first | rfl | (rename_i h; exact absurd (List.cons.inj h).1 hc)

theorem cIntConst_decimal {n : Nat} (hn : n < 2 ^ 64) :
    cIntConst (decimal n) = some n := by
  rw [cIntConst, cIntConstRaw_decimal, Option.bind_some, if_pos hn]

theorem ofDigitChars_lt {b : Nat} (hb : 10 ≤ b) :
    ∀ {cs : List Char} (acc : Nat), (∀ c ∈ cs, c.isDigit = true) →
      Nat.ofDigitChars b cs acc < b ^ cs.length * (acc + 1)
  | [], acc, _ => by rw [Nat.ofDigitChars_nil]; simp
  | c :: cs, acc, h => by
      have hd := digit_lt_ten (h c (List.mem_cons_self ..))
      have ih := ofDigitChars_lt hb (b * acc + (c.toNat - 48))
        fun c' hc' => h c' (List.mem_cons_of_mem _ hc')
      have hstep : b * acc + (c.toNat - 48) + 1 ≤ b * (acc + 1) := by
        rw [Nat.mul_succ]; omega
      rw [Nat.ofDigitChars_cons, List.length_cons]
      calc Nat.ofDigitChars b cs (b * acc + (c.toNat - '0'.toNat))
          < b ^ cs.length * (b * acc + (c.toNat - 48) + 1) := ih
        _ ≤ b ^ cs.length * (b * (acc + 1)) := Nat.mul_le_mul_left _ hstep
        _ = b ^ (cs.length + 1) * (acc + 1) := by ring

theorem hexOfDecimal_lt {n : Nat} (hn : n < 10 ^ 16) : hexOfDecimal n < 2 ^ 64 := by
  have hlen : (decimal n).length ≤ 16 :=
    (Nat.length_toDigits_le_iff (by decide) (by decide)).mpr hn
  calc hexOfDecimal n
      < 16 ^ (decimal n).length * (0 + 1) :=
        ofDigitChars_lt (by decide) 0 fun c hc => isDigit_of_mem_decimal hc
    _ ≤ 16 ^ 16 * (0 + 1) :=
        Nat.mul_le_mul_right _ (Nat.pow_le_pow_right (by decide) hlen)
    _ = 2 ^ 64 := by norm_num

theorem cIntConstRaw_hex (n : Nat) :
    cIntConstRaw ('0' :: 'x' :: decimal n) = some (hexOfDecimal n) := by
  rw [cIntConstRaw, readBase_decimal (by decide)]
  rfl

theorem cIntConst_hex {n : Nat} (hn : hexOfDecimal n < 2 ^ 64) :
    cIntConst ('0' :: 'x' :: decimal n) = some (hexOfDecimal n) := by
  rw [cIntConst, cIntConstRaw_hex, Option.bind_some, if_pos hn]

/-! ## Decimal digits in base sixteen -/

theorem hexOfDecimal_of_lt {n : Nat} (h : n < 10) : hexOfDecimal n = n := by
  interval_cases n <;> rfl

theorem hexOfDecimal_of_le {n : Nat} (h : 10 ≤ n) :
    hexOfDecimal n = 16 * hexOfDecimal (n / 10) + n % 10 := by
  have hlast : n % 10 < 10 := Nat.mod_lt _ (by decide)
  rw [hexOfDecimal, decimal, Nat.toDigits_of_base_le (by decide) h, Nat.ofDigitChars_append,
    Nat.ofDigitChars_cons_digitChar_of_lt_ten hlast, Nat.ofDigitChars_nil]
  rfl

theorem le_hexOfDecimal (n : Nat) : n ≤ hexOfDecimal n := by
  induction n using Nat.strong_induction_on with
  | _ n ih =>
      rcases Nat.lt_or_ge n 10 with h | h
      · rw [hexOfDecimal_of_lt h]
      · have hrest := ih (n / 10) (by omega)
        rw [hexOfDecimal_of_le h]
        omega

theorem lt_hexOfDecimal {n : Nat} (h : 10 ≤ n) : n < hexOfDecimal n := by
  have hrest := le_hexOfDecimal (n / 10)
  rw [hexOfDecimal_of_le h]
  omega

theorem eq_of_cIntConst_hex {n v : Nat} (h : cIntConst ('0' :: 'x' :: decimal n) = some v) :
    v = hexOfDecimal n := by
  rw [cIntConst, cIntConstRaw_hex, Option.bind_some] at h
  split at h
  · exact (Option.some.inj h).symm
  · cases h

end Numeral
