import Kyacopycat.Options
import Mathlib.Data.Nat.Digits.Lemmas

/-!
The numbers that arguments start with.

* `strtol_decimal`, `atoi_decimal`: a decimal text has its number, in either conversion.
* `strtol_option`, `atoi_option`: an option has none.
-/

namespace Kyacopycat

/-! ### Decimal texts -/

/-- The decimal digit of a number below ten. -/
def decimalDigit (d : Nat) : UInt8 := UInt8.ofNat (0x30 + d)

/-- The decimal text of a number, without leading zeros. -/
def decimal (n : Nat) : CString := (Nat.digits 10 n).reverse.map decimalDigit

theorem digitValue_decimalDigit : ∀ d < 10, digitValue (decimalDigit d) = some d := by decide

/-- Digits continue a number. -/
theorem readDigits_map (digits : List Nat) (hdigits : ∀ d ∈ digits, d < 10) (value : Nat) :
    readDigits 10 value (digits.map decimalDigit)
      = digits.foldl (fun value d => value * 10 + d) value := by
  induction digits generalizing value with
  | nil => rfl
  | cons d digits ih =>
    have hd : d < 10 := hdigits d List.mem_cons_self
    rw [List.map_cons, readDigits, digitValue_decimalDigit d hd]
    dsimp only
    rw [if_pos hd, ih fun e he => hdigits e (List.mem_cons_of_mem d he)]
    rfl

theorem readDigits_decimal (n : Nat) : readDigits 10 0 (decimal n) = n := by
  have hdigits : ∀ d ∈ (Nat.digits 10 n).reverse, d < 10 := fun d hd =>
    Nat.digits_lt_base (by decide) (List.mem_reverse.mp hd)
  calc readDigits 10 0 (decimal n)
      = (Nat.digits 10 n).foldr (fun d value => value * 10 + d) 0 := by
        rw [decimal, readDigits_map _ hdigits, List.foldl_reverse]
    _ = Nat.ofDigits 10 (Nat.digits 10 n) := by
        rw [Nat.ofDigits_eq_foldr]
        congr 1
        funext d value
        simp only [Nat.cast_id]
        omega
    _ = n := Nat.ofDigits_digits 10 n

/-- A decimal text starts with a digit other than zero. -/
theorem decimal_eq_cons {n : Nat} (hn : n ≠ 0) :
    ∃ d rest, 0 < d ∧ d < 10 ∧ decimal n = decimalDigit d :: rest := by
  have hne : Nat.digits 10 n ≠ [] := Nat.digits_ne_nil_iff_ne_zero.mpr hn
  refine ⟨(Nat.digits 10 n).getLast hne, ((Nat.digits 10 n).dropLast.reverse).map decimalDigit,
    Nat.pos_of_ne_zero (Nat.getLast_digit_ne_zero 10 hn),
    Nat.digits_lt_base (by decide) (List.getLast_mem hne), ?_⟩
  conv_lhs => rw [decimal, ← List.dropLast_append_getLast hne, List.reverse_append]
  rfl

/-- The first character of a decimal text is no space, no sign and no zero. -/
theorem decimalDigit_first : ∀ d < 10, 0 < d →
    isspace (decimalDigit d) = false ∧ decimalDigit d ≠ '-'.toUInt8 ∧
      decimalDigit d ≠ '+'.toUInt8 ∧ decimalDigit d ≠ 0x30 := by decide

/-- Without a leading zero a number is decimal. -/
theorem readPrefixed_cons {c : UInt8} (hc : c ≠ 0x30) (rest : CString) :
    readPrefixed (c :: rest) = readDigits 10 0 (c :: rest) := by
  unfold readPrefixed
  split
  next heq => exact absurd (List.cons.inj heq).1 hc
  next heq => exact absurd (List.cons.inj heq).1 hc
  next => rfl

theorem strtol_decimal {n : Nat} (hn : n ≠ 0) (hmax : n ≤ 0x7FFFFFFFFFFFFFFF) {base : Nat}
    (hbase : base = 0 ∨ base = 10) : strtol (decimal n) base = n := by
  obtain ⟨d, rest, hpos, hd, htext⟩ := decimal_eq_cons hn
  obtain ⟨hspace, hminus, hplus, hzero⟩ := decimalDigit_first d hd hpos
  have hvalue : readDigits 10 0 (decimalDigit d :: rest) = n := htext ▸ readDigits_decimal n
  have hprefixed : readPrefixed (decimalDigit d :: rest) = n :=
    (readPrefixed_cons hzero rest).trans hvalue
  rw [htext]
  obtain rfl | rfl := hbase
  · simp only [strtol, List.dropWhile_cons, hspace, List.head?_cons, Option.some.injEq, hminus,
      hplus, hprefixed, if_true, if_false, Bool.false_eq_true, or_self]
    omega
  · simp only [strtol, List.dropWhile_cons, hspace, List.head?_cons, Option.some.injEq, hminus,
      hplus, hvalue, if_false, Bool.false_eq_true, or_self]
    omega

theorem atoi_decimal {n : Nat} (hn : n ≠ 0) (hmax : n ≤ 0x7FFFFFFF) :
    atoi (decimal n) = n := by
  rw [atoi, strtol_decimal hn (by omega) (.inr rfl)]
  exact Int.bmod_eq_of_le (by omega) (by omega)

/-! ### Options -/

/-- A letter is no digit below ten. -/
theorem ten_le_digitValue {letter : UInt8} (hletter : isalpha letter = true) {d : Nat}
    (hd : digitValue letter = some d) : 10 ≤ d := by
  simp only [isalpha, Bool.or_eq_true, Bool.and_eq_true, decide_eq_true_eq,
    UInt8.le_iff_toNat_le] at hletter
  simp only [digitValue, UInt8.le_iff_toNat_le] at hd
  split at hd
  next hdigit =>
    simp only [UInt8.reduceToNat] at hletter hdigit
    omega
  next =>
    split at hd
    · cases hd
      omega
    · split at hd
      · cases hd
        omega
      · cases hd

/-- A letter continues no number. -/
theorem readDigits_letter {letter : UInt8} (hletter : isalpha letter = true) (value : Nat)
    (rest : CString) : readDigits 10 value (letter :: rest) = value := by
  rw [readDigits]
  split
  next d hd => rw [if_neg (Nat.not_lt.mpr (ten_le_digitValue hletter hd))]
  next => rfl

/-- An option starts with no number. -/
theorem strtol_option {letter : UInt8} (hletter : isalpha letter = true) (text : CString)
    {base : Nat} (hbase : base = 0 ∨ base = 10) :
    strtol ('-'.toUInt8 :: letter :: text) base = 0 := by
  have hdigits := readDigits_letter hletter 0 text
  have hzero : letter ≠ 0x30 := by
    rintro rfl
    cases hletter
  have hspace : isspace '-'.toUInt8 = false := by decide
  obtain rfl | rfl := hbase
  · simp only [strtol, List.dropWhile_cons, hspace, Bool.false_eq_true, if_false,
      List.head?_cons, true_or, if_true, List.tail_cons, readPrefixed_cons hzero, hdigits]
    rfl
  · simp only [strtol, List.dropWhile_cons, hspace, Bool.false_eq_true, if_false,
      List.head?_cons, true_or, if_true, List.tail_cons, hdigits]
    rfl

theorem atoi_option {letter : UInt8} (hletter : isalpha letter = true) (text : CString) :
    atoi ('-'.toUInt8 :: letter :: text) = 0 := by
  rw [atoi, strtol_option hletter text (.inr rfl)]
  rfl

end Kyacopycat
