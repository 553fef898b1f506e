import Mathlib.Data.List.TakeWhile
import Mathlib.Data.Nat.Digits.Defs
import Mathlib.Tactic.Common
import Mathlib.Tactic.Ring

/-!
# Decimal numbers and their texts

A decimal number is a coefficient and the number of its digits that stand behind the point.  A text
of digits with at most one point is one; which number it is depends on the digits and on the place
of the point alone.  The number is compared with a fraction of natural numbers by multiplying
crosswise, so that no field is needed.
-/

namespace CommerceCollector

/-- `coefficient / 10 ^ scale`, or the opposite. -/
structure Decimal where
  negative : Bool
  coefficient : ℕ
  scale : ℕ
deriving DecidableEq, Repr

/-- The number that some digits write. -/
def digitsValue (digits : List Char) : ℕ := Nat.ofDigitChars 10 digits 0

namespace Decimal

/-- Digits, and at most one point before, between or behind them. -/
def unsigned (negative : Bool) (text : List Char) : Option Decimal :=
  match text.dropWhile Char.isDigit with
  | [] => if text = [] then none else some ⟨negative, digitsValue text, 0⟩
  | point :: fraction =>
    let digits := text.takeWhile Char.isDigit ++ fraction
    if point = '.' ∧ fraction.all Char.isDigit = true ∧ digits ≠ [] then
      some ⟨negative, digitsValue digits, fraction.length⟩
    else none

/-- A number with or without a minus. -/
def parse : List Char → Option Decimal
  | [] => none
  | c :: text => if c = '-' then unsigned true text else unsigned false (c :: text)

/-- The number is the fraction. -/
def Is (d : Decimal) (numerator denominator : ℕ) : Prop :=
  d.negative = false ∧ d.coefficient * denominator = numerator * 10 ^ d.scale

instance (d : Decimal) (numerator denominator : ℕ) : Decidable (d.Is numerator denominator) :=
  inferInstanceAs (Decidable (_ ∧ _))

/-- The number is not below zero. -/
def Nonnegative (d : Decimal) : Prop := d.negative = false ∨ d.coefficient = 0

instance (d : Decimal) : Decidable d.Nonnegative := inferInstanceAs (Decidable (_ ∨ _))

end Decimal

/-! ## Digits -/

/-- Every character is a digit. -/
def Digits (text : List Char) : Prop := ∀ c ∈ text, c.isDigit = true

instance (text : List Char) : Decidable (Digits text) := inferInstanceAs (Decidable (∀ c ∈ text, _))

namespace Digits

theorem append {front back : List Char} (hfront : Digits front) (hback : Digits back) :
    Digits (front ++ back) := by
  intro c hc
  rcases List.mem_append.mp hc with hc | hc
  · exact hfront c hc
  · exact hback c hc

theorem left {front back : List Char} (h : Digits (front ++ back)) : Digits front :=
  fun c hc => h c (List.mem_append_left back hc)

theorem right {front back : List Char} (h : Digits (front ++ back)) : Digits back :=
  fun c hc => h c (List.mem_append_right front hc)

theorem toDigits (n : ℕ) : Digits (Nat.toDigits 10 n) :=
  fun _ hc => Nat.isDigit_of_mem_toDigits (by decide) (by decide) hc

/-- Groups of digits one after the other are digits. -/
theorem flatten {groups : List (List Char)} (h : ∀ group ∈ groups, Digits group) :
    Digits groups.flatten := by
  intro c hc
  obtain ⟨group, hgroup, hc⟩ := List.mem_flatten.mp hc
  exact h group hgroup c hc

end Digits

/-- A digit is worth less than ten. -/
theorem digit_lt {c : Char} (h : c.isDigit = true) : c.toNat - '0'.toNat < 10 := by
  have hbounds := Char.isDigit_iff_toNat.mp h
  simp only [Char.reduceToNat] at hbounds ⊢
  omega

theorem digitsValue_append (front back : List Char) :
    digitsValue (front ++ back) = digitsValue front * 10 ^ back.length + digitsValue back := by
  rw [digitsValue, Nat.ofDigitChars_append, Nat.ofDigitChars_eq_ofDigitChars_zero, digitsValue,
    digitsValue, Nat.mul_comm]

/-- Some digits are worth less than the power of ten that has one digit more. -/
theorem digitsValue_lt {digits : List Char} (h : Digits digits) :
    digitsValue digits < 10 ^ digits.length := by
  induction digits with
  | nil => exact Nat.one_pos
  | cons c digits ih =>
    have hc : digitsValue [c] < 10 := by
      rw [digitsValue, Nat.ofDigitChars_cons, Nat.ofDigitChars_nil, Nat.mul_zero, Nat.zero_add]
      exact digit_lt (h c List.mem_cons_self)
    have hrest := ih fun d hd => h d (List.mem_cons_of_mem c hd)
    rw [← List.singleton_append, digitsValue_append, List.length_append, List.length_singleton,
      Nat.pow_add, Nat.pow_one]
    calc digitsValue [c] * 10 ^ digits.length + digitsValue digits
        < digitsValue [c] * 10 ^ digits.length + 10 ^ digits.length := by omega
      _ = (digitsValue [c] + 1) * 10 ^ digits.length := by ring
      _ ≤ 10 * 10 ^ digits.length := Nat.mul_le_mul_right _ hc

/-! ## What a text is read as -/

namespace Decimal

/-- Digits alone are a whole number. -/
theorem parse_whole {digits : List Char} (h : Digits digits) (hsome : digits ≠ []) :
    parse digits = some ⟨false, digitsValue digits, 0⟩ := by
  obtain ⟨c, rest, rfl⟩ := List.exists_cons_of_ne_nil hsome
  have hc : c ≠ '-' := by
    rintro rfl
    exact absurd (h '-' List.mem_cons_self) (by decide)
  rw [parse, if_neg hc, unsigned, List.dropWhile_eq_nil_iff.mpr h]
  exact if_neg hsome

/-- Digits with a point among them. -/
theorem parse_point {whole fraction : List Char} (hwhole : Digits whole) (hfraction : Digits fraction)
    (hsome : whole ≠ []) :
    parse (whole ++ '.' :: fraction) =
      some ⟨false, digitsValue (whole ++ fraction), fraction.length⟩ := by
  obtain ⟨c, rest, rfl⟩ := List.exists_cons_of_ne_nil hsome
  have hc : c ≠ '-' := by
    rintro rfl
    exact absurd (hwhole '-' List.mem_cons_self) (by decide)
  have hdrop : ((c :: rest) ++ '.' :: fraction).dropWhile Char.isDigit = '.' :: fraction := by
    rw [List.dropWhile_append_of_pos hwhole]
    rfl
  have htake : ((c :: rest) ++ '.' :: fraction).takeWhile Char.isDigit = c :: rest := by
    rw [List.takeWhile_append_of_pos hwhole]
    simp
  rw [List.cons_append, parse, if_neg hc, ← List.cons_append, unsigned, hdrop]
  simp only [htake]
  exact if_pos ⟨trivial, List.all_eq_true.mpr hfraction, by simp⟩

/-- Behind the sign there is no other. -/
theorem unsigned_minus {negative : Bool} {text : List Char} (h : '-' ∈ text) :
    unsigned negative text = none := by
  have hsplit := List.takeWhile_append_dropWhile (p := Char.isDigit) (l := text)
  have hback : '-' ∈ text.dropWhile Char.isDigit := by
    rw [← hsplit] at h
    rcases List.mem_append.mp h with h | h
    · exact absurd (List.mem_takeWhile_imp h) (by decide)
    · exact h
  rw [unsigned]
  split
  · rename_i hnil
    exact absurd (hnil ▸ hback) List.not_mem_nil
  · rename_i point fraction hcons
    refine if_neg ?_
    rintro ⟨rfl, hall, -⟩
    rw [hcons] at hback
    rcases List.mem_cons.mp hback with h | h
    · exact absurd h (by decide)
    · exact absurd (List.all_eq_true.mp hall '-' h) (by decide)

/-- A text with a minus further on than at its start is no number. -/
theorem parse_minus {c : Char} {text : List Char} (h : '-' ∈ text) :
    parse (c :: text) = none := by
  rw [parse]
  split
  · exact unsigned_minus h
  · exact unsigned_minus (List.mem_cons_of_mem c h)

end Decimal

end CommerceCollector
