import Mathlib.Tactic.Common

/-!
# Classes of characters

The characters that Python takes for spaces and for parts of words, and text that is taken up to the
first character outside of a class.  Which characters beyond ASCII are letters or digits is a
parameter.
-/

namespace CommerceCollector

/-- `ſ`, which equals `s` where case is ignored. -/
def longS : Char := Char.ofNat 0x17F

/-- The sign for kelvin, which equals `k` where case is ignored. -/
def kelvin : Char := Char.ofNat 0x212A

/-- `str.isspace`, and `\s`. -/
def isSpace (c : Char) : Bool :=
  let n := c.toNat
  (9 ≤ n && n ≤ 13) || (28 ≤ n && n ≤ 32) || n == 0x85 || n == 0xA0 || n == 0x1680 ||
    (0x2000 ≤ n && n ≤ 0x200A) || n == 0x2028 || n == 0x2029 || n == 0x202F || n == 0x205F ||
    n == 0x3000

/-- `\w`. -/
def isWord (isalnum : Char → Bool) (c : Char) : Bool :=
  c.isAlphanum || c == '_' || c == longS || c == kelvin || (128 ≤ c.toNat && isalnum c)

theorem isSpace_digit {c : Char} (h : c.isDigit = true) : isSpace c = false := by
  have hbounds := Char.isDigit_iff_toNat.mp h
  simp only [Char.reduceToNat] at hbounds
  simp only [isSpace, Bool.or_eq_false_iff, Bool.and_eq_false_iff, decide_eq_false_iff_not,
    beq_eq_false_iff_ne]
  omega

theorem isWord_digit {isalnum : Char → Bool} {c : Char} (h : c.isDigit = true) :
    isWord isalnum c = true := by simp [isWord, Char.isAlphanum, h]

/-- Letters and digits are ASCII characters. -/
theorem toNat_alphanum {c : Char} (h : c.isAlphanum = true) : c.toNat < 128 := by
  have hranges : c.isAlphanum = (decide (c.val ≥ 65 ∧ c.val ≤ 90) ||
      (c.val ≥ 97 && c.val ≤ 122) || (c.val ≥ 48 && c.val ≤ 57)) := rfl
  simp only [hranges, Bool.or_eq_true, Bool.and_eq_true, decide_eq_true_eq, ge_iff_le,
    UInt32.le_iff_toNat_le] at h
  have hvalue : c.toNat = c.val.toNat := rfl
  rcases h with (⟨-, h⟩ | ⟨-, h⟩) | ⟨-, h⟩
  · exact hvalue ▸ Nat.lt_of_le_of_lt h (by decide)
  · exact hvalue ▸ Nat.lt_of_le_of_lt h (by decide)
  · exact hvalue ▸ Nat.lt_of_le_of_lt h (by decide)
/-- A letter that is turned into lower case is one. -/
theorem toLower_cases (c : Char) : c.toLower = c ∨ c.toLower.isLower = true := by
  by_cases hsmall : c.toNat < 128
  · have hall : ∀ n < 128, (Char.ofNat n).toLower = Char.ofNat n ∨
        (Char.ofNat n).toLower.isLower = true := by decide
    have hchar := hall c.toNat hsmall
    rwa [Char.ofNat_toNat] at hchar
  · refine .inl (dif_neg ?_)
    rintro ⟨-, hle⟩
    have hvalue : c.val.toNat ≤ 90 := UInt32.le_iff_toNat_le.mp hle
    exact hsmall (Nat.lt_of_le_of_lt hvalue (by decide))

/-- Nothing but itself is turned into what is not a lower-case letter. -/
theorem eq_of_toLower_eq {c p : Char} (hp : p.isLower = false) (h : c.toLower = p) : c = p := by
  rcases toLower_cases c with hsame | hlower
  · exact hsame.symm.trans h
  · rw [h, hp] at hlower
    exact absurd hlower (by decide)

/-! ## Spans -/

/-- Text is taken up to the first character that is not of its class. -/
theorem span_front {inClass : Char → Bool} {front rest : List Char}
    (hfront : ∀ c ∈ front, inClass c = true)
    (hrest : rest = [] ∨ ∃ c tail, rest = c :: tail ∧ inClass c = false) :
    (front ++ rest).takeWhile inClass = front ∧ (front ++ rest).dropWhile inClass = rest := by
  rw [List.takeWhile_append_of_pos hfront, List.dropWhile_append_of_pos hfront]
  rcases hrest with rfl | ⟨c, tail, rfl, hc⟩
  · exact ⟨List.append_nil front, rfl⟩
  · have hneg : ¬inClass c = true := by rw [hc]; exact Bool.false_ne_true
    rw [List.takeWhile_cons_of_neg hneg, List.dropWhile_cons_of_neg hneg, List.append_nil]
    exact ⟨rfl, rfl⟩

/-- Text in front of a character that it does not have. -/
theorem takeWhile_ne {c : Char} {front rest : List Char} (hfront : ∀ d ∈ front, d ≠ c)
    (hrest : rest = [] ∨ rest.head? = some c) : (front ++ rest).takeWhile (· != c) = front := by
  refine (span_front (fun d hd => bne_iff_ne.mpr (hfront d hd)) (hrest.imp id fun hhead => ?_)).1
  obtain ⟨tail, htail⟩ := List.head?_eq_some_iff.mp hhead
  exact ⟨c, tail, htail, by simp⟩

end CommerceCollector
