import CommerceCollector.Connectors.PriceAmounts

/-!
# Which currencies a price is read in

An amount that is written with separators may have a mark before or behind it, with or without a
gap: a sign such as `€`, letters such as `EUR` or `kr`, or both as in `US$`.  The amount is read
whatever the mark is.  The currency is read if the letters are one of the codes and something other
than a digit stands between them and the amount, or else if the first of the listed signs that is in
the mark is that of the currency.
-/

namespace CommerceCollector.Prices

/-! ## Looking for a code -/

/-- The character is a letter of some code. -/
def codeLetter (c : Char) : Bool := codes.any fun code => code.any (sameLetter · c)

/-- The letters are a code. -/
def spelled (letters : List Char) : Bool := letters.length == 3 && codes.any (spells letters)

variable {c : Char}

/-- What holds of the letters of the codes, of either case, and of the two signs that match them. -/
theorem codeLetter_induction {p : Char → Bool}
    (letters : (codes.all fun code => code.all fun letter => p letter && p letter.toLower) = true)
    (signs : (p longS && p kelvin) = true) (h : codeLetter c = true) : p c = true := by
  obtain ⟨code, hcode, hletter⟩ := List.any_eq_true.mp h
  obtain ⟨letter, hmem, hsame⟩ := List.any_eq_true.mp hletter
  have hboth := List.all_eq_true.mp (List.all_eq_true.mp letters code hcode) letter hmem
  rw [Bool.and_eq_true] at hboth signs
  simp only [sameLetter, Bool.or_eq_true, Bool.and_eq_true, beq_iff_eq] at hsame
  rcases hsame with ((rfl | rfl) | ⟨-, rfl⟩) | ⟨-, rfl⟩
  · exact hboth.1
  · exact hboth.2
  · exact signs.1
  · exact signs.2

theorem isWord_codeLetter {unicode : Unicode} (h : codeLetter c = true) :
    isWord unicode.isalnum c = true := by
  have hword := codeLetter_induction (p := fun c => c.isAlphanum || c == longS || c == kelvin)
    (by decide) (by decide) h
  simp only [Bool.or_eq_true, beq_iff_eq] at hword
  rcases hword with (halphanum | rfl) | rfl
  · simp [isWord, halphanum]
  · simp [isWord]
  · simp [isWord]

theorem codeLetter_digit (h : c.isDigit = true) : codeLetter c = false := by
  refine Bool.eq_false_iff.mpr fun hcode => ?_
  have hother := codeLetter_induction (p := fun c => !c.isDigit) (by decide) (by decide) hcode
  rw [h] at hother
  exact Bool.false_ne_true hother

theorem length_code : ∀ code ∈ codes, code.length = 3 := by decide

theorem letters_of_spells {text code : List Char} (hcode : code ∈ codes)
    (h : spells text code = true) : 3 ≤ text.length ∧ ∀ c ∈ text.take 3, codeLetter c = true := by
  simp only [spells, Bool.and_eq_true, decide_eq_true_eq] at h
  obtain ⟨hlength, hzip⟩ := h
  have hthree := length_code code hcode
  refine ⟨by omega, fun c hc => ?_⟩
  obtain ⟨i, hi, rfl⟩ := List.mem_iff_getElem.mp hc
  rw [List.length_take] at hi
  have hicode : i < code.length := by omega
  have hitext : i < text.length := by omega
  have hpair : (code[i], text[i]) ∈ code.zip text :=
    List.mem_iff_getElem.mpr ⟨i, by rw [List.length_zip]; omega, List.getElem_zip⟩
  have hsame := List.all_eq_true.mp hzip _ hpair
  rw [List.getElem_take]
  exact List.any_eq_true.mpr ⟨code, hcode,
    List.any_eq_true.mpr ⟨code[i], List.getElem_mem hicode, hsame⟩⟩

theorem not_spells {letters text : List Char} (h : letters.length < 3)
    (htext : ∀ c ∈ text, codeLetter c = false) : codes.any (spells (letters ++ text)) = false := by
  refine Bool.eq_false_iff.mpr fun hany => ?_
  obtain ⟨code, hcode, hspells⟩ := List.any_eq_true.mp hany
  obtain ⟨hlength, hall⟩ := letters_of_spells hcode hspells
  cases text with
  | nil =>
    rw [List.append_nil] at hlength
    omega
  | cons d text =>
    obtain ⟨k, hk⟩ : ∃ k, 3 - letters.length = k + 1 := ⟨2 - letters.length, by omega⟩
    have hd : d ∈ (letters ++ d :: text).take 3 := by
      rw [List.take_append, hk, List.take_succ_cons]
      exact List.mem_append_right _ List.mem_cons_self
    exact absurd ((htext d List.mem_cons_self).symm.trans (hall d hd)) (by decide)

theorem spells_append {letters text : List Char} (h : letters.length = 3) :
    codes.any (spells (letters ++ text)) = codes.any (spells letters) := by
  have hcode : ∀ code ∈ codes, spells (letters ++ text) code = spells letters code := by
    intro code hcode
    have hlength := length_code code hcode
    have hzip : code.zip (letters ++ text) = code.zip letters := by
      have happend : (code ++ []).zip (letters ++ text) = code.zip letters ++ [].zip text :=
        List.zip_append (by omega)
      rwa [List.append_nil, List.zip_nil_left, List.append_nil] at happend
    rw [spells, spells, hzip, List.length_append, decide_eq_true (by omega : code.length ≤ _),
      decide_eq_true (by omega : code.length ≤ letters.length)]
  rw [Bool.eq_iff_iff, List.any_eq_true, List.any_eq_true]
  constructor
  · rintro ⟨code, hmem, h⟩
    exact ⟨code, hmem, hcode code hmem ▸ h⟩
  · rintro ⟨code, hmem, h⟩
    exact ⟨code, hmem, (hcode code hmem).symm ▸ h⟩

section Search

variable {unicode : Unicode}

variable {before : Option Char}

theorem codeAt_none {text : List Char} (h : codeLetter c = false) :
    codeAt unicode before (c :: text) = none := by
  refine if_neg ?_
  rintro ⟨-, hany, -⟩
  obtain ⟨code, hcode, hspells⟩ := List.any_eq_true.mp hany
  have hc := (letters_of_spells hcode hspells).2 c (by simp)
  exact absurd (h.symm.trans hc) (by decide)

theorem codeAt_inside {before c : Char} {text : List Char} (hbefore : isWord unicode.isalnum before = true)
    (hc : isWord unicode.isalnum c = true) : codeAt unicode (some before) (c :: text) = none := by
  refine if_neg ?_
  rintro ⟨hboundary, -⟩
  simp [boundary, hbefore, hc] at hboundary

theorem findCode_none {text : List Char}
    (h : ∀ c ∈ text, codeLetter c = false) : findCode unicode before text = none := by
  induction text generalizing before with
  | nil => rfl
  | cons c text ih =>
    rw [findCode, codeAt_none (h c List.mem_cons_self), Option.none_or]
    exact ih fun d hd => h d (List.mem_cons_of_mem c hd)

theorem findCode_skip {front text : List Char} (hfront : ∀ d ∈ front, codeLetter d = false)
    (hc : codeLetter c = false) :
    findCode unicode before (front ++ c :: text) = findCode unicode (some c) text := by
  induction front generalizing before with
  | nil => rw [List.nil_append, findCode, codeAt_none hc, Option.none_or]
  | cons d front ih =>
    rw [List.cons_append, findCode, codeAt_none (hfront d List.mem_cons_self), Option.none_or]
    exact ih fun e he => hfront e (List.mem_cons_of_mem d he)

theorem findCode_inside {before : Char} {letters text : List Char}
    (hbefore : isWord unicode.isalnum before = true) (hletters : ∀ c ∈ letters, isWord unicode.isalnum c = true)
    (htext : ∀ c ∈ text, codeLetter c = false) :
    findCode unicode (some before) (letters ++ text) = none := by
  induction letters generalizing before with
  | nil => exact findCode_none htext
  | cons c letters ih =>
    have hc := hletters c List.mem_cons_self
    rw [List.cons_append, findCode, codeAt_inside hbefore hc, Option.none_or]
    exact ih hc fun d hd => hletters d (List.mem_cons_of_mem c hd)

/-- Letters start with a code if the three letters of a code are all there is of them. -/
theorem codeAt_letters {letters text : List Char}
    (hbefore : before.any (isWord unicode.isalnum) = false)
    (hletters : ∀ d ∈ c :: letters, isWord unicode.isalnum d = true)
    (htext : ∀ d ∈ text, codeLetter d = false) :
    codeAt unicode before (c :: letters ++ text) =
      if spelled (c :: letters) = true ∧ text.head?.any (isWord unicode.isalnum) = false then
        some (c :: letters)
      else none := by
  have hstart : boundary unicode before (c :: letters ++ text).head? = true := by
    simp [boundary, hbefore, hletters c List.mem_cons_self]
  match letters, hletters with
  | [], _ =>
    rw [if_neg (by simp [spelled])]
    exact if_neg fun h => absurd h.2.1 (by rw [not_spells (by simp) htext]; decide)
  | [a], _ =>
    rw [if_neg (by simp [spelled])]
    exact if_neg fun h => absurd h.2.1 (by rw [not_spells (by simp) htext]; decide)
  | [a, b], hletters =>
    have hend : boundary unicode (some b) text.head? = !text.head?.any (isWord unicode.isalnum) := by
      simp [boundary, hletters b (by simp)]
    have hspells : codes.any (spells ([c, a, b] ++ text)) = spelled [c, a, b] := by
      rw [spells_append rfl]
      rfl
    have hfourth : ([c, a, b] ++ text)[3]? = text.head? := by
      rw [List.getElem?_append_right (by simp)]
      exact List.head?_eq_getElem?.symm
    rw [codeAt, hstart, hspells, hfourth]
    have htail : boundary unicode ([c, a, b] ++ text)[2]? text.head? =
        !text.head?.any (isWord unicode.isalnum) := hend
    rw [htail]
    simp
  | a :: b :: d :: letters, hletters =>
    rw [if_neg (by simp [spelled])]
    refine if_neg ?_
    rintro ⟨-, -, hboundary⟩
    have hb := hletters b (by simp)
    have hd := hletters d (by simp)
    simp [boundary, hb, hd] at hboundary

/-- Letters at the start are the code if they are one and a word ends with them. -/
theorem findCode_letters {letters text : List Char}
    (hbefore : before.any (isWord unicode.isalnum) = false)
    (hletters : ∀ c ∈ letters, isWord unicode.isalnum c = true)
    (htext : ∀ c ∈ text, codeLetter c = false) :
    findCode unicode before (letters ++ text) =
      if spelled letters = true ∧ text.head?.any (isWord unicode.isalnum) = false then some letters
      else none := by
  cases letters with
  | nil => rw [List.nil_append, findCode_none htext, if_neg (by simp [spelled])]
  | cons c letters =>
    have hrest := findCode_inside (hletters c List.mem_cons_self)
      (fun d hd => hletters d (List.mem_cons_of_mem c hd)) htext
    have hstart := codeAt_letters hbefore hletters htext
    rw [List.cons_append] at hstart ⊢
    rw [findCode, hstart, hrest, Option.or_none]

end Search

/-! ## Marks -/

/-- What names a currency: letters, and signs behind them. -/
structure Mark (unicode : Unicode) where
  letters : List Char
  signs : List Char
  currency : List Char
  letters_word : ∀ c ∈ letters, isWord unicode.isalnum c = true
  signs_not_word : ∀ c ∈ signs, isWord unicode.isalnum c = false
  plain : ∀ c ∈ letters ++ signs, Plain c
  not_kept : ∀ c ∈ letters ++ signs, kept c = false
  ne_nil : letters ++ signs ≠ []

/-- Where the mark stands, and the spaces between it and the amount. -/
inductive Marking (unicode : Unicode)
  | plain
  | before (mark : Mark unicode) (gap : List Char) (spaces : ∀ c ∈ gap, isSpace c = true)
  | behind (gap : List Char) (mark : Mark unicode) (spaces : ∀ c ∈ gap, isSpace c = true)

namespace Marking

variable {unicode : Unicode}

/-- The amount with its mark. -/
def text : Marking unicode → Rendered → List Char
  | plain, r => r.text
  | before mark gap _, r => mark.letters ++ mark.signs ++ gap ++ r.text
  | behind gap mark _, r => r.text ++ gap ++ (mark.letters ++ mark.signs)

/-- The mark that stands there. -/
def mark? : Marking unicode → Option (Mark unicode)
  | plain => none
  | before mark _ _ => some mark
  | behind _ mark _ => some mark

/-- The letters are a code, and it does not touch a digit. -/
def Coded : Marking unicode → Prop
  | plain => False
  | before mark gap _ => spelled mark.letters = true ∧ (mark.signs ≠ [] ∨ gap ≠ [])
  | behind gap mark _ => spelled mark.letters = true ∧ gap ≠ []

instance : (m : Marking unicode) → Decidable m.Coded
  | plain => isFalse id
  | before mark gap _ =>
    inferInstanceAs (Decidable (spelled mark.letters = true ∧ (mark.signs ≠ [] ∨ gap ≠ [])))
  | behind gap mark _ => inferInstanceAs (Decidable (spelled mark.letters = true ∧ gap ≠ []))

/-- The currency of the mark is one that is looked for: a code which touches no digit, or else the
first of the signs that is there. -/
def Known (m : Marking unicode) : Prop :=
  ∀ mark, m.mark? = some mark →
    (m.Coded ∧ mark.currency = mark.letters.map upper) ∨
      (¬m.Coded ∧ findSign (mark.letters ++ mark.signs) = some mark.currency)

/-- What is left of the text when it is cleaned. -/
def cleaned : Marking unicode → Rendered → List Char
  | plain, r => r.text
  | before mark gap _, r => mark.letters ++ (mark.signs ++ (narrowed gap ++ r.text))
  | behind gap mark _, r => r.text ++ narrowed gap ++ (mark.letters ++ mark.signs)

end Marking

/-! ## Cleaning, the amount and the currency -/

theorem Rendered.char_plain (r : Rendered) : ∀ c ∈ r.text, Plain c := by
  intro c hc
  rcases r.text_chars c hc with hc | rfl | rfl
  · exact .digit hc
  all_goals exact ⟨rfl, by decide, by decide⟩

theorem Rendered.not_codeLetter (r : Rendered) : ∀ c ∈ r.text, codeLetter c = false := by
  intro c hc
  rcases r.text_chars c hc with hc | rfl | rfl
  · exact codeLetter_digit hc
  all_goals decide

theorem Rendered.filter_text (r : Rendered) : r.text.filter kept = r.text := by
  refine List.filter_eq_self.mpr fun c hc => ?_
  rcases r.text_chars c hc with hc | rfl | rfl
  · rw [kept, hc]
    rfl
  all_goals rfl

theorem Rendered.not_sign (r : Rendered) : ∀ p ∈ signs, p.1 ∉ r.text := by
  intro p hp hmem
  have hchars : ∀ p ∈ signs, p.1.isDigit = false ∧ p.1 ≠ '.' ∧ p.1 ≠ ',' := by decide
  obtain ⟨hdigit, hpoint, hcomma⟩ := hchars p hp
  rcases r.text_chars p.1 hmem with h | h | h
  · exact absurd (hdigit.symm.trans h) (by decide)
  · exact hpoint h
  · exact hcomma h

theorem Mark.signs_not_codeLetter {unicode : Unicode} (mark : Mark unicode) :
    ∀ c ∈ mark.signs, codeLetter c = false := by
  intro c hc
  refine Bool.eq_false_iff.mpr fun hcode => ?_
  exact absurd ((mark.signs_not_word c hc).symm.trans (isWord_codeLetter hcode)) (by decide)

theorem narrowed_chars {gap : List Char} : ∀ c ∈ narrowed gap, c = ' ' := by
  intro c hc
  rw [narrowed] at hc
  split at hc
  · exact absurd hc List.not_mem_nil
  · exact List.mem_singleton.mp hc

theorem findSign_congr {text text' : List Char} (h : ∀ p ∈ signs, p.1 ∈ text ↔ p.1 ∈ text') :
    findSign text = findSign text' := by
  have heuro := h ('€', "EUR".toList) (by simp [signs])
  have hpound := h ('£', "GBP".toList) (by simp [signs])
  have hdollar := h ('$', "USD".toList) (by simp [signs])
  simp only at heuro hpound hdollar
  simp only [findSign, signs, List.findSome?_cons, List.findSome?_nil, heuro, hpound, hdollar]

namespace Marking

variable {unicode : Unicode} (m : Marking unicode) (r : Rendered)

theorem clean_text : clean unicode (m.text r) = m.cleaned r := by
  cases m with
  | plain => exact clean_plain r.char_plain r.text_ne_nil
  | before mark gap spaces =>
    rw [text, clean_gap mark.plain r.char_plain spaces mark.ne_nil r.text_ne_nil, cleaned]
    simp only [List.append_assoc]
  | behind gap mark spaces =>
    rw [text, clean_gap r.char_plain mark.plain spaces r.text_ne_nil mark.ne_nil, cleaned]

theorem cleaned_ne_nil : m.cleaned r ≠ [] := by
  cases m with
  | plain => exact r.text_ne_nil
  | before mark gap spaces => simp [cleaned, r.text_ne_nil]
  | behind gap mark spaces => simp [cleaned, r.text_ne_nil]

theorem filter_cleaned : (m.cleaned r).filter kept = r.text := by
  have hgap : ∀ gap : List Char, (narrowed gap).filter kept = [] := by
    intro gap
    refine List.filter_eq_nil_iff.mpr fun c hc => ?_
    rw [narrowed_chars c hc]
    decide
  have hmark : ∀ mark : Mark unicode, mark.letters.filter kept = [] ∧ mark.signs.filter kept = [] := by
    intro mark
    constructor <;> refine List.filter_eq_nil_iff.mpr fun c hc => ?_
    · rw [mark.not_kept c (List.mem_append_left _ hc)]
      decide
    · rw [mark.not_kept c (List.mem_append_right _ hc)]
      decide
  cases m with
  | plain => exact r.filter_text
  | before mark gap spaces =>
    simp only [cleaned, List.filter_append, hgap, hmark mark, r.filter_text, List.nil_append]
  | behind gap mark spaces =>
    simp only [cleaned, List.filter_append, hgap, hmark mark, r.filter_text, List.append_nil]

theorem findCode_cleaned :
    findCode unicode none (m.cleaned r) =
      if m.Coded then m.mark?.map (·.letters) else none := by
  cases m with
  | plain => exact findCode_none r.not_codeLetter
  | before mark gap spaces =>
    have htext : ∀ c ∈ mark.signs ++ (narrowed gap ++ r.text), codeLetter c = false := by
      intro c hc
      rcases List.mem_append.mp hc with hc | hc
      · exact mark.signs_not_codeLetter c hc
      rcases List.mem_append.mp hc with hc | hc
      · rw [narrowed_chars c hc]
        decide
      · exact r.not_codeLetter c hc
    have hhead : (mark.signs ++ (narrowed gap ++ r.text)).head?.any (isWord unicode.isalnum) = false ↔
        mark.signs ≠ [] ∨ gap ≠ [] := by
      cases hsigns : mark.signs with
      | cons c signs =>
        have hc := mark.signs_not_word c (hsigns ▸ List.mem_cons_self)
        simp [hc]
      | nil =>
        by_cases hgap : gap = []
        · obtain ⟨c, rest, htext, hc⟩ := r.head_digit
          simp [narrowed, hgap, htext, isWord_digit hc]
        · have hspace : isWord unicode.isalnum ' ' = false := rfl
          simp [narrowed, hgap, hspace]
    rw [cleaned, findCode_letters rfl mark.letters_word htext]
    exact if_congr (and_congr Iff.rfl hhead) rfl rfl
  | behind gap mark spaces =>
    by_cases hgap : gap = []
    · obtain ⟨front, c, htext, hc⟩ := r.last_digit
      have hfront : ∀ d ∈ front, codeLetter d = false := fun d hd =>
        r.not_codeLetter d (htext ▸ List.mem_append_left _ hd)
      have hcleaned : cleaned (behind gap mark spaces) r =
          front ++ c :: (mark.letters ++ mark.signs) := by
        rw [cleaned, htext, narrowed, if_pos hgap]
        simp
      rw [hcleaned, findCode_skip hfront (codeLetter_digit hc),
        findCode_inside (isWord_digit hc) mark.letters_word mark.signs_not_codeLetter, if_neg]
      exact fun h => h.2 hgap
    · have hcleaned : cleaned (behind gap mark spaces) r =
          r.text ++ ' ' :: (mark.letters ++ mark.signs) := by
        rw [cleaned, narrowed, if_neg hgap]
        simp
      have hhead : mark.signs.head?.any (isWord unicode.isalnum) = false := by
        cases hsigns : mark.signs with
        | nil => rfl
        | cons c signs => exact mark.signs_not_word c (hsigns ▸ List.mem_cons_self)
      have hspace : (some ' ').any (isWord unicode.isalnum) = false := rfl
      rw [hcleaned, findCode_skip r.not_codeLetter (by decide),
        findCode_letters hspace mark.letters_word mark.signs_not_codeLetter]
      exact if_congr (and_congr Iff.rfl (by simp [hhead, hgap])) rfl rfl

theorem findSign_cleaned :
    findSign (m.cleaned r) = m.mark?.bind fun mark => findSign (mark.letters ++ mark.signs) := by
  have hgap : ∀ gap : List Char, ∀ p ∈ signs, p.1 ∉ narrowed gap := by
    intro gap p hp hmem
    have hspace : ∀ p ∈ signs, p.1 ≠ ' ' := by decide
    exact hspace p hp (narrowed_chars _ hmem)
  cases m with
  | plain =>
    refine (findSign_congr fun p hp => ?_ : findSign r.text = findSign []).trans rfl
    simp [r.not_sign p hp]
  | before mark gap spaces =>
    refine findSign_congr fun p hp => ?_
    simp [cleaned, r.not_sign p hp, hgap gap p hp]
  | behind gap mark spaces =>
    refine findSign_congr fun p hp => ?_
    simp [cleaned, r.not_sign p hp, hgap gap p hp]

/-- The currency is read if the mark is known, and without a mark none is. -/
theorem findCurrency_iff :
    findCurrency unicode (m.cleaned r) = m.mark?.map (·.currency) ↔ m.Known := by
  rw [findCurrency, findCode_cleaned, findSign_cleaned, Known]
  cases hmark : m.mark? with
  | none => simp
  | some mark =>
    by_cases hcoded : m.Coded
    · simp [hcoded, eq_comm]
    · simp [hcoded]

theorem price_text :
    price unicode (.text (m.text r)) =
      (some ⟨false, r.numerator, r.fraction.length⟩, findCurrency unicode (m.cleaned r)) := by
  rw [price, PriceValue.str, clean_text]
  simp only [if_neg (m.cleaned_ne_nil r)]
  rw [normalized, filter_cleaned, r.parse_text]
  rfl

end Marking

/-- A JSON number that is not below zero is read exactly if and only if it is not zero, is written
without an exponent, and has not three digits behind its point; an amount with separators and a mark
is read with its currency if and only if the mark is a known one. -/
theorem price_preserved_iff (unicode : Unicode) :
    (∀ n : JSONNumber, Returns unicode (.number false n) n.numerator n.denominator ↔
      n.numerator ≠ 0 ∧ n.exponent = none ∧ n.fraction.length ≠ 3) ∧
    (∀ (m : Marking unicode) (r : Rendered),
      (Returns unicode (.text (m.text r)) r.numerator r.denominator ∧
        (price unicode (.text (m.text r))).2 = m.mark?.map (·.currency)) ↔ m.Known) := by
  refine ⟨fun n => n.returns_iff unicode, fun m r => ?_⟩
  have hreturns : Returns unicode (.text (m.text r)) r.numerator r.denominator :=
    ⟨_, by rw [m.price_text r], rfl, rfl⟩
  rw [and_iff_right hreturns, m.price_text r]
  exact m.findCurrency_iff r

/-- The number 1.234. -/
def littleOverOne : JSONNumber where
  whole := ['1']
  fraction := ['2', '3', '4']
  exponent := none
  whole_digits := List.all_eq_true.mp (by decide)
  whole_ne_nil := by decide
  fraction_digits := List.all_eq_true.mp (by decide)
  leading := by simp
  upwards := by simp

/-- The number 1.234 is read as 1234. -/
theorem thousandfold_price :
    let unicode : Unicode := ⟨id, fun _ => false⟩
    price unicode (.number false littleOverOne) = (some ⟨false, 1234, 0⟩, none) ∧
      ¬Returns unicode (.number false littleOverOne) littleOverOne.numerator
        littleOverOne.denominator := by
  intro unicode
  have hprice : price unicode (.number false littleOverOne) = (some ⟨false, 1234, 0⟩, none) := by
    decide +kernel
  refine ⟨hprice, ?_⟩
  rintro ⟨d, hd, his⟩
  rw [hprice] at hd
  obtain rfl := Option.some.inj hd
  exact absurd his (by decide +kernel)

end CommerceCollector.Prices
