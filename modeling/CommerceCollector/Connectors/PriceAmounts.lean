import CommerceCollector.Connectors.Prices

/-!
# Which amounts a price is read as

A point or a comma is dropped where three digits follow it, so an amount that is written with
separators and at most two digits behind the point is read as it is meant.  The same is done to the
text of a JSON number, whose point marks no thousands: with three digits behind it the number is
read a thousand times too large, an exponent is taken for digits or makes the text unreadable, and
zero is as false as no value at all.  Every other number is read exactly.
-/

namespace CommerceCollector.Prices

/-! ## Cleaning -/

/-- The character means nothing to HTML and is no space. -/
def Plain (c : Char) : Prop := isSpace c = false ∧ c ≠ '<' ∧ c ≠ '&'

variable {unicode : Unicode}

theorem unescape_eq {text : List Char} (h : '&' ∉ text) : unescape unicode text = text :=
  if_neg h

theorem clean_plain {text : List Char} (h : ∀ c ∈ text, Plain c)
    (hsome : text ≠ []) : clean unicode text = text := by
  have htags : '<' ∉ text := fun hc => (h _ hc).2.1 rfl
  have hrefs : '&' ∉ text := fun hc => (h _ hc).2.2 rfl
  rw [clean, dropTags_eq htags, unescape_eq hrefs, words_eq (fun c hc => (h c hc).1) hsome]
  exact List.append_nil text

/-- The space that is left of a gap. -/
def narrowed (gap : List Char) : List Char := if gap = [] then [] else [' ']

theorem clean_gap {front gap back : List Char} (hfront : ∀ c ∈ front, Plain c)
    (hback : ∀ c ∈ back, Plain c) (hgap : ∀ c ∈ gap, isSpace c = true) (hf : front ≠ [])
    (hb : back ≠ []) : clean unicode (front ++ gap ++ back) = front ++ narrowed gap ++ back := by
  by_cases hg : gap = []
  · subst hg
    rw [narrowed, if_pos rfl, List.append_nil]
    refine clean_plain (fun c hc => ?_) (by simp [hf])
    rcases List.mem_append.mp hc with hc | hc
    · exact hfront c hc
    · exact hback c hc
  · have hmem : ∀ c ∈ front ++ gap ++ back, c ≠ '<' ∧ c ≠ '&' := by
      intro c hc
      rcases List.mem_append.mp hc with hc | hc
      · rcases List.mem_append.mp hc with hc | hc
        · exact (hfront c hc).2
        · constructor <;> rintro rfl <;> exact absurd (hgap _ hc) (by decide)
      · exact (hback c hc).2
    have htags : '<' ∉ front ++ gap ++ back := fun hc => (hmem _ hc).1 rfl
    have hrefs : '&' ∉ front ++ gap ++ back := fun hc => (hmem _ hc).2 rfl
    rw [clean, dropTags_eq htags, unescape_eq hrefs,
      words_gap (fun c hc => (hfront c hc).1) (fun c hc => (hback c hc).1) hgap hf hb hg,
      narrowed, if_neg hg]
    simp [join, List.intercalate]

/-! ## Dropping separators -/

theorem map_toPoint {digits : List Char} (h : Digits digits) : digits.map toPoint = digits := by
  have hsame : ∀ c ∈ digits, toPoint c = id c := by
    intro c hc
    refine if_neg ?_
    rintro rfl
    exact absurd (h _ hc) (by decide)
  rw [List.map_congr_left hsame, List.map_id]

theorem dropSeparators_digits {digits : List Char} (h : Digits digits) (text : List Char) :
    dropSeparators (digits ++ text) = digits ++ dropSeparators text := by
  induction digits with
  | nil => rfl
  | cons c digits ih =>
    have hc : ¬((c = '.' ∨ c = ',') ∧ threeDigits (digits ++ text) = true) := by
      rintro ⟨rfl | rfl, -⟩ <;> exact absurd (h _ List.mem_cons_self) (by decide)
    rw [List.cons_append, dropSeparators, if_neg hc,
      ih fun d hd => h d (List.mem_cons_of_mem c hd), List.cons_append]

theorem dropSeparators_digits_nil {digits : List Char} (h : Digits digits) :
    dropSeparators digits = digits := by
  have hdrop := dropSeparators_digits h []
  rwa [List.append_nil, dropSeparators, List.append_nil] at hdrop

theorem threeDigits_iff (text : List Char) :
    threeDigits text = true ↔ (text.takeWhile Char.isDigit).length = 3 := by
  match text with
  | [] => simp [threeDigits]
  | [a] =>
    cases ha : a.isDigit <;> simp [threeDigits, ha]
  | [a, b] =>
    cases ha : a.isDigit <;> cases hb : b.isDigit <;> simp [threeDigits, ha, hb]
  | [a, b, c] =>
    cases ha : a.isDigit <;> cases hb : b.isDigit <;> cases hc : c.isDigit <;>
      simp [threeDigits, ha, hb, hc]
  | a :: b :: c :: d :: rest =>
    cases ha : a.isDigit <;> cases hb : b.isDigit <;> cases hc : c.isDigit <;>
      cases hd : d.isDigit <;> simp [threeDigits, ha, hb, hc, hd]

theorem threeDigits_group {group text : List Char} (h : Digits group)
    (htext : text.head?.any Char.isDigit = false) :
    threeDigits (group ++ text) = true ↔ group.length = 3 := by
  have htake : text.takeWhile Char.isDigit = [] := by
    cases text with
    | nil => rfl
    | cons c text => exact List.takeWhile_cons_of_neg (by simpa using htext)
  rw [threeDigits_iff, List.takeWhile_append_of_pos h, htake, List.append_nil]
theorem dropSeparators_point {point : Char} {digits text : List Char}
    (hpoint : point = '.' ∨ point = ',') (h : Digits digits)
    (htext : text.head?.any Char.isDigit = false) :
    dropSeparators (point :: (digits ++ text)) =
      (if digits.length = 3 then [] else [point]) ++ digits ++ dropSeparators text := by
  rw [dropSeparators, dropSeparators_digits h]
  by_cases hlength : digits.length = 3
  · rw [if_pos ⟨hpoint, (threeDigits_group h htext).mpr hlength⟩, if_pos hlength, List.nil_append]
  · rw [if_neg fun hdrop => hlength ((threeDigits_group h htext).mp hdrop.2), if_neg hlength]
    rfl

theorem dropSeparators_point_nil {point : Char} {digits : List Char}
    (hpoint : point = '.' ∨ point = ',') (h : Digits digits) :
    dropSeparators (point :: digits) = (if digits.length = 3 then [] else [point]) ++ digits := by
  have hdrop : dropSeparators (point :: (digits ++ [])) =
      (if digits.length = 3 then [] else [point]) ++ digits ++ dropSeparators [] :=
    dropSeparators_point hpoint h rfl
  rwa [List.append_nil, dropSeparators, List.append_nil] at hdrop

/-! ## Amounts with separators -/

/-- An amount that is written with separators between its thousands, in one convention or the
other. -/
structure Rendered where
  /-- `1.234,5`, and not `1,234.5`. -/
  continental : Bool
  first : List Char
  groups : List (List Char)
  fraction : List Char
  first_digits : Digits first
  first_ne_nil : first ≠ []
  groups_digits : ∀ group ∈ groups, Digits group ∧ group.length = 3
  fraction_digits : Digits fraction
  fraction_le : fraction.length ≤ 2

namespace Rendered

def separator (r : Rendered) : Char := if r.continental then '.' else ','

def point (r : Rendered) : Char := if r.continental then ',' else '.'

/-- What stands behind the thousands. -/
def rest (r : Rendered) : List Char := if r.fraction = [] then [] else r.point :: r.fraction

def text (r : Rendered) : List Char :=
  r.first ++ (r.groups.flatMap (r.separator :: ·) ++ r.rest)

/-- Every digit of the amount. -/
def digits (r : Rendered) : List Char := r.first ++ r.groups.flatten ++ r.fraction

/-- The amount times `denominator`. -/
def numerator (r : Rendered) : ℕ := digitsValue r.digits

/-- The power of ten that makes the amount whole. -/
def denominator (r : Rendered) : ℕ := 10 ^ r.fraction.length

variable (r : Rendered)

theorem separator_cases : r.separator = '.' ∨ r.separator = ',' := by
  rw [separator]
  split
  · exact .inl rfl
  · exact .inr rfl

theorem point_cases : r.point = '.' ∨ r.point = ',' := by
  rw [point]
  split
  · exact .inr rfl
  · exact .inl rfl

theorem text_chars : ∀ c ∈ r.text, c.isDigit = true ∨ c = '.' ∨ c = ',' := by
  intro c hc
  rw [text, rest] at hc
  rcases List.mem_append.mp hc with hc | hc
  · exact .inl (r.first_digits c hc)
  rcases List.mem_append.mp hc with hc | hc
  · obtain ⟨group, hgroup, hc⟩ := List.mem_flatMap.mp hc
    rcases List.mem_cons.mp hc with rfl | hc
    · exact .inr r.separator_cases
    · exact .inl ((r.groups_digits group hgroup).1 c hc)
  · split at hc
    · exact absurd hc List.not_mem_nil
    · rcases List.mem_cons.mp hc with rfl | hc
      · exact .inr r.point_cases
      · exact .inl (r.fraction_digits c hc)

theorem text_ne_nil : r.text ≠ [] := by
  rw [text]
  exact List.append_ne_nil_of_left_ne_nil r.first_ne_nil _

theorem head_digit : ∃ c rest, r.text = c :: rest ∧ c.isDigit = true := by
  obtain ⟨c, front, hfirst⟩ := List.exists_cons_of_ne_nil r.first_ne_nil
  exact ⟨c, front ++ (r.groups.flatMap (r.separator :: ·) ++ r.rest),
    by rw [text, hfirst, List.cons_append], r.first_digits c (hfirst ▸ List.mem_cons_self)⟩

theorem exists_concat {digits : List Char} (h : Digits digits) (hsome : digits ≠ []) :
    ∃ front c, digits = front ++ [c] ∧ c.isDigit = true := by
  have hlast := List.dropLast_concat_getLast hsome
  exact ⟨digits.dropLast, digits.getLast hsome, hlast.symm, h _ (List.getLast_mem hsome)⟩

theorem last_digit : ∃ front c, r.text = front ++ [c] ∧ c.isDigit = true := by
  by_cases hfraction : r.fraction = []
  · by_cases hgroups : r.groups = []
    · obtain ⟨front, c, hc, hdigit⟩ := exists_concat r.first_digits r.first_ne_nil
      exact ⟨front, c, by rw [text, rest, if_pos hfraction, hgroups, hc]; simp, hdigit⟩
    · have hlast := List.dropLast_concat_getLast hgroups
      obtain ⟨hdigits, hlength⟩ := r.groups_digits _ (List.getLast_mem hgroups)
      have hsome : r.groups.getLast hgroups ≠ [] := fun hnil => by simp [hnil] at hlength
      obtain ⟨front, c, hc, hdigit⟩ := exists_concat hdigits hsome
      refine ⟨r.first ++ r.groups.dropLast.flatMap (r.separator :: ·) ++ r.separator :: front, c,
        ?_, hdigit⟩
      rw [text, rest, if_pos hfraction, ← hlast, hc]
      simp
  · obtain ⟨front, c, hc, hdigit⟩ := exists_concat r.fraction_digits hfraction
    exact ⟨r.first ++ r.groups.flatMap (r.separator :: ·) ++ r.point :: front, c,
      by rw [text, rest, if_neg hfraction, hc]; simp, hdigit⟩

theorem dropSeparators_text : dropSeparators r.text = r.first ++ r.groups.flatten ++ r.rest := by
  have hrest : dropSeparators r.rest = r.rest := by
    rw [rest]
    split
    · rfl
    · have hlength := r.fraction_le
      rw [dropSeparators_point_nil r.point_cases r.fraction_digits, if_neg (by omega)]
      rfl
  have hhead : r.rest.head?.any Char.isDigit = false := by
    rw [rest]
    split
    · rfl
    · rcases r.point_cases with h | h <;> rw [h] <;> rfl
  have hgroups : ∀ groups : List (List Char), (∀ group ∈ groups, group ∈ r.groups) →
      (groups.flatMap (r.separator :: ·) ++ r.rest).head?.any Char.isDigit = false ∧
        dropSeparators (groups.flatMap (r.separator :: ·) ++ r.rest) = groups.flatten ++ r.rest := by
    intro groups hmem
    induction groups with
    | nil => exact ⟨hhead, hrest⟩
    | cons group groups ih =>
      obtain ⟨htail, ih⟩ := ih fun g hg => hmem g (List.mem_cons_of_mem group hg)
      obtain ⟨hdigits, hlength⟩ := r.groups_digits group (hmem group List.mem_cons_self)
      constructor
      · rcases r.separator_cases with h | h <;> rw [List.flatMap_cons, h] <;> rfl
      · rw [List.flatMap_cons, List.append_assoc, List.cons_append,
          dropSeparators_point r.separator_cases hdigits htail, if_pos hlength, ih,
          List.flatten_cons, List.nil_append, List.append_assoc]
  rw [text, dropSeparators_digits r.first_digits, (hgroups r.groups fun _ h => h).2,
    List.append_assoc]

theorem parse_text :
    Decimal.parse ((dropSeparators r.text).map toPoint) =
      some ⟨false, r.numerator, r.fraction.length⟩ := by
  have hthousands : Digits (r.first ++ r.groups.flatten) :=
    r.first_digits.append (Digits.flatten fun group h => (r.groups_digits group h).1)
  have hsome : r.first ++ r.groups.flatten ≠ [] := by simp [r.first_ne_nil]
  rw [dropSeparators_text, List.map_append, map_toPoint hthousands, rest]
  by_cases hfraction : r.fraction = []
  · rw [if_pos hfraction, List.map_nil, List.append_nil, Decimal.parse_whole hthousands hsome,
      numerator, digits, hfraction, List.append_nil, List.length_nil]
  · have hpoint : toPoint r.point = '.' := by
      rcases r.point_cases with h | h <;> rw [h] <;> rfl
    rw [if_neg hfraction, List.map_cons, hpoint, map_toPoint r.fraction_digits,
      Decimal.parse_point hthousands r.fraction_digits hsome]
    rfl

end Rendered

/-! ## JSON numbers -/

/-- The value is read as the amount. -/
def Returns (unicode : Unicode) (value : PriceValue) (numerator denominator : ℕ) : Prop :=
  ∃ d, (price unicode value).1 = some d ∧ d.Is numerator denominator

theorem parse_pointed {whole digits : List Char} (hwhole : Digits whole) (hdigits : Digits digits)
    (hsome : whole ≠ []) :
    Decimal.parse ((dropSeparators (whole ++ '.' :: digits)).map toPoint) =
      some ⟨false, digitsValue (whole ++ digits), if digits.length = 3 then 0 else digits.length⟩ := by
  rw [dropSeparators_digits hwhole, dropSeparators_point_nil (.inl rfl) hdigits]
  by_cases hlength : digits.length = 3
  · have hall : Digits (whole ++ digits) := hwhole.append hdigits
    rw [if_pos hlength, if_pos hlength, List.nil_append, map_toPoint hall,
      Decimal.parse_whole hall (by simp [hsome])]
  · rw [if_neg hlength, if_neg hlength, List.singleton_append, List.map_append, List.map_cons,
      map_toPoint hwhole, map_toPoint hdigits]
    exact Decimal.parse_point hwhole hdigits hsome

theorem parse_digits {digits : List Char} (h : Digits digits) (hsome : digits ≠ []) :
    Decimal.parse ((dropSeparators digits).map toPoint) = some ⟨false, digitsValue digits, 0⟩ := by
  rw [dropSeparators_digits_nil h, map_toPoint h, Decimal.parse_whole h hsome]

theorem minus_mem_dropSeparators {text : List Char} (h : '-' ∈ text) : '-' ∈ dropSeparators text := by
  induction text with
  | nil => exact absurd h List.not_mem_nil
  | cons c text ih =>
    rw [dropSeparators]
    split
    · rename_i hdrop
      rcases List.mem_cons.mp h with rfl | h
      · exact absurd hdrop.1 (by decide)
      · exact ih h
    · rcases List.mem_cons.mp h with rfl | h
      · exact List.mem_cons_self
      · exact List.mem_cons_of_mem c (ih h)

theorem parse_minus_inside {whole text : List Char} (hwhole : Digits whole) (hsome : whole ≠ [])
    (h : '-' ∈ text) : Decimal.parse ((dropSeparators (whole ++ text)).map toPoint) = none := by
  obtain ⟨c, whole, rfl⟩ := List.exists_cons_of_ne_nil hsome
  rw [dropSeparators_digits hwhole, List.cons_append, List.map_cons]
  refine Decimal.parse_minus (List.mem_map.mpr ⟨'-', ?_, rfl⟩)
  exact List.mem_append_right whole (minus_mem_dropSeparators h)

theorem Plain.digit {c : Char} (h : c.isDigit = true) : Plain c := by
  refine ⟨isSpace_digit h, ?_, ?_⟩ <;> rintro rfl <;> exact absurd h (by decide)

namespace JSONNumber

variable (n : JSONNumber)

/-- The digits with the point between them. -/
def pointed (n : JSONNumber) : List Char :=
  n.whole ++ (if n.fraction = [] then [] else '.' :: n.fraction)

theorem pointed_chars : ∀ c ∈ n.pointed, c.isDigit = true ∨ c = '.' := by
  intro c hc
  rcases List.mem_append.mp hc with hc | hc
  · exact .inl (n.whole_digits c hc)
  · split at hc
    · exact absurd hc List.not_mem_nil
    · rcases List.mem_cons.mp hc with rfl | hc
      · exact .inr rfl
      · exact .inl (n.fraction_digits c hc)

theorem exponent_chars (e : Exponent) :
    ∀ c ∈ e.text, c.isDigit = true ∨ c = 'e' ∨ c = '+' ∨ c = '-' := by
  intro c hc
  cases e with
  | down e =>
    rw [Exponent.text] at hc
    simp only [List.mem_cons, List.mem_append] at hc
    rcases hc with rfl | rfl | hc | hc
    · simp
    · simp
    · split at hc
      · rw [List.mem_singleton.mp hc]
        simp
      · exact absurd hc List.not_mem_nil
    · exact .inl (Digits.toDigits e c hc)
  | up e =>
    rw [Exponent.text] at hc
    simp only [List.mem_cons] at hc
    rcases hc with rfl | rfl | hc
    · simp
    · simp
    · exact .inl (Digits.toDigits e c hc)

theorem text_plain : ∀ c ∈ n.text, Plain c := by
  intro c hc
  rcases List.mem_append.mp hc with hc | hc
  · rcases n.pointed_chars c hc with hc | rfl
    · exact .digit hc
    · exact ⟨rfl, by decide, by decide⟩
  · cases hexp : n.exponent with
    | none =>
      rw [hexp] at hc
      exact absurd hc List.not_mem_nil
    | some e =>
      rw [hexp] at hc
      rcases exponent_chars e c hc with hc | rfl | rfl | rfl
      · exact .digit hc
      all_goals exact ⟨rfl, by decide, by decide⟩

theorem text_ne_nil : n.text ≠ [] := by simp [text, n.whole_ne_nil]

theorem price_eq (h : n.numerator ≠ 0) :
    (price unicode (.number false n)).1 =
      (Decimal.parse (normalized n.text)).filter (·.Nonnegative) := by
  have hstr : PriceValue.str (.number false n) = n.text := if_neg h
  rw [price, hstr, clean_plain n.text_plain n.text_ne_nil]
  simp only [if_neg n.text_ne_nil]

theorem filter_pointed : n.pointed.filter kept = n.pointed := by
  refine List.filter_eq_self.mpr fun c hc => ?_
  rcases n.pointed_chars c hc with hc | rfl
  · rw [kept, hc]
    rfl
  · rfl

theorem filter_digits {digits : List Char} (h : Digits digits) : digits.filter kept = digits := by
  refine List.filter_eq_self.mpr fun c hc => ?_
  rw [kept, h c hc]
  rfl

theorem parse_none (h : n.exponent = none) :
    Decimal.parse (normalized n.text) =
      some ⟨false, digitsValue (n.whole ++ n.fraction),
        if n.fraction.length = 3 then 0 else n.fraction.length⟩ := by
  have htext : n.text = n.pointed := by
    rw [text, h]
    exact List.append_nil _
  rw [normalized, htext, filter_pointed, pointed]
  by_cases hfraction : n.fraction = []
  · rw [if_pos hfraction, List.append_nil, parse_digits n.whole_digits n.whole_ne_nil, hfraction,
      List.append_nil]
    rfl
  · rw [if_neg hfraction, parse_pointed n.whole_digits n.fraction_digits n.whole_ne_nil]

theorem parse_down {e : ℕ} (h : n.exponent = some (.down e)) :
    Decimal.parse (normalized n.text) = none := by
  have htext : n.text = n.pointed ++ Exponent.text (.down e) := by
    rw [text, h]
    rfl
  have hminus : '-' ∈ (Exponent.text (.down e)).filter kept :=
    List.mem_filter.mpr ⟨by simp [Exponent.text], rfl⟩
  rw [normalized, htext, List.filter_append, filter_pointed, pointed, List.append_assoc]
  exact parse_minus_inside n.whole_digits n.whole_ne_nil (List.mem_append_right _ hminus)

/-- With an exponent above zero its digits are read as those of the number. -/
theorem parse_up {e : ℕ} (h : n.exponent = some (.up e)) :
    Decimal.parse (normalized n.text) =
      some ⟨false, digitsValue (n.whole ++ (n.fraction ++ Nat.toDigits 10 e)),
        if n.fraction = [] ∨ (n.fraction ++ Nat.toDigits 10 e).length = 3 then 0
        else (n.fraction ++ Nat.toDigits 10 e).length⟩ := by
  have htext : n.text = n.pointed ++ 'e' :: '+' :: Nat.toDigits 10 e := by
    rw [text, h]
    rfl
  have hexponent : ('e' :: '+' :: Nat.toDigits 10 e).filter kept = Nat.toDigits 10 e :=
    filter_digits (Digits.toDigits e)
  rw [normalized, htext, List.filter_append, filter_pointed, hexponent, pointed]
  by_cases hfraction : n.fraction = []
  · rw [if_pos hfraction, List.append_nil,
      parse_digits (n.whole_digits.append (Digits.toDigits e)) (by simp [n.whole_ne_nil]),
      if_pos (.inl hfraction), hfraction, List.nil_append]
  · rw [if_neg hfraction, List.append_assoc, List.cons_append,
      parse_pointed n.whole_digits (n.fraction_digits.append (Digits.toDigits e)) n.whole_ne_nil]
    by_cases hlength : (n.fraction ++ Nat.toDigits 10 e).length = 3
    · rw [if_pos hlength, if_pos (.inr hlength)]
    · rw [if_neg hlength, if_neg (by simp only [hfraction, hlength, or_self, not_false_iff])]

theorem length_exponent {e : ℕ} (h : 16 ≤ e) : (Nat.toDigits 10 e).length + 1 ≤ e := by
  obtain ⟨k, rfl⟩ : ∃ k, e = k + 2 := ⟨e - 2, by omega⟩
  have hpow : k < 10 ^ k := Nat.lt_pow_self (by decide)
  have hlength : (Nat.toDigits 10 (k + 2)).length ≤ k + 1 := by
    rw [Nat.length_toDigits_le_iff (by decide) (Nat.succ_pos k), Nat.pow_succ]
    omega
  omega

/-- The digits that are read are fewer than the exponent and the places behind the point. -/
theorem scale_up {e : ℕ} (h : n.exponent = some (.up e)) :
    1 + n.fraction.length + (Nat.toDigits 10 e).length ≤
      e + if n.fraction = [] ∨ (n.fraction ++ Nat.toDigits 10 e).length = 3 then 0
        else (n.fraction ++ Nat.toDigits 10 e).length := by
  have hup := n.upwards e h
  have hexponent := length_exponent hup
  split
  · rename_i hscale
    rcases hscale with hscale | hscale
    · rw [hscale, List.length_nil]
      omega
    · rw [List.length_append] at hscale
      omega
  · rw [List.length_append]
    omega

theorem up_lt {e : ℕ} (h : n.exponent = some (.up e)) {coefficient scale : ℕ}
    (hcoefficient : coefficient < 10 ^ (1 + n.fraction.length + (Nat.toDigits 10 e).length))
    (hscale : 1 + n.fraction.length + (Nat.toDigits 10 e).length ≤ e + scale) :
    coefficient * 10 ^ n.fraction.length < n.numerator * 10 ^ scale := by
  have hwhole : 1 ≤ digitsValue n.whole := Nat.one_le_iff_ne_zero.mpr (n.leading _ h).2
  have hmantissa : 10 ^ n.fraction.length ≤ digitsValue (n.whole ++ n.fraction) := by
    rw [digitsValue_append]
    exact Nat.le_add_right_of_le (Nat.le_mul_of_pos_left _ hwhole)
  have hnumerator : n.numerator = digitsValue (n.whole ++ n.fraction) * 10 ^ e := by
    rw [numerator, h]
  calc coefficient * 10 ^ n.fraction.length
      < 10 ^ (1 + n.fraction.length + (Nat.toDigits 10 e).length) * 10 ^ n.fraction.length :=
        Nat.mul_lt_mul_of_pos_right hcoefficient (Nat.pow_pos (by decide))
    _ ≤ 10 ^ (e + scale) * 10 ^ n.fraction.length :=
        Nat.mul_le_mul_right _ (Nat.pow_le_pow_right (by decide) hscale)
    _ ≤ 10 ^ (e + scale) * digitsValue (n.whole ++ n.fraction) := Nat.mul_le_mul_left _ hmantissa
    _ = n.numerator * 10 ^ scale := by rw [hnumerator, Nat.pow_add]; ring

/-- A number is read exactly if it is not zero, is written without an exponent, and has not three
digits behind the point. -/
theorem returns_iff (unicode : Unicode) :
    Returns unicode (.number false n) n.numerator n.denominator ↔
      n.numerator ≠ 0 ∧ n.exponent = none ∧ n.fraction.length ≠ 3 := by
  constructor
  · rintro ⟨d, hd, -, his⟩
    have hzero : n.numerator ≠ 0 := by
      intro hzero
      have hstr : PriceValue.str (.number false n) = [] := if_pos hzero
      rw [price, hstr] at hd
      exact absurd hd (by simp [clean, dropTags, unescape, words, join])
    rw [n.price_eq hzero] at hd
    cases hexp : n.exponent with
    | none =>
      refine ⟨hzero, rfl, fun hlength => ?_⟩
      rw [n.parse_none hexp, if_pos hlength] at hd
      obtain ⟨rfl⟩ := Option.some.inj (Option.filter_eq_some_iff.mp hd).1
      have hnumerator : n.numerator = digitsValue (n.whole ++ n.fraction) := by rw [numerator, hexp]
      have hdenominator : n.denominator = 10 ^ 3 := by rw [denominator, hexp, hlength]
      rw [hdenominator, ← hnumerator] at his
      have hthousand : n.numerator * 10 ^ 3 = n.numerator * 10 ^ 0 := his
      omega
    | some e =>
      cases e with
      | down e =>
        rw [n.parse_down hexp] at hd
        exact absurd hd (by simp)
      | up e =>
        rw [n.parse_up hexp] at hd
        obtain ⟨rfl⟩ := Option.some.inj (Option.filter_eq_some_iff.mp hd).1
        have hdenominator : n.denominator = 10 ^ n.fraction.length := by rw [denominator, hexp]
        have hall : Digits (n.whole ++ (n.fraction ++ Nat.toDigits 10 e)) :=
          n.whole_digits.append (n.fraction_digits.append (Digits.toDigits e))
        have hcoefficient := digitsValue_lt hall
        rw [List.length_append, List.length_append, (n.leading _ hexp).1, ← Nat.add_assoc]
          at hcoefficient
        refine absurd his (Nat.ne_of_lt ?_)
        rw [hdenominator]
        exact n.up_lt hexp hcoefficient (n.scale_up hexp)
  · rintro ⟨hzero, hexp, hlength⟩
    refine ⟨⟨false, digitsValue (n.whole ++ n.fraction), n.fraction.length⟩, ?_, rfl, ?_⟩
    · rw [n.price_eq hzero, n.parse_none hexp, if_neg hlength]
      exact Option.filter_eq_some_iff.mpr ⟨rfl, by simp [Decimal.Nonnegative]⟩
    · simp only [numerator, denominator, hexp]

end JSONNumber

end CommerceCollector.Prices
