import CommerceCollector.Foundation.Characters
import CommerceCollector.Foundation.Decimals

/-!
# Prices of PrestaShop

`_price` of `connectors/prestashop.py` and `clean` of `parsing/_structured.py`.  A value is turned
into a text, whether it is a number or a text already; a currency is looked for in the text,
everything but digits, points, commas and minuses is dropped from it, and of the points and commas
those that three digits and no fourth follow.

Of Python, what `html.unescape` does with the references of a text that has some, and which
characters beyond ASCII are letters or digits, are parameters.
-/

namespace CommerceCollector.Prices

/-- What is not modelled of the texts of Python. -/
structure Unicode where
  charref : List Char → List Char
  isalnum : Char → Bool

/-! ## `clean` -/

/-- `re.sub(r"<[^>]+>", " ", text)`; the fuel is the length of the text. -/
def dropTags : ℕ → List Char → List Char
  | 0, text => text
  | _ + 1, [] => []
  | fuel + 1, c :: rest =>
    if c = '<' then
      match rest.takeWhile (· ≠ '>'), rest.dropWhile (· ≠ '>') with
      | _ :: _, _ :: behind => ' ' :: dropTags fuel behind
      | _, _ => c :: dropTags fuel rest
    else c :: dropTags fuel rest

/-- `html.unescape`. -/
def unescape (unicode : Unicode) (text : List Char) : List Char :=
  if '&' ∈ text then unicode.charref text else text

/-- `text.split()`. -/
def words (text : List Char) : List (List Char) := (text.splitOnP isSpace).filter (· ≠ [])

/-- `" ".join(words)`. -/
def join (words : List (List Char)) : List Char := [' '].intercalate words

/-- `clean`, of the text of a value. -/
def clean (unicode : Unicode) (text : List Char) : List Char :=
  join (words (unescape unicode (dropTags text.length text)))

/-! ## Values -/

/-- The exponent that `repr` writes behind a float. -/
inductive Exponent
  /-- `e-05`. -/
  | down (e : ℕ)
  /-- `e+16`. -/
  | up (e : ℕ)
deriving DecidableEq, Repr

/-- `e`, the sign and at least two digits. -/
def Exponent.text : Exponent → List Char
  | .down e => 'e' :: '-' :: ((if e < 10 then ['0'] else []) ++ Nat.toDigits 10 e)
  | .up e => 'e' :: '+' :: Nat.toDigits 10 e

/-- What `str` writes of an `int` or of a finite `float`, without the sign: the shortest digits that
are the number.  An exponent is written behind one digit which is not zero, and upwards from sixteen
on. -/
structure JSONNumber where
  whole : List Char
  fraction : List Char
  exponent : Option Exponent
  whole_digits : Digits whole
  whole_ne_nil : whole ≠ []
  fraction_digits : Digits fraction
  leading : ∀ e, exponent = some e → whole.length = 1 ∧ digitsValue whole ≠ 0
  upwards : ∀ e, exponent = some (.up e) → 16 ≤ e

/-- `str(number)`. -/
def JSONNumber.text (n : JSONNumber) : List Char :=
  n.whole ++ (if n.fraction = [] then [] else '.' :: n.fraction) ++
    (n.exponent.map Exponent.text).getD []

/-- The number times `denominator`. -/
def JSONNumber.numerator (n : JSONNumber) : ℕ :=
  match n.exponent with
  | some (.up e) => digitsValue (n.whole ++ n.fraction) * 10 ^ e
  | _ => digitsValue (n.whole ++ n.fraction)

/-- The power of ten that makes the number whole. -/
def JSONNumber.denominator (n : JSONNumber) : ℕ :=
  match n.exponent with
  | some (.down e) => 10 ^ (n.fraction.length + e)
  | _ => 10 ^ n.fraction.length

/-- A decoded value: any other has its `str`, or is as false as `None`. -/
inductive PriceValue
  | none
  | text (written : List Char)
  | number (negative : Bool) (n : JSONNumber)
  | other (written : List Char)

/-- `str(value or "")`. -/
def PriceValue.str : PriceValue → List Char
  | .none => []
  | .text written => written
  | .number negative n =>
    if n.numerator = 0 then [] else (if negative then ['-'] else []) ++ n.text
  | .other written => written

/-! ## The currency -/

/-- The codes that are looked for. -/
def codes : List (List Char) :=
  ["EUR", "USD", "GBP", "CHF", "SEK", "NOK", "DKK", "PLN", "CZK", "HUF", "BGN", "RON"].map
    String.toList

/-- The signs that are looked for. -/
def signs : List (Char × List Char) :=
  [('€', "EUR".toList), ('£', "GBP".toList), ('$', "USD".toList)]

/-- A character that the letter of a code matches with `re.I`. -/
def sameLetter (letter c : Char) : Bool :=
  c == letter || c == letter.toLower || (letter == 'S' && c == longS) || (letter == 'K' && c == kelvin)

/-- `str.upper`, of a character that a letter of a code matches. -/
def upper (c : Char) : Char := if c = longS then 'S' else c.toUpper

/-- The text starts with the code. -/
def spells (text code : List Char) : Bool :=
  code.length ≤ text.length && (code.zip text).all fun p => sameLetter p.1 p.2

/-- `\b` between two characters, of which there are none at the ends of a text. -/
def boundary (unicode : Unicode) (before behind : Option Char) : Bool :=
  before.any (isWord unicode.isalnum) != behind.any (isWord unicode.isalnum)

/-- The group of a match at the start of the text; every code has three letters. -/
def codeAt (unicode : Unicode) (before : Option Char) (text : List Char) : Option (List Char) :=
  if boundary unicode before text.head? ∧ codes.any (spells text) ∧
      boundary unicode text[2]? text[3]? then some (text.take 3)
  else none

/-- The group of the first match. -/
def findCode (unicode : Unicode) (before : Option Char) : List Char → Option (List Char)
  | [] => none
  | c :: rest => (codeAt unicode before (c :: rest)).or (findCode unicode (some c) rest)

/-- The currency of the first sign of the list that is in the text. -/
def findSign (text : List Char) : Option (List Char) :=
  signs.findSome? fun p => if p.1 ∈ text then some p.2 else none

/-- The currency of a text. -/
def findCurrency (unicode : Unicode) (text : List Char) : Option (List Char) :=
  ((findCode unicode none text).map fun code => code.map upper).or (findSign text)

/-! ## The amount -/

/-- `[0-9.,-]`. -/
def kept (c : Char) : Bool := c.isDigit || c == '.' || c == ',' || c == '-'

/-- `\d{3}(?:\D|$)`. -/
def threeDigits : List Char → Bool
  | a :: b :: c :: rest =>
    a.isDigit && b.isDigit && c.isDigit && !rest.head?.any Char.isDigit
  | _ => false

/-- `re.sub(r"[.,](?=\d{3}(?:\D|$))", "", text)`. -/
def dropSeparators : List Char → List Char
  | [] => []
  | c :: rest =>
    if (c = '.' ∨ c = ',') ∧ threeDigits rest = true then dropSeparators rest
    else c :: dropSeparators rest

/-- One character of `replace(",", ".")`. -/
def toPoint (c : Char) : Char := if c = ',' then '.' else c

/-- `normalized`. -/
def normalized (text : List Char) : List Char := (dropSeparators (text.filter kept)).map toPoint

/-- `_price`. -/
def price (unicode : Unicode) (value : PriceValue) : Option Decimal × Option (List Char) :=
  let text := clean unicode value.str
  if text = [] then (none, none)
  else ((Decimal.parse (normalized text)).filter (·.Nonnegative), findCurrency unicode text)

/-! ## Texts without markup -/

/-- A text without `<` keeps everything. -/
theorem dropTags_eq {text : List Char} (h : '<' ∉ text) (fuel : ℕ) : dropTags fuel text = text := by
  induction fuel generalizing text with
  | zero => rfl
  | succ fuel ih =>
    cases text with
    | nil => rfl
    | cons c rest =>
      have hc : c ≠ '<' := fun hc => h (hc ▸ List.mem_cons_self)
      rw [dropTags, if_neg hc, ih fun hrest => h (List.mem_cons_of_mem c hrest)]

theorem words_eq {text : List Char} (h : ∀ c ∈ text, isSpace c = false) (hsome : text ≠ []) :
    words text = [text] := by
  rw [words, List.splitOnP_eq_singleton h, List.filter_cons_of_pos (by simpa using hsome),
    List.filter_nil]

theorem words_cons_space {c : Char} {text : List Char} (h : isSpace c = true) :
    words (c :: text) = words text := by
  have hsplit : ([] ++ c :: text).splitOnP isSpace = [] :: text.splitOnP isSpace :=
    List.splitOnP_append_cons_of_forall_mem (fun _ hx => absurd hx List.not_mem_nil) c h text
  rw [words, words]
  rw [List.nil_append] at hsplit
  rw [hsplit, List.filter_cons_of_neg (by simp)]

theorem words_spaces {gap text : List Char} (h : ∀ c ∈ gap, isSpace c = true) :
    words (gap ++ text) = words text := by
  induction gap with
  | nil => rfl
  | cons c gap ih =>
    rw [List.cons_append, words_cons_space (h c List.mem_cons_self),
      ih fun d hd => h d (List.mem_cons_of_mem c hd)]

theorem words_gap {front gap back : List Char} (hfront : ∀ c ∈ front, isSpace c = false)
    (hback : ∀ c ∈ back, isSpace c = false) (hgap : ∀ c ∈ gap, isSpace c = true)
    (hf : front ≠ []) (hb : back ≠ []) (hg : gap ≠ []) :
    words (front ++ gap ++ back) = [front, back] := by
  obtain ⟨c, rest, rfl⟩ := List.exists_cons_of_ne_nil hg
  have hrest : words (rest ++ back) = words back :=
    words_spaces fun d hd => hgap d (List.mem_cons_of_mem c hd)
  have hsplit : (front ++ c :: (rest ++ back)).splitOnP isSpace =
      front :: (rest ++ back).splitOnP isSpace :=
    List.splitOnP_append_cons_of_forall_mem hfront c (hgap c List.mem_cons_self) (rest ++ back)
  rw [words] at hrest ⊢
  rw [List.append_assoc, List.cons_append, hsplit,
    List.filter_cons_of_pos (by simpa using hf), hrest]
  exact congrArg _ (words_eq hback hb)

end CommerceCollector.Prices
