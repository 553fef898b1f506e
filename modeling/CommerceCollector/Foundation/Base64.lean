import Mathlib.Data.List.DropRight
import Mathlib.Data.Fin.Basic
import Mathlib.Data.Int.ModEq

/-!
# Base64

With the alphabet for URLs, `encode` is `base64.urlsafe_b64encode` and `decode` is
`base64.urlsafe_b64decode`, which skips what is not in the alphabet and stops at the padding.
`decode_pad_strip`: bytes survive the loss of their padding, as it can be restored from the length.
With the standard alphabet, `encodeStandard` and `decodeStrict` are `base64.b64encode` and
`base64.b64decode` with `validate`.
-/

namespace Base64

/-- A byte. -/
abbrev Byte := Fin 256

/-- The byte of a number. -/
abbrev byte (n : ℕ) : Byte := Fin.ofNat 256 n

/-- The character of a sextet. -/
def digit (n : ℕ) : Char :=
  if n < 26 then Char.ofNat (65 + n)
  else if n < 52 then Char.ofNat (71 + n)
  else if n < 62 then Char.ofNat (n - 4)
  else if n = 62 then '-'
  else '_'

/-- `base64.urlsafe_b64encode(data)`. -/
def encode : List Byte → List Char
  | a :: b :: c :: rest =>
    digit (a / 4) :: digit (a % 4 * 16 + b / 16) :: digit (b % 16 * 4 + c / 64) ::
      digit (c % 64) :: encode rest
  | [a, b] => [digit (a / 4), digit (a % 4 * 16 + b / 16), digit (b % 16 * 4), '=']
  | [a] => [digit (a / 4), digit (a % 4 * 16), '=', '=']
  | [] => []

/-- The sextet of a character; the standard alphabet is read as well. -/
def sextet (c : Char) : Option ℕ :=
  if c.isUpper then some (c.toNat - 65)
  else if c.isLower then some (c.toNat - 71)
  else if c.isDigit then some (c.toNat + 4)
  else if c = '-' ∨ c = '+' then some 62
  else if c = '_' ∨ c = '/' then some 63
  else none

/-- The bytes of a text, from the position `quad` in a group of four characters on. -/
def decodeFrom (quad left pads : ℕ) : List Char → Option (List Byte)
  | [] => if quad = 0 then some [] else none
  | c :: cs =>
    if c = '=' then
      if 2 ≤ quad then if 4 ≤ quad + (pads + 1) then some [] else decodeFrom quad left (pads + 1) cs
      else decodeFrom quad left pads cs
    else
      match sextet c with
      | none => decodeFrom quad left pads cs
      | some v =>
        match quad with
        | 0 => decodeFrom 1 v 0 cs
        | 1 => (decodeFrom 2 (v % 16) 0 cs).map (Fin.ofNat 256 (left * 4 + v / 16) :: ·)
        | 2 => (decodeFrom 3 (v % 4) 0 cs).map (Fin.ofNat 256 (left * 16 + v / 4) :: ·)
        | _ => (decodeFrom 0 0 0 cs).map (Fin.ofNat 256 (left * 64 + v) :: ·)

/-- `base64.urlsafe_b64decode(text)`. -/
def decode (cs : List Char) : Option (List Byte) :=
  if cs.all fun c => c.toNat < 128 then decodeFrom 0 0 0 cs else none

/-- `text.rstrip("=")`. -/
def strip (cs : List Char) : List Char := cs.rdropWhile (· = '=')

/-- `text + "=" * (-len(text) % 4)`. -/
def pad (cs : List Char) : List Char :=
  cs ++ List.replicate (-(cs.length : ℤ) % 4).toNat '='

/-! ## Sextets -/

theorem sextet_digit {n : ℕ} (h : n < 64) : sextet (digit n) = some n := by
  have hall : ∀ k < 64, sextet (digit k) = some k := by decide
  exact hall n h

theorem digit_ne_pad {n : ℕ} (h : n < 64) : digit n ≠ '=' := by
  have hall : ∀ k < 64, digit k ≠ '=' := by decide
  exact hall n h

theorem toNat_digit {n : ℕ} (h : n < 64) : (digit n).toNat < 128 := by
  have hall : ∀ k < 64, (digit k).toNat < 128 := by decide
  exact hall n h

/-- Reading a character of the alphabet. -/
theorem decodeFrom_digit {n : ℕ} (h : n < 64) (quad left pads : ℕ) (cs : List Char) :
    decodeFrom quad left pads (digit n :: cs) =
      match quad with
      | 0 => decodeFrom 1 n 0 cs
      | 1 => (decodeFrom 2 (n % 16) 0 cs).map (Fin.ofNat 256 (left * 4 + n / 16) :: ·)
      | 2 => (decodeFrom 3 (n % 4) 0 cs).map (Fin.ofNat 256 (left * 16 + n / 4) :: ·)
      | _ => (decodeFrom 0 0 0 cs).map (Fin.ofNat 256 (left * 64 + n) :: ·) := by
  rw [decodeFrom, if_neg (digit_ne_pad h), sextet_digit h]

/-! ## Reading back -/

theorem ofNat_eq {n : ℕ} {a : Byte} (h : n = a.val) : Fin.ofNat 256 n = a := by
  apply Fin.ext
  rw [Fin.val_ofNat, h, Nat.mod_eq_of_lt a.isLt]

/-- The bytes of an encoded text are its bytes. -/
theorem decodeFrom_encode (bytes : List Byte) : decodeFrom 0 0 0 (encode bytes) = some bytes := by
  induction bytes using encode.induct with
  | case1 a b c rest ih =>
    have ha := a.isLt
    have hb := b.isLt
    have hc := c.isLt
    rw [encode, decodeFrom_digit (by omega)]
    simp only
    rw [decodeFrom_digit (by omega)]
    simp only
    rw [decodeFrom_digit (by omega)]
    simp only
    rw [decodeFrom_digit (by omega)]
    simp only
    rw [ih, ofNat_eq (a := a) (by omega), ofNat_eq (a := b) (by omega), ofNat_eq (a := c) (by omega)]
    rfl
  | case2 a b =>
    have ha := a.isLt
    have hb := b.isLt
    rw [encode, decodeFrom_digit (by omega)]
    simp only
    rw [decodeFrom_digit (by omega)]
    simp only
    rw [decodeFrom_digit (by omega)]
    simp only
    rw [ofNat_eq (a := a) (by omega), ofNat_eq (a := b) (by omega)]
    rfl
  | case3 a =>
    have ha := a.isLt
    rw [encode, decodeFrom_digit (by omega)]
    simp only
    rw [decodeFrom_digit (by omega)]
    simp only
    rw [ofNat_eq (a := a) (by omega)]
    rfl
  | case4 => rfl

/-- An encoded text is in ASCII. -/
theorem encode_ascii (bytes : List Byte) : ∀ c ∈ encode bytes, c.toNat < 128 := by
  induction bytes using encode.induct with
  | case1 a b c rest ih =>
    simp only [encode, List.forall_mem_cons]
    exact ⟨toNat_digit (by omega), toNat_digit (by omega), toNat_digit (by omega),
      toNat_digit (by omega), ih⟩
  | case2 a b =>
    simp only [encode, List.forall_mem_cons]
    exact ⟨toNat_digit (by omega), toNat_digit (by omega), toNat_digit (by omega), by decide, nofun⟩
  | case3 a =>
    simp only [encode, List.forall_mem_cons]
    exact ⟨toNat_digit (by omega), toNat_digit (by omega), by decide, by decide, nofun⟩
  | case4 => exact nofun

theorem strip_pad (cs : List Char) : strip (cs ++ ['=']) = strip cs :=
  List.rdropWhile_concat_pos _ _ _ (by simp)

theorem strip_concat (cs : List Char) {d : Char} (hd : d ≠ '=') : strip (cs ++ [d]) = cs ++ [d] :=
  List.rdropWhile_concat_neg _ _ _ (by simpa using hd)

/-- Nothing in front of another character is dropped. -/
theorem strip_append_cons (cs ds : List Char) {d : Char} (hd : d ≠ '=') :
    strip (cs ++ d :: ds) = cs ++ d :: strip ds := by
  induction ds using List.reverseRecOn with
  | nil => exact strip_concat cs hd
  | append_singleton es e ih =>
    have hassoc : cs ++ d :: (es ++ [e]) = cs ++ d :: es ++ [e] := by
      rw [List.append_assoc, List.cons_append]
    by_cases he : e = '='
    · rw [hassoc, he, strip_pad, strip_pad, ih]
    · rw [hassoc, strip_concat _ he, strip_concat _ he, hassoc]

/-- The padding is restored. -/
theorem pad_strip_encode (bytes : List Byte) : pad (strip (encode bytes)) = encode bytes := by
  induction bytes using encode.induct with
  | case1 a b c rest ih =>
    have hstrip : strip (encode (a :: b :: c :: rest)) =
        digit (a / 4) :: digit (a % 4 * 16 + b / 16) :: digit (b % 16 * 4 + c / 64) ::
          digit (c % 64) :: strip (encode rest) :=
      strip_append_cons
        [digit (a / 4), digit (a % 4 * 16 + b / 16), digit (b % 16 * 4 + c / 64)] _
        (digit_ne_pad (by omega))
    -- A group of four characters leaves the length of the padding as it is.
    have hsame : -((strip (encode (a :: b :: c :: rest))).length : ℤ) % 4 =
        -((strip (encode rest)).length : ℤ) % 4 := by
      rw [hstrip]
      simp only [List.length_cons]
      omega
    rw [pad, hsame, hstrip]
    simp only [List.cons_append]
    rw [← pad, ih]
    rfl
  | case2 a b =>
    have hstrip : strip (encode [a, b]) =
        [digit (a / 4), digit (a % 4 * 16 + b / 16)] ++ [digit (b % 16 * 4)] :=
      (strip_pad ([digit (a / 4), digit (a % 4 * 16 + b / 16)] ++ [digit (b % 16 * 4)])).trans
        (strip_concat _ (digit_ne_pad (by omega)))
    rw [hstrip]
    rfl
  | case3 a =>
    have hstrip : strip (encode [a]) = [digit (a / 4)] ++ [digit (a % 4 * 16)] :=
      ((strip_pad ([digit (a / 4)] ++ [digit (a % 4 * 16)] ++ ['='])).trans
        (strip_pad ([digit (a / 4)] ++ [digit (a % 4 * 16)]))).trans
          (strip_concat _ (digit_ne_pad (by omega)))
    rw [hstrip]
    rfl
  | case4 => rfl

/-- **Bytes are read back from their text without its padding.** -/
theorem decode_pad_strip (bytes : List Byte) : decode (pad (strip (encode bytes))) = some bytes := by
  rw [pad_strip_encode, decode, if_pos, decodeFrom_encode]
  rw [List.all_eq_true]
  intro c hc
  simpa using encode_ascii bytes c hc

/-! ## The standard alphabet -/

/-- The standard alphabet has other characters for the last two sextets. -/
def standardChar (c : Char) : Char := if c = '-' then '+' else if c = '_' then '/' else c

/-- `base64.b64encode(data)`. -/
def encodeStandard (bytes : List Byte) : List Char := (encode bytes).map standardChar

/-- A text is one of the standard alphabet, with at most two padding characters at its end. -/
def strict (cs : List Char) : Bool :=
  (strip cs).all (fun c => c.isAlphanum || c == '+' || c == '/') &&
    cs.length ≤ (strip cs).length + 2

/-- `base64.b64decode(text, validate=True)`. -/
def decodeStrict (cs : List Char) : Option (List Byte) :=
  if strict cs = true then decodeFrom 0 0 0 cs else none

/-- A character of the standard alphabet is read as that of the other one. -/
theorem standardChar_digit {n : ℕ} (h : n < 64) :
    sextet (standardChar (digit n)) = some n ∧ standardChar (digit n) ≠ '=' ∧
      ((standardChar (digit n)).isAlphanum || standardChar (digit n) == '+' ||
        standardChar (digit n) == '/') = true := by
  have hall : ∀ k < 64, sextet (standardChar (digit k)) = some k ∧ standardChar (digit k) ≠ '=' ∧
      ((standardChar (digit k)).isAlphanum || standardChar (digit k) == '+' ||
        standardChar (digit k) == '/') = true := by
    decide
  exact hall n h

/-- The alphabet of a text does not matter. -/
theorem decodeFrom_standard (cs : List Char) (hcs : ∀ c ∈ cs, c = '=' ∨ ∃ n < 64, c = digit n)
    (quad left pads : ℕ) :
    decodeFrom quad left pads (cs.map standardChar) = decodeFrom quad left pads cs := by
  induction cs generalizing quad left pads with
  | nil => rfl
  | cons c cs ih =>
    have ih := ih fun d hd => hcs d (List.mem_cons_of_mem c hd)
    rcases hcs c List.mem_cons_self with rfl | ⟨n, hn, rfl⟩
    · rw [List.map_cons, show standardChar '=' = '=' from rfl, decodeFrom, decodeFrom]
      simp only [ih]
    · obtain ⟨hsextet, hpad, -⟩ := standardChar_digit hn
      rw [List.map_cons, decodeFrom, decodeFrom, if_neg hpad, if_neg (digit_ne_pad hn), hsextet,
        sextet_digit hn]
      simp only [ih]

/-- An encoded text: characters of the alphabet, and the padding. -/
theorem encode_shape (bytes : List Byte) :
    ∃ digits pads, encode bytes = digits ++ List.replicate pads '=' ∧ pads ≤ 2 ∧
      ∀ c ∈ digits, ∃ n < 64, c = digit n := by
  induction bytes using encode.induct with
  | case1 a b c rest ih =>
    obtain ⟨digits, pads, heq, hpads, hdigits⟩ := ih
    refine ⟨digit (a / 4) :: digit (a % 4 * 16 + b / 16) :: digit (b % 16 * 4 + c / 64) ::
      digit (c % 64) :: digits, pads, by rw [encode, heq]; rfl, hpads, ?_⟩
    simp only [List.forall_mem_cons]
    exact ⟨⟨_, by omega, rfl⟩, ⟨_, by omega, rfl⟩, ⟨_, by omega, rfl⟩, ⟨_, by omega, rfl⟩, hdigits⟩
  | case2 a b =>
    refine ⟨[digit (a / 4), digit (a % 4 * 16 + b / 16), digit (b % 16 * 4)], 1, rfl, by decide, ?_⟩
    simp only [List.forall_mem_cons]
    exact ⟨⟨_, by omega, rfl⟩, ⟨_, by omega, rfl⟩, ⟨_, by omega, rfl⟩, nofun⟩
  | case3 a =>
    refine ⟨[digit (a / 4), digit (a % 4 * 16)], 2, rfl, by decide, ?_⟩
    simp only [List.forall_mem_cons]
    exact ⟨⟨_, by omega, rfl⟩, ⟨_, by omega, rfl⟩, nofun⟩
  | case4 => exact ⟨[], 0, rfl, by decide, nofun⟩

/-- The padding is stripped. -/
theorem strip_append_replicate (cs : List Char) (hcs : ∀ c ∈ cs, c ≠ '=') (n : ℕ) :
    strip (cs ++ List.replicate n '=') = cs := by
  induction n with
  | zero =>
    rw [List.replicate_zero, List.append_nil]
    cases cs using List.reverseRecOn with
    | nil => rfl
    | append_singleton cs d =>
      exact strip_concat cs (hcs d (List.mem_append_right _ (List.mem_singleton_self d)))
  | succ n ih => rw [List.replicate_succ', ← List.append_assoc, strip_pad, ih]

/-- **Bytes are read back from their text in the standard alphabet.** -/
theorem decodeStrict_encodeStandard (bytes : List Byte) :
    decodeStrict (encodeStandard bytes) = some bytes := by
  obtain ⟨digits, pads, heq, hpads, hdigits⟩ := encode_shape bytes
  have hmap : encodeStandard bytes = digits.map standardChar ++ List.replicate pads '=' := by
    rw [encodeStandard, heq, List.map_append, List.map_replicate]
    rfl
  have hstrip : strip (encodeStandard bytes) = digits.map standardChar := by
    rw [hmap]
    refine strip_append_replicate _ (fun c hc => ?_) pads
    obtain ⟨d, hd, rfl⟩ := List.mem_map.mp hc
    obtain ⟨n, hn, rfl⟩ := hdigits d hd
    exact (standardChar_digit hn).2.1
  have hstrict : strict (encodeStandard bytes) = true := by
    rw [strict, hstrip, Bool.and_eq_true, List.all_eq_true, decide_eq_true_eq, hmap,
      List.length_append, List.length_replicate]
    refine ⟨fun c hc => ?_, by omega⟩
    obtain ⟨d, hd, rfl⟩ := List.mem_map.mp hc
    obtain ⟨n, hn, rfl⟩ := hdigits d hd
    exact (standardChar_digit hn).2.2
  rw [decodeStrict, if_pos hstrict, encodeStandard, decodeFrom_standard, decodeFrom_encode]
  intro c hc
  rw [heq] at hc
  rcases List.mem_append.mp hc with hc | hc
  · exact .inr (hdigits c hc)
  · exact .inl (List.eq_of_mem_replicate hc)

end Base64
