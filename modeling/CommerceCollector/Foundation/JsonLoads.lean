import CommerceCollector.Foundation.Json
import Mathlib.Data.Bool.AllAny
import Mathlib.Data.List.TakeWhile
import Mathlib.Data.String.Basic

/-!
# Reading JSON texts

`loads` is `json.loads` of a text: strict strings, the numbers of JSON with `NaN` and the
infinities, and for the entries of an object the last value of a key.  A string with half a pair of
surrogates has no counterpart among the characters here and is refused.

`loads_dumpsArray`: an array of scalars is read back from the text `json.dumps` makes of it.
-/

namespace JsonText

/-! ## Strings -/

/-- The text without the blanks in front. -/
def skipSpace : List Char → List Char := List.dropWhile fun c => " \t\n\r".toList.contains c

/-- The value of a hexadecimal digit of either case. -/
def hexDigit? (c : Char) : Option ℕ :=
  if c.isDigit then some (c.toNat - 48)
  else if 'a' ≤ c ∧ c ≤ 'f' then some (c.toNat - 87)
  else if 'A' ≤ c ∧ c ≤ 'F' then some (c.toNat - 55)
  else none

/-- Four hexadecimal digits and the rest of the text. -/
def readUnit : List Char → Option (ℕ × List Char)
  | a :: b :: c :: d :: rest => do
    let a ← hexDigit? a
    let b ← hexDigit? b
    let c ← hexDigit? c
    let d ← hexDigit? d
    return (4096 * a + 256 * b + 16 * c + d, rest)
  | _ => none

/-- The second half of a pair of surrogates. -/
def readLow (high : ℕ) : List Char → Option (Char × List Char)
  | '\\' :: 'u' :: rest =>
    match readUnit rest with
    | some (low, rest) =>
      if 56320 ≤ low ∧ low < 57344 then
        some (Char.ofNat (65536 + 1024 * (high - 55296) + (low - 56320)), rest)
      else none
    | none => none
  | _ => none

/-- The character that a letter behind a backslash stands for. -/
def simpleEscape : Char → Option Char
  | '"' => some '"'
  | '\\' => some '\\'
  | '/' => some '/'
  | 'b' => some (Char.ofNat 8)
  | 'f' => some (Char.ofNat 12)
  | 'n' => some '\n'
  | 'r' => some '\r'
  | 't' => some '\t'
  | _ => none

/-- One character of a string and the rest of the text. -/
def readChar : List Char → Option (Char × List Char)
  | '\\' :: 'u' :: rest =>
    match readUnit rest with
    | some (unit, rest) =>
      if 55296 ≤ unit ∧ unit < 56320 then readLow unit rest
      else if 56320 ≤ unit ∧ unit < 57344 then none
      else some (Char.ofNat unit, rest)
    | none => none
  | '\\' :: c :: rest => (simpleEscape c).map fun c => (c, rest)
  | c :: rest => if c = '\\' ∨ c.toNat < 32 then none else some (c, rest)
  | [] => none

/-- The characters of a string after its opening quote. -/
def readChars : ℕ → List Char → Option (List Char × List Char)
  | 0, _ => none
  | _ + 1, '"' :: rest => some ([], rest)
  | n + 1, cs =>
    match readChar cs with
    | some (c, rest) => (readChars n rest).map fun s => (c :: s.1, s.2)
    | none => none

/-! ## Numbers -/

/-- `-?(?:0|[1-9][0-9]*)`, and the rest of the text. -/
def readInteger : List Char → Option (List Char × List Char)
  | '-' :: '0' :: rest => some (['-', '0'], rest)
  | '-' :: rest =>
    if rest.takeWhile Char.isDigit = [] then none
    else some ('-' :: rest.takeWhile Char.isDigit, rest.dropWhile Char.isDigit)
  | '0' :: rest => some (['0'], rest)
  | rest =>
    if rest.takeWhile Char.isDigit = [] then none
    else some (rest.takeWhile Char.isDigit, rest.dropWhile Char.isDigit)

/-- Some characters and the digits behind them, when there are digits. -/
def readDigits (front rest : List Char) : Option (List Char × List Char) :=
  if rest.takeWhile Char.isDigit = [] then none
  else some (front ++ rest.takeWhile Char.isDigit, rest.dropWhile Char.isDigit)

/-- `(\.[0-9]+)?`. -/
def readFraction : List Char → List Char × List Char
  | '.' :: rest => (readDigits ['.'] rest).getD ([], '.' :: rest)
  | rest => ([], rest)

/-- The sign of an exponent. -/
def readSign : List Char → List Char × List Char
  | '+' :: rest => (['+'], rest)
  | '-' :: rest => (['-'], rest)
  | rest => ([], rest)

/-- `([eE][-+]?[0-9]+)?`; the sign of the exponent is written `e`. -/
def readExponent : List Char → List Char × List Char
  | 'e' :: rest => (readDigits ('e' :: (readSign rest).1) (readSign rest).2).getD ([], 'e' :: rest)
  | 'E' :: rest => (readDigits ('e' :: (readSign rest).1) (readSign rest).2).getD ([], 'E' :: rest)
  | rest => ([], rest)

instance (cs : List Char) : Decidable (∀ d ∈ cs, numberChar d = true) := List.decidableBAll _ cs

/-- A text as a number. -/
def Number.ofText? : List Char → Option Number
  | [] => none
  | c :: cs =>
    if h : numberHead c = true ∧ ∀ d ∈ c :: cs, numberChar d = true then
      some ⟨c :: cs, ⟨c, cs, rfl, h.1⟩, h.2⟩
    else none

/-- A number or one of the three constants, and the rest of the text. -/
def readNumber (cs : List Char) : Option (Number × List Char) :=
  if "NaN".toList <+: cs then (Number.ofText? "NaN".toList).map fun n => (n, cs.drop 3)
  else if "Infinity".toList <+: cs then
    (Number.ofText? "Infinity".toList).map fun n => (n, cs.drop 8)
  else if "-Infinity".toList <+: cs then
    (Number.ofText? "-Infinity".toList).map fun n => (n, cs.drop 9)
  else
    match readInteger cs with
    | some (integer, rest) =>
      let fraction := readFraction rest
      let exponent := readExponent fraction.2
      (Number.ofText? (integer ++ fraction.1 ++ exponent.1)).map fun n => (n, exponent.2)
    | none => none

/-! ## Values -/

/-- An entry is added to a dictionary: a key that is there keeps its place. -/
def setEntry (k : String) (v : Value) : List (String × Value) → List (String × Value)
  | [] => [(k, v)]
  | e :: es => if e.1 = k then (k, v) :: es else e :: setEntry k v es

mutual

/-- A value and the rest of the text. -/
def readValue : ℕ → List Char → Option (Value × List Char)
  | 0, _ => none
  | _ + 1, 'n' :: 'u' :: 'l' :: 'l' :: rest => some (.null, rest)
  | _ + 1, 't' :: 'r' :: 'u' :: 'e' :: rest => some (.bool true, rest)
  | _ + 1, 'f' :: 'a' :: 'l' :: 's' :: 'e' :: rest => some (.bool false, rest)
  | n + 1, '"' :: rest => (readChars n rest).map fun s => (.string (String.ofList s.1), s.2)
  | n + 1, '[' :: rest =>
    match skipSpace rest with
    | ']' :: rest => some (.array [], rest)
    | rest => (readItems n rest).map fun vs => (.array vs.1, vs.2)
  | n + 1, '{' :: rest =>
    match skipSpace rest with
    | '}' :: rest => some (.object [], rest)
    | rest => (readEntries n rest []).map fun es => (.object es.1, es.2)
  | _ + 1, cs => (readNumber cs).map fun m => (.number m.1, m.2)

/-- An item of an array and the items behind it. -/
def readItems : ℕ → List Char → Option (List Value × List Char)
  | 0, _ => none
  | n + 1, cs =>
    match readValue n cs with
    | some (v, rest) =>
      match skipSpace rest with
      | ']' :: rest => some ([v], rest)
      | ',' :: rest => (readItems n (skipSpace rest)).map fun vs => (v :: vs.1, vs.2)
      | _ => none
    | none => none

/-- An entry of an object and the entries behind it. -/
def readEntries : ℕ → List Char → List (String × Value) → Option (List (String × Value) × List Char)
  | 0, _, _ => none
  | n + 1, '"' :: cs, found =>
    match readChars n cs with
    | some (k, rest) =>
      match skipSpace rest with
      | ':' :: rest =>
        match readValue n (skipSpace rest) with
        | some (v, rest) =>
          match skipSpace rest with
          | '}' :: rest => some (setEntry (String.ofList k) v found, rest)
          | ',' :: rest => readEntries n (skipSpace rest) (setEntry (String.ofList k) v found)
          | _ => none
        | none => none
      | _ => none
    | none => none
  | _ + 1, _, _ => none

end

/-- `json.loads(text)`. -/
def loads (cs : List Char) : Option Value :=
  match readValue (cs.length + 1) (skipSpace cs) with
  | some (v, rest) => if skipSpace rest = [] then some v else none
  | none => none

/-! ## Reading back what was written -/

/-- `json.dumps(items)` for an array of scalars, with the default separators. -/
def dumpsArray : List Value → List Char
  | [] => "[]".toList
  | v :: vs => '[' :: (dumps v ++ dumpsSpaced vs)
where
  /-- The items that follow the first one. -/
  dumpsSpaced : List Value → List Char
    | [] => [']']
    | v :: vs => ',' :: ' ' :: (dumps v ++ dumpsSpaced vs)

theorem hexDigit?_hexDigit (n : ℕ) : hexDigit? (hexDigit n) = some (n % 16) := by
  have hall : ∀ k < 16, hexDigit? (Nat.digitChar k) = some k := by decide
  exact hall (n % 16) (Nat.mod_lt _ (by decide))

/-- Four hexadecimal digits are read back. -/
theorem readUnit_hexDigit {n : ℕ} (h : n < 65536) (rest : List Char) :
    readUnit (hexDigit (n / 4096) :: hexDigit (n / 256) :: hexDigit (n / 16) :: hexDigit n :: rest) =
      some (n, rest) := by
  have hvalue : 4096 * (n / 4096 % 16) + 256 * (n / 256 % 16) + 16 * (n / 16 % 16) + n % 16 = n := by
    omega
  simp [readUnit, hexDigit?_hexDigit, hvalue]

/-- The second half of a pair of surrogates is read back. -/
theorem readLow_escapeUnit {n : ℕ} (h : n < 1024) (high : ℕ) (rest : List Char) :
    readLow high (escapeUnit (56320 + n) ++ rest) =
      some (Char.ofNat (65536 + 1024 * (high - 55296) + n), rest) := by
  have hread := readUnit_hexDigit (show 56320 + n < 65536 by omega) rest
  simp only [escapeUnit, List.cons_append, List.nil_append, readLow]
  rw [hread]
  simp only [Nat.add_sub_cancel_left]
  rw [if_pos ⟨by omega, by omega⟩]

/-- An escaped character is read back. -/
theorem readChar_escape (c : Char) (rest : List Char) :
    readChar (escape c ++ rest) = some (c, rest) := by
  have hvalid := toNat_cases c
  have hescaped := escaped_escape c
  generalize escape c = text at hescaped ⊢
  cases hescaped with
  | @short letter hmem =>
    have hall : ∀ p ∈ shortEscapes, readChar ('\\' :: p.2 :: rest) = some (p.1, rest) := by
      simp only [shortEscapes, List.forall_mem_cons]
      exact ⟨rfl, rfl, rfl, rfl, rfl, rfl, rfl, List.forall_mem_nil _⟩
    exact hall (c, letter) hmem
  | plain hslash _ hlow =>
    have hplain : ¬(c = '\\' ∨ c.toNat < 32) := not_or.mpr ⟨hslash, Nat.not_lt.mpr hlow⟩
    rw [List.singleton_append, readChar.eq_def]
    split <;> simp_all
  | unit hunit =>
    have hread := readUnit_hexDigit hunit rest
    simp only [escapeUnit, List.cons_append, List.nil_append, readChar]
    rw [hread]
    simp only
    rw [if_neg (by omega), if_neg (by omega), Char.ofNat_toNat]
  | pair hpair =>
    have hread := readUnit_hexDigit
      (show 55296 + (c.toNat - 65536) / 1024 < 65536 by omega)
    have hlow := readLow_escapeUnit (Nat.mod_lt (c.toNat - 65536) (by decide : 0 < 1024))
      (55296 + (c.toNat - 65536) / 1024) rest
    have hnumber : 65536 + 1024 * (55296 + (c.toNat - 65536) / 1024 - 55296) +
        (c.toNat - 65536) % 1024 = c.toNat := by omega
    rw [escapeUnit, List.append_assoc]
    simp only [List.cons_append, List.nil_append, readChar]
    rw [hread]
    simp only
    rw [if_pos ⟨by omega, by omega⟩, hlow, hnumber, Char.ofNat_toNat]

/-- The characters of a string are read back. -/
theorem readChars_dumpsChars (cs rest : List Char) (n : ℕ) (h : cs.length < n) :
    readChars n (dumpsChars cs ++ rest) = some (cs, rest) := by
  induction cs generalizing n with
  | nil =>
    obtain ⟨m, rfl⟩ := Nat.exists_eq_add_of_lt h
    simp [dumpsChars, readChars]
  | cons c cs ih =>
    obtain ⟨m, rfl⟩ := Nat.exists_eq_add_of_lt h
    have hread := readChar_escape c (dumpsChars cs ++ rest)
    have hrest := ih ((c :: cs).length + m) (by simp only [List.length_cons]; omega)
    rw [dumpsChars, List.append_assoc, readChars.eq_def]
    split
    · contradiction
    · rename_i heq
      exact absurd heq (escape_ne_quote c _ _)
    · rename_i n' _ heq
      obtain rfl : n' = (c :: cs).length + m := by omega
      rw [hread]
      simp only
      rw [hrest]
      rfl

/-- A positive number begins with a digit that is not zero. -/
theorem exists_toDigits {n : ℕ} (h : 0 < n) :
    ∃ c cs, Nat.toDigits 10 n = c :: cs ∧ c ≠ '0' := by
  induction n using Nat.strong_induction_on with
  | _ n ih =>
    by_cases hsmall : n < 10
    · rw [Nat.toDigits_of_lt_base hsmall]
      have hall : ∀ k < 10, 0 < k → Nat.digitChar k ≠ '0' := by decide
      exact ⟨_, [], rfl, hall n hsmall h⟩
    · obtain ⟨c, cs, hcs, hc⟩ := ih (n / 10) (by omega) (by omega)
      rw [Nat.toDigits_of_base_le (by decide) (by omega), hcs]
      exact ⟨c, _, rfl, hc⟩

/-- What closes an item of an array. -/
def Closes (rest : List Char) : Prop := ∃ tail, rest = ',' :: tail ∨ rest = ']' :: tail

/-- The digits of a natural number are read up to what closes the item. -/
theorem readInteger_toDigits (n : ℕ) {rest : List Char} (h : Closes rest) :
    readInteger (Nat.toDigits 10 n ++ rest) = some (Nat.toDigits 10 n, rest) := by
  rcases Nat.eq_zero_or_pos n with rfl | hpos
  · rfl
  · have hdigits : ∀ c ∈ Nat.toDigits 10 n, c.isDigit = true := fun c hc =>
      Nat.isDigit_of_mem_toDigits (by decide) (by decide) hc
    have htake : (Nat.toDigits 10 n ++ rest).takeWhile Char.isDigit = Nat.toDigits 10 n := by
      obtain ⟨tail, rfl | rfl⟩ := h <;>
        simp [List.takeWhile_append_of_pos hdigits]
    have hdrop : (Nat.toDigits 10 n ++ rest).dropWhile Char.isDigit = rest := by
      obtain ⟨tail, rfl | rfl⟩ := h <;>
        simp [List.dropWhile_append_of_pos hdigits]
    obtain ⟨c, cs, hcs, hc⟩ := exists_toDigits hpos
    have hdigit : c.isDigit = true := hdigits c (hcs ▸ List.mem_cons_self)
    rw [readInteger.eq_def]
    split
    · rename_i heq
      rw [hcs] at heq
      obtain ⟨rfl, -⟩ := List.cons.inj heq
      exact absurd hdigit (by decide)
    · rename_i heq
      rw [hcs] at heq
      obtain ⟨rfl, -⟩ := List.cons.inj heq
      exact absurd hdigit (by decide)
    · rename_i heq
      rw [hcs] at heq
      exact absurd (List.cons.inj heq).1 hc
    · rw [htake, hdrop, if_neg Nat.toDigits_ne_nil]

theorem Number.ofText?_text (m : Number) : Number.ofText? m.text = some m := by
  obtain ⟨text, ⟨c, cs, rfl, hc⟩, hall⟩ := m
  rw [Number.ofText?, dif_pos ⟨hc, hall⟩]

/-- A natural number is read up to what closes the item. -/
theorem readNumber_toDigits (n : ℕ) {rest : List Char} (h : Closes rest) :
    readNumber (Nat.toDigits 10 n ++ rest) = some (Number.ofNat n, rest) := by
  have hhead : ∀ (c : Char) (cs : List Char), c.isDigit = false →
      ¬(c :: cs <+: Nat.toDigits 10 n ++ rest) := by
    intro c cs hc hprefix
    obtain ⟨d, ds, hds⟩ := List.exists_cons_of_ne_nil (Nat.toDigits_ne_nil (n := n) (b := 10))
    rw [hds, List.cons_append, List.cons_prefix_cons] at hprefix
    have hdigit := Nat.isDigit_of_mem_toDigits (b := 10) (n := n) (by decide) (by decide)
      (hds ▸ List.mem_cons_self : d ∈ Nat.toDigits 10 n)
    rw [← hprefix.1, hc] at hdigit
    contradiction
  have hnone : readFraction rest = ([], rest) ∧ readExponent rest = ([], rest) := by
    obtain ⟨tail, rfl | rfl⟩ := h <;> exact ⟨rfl, rfl⟩
  have htext : Number.ofText? (Nat.toDigits 10 n) = some (Number.ofNat n) :=
    Number.ofText?_text (.ofNat n)
  have hnan : ¬"NaN".toList <+: Nat.toDigits 10 n ++ rest := hhead 'N' ['a', 'N'] (by decide)
  have hinfinity : ¬"Infinity".toList <+: Nat.toDigits 10 n ++ rest := hhead 'I' _ (by decide)
  have hminus : ¬"-Infinity".toList <+: Nat.toDigits 10 n ++ rest := hhead '-' _ (by decide)
  rw [readNumber, if_neg hnan, if_neg hinfinity, if_neg hminus, readInteger_toDigits n h]
  simp only [hnone.1, hnone.2, List.append_nil, htext, Option.map_some]

/-- A natural number or a string. -/
inductive Plain : Value → Prop
  | number (n : ℕ) : Plain (.number (.ofNat n))
  | string (s : String) : Plain (.string s)

/-- A plain value is read up to what closes the item. -/
theorem readValue_dumps {v : Value} (hv : Plain v) {rest : List Char} (h : Closes rest) {n : ℕ}
    (hn : (dumps v).length ≤ n) : readValue n (dumps v ++ rest) = some (v, rest) := by
  cases hv with
  | number m =>
    obtain ⟨d, ds, hds⟩ := List.exists_cons_of_ne_nil (Nat.toDigits_ne_nil (n := m) (b := 10))
    have hdigit := Nat.isDigit_of_mem_toDigits (b := 10) (n := m) (by decide) (by decide)
      (hds ▸ List.mem_cons_self : d ∈ Nat.toDigits 10 m)
    have hread := readNumber_toDigits m h
    change (Nat.toDigits 10 m).length ≤ n at hn
    change readValue n (Nat.toDigits 10 m ++ rest) = _
    rw [hds] at hread hn ⊢
    obtain ⟨k, rfl⟩ : ∃ k, n = k + 1 := ⟨n - 1, by simp only [List.length_cons] at hn; omega⟩
    rw [readValue.eq_def]
    split <;> try (rename_i heq; obtain ⟨rfl, -⟩ := List.cons.inj heq; exact absurd hdigit (by decide))
    · contradiction
    · rw [hread]
      rfl
  | string s =>
    have hlong : s.toList.length < (dumpsChars s.toList).length := by
      generalize s.toList = cs
      induction cs with
      | nil => decide
      | cons c cs ih =>
        obtain ⟨d, ds, hds⟩ : ∃ d ds, escape c = d :: ds := by
          cases hc : escape c with
          | nil =>
            have hread := readChar_escape c []
            simp [hc, readChar] at hread
          | cons d ds => exact ⟨d, ds, rfl⟩
        rw [dumpsChars, hds]
        simp only [List.length_cons, List.length_append]
        omega
    change ('"' :: dumpsChars s.toList).length ≤ n at hn
    obtain ⟨k, rfl⟩ : ∃ k, n = k + 1 := ⟨n - 1, by simp only [List.length_cons] at hn; omega⟩
    change readValue (k + 1) ('"' :: (dumpsChars s.toList ++ rest)) = _
    rw [readValue, readChars_dumpsChars _ _ _ (by simp only [List.length_cons] at hn; omega)]
    simp

/-- A plain value begins with a quote or a digit. -/
theorem Plain.exists_dumps {v : Value} (hv : Plain v) :
    ∃ c cs, dumps v = c :: cs ∧ (c = '"' ∨ c.isDigit = true) := by
  cases hv with
  | number m =>
    obtain ⟨d, ds, hds⟩ := List.exists_cons_of_ne_nil (Nat.toDigits_ne_nil (n := m) (b := 10))
    exact ⟨d, ds, hds, .inr (Nat.isDigit_of_mem_toDigits (b := 10) (n := m) (by decide) (by decide)
      (hds ▸ List.mem_cons_self))⟩
  | string s => exact ⟨'"', dumpsChars s.toList, rfl, .inl rfl⟩

/-- There is no blank in front of a plain value. -/
theorem skipSpace_dumps {v : Value} (hv : Plain v) (rest : List Char) :
    skipSpace (dumps v ++ rest) = dumps v ++ rest := by
  obtain ⟨c, cs, hcs, hc⟩ := hv.exists_dumps
  have hblank : (" \t\n\r".toList.contains c) = false := by
    rw [List.contains_eq_mem, decide_eq_false_iff_not]
    intro hmem
    simp only [String.reduceToList, List.mem_cons, List.not_mem_nil, or_false] at hmem
    rcases hmem with rfl | rfl | rfl | rfl <;> exact absurd hc (by decide)
  rw [hcs, List.cons_append, skipSpace, List.dropWhile_cons_of_neg (by simpa using hblank)]

/-- The items of an array are read up to its closing bracket. -/
theorem readItems_dumpsSpaced (vs : List Value) (hvs : ∀ w ∈ vs, Plain w) {v : Value} (hv : Plain v)
    (rest : List Char) {n : ℕ} (hn : (dumps v ++ dumpsArray.dumpsSpaced vs).length ≤ n) :
    readItems n (dumps v ++ (dumpsArray.dumpsSpaced vs ++ rest)) = some (v :: vs, rest) := by
  induction vs generalizing v n with
  | nil =>
    simp only [dumpsArray.dumpsSpaced, List.length_append, List.length_singleton] at hn
    obtain ⟨k, rfl⟩ : ∃ k, n = k + 1 := ⟨n - 1, by omega⟩
    have hread := readValue_dumps hv ⟨rest, .inr rfl⟩ (show (dumps v).length ≤ k by omega)
    simp only [dumpsArray.dumpsSpaced, List.singleton_append]
    rw [readItems, hread]
    rfl
  | cons w ws ih =>
    simp only [dumpsArray.dumpsSpaced, List.length_append, List.length_cons] at hn
    obtain ⟨k, rfl⟩ : ∃ k, n = k + 1 := ⟨n - 1, by omega⟩
    have hw : Plain w := hvs w List.mem_cons_self
    have hread := readValue_dumps hv
      ⟨' ' :: (dumps w ++ (dumpsArray.dumpsSpaced ws ++ rest)), .inl rfl⟩
      (show (dumps v).length ≤ k by omega)
    have hitems := ih (fun u hu => hvs u (List.mem_cons_of_mem w hu)) hw (n := k)
      (by rw [List.length_append]; omega)
    simp only [dumpsArray.dumpsSpaced, List.cons_append, List.append_assoc]
    rw [readItems, hread]
    simp only
    have hcomma : ∀ cs : List Char, skipSpace (',' :: cs) = ',' :: cs := fun _ => rfl
    have hblank : ∀ cs : List Char, skipSpace (' ' :: cs) = skipSpace cs := fun _ => rfl
    rw [hcomma]
    simp only
    rw [hblank, skipSpace_dumps hw, hitems]
    rfl

/-- **An array of natural numbers and strings is read back from its text.** -/
theorem loads_dumpsArray (vs : List Value) (hvs : ∀ v ∈ vs, Plain v) :
    loads (dumpsArray vs) = some (.array vs) := by
  cases vs with
  | nil => rfl
  | cons v vs =>
    have hv : Plain v := hvs v List.mem_cons_self
    have hitems := readItems_dumpsSpaced vs (fun w hw => hvs w (List.mem_cons_of_mem v hw)) hv []
      (n := (dumpsArray (v :: vs)).length) (by simp only [dumpsArray, List.length_cons]; omega)
    have hopen : ∀ cs : List Char, skipSpace ('[' :: cs) = '[' :: cs := fun _ => rfl
    rw [List.append_nil] at hitems
    obtain ⟨c, cs, hcs, hc⟩ := hv.exists_dumps
    have hfirst := skipSpace_dumps hv (dumpsArray.dumpsSpaced vs)
    have hread : readValue ((dumpsArray (v :: vs)).length + 1) (dumpsArray (v :: vs)) =
        some (.array (v :: vs), []) := by
      conv_lhs => rw [dumpsArray]
      rw [readValue, hfirst]
      split
      · rename_i heq
        rw [hcs] at heq
        obtain ⟨rfl, -⟩ := List.cons.inj heq
        exact absurd hc (by decide)
      · rw [show ('[' :: (dumps v ++ dumpsArray.dumpsSpaced vs)).length =
          (dumpsArray (v :: vs)).length from rfl, hitems]
        rfl
    rw [loads, show skipSpace (dumpsArray (v :: vs)) = dumpsArray (v :: vs) from rfl, hread]
    rfl

/-- The key of an entry is read, and the value behind it. -/
theorem readEntries_key (k : String) {rest : List Char} (hrest : skipSpace rest = rest)
    (found : List (String × Value)) {n : ℕ} (hn : k.toList.length < n) :
    readEntries (n + 1) (dumpsString k ++ ':' :: rest) found =
      match readValue n rest with
      | some (v, rest) =>
        match skipSpace rest with
        | '}' :: rest => some (setEntry k v found, rest)
        | ',' :: rest => readEntries n (skipSpace rest) (setEntry k v found)
        | _ => none
      | none => none := by
  have hcolon : skipSpace (':' :: rest) = ':' :: rest := rfl
  rw [dumpsString, List.cons_append, readEntries, readChars_dumpsChars _ _ _ hn]
  simp only [hcolon, hrest, String.ofList_toList]

/-- An entry with a plain value in front of other entries is read. -/
theorem readEntries_dumps (k : String) {v : Value} (hv : Plain v) (rest : List Char)
    (found : List (String × Value)) {n : ℕ} (hk : k.toList.length < n)
    (hn : (dumps v).length ≤ n) :
    readEntries (n + 1) (dumpsString k ++ ':' :: (dumps v ++ ',' :: rest)) found =
      readEntries n (skipSpace rest) (setEntry k v found) := by
  have hcomma : skipSpace (',' :: rest) = ',' :: rest := rfl
  rw [readEntries_key k (skipSpace_dumps hv _) found hk, readValue_dumps hv ⟨rest, .inl rfl⟩ hn]
  simp only [hcomma]

/-- The last entry, a string, is read. -/
theorem readEntries_last (k s : String) (rest : List Char) (found : List (String × Value)) {n : ℕ}
    (hk : k.toList.length < n + 1) (hn : s.toList.length < n) :
    readEntries (n + 2) (dumpsString k ++ ':' :: (dumpsString s ++ '}' :: rest)) found =
      some (setEntry k (.string s) found, rest) := by
  have hspace : skipSpace (dumpsString s ++ '}' :: rest) = dumpsString s ++ '}' :: rest := rfl
  have hclose : skipSpace ('}' :: rest) = '}' :: rest := rfl
  rw [readEntries_key k hspace found hk, dumpsString, List.cons_append, readValue,
    readChars_dumpsChars _ _ _ hn]
  simp only [Option.map_some, hclose, String.ofList_toList]


theorem escape_ne_nil (c : Char) : escape c ≠ [] := fun h => by
  have hread := readChar_escape c []
  simp [h, readChar] at hread

theorem length_lt_dumpsChars (cs : List Char) : cs.length < (dumpsChars cs).length := by
  induction cs with
  | nil => decide
  | cons c cs ih =>
    have hpos := List.length_pos_of_ne_nil (escape_ne_nil c)
    rw [dumpsChars, List.length_append, List.length_cons]
    omega

/-- An object is read if its entries are. -/
theorem loads_object {text : List Char} {entries : List (String × Value)}
    (h : readEntries (text.length + 2) ('"' :: text) [] = some (entries, [])) :
    loads ('{' :: '"' :: text) = some (.object entries) := by
  have hopen : skipSpace ('{' :: '"' :: text) = '{' :: '"' :: text := rfl
  have hquote : skipSpace ('"' :: text) = '"' :: text := rfl
  have hread : readValue (text.length + 3) ('{' :: '"' :: text) = some (.object entries, []) := by
    rw [readValue, hquote]
    split
    · cases ‹_›
    · rw [h]
      rfl
  rw [loads, hopen, List.length_cons, List.length_cons, hread]
  rfl

/-! ## The texts are in ASCII -/

theorem hexDigit_ascii (n : ℕ) : (hexDigit n).toNat < 128 := by
  have hall : ∀ k < 16, (Nat.digitChar k).toNat < 128 := by decide
  exact hall (n % 16) (Nat.mod_lt _ (by decide))

/-- An escaped unit is in ASCII. -/
theorem escapeUnit_ascii (n : ℕ) : ∀ d ∈ escapeUnit n, d.toNat < 128 := by
  simp only [escapeUnit, List.forall_mem_cons]
  exact ⟨by decide, by decide, hexDigit_ascii _, hexDigit_ascii _, hexDigit_ascii _,
    hexDigit_ascii _, List.forall_mem_nil _⟩

/-- An escaped character is in ASCII. -/
theorem escape_ascii (c : Char) : ∀ d ∈ escape c, d.toNat < 128 := by
  have hescaped := escaped_escape c
  generalize escape c = text at hescaped ⊢
  cases hescaped with
  | @short letter hmem =>
    have hall : ∀ p ∈ shortEscapes, p.2.toNat < 128 := by decide
    exact List.forall_mem_cons.mpr ⟨by decide, List.forall_mem_singleton.mpr (hall _ hmem)⟩
  | plain _ _ _ hhigh => exact List.forall_mem_singleton.mpr (by omega)
  | unit => exact escapeUnit_ascii _
  | pair => exact List.forall_mem_append.mpr ⟨escapeUnit_ascii _, escapeUnit_ascii _⟩

/-- The text of a string is in ASCII. -/
theorem dumpsChars_ascii (cs : List Char) : ∀ d ∈ dumpsChars cs, d.toNat < 128 := by
  induction cs with
  | nil => exact List.all_iff_forall_prop.mp (by decide)
  | cons c cs ih =>
    intro d hd
    rcases List.mem_append.mp hd with hd | hd
    · exact escape_ascii c d hd
    · exact ih d hd

/-- The text of a plain value is in ASCII. -/
theorem Plain.ascii {v : Value} (hv : Plain v) : ∀ d ∈ dumps v, d.toNat < 128 := by
  intro d hd
  cases hv with
  | number n =>
    have hdigit : d.isDigit = true := Nat.isDigit_of_mem_toDigits (by decide) (by decide) hd
    simp only [Char.isDigit, Bool.and_eq_true, decide_eq_true_eq] at hdigit
    have hle : d.toNat ≤ 57 := hdigit.2
    omega
  | string s =>
    rcases List.mem_cons.mp hd with rfl | hd
    · decide
    · exact dumpsChars_ascii _ d hd

/-- The text of an array of plain values is in ASCII. -/
theorem dumpsArray_ascii (vs : List Value) (hvs : ∀ v ∈ vs, Plain v) :
    ∀ d ∈ dumpsArray vs, d.toNat < 128 := by
  have hspaced : ∀ ws : List Value, (∀ w ∈ ws, Plain w) →
      ∀ d ∈ dumpsArray.dumpsSpaced ws, d.toNat < 128 := by
    intro ws
    induction ws with
    | nil => exact fun _ => List.all_iff_forall_prop.mp (by decide)
    | cons w ws ih =>
      intro hws d hd
      simp only [dumpsArray.dumpsSpaced, List.mem_cons, List.mem_append] at hd
      rcases hd with rfl | rfl | hd | hd
      · decide
      · decide
      · exact (hws w List.mem_cons_self).ascii d hd
      · exact ih (fun u hu => hws u (List.mem_cons_of_mem w hu)) d hd
  cases vs with
  | nil => exact List.all_iff_forall_prop.mp (by decide)
  | cons v vs =>
    intro d hd
    simp only [dumpsArray, List.mem_cons, List.mem_append] at hd
    rcases hd with rfl | hd | hd
    · decide
    · exact (hvs v List.mem_cons_self).ascii d hd
    · exact hspaced vs (fun u hu => hvs u (List.mem_cons_of_mem v hu)) d hd

end JsonText
