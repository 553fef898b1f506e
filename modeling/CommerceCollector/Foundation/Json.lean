import Mathlib.Data.List.Sort
import Mathlib.Data.String.Basic

/-!
# JSON texts

`dumps` is `json.dumps` with `separators=(",", ":")` and `ensure_ascii`.  A text determines its
value: the strings are escaped by a prefix code, a number ends where a delimiter begins, and every
other value says itself where it ends.  `dumpsSorted` is `json.dumps` with `sort_keys`; its text
determines the value up to the order of the entries of its objects.
-/

namespace JsonText

/-! ## Values and texts -/

/-- The characters of a number, `NaN` and `Infinity` included. -/
def numberChar (c : Char) : Bool := c.isDigit || "+-.eNaInfity".toList.contains c

/-- The characters with which a number begins. -/
def numberHead (c : Char) : Bool := c.isDigit || "-NI".toList.contains c

/-- The text of a number. -/
structure Number where
  text : List Char
  head_ok : ∃ c cs, text = c :: cs ∧ numberHead c = true
  all_ok : ∀ c ∈ text, numberChar c = true

/-- A JSON value; an object is the list of its entries. -/
inductive Value
  | null
  | bool (b : Bool)
  | number (n : Number)
  | string (s : String)
  | array (items : List Value)
  | object (entries : List (String × Value))

/-- A hexadecimal digit. -/
def hexDigit (n : ℕ) : Char := Nat.digitChar (n % 16)

/-- `'\\u{0:04x}'`. -/
def escapeUnit (n : ℕ) : List Char :=
  ['\\', 'u', hexDigit (n / 4096), hexDigit (n / 256), hexDigit (n / 16), hexDigit n]

/-- The escaped form of a character; one beyond the basic plane is a pair of surrogates. -/
def escape (c : Char) : List Char :=
  if c = '\\' then ['\\', '\\']
  else if c = '"' then ['\\', '"']
  else if c = '\n' then ['\\', 'n']
  else if c = '\r' then ['\\', 'r']
  else if c = '\t' then ['\\', 't']
  else if c.toNat = 12 then ['\\', 'f']
  else if c.toNat = 8 then ['\\', 'b']
  else if 32 ≤ c.toNat ∧ c.toNat ≤ 126 then [c]
  else if c.toNat < 65536 then escapeUnit c.toNat
  else escapeUnit (55296 + (c.toNat - 65536) / 1024) ++ escapeUnit (56320 + (c.toNat - 65536) % 1024)

/-- The text of a string after its opening quote. -/
def dumpsChars : List Char → List Char
  | [] => ['"']
  | c :: cs => escape c ++ dumpsChars cs

/-- The text of a string. -/
def dumpsString (s : String) : List Char := '"' :: dumpsChars s.toList

mutual

/-- `json.dumps(value, separators=(",", ":"))`. -/
def dumps : Value → List Char
  | .null => "null".toList
  | .bool true => "true".toList
  | .bool false => "false".toList
  | .number n => n.text
  | .string s => dumpsString s
  | .array [] => "[]".toList
  | .array (v :: vs) => '[' :: (dumps v ++ dumpsItems vs)
  | .object [] => "{}".toList
  | .object ((k, v) :: es) => '{' :: (dumpsString k ++ ':' :: (dumps v ++ dumpsEntries es))

/-- The items that follow the first one. -/
def dumpsItems : List Value → List Char
  | [] => [']']
  | v :: vs => ',' :: (dumps v ++ dumpsItems vs)

/-- The entries that follow the first one. -/
def dumpsEntries : List (String × Value) → List Char
  | [] => ['}']
  | (k, v) :: es => ',' :: (dumpsString k ++ ':' :: (dumps v ++ dumpsEntries es))

end

/-! ## Characters -/

/-- The value of a hexadecimal digit. -/
def hexValue (c : Char) : ℕ := if c.isDigit then c.toNat - 48 else c.toNat - 87

/-- The value of four hexadecimal digits. -/
def unitValue (a b c d : Char) : ℕ :=
  4096 * hexValue a + 256 * hexValue b + 16 * hexValue c + hexValue d

/-- The unit that is escaped at the beginning of a text, and the rest of the text. -/
def unescapeUnit : List Char → Option (ℕ × List Char)
  | '\\' :: 'u' :: a :: b :: c :: d :: rest => some (unitValue a b c d, rest)
  | _ => none

/-- The character that is escaped at the beginning of a text, and the rest of the text. -/
def unescape : List Char → Option (Char × List Char)
  | '\\' :: 'u' :: a :: b :: c :: d :: rest =>
    if 55296 ≤ unitValue a b c d ∧ unitValue a b c d < 56320 then
      (unescapeUnit rest).map fun low =>
        (Char.ofNat (65536 + 1024 * (unitValue a b c d - 55296) + (low.1 - 56320)), low.2)
    else some (Char.ofNat (unitValue a b c d), rest)
  | '\\' :: '\\' :: rest => some ('\\', rest)
  | '\\' :: '"' :: rest => some ('"', rest)
  | '\\' :: 'n' :: rest => some ('\n', rest)
  | '\\' :: 'r' :: rest => some ('\r', rest)
  | '\\' :: 't' :: rest => some ('\t', rest)
  | '\\' :: 'f' :: rest => some (Char.ofNat 12, rest)
  | '\\' :: 'b' :: rest => some (Char.ofNat 8, rest)
  | c :: rest => some (c, rest)
  | [] => none

theorem hexValue_hexDigit (n : ℕ) : hexValue (hexDigit n) = n % 16 := by
  have hall : ∀ k < 16, hexValue (Nat.digitChar k) = k := by decide
  exact hall (n % 16) (Nat.mod_lt _ (by decide))

theorem unitValue_escapeUnit {n : ℕ} (h : n < 65536) :
    unitValue (hexDigit (n / 4096)) (hexDigit (n / 256)) (hexDigit (n / 16)) (hexDigit n) = n := by
  simp only [unitValue, hexValue_hexDigit]
  omega

theorem toNat_cases (c : Char) : c.toNat < 55296 ∨ 57343 < c.toNat ∧ c.toNat < 1114112 := c.valid

/-- The characters with a letter of their own. -/
def shortEscapes : List (Char × Char) :=
  [('\\', '\\'), ('"', '"'), ('\n', 'n'), ('\r', 'r'), ('\t', 't'), (Char.ofNat 12, 'f'),
    (Char.ofNat 8, 'b')]

/-- The forms of an escaped character. -/
inductive Escaped (c : Char) : List Char → Prop
  | short {letter : Char} (mem : (c, letter) ∈ shortEscapes) : Escaped c ['\\', letter]
  | plain (slash : c ≠ '\\') (quote : c ≠ '"') (low : 32 ≤ c.toNat) (high : c.toNat ≤ 126) : Escaped c [c]
  | unit (lt : c.toNat < 65536) : Escaped c (escapeUnit c.toNat)
  | pair (le : 65536 ≤ c.toNat) : Escaped c (escapeUnit (55296 + (c.toNat - 65536) / 1024) ++
      escapeUnit (56320 + (c.toNat - 65536) % 1024))

/-- How a character is escaped. -/
theorem escaped_escape (c : Char) : Escaped c (escape c) := by
  have hnumber : ∀ {n : ℕ}, c.toNat = n → c = Char.ofNat n := fun h => h ▸ (Char.ofNat_toNat c).symm
  rw [escape]
  by_cases hslash : c = '\\'
  · rw [if_pos hslash]
    exact .short (by rw [hslash]; decide)
  rw [if_neg hslash]
  by_cases hquote : c = '"'
  · rw [if_pos hquote]
    exact .short (by rw [hquote]; decide)
  rw [if_neg hquote]
  by_cases hline : c = '\n'
  · rw [if_pos hline]
    exact .short (by rw [hline]; decide)
  rw [if_neg hline]
  by_cases hreturn : c = '\r'
  · rw [if_pos hreturn]
    exact .short (by rw [hreturn]; decide)
  rw [if_neg hreturn]
  by_cases htab : c = '\t'
  · rw [if_pos htab]
    exact .short (by rw [htab]; decide)
  rw [if_neg htab]
  by_cases hfeed : c.toNat = 12
  · rw [if_pos hfeed]
    exact .short (by rw [hnumber hfeed]; decide)
  rw [if_neg hfeed]
  by_cases hback : c.toNat = 8
  · rw [if_pos hback]
    exact .short (by rw [hnumber hback]; decide)
  rw [if_neg hback]
  by_cases hprintable : 32 ≤ c.toNat ∧ c.toNat ≤ 126
  · rw [if_pos hprintable]
    exact .plain hslash hquote hprintable.1 hprintable.2
  rw [if_neg hprintable]
  by_cases hunit : c.toNat < 65536
  · rw [if_pos hunit]
    exact .unit hunit
  · rw [if_neg hunit]
    exact .pair (Nat.le_of_not_lt hunit)

/-- **The escaped form of a character says where it ends.** -/
theorem unescape_escape (c : Char) (rest : List Char) :
    unescape (escape c ++ rest) = some (c, rest) := by
  have hvalid := toNat_cases c
  have hescaped := escaped_escape c
  generalize escape c = text at hescaped ⊢
  cases hescaped with
  | @short letter hmem =>
    have hall : ∀ p ∈ shortEscapes, unescape ('\\' :: p.2 :: rest) = some (p.1, rest) := by
      simp only [shortEscapes, List.forall_mem_cons]
      exact ⟨rfl, rfl, rfl, rfl, rfl, rfl, rfl, nofun⟩
    exact hall (c, letter) hmem
  | plain hslash =>
    rw [List.singleton_append, unescape.eq_def]
    split <;> simp_all
  | unit hunit =>
    have hvalue := unitValue_escapeUnit hunit
    have hplain : ¬(55296 ≤ c.toNat ∧ c.toNat < 56320) := by omega
    simp only [escapeUnit, List.cons_append, List.nil_append]
    rw [unescape, if_neg (by rwa [hvalue]), hvalue, Char.ofNat_toNat]
  | pair hpair =>
    have hhigh := unitValue_escapeUnit
      (show 55296 + (c.toNat - 65536) / 1024 < 65536 by omega)
    have hlow := unitValue_escapeUnit
      (show 56320 + (c.toNat - 65536) % 1024 < 65536 by omega)
    have hsurrogate : 55296 ≤ 55296 + (c.toNat - 65536) / 1024 ∧
        55296 + (c.toNat - 65536) / 1024 < 56320 := by omega
    have hnumber : 65536 + 1024 * (55296 + (c.toNat - 65536) / 1024 - 55296) +
        (56320 + (c.toNat - 65536) % 1024 - 56320) = c.toNat := by omega
    simp only [escapeUnit, List.cons_append, List.nil_append]
    rw [unescape, if_pos (by rwa [hhigh]), unescapeUnit, Option.map_some, hhigh, hlow, hnumber,
      Char.ofNat_toNat]

/-- Two escaped characters at the beginning of one text are the same. -/
theorem escape_append_inj {c d : Char} {r r' : List Char} (h : escape c ++ r = escape d ++ r') :
    c = d ∧ r = r' := by
  have hboth := congrArg unescape h
  rw [unescape_escape, unescape_escape] at hboth
  exact Prod.mk.inj (Option.some.inj hboth)

/-- The escaped form of a character does not begin with a quote. -/
theorem escape_ne_quote (c : Char) (r r' : List Char) : escape c ++ r ≠ '"' :: r' := by
  intro h
  have hboth := congrArg unescape h
  rw [unescape_escape] at hboth
  obtain ⟨rfl, -⟩ := Prod.mk.inj (Option.some.inj hboth)
  exact absurd (List.cons.inj h).1 (by decide)

/-! ## Strings -/

/-- The text of a string says where it ends. -/
theorem dumpsChars_append_inj {cs ds r r' : List Char} (h : dumpsChars cs ++ r = dumpsChars ds ++ r') :
    cs = ds ∧ r = r' := by
  induction cs generalizing ds with
  | nil =>
    cases ds with
    | nil => exact ⟨rfl, (List.cons.inj h).2⟩
    | cons d ds =>
      rw [dumpsChars, dumpsChars, List.append_assoc] at h
      exact absurd h.symm (escape_ne_quote d _ _)
  | cons c cs ih =>
    cases ds with
    | nil =>
      rw [dumpsChars, dumpsChars, List.append_assoc] at h
      exact absurd h (escape_ne_quote c _ _)
    | cons d ds =>
      rw [dumpsChars, dumpsChars, List.append_assoc, List.append_assoc] at h
      obtain ⟨rfl, hrest⟩ := escape_append_inj h
      obtain ⟨rfl, rfl⟩ := ih hrest
      exact ⟨rfl, rfl⟩

theorem dumpsString_append_inj {s t : String} {r r' : List Char}
    (h : dumpsString s ++ r = dumpsString t ++ r') : s = t ∧ r = r' := by
  obtain ⟨hlist, hrest⟩ := dumpsChars_append_inj (List.cons.inj h).2
  exact ⟨String.toList_inj.mp hlist, hrest⟩

/-! ## Values -/

/-- The kinds of texts. -/
inductive Kind
  | null | yes | no | number | string | array | object | other
  deriving DecidableEq

/-- The kind that the first character of a text says. -/
def kindOf (c : Char) : Kind :=
  if c = 'n' then .null
  else if c = 't' then .yes
  else if c = 'f' then .no
  else if c = '"' then .string
  else if c = '[' then .array
  else if c = '\x7b' then .object
  else if numberHead c = true then .number
  else .other

/-- The kind of a value. -/
def Value.kind : Value → Kind
  | .null => .null
  | .bool true => .yes
  | .bool false => .no
  | .number _ => .number
  | .string _ => .string
  | .array _ => .array
  | .object _ => .object

/-- A number begins as no other value does. -/
theorem kindOf_of_numberHead {c : Char} (h : numberHead c = true) : kindOf c = .number := by
  have hne : ∀ d, numberHead d = false → c ≠ d := by
    rintro d hd rfl
    exact Bool.false_ne_true (hd.symm.trans h)
  rw [kindOf, if_neg (hne _ (by decide)), if_neg (hne _ (by decide)), if_neg (hne _ (by decide)),
    if_neg (hne _ (by decide)), if_neg (hne _ (by decide)), if_neg (hne _ (by decide)), if_pos h]

/-- The first character of a text says the kind of the value. -/
theorem exists_dumps (v : Value) : ∃ c cs, dumps v = c :: cs ∧ kindOf c = v.kind := by
  cases v with
  | null => exact ⟨'n', _, rfl, rfl⟩
  | bool b =>
    cases b with
    | true => exact ⟨'t', _, rfl, rfl⟩
    | false => exact ⟨'f', _, rfl, rfl⟩
  | number n =>
    obtain ⟨c, cs, htext, hhead⟩ := n.head_ok
    exact ⟨c, cs, htext, kindOf_of_numberHead hhead⟩
  | string s => exact ⟨'"', _, rfl, rfl⟩
  | array items =>
    cases items with
    | nil => exact ⟨'[', _, rfl, rfl⟩
    | cons v vs => exact ⟨'[', _, by rw [dumps], rfl⟩
  | object entries =>
    cases entries with
    | nil => exact ⟨'\x7b', _, rfl, rfl⟩
    | cons e es => exact ⟨'\x7b', _, by rw [dumps], rfl⟩

/-- Two values at the beginning of one text are of the same kind. -/
theorem kind_eq {v w : Value} {r r' : List Char} (h : dumps v ++ r = dumps w ++ r') :
    v.kind = w.kind := by
  obtain ⟨c, cs, hv, hc⟩ := exists_dumps v
  obtain ⟨d, ds, hw, hd⟩ := exists_dumps w
  rw [hv, hw] at h
  rw [← hc, ← hd, (List.cons.inj h).1]

/-- No value begins with a bracket that closes. -/
theorem dumps_ne_close (v : Value) (r r' : List Char) : dumps v ++ r ≠ ']' :: r' := by
  intro h
  obtain ⟨c, cs, hv, hc⟩ := exists_dumps v
  rw [hv] at h
  obtain rfl := (List.cons.inj h).1
  have hother : v.kind = .other := hc.symm
  cases v with
  | bool b => cases b <;> cases hother
  | _ => cases hother

/-- No number goes on here. -/
def Delimited (r : List Char) : Prop := ∀ c ∈ r.head?, numberChar c = false

/-- A number ends where no number goes on. -/
theorem number_append_inj {n m : Number} {r r' : List Char} (h : n.text ++ r = m.text ++ r')
    (hr : Delimited r) (hr' : Delimited r') : n = m ∧ r = r' := by
  have hspan : ∀ (k : Number) (rest : List Char), Delimited rest →
      (k.text ++ rest).takeWhile numberChar = k.text := by
    intro k rest hrest
    rw [List.takeWhile_append_of_pos k.all_ok]
    cases rest with
    | nil => simp
    | cons c cs =>
      have hc : numberChar c = false := hrest c rfl
      simp [hc]
  have htext : n.text = m.text := by
    have htake := congrArg (List.takeWhile numberChar) h
    rwa [hspan n r hr, hspan m r' hr'] at htake
  refine ⟨?_, List.append_cancel_left (htext ▸ h)⟩
  cases n
  cases m
  simp_all

theorem delimited_dumpsItems (vs : List Value) (r : List Char) : Delimited (dumpsItems vs ++ r) := by
  cases vs <;> rw [dumpsItems] <;> rintro _ ⟨⟩ <;> rfl

theorem delimited_dumpsEntries (es : List (String × Value)) (r : List Char) :
    Delimited (dumpsEntries es ++ r) := by
  cases es <;> rw [dumpsEntries] <;> rintro _ ⟨⟩ <;> rfl

mutual

/-- **The text of a value says where it ends.** -/
theorem dumps_append_inj : ∀ (v w : Value) (r r' : List Char), dumps v ++ r = dumps w ++ r' →
    Delimited r → Delimited r' → v = w ∧ r = r'
  | .null, w, r, r', h, _, _ => by
    have hkind := kind_eq h
    cases w with
    | null => exact ⟨rfl, List.append_cancel_left h⟩
    | bool b => cases b <;> cases hkind
    | _ => cases hkind
  | .bool b, w, r, r', h, _, _ => by
    have hkind := kind_eq h
    cases w with
    | bool b' =>
      cases b <;> cases b'
      · exact ⟨rfl, List.append_cancel_left h⟩
      · cases hkind
      · cases hkind
      · exact ⟨rfl, List.append_cancel_left h⟩
    | _ => cases b <;> cases hkind
  | .number n, w, r, r', h, hr, hr' => by
    have hkind := kind_eq h
    cases w with
    | number m =>
      obtain ⟨rfl, hrest⟩ := number_append_inj h hr hr'
      exact ⟨rfl, hrest⟩
    | bool b => cases b <;> cases hkind
    | _ => cases hkind
  | .string s, w, r, r', h, _, _ => by
    have hkind := kind_eq h
    cases w with
    | string t =>
      obtain ⟨rfl, hrest⟩ := dumpsString_append_inj h
      exact ⟨rfl, hrest⟩
    | bool b => cases b <;> cases hkind
    | _ => cases hkind
  | .array items, w, r, r', h, _, _ => by
    have hkind := kind_eq h
    cases w with
    | array items' =>
      obtain ⟨rfl, hrest⟩ := array_append_inj items items' r r' h
      exact ⟨rfl, hrest⟩
    | bool b => cases b <;> cases hkind
    | _ => cases hkind
  | .object entries, w, r, r', h, _, _ => by
    have hkind := kind_eq h
    cases w with
    | object entries' =>
      obtain ⟨rfl, hrest⟩ := object_append_inj entries entries' r r' h
      exact ⟨rfl, hrest⟩
    | bool b => cases b <;> cases hkind
    | _ => cases hkind

/-- The text of an array says where it ends. -/
theorem array_append_inj : ∀ (vs ws : List Value) (r r' : List Char),
    dumps (.array vs) ++ r = dumps (.array ws) ++ r' → vs = ws ∧ r = r'
  | [], [], r, r', h => ⟨rfl, List.append_cancel_left h⟩
  | [], w :: ws, r, r', h => by
    rw [dumps, dumps, List.cons_append, List.append_assoc] at h
    exact absurd (List.cons.inj h).2.symm (dumps_ne_close w _ _)
  | v :: vs, [], r, r', h => by
    rw [dumps, dumps, List.cons_append, List.append_assoc] at h
    exact absurd (List.cons.inj h).2 (dumps_ne_close v _ _)
  | v :: vs, w :: ws, r, r', h => by
    rw [dumps, dumps, List.cons_append, List.cons_append, List.append_assoc, List.append_assoc] at h
    obtain ⟨rfl, hitems⟩ := dumps_append_inj v w _ _ (List.cons.inj h).2
      (delimited_dumpsItems vs r) (delimited_dumpsItems ws r')
    obtain ⟨rfl, hrest⟩ := items_append_inj vs ws r r' hitems
    exact ⟨rfl, hrest⟩

/-- The items of an array say where they end. -/
theorem items_append_inj : ∀ (vs ws : List Value) (r r' : List Char),
    dumpsItems vs ++ r = dumpsItems ws ++ r' → vs = ws ∧ r = r'
  | [], [], r, r', h => ⟨rfl, List.append_cancel_left h⟩
  | [], w :: ws, r, r', h => by
    rw [dumpsItems, dumpsItems] at h
    exact absurd (List.cons.inj h).1 (by decide)
  | v :: vs, [], r, r', h => by
    rw [dumpsItems, dumpsItems] at h
    exact absurd (List.cons.inj h).1 (by decide)
  | v :: vs, w :: ws, r, r', h => by
    rw [dumpsItems, dumpsItems, List.cons_append, List.cons_append, List.append_assoc,
      List.append_assoc] at h
    obtain ⟨rfl, hitems⟩ := dumps_append_inj v w _ _ (List.cons.inj h).2
      (delimited_dumpsItems vs r) (delimited_dumpsItems ws r')
    obtain ⟨rfl, hrest⟩ := items_append_inj vs ws r r' hitems
    exact ⟨rfl, hrest⟩

/-- The text of an object says where it ends. -/
theorem object_append_inj : ∀ (es fs : List (String × Value)) (r r' : List Char),
    dumps (.object es) ++ r = dumps (.object fs) ++ r' → es = fs ∧ r = r'
  | [], [], r, r', h => ⟨rfl, List.append_cancel_left h⟩
  | [], (l, w) :: fs, r, r', h => by
    rw [dumps, dumps] at h
    exact absurd (List.cons.inj (List.cons.inj h).2).1 (by decide)
  | (k, v) :: es, [], r, r', h => by
    rw [dumps, dumps] at h
    exact absurd (List.cons.inj (List.cons.inj h).2).1 (by decide)
  | (k, v) :: es, (l, w) :: fs, r, r', h => by
    rw [dumps, dumps, List.cons_append, List.cons_append, List.append_assoc, List.append_assoc,
      List.cons_append, List.cons_append, List.append_assoc, List.append_assoc] at h
    obtain ⟨rfl, hvalue⟩ := dumpsString_append_inj (List.cons.inj h).2
    obtain ⟨rfl, hentries⟩ := dumps_append_inj v w _ _ (List.cons.inj hvalue).2
      (delimited_dumpsEntries es r) (delimited_dumpsEntries fs r')
    obtain ⟨rfl, hrest⟩ := entries_append_inj es fs r r' hentries
    exact ⟨rfl, hrest⟩

/-- The entries of an object say where they end. -/
theorem entries_append_inj : ∀ (es fs : List (String × Value)) (r r' : List Char),
    dumpsEntries es ++ r = dumpsEntries fs ++ r' → es = fs ∧ r = r'
  | [], [], r, r', h => ⟨rfl, List.append_cancel_left h⟩
  | [], (l, w) :: fs, r, r', h => by
    rw [dumpsEntries, dumpsEntries] at h
    exact absurd (List.cons.inj h).1 (by decide)
  | (k, v) :: es, [], r, r', h => by
    rw [dumpsEntries, dumpsEntries] at h
    exact absurd (List.cons.inj h).1 (by decide)
  | (k, v) :: es, (l, w) :: fs, r, r', h => by
    rw [dumpsEntries, dumpsEntries, List.cons_append, List.cons_append, List.append_assoc,
      List.append_assoc, List.cons_append, List.cons_append, List.append_assoc,
      List.append_assoc] at h
    obtain ⟨rfl, hvalue⟩ := dumpsString_append_inj (List.cons.inj h).2
    obtain ⟨rfl, hentries⟩ := dumps_append_inj v w _ _ (List.cons.inj hvalue).2
      (delimited_dumpsEntries es r) (delimited_dumpsEntries fs r')
    obtain ⟨rfl, hrest⟩ := entries_append_inj es fs r r' hentries
    exact ⟨rfl, hrest⟩

end

/-- **A text determines its value.** -/
theorem dumps_injective : Function.Injective dumps := fun v w h =>
  (dumps_append_inj v w [] [] (by rw [h]) nofun nofun).1

/-! ## Natural numbers -/

/-- The number of a natural number. -/
def Number.ofNat (n : ℕ) : Number where
  text := Nat.toDigits 10 n
  head_ok := by
    cases h : Nat.toDigits 10 n with
    | nil => exact absurd h Nat.toDigits_ne_nil
    | cons c cs =>
      have hc : c ∈ Nat.toDigits 10 n := h ▸ List.mem_cons_self ..
      refine ⟨c, cs, rfl, ?_⟩
      rw [numberHead, Nat.isDigit_of_mem_toDigits (by decide) (by decide) hc, Bool.true_or]
  all_ok c hc := by
    rw [numberChar, Nat.isDigit_of_mem_toDigits (by decide) (by decide) hc, Bool.true_or]

theorem toDigits_injective : Function.Injective (Nat.toDigits 10) := fun n m h => by
  have hvalue := congrArg (Nat.ofDigitChars 10 · 0) h
  simpa only [Nat.ofDigitChars_ten_toDigits] using hvalue

theorem ofNat_injective : Function.Injective Number.ofNat := fun _ _ h =>
  toDigits_injective (congrArg Number.text h)

/-! ## Sorted keys -/

mutual

/-- The value with the entries of its objects sorted by their keys. -/
def sortKeys : Value → Value
  | .null => .null
  | .bool b => .bool b
  | .number n => .number n
  | .string s => .string s
  | .array items => .array (sortItems items)
  | .object entries => .object ((sortEntries entries).insertionSort fun e f => e.1 ≤ f.1)

/-- The items with sorted keys. -/
def sortItems : List Value → List Value
  | [] => []
  | v :: vs => sortKeys v :: sortItems vs

/-- The entries, their values with sorted keys. -/
def sortEntries : List (String × Value) → List (String × Value)
  | [] => []
  | (k, v) :: es => (k, sortKeys v) :: sortEntries es

end

/-- `json.dumps(value, sort_keys=True, separators=(",", ":"))`. -/
def dumpsSorted (v : Value) : List Char := dumps (sortKeys v)

/-- The sorted items. -/
theorem sortItems_eq (vs : List Value) : sortItems vs = vs.map sortKeys := by
  induction vs with
  | nil => rw [sortItems, List.map_nil]
  | cons v vs ih => rw [sortItems, ih, List.map_cons]

/-- The entries, their values with sorted keys. -/
theorem sortEntries_eq (es : List (String × Value)) :
    sortEntries es = es.map fun e => (e.1, sortKeys e.2) := by
  induction es with
  | nil => rw [sortEntries, List.map_nil]
  | cons e es ih =>
    obtain ⟨k, v⟩ := e
    rw [sortEntries, ih, List.map_cons]

theorem dumpsSorted_inj {v w : Value} : dumpsSorted v = dumpsSorted w ↔ sortKeys v = sortKeys w :=
  dumps_injective.eq_iff

/-- A text with sorted keys determines the entries of an object up to their order. -/
theorem perm_of_sortKeys {es fs : List (String × Value)}
    (h : sortKeys (.object es) = sortKeys (.object fs)) :
    (es.map fun e => (e.1, sortKeys e.2)).Perm (fs.map fun e => (e.1, sortKeys e.2)) := by
  rw [sortKeys, sortKeys, sortEntries_eq, sortEntries_eq] at h
  have hright := List.perm_insertionSort (fun e f : String × Value => e.1 ≤ f.1)
    (fs.map fun e => (e.1, sortKeys e.2))
  rw [← Value.object.inj h] at hright
  exact (List.perm_insertionSort _ _).symm.trans hright

/-- An entry of a list without two entries of a key is found under its key. -/
theorem lookup_of_mem {α : Type*} {es : List (String × α)} (hnodup : (es.map Prod.fst).Nodup)
    {k : String} {v : α} : es.lookup k = some v ↔ (k, v) ∈ es := by
  induction es with
  | nil => simp
  | cons e es ih =>
    obtain ⟨l, w⟩ := e
    rw [List.map_cons, List.nodup_cons] at hnodup
    rw [List.lookup_cons, List.mem_cons, Prod.mk.injEq]
    by_cases hkl : k = l
    · subst hkl
      have hout : ∀ u, (k, u) ∉ es := fun u hu => hnodup.1 (List.mem_map.mpr ⟨(k, u), hu, rfl⟩)
      simp [hout, eq_comm]
    · have hfalse : (k == l) = false := beq_eq_false_iff_ne.mpr hkl
      simp [hfalse, hkl, ih hnodup.2]

/-- Lists that differ in their order only have the same entries under every key. -/
theorem lookup_eq_of_perm {α : Type*} {es fs : List (String × α)} (h : es.Perm fs)
    (hnodup : (es.map Prod.fst).Nodup) (k : String) : es.lookup k = fs.lookup k := by
  have hnodup' : (fs.map Prod.fst).Nodup := (h.map Prod.fst).nodup_iff.mp hnodup
  refine Option.ext fun v => ?_
  rw [lookup_of_mem hnodup, lookup_of_mem hnodup', h.mem_iff]

/-- **A text with sorted keys determines the value under every key of an object.** -/
theorem lookup_of_sortKeys {es fs : List (String × Value)}
    (h : sortKeys (.object es) = sortKeys (.object fs)) (hnodup : (es.map Prod.fst).Nodup)
    (k : String) : (es.lookup k).map sortKeys = (fs.lookup k).map sortKeys := by
  have hmap : ∀ gs : List (String × Value),
      (gs.map fun e => (e.1, sortKeys e.2)).lookup k = (gs.lookup k).map sortKeys := by
    intro gs
    induction gs with
    | nil => rfl
    | cons g gs ih =>
      rw [List.map_cons, List.lookup_cons, List.lookup_cons, ih]
      cases k == g.1 <;> rfl
  rw [← hmap, ← hmap]
  refine lookup_eq_of_perm (perm_of_sortKeys h) ?_ k
  rwa [List.map_map]

end JsonText
