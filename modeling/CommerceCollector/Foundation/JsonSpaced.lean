import CommerceCollector.Foundation.Json

/-!
# JSON texts with blanks

`dumpsDefault` is `json.dumps` with its default separators, which have a blank behind every comma
and colon.  Without the blanks outside of its strings such a text is that of `dumps`, so it
determines its value as well.
-/

namespace JsonText

section Default

mutual

/-- `json.dumps(value)`. -/
def dumpsDefault : Value → List Char
  | .null => "null".toList
  | .bool true => "true".toList
  | .bool false => "false".toList
  | .number n => n.text
  | .string s => dumpsString s
  | .array [] => "[]".toList
  | .array (v :: vs) => '[' :: (dumpsDefault v ++ defaultItems vs)
  | .object [] => "{}".toList
  | .object ((k, v) :: es) =>
    '{' :: (dumpsString k ++ ':' :: ' ' :: (dumpsDefault v ++ defaultEntries es))

/-- The items that follow the first one. -/
def defaultItems : List Value → List Char
  | [] => [']']
  | v :: vs => ',' :: ' ' :: (dumpsDefault v ++ defaultItems vs)

/-- The entries that follow the first one. -/
def defaultEntries : List (String × Value) → List Char
  | [] => ['}']
  | (k, v) :: es => ',' :: ' ' :: (dumpsString k ++ ':' :: ' ' :: (dumpsDefault v ++ defaultEntries es))

end

/-- The text without the blanks outside of its strings; the flag says whether it begins in a
string. -/
def unspace : Bool → List Char → List Char
  | _, [] => []
  | false, ' ' :: cs => unspace false cs
  | false, '"' :: cs => '"' :: unspace true cs
  | false, c :: cs => c :: unspace false cs
  | true, '"' :: cs => '"' :: unspace false cs
  | true, '\\' :: c :: cs => '\\' :: c :: unspace true cs
  | true, c :: cs => c :: unspace true cs

-- The equations are derived once, for the proofs below.
attribute [local simp] dumpsDefault defaultItems defaultEntries unspace

end Default

/-- An ordinary character outside of a string. -/
theorem unspace_outside {c : Char} (hblank : c ≠ ' ') (hquote : c ≠ '"') (cs : List Char) :
    unspace false (c :: cs) = c :: unspace false cs := by
  rw [unspace]
  · exact hblank
  · exact hquote

/-- An ordinary character of a string. -/
theorem unspace_inside {c : Char} (hquote : c ≠ '"') (hslash : c ≠ '\\') (cs : List Char) :
    unspace true (c :: cs) = c :: unspace true cs := by
  rw [unspace]
  · exact hquote
  · exact fun _ _ h _ => hslash h

theorem hexDigit_ordinary (n : ℕ) : hexDigit n ≠ '"' ∧ hexDigit n ≠ '\\' := by
  have hall : ∀ k < 16, Nat.digitChar k ≠ '"' ∧ Nat.digitChar k ≠ '\\' := by decide
  exact hall (n % 16) (Nat.mod_lt _ (by decide))

/-- An escaped unit is kept. -/
theorem unspace_escapeUnit (n : ℕ) (cs : List Char) :
    unspace true (escapeUnit n ++ cs) = escapeUnit n ++ unspace true cs := by
  have hdigit : ∀ m ds, unspace true (hexDigit m :: ds) = hexDigit m :: unspace true ds :=
    fun m ds => unspace_inside (hexDigit_ordinary m).1 (hexDigit_ordinary m).2 ds
  simp only [escapeUnit, List.cons_append, List.nil_append]
  rw [unspace]
  simp only [hdigit]

/-- An escaped character is kept. -/
theorem unspace_escape (c : Char) (cs : List Char) :
    unspace true (escape c ++ cs) = escape c ++ unspace true cs := by
  have hescaped := escaped_escape c
  generalize escape c = text at hescaped ⊢
  cases hescaped with
  | short => rfl
  | plain hslash hquote => exact unspace_inside hquote hslash cs
  | unit => exact unspace_escapeUnit _ cs
  | pair => rw [List.append_assoc, unspace_escapeUnit, unspace_escapeUnit, List.append_assoc]

/-- A string is kept. -/
theorem unspace_dumpsChars (cs rest : List Char) :
    unspace true (dumpsChars cs ++ rest) = dumpsChars cs ++ unspace false rest := by
  induction cs with
  | nil => simp [dumpsChars, unspace]
  | cons c cs ih =>
    rw [dumpsChars, List.append_assoc, unspace_escape, ih, List.append_assoc]

theorem unspace_dumpsString (s : String) (rest : List Char) :
    unspace false (dumpsString s ++ rest) = dumpsString s ++ unspace false rest := by
  rw [dumpsString, List.cons_append, unspace, unspace_dumpsChars, List.cons_append]

/-- A number is kept. -/
theorem unspace_number {text : List Char} (htext : ∀ c ∈ text, numberChar c = true)
    (rest : List Char) : unspace false (text ++ rest) = text ++ unspace false rest := by
  induction text with
  | nil => rfl
  | cons c cs ih =>
    have hc := htext c List.mem_cons_self
    have hblank : c ≠ ' ' := by
      rintro rfl
      exact absurd hc (by decide)
    have hquote : c ≠ '"' := by
      rintro rfl
      exact absurd hc (by decide)
    rw [List.cons_append, unspace_outside hblank hquote,
      ih fun d hd => htext d (List.mem_cons_of_mem c hd), List.cons_append]

mutual

/-- **Without its blanks a text is the compact one.** -/
theorem unspace_dumpsDefault : ∀ (v : Value) (rest : List Char),
    unspace false (dumpsDefault v ++ rest) = dumps v ++ unspace false rest
  | .null, rest => rfl
  | .bool true, rest => rfl
  | .bool false, rest => rfl
  | .number n, rest => by rw [dumpsDefault, dumps, unspace_number n.all_ok]
  | .string s, rest => by rw [dumpsDefault, dumps, unspace_dumpsString]
  | .array [], rest => rfl
  | .array (v :: vs), rest => by
    rw [dumpsDefault, dumps, List.cons_append, unspace_outside (by decide) (by decide),
      List.append_assoc, unspace_dumpsDefault v, unspace_defaultItems vs]
    simp
  | .object [], rest => rfl
  | .object ((k, v) :: es), rest => by
    rw [dumpsDefault, dumps, List.cons_append, unspace_outside (by decide) (by decide),
      List.append_assoc, unspace_dumpsString, List.cons_append, List.cons_append,
      unspace_outside (by decide) (by decide), unspace, List.append_assoc, unspace_dumpsDefault v,
      unspace_defaultEntries es]
    simp

/-- Without their blanks the items are those of the compact text. -/
theorem unspace_defaultItems : ∀ (vs : List Value) (rest : List Char),
    unspace false (defaultItems vs ++ rest) = dumpsItems vs ++ unspace false rest
  | [], rest => rfl
  | v :: vs, rest => by
    rw [defaultItems, dumpsItems, List.cons_append, List.cons_append,
      unspace_outside (by decide) (by decide), unspace, List.append_assoc, unspace_dumpsDefault v,
      unspace_defaultItems vs]
    simp

/-- Without their blanks the entries are those of the compact text. -/
theorem unspace_defaultEntries : ∀ (es : List (String × Value)) (rest : List Char),
    unspace false (defaultEntries es ++ rest) = dumpsEntries es ++ unspace false rest
  | [], rest => rfl
  | (k, v) :: es, rest => by
    rw [defaultEntries, dumpsEntries, List.cons_append, List.cons_append,
      unspace_outside (by decide) (by decide), unspace, List.append_assoc, unspace_dumpsString,
      List.cons_append, List.cons_append, unspace_outside (by decide) (by decide), unspace,
      List.append_assoc, unspace_dumpsDefault v, unspace_defaultEntries es]
    simp

end

/-- **A text with blanks determines its value.** -/
theorem dumpsDefault_injective : Function.Injective dumpsDefault := fun v w h => by
  have hcompact := congrArg (fun text => unspace false (text ++ [])) h
  simp only [unspace_dumpsDefault] at hcompact
  exact dumps_injective (List.append_cancel_right hcompact)

end JsonText
