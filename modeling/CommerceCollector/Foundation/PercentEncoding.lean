import Mathlib.Data.Bool.AllAny
import Mathlib.Tactic.Common

/-!
# Percent encoding

A text as its bytes in UTF-8, with an escape for every byte that is no letter, no digit and no mark
of those that stand for themselves, and with a plus for a space.  An escaped text is read back as it
was.
-/

namespace PercentEncoding

/-! ## Writing -/

/-- A character that stands for itself. -/
def isUnreserved (c : Char) : Bool := c.isAlphanum || "_.-~".toList.contains c

/-- A hexadecimal digit. -/
def hexDigit (n : ℕ) : Char := Char.ofNat (if n < 10 then 48 + n else 55 + n)

/-- A byte of an escaped text. -/
def quoteByte (b : UInt8) : List Char :=
  if b = 32 then ['+']
  else if isUnreserved (Char.ofNat b.toNat) = true then [Char.ofNat b.toNat]
  else ['%', hexDigit (b.toNat / 16), hexDigit (b.toNat % 16)]

/-- The bytes of a text. -/
def utf8 (text : List Char) : List UInt8 := text.flatMap String.utf8EncodeChar

/-- `quote_plus`. -/
def quotePlus (text : List Char) : List Char := (utf8 text).flatMap quoteByte

/-! ## Reading -/

/-- The value of a hexadecimal digit. -/
def hexValue (c : Char) : Option ℕ :=
  if '0' ≤ c ∧ c ≤ '9' then some (c.toNat - 48)
  else if 'A' ≤ c ∧ c ≤ 'F' then some (c.toNat - 55)
  else if 'a' ≤ c ∧ c ≤ 'f' then some (c.toNat - 87)
  else none

/-- The bytes of an escaped text; a sign that begins no escape stands for itself. -/
def unquoteBytes : List Char → List UInt8
  | '%' :: high :: low :: rest =>
    match hexValue high, hexValue low with
    | some h, some l => UInt8.ofNat (16 * h + l) :: unquoteBytes rest
    | _, _ => String.utf8EncodeChar '%' ++ unquoteBytes (high :: low :: rest)
  | c :: rest => String.utf8EncodeChar c ++ unquoteBytes rest
  | [] => []

/-- `unquote`; a text whose bytes are no UTF-8 is kept. -/
def unquote (text : List Char) : List Char :=
  match (unquoteBytes text).toByteArray.utf8Decode? with
  | some chars => chars.toList
  | none => text

/-- A plus stands for a space. -/
def plusToSpace (text : List Char) : List Char := text.map fun c => if c = '+' then ' ' else c

/-! ## Round trip -/

theorem unquoteBytes_cons {c : Char} (h : c ≠ '%') (rest : List Char) :
    unquoteBytes (c :: rest) = String.utf8EncodeChar c ++ unquoteBytes rest := by
  rw [unquoteBytes]
  rintro high low tail rfl
  exact absurd rfl h

theorem unquoteBytes_escape {high low : Char} {h l : ℕ} (hhigh : hexValue high = some h)
    (hlow : hexValue low = some l) (rest : List Char) :
    unquoteBytes ('%' :: high :: low :: rest) = UInt8.ofNat (16 * h + l) :: unquoteBytes rest := by
  rw [unquoteBytes, hhigh, hlow]

theorem byte_all {p : UInt8 → Prop} (h : ∀ n < 256, p (UInt8.ofNat n)) (b : UInt8) : p b := by
  have hb := h b.toNat b.toNat_lt
  rwa [UInt8.ofNat_toNat] at hb

/-- An escaped byte is read back. -/
theorem unquoteBytes_quoteByte (b : UInt8) (rest : List Char) :
    unquoteBytes (plusToSpace (quoteByte b) ++ rest) = b :: unquoteBytes rest := by
  rw [quoteByte]
  split
  · rename_i hspace
    rw [hspace]
    exact unquoteBytes_cons (by decide) rest
  · split
    · rename_i hplain
      have hall : ∀ b : UInt8, isUnreserved (Char.ofNat b.toNat) = true →
          Char.ofNat b.toNat ≠ '+' ∧ Char.ofNat b.toNat ≠ '%' ∧
            String.utf8EncodeChar (Char.ofNat b.toNat) = [b] := byte_all (by decide +kernel)
      obtain ⟨hplus, hpercent, hbytes⟩ := hall b hplain
      rw [plusToSpace, List.map_singleton, if_neg hplus, List.singleton_append,
        unquoteBytes_cons hpercent, hbytes, List.singleton_append]
    · have hall : ∀ b : UInt8, plusToSpace ['%', hexDigit (b.toNat / 16), hexDigit (b.toNat % 16)] =
          ['%', hexDigit (b.toNat / 16), hexDigit (b.toNat % 16)] ∧
          hexValue (hexDigit (b.toNat / 16)) = some (b.toNat / 16) ∧
          hexValue (hexDigit (b.toNat % 16)) = some (b.toNat % 16) ∧
          UInt8.ofNat (16 * (b.toNat / 16) + b.toNat % 16) = b := byte_all (by decide +kernel)
      obtain ⟨hplain, hhigh, hlow, hvalue⟩ := hall b
      rw [hplain, List.cons_append, List.cons_append, List.cons_append, List.nil_append,
        unquoteBytes_escape hhigh hlow, hvalue]

theorem unquoteBytes_quote (bytes : List UInt8) :
    unquoteBytes (plusToSpace (bytes.flatMap quoteByte)) = bytes := by
  induction bytes with
  | nil => rfl
  | cons b bytes ih =>
    have hmap : plusToSpace ((b :: bytes).flatMap quoteByte) =
        plusToSpace (quoteByte b) ++ plusToSpace (bytes.flatMap quoteByte) := by
      rw [List.flatMap_cons, plusToSpace, List.map_append]
      rfl
    rw [hmap, unquoteBytes_quoteByte, ih]

/-- **An escaped text is read back as it was.** -/
theorem unquote_quotePlus (text : List Char) : unquote (plusToSpace (quotePlus text)) = text := by
  have hbytes : unquoteBytes (plusToSpace (quotePlus text)) = utf8 text := unquoteBytes_quote _
  have hdecode : (utf8 text).toByteArray.utf8Decode? = some text.toArray :=
    List.utf8Decode?_utf8Encode
  rw [unquote, hbytes, hdecode]

/-- The characters of an escaped text. -/
theorem quotePlus_chars {text : List Char} {c : Char} (h : c ∈ quotePlus text) :
    c.isAlphanum = true ∨ c ∈ "_.-~%+".toList := by
  obtain ⟨b, -, hc⟩ := List.mem_flatMap.mp h
  have hall : ∀ b : UInt8,
      ((quoteByte b).all fun c => c.isAlphanum = true ∨ c ∈ "_.-~%+".toList) = true :=
    byte_all (by decide +kernel)
  exact List.all_iff_forall_prop.mp (hall b) c hc

end PercentEncoding
