import Mathlib.Data.Bool.AllAny
import CommerceCollector.Foundation.PercentEncoding
import CommerceCollector.Models.NormalURL

/-!
# Parameters that are encoded

`urlencode` and `parse_qsl` as `urllib.parse` has them: the keys and values of parameters are
escaped, so that no delimiter stands in them, and are read back as they were.
-/

namespace CommerceCollector.Sanitization

open FileCache PercentEncoding

/-- A key and its value. -/
def encodePair (pair : String × String) : List Char :=
  quotePlus pair.1.toList ++ '=' :: quotePlus pair.2.toList

/-- The pairs, with a delimiter between two of them. -/
def encodePairs : List (String × String) → List Char
  | [] => []
  | [pair] => encodePair pair
  | pair :: next :: rest => encodePair pair ++ '&' :: encodePairs (next :: rest)

/-- Python's library on ASCII texts, with the escapes of `urllib.parse`. -/
def urllib : Python :=
  { asciiPython with unquote := PercentEncoding.unquote, urlencode := encodePairs }

/-! ## Round trip -/

theorem quotePlus_ne {text : List Char} {d : Char} (hword : d.isAlphanum = false)
    (hmark : d ∉ "_.-~%+".toList) : ∀ c ∈ quotePlus text, c ≠ d := by
  rintro c hc rfl
  rcases quotePlus_chars hc with h | h
  · rw [hword] at h
    exact Bool.false_ne_true h
  · exact hmark h

theorem pieces_single {c : Char} {text : List Char} (h : ∀ d ∈ text, d ≠ c) :
    pieces c text = [text] := by
  induction text with
  | nil => rfl
  | cons d text ih =>
    have hrest : pieces c text = [text] := ih fun e he => h e (List.mem_cons_of_mem _ he)
    rw [pieces] at hrest
    rw [pieces, List.foldr_cons, hrest, if_neg (h d List.mem_cons_self)]
    rfl

theorem pieces_append {c : Char} {text : List Char} (h : ∀ d ∈ text, d ≠ c) (rest : List Char) :
    pieces c (text ++ c :: rest) = text :: pieces c rest := by
  induction text with
  | nil =>
    rw [List.nil_append, pieces, List.foldr_cons, if_pos rfl]
    rfl
  | cons d text ih =>
    have hrest := ih fun e he => h e (List.mem_cons_of_mem _ he)
    rw [pieces] at hrest
    rw [List.cons_append, pieces, List.foldr_cons, hrest, if_neg (h d List.mem_cons_self)]
    rfl

theorem encodePair_ne (pair : String × String) : ∀ c ∈ encodePair pair, c ≠ '&' := by
  intro c hc
  rcases List.mem_append.mp hc with hc | hc
  · exact quotePlus_ne (by decide) (by decide) c hc
  · rcases List.mem_cons.mp hc with rfl | hc
    · decide
    · exact quotePlus_ne (by decide) (by decide) c hc

theorem pieces_encodePairs : ∀ pairs : List (String × String), pairs ≠ [] →
    pieces '&' (encodePairs pairs) = pairs.map encodePair
  | [], h => absurd rfl h
  | [pair], _ => pieces_single (encodePair_ne pair)
  | pair :: next :: rest, _ => by
    rw [encodePairs, pieces_append (encodePair_ne pair), pieces_encodePairs (next :: rest) (by simp)]
    rfl

/-- What is read from a piece. -/
def readPair (nameValue : List Char) : Option (String × String) :=
  if nameValue = [] then none
  else some (String.ofList (PercentEncoding.unquote (plusToSpace (nameValue.takeWhile (· != '=')))),
    String.ofList (PercentEncoding.unquote (plusToSpace (SplitResult.afterFirst '=' nameValue))))

theorem parseQsl_urllib (query : List Char) :
    parseQsl urllib query = (pieces '&' query).filterMap readPair := rfl

theorem readPair_encodePair (pair : String × String) : readPair (encodePair pair) = some pair := by
  have hkey : ∀ c ∈ quotePlus pair.1.toList, c ≠ '=' := quotePlus_ne (by decide) (by decide)
  have htake : (encodePair pair).takeWhile (· != '=') = quotePlus pair.1.toList :=
    takeWhile_ne hkey (.inr rfl)
  have hafter : SplitResult.afterFirst '=' (encodePair pair) = quotePlus pair.2.toList := by
    rw [SplitResult.afterFirst, encodePair, List.dropWhile_append_of_pos (by simpa using hkey),
      List.dropWhile_cons_of_neg (by simp)]
    rfl
  have hne : encodePair pair ≠ [] := by simp [encodePair]
  rw [readPair, if_neg hne, htake, hafter, unquote_quotePlus, unquote_quotePlus,
    String.ofList_toList, String.ofList_toList]

theorem parseQsl_encodePairs (pairs : List (String × String)) :
    parseQsl urllib (encodePairs pairs) = pairs := by
  cases pairs with
  | nil => rfl
  | cons pair rest =>
    have hread : ∀ p ∈ pair :: rest, (readPair ∘ encodePair) p = some p := fun p _ =>
      readPair_encodePair p
    rw [parseQsl_urllib, pieces_encodePairs _ (List.cons_ne_nil _ _), List.filterMap_map,
      List.filterMap_congr hread, List.filterMap_some]

theorem encodePairs_chars : ∀ pairs : List (String × String), ∀ c ∈ encodePairs pairs,
    c.isAlphanum = true ∨ c ∈ "_.-~%+=&".toList := by
  have hmarks : ∀ d ∈ "_.-~%+".toList, d ∈ "_.-~%+=&".toList :=
    List.all_iff_forall_prop.mp (by decide)
  have hpair : ∀ (pair : String × String), ∀ c ∈ encodePair pair,
      c.isAlphanum = true ∨ c ∈ "_.-~%+=&".toList := by
    have hquote : ∀ text : List Char, ∀ c ∈ quotePlus text,
        c.isAlphanum = true ∨ c ∈ "_.-~%+=&".toList := fun text c hc =>
      (quotePlus_chars hc).imp_right fun hmark => hmarks c hmark
    have hequals : '=' ∈ "_.-~%+=&".toList := by decide
    intro pair c hc
    rcases List.mem_append.mp hc with hc | hc
    · exact hquote _ c hc
    · rcases List.mem_cons.mp hc with rfl | hc
      · exact .inr hequals
      · exact hquote _ c hc
  have hand : '&' ∈ "_.-~%+=&".toList := by decide
  intro pairs
  induction pairs with
  | nil => exact fun c hc => absurd hc List.not_mem_nil
  | cons pair rest ih =>
    cases rest with
    | nil => exact hpair pair
    | cons next rest =>
      intro c hc
      rw [encodePairs] at hc
      rcases List.mem_append.mp hc with hc | hc
      · exact hpair pair c hc
      · rcases List.mem_cons.mp hc with rfl | hc
        · exact .inr hand
        · exact ih c hc

/-- **What is assumed of `urllib.parse` holds of its escapes.** -/
theorem regular_urllib : Regular urllib where
  parse_urlencode := parseQsl_encodePairs
  urlencode_chars := encodePairs_chars

end CommerceCollector.Sanitization
