import CommerceCollector.Foundation.Characters
import Mathlib.Data.Bool.AllAny
import Mathlib.Data.List.Infix
import Mathlib.Data.List.TakeWhile

/-!
# Sitemaps as texts

What `discovery/sitemap.py` reads off a document: the contents of its `loc` elements, by a regular
expression, and whether it is an index.  A document is written with markup around its locations, and
a location with its URL escaped or as a CDATA section; the expression takes what is written for the
URL. So the locations are read right if and only if each is written with the characters of its URL
alone.
-/

namespace CommerceCollector.Connectors

variable (isalnum : Char → Bool)

/-! ## The expression -/

/-- The text starts with the lower-case pattern, in whatever case. -/
def opens : (pattern text : List Char) → Bool
  | [], _ => true
  | _ :: _, [] => false
  | p :: pattern, c :: text => c.toLower == p && opens pattern text

/-- `<loc\b`. -/
def opensLoc (text : List Char) : Bool :=
  opens "<loc".toList text && !(text.drop 4).head?.any (isWord isalnum)

/-- `(.*?)` up to the first `</loc>`, and what is behind it. -/
def untilClose : List Char → Option (List Char × List Char)
  | [] => none
  | c :: text =>
    if opens "</loc>".toList (c :: text) = true then some ([], (c :: text).drop 6)
    else (untilClose text).map fun found => (c :: found.1, found.2)

/-- A text without the spaces around it. -/
def strip (text : List Char) : List Char :=
  ((text.dropWhile isSpace).reverse.dropWhile isSpace).reverse

/-- A match of `<loc\b[^>]*>\s*(.*?)\s*</loc>` at the start of the text: its group, stripped, and
what is behind it. -/
def matchLoc (text : List Char) : Option (List Char × List Char) :=
  if opensLoc isalnum text = true then
    match (text.drop 4).dropWhile (· ≠ '>') with
    | [] => none
    | _ :: body => (untilClose body).map fun found => (strip found.1, found.2)
  else none

/-- `LOC.findall`; the fuel is the length of the text. -/
def findLocs : ℕ → List Char → List (List Char)
  | 0, _ => []
  | _ + 1, [] => []
  | fuel + 1, c :: text =>
    match matchLoc isalnum (c :: text) with
    | some found => found.1 :: findLocs fuel found.2
    | none => findLocs fuel text

/-- The locations of a document, as they are written. -/
def locationTexts (text : List Char) : List (List Char) := findLocs isalnum text.length text

/-- `"<sitemapindex" in document.lower()`. -/
def mentionsIndex (text : List Char) : Bool := text.tails.any (opens "<sitemapindex".toList)

/-! ## Documents -/

/-- A reference of XML. -/
inductive Reference
  | amp
  | lt
  | gt
  | apos
  | quot
  | decimal (n : ℕ)
  | hexadecimal (n : ℕ)
deriving DecidableEq, Repr

namespace Reference

/-- The name of the reference. -/
def name : Reference → List Char
  | amp => "amp".toList
  | lt => "lt".toList
  | gt => "gt".toList
  | apos => "apos".toList
  | quot => "quot".toList
  | decimal n => '#' :: Nat.toDigits 10 n
  | hexadecimal n => '#' :: 'x' :: Nat.toDigits 16 n

/-- The character that is meant. -/
def char : Reference → Char
  | amp => '&'
  | lt => '<'
  | gt => '>'
  | apos => Char.ofNat 39
  | quot => '"'
  | decimal n => Char.ofNat n
  | hexadecimal n => Char.ofNat n

end Reference

/-- A character of a URL, as it is written. -/
inductive Piece
  | literal (c : Char)
  | reference (r : Reference)
deriving DecidableEq, Repr

namespace Piece

def text : Piece → List Char
  | literal c => [c]
  | reference r => '&' :: (r.name ++ [';'])

def char : Piece → Char
  | literal c => c
  | reference r => r.char

/-- A character that may stand for itself: no space, `<` or `&`. -/
def Proper : Piece → Prop
  | literal c => isSpace c = false ∧ c ≠ '<' ∧ c ≠ '&'
  | reference _ => True

def IsLiteral : Piece → Prop
  | literal _ => True
  | reference _ => False

instance : (piece : Piece) → Decidable piece.Proper
  | literal c => inferInstanceAs (Decidable (isSpace c = false ∧ c ≠ '<' ∧ c ≠ '&'))
  | reference _ => isTrue trivial

instance : (piece : Piece) → Decidable piece.IsLiteral
  | literal _ => isTrue trivial
  | reference _ => isFalse id

end Piece

/-- A URL, as it is written. -/
inductive Writing
  | escaped (pieces : List Piece)
  | cdata (url : List Char)
deriving DecidableEq, Repr

namespace Writing

def text : Writing → List Char
  | escaped pieces => pieces.flatMap Piece.text
  | cdata url => "<![CDATA[".toList ++ url ++ "]]>".toList

/-- The URL that is meant. -/
def url : Writing → List Char
  | escaped pieces => pieces.map Piece.char
  | cdata url => url

/-- The URL is not empty, and has no spaces and no `<` that are written as such. -/
def Proper : Writing → Prop
  | escaped pieces => pieces ≠ [] ∧ ∀ piece ∈ pieces, piece.Proper
  | cdata url => url ≠ [] ∧ ∀ c ∈ url, isSpace c = false ∧ c ≠ '<'

/-- Every character is written as itself. -/
def IsLiteral : Writing → Prop
  | escaped pieces => ∀ piece ∈ pieces, piece.IsLiteral
  | cdata _ => False

instance : (w : Writing) → Decidable w.Proper
  | escaped pieces => inferInstanceAs (Decidable (pieces ≠ [] ∧ ∀ piece ∈ pieces, piece.Proper))
  | cdata url => inferInstanceAs (Decidable (url ≠ [] ∧ ∀ c ∈ url, isSpace c = false ∧ c ≠ '<'))

instance : (w : Writing) → Decidable w.IsLiteral
  | escaped pieces => inferInstanceAs (Decidable (∀ piece ∈ pieces, piece.IsLiteral))
  | cdata _ => isFalse id

end Writing

/-- The white space of XML. -/
def xmlSpace (c : Char) : Bool := c == ' ' || c == '\t' || c == '\n' || c == '\r'

/-- A `loc` element: what is in its start tag, and its URL with spaces around it. -/
structure Location where
  attributes : List Char
  before : List Char
  writing : Writing
  behind : List Char
  attributes_start : attributes.head?.all xmlSpace = true
  attributes_end : '>' ∉ attributes
  spaces : ∀ c ∈ before ++ behind, isSpace c = true
  proper : writing.Proper

/-- The element. -/
def Location.text (location : Location) : List Char :=
  "<loc".toList ++ location.attributes ++ '>' ::
    (location.before ++ location.writing.text ++ location.behind ++ "</loc>".toList)

/-- A sitemap or an index of sitemaps: its locations with the markup before each, and the markup
behind them. -/
structure Document where
  index : Bool
  entries : List (List Char × Location)
  rest : List Char

namespace Document

/-- The document as it is written. -/
def text (d : Document) : List Char :=
  d.entries.flatMap (fun entry => entry.1 ++ entry.2.text) ++ d.rest

/-- The URLs that the document lists. -/
def urls (d : Document) : List (List Char) := d.entries.map fun entry => entry.2.writing.url

/-- Every URL is written with its own characters. -/
def IsLiteral (d : Document) : Prop := ∀ entry ∈ d.entries, entry.2.writing.IsLiteral

instance (d : Document) : Decidable d.IsLiteral :=
  inferInstanceAs (Decidable (∀ entry ∈ d.entries, entry.2.writing.IsLiteral))

/-- No tag for a location is in the text. -/
def NoLoc (markup : List Char) : Prop := ∀ text, text <:+ markup → opensLoc isalnum text = false

instance (markup : List Char) : Decidable (NoLoc isalnum markup) :=
  decidable_of_iff (∀ text ∈ markup.tails, opensLoc isalnum text = false) 
    (by simp only [NoLoc, List.mem_tails])

/-- The markup, comments included, has no tag for a location, and the tag for an index is there if
the document is one. -/
structure Bare (d : Document) : Prop where
  markup : ∀ entry ∈ d.entries, NoLoc isalnum entry.1
  rest : NoLoc isalnum d.rest
  index : mentionsIndex d.text = d.index

end Document

/-! ## What is read -/

variable {isalnum}

theorem strip_eq {before text behind : List Char} (hbefore : ∀ c ∈ before, isSpace c = true)
    (hbehind : ∀ c ∈ behind, isSpace c = true) (htext : ∀ c ∈ text, isSpace c = false)
    (hsome : text ≠ []) : strip (before ++ text ++ behind) = text := by
  have hdrop : ∀ (xs ys : List Char), (∀ c ∈ xs, isSpace c = false) → xs ≠ [] →
      (xs ++ ys).dropWhile isSpace = xs ++ ys := by
    intro xs ys hxs hne
    obtain ⟨c, xs, rfl⟩ := List.exists_cons_of_ne_nil hne
    rw [List.cons_append, List.dropWhile_cons_of_neg (by simp [hxs c List.mem_cons_self])]
  rw [strip, List.append_assoc, List.dropWhile_append_of_pos hbefore, hdrop text behind htext hsome,
    List.reverse_append,
    List.dropWhile_append_of_pos fun c hc => hbehind c (List.mem_reverse.mp hc)]
  have hback := hdrop text.reverse [] (fun c hc => htext c (List.mem_reverse.mp hc))
    (by simpa using hsome)
  rw [List.append_nil] at hback
  rw [hback, List.reverse_reverse]

/-- What begins with `<` opens with nothing else. -/
theorem opens_ne {pattern text : List Char} {c : Char} (hc : c ≠ '<') :
    opens ('<' :: pattern) (c :: text) = false := by
  have hlower : c.toLower ≠ '<' := fun h => hc (eq_of_toLower_eq (by decide) h)
  simp [opens, hlower]

/-- Where there is no `<` nothing closes. -/
theorem untilClose_append {front text : List Char} {found : List Char × List Char}
    (hfront : ∀ c ∈ front, c ≠ '<') (h : untilClose text = some found) :
    untilClose (front ++ text) = some (front ++ found.1, found.2) := by
  induction front with
  | nil => exact h
  | cons c front ih =>
    have hopens : opens "</loc>".toList (c :: (front ++ text)) = false :=
      opens_ne (hfront c List.mem_cons_self)
    rw [List.cons_append, untilClose, hopens, if_neg (by decide),
      ih fun d hd => hfront d (List.mem_cons_of_mem c hd)]
    rfl

theorem untilClose_cdata {text : List Char} {found : List Char × List Char}
    (h : untilClose ('!' :: text) = some found) :
    untilClose ('<' :: '!' :: text) = some ('<' :: found.1, found.2) := by
  have hopens : opens "</loc>".toList ('<' :: '!' :: text) = false := rfl
  rw [untilClose, hopens, if_neg (by decide), h]
  rfl

namespace Writing

theorem exists_digitChar {b n : ℕ} (hb : 1 < b) :
    ∀ c ∈ Nat.toDigits b n, ∃ d < b, c = Nat.digitChar d := by
  induction n using Nat.base_induction b hb with
  | single m hm =>
    intro c hc
    rw [Nat.toDigits_of_lt_base hm, List.mem_singleton] at hc
    exact ⟨m, hm, hc⟩
  | digit m k hk hm ih =>
    intro c hc
    rw [← Nat.toDigits_append_toDigits hb hm hk, List.mem_append] at hc
    rcases hc with hc | hc
    · exact ih c hc
    · rw [Nat.toDigits_of_lt_base hk, List.mem_singleton] at hc
      exact ⟨k, hk, hc⟩

/-- The name of a reference is written without spaces and without `<`. -/
theorem name_chars (r : Reference) : ∀ c ∈ r.name, isSpace c = false ∧ c ≠ '<' := by
  have hdigit : ∀ {b n : ℕ} {c : Char}, b ≤ 16 → 1 < b → c ∈ Nat.toDigits b n →
      isSpace c = false ∧ c ≠ '<' := by
    intro b n c hle hb hc
    have hall : ∀ d < 16, isSpace (Nat.digitChar d) = false ∧ Nat.digitChar d ≠ '<' := by decide
    obtain ⟨d, hd, rfl⟩ := exists_digitChar hb c hc
    exact hall d (by omega)
  intro c hc
  cases r with
  | decimal n =>
    rcases List.mem_cons.mp hc with rfl | hc
    · decide
    · exact hdigit (by decide) (by decide) hc
  | hexadecimal n =>
    simp only [Reference.name, List.mem_cons] at hc
    rcases hc with rfl | rfl | hc
    · decide
    · decide
    · exact hdigit (by decide) (by decide) hc
  | _ =>
    revert c
    exact List.all_iff_forall_prop.mp (by decide)

/-- What is written for a character has no spaces and no `<`. -/
theorem piece_chars {piece : Piece} (h : piece.Proper) :
    ∀ c ∈ piece.text, isSpace c = false ∧ c ≠ '<' := by
  intro c hc
  cases piece with
  | literal d =>
    rw [List.mem_singleton.mp hc]
    exact ⟨h.1, h.2.1⟩
  | reference r =>
    simp only [Piece.text, List.mem_cons, List.mem_append, List.not_mem_nil, or_false] at hc
    rcases hc with rfl | hc | rfl
    · decide
    · exact name_chars r c hc
    · decide

theorem text_chars {w : Writing} (h : w.Proper) :
    (∀ c ∈ w.text, isSpace c = false) ∧ w.text ≠ [] := by
  cases w with
  | escaped pieces =>
    obtain ⟨hsome, hpieces⟩ := h
    obtain ⟨piece, pieces, rfl⟩ := List.exists_cons_of_ne_nil hsome
    refine ⟨fun c hc => ?_, ?_⟩
    · obtain ⟨piece, hpiece, hc⟩ := List.mem_flatMap.mp hc
      exact (piece_chars (hpieces piece hpiece) c hc).1
    · have hpiece : piece.text ≠ [] := by cases piece <;> exact List.cons_ne_nil _ _
      exact List.append_ne_nil_of_left_ne_nil hpiece _
  | cdata url =>
    refine ⟨fun c hc => ?_, List.append_ne_nil_of_right_ne_nil _ (List.cons_ne_nil _ _)⟩
    have hmarks : ∀ c ∈ "<![CDATA[".toList ++ "]]>".toList, isSpace c = false :=
      List.all_iff_forall_prop.mp (by decide)
    rcases List.mem_append.mp hc with hc | hc
    · rcases List.mem_append.mp hc with hc | hc
      · exact hmarks c (List.mem_append_left _ hc)
      · exact (h.2 c hc).1
    · exact hmarks c (List.mem_append_right _ hc)

theorem untilClose_text {w : Writing} (h : w.Proper) {text : List Char}
    {found : List Char × List Char} (hfound : untilClose text = some found) :
    untilClose (w.text ++ text) = some (w.text ++ found.1, found.2) := by
  cases w with
  | escaped pieces =>
    refine untilClose_append (fun c hc => ?_) hfound
    obtain ⟨piece, hpiece, hc⟩ := List.mem_flatMap.mp hc
    exact (piece_chars (h.2 piece hpiece) c hc).2
  | cdata url =>
    have hinside : ∀ c ∈ "![CDATA[".toList ++ url ++ "]]>".toList, c ≠ '<' := by
      have hmarks : ∀ c ∈ "![CDATA[".toList ++ "]]>".toList, c ≠ '<' :=
        List.all_iff_forall_prop.mp (by decide)
      intro c hc
      rcases List.mem_append.mp hc with hc | hc
      · rcases List.mem_append.mp hc with hc | hc
        · exact hmarks c (List.mem_append_left _ hc)
        · exact (h.2 c hc).2
      · exact hmarks c (List.mem_append_right _ hc)
    exact untilClose_cdata (untilClose_append hinside hfound)

theorem text_eq_url_iff {w : Writing} (h : w.Proper) : w.text = w.url ↔ w.IsLiteral := by
  cases w with
  | escaped pieces =>
    have hlength : ∀ pieces : List Piece, pieces.length ≤ (pieces.flatMap Piece.text).length ∧
        (pieces.flatMap Piece.text = pieces.map Piece.char ↔ ∀ piece ∈ pieces, piece.IsLiteral) := by
      intro pieces
      induction pieces with
      | nil => simp
      | cons piece pieces ih =>
        obtain ⟨hle, hiff⟩ := ih
        cases piece with
        | literal c =>
          refine ⟨by simpa [Piece.text] using hle, ?_⟩
          rw [List.flatMap_cons, List.map_cons, Piece.text, List.singleton_append, Piece.char,
            List.cons_inj_right, hiff, List.forall_mem_cons, Piece.IsLiteral, true_and]
        | reference r =>
          have hmore : pieces.length + 1 < ((Piece.reference r :: pieces).flatMap Piece.text).length := by
            simp only [List.flatMap_cons, Piece.text, List.length_append, List.length_cons,
              List.length_nil]
            omega
          refine ⟨by simpa using hmore.le, iff_of_false ?_ ?_⟩
          · intro heq
            have hsame := congrArg List.length heq
            rw [List.length_map, List.length_cons] at hsame
            omega
          · exact fun hall => hall _ List.mem_cons_self
    exact (hlength pieces).2
  | cdata url =>
    refine iff_of_false (fun heq => ?_) fun hliteral => hliteral
    have hlength : ("<![CDATA[".toList ++ url ++ "]]>".toList).length = url.length :=
      congrArg List.length heq
    rw [List.length_append, List.length_append] at hlength
    have hstart : "<![CDATA[".toList.length = 9 := rfl
    omega

end Writing

namespace Location

variable (location : Location)

theorem opensLoc_text (text : List Char) : opensLoc isalnum (location.text ++ text) = true := by
  have hspace : ∀ c, xmlSpace c = true → isWord isalnum c = false := by
    intro c hc
    simp only [xmlSpace, Bool.or_eq_true, beq_iff_eq] at hc
    rcases hc with ((rfl | rfl) | rfl) | rfl <;> rfl
  have hopens : ∀ rest, opens "<loc".toList ("<loc".toList ++ rest) = true := fun _ => rfl
  have hdrop : ∀ rest, ("<loc".toList ++ rest).drop 4 = rest := fun _ => rfl
  have hstart := location.attributes_start
  rw [opensLoc, Location.text, List.append_assoc, List.append_assoc, hopens, hdrop, Bool.true_and]
  cases hattributes : location.attributes with
  | nil => rfl
  | cons c attributes =>
    rw [hattributes] at hstart
    simp [hspace c hstart]

/-- A location at the start of a text is matched, and what is written for its URL is the group. -/
theorem matchLoc_text (text : List Char) :
    matchLoc isalnum (location.text ++ text) = some (location.writing.text, text) := by
  have hbody : (location.text ++ text).drop 4 = location.attributes ++ '>' ::
      (location.before ++ (location.writing.text ++ (location.behind ++ ("</loc>".toList ++ text)))) := by
    have hdrop : ∀ rest, ("<loc".toList ++ rest).drop 4 = rest := fun _ => rfl
    simp only [Location.text, List.append_assoc, List.cons_append, hdrop]
  have htag : (location.attributes ++ '>' ::
      (location.before ++ (location.writing.text ++ (location.behind ++ ("</loc>".toList ++ text))))
        ).dropWhile (· ≠ '>') = '>' ::
      (location.before ++ (location.writing.text ++ (location.behind ++ ("</loc>".toList ++ text)))) := by
    rw [List.dropWhile_append_of_pos]
    · exact List.dropWhile_cons_of_neg (by simp)
    · intro c hc
      have hne : c ≠ '>' := fun h => location.attributes_end (h ▸ hc)
      simpa using hne
  have hspace : ∀ c ∈ location.before ++ location.behind, c ≠ '<' := by
    rintro c hc rfl
    exact absurd (location.spaces _ hc) (by decide)
  have hclose : untilClose ("</loc>".toList ++ text) = some ([], text) := rfl
  have hfound := untilClose_append (fun c hc => hspace c (List.mem_append_left _ hc))
    (Writing.untilClose_text location.proper
      (untilClose_append (fun c hc => hspace c (List.mem_append_right _ hc)) hclose))
  obtain ⟨hchars, hsome⟩ := Writing.text_chars location.proper
  rw [matchLoc, if_pos (location.opensLoc_text text), hbody, htag]
  simp only [hfound, Option.map_some, List.append_nil]
  rw [← List.append_assoc, strip_eq (fun c hc => location.spaces c (List.mem_append_left _ hc))
    (fun c hc => location.spaces c (List.mem_append_right _ hc)) hchars hsome]

theorem text_start : ∃ rest, location.text = '<' :: rest :=
  ⟨_, rfl⟩

end Location

/-- A tag does not begin before the end of the markup in front of another. -/
theorem opensLoc_markup {c : Char} {markup text : List Char}
    (h : opensLoc isalnum (c :: markup) = false)
    (htext : text = [] ∨ ∃ rest, text = '<' :: rest) :
    opensLoc isalnum (c :: markup ++ text) = false := by
  rcases htext with rfl | ⟨rest, rfl⟩
  · rwa [List.append_nil]
  -- The markup is too short for the tag, or the next character decides as it does without the text.
  have hloc : "<loc".toList = ['<', 'l', 'o', 'c'] := rfl
  rw [opensLoc, hloc] at h ⊢
  match markup, h with
  | [], _ => simp [opens]
  | [c₁], _ => simp [opens]
  | [c₁, c₂], _ => simp [opens]
  | [c₁, c₂, c₃], h =>
    have hopens : opens ['<', 'l', 'o', 'c'] [c, c₁, c₂, c₃] = false := by simpa using h
    have hsame : opens ['<', 'l', 'o', 'c'] ([c, c₁, c₂, c₃] ++ '<' :: rest) = false := hopens
    rw [hsame, Bool.false_and]
  | c₁ :: c₂ :: c₃ :: c₄ :: markup, h => exact h

theorem findLocs_markup {markup text : List Char} (h : Document.NoLoc isalnum markup)
    (htext : text = [] ∨ ∃ rest, text = '<' :: rest) (fuel : ℕ) :
    findLocs isalnum (markup.length + fuel) (markup ++ text) = findLocs isalnum fuel text := by
  induction markup with
  | nil => rw [List.length_nil, Nat.zero_add, List.nil_append]
  | cons c markup ih =>
    have hnone : matchLoc isalnum (c :: markup ++ text) = none := by
      rw [matchLoc, opensLoc_markup (h _ List.suffix_rfl) htext, if_neg (by decide)]
    have hrest : Document.NoLoc isalnum markup := fun t ht => h t (ht.trans (List.suffix_cons c markup))
    rw [List.length_cons, Nat.add_right_comm, List.cons_append, findLocs, ← List.cons_append, hnone]
    exact ih hrest

namespace Document

/-- **Of a document that is bare what is written for its URLs is read.** -/
theorem locationTexts_text {d : Document} (h : d.Bare isalnum) :
    locationTexts isalnum d.text = d.entries.map fun entry => entry.2.writing.text := by
  have hfuel : ∀ (entries : List (List Char × Location)),
      (∀ entry ∈ entries, NoLoc isalnum entry.1) → ∀ fuel,
      (entries.flatMap (fun entry => entry.1 ++ entry.2.text) ++ d.rest).length ≤ fuel →
      findLocs isalnum fuel (entries.flatMap (fun entry => entry.1 ++ entry.2.text) ++ d.rest) =
        entries.map fun entry => entry.2.writing.text := by
    intro entries hentries
    induction entries with
    | nil =>
      intro fuel hfuel
      rw [List.flatMap_nil, List.nil_append] at hfuel ⊢
      obtain ⟨more, rfl⟩ := Nat.exists_eq_add_of_le hfuel
      have hrest := findLocs_markup h.rest (.inl rfl) more
      rw [List.append_nil] at hrest
      rw [hrest]
      cases more <;> rfl
    | cons entry entries ih =>
      intro fuel hfuel
      obtain ⟨rest, hstart⟩ := entry.2.text_start
      have htext : (entry :: entries).flatMap (fun entry => entry.1 ++ entry.2.text) ++ d.rest =
          entry.1 ++ (entry.2.text ++
            (entries.flatMap (fun entry => entry.1 ++ entry.2.text) ++ d.rest)) := by
        simp only [List.flatMap_cons, List.append_assoc]
      rw [htext] at hfuel ⊢
      rw [List.length_append] at hfuel
      obtain ⟨more, rfl⟩ := Nat.exists_eq_add_of_le (Nat.le_of_add_right_le hfuel)
      rw [findLocs_markup (hentries entry List.mem_cons_self) (.inr ⟨_, by rw [hstart]; rfl⟩)]
      have hmore : (entry.2.text ++
          (entries.flatMap (fun entry => entry.1 ++ entry.2.text) ++ d.rest)).length ≤ more := by omega
      have hmatch : matchLoc isalnum (entry.2.text ++
          (entries.flatMap (fun entry => entry.1 ++ entry.2.text) ++ d.rest)) =
            some (entry.2.writing.text, _) := entry.2.matchLoc_text _
      rw [List.length_append] at hmore
      have hlength : 0 < entry.2.text.length := by rw [hstart]; exact Nat.succ_pos _
      obtain ⟨fuel, rfl⟩ : ∃ fuel, more = fuel + 1 := ⟨more - 1, by omega⟩
      rw [hstart, List.cons_append] at hmatch ⊢
      rw [findLocs, hmatch]
      simp only [List.map_cons]
      rw [ih (fun e he => hentries e (List.mem_cons_of_mem entry he)) fuel (by omega)]
  exact hfuel d.entries h.markup _ le_rfl

/-- The URLs of a bare document are read if and only if each is written with its own characters. -/
theorem locationTexts_eq_iff {d : Document} (h : d.Bare isalnum) :
    locationTexts isalnum d.text = d.urls ↔ d.IsLiteral := by
  rw [locationTexts_text h, urls, IsLiteral]
  constructor
  · intro heq entry hentry
    exact (Writing.text_eq_url_iff entry.2.proper).mp (List.map_inj_left.mp heq entry hentry)
  · intro hliteral
    exact List.map_congr_left fun entry hentry =>
      (Writing.text_eq_url_iff entry.2.proper).mpr (hliteral entry hentry)

end Document

end CommerceCollector.Connectors
