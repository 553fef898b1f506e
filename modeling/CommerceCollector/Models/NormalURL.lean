import Mathlib.Data.Bool.AllAny
import Mathlib.Data.List.Infix
import CommerceCollector.Models.SanitizedURL

/-!
# Sanitised URLs are in normal form

A URL that is put together again from its parts is taken apart into the same parts, so that
sanitising it a second time changes nothing: the redacted user and the redacted values are redacted
to themselves. What the library does with parameters is assumed to be what it documents: `parse_qsl`
reads back what `urlencode` writes, which has no delimiter of another part of a URL in it.  Whether
an authority is still accepted when its user is replaced is not.
-/

namespace CommerceCollector.Sanitization

open FileCache

/-- What is assumed of `urllib.parse`. -/
structure Regular (python : Python) : Prop where
  /-- `parse_qsl(urlencode(pairs), keep_blank_values=True) == pairs`. -/
  parse_urlencode : ∀ pairs, parseQsl python (python.urlencode pairs) = pairs
  /-- `urlencode` writes letters, digits, `_.-~`, escapes, `+` for a space, `=` and `&`. -/
  urlencode_chars : ∀ pairs, ∀ c ∈ python.urlencode pairs,
    c.isAlphanum = true ∨ c ∈ "_.-~%+=&".toList

/-! ## Normal forms -/

/-- No character is removed from the text of a URL. -/
def Visible (text : List Char) : Prop := ∀ c ∈ text, "\t\r\n".toList.contains c = false

/-- The parts of a URL as `urlsplit` gives them. -/
structure NormalParts (p : SplitResult) (fragment : List Char) : Prop where
  scheme_ne : p.scheme ≠ []
  scheme_head : p.scheme.head?.any Char.isAlpha = true
  scheme_chars : ∀ c ∈ p.scheme, (c.isAlphanum || "+-.".toList.contains c) = true ∧ c.toLower = c
  netloc_ne : p.netloc ≠ []
  netloc_chars : ∀ c ∈ p.netloc, "/?#".toList.contains c = false
  path_head : p.path.head?.all (· == '/') = true
  path_chars : ∀ c ∈ p.path, c ≠ '?' ∧ c ≠ '#'
  query_chars : ∀ c ∈ p.query, c ≠ '#'
  visible : Visible (p.scheme ++ p.netloc ++ p.path ++ p.query ++ fragment)

/-- The URL with these parts. -/
def NormalParts.url (p : SplitResult) (fragment : List Char) : String :=
  urlunsplit p.scheme p.netloc p.path p.query fragment

/-- What stands behind the authority. -/
def behind (p : SplitResult) (fragment : List Char) : List Char :=
  p.path ++ (delimited '?' p.query ++ delimited '#' fragment)

theorem toList_url {p : SplitResult} {fragment : List Char} (h : NormalParts p fragment) :
    (NormalParts.url p fragment).toList =
      p.scheme ++ ':' :: '/' :: '/' :: (p.netloc ++ behind p fragment) := by
  rw [NormalParts.url, urlunsplit, String.toList_ofList, if_pos h.path_head, behind]
  simp

theorem mem_delimited {d : Char} {part : List Char} {c : Char} (h : c ∈ delimited d part) :
    c = d ∨ c ∈ part := by
  rw [delimited] at h
  split at h
  · exact absurd h List.not_mem_nil
  · exact List.mem_cons.mp h

theorem afterFirst_delimited {d : Char} {front part : List Char} (hfront : ∀ c ∈ front, c ≠ d) :
    SplitResult.afterFirst d (front ++ delimited d part) = part := by
  rw [SplitResult.afterFirst, List.dropWhile_append_of_pos (by simpa using hfront), delimited]
  split
  · rename_i hnil
    rw [hnil]
    rfl
  · rw [List.dropWhile_cons_of_neg (by simp)]
    rfl

theorem delimited_head (d : Char) (part : List Char) :
    delimited d part = [] ∨ (delimited d part).head? = some d := by
  rw [delimited]
  split
  · exact .inl rfl
  · exact .inr rfl

section Split

variable {p : SplitResult} {fragment : List Char}

section

variable (h : NormalParts p fragment)

include h

theorem stripped_url :
    ((NormalParts.url p fragment).toList.dropWhile fun c => c.toNat ≤ 32).filter
        (fun c => !"\t\r\n".toList.contains c) =
      p.scheme ++ ':' :: '/' :: '/' :: (p.netloc ++ behind p fragment) := by
  rw [toList_url h]
  obtain ⟨c, scheme, hscheme⟩ := List.exists_cons_of_ne_nil h.scheme_ne
  have hhead : ¬c.toNat ≤ 32 := by
    have halpha := h.scheme_head
    rw [hscheme, List.head?_cons, Option.any_some] at halpha
    intro hle
    have hall : ∀ n ≤ 32, (Char.ofNat n).isAlpha = false := by decide
    have hnot := hall c.toNat hle
    rw [Char.ofNat_toNat, halpha] at hnot
    exact absurd hnot (by decide)
  rw [hscheme, List.cons_append, List.dropWhile_cons_of_neg (by simpa using hhead),
    ← List.cons_append, ← hscheme]
  refine List.filter_eq_self.mpr fun d hd => ?_
  have hvisible := h.visible
  simp only [Visible, List.mem_append] at hvisible
  have hmarks : ∀ d ∈ [':', '/', '?', '#'], "\t\r\n".toList.contains d = false :=
    List.all_iff_forall_prop.mp (by decide)
  simp only [behind, List.mem_append, List.mem_cons] at hd
  rcases hd with hd | rfl | rfl | rfl | hd | hd | hd | hd
  · rw [hvisible d (by simp [hd])]
    rfl
  · rfl
  · rfl
  · rfl
  · rw [hvisible d (by simp [hd])]
    rfl
  · rw [hvisible d (by simp [hd])]
    rfl
  · rcases mem_delimited hd with rfl | hd
    · rfl
    · rw [hvisible d (by simp [hd])]
      rfl
  · rcases mem_delimited hd with rfl | hd
    · rfl
    · rw [hvisible d (by simp [hd])]
      rfl

theorem splitScheme_url (rest : List Char) :
    splitScheme (p.scheme ++ ':' :: rest) = (p.scheme, rest) := by
  have hne : ∀ c ∈ p.scheme, c ≠ ':' := by
    rintro c hc rfl
    exact absurd (h.scheme_chars _ hc).1 (by decide)
  have htake : (p.scheme ++ ':' :: rest).takeWhile (· != ':') = p.scheme :=
    takeWhile_ne hne (.inr rfl)
  have hall : p.scheme.all (fun c => c.isAlphanum || "+-.".toList.contains c) = true :=
    List.all_eq_true.mpr fun c hc => (h.scheme_chars c hc).1
  have hlower : p.scheme.map Char.toLower = p.scheme := by
    have hsame : ∀ c ∈ p.scheme, c.toLower = id c := fun c hc => (h.scheme_chars c hc).2
    rw [List.map_congr_left hsame, List.map_id]
  have hdrop : (p.scheme ++ ':' :: rest).drop (p.scheme.length + 1) = rest := by
    rw [List.drop_append, List.drop_of_length_le (by omega), Nat.add_sub_cancel_left]
    rfl
  rw [splitScheme, htake]
  have hlength : p.scheme.length < (p.scheme ++ ':' :: rest).length := by simp
  rw [if_pos ⟨hlength, h.scheme_head, hall⟩, hlower, hdrop]

theorem splitNetloc_url :
    splitNetloc ('/' :: '/' :: (p.netloc ++ behind p fragment)) =
      (p.netloc, behind p fragment) := by
  have hall : ∀ c ∈ p.netloc, (!"/?#".toList.contains c) = true := fun c hc => by
    rw [h.netloc_chars c hc]
    rfl
  have hhead : behind p fragment = [] ∨
      ∃ c rest, behind p fragment = c :: rest ∧ (!"/?#".toList.contains c) = false := by
    rw [behind]
    cases hpath : p.path with
    | cons c path =>
      have hslash := h.path_head
      rw [hpath, List.head?_cons, Option.all_some, beq_iff_eq] at hslash
      exact .inr ⟨c, _, rfl, by rw [hslash]; rfl⟩
    | nil =>
      rcases delimited_head '?' p.query with hquery | hquery
      · rcases delimited_head '#' fragment with hfragment | hfragment
        · exact .inl (by rw [hquery, hfragment]; rfl)
        · obtain ⟨rest, hrest⟩ := List.head?_eq_some_iff.mp hfragment
          exact .inr ⟨_, rest, by rw [hquery, hrest]; rfl, rfl⟩
      · obtain ⟨rest, hrest⟩ := List.head?_eq_some_iff.mp hquery
        exact .inr ⟨_, rest ++ delimited '#' fragment, by rw [hrest]; rfl, rfl⟩
  obtain ⟨htake, hdrop⟩ := span_front hall hhead
  rw [splitNetloc, htake, hdrop]

/-- **A URL that is put together from parts in normal form is taken apart into them.** -/
theorem parts_url :
    parts (NormalParts.url p fragment) = p ∧ urlFragment (NormalParts.url p fragment) = fragment := by
  have hpath : ∀ c ∈ p.path ++ delimited '?' p.query, c ≠ '#' := by
    intro c hc
    rcases List.mem_append.mp hc with hc | hc
    · exact (h.path_chars c hc).2
    · rcases mem_delimited hc with rfl | hc
      · decide
      · exact h.query_chars c hc
  have hrequest : (behind p fragment).takeWhile (· != '#') = p.path ++ delimited '?' p.query := by
    rw [behind, ← List.append_assoc]
    exact takeWhile_ne hpath (delimited_head _ _)
  have hfragment : SplitResult.afterFirst '#' (behind p fragment) = fragment := by
    rw [behind, ← List.append_assoc]
    exact afterFirst_delimited hpath
  have hquestion : ∀ c ∈ p.path, c ≠ '?' := fun c hc => (h.path_chars c hc).1
  constructor
  · rw [parts, stripped_url h, splitScheme_url h, splitNetloc_url h, hrequest,
      takeWhile_ne hquestion (delimited_head _ _), afterFirst_delimited hquestion]
  · rw [urlFragment, stripped_url h, splitScheme_url h, splitNetloc_url h, hfragment]

end

end Split

/-! ## The parts of a URL are in normal form -/

theorem visible_stripped (url : String) :
    Visible ((url.toList.dropWhile fun c => c.toNat ≤ 32).filter fun c =>
      !"\t\r\n".toList.contains c) := by
  intro c hc
  have hkept := (List.mem_filter.mp hc).2
  simpa using hkept

theorem Visible.sublist {text text' : List Char} (h : Visible text') (hsub : text.Sublist text') :
    Visible text := fun c hc => h c (hsub.subset hc)

theorem visible_append {text text' : List Char} (h : Visible text) (h' : Visible text') :
    Visible (text ++ text') := fun c hc => (List.mem_append.mp hc).elim (h c) (h' c)

theorem schemeChar_toLower {c : Char} (h : (c.isAlphanum || "+-.".toList.contains c) = true) :
    (c.toLower.isAlphanum || "+-.".toList.contains c.toLower) = true ∧
      c.toLower.toLower = c.toLower ∧ "\t\r\n".toList.contains c.toLower = false := by
  have hascii : c.toNat < 128 := by
    by_contra hlarge
    have hnot : c.isAlphanum = false := Bool.eq_false_iff.mpr fun h' => hlarge (toNat_alphanum h')
    rw [hnot, Bool.false_or, List.contains_iff_mem] at h
    have hall : ∀ d ∈ "+-.".toList, d.toNat < 128 :=
      List.all_iff_forall_prop.mp (by decide)
    exact hlarge (hall c h)
  have hall : ∀ n < 128, ((Char.ofNat n).isAlphanum || "+-.".toList.contains (Char.ofNat n)) = true →
      ((Char.ofNat n).toLower.isAlphanum || "+-.".toList.contains (Char.ofNat n).toLower) = true ∧
        (Char.ofNat n).toLower.toLower = (Char.ofNat n).toLower ∧
          "\t\r\n".toList.contains (Char.ofNat n).toLower = false := by decide +kernel
  have hchar := hall c.toNat hascii
  rw [Char.ofNat_toNat] at hchar
  exact hchar h

theorem isAlpha_toLower {c : Char} (h : c.isAlpha = true) : c.toLower.isAlpha = true := by
  rcases toLower_cases c with hsame | hlower
  · rw [hsame]
    exact h
  · exact Bool.or_eq_true_iff.mpr (Or.inr hlower)

theorem afterFirst_sublist (d : Char) (text : List Char) :
    (SplitResult.afterFirst d text).Sublist text :=
  (List.drop_sublist _ _).trans (List.dropWhile_sublist _)

theorem splitScheme_normal {text : List Char} (h : (splitScheme text).1 ≠ []) :
    (splitScheme text).1.head?.any Char.isAlpha = true ∧
      (∀ c ∈ (splitScheme text).1,
        (c.isAlphanum || "+-.".toList.contains c) = true ∧ c.toLower = c) ∧
      Visible (splitScheme text).1 ∧ (splitScheme text).2.Sublist text := by
  by_cases hscheme : (text.takeWhile (· != ':')).length < text.length ∧
      ((text.takeWhile (· != ':')).head?.any Char.isAlpha) = true ∧
      (text.takeWhile (· != ':')).all (fun c => c.isAlphanum || "+-.".toList.contains c) = true
  · have heq : splitScheme text = ((text.takeWhile (· != ':')).map Char.toLower,
        text.drop ((text.takeWhile (· != ':')).length + 1)) := if_pos hscheme
    obtain ⟨-, halpha, hall⟩ := hscheme
    rw [List.all_eq_true] at hall
    rw [heq]
    refine ⟨?_, ?_, ?_, List.drop_sublist _ _⟩
    · rw [List.head?_map]
      cases hhead : (text.takeWhile (· != ':')).head? with
      | none => rw [hhead] at halpha; exact absurd halpha (by decide)
      | some c =>
        rw [hhead, Option.any_some] at halpha
        exact isAlpha_toLower halpha
    · intro c hc
      obtain ⟨d, hd, rfl⟩ := List.mem_map.mp hc
      exact ⟨(schemeChar_toLower (hall d hd)).1, (schemeChar_toLower (hall d hd)).2.1⟩
    · intro c hc
      obtain ⟨d, hd, rfl⟩ := List.mem_map.mp hc
      exact (schemeChar_toLower (hall d hd)).2.2
  · have heq : splitScheme text = ([], text) := if_neg hscheme
    rw [heq] at h
    exact absurd rfl h

theorem splitNetloc_normal {text : List Char} (h : (splitNetloc text).1 ≠ []) :
    (∀ c ∈ (splitNetloc text).1, "/?#".toList.contains c = false) ∧
      (splitNetloc text).2.head?.all (fun c => "/?#".toList.contains c) = true ∧
      (splitNetloc text).1.Sublist text ∧ (splitNetloc text).2.Sublist text := by
  unfold splitNetloc at h ⊢
  split at h
  · rename_i rest
    refine ⟨fun c hc => ?_, ?_, ?_, ?_⟩
    · have hkept := List.mem_takeWhile_imp hc
      simpa using hkept
    · cases hrest : rest.dropWhile (fun c => !"/?#".toList.contains c) with
      | nil => rfl
      | cons c tail =>
        have hnot := List.head?_dropWhile_not (fun c => !"/?#".toList.contains c) rest
        rw [hrest, List.head?_cons] at hnot
        rw [List.head?_cons, Option.all_some]
        simpa only [Bool.not_not, Bool.not_false] using congrArg not hnot
    · exact (List.takeWhile_sublist _).trans (by simp)
    · exact (List.dropWhile_sublist _).trans (by simp)
  · exact absurd rfl h

variable {url : String}

/-- **The parts of a URL are in normal form.** -/
theorem normalParts (h : IsURL url) : NormalParts (parts url) (urlFragment url) := by
  have hvisible := visible_stripped url
  have hscheme := h.scheme
  have hnetloc := h.netloc
  rw [parts] at hscheme hnetloc
  rw [parts, urlFragment]
  generalize (url.toList.dropWhile fun c => c.toNat ≤ 32).filter (fun c =>
    !"\t\r\n".toList.contains c) = text at hvisible hscheme hnetloc
  dsimp only at hscheme hnetloc ⊢
  obtain ⟨hhead, hchars, hschemeVisible, hrest⟩ := splitScheme_normal hscheme
  obtain ⟨hnetlocChars, hbegin, hnetlocSub, hbehind⟩ := splitNetloc_normal hnetloc
  generalize (splitNetloc (splitScheme text).2).2 = rest at hbegin hbehind
  have hrestVisible : Visible rest := hvisible.sublist (hbehind.trans hrest)
  have hrequest : ∀ c ∈ rest.takeWhile (· != '#'), c ≠ '#' := fun c hc =>
    bne_iff_ne.mp (List.mem_takeWhile_imp (p := (· != '#')) hc)
  have hrequestSub : (rest.takeWhile (· != '#')).Sublist rest := List.takeWhile_sublist _
  have hpathSub : ((rest.takeWhile (· != '#')).takeWhile (· != '?')).Sublist
      (rest.takeWhile (· != '#')) := List.takeWhile_sublist _
  have hquerySub := afterFirst_sublist '?' (rest.takeWhile (· != '#'))
  refine { scheme_ne := hscheme, scheme_head := hhead, scheme_chars := hchars, netloc_ne := hnetloc,
           netloc_chars := hnetlocChars, path_head := ?_, path_chars := fun c hc => ⟨?_, ?_⟩,
           query_chars := fun c hc => hrequest c (hquerySub.subset hc), visible := ?_ }
  · cases rest with
    | nil => rfl
    | cons c tail =>
      rw [List.head?_cons, Option.all_some, List.contains_iff_mem] at hbegin
      have hmarks : c = '/' ∨ c = '?' ∨ c = '#' := by simpa using hbegin
      rcases hmarks with rfl | rfl | rfl
      · rfl
      · rfl
      · rfl
  · exact bne_iff_ne.mp (List.mem_takeWhile_imp (p := (· != '?')) hc)
  · exact hrequest c (hpathSub.subset hc)
  · refine visible_append (visible_append (visible_append (visible_append hschemeVisible ?_) ?_) ?_) ?_
    · exact hvisible.sublist (hnetlocSub.trans hrest)
    · exact hrestVisible.sublist (hpathSub.trans hrequestSub)
    · exact hrestVisible.sublist (hquerySub.trans hrequestSub)
    · exact hrestVisible.sublist (afterFirst_sublist _ _)

/-! ## Sanitised URLs -/

section Clean

variable {python : Python} (h : Regular python)

include h

theorem sanitizeQuery_chars (query : List Char) :
    ∀ c ∈ sanitizeQuery python query, c ≠ '#' ∧ "\t\r\n".toList.contains c = false := by
  intro c hc
  rw [sanitizeQuery] at hc
  split at hc
  · rename_i hnil
    rw [hnil] at hc
    exact absurd hc List.not_mem_nil
  · rcases h.urlencode_chars _ c hc with hword | hmark
    · refine ⟨?_, ?_⟩
      · rintro rfl
        exact absurd hword (by decide)
      · rw [Bool.eq_false_iff, Ne, List.contains_iff_mem]
        intro hspace
        have hall : ∀ d ∈ "\t\r\n".toList, d.isAlphanum = false :=
          List.all_iff_forall_prop.mp (by decide)
        rw [hall c hspace] at hword
        exact Bool.false_ne_true hword
    · have hall : ∀ d ∈ "_.-~%+=&".toList, d ≠ '#' ∧ "\t\r\n".toList.contains d = false :=
        List.all_iff_forall_prop.mp (by decide)
      exact hall c hmark

theorem sanitizeQuery_idem (query : List Char) :
    sanitizeQuery python (sanitizeQuery python query) = sanitizeQuery python query := by
  by_cases hnil : sanitizeQuery python query = []
  · rw [hnil]
    rfl
  · have hquery : query ≠ [] := by
      rintro rfl
      exact hnil rfl
    conv_lhs => rw [sanitizeQuery, if_neg hnil]
    rw [sanitizeQuery, if_neg hquery, h.parse_urlencode, List.map_map]
    refine congrArg python.urlencode (List.map_congr_left fun pair _ => ?_)
    simp only [Function.comp_apply]
    split <;> rfl

theorem cleanFragment_chars {fragment : List Char} (hvisible : Visible fragment) :
    Visible (cleanFragment python fragment) := by
  rw [cleanFragment]
  split
  · exact fun c hc => (sanitizeQuery_chars h fragment c hc).2
  · exact hvisible

theorem cleanFragment_idem (fragment : List Char) :
    cleanFragment python (cleanFragment python fragment) = cleanFragment python fragment := by
  by_cases heq : '=' ∈ fragment
  · have hclean : cleanFragment python fragment = sanitizeQuery python fragment := if_pos heq
    rw [hclean, cleanFragment]
    split
    · exact sanitizeQuery_idem h fragment
    · rfl
  · have hclean : cleanFragment python fragment = fragment := if_neg heq
    rw [hclean, hclean]

omit h in
theorem hostinfo_ne (p : SplitResult) : ∀ c ∈ p.hostinfo, c ≠ '@' := fun _ hc =>
  bne_iff_ne.mp (List.mem_takeWhile_imp (p := (· != '@')) (List.mem_reverse.mp hc))

omit h in
theorem hostinfo_sublist (p : SplitResult) : p.hostinfo.Sublist p.netloc := by
  have hsub := (List.takeWhile_sublist (p := (· != '@')) (l := p.netloc.reverse)).reverse
  rwa [List.reverse_reverse] at hsub

omit h in
theorem cleanNetloc_idem {p q : SplitResult} (hq : q.netloc = cleanNetloc p) :
    cleanNetloc q = q.netloc := by
  by_cases huser : '@' ∈ p.netloc
  · have hclean : cleanNetloc p = "redacted@".toList ++ p.hostinfo := if_pos huser
    have hmem : '@' ∈ q.netloc := by
      rw [hq, hclean]
      exact List.mem_append_left _ (by decide)
    have hhost : q.hostinfo = p.hostinfo := by
      have hrest : ("redacted@".toList.reverse).head? = some '@' := by decide
      rw [SplitResult.hostinfo, hq, hclean, List.reverse_append, takeWhile_ne
        (fun c hc => hostinfo_ne p c (List.mem_reverse.mp hc)) (.inr hrest), List.reverse_reverse]
    rw [cleanNetloc, if_pos hmem, hhost, hq, hclean]
  · have hclean : cleanNetloc p = p.netloc := if_neg huser
    rw [cleanNetloc, if_neg (by rwa [hq, hclean])]

/-- The parts of the sanitised URL. -/
def cleanParts (python : Python) (url : String) : SplitResult :=
  { scheme := (parts url).scheme, netloc := cleanNetloc (parts url), path := (parts url).path,
    query := sanitizeQuery python (parts url).query }

theorem normalParts_clean (hurl : IsURL url) :
    NormalParts (cleanParts python url) (cleanFragment python (urlFragment url)) := by
  have hnormal := normalParts hurl
  have hvisible := hnormal.visible
  have hsub : ∀ c ∈ cleanNetloc (parts url), c ∈ "redacted@".toList ∨ c ∈ (parts url).netloc := by
    intro c hc
    rw [cleanNetloc] at hc
    split at hc
    · exact (List.mem_append.mp hc).imp_right fun hc => (hostinfo_sublist _).subset hc
    · exact .inr hc
  have hne : cleanNetloc (parts url) ≠ [] := by
    rw [cleanNetloc]
    split
    · exact fun hnil => absurd (List.append_eq_nil_iff.mp hnil).1 (by decide)
    · exact hnormal.netloc_ne
  refine { scheme_ne := hnormal.scheme_ne, scheme_head := hnormal.scheme_head,
           scheme_chars := hnormal.scheme_chars, netloc_ne := hne, netloc_chars := fun c hc => ?_,
           path_head := hnormal.path_head, path_chars := hnormal.path_chars,
           query_chars := fun c hc => (sanitizeQuery_chars h _ c hc).1, visible := ?_ }
  · rcases hsub c hc with hc | hc
    · have hall : ∀ d ∈ "redacted@".toList, "/?#".toList.contains d = false :=
        List.all_iff_forall_prop.mp (by decide)
      exact hall c hc
    · exact hnormal.netloc_chars c hc
  · refine visible_append (visible_append (visible_append (visible_append ?_ ?_) ?_) ?_) ?_
    · exact fun c hc => hvisible c (by simp only [List.mem_append]; exact .inl (.inl (.inl (.inl hc))))
    · intro c hc
      rcases hsub c hc with hc | hc
      · have hall : ∀ d ∈ "redacted@".toList, "\t\r\n".toList.contains d = false :=
          List.all_iff_forall_prop.mp (by decide)
        exact hall c hc
      · exact hvisible c (by simp [hc])
    · exact fun c hc => hvisible c (by simp only [List.mem_append]; exact .inl (.inl (.inr hc)))
    · exact fun c hc => (sanitizeQuery_chars h _ c hc).2
    · exact cleanFragment_chars h fun c hc => hvisible c (List.mem_append_right _ hc)

omit h in
theorem cleanURL_eq_url (url : String) : cleanURL python url =
    NormalParts.url (cleanParts python url) (cleanFragment python (urlFragment url)) := rfl

/-- **A sanitised URL is taken apart into its parts.** -/
theorem parts_clean (hurl : IsURL url) :
    parts (cleanURL python url) = cleanParts python url ∧
      urlFragment (cleanURL python url) = cleanFragment python (urlFragment url) := by
  rw [cleanURL_eq_url]
  exact parts_url (normalParts_clean h hurl)

theorem isURL_clean (hurl : IsURL url) : IsURL (cleanURL python url) := by
  have hnormal := normalParts_clean h hurl
  have hparts := (parts_clean h hurl).1
  refine ⟨?_, ?_, ?_⟩
  · have hchars := toList_url hnormal
    rw [mentionsUrl, cleanURL_eq_url, hchars, List.any_eq_true]
    exact ⟨_, (List.mem_tails _ _).mpr (List.suffix_append _ _), rfl⟩
  · rw [hparts]
    exact hnormal.scheme_ne
  · rw [hparts]
    exact hnormal.netloc_ne

/-- **A sanitised URL is sanitised to itself, if its authority is still accepted.** -/
theorem sanitizeUrl_clean (hurl : IsURL url) :
    sanitizeUrl python (cleanURL python url) =
      if python.checknetloc (cleanNetloc (parts url)) = true then cleanURL python url
      else "[invalid-url]" := by
  obtain ⟨hparts, hfragment⟩ := parts_clean h hurl
  have hsame : cleanURL python (cleanURL python url) = cleanURL python url := by
    have hnetloc : cleanNetloc (cleanParts python url) = (cleanParts python url).netloc :=
      cleanNetloc_idem rfl
    rw [cleanURL, hparts, hfragment, hnetloc, cleanFragment_idem h]
    exact congrArg (fun query => urlunsplit (parts url).scheme (cleanNetloc (parts url))
      (parts url).path query (cleanFragment python (urlFragment url)))
      (sanitizeQuery_idem h (parts url).query)
  rw [sanitizeUrl_url python (isURL_clean h hurl), hsame, accepted, hparts]
  rfl

end Clean

/-! ## Strings -/

variable {s : String}

/-- A text in which `://` stands has a colon. -/
theorem colon_mem (h : mentionsUrl s = true) : ':' ∈ s.toList := by
  rw [mentionsUrl, List.any_eq_true] at h
  obtain ⟨rest, hrest, hhead⟩ := h
  have hmem : ':' ∈ rest := (List.isPrefixOf_iff_prefix.mp hhead).subset (by decide)
  exact ((List.mem_tails _ _).mp hrest).subset hmem

theorem sanitizeUrl_plain (python : Python) (h : ':' ∉ s.toList) : sanitizeUrl python s = s :=
  if_pos (Bool.eq_false_iff.mpr fun hmentions => h (colon_mem hmentions))

theorem mem_boundedString {limit : ℕ} {c : Char}
    (h : c ∈ (boundedString s limit).toList) : c ∈ s.toList ∨ c ∈ truncated.toList := by
  rw [boundedString] at h
  split at h
  · exact .inl h
  · split at h
    · rw [String.toList_ofList] at h
      exact .inr (List.mem_of_mem_take h)
    · rw [String.toList_ofList, List.mem_append] at h
      exact h.imp_left List.mem_of_mem_take

section Strings

variable {python : Python} {limits : Limits}

theorem sanitizeString_cut (h : ':' ∉ s.toList) :
    sanitizeString python limits (boundedString s limits.maxString) =
      boundedString s limits.maxString := by
  have hcolon : ':' ∉ (boundedString s limits.maxString).toList := fun hmem =>
    (mem_boundedString hmem).elim h (by decide)
  rw [sanitizeString, sanitizeUrl_plain python hcolon,
    boundedString_eq (length_boundedString s limits.maxString)]

theorem sanitizeUrl_other (h : ¬IsURL s) :
    sanitizeUrl python s = if mentionsUrl s = true ∧ accepted python s = false then "[invalid-url]"
      else s := by
  by_cases hmentions : mentionsUrl s = true
  · have hsome : ¬(s.toList.tails.any fun rest => "://".toList.isPrefixOf rest) = false := by
      rw [Bool.not_eq_false]
      exact hmentions
    rw [sanitizeUrl, if_neg hsome, urlsplit_eq]
    cases haccepted : accepted python s with
    | false =>
      have hrefused : mentionsUrl s = true ∧ false = false := ⟨hmentions, rfl⟩
      exact (if_pos hrefused).symm
    | true =>
      have hparts : (parts s).scheme = [] ∨ (parts s).netloc = [] := by
        by_contra hnot
        push Not at hnot
        exact h ⟨hmentions, hnot.1, hnot.2⟩
      have hrefused : ¬(mentionsUrl s = true ∧ true = false) := fun hboth =>
        Bool.false_ne_true hboth.2.symm
      rw [if_pos rfl, if_neg hrefused]
      exact if_pos hparts
  · rw [if_neg fun hboth => hmentions hboth.1]
    exact if_pos (Bool.eq_false_iff.mpr hmentions)

/-- The authority of the URL, if it is one that is accepted, is still accepted without its user. -/
def StaysAccepted (python : Python) (s : String) : Prop :=
  IsURL s → accepted python s = true → python.checknetloc (cleanNetloc (parts s)) = true

/-- What is left of a URL that is cut is still accepted, and parameters that are cut are written as
they were as far as the cut. -/
def KeepsCut (python : Python) (limits : Limits) (cut : String) : Prop :=
  mentionsUrl cut = true → accepted python cut = true ∧
    (IsURL cut → cleanURL python cut = cut ∨
      (limits.maxString < (cleanURL python cut).length ∧
        (cleanURL python cut).toList.take (limits.maxString - truncated.length) =
          cut.toList.take (limits.maxString - truncated.length)))

/-- What is written for a string stays as it is. -/
def SteadyString (python : Python) (limits : Limits) (s : String) : Prop :=
  if (sanitizeUrl python s).length ≤ limits.maxString then StaysAccepted python s
  else KeepsCut python limits (boundedString (sanitizeUrl python s) limits.maxString)

theorem refused_ne (h : mentionsUrl s = true) (limit : ℕ) :
    boundedString "[invalid-url]" limit ≠ s := by
  rintro rfl
  exact (mem_boundedString (colon_mem h)).elim (by decide) (by decide)

/-- A string that is not cut is kept if and only if its authority stays accepted. -/
theorem sanitizeString_short_iff (h : Regular python)
    (hshort : (sanitizeUrl python s).length ≤ limits.maxString) :
    sanitizeString python limits (sanitizeUrl python s) = sanitizeUrl python s ↔
      StaysAccepted python s := by
  by_cases hurl : IsURL s
  · cases haccepted : accepted python s with
    | false =>
      have hsame : sanitizeUrl python s = "[invalid-url]" := by
        rw [sanitizeUrl_url python hurl, haccepted]
        rfl
      have hfixed : sanitizeString python limits "[invalid-url]" = "[invalid-url]" := by
        rw [hsame] at hshort
        rw [sanitizeString, sanitizeUrl_plain python (by decide), boundedString_eq hshort]
      rw [hsame]
      exact iff_of_true hfixed fun _ h' => absurd (haccepted.symm.trans h') (by decide)
    | true =>
      have hsame : sanitizeUrl python s = cleanURL python s := by
        rw [sanitizeUrl_url python hurl, haccepted]
        rfl
      rw [hsame] at hshort ⊢
      rw [sanitizeString, sanitizeUrl_clean h hurl]
      by_cases hstill : python.checknetloc (cleanNetloc (parts s)) = true
      · rw [if_pos hstill]
        exact iff_of_true (boundedString_eq hshort) fun _ _ => hstill
      · rw [if_neg hstill]
        exact iff_of_false (refused_ne (isURL_clean h hurl).mentions limits.maxString)
          fun hstays => hstill (hstays hurl haccepted)
  · have hsame : sanitizeUrl python (sanitizeUrl python s) = sanitizeUrl python s := by
      have hother : sanitizeUrl python s = if mentionsUrl s = true ∧ accepted python s = false then
          "[invalid-url]" else s := sanitizeUrl_other hurl
      by_cases hrefused : mentionsUrl s = true ∧ accepted python s = false
      · rw [hother, if_pos hrefused, sanitizeUrl_plain python (by decide)]
      · rw [if_neg hrefused] at hother
        rw [hother, hother]
    rw [sanitizeString, hsame]
    exact iff_of_true (boundedString_eq hshort) fun h' => absurd h' hurl

/-- A URL that is left of what is cut is written with the same cut if and only if it is written as
it is, or as it is as far as the cut. -/
theorem boundedString_clean_iff {u cut clean : String} (hlong : ¬u.length ≤ limits.maxString)
    (hmarker : ¬limits.maxString ≤ truncated.length)
    (hcut : cut = boundedString u limits.maxString) :
    boundedString clean limits.maxString = cut ↔ clean = cut ∨
      (limits.maxString < clean.length ∧
        clean.toList.take (limits.maxString - truncated.length) =
          cut.toList.take (limits.maxString - truncated.length)) := by
  have hlength : cut.length ≤ limits.maxString := hcut ▸ length_boundedString u limits.maxString
  rw [boundedString, if_neg hlong, if_neg hmarker] at hcut
  have hfront : cut.toList.take (limits.maxString - truncated.length) =
      u.toList.take (limits.maxString - truncated.length) := by
    have hfull : (u.toList.take (limits.maxString - truncated.length)).length =
        limits.maxString - truncated.length := by
      rw [List.length_take, String.length_toList]
      omega
    rw [hcut, String.toList_ofList, List.take_append_of_le_length hfull.ge,
      List.take_of_length_le hfull.le]
  by_cases hfits : clean.length ≤ limits.maxString
  · rw [boundedString_eq hfits]
    exact ⟨.inl, fun hor => hor.resolve_right fun hboth => absurd hfits (Nat.not_le.mpr hboth.1)⟩
  · have hne : clean ≠ cut := by
      rintro rfl
      exact hfits hlength
    rw [boundedString, if_neg hfits, if_neg hmarker, hfront]
    constructor
    · intro heq
      rw [hcut, String.ofList_inj] at heq
      exact .inr ⟨Nat.lt_of_not_le hfits, List.append_cancel_right heq⟩
    · intro hor
      rw [(hor.resolve_left hne).2, ← hcut]

theorem sanitizeString_long_iff {u cut : String} (hlong : ¬u.length ≤ limits.maxString)
    (hcut : cut = boundedString u limits.maxString) :
    sanitizeString python limits cut = cut ↔ KeepsCut python limits cut := by
  have hlength : cut.length ≤ limits.maxString := hcut ▸ length_boundedString u limits.maxString
  by_cases hmentions : mentionsUrl cut = true
  · have hmarker : ¬limits.maxString ≤ truncated.length := by
      intro hle
      have hcolon := colon_mem hmentions
      rw [hcut, boundedString, if_neg hlong, if_pos hle, String.toList_ofList] at hcolon
      exact absurd (List.mem_of_mem_take hcolon) (by decide)
    by_cases haccepted : accepted python cut = true
    · by_cases hurl : IsURL cut
      · have hkeeps : KeepsCut python limits cut ↔ cleanURL python cut = cut ∨
            (limits.maxString < (cleanURL python cut).length ∧
              (cleanURL python cut).toList.take (limits.maxString - truncated.length) =
                cut.toList.take (limits.maxString - truncated.length)) :=
          ⟨fun hkeeps => (hkeeps hmentions).2 hurl, fun hor _ => ⟨haccepted, fun _ => hor⟩⟩
        rw [hkeeps, sanitizeString, sanitizeUrl_url python hurl, if_pos haccepted]
        exact boundedString_clean_iff hlong hmarker hcut
      · have hkept : sanitizeUrl python cut = cut := by
          rw [sanitizeUrl_other hurl, if_neg fun hboth => Bool.eq_false_iff.mp hboth.2 haccepted]
        rw [sanitizeString, hkept]
        exact iff_of_true (boundedString_eq hlength) fun _ => ⟨haccepted, fun h => absurd h hurl⟩
    · have hrefused : sanitizeUrl python cut = "[invalid-url]" := by
        by_cases hurl : IsURL cut
        · rw [sanitizeUrl_url python hurl, if_neg haccepted]
        · rw [sanitizeUrl_other hurl, if_pos ⟨hmentions, Bool.eq_false_iff.mpr haccepted⟩]
      rw [sanitizeString, hrefused]
      exact iff_of_false (refused_ne hmentions _) fun hkeeps => haccepted (hkeeps hmentions).1
  · have hkept : sanitizeUrl python cut = cut := if_pos (Bool.eq_false_iff.mpr hmentions)
    rw [sanitizeString, hkept]
    exact iff_of_true (boundedString_eq hlength) fun h => absurd h hmentions

/-- **A string is sanitised once and for all if and only if it is steady.** -/
theorem sanitizeString_idem_iff (h : Regular python) (s : String) :
    sanitizeString python limits (sanitizeString python limits s) = sanitizeString python limits s ↔
      SteadyString python limits s := by
  have hstring : sanitizeString python limits s =
      boundedString (sanitizeUrl python s) limits.maxString := rfl
  rw [hstring, SteadyString]
  by_cases hshort : (sanitizeUrl python s).length ≤ limits.maxString
  · rw [if_pos hshort, boundedString_eq hshort]
    exact sanitizeString_short_iff h hshort
  · rw [if_neg hshort]
    exact sanitizeString_long_iff hshort rfl

end Strings

end CommerceCollector.Sanitization
