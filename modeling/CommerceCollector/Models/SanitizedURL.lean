import CommerceCollector.Foundation.Characters
import CommerceCollector.Models.Sanitization

/-!
# URLs without credentials

`sanitize_url` depends on a URL only through its scheme, its host, its path, the keys of its
parameters and the values of those that are no credentials, and on whether `urlsplit` refuses it: of
a URL that is refused nothing is kept.
-/

namespace CommerceCollector.Sanitization

open FileCache

variable (python : Python)

/-! ## The parts of a URL -/

/-- The parts of a URL, whether `urlsplit` accepts them or not. -/
def parts (url : String) : SplitResult :=
  let stripped := (url.toList.dropWhile fun c => c.toNat ≤ 32).filter fun c =>
    !"\t\r\n".toList.contains c
  let scheme := splitScheme stripped
  let netloc := splitNetloc scheme.2
  let request := netloc.2.takeWhile (· != '#')
  { scheme := scheme.1, netloc := netloc.1, path := request.takeWhile (· != '?'),
    query := SplitResult.afterFirst '?' request }

/-- `urlsplit` accepts the URL. -/
def accepted (url : String) : Bool := python.checknetloc (parts url).netloc

/-- `"://" in value`. -/
def mentionsUrl (value : String) : Bool :=
  value.toList.tails.any fun rest => "://".toList.isPrefixOf rest

/-- The string is a URL with a scheme and an authority. -/
structure IsURL (value : String) : Prop where
  mentions : mentionsUrl value = true
  scheme : (parts value).scheme ≠ []
  netloc : (parts value).netloc ≠ []

/-- The authority without the user. -/
def cleanNetloc (p : SplitResult) : List Char :=
  if '@' ∈ p.netloc then "redacted@".toList ++ p.hostinfo else p.netloc

/-- The fragment without credentials. -/
def cleanFragment (fragment : List Char) : List Char :=
  if '=' ∈ fragment then sanitizeQuery python fragment else fragment

/-- A URL that is accepted, without credentials. -/
def cleanURL (url : String) : String :=
  urlunsplit (parts url).scheme (cleanNetloc (parts url)) (parts url).path
    (sanitizeQuery python (parts url).query) (cleanFragment python (urlFragment url))

theorem urlsplit_eq (url : String) :
    urlsplit python url = if accepted python url = true then some (parts url) else none := rfl

theorem sanitizeUrl_url {url : String} (h : IsURL url) :
    sanitizeUrl python url = if accepted python url = true then cleanURL python url
      else "[invalid-url]" := by
  have hmentions : ¬(url.toList.tails.any fun rest => "://".toList.isPrefixOf rest) = false := by
    rw [Bool.not_eq_false]
    exact h.mentions
  rw [sanitizeUrl, if_neg hmentions, urlsplit_eq]
  cases accepted python url with
  | false => rfl
  | true =>
    have hparts : ¬((parts url).scheme = [] ∨ (parts url).netloc = []) := by
      rintro (hscheme | hnetloc)
      · exact h.scheme hscheme
      · exact h.netloc hnetloc
    rw [if_pos rfl, if_pos rfl]
    exact if_neg hparts

/-! ## URLs that differ in credentials -/

/-- Parameters with the same keys, and the same values where these are no credentials. -/
structure SameParams (query query' : List Char) : Prop where
  nil : query = [] ↔ query' = []
  pairs : List.Forall₂ (fun pair pair' : String × String => pair.1 = pair'.1 ∧
    (FileCache.isCredentialKey (normalizeKey python pair.1) = true ∨ pair.2 = pair'.2))
      (parseQsl python query) (parseQsl python query')

/-- Two URLs that differ only in the user and in the values of credentials. -/
structure SameURL (url url' : String) : Prop where
  left : IsURL url
  right : IsURL url'
  scheme : (parts url).scheme = (parts url').scheme
  user : '@' ∈ (parts url).netloc ↔ '@' ∈ (parts url').netloc
  host : (parts url).hostinfo = (parts url').hostinfo
  path : (parts url).path = (parts url').path
  query : SameParams python (parts url).query (parts url').query
  fragment : urlFragment url = urlFragment url' ∨
    ('=' ∈ urlFragment url ∧ '=' ∈ urlFragment url' ∧
      SameParams python (urlFragment url) (urlFragment url'))

variable {python}

theorem hostinfo_eq {p : SplitResult} (h : '@' ∉ p.netloc) : p.hostinfo = p.netloc := by
  have hall : ∀ c ∈ p.netloc.reverse, (c != '@') = true := by
    intro c hc
    have hne : c ≠ '@' := fun heq => h (heq ▸ List.mem_reverse.mp hc)
    simpa using hne
  rw [SplitResult.hostinfo, List.takeWhile_eq_self_iff.mpr hall, List.reverse_reverse]

theorem SameParams.sanitizeQuery_eq {query query' : List Char}
    (h : SameParams python query query') :
    sanitizeQuery python query = sanitizeQuery python query' := by
  have hpairs : ∀ {pairs pairs' : List (String × String)},
      List.Forall₂ (fun pair pair' : String × String => pair.1 = pair'.1 ∧
        (FileCache.isCredentialKey (normalizeKey python pair.1) = true ∨ pair.2 = pair'.2))
          pairs pairs' →
      pairs.map (fun pair => (pair.1,
        if FileCache.isCredentialKey (normalizeKey python pair.1) = true then "[redacted]"
        else pair.2)) =
      pairs'.map (fun pair => (pair.1,
        if FileCache.isCredentialKey (normalizeKey python pair.1) = true then "[redacted]"
        else pair.2)) := by
    intro pairs pairs' hall
    induction hall with
    | nil => rfl
    | cons hpair _ ih =>
      obtain ⟨hkey, hvalue⟩ := hpair
      rw [List.map_cons, List.map_cons, ih, hkey]
      rcases hvalue with hcredential | hvalue
      · rw [hkey] at hcredential
        rw [if_pos hcredential, if_pos hcredential]
      · rw [hvalue]
  rw [sanitizeQuery, sanitizeQuery]
  by_cases hnil : query = []
  · rw [if_pos hnil, if_pos (h.nil.mp hnil), hnil, h.nil.mp hnil]
  · rw [if_neg hnil, if_neg fun hnil' => hnil (h.nil.mpr hnil'), hpairs h.pairs]

theorem SameURL.cleanURL_eq {url url' : String} (h : SameURL python url url') :
    cleanURL python url = cleanURL python url' := by
  have hnetloc : cleanNetloc (parts url) = cleanNetloc (parts url') := by
    rw [cleanNetloc, cleanNetloc, h.host]
    by_cases huser : '@' ∈ (parts url).netloc
    · rw [if_pos huser, if_pos (h.user.mp huser)]
    · have huser' : '@' ∉ (parts url').netloc := fun h' => huser (h.user.mpr h')
      rw [if_neg huser, if_neg huser', ← hostinfo_eq huser, ← hostinfo_eq huser', h.host]
  have hfragment : cleanFragment python (urlFragment url) =
      cleanFragment python (urlFragment url') := by
    rcases h.fragment with heq | ⟨hleft, hright, hparams⟩
    · rw [heq]
    · rw [cleanFragment, cleanFragment, if_pos hleft, if_pos hright, hparams.sanitizeQuery_eq]
  rw [cleanURL, cleanURL, h.scheme, hnetloc, h.path, h.query.sanitizeQuery_eq, hfragment]

theorem scheme_head (url : String) :
    ∀ c ∈ (parts url).scheme.head?, c ≠ '[' := by
  intro c hc hbracket
  rw [parts] at hc
  simp only [splitScheme] at hc
  split at hc
  · rename_i hscheme
    obtain ⟨-, halpha, -⟩ := hscheme
    rw [List.head?_map, Option.mem_def, Option.map_eq_some_iff] at hc
    obtain ⟨d, hd, hlower⟩ := hc
    rw [hd, Option.any_some] at halpha
    rw [eq_of_toLower_eq (by decide) (hlower.trans hbracket)] at halpha
    exact absurd halpha (by decide)
  · simp at hc

theorem cleanURL_ne {url : String} (h : IsURL url) : cleanURL python url ≠ "[invalid-url]" := by
  intro heq
  obtain ⟨c, scheme, hscheme⟩ := List.exists_cons_of_ne_nil h.scheme
  have hc := scheme_head url c (by rw [hscheme]; rfl)
  have hchars := congrArg String.toList heq
  rw [cleanURL, urlunsplit, String.toList_ofList, hscheme] at hchars
  exact hc (List.cons.inj hchars).1

/-- **Two URLs that differ only in credentials are written alike if and only if both are accepted or
both are refused.** -/
theorem SameURL.sanitizeUrl_iff {url url' : String} (h : SameURL python url url') :
    sanitizeUrl python url = sanitizeUrl python url' ↔ accepted python url = accepted python url' := by
  rw [sanitizeUrl_url python h.left, sanitizeUrl_url python h.right, h.cleanURL_eq]
  have hne : cleanURL python url' ≠ "[invalid-url]" := cleanURL_ne h.right
  cases accepted python url <;> cases accepted python url' <;> simp [hne, hne.symm]

end CommerceCollector.Sanitization
