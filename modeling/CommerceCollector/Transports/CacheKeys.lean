import CommerceCollector.Transports.ResponseCache
import Mathlib.Data.List.Induction

/-!
# What a cache key determines

The key of a cacheable request determines where the request goes, its query up to the order, its
body, its evaluation and the headers that are keyed: the normalized URL can be taken apart again,
and the text of the identity determines the value under each of its names.  A cache answers a
request with a response that was written for a request of the same identity only, and no request
with credentials reaches the entries.
-/

namespace CommerceCollector

open JsonText

/-! ## Texts with a delimiter -/

theorem takeWhile_delimited {c : Char} {part rest : List Char} (hpart : c ∉ part)
    (hrest : ∀ d ∈ rest.head?, d = c) : (part ++ rest).takeWhile (· != c) = part := by
  have hall : ∀ d ∈ part, (d != c) = true := fun d hd => bne_iff_ne.mpr fun h => hpart (h ▸ hd)
  rw [List.takeWhile_append_of_pos hall]
  cases rest with
  | nil => simp
  | cons d rest =>
    obtain rfl := hrest d rfl
    simp

/-- Two parts without the delimiter that follows them, at the beginning of one text. -/
theorem append_inj_delimited {c : Char} {a b r r' : List Char} (h : a ++ r = b ++ r') (ha : c ∉ a)
    (hb : c ∉ b) (hr : ∀ d ∈ r.head?, d = c) (hr' : ∀ d ∈ r'.head?, d = c) : a = b ∧ r = r' := by
  have htake := congrArg (List.takeWhile (· != c)) h
  rw [takeWhile_delimited ha hr, takeWhile_delimited hb hr'] at htake
  subst htake
  exact ⟨rfl, List.append_cancel_left h⟩

theorem notMem_toDigits {c : Char} (hc : c.isDigit = false) (n : ℕ) : c ∉ Nat.toDigits 10 n :=
  fun h => Bool.false_ne_true
    (hc.symm.trans (Nat.isDigit_of_mem_toDigits (by decide) (by decide) h))

/-! ## Targets -/

namespace RequestTarget

/-- What a target is. -/
structure WellFormed (t : RequestTarget) : Prop where
  scheme : t.scheme = "http".toList ∨ t.scheme = "https".toList
  host : '/' ∉ t.host
  path : ∃ rest, t.path = '/' :: rest
  query : '?' ∉ t.path

/-- The host of a target, in brackets if it is an address with colons. -/
def bracketed (t : RequestTarget) : List Char :=
  if ':' ∈ t.host then '[' :: (t.host ++ [']']) else t.host

variable {t u : RequestTarget}

theorem bracketed_inj (h : t.bracketed = u.bracketed) : t.host = u.host := by
  unfold bracketed at h
  split at h <;> split at h
  · exact List.append_cancel_right (List.cons.inj h).2
  · rename_i ht hu
    exact absurd (h ▸ by simp [ht]) hu
  · rename_i ht hu
    exact absurd (h.symm ▸ by simp [hu]) ht
  · exact h

theorem bracketed_ne_port (t : RequestTarget) (host : List Char) (n : ℕ) :
    t.bracketed ≠ host ++ ':' :: Nat.toDigits 10 n := by
  intro h
  unfold bracketed at h
  split at h
  · -- The bracketed host ends with a bracket, and the other one with a digit.
    have hlast := congrArg List.getLast? h
    rw [← List.cons_append, List.getLast?_concat] at hlast
    have hmem : ']' ∈ Nat.toDigits 10 n := by
      rw [List.getLast?_append, List.getLast?_cons] at hlast
      have hne : Nat.toDigits 10 n ≠ [] := Nat.toDigits_ne_nil
      rw [List.getLast?_eq_some_getLast hne, Option.getD_some, Option.some_or] at hlast
      exact Option.some.inj hlast ▸ List.getLast_mem hne
    exact notMem_toDigits (by decide) n hmem
  · rename_i hcolon
    exact hcolon (h ▸ by simp)

theorem authority_eq (t : RequestTarget) :
    t.authority = if t.effectivePort = t.defaultPort then t.bracketed
      else t.bracketed ++ ':' :: Nat.toDigits 10 t.effectivePort := rfl

/-- **The authority determines the host and the port.** -/
theorem authority_inj (hscheme : t.scheme = u.scheme)
    (h : t.authority = u.authority) : t.host = u.host ∧ t.effectivePort = u.effectivePort := by
  have hdefault : t.defaultPort = u.defaultPort := by rw [defaultPort, defaultPort, hscheme]
  rw [authority_eq, authority_eq] at h
  split at h <;> split at h
  · rename_i ht hu
    exact ⟨bracketed_inj h, by rw [ht, hu, hdefault]⟩
  · exact absurd h (bracketed_ne_port t _ _)
  · exact absurd h.symm (bracketed_ne_port u _ _)
  · -- The port follows the last colon.
    have hreverse := congrArg List.reverse h
    simp only [List.reverse_append, List.reverse_cons, List.append_assoc, List.singleton_append]
      at hreverse
    have hcolon : ∀ n, ':' ∉ (Nat.toDigits 10 n).reverse := fun n hmem =>
      notMem_toDigits (by decide) n (List.mem_reverse.mp hmem)
    obtain ⟨hdigits, hrest⟩ := append_inj_delimited hreverse (hcolon _) (hcolon _)
      (by simp) (by simp)
    refine ⟨bracketed_inj (List.reverse_injective (List.cons.inj hrest).2), ?_⟩
    exact toDigits_injective (List.reverse_injective hdigits)

theorem WellFormed.authority {t : RequestTarget} (h : t.WellFormed) : '/' ∉ t.authority := by
  have hhost : '/' ∉ t.bracketed := by
    unfold bracketed
    split <;> simp [h.host]
  rw [authority_eq]
  split
  · exact hhost
  · simp [hhost, notMem_toDigits]

/-- **The normalized URL determines the target without its query.** -/
theorem url_inj {python : Python} (ht : t.WellFormed) (hu : u.WellFormed)
    (h : t.url python = u.url python) :
    t.scheme = u.scheme ∧ t.host = u.host ∧ t.effectivePort = u.effectivePort ∧ t.path = u.path := by
  obtain ⟨p, hp⟩ := ht.path
  obtain ⟨q, hq⟩ := hu.path
  unfold url at h
  simp only [List.append_assoc] at h
  have hscheme : t.scheme = u.scheme := by
    rcases ht.scheme with hs | hs <;> rcases hu.scheme with hs' | hs' <;> rw [hs, hs'] at h ⊢
    · simp at h
    · simp at h
  rw [hscheme] at h
  have hrest := List.append_cancel_left (List.append_cancel_left h)
  obtain ⟨hauthority, hpath⟩ := append_inj_delimited hrest ht.authority hu.authority
    (by simp [hp]) (by simp [hq])
  obtain ⟨hhost, hport⟩ := authority_inj hscheme hauthority
  have hhead : ∀ query : List Char, ∀ d ∈ (if query = [] then [] else '?' :: query).head?, d = '?' := by
    intro query d hd
    split at hd
    · cases hd
    · exact (Option.some.inj hd).symm
  exact ⟨hscheme, hhost, hport,
    (append_inj_delimited hpath ht.query hu.query (hhead _) (hhead _)).1⟩

end RequestTarget

theorem splitNetloc_delimited {text : List Char} (h : (splitNetloc text).1 ≠ []) :
    ∀ c ∈ (splitNetloc text).2.head?, c ∈ "/?#".toList := by
  revert h
  fun_cases splitNetloc text with
  | case1 rest =>
    intro _ c hc
    have hhead := List.head?_dropWhile_not (fun c => !"/?#".toList.contains c) rest
    rw [hc] at hhead
    simp only [Bool.not_eq_false', List.contains_iff_mem] at hhead
    exact hhead
  | case2 =>
    intro h
    exact absurd rfl h

theorem urlsplit_path {python : Python} {url : String} {p : SplitResult}
    (h : urlsplit python url = some p) :
    python.checknetloc p.netloc = true ∧ '?' ∉ p.path ∧
      (p.netloc ≠ [] → p.path = [] ∨ ∃ rest, p.path = '/' :: rest) := by
  unfold urlsplit at h
  dsimp only at h
  split at h
  case isFalse => cases h
  rename_i hcheck
  obtain rfl := Option.some.inj h
  refine ⟨hcheck, fun hmem => ?_, fun hnetloc => ?_⟩
  · have htrue := List.all_eq_true.mp (List.all_takeWhile (p := (· != '?'))) '?' hmem
    exact absurd htrue (by decide)
  · have hdelimited := splitNetloc_delimited hnetloc
    dsimp only at hdelimited ⊢
    generalize (splitNetloc _).2 = rest at hdelimited ⊢
    cases rest with
    | nil => exact Or.inl rfl
    | cons c cs =>
      have hc : c = '/' ∨ c = '?' ∨ c = '#' := by simpa using hdelimited c rfl
      rcases hc with rfl | rfl | rfl
      · exact Or.inr ⟨_, rfl⟩
      · exact Or.inl rfl
      · exact Or.inl rfl

variable {r : TransportRequest}

theorem requestTarget_eq_some {python : Python} {t : RequestTarget}
    (h : requestTarget python r = some t) :
    ∃ p host, urlsplit python r.url = some p ∧ '@' ∉ p.netloc ∧
      (p.scheme = "http".toList ∨ p.scheme = "https".toList) ∧
      p.hostname python.lower = some host ∧ python.idna host = some t.host ∧ t.scheme = p.scheme ∧
      t.path = (if p.path = [] then ['/'] else p.path) ∧
      t.query = parseQsl python p.query ++ r.query.map (fun q => (q.1, q.2.text)) ∧
      ∀ q ∈ t.query, credentialName python q.1 = false := by
  unfold requestTarget at h
  obtain ⟨p, hp, h⟩ := Option.bind_eq_some_iff.mp h
  obtain ⟨port, hport, h⟩ := Option.bind_eq_some_iff.mp h
  split at h
  case isTrue => cases h
  rename_i hscheme
  obtain ⟨host, hhost, h⟩ := Option.bind_eq_some_iff.mp h
  obtain ⟨normalizedHost, hnormalized, h⟩ := Option.bind_eq_some_iff.mp h
  dsimp only at h
  split at h
  case isTrue => cases h
  rename_i hnames
  obtain rfl := Option.some.inj h
  obtain ⟨hhttp, hat⟩ := not_or.mp hscheme
  have hmem : p.scheme ∈ ["http".toList, "https".toList] :=
    List.contains_iff_mem.mp (not_not.mp hhttp)
  refine ⟨p, host, hp, hat, by simpa only [List.mem_cons, List.not_mem_nil, or_false] using hmem,
    hhost, hnormalized, rfl, rfl, rfl, fun q hq => ?_⟩
  exact Bool.eq_false_iff.mpr fun hname => hnames (List.any_eq_true.mpr ⟨q, hq, hname⟩)

theorem wellFormed_of_requestTarget {python : Python} {t : RequestTarget}
    (h : requestTarget python r = some t) : t.WellFormed := by
  obtain ⟨p, host, hp, -, hscheme, hhost, hnormalized, hs, hpath, -, -⟩ := requestTarget_eq_some h
  obtain ⟨hcheck, hquery, hslash⟩ := urlsplit_path hp
  have hnetloc : p.netloc ≠ [] := by
    intro hnil
    simp [SplitResult.hostname, SplitResult.hostAndPort, SplitResult.hostinfo, hnil] at hhost
  refine ⟨hs ▸ hscheme, python.idna_clean p hcheck host hhost t.host hnormalized, ?_, ?_⟩
  · rw [hpath]
    split
    · exact ⟨[], rfl⟩
    · rename_i hne
      exact (hslash hnetloc).resolve_left hne
  · rw [hpath]
    split
    · decide
    · exact hquery

/-! ## Dictionaries -/

section Dictionary

variable {α : Type*}

variable {entries : List (String × α)}

theorem nodup_setEntry (h : (entries.map Prod.fst).Nodup) (key : String)
    (value : α) : ((setEntry entries key value).map Prod.fst).Nodup := by
  unfold setEntry
  split
  · have hsame : (entries.map fun e => if e.1 = key then (key, value) else e).map Prod.fst =
        entries.map Prod.fst := by
      rw [List.map_map]
      refine List.map_congr_left fun e _ => ?_
      rw [Function.comp_apply]
      split
      · rename_i he
        exact he.symm
      · rfl
    rwa [hsame]
  · rename_i hnew
    rw [List.map_append]
    exact List.Nodup.append h (List.nodup_singleton _) (by simpa using hnew)

theorem mem_setEntry {key : String} {value : α} {e : String × α} :
    e ∈ setEntry entries key value ↔ e = (key, value) ∨ e.1 ≠ key ∧ e ∈ entries := by
  unfold setEntry
  split
  · rename_i hold
    obtain ⟨old, hmem, rfl⟩ := List.mem_map.mp hold
    rw [List.mem_map]
    constructor
    · rintro ⟨d, hd, rfl⟩
      split
      · exact Or.inl rfl
      · rename_i hne
        exact Or.inr ⟨hne, hd⟩
    · rintro (rfl | ⟨hne, he⟩)
      · exact ⟨old, hmem, if_pos rfl⟩
      · exact ⟨e, he, if_neg hne⟩
  · rename_i hnew
    rw [List.mem_append, List.mem_singleton]
    constructor
    · rintro (he | rfl)
      · exact Or.inr ⟨fun heq => hnew (heq ▸ List.mem_map_of_mem he), he⟩
      · exact Or.inl rfl
    · rintro (rfl | ⟨-, he⟩)
      · exact Or.inr rfl
      · exact Or.inl he

theorem lookup_setEntry (h : (entries.map Prod.fst).Nodup) (key k : String) (value : α) :
    (setEntry entries key value).lookup k = if k = key then some value else entries.lookup k := by
  refine Option.ext fun v => ?_
  rw [lookup_of_mem (nodup_setEntry h key value), mem_setEntry]
  split
  · rename_i hk
    simp [hk, eq_comm]
  · rename_i hk
    simp [hk, lookup_of_mem h]

end Dictionary

/-- The value of the last header of a name. -/
def lastHeader (python : Python) (r : TransportRequest) (name : String) : Option String :=
  (r.headers.reverse.find? fun h => python.casefold h.1 == name).map Prod.snd

theorem relevantHeaders_spec (python : Python) (r : TransportRequest) :
    ((relevantHeaders python r).map Prod.fst).Nodup ∧ ∀ name ∈ keyedRequestHeaders,
      (relevantHeaders python r).lookup name = lastHeader python r name := by
  unfold relevantHeaders lastHeader
  induction r.headers using List.reverseRecOn with
  | nil => exact ⟨List.nodup_nil, fun _ _ => rfl⟩
  | append_singleton hs h ih =>
    obtain ⟨hnodup, hlookup⟩ := ih
    rw [List.filter_append, List.foldl_append, List.reverse_append]
    by_cases hkeyed : keyedRequestHeaders.contains (python.casefold h.1) = true
    · simp only [List.filter_cons, hkeyed, ↓reduceIte, List.filter_nil, List.foldl_cons,
        List.foldl_nil, List.reverse_cons, List.reverse_nil, List.nil_append, List.singleton_append]
      refine ⟨nodup_setEntry hnodup _ _, fun name hname => ?_⟩
      rw [lookup_setEntry hnodup, List.find?_cons]
      by_cases heq : name = python.casefold h.1
      · simp [heq]
      · have hne : (python.casefold h.1 == name) = false := beq_eq_false_iff_ne.mpr (Ne.symm heq)
        rw [if_neg heq, hne]
        exact hlookup name hname
    · simp only [List.filter_cons, hkeyed, Bool.false_eq_true, ↓reduceIte, List.filter_nil,
        List.foldl_nil, List.reverse_cons, List.reverse_nil, List.nil_append, List.singleton_append]
      refine ⟨hnodup, fun name hname => ?_⟩
      rw [List.find?_cons]
      have hne : (python.casefold h.1 == name) = false := by
        refine beq_eq_false_iff_ne.mpr ?_
        rintro rfl
        exact hkeyed (List.contains_iff_mem.mpr hname)
      rw [hne]
      exact hlookup name hname

/-! ## Keys -/

/-- **Two requests for the same response.** -/
structure SameExchange (python : Python) (r r' : TransportRequest) : Prop where
  method : python.upper r.method = python.upper r'.method
  target : ∃ t t', requestTarget python r = some t ∧ requestTarget python r' = some t' ∧
    t.scheme = t'.scheme ∧ t.host = t'.host ∧ t.effectivePort = t'.effectivePort ∧ t.path = t'.path ∧
    t.query.Perm t'.query
  body : canonicalBody r = canonicalBody r'
  jsonBody : ∀ v ∈ r.jsonBody, ∀ v' ∈ r'.jsonBody, sortKeys v = sortKeys v'
  browser : r.browser = r'.browser
  evaluation : r.evaluation = r'.evaluation
  headers : ∀ name ∈ keyedRequestHeaders, lastHeader python r name = lastHeader python r' name

/-- A request without credentials, as the names of its headers and of its parameters tell. -/
structure CredentialFree (python : Python) (r : TransportRequest) : Prop where
  headers : ∀ h ∈ r.headers, credentialName python h.1 = false
  userinfo : ∀ p ∈ urlsplit python r.url, '@' ∉ p.netloc
  query : ∃ t, requestTarget python r = some t ∧ ∀ q ∈ t.query, credentialName python q.1 = false

section Keys

variable {python : Python} {digest : ByteArray → String}

theorem credentialFree_of_eligible
    (h : (requestCacheIdentity python digest r).eligible = true) : CredentialFree python r := by
  obtain ⟨htarget, hheaders⟩ := Bool.and_eq_true_iff.mp h
  obtain ⟨t, ht⟩ := Option.isSome_iff_exists.mp htarget
  obtain ⟨p, -, hp, hat, -, -, -, -, -, -, hquery⟩ := requestTarget_eq_some ht
  refine ⟨fun e he => ?_, fun p' hp' => ?_, t, ht, hquery⟩
  · rw [Bool.not_eq_true', List.any_eq_false] at hheaders
    exact Bool.eq_false_iff.mpr (hheaders e he)
  · obtain rfl : p = p' := Option.some.inj (hp.symm.trans hp')
    exact hat

theorem nodup_identityValue (r : TransportRequest) :
    ((identityValue python digest r).map Prod.fst).Nodup := by
  simp [identityValue]

theorem queryValue_injective {q q' : List (String × String)}
    (h : sortKeys (queryValue q) = sortKeys (queryValue q')) : q = q' := by
  have hsort : ∀ q : List (String × String), sortKeys (queryValue q) = queryValue q := by
    intro q
    rw [queryValue, sortKeys, sortItems_eq, List.map_map]
    refine congrArg Value.array (List.map_congr_left fun e _ => ?_)
    simp [sortKeys, sortItems]
  rw [hsort, hsort] at h
  have hinj : Function.Injective fun e : String × String =>
      Value.array [.string e.1, .string e.2] := by
    intro e f hef
    simpa [Prod.ext_iff] using hef
  exact hinj.list_map (Value.array.inj h)

theorem evaluationValue_injective (hdigest : Function.Injective digest)
    {e e' : Option BrowserEvaluation}
    (h : sortKeys (evaluationValue digest e) = sortKeys (evaluationValue digest e')) : e = e' := by
  cases e with
  | none =>
    cases e' with
    | none => rfl
    | some e' => simp [evaluationValue, sortKeys] at h
  | some e =>
    cases e' with
    | none => simp [evaluationValue, sortKeys] at h
    | some e' =>
      have hlookup := lookup_of_sortKeys h (by simp)
      have haction := hlookup "action_id"
      have hscript := hlookup "script_sha256"
      have hwaitFor := hlookup "wait_for"
      have hwait := hlookup "wait_milliseconds"
      simp only [List.lookup_cons, String.reduceBEq, Option.map_some, sortKeys, Option.some.injEq,
        Value.string.injEq, Value.number.injEq] at haction hscript hwaitFor hwait
      have hscript' : e.script = e'.script := String.toByteArray_inj.mp (hdigest hscript)
      have hwait' : e.waitMilliseconds = e'.waitMilliseconds := ofNat_injective hwait
      have hwaitFor' : e.waitFor = e'.waitFor := by
        cases hw : e.waitFor <;> cases hw' : e'.waitFor <;> simp_all [sortKeys]
      cases e
      cases e'
      simp_all

theorem browserValue_injective : Function.Injective BrowserHint.value := by
  intro b b' h
  cases b <;> cases b' <;> first | rfl | exact absurd h (by decide)

theorem jsonBody_of_canonicalBody {r r' : TransportRequest} (h : canonicalBody r = canonicalBody r')
    {v v' : Value} (hv : r.jsonBody = some v) (hv' : r'.jsonBody = some v') :
    sortKeys v = sortKeys v' := by
  unfold canonicalBody at h
  rw [hv, hv'] at h
  exact dumpsSorted_inj.mp (String.ofList_inj.mp (String.toByteArray_inj.mp h))

/-- **The key of an eligible request determines the exchange.** -/
theorem sameExchange_of_key (hdigest : Function.Injective digest) {r r' : TransportRequest}
    (h : (requestCacheIdentity python digest r).eligible = true)
    (h' : (requestCacheIdentity python digest r').eligible = true)
    (hkey : (requestCacheIdentity python digest r).key = (requestCacheIdentity python digest r').key) :
    SameExchange python r r' := by
  obtain ⟨t, ht⟩ := Option.isSome_iff_exists.mp (Bool.and_eq_true_iff.mp h).1
  obtain ⟨t', ht'⟩ := Option.isSome_iff_exists.mp (Bool.and_eq_true_iff.mp h').1
  have htext : dumpsSorted (.object (identityValue python digest r)) =
      dumpsSorted (.object (identityValue python digest r')) :=
    String.ofList_inj.mp (String.toByteArray_inj.mp (hdigest hkey))
  have hlookup := lookup_of_sortKeys (dumpsSorted_inj.mp htext) (nodup_identityValue r)
  have hmethod := hlookup "method"
  have hurl := hlookup "url"
  have hquery := hlookup "query"
  have hheaders := hlookup "headers"
  have hbody := hlookup "body"
  have hbrowser := hlookup "browser"
  have hevaluation := hlookup "evaluation"
  simp only [identityValue, ht, ht', List.lookup_cons, String.reduceBEq, Option.map_some,
    Option.some.injEq, Option.getD_some] at hmethod hurl hquery hheaders hbody hbrowser hevaluation
  have hstring : ∀ {a b : String}, sortKeys (.string a) = sortKeys (.string b) → a = b := by
    intro a b hab
    simpa [sortKeys] using hab
  obtain ⟨hscheme, hhost, hport, hpath⟩ := RequestTarget.url_inj (wellFormed_of_requestTarget ht)
    (wellFormed_of_requestTarget ht') (String.ofList_inj.mp (hstring hurl))
  have hsorted : t.normalizedQuery = t'.normalizedQuery := queryValue_injective hquery
  refine ⟨hstring hmethod, ⟨t, t', ht, ht', hscheme, hhost, hport, hpath, ?_⟩,
    hdigest (hstring hbody),
    fun v hv v' hv' => jsonBody_of_canonicalBody (hdigest (hstring hbody)) hv hv',
    browserValue_injective (hstring hbrowser),
    evaluationValue_injective hdigest hevaluation, fun name hname => ?_⟩
  · have hperm : t'.normalizedQuery.Perm t'.query := List.perm_insertionSort _ _
    rw [← hsorted] at hperm
    exact (List.perm_insertionSort _ _).symm.trans hperm
  · obtain ⟨hnodup, hlast⟩ := relevantHeaders_spec python r
    obtain ⟨-, hlast'⟩ := relevantHeaders_spec python r'
    have hvalue : ∀ hs : List (String × String),
        (hs.map fun h => (h.1, Value.string h.2)).lookup name = (hs.lookup name).map .string := by
      intro hs
      induction hs with
      | nil => rfl
      | cons e es ih =>
        rw [List.map_cons, List.lookup_cons, List.lookup_cons, ih]
        cases name == e.1 <;> rfl
    have hsame := lookup_of_sortKeys hheaders (by rwa [List.map_map]) name
    rw [hvalue, hvalue, hlast name hname, hlast' name hname, Option.map_map, Option.map_map] at hsame
    refine Option.map_injective (f := sortKeys ∘ Value.string) (fun a b hab => ?_) hsame
    exact hstring hab

end Keys

/-! ## Runs -/

section Runs

variable {ρ : Type*} {python : Python} {digest : ByteArray → String}

/-- **The invariant of the cache.**  An entry was written for an eligible request under its key,
only eligible requests reached the entries, and an answer was written for a request of the same
key. -/
structure ResponseCache.Separated (python : Python) (digest : ByteArray → String)
    (s : ResponseCache ρ) : Prop where
  entries : ∀ e ∈ s.entries, (requestCacheIdentity python digest e.2.writer).eligible = true ∧
    (requestCacheIdentity python digest e.2.writer).key = e.1
  accessed : ∀ r ∈ s.accessed, (requestCacheIdentity python digest r).eligible = true
  hits : ∀ hit ∈ s.hits, (requestCacheIdentity python digest hit.request).eligible = true ∧
    (requestCacheIdentity python digest hit.entry.writer).eligible = true ∧
    (requestCacheIdentity python digest hit.request).key =
      (requestCacheIdentity python digest hit.entry.writer).key

namespace ResponseCache

variable {s : ResponseCache ρ}

theorem Separated.write (hs : s.Separated python digest) (maximumEntries : Option ℕ)
    (hr : (requestCacheIdentity python digest r).eligible = true) (response : ρ) :
    (s.write maximumEntries (requestCacheIdentity python digest r) r response).Separated
      python digest where
  entries e he := by
    rcases mem_setEntry.mp he with rfl | ⟨-, hold⟩
    · exact ⟨hr, rfl⟩
    · split at hold
      · exact hs.entries e (List.mem_of_mem_tail hold)
      · exact hs.entries e hold
  accessed r' hr' := by
    rcases List.mem_cons.mp hr' with rfl | hold
    · exact hr
    · exact hs.accessed r' hold
  hits := hs.hits

theorem Separated.getWithStale (hs : s.Separated python digest) (r : TransportRequest)
    (readable : Bool) : (s.getWithStale python digest r readable).Separated python digest := by
  unfold ResponseCache.getWithStale
  dsimp only
  split
  · exact hs
  · rename_i hnot
    have hr : (requestCacheIdentity python digest r).eligible = true :=
      not_not.mp (not_or.mp hnot).1
    have haccessed : ∀ r' ∈ r :: s.accessed,
        (requestCacheIdentity python digest r').eligible = true := by
      intro r' hr'
      rcases List.mem_cons.mp hr' with rfl | hold
      · exact hr
      · exact hs.accessed r' hold
    cases hfound : s.entries.lookup (requestCacheIdentity python digest r).key with
    | none => exact ⟨hs.entries, haccessed, hs.hits⟩
    | some entry =>
      dsimp only
      split
      · obtain ⟨before, rest, hsplit, -⟩ := List.lookup_eq_some_iff.mp hfound
        have hmem : ((requestCacheIdentity python digest r).key, entry) ∈ s.entries :=
          hsplit ▸ List.mem_append_right _ (List.mem_cons_self ..)
        obtain ⟨hwriter, hkey⟩ := hs.entries _ hmem
        refine ⟨hs.entries, haccessed, fun hit hhit => ?_⟩
        rcases List.mem_cons.mp hhit with rfl | hold
        · exact ⟨hr, hwriter, hkey.symm⟩
        · exact hs.hits hit hold
      · exact ⟨hs.entries, haccessed, hs.hits⟩

/-- **An event keeps the entries apart.** -/
theorem Separated.step (hs : s.Separated python digest) (maximumEntries : Option ℕ)
    (event : CacheEvent ρ) :
    (s.step python digest maximumEntries event).Separated python digest := by
  cases event with
  | reads r readable =>
    unfold ResponseCache.step beforeAttempts
    dsimp only
    split
    · exact hs.getWithStale r readable
    · exact hs
  | writes r response =>
    unfold ResponseCache.step cachePut
    dsimp only
    split
    · split
      · rename_i hwritable
        exact hs.write maximumEntries (Bool.and_eq_true_iff.mp hwritable).1 response
      · exact hs
    · unfold put
      dsimp only
      split
      · exact hs
      · rename_i hnot
        exact hs.write maximumEntries (not_not.mp (not_or.mp hnot).1) response

end ResponseCache

/-- **A cached response is never shared by two exchanges.**  Equal keys of two eligible requests
mean the same exchange; in every run of any number of middlewares a response that the cache gives
was written for the same exchange, and no request with credentials reached an entry. -/
theorem cached_response_separated (python : Python) {digest : ByteArray → String}
    (hdigest : Function.Injective digest) (maximumEntries : Option ℕ) (events : List (CacheEvent ρ)) :
    (∀ r r', (requestCacheIdentity python digest r).eligible = true →
      (requestCacheIdentity python digest r').eligible = true →
      (requestCacheIdentity python digest r).key = (requestCacheIdentity python digest r').key →
      SameExchange python r r') ∧
    (∀ hit ∈ (cacheAfter python digest maximumEntries events).hits,
      SameExchange python hit.request hit.entry.writer) ∧
    ∀ r ∈ (cacheAfter python digest maximumEntries events).accessed, CredentialFree python r := by
  have hcreated : ({} : ResponseCache ρ).Separated python digest :=
    ⟨fun _ he => absurd he List.not_mem_nil, fun _ hr => absurd hr List.not_mem_nil,
      fun _ hhit => absurd hhit List.not_mem_nil⟩
  have hstep : ∀ (s : ResponseCache ρ) (event : CacheEvent ρ), s.Separated python digest →
      (s.step python digest maximumEntries event).Separated python digest :=
    fun _ event hs => hs.step maximumEntries event
  have hseparated : (cacheAfter python digest maximumEntries events).Separated python digest :=
    Trace.exec_invariant (ResponseCache.step python digest maximumEntries) hstep hcreated events
  refine ⟨?_, ?_, ?_⟩
  · intro r r' h h' hkey
    exact sameExchange_of_key hdigest h h' hkey
  · intro hit hhit
    obtain ⟨hrequest, hwriter, hkey⟩ := hseparated.hits hit hhit
    exact sameExchange_of_key hdigest hrequest hwriter hkey
  · intro r hr
    exact credentialFree_of_eligible (hseparated.accessed r hr)

end Runs

/-! ## A run of the code -/

/-- Python's library on ASCII texts without escapes. -/
def asciiPython : Python where
  casefold s := String.ofList (s.toList.map Char.toLower)
  upper s := String.ofList (s.toList.map Char.toUpper)
  lower host := host.map Char.toLower
  isalnum := Char.isAlphanum
  unquote part := part
  urlencode query := (query.flatMap fun q => '&' :: (q.1.toList ++ '=' :: q.2.toList)).tail
  checknetloc netloc := netloc.all fun c => c.isAlphanum || "-._~:@".toList.contains c
  idna host := if '/' ∈ host then none else some host
  idna_clean p _ host _ normalizedHost hn := by
    split at hn
    · cases hn
    · rename_i hclean
      exact Option.some.inj hn ▸ hclean

/-- The bytes of a text as its characters: a digest without collisions. -/
def plainDigest (bytes : ByteArray) : String :=
  String.ofList (bytes.data.toList.map fun b => Char.ofNat b.toNat)

theorem plainDigest_injective : Function.Injective plainDigest := by
  intro b b' h
  have hchar : Function.Injective fun c : UInt8 => Char.ofNat c.toNat := by
    have hvalue : ∀ n < 256, (Char.ofNat n).toNat = n := by decide +kernel
    intro c d hcd
    have hnat := congrArg Char.toNat hcd
    rw [hvalue _ (UInt8.toNat_lt c), hvalue _ (UInt8.toNat_lt d)] at hnat
    exact UInt8.toNat_inj.mp hnat
  have hlist := hchar.list_map (String.ofList_inj.mp h)
  exact ByteArray.ext (Array.toList_inj.mp hlist)

/-- A request with one header. -/
def withHeader (name value : String) : TransportRequest :=
  { url := "https://shop.test/data", headers := [(name, value)] }

/-- With a digest without collisions no two exchanges share a response. -/
theorem cached_response_separated_plain :
    let events : List (CacheEvent ℕ) := [.writes (withHeader "Accept" "text/html") 200,
      .reads (withHeader "Accept" "text/html") true, .reads (withHeader "Accept" "*/*") true]
    (∀ r r', (requestCacheIdentity asciiPython plainDigest r).eligible = true →
      (requestCacheIdentity asciiPython plainDigest r').eligible = true →
      (requestCacheIdentity asciiPython plainDigest r).key =
        (requestCacheIdentity asciiPython plainDigest r').key →
      SameExchange asciiPython r r') ∧
    (∀ hit ∈ (cacheAfter asciiPython plainDigest none events).hits,
      SameExchange asciiPython hit.request hit.entry.writer) ∧
    ∀ r ∈ (cacheAfter asciiPython plainDigest none events).accessed, CredentialFree asciiPython r :=
  cached_response_separated asciiPython plainDigest_injective none _

/-- A request with a header that is neither keyed nor named like a credential is eligible. -/
theorem eligible_withHeader {name : String} (hname : credentialName asciiPython name = false)
    (value : String) (digest : ByteArray → String) :
    (requestCacheIdentity asciiPython digest (withHeader name value)).eligible = true := by
  have htarget : (requestTarget asciiPython (withHeader name value)).isSome = true := by
    have hplain : requestTarget asciiPython (withHeader name value) =
        requestTarget asciiPython { url := "https://shop.test/data" } := rfl
    rw [hplain]
    decide +kernel
  have hheaders : ((withHeader name value).headers.any fun h => credentialName asciiPython h.1) =
      false := by simp [withHeader, hname]
  rw [requestCacheIdentity, htarget, hheaders]
  rfl

theorem key_withHeader {name : String}
    (hname : keyedRequestHeaders.contains (asciiPython.casefold name) = false) (value value' : String)
    (digest : ByteArray → String) :
    (requestCacheIdentity asciiPython digest (withHeader name value)).key =
      (requestCacheIdentity asciiPython digest (withHeader name value')).key := by
  have hnone : ∀ value, relevantHeaders asciiPython (withHeader name value) = [] := by
    intro value
    have hfilter : [(name, value)].filter
        (fun h => keyedRequestHeaders.contains (asciiPython.casefold h.1)) = [] := by
      simp only [List.filter_cons, hname, Bool.false_eq_true, ↓reduceIte, List.filter_nil]
    rw [relevantHeaders, withHeader, hfilter, List.foldl_nil]
  simp only [requestCacheIdentity, identityValue, hnone]
  rfl

theorem hits_of_key {python : Python} {digest : ByteArray → String} {r r' : TransportRequest}
    (hr : (requestCacheIdentity python digest r).eligible = true)
    (hr' : (requestCacheIdentity python digest r').eligible = true)
    (hkey : (requestCacheIdentity python digest r').key = (requestCacheIdentity python digest r).key)
    (hcache : r.cache = .default) (hcache' : r'.cache = .default) (response : ℕ) :
    (cacheAfter python digest none [.writes r response, .reads r' true] : ResponseCache ℕ).hits =
      [⟨r', ⟨r, response⟩⟩] := by
  simp [cacheAfter, Trace.exec, ResponseCache.step, ResponseCache.cachePut,
    ResponseCache.beforeAttempts, ResponseCache.getWithStale, ResponseCache.lookup,
    ResponseCache.write, setEntry, hcache, hcache', hr, hr', hkey]

/-- A response that was written for one agent answers the request of another, and the entries are
looked up for a request that carries a credential under a name of its own. -/
theorem cache_key_ignores_headers :
    (cacheAfter asciiPython plainDigest none [.writes (withHeader "User-Agent" "phone") 1,
      .reads (withHeader "User-Agent" "desktop") true] : ResponseCache ℕ).hits =
        [⟨withHeader "User-Agent" "desktop", ⟨withHeader "User-Agent" "phone", 1⟩⟩] ∧
    (cacheAfter asciiPython plainDigest none [.reads (withHeader "X-Auth" "secret") true] :
      ResponseCache ℕ).accessed = [withHeader "X-Auth" "secret"] := by
  have hagent : ∀ value, (requestCacheIdentity asciiPython plainDigest
      (withHeader "User-Agent" value)).eligible = true := fun value =>
    eligible_withHeader (by decide +kernel) value plainDigest
  have hauth : (requestCacheIdentity asciiPython plainDigest
      (withHeader "X-Auth" "secret")).eligible = true :=
    eligible_withHeader (by decide +kernel) _ plainDigest
  have hkey : (requestCacheIdentity asciiPython plainDigest (withHeader "User-Agent" "desktop")).key =
      (requestCacheIdentity asciiPython plainDigest (withHeader "User-Agent" "phone")).key :=
    key_withHeader (by decide +kernel) _ _ plainDigest
  constructor
  · exact hits_of_key (hagent _) (hagent _) hkey rfl rfl 1
  · have hdefault : (withHeader "X-Auth" "secret").cache = .default := rfl
    simp [cacheAfter, Trace.exec, ResponseCache.step, ResponseCache.beforeAttempts,
      ResponseCache.getWithStale, hdefault, hauth]

end CommerceCollector
