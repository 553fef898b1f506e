import CommerceCollector.Catalogue.ResponseArchive
import CommerceCollector.Transports.CacheKeys

/-!
# Replaying recorded responses

What a key says of a request: everything but a raw body, and the letters of the method of a
rendering. A response is replayed as it was put, if it comes from the host of the request with a
body of UTF-8; and no other file under the key is read, as long as no request is put there that
differs in what the key leaves out, and no one else leaves a file there that is neither an entry nor
unreadable.
-/

namespace CommerceCollector.ResponseArchive

open JsonText

variable {python : Python} {library : Library}

/-! ## Keys -/

/-- What is assumed of the parts of Python: a file that was written is read, a digest has no
collisions, and a status of HTTP is one. -/
structure Library.Lawful (library : Library) (python : Python) : Prop where
  load_dump : ∀ (q : Request python) (r : Response) (fetchedAt : Number),
    library.load (library.dump (Archive.cached library q r (.number fetchedAt)).toValue) =
      .value (Archive.cached library q r (.number fetchedAt)).toValue
  sha256 : Function.Injective library.sha256
  status : ∀ n, 100 ≤ n → n ≤ 599 → library.status (.number (.ofNat n)) = some n

/-- Two requests agree, up to their methods and their raw bodies. -/
structure Alike (q q' : Request python) : Prop where
  url : q.url = q'.url
  query : sortKeys (params q.query) = sortKeys (params q'.query)
  jsonBody : q.jsonBody.map sortKeys = q'.jsonBody.map sortKeys
  browser : q.browser = .required ↔ q'.browser = .required
  agent : hasUserAgent python q.headers = hasUserAgent python q'.headers
  evaluation : q.evaluation = q'.evaluation

/-- Two requests agree in their method, URL, query, body and use of a browser, and in the presence
of a user agent. -/
structure Agree (q q' : Request python) : Prop where
  alike : Alike q q'
  method : q.method = q'.method
  body : q.body = q'.body

/-- A rendering or an evaluation; its method is `GET`, in some letters. -/
def Rendered (q : Request python) : Prop := q.evaluation.isSome ∨ isSimpleRender q = true

/-- Two requests with the same key. -/
structure SameKey (q q' : Request python) : Prop where
  alike : Alike q q'
  render : isSimpleRender q = isSimpleRender q'
  method : q.method = q'.method ∨ Rendered q ∧ Rendered q'

theorem toUTF8_injective : Function.Injective String.toUTF8 := fun _ _ h => String.toByteArray_inj.mp h

theorem archiveKey_inj (hsha : Function.Injective library.sha256) {kind kind' url url' : String}
    {parts parts' : List (String × Value)}
    (h : archiveKey library kind url parts = archiveKey library kind' url' parts') :
    kind = kind' ∧ url = url' ∧ sortKeys (.object parts) = sortKeys (.object parts') := by
  have hvalue := dumpsDefault_injective (String.ofList_injective (toUTF8_injective (hsha h)))
  simp only [sortKeys.eq_5, sortItems_eq, List.map_cons, List.map_nil, Value.array.injEq,
    List.cons.injEq, and_true] at hvalue
  obtain ⟨hkind, hurl, hparts⟩ := hvalue
  rw [sortKeys, sortKeys] at hkind hurl
  exact ⟨Value.string.inj hkind, Value.string.inj hurl, hparts⟩

/-- The method, the parameters, the body and the agent of a key determine those of the request. -/
theorem parts_inj {method method' : String} {query query' body body' : Value} {agent agent' : Bool}
    (h : sortKeys (.object [("method", .string method), ("params", query), ("body", body),
        ("agent", .bool agent)]) =
      sortKeys (.object [("method", .string method'), ("params", query'), ("body", body'),
        ("agent", .bool agent')])) :
    method = method' ∧ sortKeys query = sortKeys query' ∧ sortKeys body = sortKeys body' ∧
      agent = agent' := by
  have hentry := lookup_of_sortKeys h (by simp)
  have hmethod : some (sortKeys (.string method)) = some (sortKeys (.string method')) :=
    hentry "method"
  have hquery : some (sortKeys query) = some (sortKeys query') := hentry "params"
  have hbody : some (sortKeys body) = some (sortKeys body') := hentry "body"
  have hagent : some (sortKeys (.bool agent)) = some (sortKeys (.bool agent')) := hentry "agent"
  simp only [sortKeys, Option.some.injEq, Value.string.injEq, Value.bool.injEq] at hmethod hagent
  exact ⟨hmethod, Option.some.inj hquery, Option.some.inj hbody, hagent⟩

variable {q : Request python}

theorem isSimpleRender_iff : isSimpleRender q = true ↔
    q.browser = .required ∧ python.upper q.method = "GET" ∧ q.query = [] ∧ q.headers = [] ∧
      q.jsonBody = none ∧ q.body = none ∧ q.evaluation = none := by
  simp [isSimpleRender, and_assoc]

theorem isSimpleRender_of_evaluation (h : q.evaluation.isSome) : isSimpleRender q = false := by
  rw [Bool.eq_false_iff]
  intro hrender
  rw [(isSimpleRender_iff.mp hrender).2.2.2.2.2.2] at h
  cases h

theorem jsonBody_inj {q q' : Request python}
    (h : sortKeys (q.jsonBody.getD .null) = sortKeys (q'.jsonBody.getD .null)) :
    q.jsonBody.map sortKeys = q'.jsonBody.map sortKeys := by
  have hnull : ∀ v : Value, sortKeys v = .null → v = .null := by
    intro v hv
    cases v <;> simp [sortKeys] at hv ⊢
  cases hq : q.jsonBody with
  | none =>
    cases hq' : q'.jsonBody with
    | none => rfl
    | some v' =>
      rw [hq, hq', Option.getD_none, Option.getD_some, sortKeys] at h
      exact absurd (hnull v' h.symm) (q'.jsonBody_ok v' hq')
  | some v =>
    cases hq' : q'.jsonBody with
    | none =>
      rw [hq, hq', Option.getD_none, Option.getD_some] at h
      exact absurd (hnull v (h.trans sortKeys.eq_1)) (q.jsonBody_ok v hq)
    | some v' =>
      rw [hq, hq', Option.getD_some, Option.getD_some] at h
      rw [Option.map_some, Option.map_some, h]

/-- The kind of a request without a script, which is no simple rendering. -/
theorem kind_plain (hnone : q.evaluation = none) (hrender : ¬isSimpleRender q = true) :
    kind q = if q.browser = .required then "browser_request" else "http" := by
  simp [kind, hnone, hrender]

theorem kind_plain_ne (hnone : q.evaluation = none)
    (hrender : ¬isSimpleRender q = true) : kind q ≠ "browser_evaluation" ∧ kind q ≠ "render" := by
  rw [kind_plain hnone hrender]
  split <;> decide

/-- **The key of a request determines it**, up to its raw body, the letters of the method of a
rendering, and the headers other than the user agent. -/
theorem key_inj (hsha : Function.Injective library.sha256) {q q' : Request python}
    (h : key library q = key library q') : SameKey q q' := by
  unfold key at h
  cases he : q.evaluation with
  | some e =>
    have hsome : q.evaluation.isSome := by simp [he]
    obtain ⟨hbrowser, -, hquery, hheaders, hjson, hbody⟩ := q.evaluation_ok e he
    cases he' : q'.evaluation with
    | some e' =>
      have hsome' : q'.evaluation.isSome := by simp [he']
      obtain ⟨hbrowser', -, hquery', hheaders', hjson', hbody'⟩ := q'.evaluation_ok e' he'
      rw [he, he'] at h
      obtain ⟨-, hurl, hparts⟩ := archiveKey_inj hsha h
      have hsame : some e = some e' := evaluationValue_injective hsha hparts
      refine ⟨⟨hurl, by rw [hquery, hquery'], by rw [hjson, hjson'], by simp [hbrowser, hbrowser'],
        by rw [hheaders, hheaders'], by rw [he, he', hsame]⟩, ?_, .inr ⟨.inl hsome, .inl hsome'⟩⟩
      rw [isSimpleRender_of_evaluation hsome, isSimpleRender_of_evaluation hsome']
    | none =>
      rw [he, he'] at h
      dsimp only at h
      split at h
      · exact absurd (archiveKey_inj hsha h).1 (by decide)
      · rename_i hrender
        exact absurd (archiveKey_inj hsha h).1.symm (kind_plain_ne he' hrender).1
  | none =>
    cases he' : q'.evaluation with
    | some e' =>
      rw [he, he'] at h
      dsimp only at h
      split at h
      · exact absurd (archiveKey_inj hsha h).1 (by decide)
      · rename_i hrender
        exact absurd (archiveKey_inj hsha h).1 (kind_plain_ne he hrender).1
    | none =>
      rw [he, he'] at h
      dsimp only at h
      split at h
      · rename_i hrender
        obtain ⟨hbrowser, -, hquery, hheaders, hjson, -, -⟩ := isSimpleRender_iff.mp hrender
        split at h
        · rename_i hrender'
          obtain ⟨hbrowser', -, hquery', hheaders', hjson', -, -⟩ := isSimpleRender_iff.mp hrender'
          obtain ⟨-, hurl, -⟩ := archiveKey_inj hsha h
          exact ⟨⟨hurl, by rw [hquery, hquery'], by rw [hjson, hjson'], by simp [hbrowser, hbrowser'],
            by rw [hheaders, hheaders'], he.trans he'.symm⟩, hrender.trans hrender'.symm,
            .inr ⟨.inr hrender, .inr hrender'⟩⟩
        · rename_i hrender'
          exact absurd (archiveKey_inj hsha h).1.symm (kind_plain_ne he' hrender').2
      · rename_i hrender
        split at h
        · exact absurd (archiveKey_inj hsha h).1 (kind_plain_ne he hrender).2
        · rename_i hrender'
          obtain ⟨hkind, hurl, hparts⟩ := archiveKey_inj hsha h
          obtain ⟨hmethod, hquery, hjson, hagent⟩ := parts_inj hparts
          have hbrowser : q.browser = .required ↔ q'.browser = .required := by
            rw [kind_plain he hrender, kind_plain he' hrender'] at hkind
            by_cases hb : q.browser = .required <;> by_cases hb' : q'.browser = .required <;>
              simp [hb, hb'] at hkind ⊢
          exact ⟨⟨hurl, hquery, jsonBody_inj hjson, hbrowser, hagent, he.trans he'.symm⟩,
            by simp [hrender, hrender'], .inl hmethod⟩

/-! ## The property and the condition -/

/-- The path from which a request is read, if its URL can be split. -/
def pathOf (library : Library) (q : Request python) : Option Path :=
  (host python q.url).map fun host => (host, key library q)

/-- The event leaves the recorded response of a request alone: it puts none for a request that
agrees with it, and no one else changes the file from which it is read. -/
def Event.Spares (library : Library) (q : Request python) : Event python → Prop
  | .get _ _ => True
  | .put q' _ _ => ¬Agree q' q
  | .alters path _ => pathOf library q ≠ some path

/-- What a request gets from the archive, at a moment. -/
def answer (library : Library) (config : Config) (older : ℚ → Value → Bool) (s : Archive)
    (q : Request python) :
    Except ArchiveError (Option (ℕ × List (String × String) × ByteArray × String)) :=
  (s.get library config older q).2

/-- Recorded responses replay exactly: a response that was put is what a request gets, as long as
none is put for the same request; one that is put for a request that differs changes nothing; and no
file makes a request with a URL that can be split raise anything but the failure of a replay. -/
structure Recorded (library : Library) (config : Config) (files : Path → Option ByteArray)
    (q : Request python) (events : List (Event python)) : Prop where
  replays : ∀ before r fetchedAt rest, events = before ++ .put q r fetchedAt :: rest →
    (∀ e ∈ rest, e.Spares library q) → q.cache = .default →
    config.mode = .auto ∧ config.maxAge = none ∨ config.mode = .replay →
    ∀ older, answer library config older (archiveAfter library config files events) q =
      .ok (some r.parts)
  separate : ∀ before q' r fetchedAt rest, events = before ++ .put q' r fetchedAt :: rest →
    ¬Agree q' q → ∀ older,
      answer library config older (archiveAfter library config files (before ++ [.put q' r fetchedAt]))
          q =
        answer library config older (archiveAfter library config files before) q
  raises : ∀ before, before <+: events → ∀ older error,
    answer library config older (archiveAfter library config files before) q = .error error →
      (error = .unavailable ∧ config.mode = .replay) ∨ host python q.url = none

/-- A response that a request gets back: it comes from the host of the request, and its body is
UTF-8. An empty URL is read as that of the request. -/
structure Faithful (q : Request python) (r : Response) : Prop where
  host : ∃ h, host python r.finalUrl = some h ∧ host python q.url = some h
  content : r.content.IsValidUTF8
  url : r.finalUrl = "" → q.url = ""

/-- A value that counts as a number to Python. -/
def Numeric : Value → Prop
  | .number _ | .bool _ => True
  | _ => False

/-- A file that can be read for a request, or that counts as none. -/
def Legible (library : Library) (config : Config) (q : Request python) (bytes : ByteArray) : Prop :=
  match library.load bytes with
  | .unreadable => True
  | .fails _ => False
  | .value stored => ∃ entry, CachedResponse.ofValue? stored = some entry ∧
      (response library q entry).isSome ∧ (config.maxAge.isSome → Numeric entry.fetchedAt)

/-- The condition on an event: a response for the request is faithful, where it may be replayed; one
under its key for a request that differs comes from another host; and a file that someone else
leaves is legible. -/
def Event.Fits (library : Library) (config : Config) (q : Request python) : Event python → Prop
  | .get _ _ => True
  | .put q' r _ => (q' = q → config.maxAge = none → Faithful q r) ∧
      (q'.cache = .default → SameKey q' q → ¬Agree q' q →
        ∀ h, host python r.finalUrl = some h → host python q.url ≠ some h)
  | .alters path content => pathOf library q = some path →
      ∀ bytes ∈ content, Legible library config q bytes

/-- The condition on a run: a replay has no maximum age, the file of the request is legible at
first, and every event fits. -/
structure Fitting (library : Library) (config : Config) (files : Path → Option ByteArray)
    (q : Request python) (events : List (Event python)) : Prop where
  age : config.mode = .replay → config.maxAge = none
  files : ∀ path bytes, pathOf library q = some path → files path = some bytes →
    Legible library config q bytes
  events : ∀ e ∈ events, e.Fits library config q

/-- The request reads the archive. -/
def Reads (config : Config) (q : Request python) : Prop :=
  q.cache = .default ∧ (config.mode = .auto ∨ config.mode = .replay)

/-! ## Files -/

theorem get_files (config : Config) (older : ℚ → Value → Bool) (s : Archive) (q : Request python) :
    (s.get library config older q).1.files = s.files := by
  have hread : ∀ key url, (s.read library python config older key url).1.files = s.files := by
    intro key url
    unfold Archive.read
    repeat' split
    all_goals rfl
  unfold Archive.get
  split
  · rfl
  · have h := hread (key library q) q.url
    split
    all_goals
      rename_i heq
      rw [heq] at h
    · exact h
    · exact h
    · split <;> exact h

variable {config : Config} {older : ℚ → Value → Bool}

theorem answer_congr {s s' : Archive}
    (h : ∀ path, pathOf library q = some path → s.files path = s'.files path) :
    answer library config older s q = answer library config older s' q := by
  have hread : (s.read library python config older (key library q) q.url).2 =
      (s'.read library python config older (key library q) q.url).2 := by
    unfold Archive.read
    split
    · rfl
    · cases hhost : host python q.url with
      | none => rfl
      | some host =>
        have hfile := h (host, key library q) (by simp [pathOf, hhost])
        dsimp only
        rw [hfile]
        repeat' split
        all_goals rfl
  unfold answer Archive.get
  split
  · rfl
  · cases hs : s.read library python config older (key library q) q.url with
    | mk t result =>
      cases hs' : s'.read library python config older (key library q) q.url with
      | mk t' result' =>
        rw [hs, hs'] at hread
        obtain rfl : result = result' := hread
        cases result with
        | error error => rfl
        | ok found =>
          cases found with
          | none => rfl
          | some entry =>
            dsimp only
            split <;> rfl

theorem put_files (config : Config) (s : Archive) (q' : Request python) (r : Response)
    (fetchedAt : Value) (path : Path) :
    (s.put library config q' r fetchedAt).files path =
      if q'.cache = .default ∧ config.mode ≠ .off ∧
          (host python r.finalUrl).map (·, key library q') = some path then
        some (library.dump (Archive.cached library q' r fetchedAt).toValue)
      else s.files path := by
  unfold Archive.put Archive.write
  by_cases hcache : q'.cache = .default
  · by_cases hmode : config.mode = .off
    · simp [hcache, hmode]
    · cases hhost : host python r.finalUrl with
      | none => simp [hcache, hmode]
      | some h =>
        by_cases hpath : path = (h, key library q')
        · simp [hcache, hmode, hpath]
        · simp [hcache, hmode, hpath, Ne.symm hpath]
  · simp [hcache]

/-! ## Entries -/

theorem ofValue_toValue (entry : CachedResponse) :
    CachedResponse.ofValue? entry.toValue = some entry := by
  simp [CachedResponse.toValue, CachedResponse.ofValue?, List.lookup_cons]

theorem texts_map (headers : List (String × String)) :
    texts (headers.map fun h => (h.1, .string h.2)) = some headers := by
  induction headers with
  | nil => rfl
  | cons h headers ih =>
    rw [List.map_cons, texts, ih]
    rfl

theorem decode_toUTF8 {content : ByteArray} (h : content.IsValidUTF8) :
    (library.decode content).toUTF8 = content := by
  rw [Library.decode, dif_pos h]
  rfl

theorem response_cached (hlaw : library.Lawful python) (q q' : Request python) (r : Response)
    (fetchedAt : Value) :
    response library q (Archive.cached library q' r fetchedAt) =
      some (r.status, r.headers, (library.decode r.content).toUTF8,
        if r.finalUrl = "" then q.url else r.finalUrl) := by
  have hstatus := hlaw.status r.status r.status_ok.1 r.status_ok.2
  unfold response Archive.cached
  dsimp only
  rw [hstatus, texts_map]
  by_cases hurl : r.finalUrl = ""
  · simp [hurl, falsy]
  · have hfalsy : falsy library (.string r.finalUrl) = false := by
      unfold falsy
      split <;> simp_all
    simp [hurl, hfalsy]

theorem legible_cached (hlaw : library.Lawful python) (config : Config) (q q' : Request python)
    (r : Response) (fetchedAt : Number) :
    Legible library config q
      (library.dump (Archive.cached library q' r (.number fetchedAt)).toValue) := by
  unfold Legible
  rw [hlaw.load_dump]
  exact ⟨_, ofValue_toValue _, by rw [response_cached hlaw]; rfl, fun _ => trivial⟩

variable {s : Archive}

/-- What reading a legible file comes to: nothing, or an entry that makes a response. -/
theorem read_legible (older : ℚ → Value → Bool)
    (hlegible : ∀ path bytes, pathOf library q = some path → s.files path = some bytes →
      Legible library config q bytes) (hhost : host python q.url ≠ none) :
    ∃ found, (s.read library python config older (key library q) q.url).2 = .ok found ∧
      ∀ entry ∈ found, (response library q entry).isSome := by
  unfold Archive.read
  split
  · exact ⟨none, rfl, nofun⟩
  · obtain ⟨h, hh⟩ := Option.ne_none_iff_exists'.mp hhost
    have hpath : pathOf library q = some (h, key library q) := by simp [pathOf, hh]
    rw [hh]
    dsimp only
    split
    · exact ⟨none, rfl, nofun⟩
    · rename_i bytes hbytes
      have hfile := hlegible _ bytes hpath hbytes
      unfold Legible at hfile
      split
      · exact ⟨none, rfl, nofun⟩
      · rename_i error hfails
        rw [hfails] at hfile
        exact hfile.elim
      · rename_i stored hstored
        rw [hstored] at hfile
        obtain ⟨entry, hentry, hresponse, htimed⟩ := hfile
        rw [hentry]
        dsimp only
        have hold : ∃ old, (config.maxAge.map fun maxAge =>
            isOld older maxAge entry.fetchedAt).getD (.ok false) = .ok old := by
          cases hage : config.maxAge with
          | none => exact ⟨false, rfl⟩
          | some maxAge =>
            have hnumeric := htimed (by simp [hage])
            unfold Numeric at hnumeric
            split at hnumeric
            · rename_i hnumber
              exact ⟨_, by rw [hnumber]; rfl⟩
            · rename_i hbool
              exact ⟨_, by rw [hbool]; rfl⟩
            · exact hnumeric.elim
        obtain ⟨old, hold⟩ := hold
        rw [hold]
        cases old with
        | true => exact ⟨none, rfl, nofun⟩
        | false =>
          refine ⟨some entry, rfl, fun e he => ?_⟩
          cases he
          exact hresponse

theorem answer_error {error : ArchiveError}
    (hlegible : ∀ path bytes, pathOf library q = some path → s.files path = some bytes →
      Legible library config q bytes) (herror : answer library config older s q = .error error) :
    (error = .unavailable ∧ config.mode = .replay) ∨ host python q.url = none := by
  by_cases hhost : host python q.url = none
  · exact .inr hhost
  · refine .inl ?_
    obtain ⟨found, hfound, hresponse⟩ := read_legible older hlegible hhost
    unfold answer Archive.get at herror
    cases hread : s.read library python config older (key library q) q.url with
    | mk t result =>
      rw [hread] at hfound herror
      obtain rfl : result = .ok found := hfound
      split at herror
      · cases herror
      · cases found with
        | none =>
          dsimp only at herror
          split at herror
          · rename_i hreplay
            cases herror
            exact ⟨rfl, hreplay⟩
          · cases herror
        | some entry =>
          obtain ⟨parts, hparts⟩ := Option.isSome_iff_exists.mp (hresponse entry rfl)
          dsimp only at herror
          rw [hparts] at herror
          cases herror

section

variable (hlaw : library.Lawful python)

include hlaw

/-- **A faithful response is replayed** right after it was put. -/
theorem answer_put (s : Archive) {r : Response} (fetchedAt : Number)
    (older : ℚ → Value → Bool) (hreads : Reads config q) (hage : config.maxAge = none)
    (hfaithful : Faithful q r) :
    answer library config older (s.put library config q r (.number fetchedAt)) q =
      .ok (some r.parts) := by
  obtain ⟨h, hfinal, hhost⟩ := hfaithful.host
  have hon : config.mode ≠ .off ∧ config.mode ≠ .refresh := by
    rcases hreads.2 with hmode | hmode <;> simp [hmode]
  have hfile : (s.put library config q r (.number fetchedAt)).files (h, key library q) =
      some (library.dump (Archive.cached library q r (.number fetchedAt)).toValue) := by
    rw [put_files, if_pos ⟨hreads.1, hon.1, by simp [hfinal]⟩]
  have hurl : (if r.finalUrl = "" then q.url else r.finalUrl) = r.finalUrl := by
    split
    · rename_i hempty
      rw [hempty, hfaithful.url hempty]
    · rfl
  unfold answer Archive.get Archive.read
  simp [hreads.1, hon, hhost, hfile, hlaw.load_dump, ofValue_toValue, hage, response_cached hlaw, hurl,
    Response.parts]
  exact decode_toUTF8 hfaithful.content

/-! ## Runs -/

/-- A response for a request that differs leaves the file of the request alone. -/
theorem put_other (s : Archive) {q q' : Request python}
    {r : Response} (fetchedAt : Number) (hfits : (Event.put q' r fetchedAt).Fits library config q)
    (hdiffers : ¬Agree q' q) {path : Path} (hpath : pathOf library q = some path) :
    (s.put library config q' r (.number fetchedAt)).files path = s.files path := by
  rw [put_files, if_neg]
  rintro ⟨hcache, -, hsame⟩
  obtain ⟨h, hh, rfl⟩ := Option.map_eq_some_iff.mp hpath
  obtain ⟨h', hh', hpair⟩ := Option.map_eq_some_iff.mp hsame
  obtain ⟨rfl, hkey⟩ := Prod.mk.inj hpair
  exact hfits.2 hcache (key_inj hlaw.sha256 hkey) hdiffers _ hh' hh

theorem step_spares (s : Archive) {e : Event python}
    (hfits : e.Fits library config q) (hspares : e.Spares library q) :
    answer library config older (s.step library config e) q = answer library config older s q := by
  refine answer_congr fun path hpath => ?_
  cases e with
  | get q' older' => exact congrFun (get_files config older' s q') path
  | put q' r fetchedAt => exact put_other hlaw s fetchedAt hfits hspares hpath
  | alters path' content =>
    have hne : path ≠ path' := by
      rintro rfl
      exact hspares hpath
    exact Function.update_of_ne hne _ _

theorem step_legible {e : Event python}
    (hfits : e.Fits library config q)
    (h : ∀ path bytes, pathOf library q = some path → s.files path = some bytes →
      Legible library config q bytes) :
    ∀ path bytes, pathOf library q = some path →
      (s.step library config e).files path = some bytes → Legible library config q bytes := by
  intro path bytes hpath hbytes
  cases e with
  | get q' older =>
    rw [Archive.step, get_files] at hbytes
    exact h path bytes hpath hbytes
  | put q' r fetchedAt =>
    rw [Archive.step, put_files] at hbytes
    split at hbytes
    · cases hbytes
      exact legible_cached hlaw config q q' r fetchedAt
    · exact h path bytes hpath hbytes
  | alters path' content =>
    by_cases hsame : path = path'
    · subst hsame
      have hcontent : (Function.update s.files path content) path = some bytes := hbytes
      rw [Function.update_self] at hcontent
      exact hfits hpath bytes hcontent
    · have hcontent : (Function.update s.files path' content) path = some bytes := hbytes
      rw [Function.update_of_ne hsame] at hcontent
      exact h path bytes hpath hcontent

end

theorem answer_of_not_reads (hreads : ¬Reads config q) (older : ℚ → Value → Bool) (s : Archive) :
    answer library config older s q = .ok none := by
  unfold answer Archive.get Archive.read
  by_cases hcache : q.cache = .default
  · have hmode : config.mode = .off ∨ config.mode = .refresh := by
      cases hmode : config.mode <;> simp [Reads, hcache, hmode] at hreads ⊢
    rcases hmode with hmode | hmode <;> simp [hcache, hmode]
  · simp [hcache]

open Classical in
/-- Files of plain JSON, which are read by what they were written from. -/
noncomputable def plainLibrary : Library where
  dump v := (String.ofList (dumpsDefault v)).toUTF8
  load bytes :=
    if h : ∃ v, (String.ofList (dumpsDefault v)).toUTF8 = bytes then .value h.choose else .unreadable
  sha256 := plainDigest
  replaced _ := "\uFFFD"
  isZero n := n.text == ['0']
  status
    | .number n =>
      let status := Nat.ofDigitChars 10 n.text 0
      if 100 ≤ status ∧ status ≤ 599 then some status else none
    | _ => none

theorem plainLibrary_lawful : plainLibrary.Lawful asciiPython where
  load_dump q r fetchedAt := by
    have hexists : ∃ v, (String.ofList (dumpsDefault v)).toUTF8 =
        plainLibrary.dump (Archive.cached plainLibrary q r (.number fetchedAt)).toValue :=
      ⟨_, rfl⟩
    have hchosen := dumpsDefault_injective
      (String.ofList_injective (toUTF8_injective hexists.choose_spec))
    simp only [plainLibrary] at hexists hchosen ⊢
    rw [dif_pos hexists, hchosen]
  sha256 := plainDigest_injective
  status n hlow hhigh := by
    simp [plainLibrary, Number.ofNat, hlow, hhigh]

/-- A page of a shop is asked for. -/
def pageRequest (url : String) : Request asciiPython where
  url
  evaluation_ok := by simp
  jsonBody_ok := by simp

/-- A page comes from a URL. -/
def page (finalUrl : String) : Response where
  status := 200
  headers := [("content-type", "text/html")]
  content := "<html>".toUTF8
  finalUrl
  status_ok := by decide
  headers_ok := by decide

theorem shop_host : host asciiPython "https://shop.example/cups" = some "shop.example".toList := by
  decide +kernel

/-- A request whose file is missing gets nothing from an archive that replays no run. -/
theorem answer_missing (older : ℚ → Value → Bool) (hmode : config.mode ≠ .replay) {path : Path}
    (hpath : pathOf library q = some path) (hmissing : s.files path = none) :
    answer library config older s q = .ok none := by
  obtain ⟨h, hh, rfl⟩ := Option.map_eq_some_iff.mp hpath
  unfold answer Archive.get Archive.read
  by_cases hcache : q.cache = .default
  · by_cases hoff : config.mode = .off ∨ config.mode = .refresh
    · simp [hcache, hoff, hmode]
    · simp [hcache, hoff, hmode, hh, hmissing]
  · simp [hcache]

end CommerceCollector.ResponseArchive
