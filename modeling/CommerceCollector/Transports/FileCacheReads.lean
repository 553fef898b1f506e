import CommerceCollector.Transports.FileCache
import Mathlib.Data.Nat.Cast.Order.Ring

/-!
# What a file answers

A file that the cache wrote is a miss or answers with the status, the body and the safe headers of
its response.  Over a run of puts and gets, with files that are damaged or removed between them, the
file of a key is the one of the last response for the key that the cache took, or corrupt, or none;
hence a get that returns answers with nothing, or with this response.
-/

namespace CommerceCollector.FileCache

open JsonText

/-! ## Headers -/

theorem safeHeaders_spec (python : Python) (headers : List (String × String)) :
    ((safeHeaders python headers).map Prod.fst).Nodup ∧
      ∀ h ∈ safeHeaders python headers, h.1 ∈ safeResponseHeaders := by
  unfold safeHeaders
  induction headers using List.reverseRecOn with
  | nil => exact ⟨List.nodup_nil, fun _ h => absurd h List.not_mem_nil⟩
  | append_singleton hs h ih =>
    obtain ⟨hnodup, hsafe⟩ := ih
    rw [List.filter_append, List.foldl_append]
    by_cases hkept : safeResponseHeaders.contains (python.casefold h.1) = true
    · simp only [List.filter_cons, hkept, ↓reduceIte, List.filter_nil, List.foldl_cons,
        List.foldl_nil]
      refine ⟨nodup_setEntry hnodup _ _, fun e he => ?_⟩
      rcases mem_setEntry.mp he with rfl | ⟨-, he⟩
      · exact List.contains_iff_mem.mp hkept
      · exact hsafe e he
    · simp only [List.filter_cons, hkept, Bool.false_eq_true, ↓reduceIte, List.filter_nil,
        List.foldl_nil]
      exact ⟨hnodup, hsafe⟩

theorem lookup_safeHeaders {python : Python}
    (hcasefold : ∀ name ∈ safeResponseHeaders, python.casefold name = name)
    {headers : List (String × String)} (hnodup : (headers.map Prod.fst).Nodup)
    (hsafe : ∀ h ∈ headers, h.1 ∈ safeResponseHeaders) (name : String) :
    (safeHeaders python headers).lookup name = headers.lookup name := by
  have hsame : ∀ h ∈ headers, python.casefold h.1 = h.1 := fun h hh => hcasefold _ (hsafe h hh)
  refine Option.ext fun v => ?_
  rw [lookup_of_mem (safeHeaders_spec python headers).1, lookup_of_mem hnodup]
  unfold safeHeaders
  rw [List.filter_eq_self.mpr fun h hh =>
    List.contains_iff_mem.mpr ((hsame h hh).symm ▸ hsafe h hh)]
  clear hsafe
  induction headers using List.reverseRecOn with
  | nil => exact Iff.rfl
  | append_singleton hs h ih =>
    rw [List.map_append, List.nodup_append] at hnodup
    obtain ⟨hnodup, -, hnew⟩ := hnodup
    have ih := ih hnodup fun e he => hsame e (List.mem_append_left _ he)
    rw [List.foldl_append, List.foldl_cons, List.foldl_nil, mem_setEntry, ih, List.mem_append,
      List.mem_singleton, hsame h (List.mem_append_right _ (List.mem_singleton_self h)), Prod.mk.eta]
    constructor
    · rintro (he | ⟨-, he⟩)
      · exact .inr he
      · exact .inl he
    · rintro (he | he)
      · refine .inr ⟨fun heq => ?_, he⟩
        exact hnew _ (List.mem_map_of_mem he) h.1 (by simp) heq
      · exact .inl he

theorem texts_map (headers : List (String × String)) :
    texts (headers.map fun h => (h.1, .string h.2)) = some headers := by
  induction headers with
  | nil => rfl
  | cons h headers ih => rw [List.map_cons, texts, ih, Option.map_some, Prod.mk.eta]

theorem statusOf_ofNat {status : ℕ} (h : 100 ≤ status ∧ status ≤ 599) :
    statusOf (.ofNat status) = some status := by
  have hdigits : (Number.ofNat status).text.all Char.isDigit = true :=
    List.all_eq_true.mpr fun c hc => Nat.isDigit_of_mem_toDigits (by decide) (by decide) hc
  have hvalue : Nat.ofDigitChars 10 (Number.ofNat status).text 0 = status :=
    Nat.ofDigitChars_ten_toDigits
  rw [statusOf, if_pos hdigits, hvalue]
  exact if_pos h

/-! ## One file -/

/-- A response answers for another one: the status, the body and the safe headers are the same. -/
structure Answers (python : Python) (hit response : TransportResponse) : Prop where
  status : hit.status = response.status
  content : hit.content = response.content
  headers : ∀ name, hit.headers.lookup name = (safeHeaders python response.headers).lookup name

section Reads

variable {python : Python} {τ : Type*} (library : Library python τ) (settings : Settings)

theorem readResponse_payload
    (hcasefold : ∀ name ∈ safeResponseHeaders, python.casefold name = name)
    (response : TransportResponse) {url : String} (hurl : url.length ≤ 2048)
    (hcontent : response.content.length ≤ settings.maximumResponseBytes)
    {headers : List (String × String)}
    (hheaders : headers.Perm (safeHeaders python response.headers)) :
    ∃ hit, readResponse python settings (.number (.ofNat response.status))
        (.object (headers.map fun h => (h.1, .string h.2))) (.string url)
        (.string (String.ofList (Base64.encodeStandard response.content))) = some hit ∧
      Answers python hit response := by
  obtain ⟨hnodup, hsafe⟩ := safeHeaders_spec python response.headers
  have hstatus := statusOf_ofNat response.status_ok
  unfold readResponse
  simp only
  rw [if_neg (by omega), texts_map, String.toList_ofList, Base64.decodeStrict_encodeStandard]
  simp only
  rw [if_neg (by omega), dif_pos (by rw [hstatus]; exact response.status_ok)]
  refine ⟨_, rfl, congrArg (Option.getD · 0) hstatus, rfl, fun name => ?_⟩
  · have hnodup' : (headers.map Prod.fst).Nodup := (hheaders.map Prod.fst).nodup_iff.mpr hnodup
    rw [lookup_safeHeaders hcasefold hnodup' fun h hh => hsafe h (hheaders.subset hh)]
    exact lookup_eq_of_perm hheaders hnodup' name

theorem sortKeys_texts (headers : List (String × String)) :
    ∃ sorted : List (String × String), sorted.Perm headers ∧
      sortKeys (.object (headers.map fun h => (h.1, .string h.2))) =
        .object (sorted.map fun h => (h.1, .string h.2)) := by
  refine ⟨headers.insertionSort fun h h' => h.1 ≤ h'.1, List.perm_insertionSort _ _, ?_⟩
  rw [sortKeys, sortEntries_eq, List.map_map]
  have hmap : ((fun e : String × Value => (e.1, sortKeys e.2)) ∘ fun h : String × String =>
      (h.1, Value.string h.2)) = fun h => (h.1, Value.string h.2) := by
    funext h
    rw [Function.comp_apply, sortKeys]
  rw [hmap, ← List.map_insertionSort (fun h h' : String × String => h.1 ≤ h'.1)
    (fun e f : String × Value => e.1 ≤ f.1) _ headers fun _ _ _ _ => Iff.rfl]

theorem exists_sortKeys (entries : List (String × Value))
    (hnodup : (entries.map Prod.fst).Nodup) :
    ∃ sorted, sortKeys (.object entries) = .object sorted ∧
      ∀ name value, entries.lookup name = some value →
        sorted.lookup name = some (sortKeys value) := by
  refine ⟨_, by rw [sortKeys], fun name value hvalue => ?_⟩
  have hmem := (lookup_of_mem hnodup).mp hvalue
  have hperm := List.perm_insertionSort (fun e f : String × Value => e.1 ≤ f.1) (sortEntries entries)
  have hnames : (sortEntries entries).map Prod.fst = entries.map Prod.fst := by
    rw [sortEntries_eq, List.map_map]
    rfl
  rw [lookup_of_mem ((hperm.map Prod.fst).nodup_iff.mpr (hnames ▸ hnodup)), hperm.mem_iff,
    sortEntries_eq]
  exact List.mem_map.mpr ⟨(name, value), hmem, rfl⟩

theorem readPayload_payload (response : TransportResponse) {storedAt : τ}
    (hurl : (sanitizeUrl python response.finalUrl).length ≤ 2048)
    (hcontent : response.content.length ≤ settings.maximumResponseBytes)
    (htime : 0 ≤ library.seconds storedAt) :
    ∃ sorted hit, sortKeys (payloadOf library response storedAt) = .object sorted ∧
      readPayload library settings sorted = .ok (some (hit, storedAt)) ∧
      Answers python hit response := by
  obtain ⟨sorted, hsorted, hvalues⟩ := exists_sortKeys [
    ("schema", .number (.ofNat 1)), ("stored_at", .number (library.repr storedAt)),
    ("status", .number (.ofNat response.status)),
    ("headers", .object ((safeHeaders python response.headers).map fun h => (h.1, .string h.2))),
    ("final_url", .string (sanitizeUrl python response.finalUrl)),
    ("content_base64", .string (String.ofList (Base64.encodeStandard response.content)))]
    (by simp)
  obtain ⟨headers, hperm, hheaders⟩ := sortKeys_texts (safeHeaders python response.headers)
  obtain ⟨hit, hread, hanswers⟩ :=
    readResponse_payload settings library.casefold_safe response hurl hcontent hperm
  refine ⟨sorted, hit, hsorted, ?_, hanswers⟩
  have hschema := hvalues "schema" _ rfl
  have hstored := hvalues "stored_at" _ rfl
  have hstatus := hvalues "status" _ rfl
  have hobject := hvalues "headers" _ rfl
  have hfinal := hvalues "final_url" _ rfl
  have hencoded := hvalues "content_base64" _ rfl
  rw [hheaders] at hobject
  simp only [sortKeys] at hschema hstored hstatus hfinal hencoded
  unfold readPayload
  rw [hschema, hstored, hstatus, hobject, hfinal, hencoded]
  simp only [library.isOne_ofNat, library.float_repr, Bool.true_eq_false, ↓reduceIte]
  have hnot : ¬library.seconds storedAt < 0 := not_lt.mpr htime
  rw [if_neg hnot, hread]
  rfl

/-- A file that the cache wrote, and whose size is allowed, answers for its response. -/
theorem read_written_of_le (response : TransportResponse) {storedAt : τ}
    (htakes : Takes library settings response (some storedAt) true)
    (hfile : (library.compress (artifactOf (payloadOf library response storedAt))).size ≤
      settings.maximumArtifactBytes) :
    ∃ hit, read library settings
        (some (library.compress (artifactOf (payloadOf library response storedAt)))) =
          .ok (some (hit, storedAt)) ∧
      Answers python hit response := by
  obtain ⟨hcontent, hurl, -, t, ht, htime, hsize⟩ := htakes
  obtain rfl := Option.some.inj ht
  obtain ⟨sorted, hit, hsorted, hread, hanswers⟩ :=
    readPayload_payload library settings response hurl hcontent htime
  have hloads : library.loads (artifactOf (payloadOf library response storedAt)) =
      .returns (.object sorted) :=
    (library.loads_payload storedAt response.status (safeHeaders python response.headers)
      (sanitizeUrl python response.finalUrl) response.content).trans (congrArg Attempt.returns hsorted)
  refine ⟨hit, ?_, hanswers⟩
  rw [read, if_neg (not_lt.mpr hfile), library.decompress_compress _ _ (hsize.trans (Nat.le_succ _))]
  simp only
  rw [if_neg (not_lt.mpr hsize), hloads]
  exact hread

/-- **A file that the cache wrote** is a miss, or answers for its response. -/
theorem read_written (response : TransportResponse) {storedAt : τ}
    (htakes : Takes library settings response (some storedAt) true) :
    let file := library.compress (artifactOf (payloadOf library response storedAt))
    read library settings (some file) = .ok none ∨
      ∃ hit, read library settings (some file) = .ok (some (hit, storedAt)) ∧
        Answers python hit response := by
  intro file
  by_cases hfile : settings.maximumArtifactBytes < file.size
  · exact .inl (if_pos hfile)
  · exact .inr (read_written_of_le library settings response htakes (not_lt.mp hfile))

/-! ## Runs -/

variable (digest : ByteArray → String)

/-- A put is kept, if its request is stored and the cache takes its response. -/
def Kept (r : TransportRequest) (response : TransportResponse) (now : Option τ) (stored : Bool) :
    Prop :=
  (requestCacheIdentity python digest r).eligible = true ∧ r.cache ≠ .bypass ∧
    Takes library settings response now stored

variable {r : TransportRequest} {response : TransportResponse} {files : Files}

theorem put_of_kept {t : τ} {stored : Bool}
    (h : Kept library settings digest r response (some t) stored) :
    put library settings digest files r response (some t) stored =
      CommerceCollector.setEntry files (requestCacheIdentity python digest r).key
        (library.compress (artifactOf (payloadOf library response t))) := by
  obtain ⟨heligible, hcache, hcontent, hurl, hstored, t', ht, htime, hsize⟩ := h
  obtain rfl := Option.some.inj ht
  have hwrites : ¬((requestCacheIdentity python digest r).eligible ≠ true ∨ r.cache = .bypass) :=
    not_or.mpr ⟨not_not.mpr heligible, hcache⟩
  have hnot : ¬library.seconds t < 0 := not_lt.mpr htime
  simp only [put]
  rw [if_neg hwrites, if_neg (not_lt.mpr hcontent), if_neg hnot, write, if_neg (not_lt.mpr hurl)]
  simp only
  rw [if_neg (not_lt.mpr hsize), if_pos hstored]

theorem put_of_not_kept {now : Option τ} {stored : Bool}
    (h : ¬Kept library settings digest r response now stored) :
    put library settings digest files r response now stored = files := by
  simp only [put]
  split
  · rfl
  rename_i hwrites
  split
  · rfl
  rename_i hcontent
  split
  · rfl
  rename_i t
  split
  · rfl
  rename_i htime
  rw [write]
  split
  · rfl
  rename_i hurl
  simp only
  split
  · rfl
  rename_i hsize
  split
  · rename_i hstored
    obtain ⟨heligible, hcache⟩ := not_or.mp hwrites
    exact absurd ⟨not_not.mp heligible, hcache, not_lt.mp hcontent, not_lt.mp hurl, hstored, t, rfl,
      not_lt.mp htime, not_lt.mp hsize⟩ h
  · rfl

/-- The file of a key after a run: corrupt, or that of the last response that the cache took. -/
def Current (actions : List (CacheAction library settings)) (key : String) (file : ByteArray) : Prop :=
  Corrupt library settings file ∨ ∃ response t,
    lastTaken library settings digest key actions = some response ∧
      Takes library settings response (some t) true ∧
      file = library.compress (artifactOf (payloadOf library response t))

variable {actions : List (CacheAction library settings)}

theorem lastTaken_concat_of_not_kept {key : String} {action : CacheAction library settings}
    (h : ∀ r response now stored, action = .put r response now stored →
      (requestCacheIdentity python digest r).key = key →
      ¬Kept library settings digest r response now stored) :
    lastTaken library settings digest key (actions ++ [action]) =
      lastTaken library settings digest key actions := by
  rw [lastTaken, List.reverse_append, List.reverse_singleton, List.singleton_append,
    List.findSome?_cons]
  cases action with
  | put r response now stored =>
    simp only
    rw [if_neg]
    · rfl
    · rintro ⟨heligible, hcache, hkey, htakes⟩
      exact h r response now stored rfl hkey ⟨heligible, hcache, htakes⟩
  | get r now => rfl
  | damage key file => rfl
  | remove key => rfl

theorem lastTaken_concat_put {now : Option τ} {stored : Bool}
    (h : Kept library settings digest r response now stored) :
    lastTaken library settings digest (requestCacheIdentity python digest r).key
      (actions ++ [.put r response now stored]) = some response := by
  rw [lastTaken, List.reverse_append, List.reverse_singleton, List.singleton_append,
    List.findSome?_cons]
  simp only
  rw [if_pos ⟨h.1, h.2.1, rfl, h.2.2⟩]

/-- Every file is current, and there is one file for each key. -/
structure CurrentFiles (actions : List (CacheAction library settings)) (files : Files) : Prop where
  nodup : (files.map Prod.fst).Nodup
  current : ∀ key, ∀ file ∈ files.lookup key, Current library settings digest actions key file

variable {library settings digest}

theorem CurrentFiles.act (h : CurrentFiles library settings digest actions files)
    (action : CacheAction library settings) :
    CurrentFiles library settings digest (actions ++ [action])
      (act library settings digest files action) := by
  -- A file that an action other than a put leaves in its place stays current.
  have hold : ∀ key, (∀ r response now stored, action = .put r response now stored →
      (requestCacheIdentity python digest r).key = key →
      ¬Kept library settings digest r response now stored) →
      ∀ file ∈ files.lookup key, Current library settings digest (actions ++ [action]) key file := by
    intro key hother file hfile
    rcases h.current key file hfile with hcorrupt | ⟨response, t, hlast, htakes, heq⟩
    · exact .inl hcorrupt
    · exact .inr ⟨response, t,
        (lastTaken_concat_of_not_kept library settings digest hother).trans hlast, htakes, heq⟩
  cases action with
  | put r response now stored =>
    rw [FileCache.act]
    by_cases hkept : Kept library settings digest r response now stored
    · obtain ⟨t, rfl⟩ : ∃ t, now = some t := by
        obtain ⟨-, -, -, -, -, t, ht, -⟩ := hkept
        exact ⟨t, ht⟩
      rw [put_of_kept library settings digest hkept]
      refine ⟨nodup_setEntry h.nodup _ _, fun key file hfile => ?_⟩
      rw [lookup_setEntry h.nodup] at hfile
      split at hfile
      · rename_i hkey
        subst hkey
        obtain rfl := Option.some.inj hfile
        have hlast : lastTaken library settings digest _ (actions ++ [_]) = _ :=
          lastTaken_concat_put library settings digest hkept
        obtain ⟨-, -, hcontent, hurl, -, htime⟩ := hkept
        exact .inr ⟨response, t, hlast,
          ⟨hcontent, hurl, rfl, htime⟩, rfl⟩
      · rename_i hkey
        refine hold key (fun r' _ _ _ heq hkey' => ?_) file hfile
        obtain ⟨rfl, -⟩ := CacheAction.put.inj heq
        exact absurd hkey'.symm hkey
    · rw [put_of_not_kept library settings digest hkept]
      refine ⟨h.nodup, fun key file hfile => hold key ?_ file hfile⟩
      intro r' response' now' stored' heq _
      obtain ⟨rfl, rfl, rfl, rfl⟩ := CacheAction.put.inj heq
      exact hkept
  | get r now => exact ⟨h.nodup, fun key => hold key (by rintro _ _ _ _ ⟨⟩)⟩
  | damage damaged file =>
    refine ⟨nodup_setEntry h.nodup _ _, fun key file' hfile => ?_⟩
    rw [FileCache.act, lookup_setEntry h.nodup] at hfile
    split at hfile
    · obtain rfl := Option.some.inj hfile
      exact .inl file.2
    · exact hold key (by rintro _ _ _ _ ⟨⟩) file' hfile
  | remove removed =>
    refine ⟨h.nodup.sublist (List.filter_sublist.map _), fun key file hfile => ?_⟩
    have hmem := (lookup_of_mem (h.nodup.sublist (List.filter_sublist.map _))).mp hfile
    exact hold key (by rintro _ _ _ _ ⟨⟩) file
      ((lookup_of_mem h.nodup).mpr (List.mem_of_mem_filter hmem))

theorem currentFiles_filesAfter (actions : List (CacheAction library settings)) :
    CurrentFiles library settings digest actions (filesAfter library settings digest actions) := by
  induction actions using List.reverseRecOn with
  | nil => exact ⟨List.nodup_nil, fun _ file hfile => absurd hfile (Option.not_mem_none file)⟩
  | append_singleton actions action ih =>
    rw [filesAfter, Trace.exec_append]
    exact ih.act action

theorem read_of_get {now : Option τ} {hit : TransportResponse}
    (h : get library settings digest files r now = .ok (some hit)) :
    ∃ file t, files.lookup (requestCacheIdentity python digest r).key = some file ∧
      read library settings (some file) = .ok (some (hit, t)) := by
  simp only [get] at h
  split at h
  · cases h
  split at h
  · cases h
  · cases h
  rename_i response storedAt hread
  split at h
  · cases h
  split at h
  · cases h
  obtain rfl := Option.some.inj (Except.ok.inj h)
  cases hfile : files.lookup (requestCacheIdentity python digest r).key with
  | none =>
    rw [hfile, read] at hread
    cases hread
  | some file => exact ⟨file, storedAt, rfl, hfile ▸ hread⟩

/-- **A get answers with nothing, or with the last response that the cache took for the key**,
whatever was put, damaged and removed before; one that raises has read a corrupt file. -/
theorem get_answers_lastTaken (actions : List (CacheAction library settings)) (r : TransportRequest)
    (now : Option τ) {hit : TransportResponse}
    (h : get library settings digest (filesAfter library settings digest actions) r now =
      .ok (some hit)) :
    ∃ response, lastTaken library settings digest (requestCacheIdentity python digest r).key actions =
      some response ∧ Answers python hit response := by
  obtain ⟨file, t, hfile, hread⟩ := read_of_get h
  rcases (currentFiles_filesAfter actions).current _ file hfile with
    hcorrupt | ⟨response, t', hlast, htakes, rfl⟩
  · exact absurd hread (hcorrupt _)
  · refine ⟨response, hlast, ?_⟩
    rcases read_written library settings response htakes with hnone | ⟨hit', hread', hanswers⟩
    · rw [hnone] at hread
      cases hread
    · obtain ⟨rfl, -⟩ := Prod.mk.inj (Option.some.inj (Except.ok.inj (hread'.symm.trans hread)))
      exact hanswers

end Reads

/-! ## A run of the code -/

/-- `repr` of a time of whole seconds. -/
def secondsRepr (t : ℕ) : Number where
  text := Nat.toDigits 10 t ++ ".0".toList
  head_ok := by
    obtain ⟨c, cs, hcs, hc⟩ := (Number.ofNat t).head_ok
    exact ⟨c, cs ++ ".0".toList, congrArg (· ++ ".0".toList) hcs, hc⟩
  all_ok c hc := (List.mem_append.mp hc).elim ((Number.ofNat t).all_ok c)
    fun hc => List.all_eq_true.mp (by decide) c hc

open Classical in
/-- `json.loads`, of artifacts. -/
noncomputable def loadsArtifact (bytes : ByteArray) : Attempt Value :=
  if h : ∃ value, artifactOf value = bytes then .returns (sortKeys h.choose) else .caught

theorem loadsArtifact_artifactOf (value : Value) :
    loadsArtifact (artifactOf value) = .returns (sortKeys value) := by
  have hexists : ∃ value', artifactOf value' = artifactOf value := ⟨value, rfl⟩
  rw [loadsArtifact, dif_pos hexists]
  have hsame : dumpsSorted hexists.choose = dumpsSorted value :=
    String.ofList_inj.mp (String.toByteArray_inj.mp hexists.choose_spec)
  rw [dumpsSorted_inj.mp hsame]

/-- Python's library on times of whole seconds, with files that are not compressed. -/
noncomputable def plainLibrary : Library asciiPython ℕ where
  seconds t := t
  repr := secondsRepr
  float n := .returns (some (Nat.ofDigitChars 10 (n.text.takeWhile Char.isDigit) 0))
  isOne n := n.text == "1".toList || n.text == "1.0".toList
  compress bytes := bytes
  decompress bytes limit :=
    if bytes.size ≤ limit then .returns bytes else .returns (bytes.extract 0 limit)
  loads := loadsArtifact
  float_repr t := by
    have hdigits : (secondsRepr t).text.takeWhile Char.isDigit = Nat.toDigits 10 t := by
      rw [secondsRepr, List.takeWhile_append_of_pos fun c hc =>
        Nat.isDigit_of_mem_toDigits (by decide) (by decide) hc]
      exact List.append_nil _
    rw [hdigits, Nat.ofDigitChars_ten_toDigits]
  isOne_ofNat := by decide
  decompress_compress _ _ h := if_pos h
  loads_payload _ _ _ _ _ := loadsArtifact_artifactOf _
  casefold_safe := by decide +kernel

/-- A cache for small responses. -/
def smallSettings : Settings where
  maximumAgeSeconds := none
  maximumResponseBytes := 4
  maximumArtifactBytes := 1000

theorem status_ok_200 : 100 ≤ 200 ∧ 200 ≤ 599 := by decide

/-- A response with a body. -/
def responseOf (content : List Base64.Byte) : TransportResponse where
  status := 200
  headers := [("ETag", "1"), ("Set-Cookie", "session")]
  content := content
  finalUrl := "https://shop.test/"
  status_ok := status_ok_200

/-- The request of the responses. -/
def shopRequest : TransportRequest := { url := "https://shop.test/" }

/-- The puts of responses, in their order. -/
noncomputable def putsOf (contents : List (List Base64.Byte)) :
    List (CacheAction plainLibrary smallSettings) :=
  contents.map fun content => .put shopRequest (responseOf content) (some (10 : ℕ)) true

theorem size_small : (artifactOf (payloadOf plainLibrary (responseOf [1, 2]) (10 : ℕ))).size ≤
    smallSettings.maximumArtifactBytes := by
  have hsize : (artifactOf (payload (secondsRepr 10) 200
      (safeHeaders asciiPython (responseOf [1, 2]).headers)
      (sanitizeUrl asciiPython "https://shop.test/") [1, 2])).size ≤ 1000 := by decide +kernel
  exact hsize

theorem takes_small : Takes plainLibrary smallSettings (responseOf [1, 2]) (some (10 : ℕ)) true :=
  ⟨by decide, by decide +kernel, rfl, 10, rfl, Nat.cast_nonneg 10, size_small⟩

theorem files_small : filesAfter plainLibrary smallSettings plainDigest
      (putsOf [[1, 2], [1, 2, 3, 4, 5]]) =
    [((requestCacheIdentity asciiPython plainDigest shopRequest).key,
      plainLibrary.compress (artifactOf (payloadOf plainLibrary (responseOf [1, 2]) (10 : ℕ))))] := by
  have heligible : (requestCacheIdentity asciiPython plainDigest shopRequest).eligible = true := by
    decide +kernel
  have hsmall : Kept plainLibrary smallSettings plainDigest shopRequest (responseOf [1, 2])
      (some (10 : ℕ)) true := ⟨heligible, by rintro ⟨⟩, takes_small⟩
  have hlarge : ¬Kept plainLibrary smallSettings plainDigest shopRequest
      (responseOf [1, 2, 3, 4, 5]) (some (10 : ℕ)) true := by
    rintro ⟨-, -, hcontent, -⟩
    exact absurd hcontent (by decide)
  have hset : ∀ (key : String) (file : ByteArray),
      CommerceCollector.setEntry [] key file = [(key, file)] := fun _ _ => rfl
  rw [filesAfter, putsOf, List.map_cons, List.map_cons, List.map_nil, Trace.exec_cons,
    Trace.exec_cons, Trace.exec_nil, act, act, put_of_not_kept _ _ _ hlarge, put_of_kept _ _ _ hsmall,
    hset]

theorem get_small : ∃ hit, get plainLibrary smallSettings plainDigest
      (filesAfter plainLibrary smallSettings plainDigest (putsOf [[1, 2], [1, 2, 3, 4, 5]]))
      shopRequest (some (20 : ℕ)) = .ok (some hit) ∧ hit.content = [1, 2] := by
  have heligible : (requestCacheIdentity asciiPython plainDigest shopRequest).eligible = true := by
    decide +kernel
  obtain ⟨hit, hread, hanswers⟩ := read_written_of_le plainLibrary smallSettings (responseOf [1, 2])
    takes_small size_small
  refine ⟨hit, ?_, hanswers.content⟩
  have hlookup : (filesAfter plainLibrary smallSettings plainDigest
      (putsOf [[1, 2], [1, 2, 3, 4, 5]])).lookup
        (requestCacheIdentity asciiPython plainDigest shopRequest).key =
      some (plainLibrary.compress
        (artifactOf (payloadOf plainLibrary (responseOf [1, 2]) (10 : ℕ)))) := by
    rw [files_small, List.lookup_cons_self]
  have hage : age plainLibrary (some (20 : ℕ)) (10 : ℕ) = some 10 := by
    have hseconds : ∀ t, plainLibrary.seconds t = (t : ℚ) := fun _ => rfl
    rw [age, Option.bind_some, hseconds, hseconds]
    decide +kernel
  have hreads : ¬((requestCacheIdentity asciiPython plainDigest shopRequest).eligible ≠ true ∨
      shopRequest.cache ≠ .default) := not_or.mpr ⟨not_not.mpr heligible, not_not.mpr rfl⟩
  simp only [get]
  rw [if_neg hreads, hlookup, hread]
  simp only
  rw [hage]
  rfl

/-- The get answers with the response that the cache took last. -/
theorem get_answers_small : ∃ hit, get plainLibrary smallSettings plainDigest
      (filesAfter plainLibrary smallSettings plainDigest (putsOf [[1, 2], [1, 2, 3, 4, 5]]))
      shopRequest (some (20 : ℕ)) = .ok (some hit) ∧
    ∃ response, lastTaken plainLibrary smallSettings plainDigest
      (requestCacheIdentity asciiPython plainDigest shopRequest).key
      (putsOf [[1, 2], [1, 2, 3, 4, 5]]) = some response ∧ Answers asciiPython hit response := by
  obtain ⟨hit, hget, -⟩ := get_small
  exact ⟨hit, hget, get_answers_lastTaken _ _ _ hget⟩

/-- The response of the last put for a key, whether the cache took it or not. -/
def lastPut {python : Python} {τ : Type*} {library : Library python τ} {settings : Settings}
    (digest : ByteArray → String) (key : String) (actions : List (CacheAction library settings)) :
    Option TransportResponse :=
  actions.reverse.findSome? fun
    | .put r response _ _ =>
      if (requestCacheIdentity python digest r).key = key then some response else none
    | _ => none

/-- A response that is too large is put, and the earlier one is answered. -/
theorem declined_put_answered_before :
    ¬∀ (actions : List (CacheAction plainLibrary smallSettings)) (r : TransportRequest)
      (now : Option ℕ) (hit : TransportResponse),
      get plainLibrary smallSettings plainDigest
        (filesAfter plainLibrary smallSettings plainDigest actions) r now = .ok (some hit) →
      ∃ response, lastPut plainDigest (requestCacheIdentity asciiPython plainDigest r).key actions =
        some response ∧ Answers asciiPython hit response := by
  intro h
  obtain ⟨hit, hget, hcontent⟩ := get_small
  obtain ⟨response, hlast, hanswers⟩ := h _ _ _ hit hget
  have hlarge : lastPut plainDigest (requestCacheIdentity asciiPython plainDigest shopRequest).key
      (putsOf [[1, 2], [1, 2, 3, 4, 5]]) = some (responseOf [1, 2, 3, 4, 5]) := by
    rw [putsOf, lastPut, List.map_cons, List.map_cons, List.map_nil, List.reverse_cons,
      List.reverse_singleton, List.singleton_append, List.findSome?_cons]
    simp only [↓reduceIte]
  obtain rfl := Option.some.inj (hlarge.symm.trans hlast)
  exact absurd (hcontent.symm.trans hanswers.content) (by decide)

end CommerceCollector.FileCache
