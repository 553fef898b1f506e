import CommerceCollector.Foundation.JsonLoads
import CommerceCollector.Foundation.JsonSpaced
import CommerceCollector.Transports.ResponseCache
import Mathlib.Data.Rat.Defs
import Mathlib.Logic.Function.Basic

/-!
# The response archive

`scrapers/cache.py` and `ops/commerce_scraper_cache.py`: the responses of the shops as files, one
for each key, under a directory for the host, and the cache of the connectors over them.  A file is
written under the host of the response, and read under the host of the request.

What `gzip` and `json` make of a file is a parameter, and so is what the model of a response makes
of a status.  The disk accepts every write; the sizes of the files and their times of access are
left out.
-/

namespace CommerceCollector.ResponseArchive

open JsonText

/-! ## Requests and responses -/

/-- A request that the model of a `TransportRequest` accepts; the body `None` is no body. -/
structure Request (python : Python) extends TransportRequest where
  evaluation_ok : ∀ e ∈ evaluation, browser = .required ∧ python.upper method = "GET" ∧
    query = [] ∧ headers = [] ∧ jsonBody = none ∧ body = none
  jsonBody_ok : ∀ v ∈ jsonBody, v ≠ .null

/-- What the archive keeps of a `TransportResponse`. -/
structure Response where
  status : ℕ
  headers : List (String × String)
  content : ByteArray
  finalUrl : String
  status_ok : 100 ≤ status ∧ status ≤ 599
  headers_ok : (headers.map Prod.fst).Nodup

/-- `CachedResponse`; read from a file its fields are any values. -/
structure CachedResponse where
  status : Value
  url : Value
  body : Value
  headers : Value
  fetchedAt : Value
  kind : Value := .string "http"

/-- The dictionary of a `CachedResponse`. -/
def CachedResponse.toValue (entry : CachedResponse) : Value :=
  .object [("status", entry.status), ("url", entry.url), ("body", entry.body),
    ("headers", entry.headers), ("fetched_at", entry.fetchedAt), ("kind", entry.kind)]

/-- `CachedResponse(**stored)`; nothing, if it raises. -/
def CachedResponse.ofValue? : Value → Option CachedResponse
  | .object entries =>
    if entries.all (fun e =>
        ["status", "url", "body", "headers", "fetched_at", "kind"].contains e.1) = true then
      match entries.lookup "status", entries.lookup "url", entries.lookup "body",
        entries.lookup "headers", entries.lookup "fetched_at" with
      | some status, some url, some body, some headers, some fetchedAt =>
        some { status, url, body, headers, fetchedAt,
               kind := (entries.lookup "kind").getD (.string "http") }
      | _, _, _, _, _ => none
    else none
  | _ => none

/-- What reading a file comes to: a value; one of the exceptions `OSError`, `JSONDecodeError` and
`EOFError`; or another exception. -/
inductive Loaded
  | value (v : Value)
  | unreadable
  | fails (error : String)

/-- The parts of Python that the archive uses: `gzip.open` with `json.dump` and `json.load`, the
digest of SHA-256, what the decoder makes of bytes that are no UTF-8, whether a number is zero, and
the status that the model of a response makes of a value. -/
structure Library where
  dump : Value → ByteArray
  load : ByteArray → Loaded
  sha256 : ByteArray → String
  replaced : ByteArray → String
  isZero : Number → Bool
  status : Value → Option ℕ

/-- `content.decode("utf-8", errors="replace")`. -/
def Library.decode (library : Library) (content : ByteArray) : String :=
  if h : content.IsValidUTF8 then String.fromUTF8 content h else library.replaced content

/-! ## Keys -/

/-- The JSON of an integer. -/
def jsonInteger : ℤ → Number
  | .ofNat n => .ofNat n
  | .negSucc n =>
    { text := '-' :: (Number.ofNat (n + 1)).text
      head_ok := ⟨_, _, rfl, by decide⟩
      all_ok := by
        intro c hc
        rcases List.mem_cons.mp hc with rfl | hc
        · decide
        · exact (Number.ofNat (n + 1)).all_ok c hc }

/-- The JSON of a float, from its `repr`. -/
def jsonFloat (repr : String) : Value :=
  let text := if repr = "nan" then "NaN" else if repr = "inf" then "Infinity"
    else if repr = "-inf" then "-Infinity" else repr
  match Number.ofText? text.toList with
  | some n => .number n
  | none => .null

/-- The JSON of a value of a query. -/
def queryJson : QueryValue → Value
  | .str s => .string s
  | .int n => .number (jsonInteger n)
  | .float repr => jsonFloat repr
  | .bool b => .bool b

section

variable {python : Python} (library : Library)

/-- `_has_user_agent`. -/
def hasUserAgent (python : Python) (headers : List (String × String)) : Bool :=
  headers.any fun h => python.casefold h.1 == "user-agent"

/-- `_is_simple_render`. -/
def isSimpleRender (q : Request python) : Bool :=
  q.browser == .required && python.upper q.method == "GET" && q.query.isEmpty && q.headers.isEmpty &&
    q.jsonBody.isNone && q.body.isNone && q.evaluation.isNone

/-- `_kind`. -/
def kind (q : Request python) : String :=
  if q.evaluation.isSome then "browser_evaluation"
  else if isSimpleRender q = true then "render"
  else if q.browser = .required then "browser_request"
  else "http"

/-- `ResponseCache.key`. -/
def archiveKey (kind url : String) (parts : List (String × Value)) : String :=
  let material := .array [.string kind, .string url, .object parts]
  library.sha256 (String.ofList (dumpsDefault (sortKeys material))).toUTF8

/-- A query as the parameters of a key: `request.query or None`. -/
def params (query : List (String × QueryValue)) : Value :=
  if query = [] then .null else .object (query.map fun e => (e.1, queryJson e.2))

/-- `_key`. -/
def key (q : Request python) : String :=
  match q.evaluation with
  | some e =>
    archiveKey library "browser_evaluation" q.url
      [("action_id", .string e.actionId),
       ("script_sha256", .string (library.sha256 e.script.toUTF8)),
       ("wait_for", (e.waitFor.map Value.string).getD .null),
       ("wait_milliseconds", .number (.ofNat e.waitMilliseconds))]
  | none =>
    if isSimpleRender q = true then
      archiveKey library "render" q.url [("wait_ms", .number (.ofNat 1500)), ("wait_for", .null)]
    else
      archiveKey library (kind q) q.url
        [("method", .string q.method), ("params", params q.query), ("body", q.jsonBody.getD .null),
         ("agent", .bool (hasUserAgent python q.headers))]

/-! ## The archive -/

/-- `MODES`. -/
inductive Mode
  | off | auto | replay | refresh
  deriving DecidableEq

/-- The mode of an archive, and its maximum age. -/
structure Config where
  mode : Mode := .auto
  maxAge : Option ℚ := none

/-- Where a file lies: under its host and its key. -/
abbrev Path := List Char × String

/-- The archive: its files and its counters. -/
structure Archive where
  files : Path → Option ByteArray
  hits : ℕ := 0
  misses : ℕ := 0
  writes : ℕ := 0

/-- The host of a URL as a directory; nothing, if the URL cannot be split. -/
def host (python : Python) (url : String) : Option (List Char) :=
  (urlsplit python url).map fun parsed =>
    if parsed.netloc = [] then "other".toList else parsed.netloc

/-- What `get` raises: the failure of a replay, or another exception. -/
inductive ArchiveError
  | unavailable
  | raises (error : String)
  deriving DecidableEq

/-- `time.time() - entry.fetched_at > max_age`, where `older` says it of a number. -/
def isOld (older : ℚ → Value → Bool) (maxAge : ℚ) : Value → Except ArchiveError Bool
  | .number n => .ok (older maxAge (.number n))
  | .bool b => .ok (older maxAge (.bool b))
  | _ => .error (.raises "TypeError")

namespace Archive

/-- A miss is counted. -/
def miss (s : Archive) : Archive := { s with misses := s.misses + 1 }

/-- `ResponseCache.read`, at a moment. -/
def read (python : Python) (config : Config) (older : ℚ → Value → Bool) (s : Archive) (key url : String) :
    Archive × Except ArchiveError (Option CachedResponse) :=
  if config.mode = .off ∨ config.mode = .refresh then (s, .ok none)
  else
    match host python url with
    | none => (s, .error (.raises "ValueError"))
    | some host =>
      match s.files (host, key) with
      | none => (s.miss, .ok none)
      | some bytes =>
        match library.load bytes with
        | .unreadable => (s.miss, .ok none)
        | .fails error => (s, .error (.raises error))
        | .value stored =>
          match CachedResponse.ofValue? stored with
          | none => (s, .error (.raises "TypeError"))
          | some entry =>
            match (config.maxAge.map fun maxAge => isOld older maxAge entry.fetchedAt).getD (.ok false)
            with
            | .error error => (s, .error error)
            | .ok true => (s.miss, .ok none)
            | .ok false => ({ s with hits := s.hits + 1 }, .ok (some entry))

/-- `ResponseCache.write`. -/
def write (python : Python) (config : Config) (s : Archive) (key url : String)
    (entry : CachedResponse) : Archive :=
  if config.mode = .off then s
  else
    match host python url with
    | none => s
    | some host =>
      { s with files := Function.update s.files (host, key) (some (library.dump entry.toValue)),
               writes := s.writes + 1 }

end Archive

/-! ## The cache of the connectors -/

/-- A dictionary of texts. -/
def texts : List (String × Value) → Option (List (String × String))
  | [] => some []
  | (name, .string text) :: entries => (texts entries).map ((name, text) :: ·)
  | _ => none

/-- The value is false to Python. -/
def falsy : Value → Bool
  | .null | .bool false | .string "" | .array [] | .object [] => true
  | .number n => library.isZero n
  | _ => false

/-- `_response`: the parts of the response; nothing, if its model refuses them. -/
def response (q : Request python) (entry : CachedResponse) :
    Option (ℕ × List (String × String) × ByteArray × String) :=
  match entry.body, entry.headers with
  | .string body, .object headers =>
    match library.status entry.status, texts headers,
      (if falsy library entry.url = true then Value.string q.url else entry.url) with
    | some status, some headers, .string url => some (status, headers, body.toUTF8, url)
    | _, _, _ => none
  | _, _ => none

/-- The parts of a response that are compared. -/
def Response.parts (r : Response) : ℕ × List (String × String) × ByteArray × String :=
  (r.status, r.headers, r.content, r.finalUrl)

namespace Archive

/-- `CatalogueResponseCache.get`. -/
def get (config : Config) (older : ℚ → Value → Bool) (s : Archive) (q : Request python) :
    Archive × Except ArchiveError (Option (ℕ × List (String × String) × ByteArray × String)) :=
  if q.cache ≠ .default then (s, .ok none)
  else
    match s.read library python config older (key library q) q.url with
    | (s, .error error) => (s, .error error)
    | (s, .ok none) =>
      (s, if config.mode = .replay then .error .unavailable else .ok none)
    | (s, .ok (some entry)) =>
      match response library q entry with
      | some parts => (s, .ok (some parts))
      | none => (s, .error (.raises "ValidationError"))

/-- The entry of a response. -/
def cached (q : Request python) (r : Response) (fetchedAt : Value) : CachedResponse where
  status := .number (.ofNat r.status)
  url := .string r.finalUrl
  body := .string (library.decode r.content)
  headers := .object (r.headers.map fun h => (h.1, .string h.2))
  fetchedAt := fetchedAt
  kind := .string (kind q)

/-- `CatalogueResponseCache.put`; nothing is written, if it raises. -/
def put (config : Config) (s : Archive) (q : Request python) (r : Response) (fetchedAt : Value) :
    Archive :=
  if q.cache ≠ .default then s
  else s.write library python config (key library q) r.finalUrl (cached library q r fetchedAt)

end Archive

/-! ## Runs -/

/-- What happens to an archive: the cache reads or writes it, or someone else leaves a file there or
takes one away. -/
inductive Event (python : Python)
  | get (q : Request python) (older : ℚ → Value → Bool)
  | put (q : Request python) (r : Response) (fetchedAt : Number)
  | alters (path : Path) (content : Option ByteArray)

/-- The archive after an event. -/
def Archive.step (config : Config) (s : Archive) : Event python → Archive
  | .get q older => (s.get library config older q).1
  | .put q r fetchedAt => s.put library config q r (.number fetchedAt)
  | .alters path content => { s with files := Function.update s.files path content }

/-- The archive after a run, from some files. -/
def archiveAfter (config : Config) (files : Path → Option ByteArray) (events : List (Event python)) :
    Archive :=
  Trace.exec (Archive.step library config) { files } events

end

end CommerceCollector.ResponseArchive
