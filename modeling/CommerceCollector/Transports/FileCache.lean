import CommerceCollector.Foundation.Base64
import CommerceCollector.Transports.CacheKeys
import CommerceCollector.Transports.URLPolicy
import Mathlib.Algebra.Order.Ring.Rat

/-!
# The cache of files

`FileResponseCache` of `cache.py`: one file for each key, which holds the status, the safe headers,
the final URL and the body of a response, as JSON under `gzip`.  A response is declined, and the
file of an earlier one kept, if its body, its final URL or its artifact is too large; a file that
cannot be read is a miss, unless reading it raises one of the exceptions that `_read` does not
catch.

`gzip`, `json.loads` and the floats of Python are parameters.  The clock gives a float, or nothing
where `math.isfinite` refuses it.
-/

namespace CommerceCollector.FileCache

open JsonText

/-! ## URLs -/

section URL

variable (python : Python)

/-- `_normalize_key`. -/
def normalizeKey (key : String) : List Char :=
  (python.casefold key).toList.filter fun c => c.isLower || c.isDigit

/-- `_CREDENTIAL_MARKERS` of `sanitization.py`. -/
def sanitizedMarkers : List String :=
  ["authorization", "cookie", "password", "passwd", "passphrase", "secret", "apikey", "accesskey",
   "privatekey", "clientkey", "credential", "signature", "proxycredentials", "proxyuser"]

/-- `_is_credential_key`, outside of a proxy. -/
def isCredentialKey (key : List Char) : Bool :=
  sanitizedMarkers.any (fun marker => key.tails.any fun rest => marker.toList.isPrefixOf rest) ||
    "token".toList.reverse.isPrefixOf key.reverse || "tokenheader".toList.isPrefixOf key ||
    "tokenvalue".toList.isPrefixOf key || ["auth", "key", "sig"].contains (String.ofList key)

/-- `_sanitize_query`. -/
def sanitizeQuery (value : List Char) : List Char :=
  if value = [] then value
  else python.urlencode ((parseQsl python value).map fun pair =>
    (pair.1, if isCredentialKey (normalizeKey python pair.1) = true then "[redacted]" else pair.2))

/-- `sanitize_url`. -/
def sanitizeUrl (value : String) : String :=
  if value.toList.tails.any (fun rest => "://".toList.isPrefixOf rest) = false then value
  else
    match urlsplit python value with
    | none => "[invalid-url]"
    | some parts =>
      if parts.scheme = [] ∨ parts.netloc = [] then value
      else
        let netloc :=
          if '@' ∈ parts.netloc then "redacted@".toList ++ parts.hostinfo else parts.netloc
        let fragment := urlFragment value
        urlunsplit parts.scheme netloc parts.path (sanitizeQuery python parts.query)
          (if '=' ∈ fragment then sanitizeQuery python fragment else fragment)

end URL

/-! ## Responses -/

/-- What the cache keeps of a `TransportResponse`. -/
structure TransportResponse where
  status : ℕ
  headers : List (String × String)
  content : List Base64.Byte
  finalUrl : String
  status_ok : 100 ≤ status ∧ status ≤ 599

/-- `_SAFE_RESPONSE_HEADERS`. -/
def safeResponseHeaders : List String :=
  ["cache-control", "content-language", "content-type", "etag", "expires", "last-modified"]

/-- `_safe_headers`, of texts. -/
def safeHeaders (python : Python) (headers : List (String × String)) : List (String × String) :=
  (headers.filter fun h => safeResponseHeaders.contains (python.casefold h.1)).foldl
    (fun entries h => CommerceCollector.setEntry entries (python.casefold h.1) h.2) []

/-- The texts of the entries of an object; nothing, if another value is among them. -/
def texts : List (String × Value) → Option (List (String × String))
  | [] => some []
  | (name, .string text) :: entries => (texts entries).map ((name, text) :: ·)
  | _ :: _ => none

/-- The payload of an artifact. -/
def payload (storedAt : Number) (status : ℕ) (headers : List (String × String)) (finalUrl : String)
    (content : List Base64.Byte) : Value :=
  .object [("schema", .number (.ofNat 1)), ("stored_at", .number storedAt),
    ("status", .number (.ofNat status)),
    ("headers", .object (headers.map fun h => (h.1, .string h.2))), ("final_url", .string finalUrl),
    ("content_base64", .string (String.ofList (Base64.encodeStandard content)))]

/-- The artifact, before it is compressed. -/
def artifactOf (value : Value) : ByteArray := (String.ofList (dumpsSorted value)).toUTF8

/-! ## Python -/

/-- What a step of `_read` comes to: a result; one of the exceptions that `_read` catches; or
another one. -/
inductive Attempt (α : Type*)
  | returns (a : α)
  | caught
  | escapes (error : String)

/-- The parts of Python that the cache uses, over the finite floats `τ`: `repr` of a float, what the
number of a JSON text is for `math.isfinite`, which raises on an integer that is no float, and
whether it equals 1; `gzip`, of which at most so many bytes are read; and `json.loads`. -/
structure Library (python : Python) (τ : Type*) where
  seconds : τ → ℚ
  repr : τ → Number
  float : Number → Attempt (Option τ)
  isOne : Number → Bool
  compress : ByteArray → ByteArray
  decompress : ByteArray → ℕ → Attempt ByteArray
  loads : ByteArray → Attempt Value
  float_repr : ∀ t, float (repr t) = .returns (some t)
  isOne_ofNat : isOne (.ofNat 1) = true
  decompress_compress : ∀ bytes limit, bytes.size ≤ limit →
    decompress (compress bytes) limit = .returns bytes
  loads_payload : ∀ t status headers finalUrl content,
    loads (artifactOf (payload (repr t) status headers finalUrl content)) =
      .returns (sortKeys (payload (repr t) status headers finalUrl content))
  casefold_safe : ∀ name ∈ safeResponseHeaders, python.casefold name = name

/-- `FileResponseCache.__init__`. -/
structure Settings where
  maximumAgeSeconds : Option ℚ
  maximumResponseBytes : ℕ
  maximumArtifactBytes : ℕ

/-! ## Reading a file -/

section Cache

variable {python : Python} {τ : Type*} (library : Library python τ) (settings : Settings)

/-- The status of a response, if a number is the integer of one. -/
def statusOf (n : Number) : Option ℕ :=
  if n.text.all Char.isDigit = true then
    let status := Nat.ofDigitChars 10 n.text 0
    if 100 ≤ status ∧ status ≤ 599 then some status else none
  else none

variable (python) in
/-- The response of a payload whose time is read. -/
def readResponse (status headers finalUrl encoded : Value) : Option TransportResponse :=
  match status, headers, finalUrl, encoded with
  | .number n, .object entries, .string url, .string text =>
    if 2048 < url.length then none
    else
      match texts entries, Base64.decodeStrict text.toList with
      | some headers, some content =>
        if settings.maximumResponseBytes < content.length then none
        else if h : 100 ≤ (statusOf n).getD 0 ∧ (statusOf n).getD 0 ≤ 599 then
          some {
            status := (statusOf n).getD 0
            headers := safeHeaders python headers
            content
            finalUrl := String.ofList ((sanitizeUrl python url).toList.take 2048)
            status_ok := h }
        else none
      | _, _ => none
  | _, _, _, _ => none

/-- The response of a payload, and the time at which it was stored; an error is an exception that is
not caught. -/
def readPayload (entries : List (String × Value)) :
    Except String (Option (TransportResponse × τ)) :=
  let schema := match entries.lookup "schema" with
    | some (.number n) => library.isOne n
    | some (.bool b) => b
    | _ => false
  if schema = false then .ok none
  else
    match entries.lookup "stored_at", entries.lookup "status", entries.lookup "headers",
      entries.lookup "final_url", entries.lookup "content_base64" with
    | some (.number n), some status, some headers, some finalUrl, some encoded =>
      match library.float n with
      | .escapes error => .error error
      | .caught => .ok none
      | .returns none => .ok none
      | .returns (some storedAt) =>
        if library.seconds storedAt < 0 then .ok none
        else .ok ((readResponse python settings status headers finalUrl encoded).map
          (·, storedAt))
    | _, _, _, _, _ => .ok none

/-- `_read`. -/
def read (file : Option ByteArray) : Except String (Option (TransportResponse × τ)) :=
  match file with
  | none => .ok none
  | some bytes =>
    if settings.maximumArtifactBytes < bytes.size then .ok none
    else
      match library.decompress bytes (settings.maximumArtifactBytes + 1) with
      | .escapes error => .error error
      | .caught => .ok none
      | .returns artifact =>
        if settings.maximumArtifactBytes < artifact.size then .ok none
        else
          match library.loads artifact with
          | .escapes error => .error error
          | .caught => .ok none
          | .returns (.object entries) => readPayload library settings entries
          | .returns _ => .ok none

/-! ## The cache -/

variable (digest : ByteArray → String)

/-- The files under the directory of the cache, by the keys. -/
abbrev Files := List (String × ByteArray)

/-- `_age`. -/
def age (now : Option τ) (storedAt : τ) : Option ℚ :=
  now.bind fun now =>
    if library.seconds now < 0 then none
    else
      let age := library.seconds now - library.seconds storedAt
      if age < -300 then none else some (if age < 0 then 0 else age)

/-- `get`. -/
def get (files : Files) (r : TransportRequest) (now : Option τ) :
    Except String (Option TransportResponse) :=
  let identity := requestCacheIdentity python digest r
  if ¬identity.eligible ∨ r.cache ≠ .default then .ok none
  else
    match read library settings (files.lookup identity.key) with
    | .error error => .error error
    | .ok none => .ok none
    | .ok (some (response, storedAt)) =>
      match age library now storedAt with
      | none => .ok none
      | some age =>
        if settings.maximumAgeSeconds.any (· < age) = true then .ok none else .ok (some response)

/-- The payload of a response. -/
def payloadOf (response : TransportResponse) (storedAt : τ) : Value :=
  payload (library.repr storedAt) response.status (safeHeaders python response.headers)
    (sanitizeUrl python response.finalUrl) response.content

/-- `_write`; `stored` is false, if the disk refuses the file. -/
def write (files : Files) (key : String) (response : TransportResponse) (storedAt : τ)
    (stored : Bool) : Files :=
  if 2048 < (sanitizeUrl python response.finalUrl).length then files
  else
    let artifact := artifactOf (payloadOf library response storedAt)
    if settings.maximumArtifactBytes < artifact.size then files
    else if stored = true then CommerceCollector.setEntry files key (library.compress artifact)
    else files

/-- `put`; one that raises leaves the files alone. -/
def put (files : Files) (r : TransportRequest) (response : TransportResponse) (now : Option τ)
    (stored : Bool) : Files :=
  let identity := requestCacheIdentity python digest r
  if ¬identity.eligible ∨ r.cache = .bypass then files
  else if settings.maximumResponseBytes < response.content.length then files
  else
    match now with
    | none => files
    | some now =>
      if library.seconds now < 0 then files
      else write library settings files identity.key response now stored

/-- A file is corrupt, if no entry is read from it. -/
def Corrupt (file : ByteArray) : Prop :=
  ∀ entry, read library settings (some file) ≠ .ok (some entry)

/-- What happens to the files: a put, a get, or a damage to a file, which may also be removed. -/
inductive CacheAction
  | put (r : TransportRequest) (response : TransportResponse) (now : Option τ) (stored : Bool)
  | get (r : TransportRequest) (now : Option τ)
  | damage (key : String) (file : {file : ByteArray // Corrupt library settings file})
  | remove (key : String)

/-- The files after an action. -/
def act (files : Files) : CacheAction library settings → Files
  | .put r response now stored => put library settings digest files r response now stored
  | .get _ _ => files
  | .damage key file => CommerceCollector.setEntry files key file.1
  | .remove key => files.filter (·.1 ≠ key)

/-- The files after a run on an empty directory. -/
def filesAfter (actions : List (CacheAction library settings)) : Files :=
  Trace.exec (act library settings digest) [] actions

/-! ## Puts -/

/-- The cache takes a response: neither its body nor its final URL nor its artifact is too large,
the clock gives a time, and the disk takes the file. -/
def Takes (response : TransportResponse) (now : Option τ) (stored : Bool) : Prop :=
  response.content.length ≤ settings.maximumResponseBytes ∧
    (sanitizeUrl python response.finalUrl).length ≤ 2048 ∧ stored = true ∧
    ∃ t, now = some t ∧ 0 ≤ library.seconds t ∧
      (artifactOf (payloadOf library response t)).size ≤ settings.maximumArtifactBytes

open Classical in
/-- The response of the last put for a key among those that the cache took. -/
noncomputable def lastTaken (key : String) (actions : List (CacheAction library settings)) :
    Option TransportResponse :=
  actions.reverse.findSome? fun
    | .put r response now stored =>
      if (requestCacheIdentity python digest r).eligible = true ∧ r.cache ≠ .bypass ∧
          (requestCacheIdentity python digest r).key = key ∧
          Takes library settings response now stored then some response
      else none
    | _ => none

end Cache

end CommerceCollector.FileCache
