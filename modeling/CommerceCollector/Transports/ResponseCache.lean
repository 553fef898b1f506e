import CommerceCollector.Foundation.Json
import CommerceCollector.Foundation.Trace

/-!
# The response cache

`cache.py`: the identity of a request, and what `MemoryResponseCache`, `FileResponseCache` and the
middleware do with it.  A URL is split as `urllib.parse.urlsplit` splits it; the parts of Python's
library that need the tables of Unicode are the fields of `Python`.  A digest is a parameter.

An entry carries the request that wrote it, and the cache carries the record of the requests whose
entries were looked up or written and of the answers it gave; no code reads these.
-/

namespace CommerceCollector

open JsonText

/-! ## URLs -/

/-- The parts of `urlsplit`, without the fragment. -/
structure SplitResult where
  scheme : List Char
  netloc : List Char
  path : List Char
  query : List Char
  deriving DecidableEq

namespace SplitResult

/-- What follows the last `@` of the authority. -/
def hostinfo (p : SplitResult) : List Char := (p.netloc.reverse.takeWhile (· != '@')).reverse

/-- What follows the first occurrence of a character, and nothing if there is none. -/
def afterFirst (c : Char) (text : List Char) : List Char := (text.dropWhile (· != c)).drop 1

/-- `_hostinfo`: the host and the digits of the port. -/
def hostAndPort (p : SplitResult) : List Char × List Char :=
  if '[' ∈ p.hostinfo then
    ((afterFirst '[' p.hostinfo).takeWhile (· != ']'),
      afterFirst ':' (afterFirst ']' (afterFirst '[' p.hostinfo)))
  else (p.hostinfo.takeWhile (· != ':'), afterFirst ':' p.hostinfo)

/-- `port`; it raises, if it is not a number up to 65535. -/
def port (p : SplitResult) : Option (Option ℕ) :=
  if p.hostAndPort.2 = [] then some none
  else if p.hostAndPort.2.all Char.isDigit = true ∧ Nat.ofDigitChars 10 p.hostAndPort.2 0 ≤ 65535 then
    some (some (Nat.ofDigitChars 10 p.hostAndPort.2 0))
  else none

/-- `hostname`: the host up to a zone in lower case. -/
def hostname (lower : List Char → List Char) (p : SplitResult) : Option (List Char) :=
  if p.hostAndPort.1 = [] then none
  else some (lower (p.hostAndPort.1.takeWhile (· != '%')) ++ p.hostAndPort.1.dropWhile (· != '%'))

end SplitResult

/-- The parts of Python's library that the cache uses: `str.casefold`, `str.upper`, `str.lower`,
`str.isalnum`, `unquote`, `urlencode`, the check of an authority, and `idna`, which is
`host.encode("idna").decode("ascii").casefold()`.  The check refuses an authority whose host could
stand for one with a delimiter of a URL. -/
structure Python where
  casefold : String → String
  upper : String → String
  lower : List Char → List Char
  isalnum : Char → Bool
  unquote : List Char → List Char
  urlencode : List (String × String) → List Char
  checknetloc : List Char → Bool
  idna : List Char → Option (List Char)
  idna_clean : ∀ p : SplitResult, checknetloc p.netloc = true → ∀ host ∈ p.hostname lower,
    ∀ normalizedHost ∈ idna host, '/' ∉ normalizedHost

/-- The scheme of a URL, and the rest. -/
def splitScheme (url : List Char) : List Char × List Char :=
  let scheme := url.takeWhile (· != ':')
  if scheme.length < url.length ∧ (scheme.head?.any Char.isAlpha) = true ∧
      scheme.all (fun c => c.isAlphanum || "+-.".toList.contains c) = true then
    (scheme.map Char.toLower, url.drop (scheme.length + 1))
  else ([], url)

/-- The authority of a URL without its scheme, and the rest. -/
def splitNetloc : List Char → List Char × List Char
  | '/' :: '/' :: rest =>
    (rest.takeWhile fun c => !"/?#".toList.contains c, rest.dropWhile fun c => !"/?#".toList.contains c)
  | url => ([], url)

/-- `urlsplit`; nothing, if it raises. -/
def urlsplit (python : Python) (url : String) : Option SplitResult :=
  let stripped := (url.toList.dropWhile fun c => c.toNat ≤ 32).filter fun c =>
    !"\t\r\n".toList.contains c
  let scheme := splitScheme stripped
  let netloc := splitNetloc scheme.2
  let request := netloc.2.takeWhile (· != '#')
  if python.checknetloc netloc.1 = true then
    some { scheme := scheme.1, netloc := netloc.1, path := request.takeWhile (· != '?'),
           query := SplitResult.afterFirst '?' request }
  else none

/-- The pieces between the occurrences of a character. -/
def pieces (c : Char) (text : List Char) : List (List Char) :=
  text.foldr (fun d rest => if d = c then [] :: rest else (d :: rest.headD []) :: rest.tail) [[]]

/-- `parse_qsl`, with blank values. -/
def parseQsl (python : Python) (query : List Char) : List (String × String) :=
  (pieces '&' query).filterMap fun nameValue =>
    if nameValue = [] then none
    else
      let text := fun part : List Char =>
        String.ofList (python.unquote (part.map fun c => if c = '+' then ' ' else c))
      some (text (nameValue.takeWhile (· != '=')), text (SplitResult.afterFirst '=' nameValue))

/-! ## Requests -/

/-- A value of the query mapping; a float is its `repr`. -/
inductive QueryValue
  | str (s : String)
  | int (n : ℤ)
  | float (repr : String)
  | bool (b : Bool)
  deriving DecidableEq

/-- `str(value).lower() if isinstance(value, bool) else str(value)`. -/
def QueryValue.text : QueryValue → String
  | str s => s
  | int n => toString n
  | float repr => repr
  | bool b => if b = true then "true" else "false"

/-- `CachePolicy`. -/
inductive CachePolicy
  | default | bypass | refresh
  deriving DecidableEq

/-- `BrowserHint`. -/
inductive BrowserHint
  | never | optional | required
  deriving DecidableEq

/-- The value of the enumeration. -/
def BrowserHint.value : BrowserHint → String
  | never => "never"
  | optional => "optional"
  | required => "required"

/-- `BrowserEvaluation`. -/
structure BrowserEvaluation where
  actionId : String
  script : String
  waitFor : Option String := none
  waitMilliseconds : ℕ := 2000
  deriving DecidableEq

/-- What the cache reads of a `TransportRequest`. -/
structure TransportRequest where
  method : String := "GET"
  url : String
  query : List (String × QueryValue) := []
  headers : List (String × String) := []
  jsonBody : Option Value := none
  body : Option ByteArray := none
  cache : CachePolicy := .default
  browser : BrowserHint := .never
  evaluation : Option BrowserEvaluation := none

/-! ## The identity of a request -/

/-- `_CREDENTIAL_MARKERS`. -/
def credentialMarkers : List String :=
  ["authorization", "cookie", "password", "passwd", "passphrase", "secret", "apikey", "accesskey",
   "privatekey", "clientkey", "credential", "signature", "token", "proxyuser"]

/-- `_KEYED_REQUEST_HEADERS`. -/
def keyedRequestHeaders : List String := ["accept", "accept-language", "content-type"]

section Identity

variable (python : Python) (digest : ByteArray → String)

/-- `_normalized_name`. -/
def normalizedName (value : String) : List Char :=
  (python.casefold value).toList.filter python.isalnum

/-- `_credential_name`. -/
def credentialName (value : String) : Bool :=
  ["auth", "key", "sig"].contains (String.ofList (normalizedName python value)) ||
    credentialMarkers.any fun marker =>
      (normalizedName python value).tails.any fun rest => marker.toList.isPrefixOf rest

/-- Where a request goes: the scheme, the host and the port, the path, and the decoded parameters of
the query of the URL and of the mapping. -/
structure RequestTarget where
  scheme : List Char
  host : List Char
  port : Option ℕ
  path : List Char
  query : List (String × String)
  deriving DecidableEq

/-- The target of a request, as `_normalized_url_and_query` finds it: nothing, if the URL is not one
of HTTP with a host, if it carries user information, or if a parameter has the name of a
credential. -/
def requestTarget (r : TransportRequest) : Option RequestTarget :=
  (urlsplit python r.url).bind fun parsed =>
    parsed.port.bind fun port =>
      if ¬["http".toList, "https".toList].contains parsed.scheme ∨ '@' ∈ parsed.netloc then none
      else
        (parsed.hostname python.lower).bind fun host =>
          (python.idna host).bind fun normalizedHost =>
            let query := parseQsl python parsed.query ++ r.query.map fun q => (q.1, q.2.text)
            if query.any (fun q => credentialName python q.1) = true then none
            else
              some { scheme := parsed.scheme, host := normalizedHost, port,
                     path := if parsed.path = [] then ['/'] else parsed.path, query }

namespace RequestTarget

/-- The port of the scheme. -/
def defaultPort (t : RequestTarget) : ℕ := if t.scheme = "http".toList then 80 else 443

/-- The port to which the request goes. -/
def effectivePort (t : RequestTarget) : ℕ := t.port.getD t.defaultPort

/-- `authority`. -/
def authority (t : RequestTarget) : List Char :=
  let host := if ':' ∈ t.host then '[' :: (t.host ++ [']']) else t.host
  if t.effectivePort = t.defaultPort then host else host ++ ':' :: Nat.toDigits 10 t.effectivePort

/-- `sorted(query)`. -/
def normalizedQuery (t : RequestTarget) : List (String × String) :=
  t.query.insertionSort fun p q => p.1 < q.1 ∨ p.1 = q.1 ∧ p.2 ≤ q.2

/-- The normalized URL. -/
def url (t : RequestTarget) : List Char :=
  let query := python.urlencode t.normalizedQuery
  t.scheme ++ "://".toList ++ t.authority ++ t.path ++ if query = [] then [] else '?' :: query

end RequestTarget

/-- An entry of a dictionary is set. -/
def setEntry {α : Type*} (entries : List (String × α)) (key : String) (value : α) :
    List (String × α) :=
  if key ∈ entries.map Prod.fst then entries.map fun e => if e.1 = key then (key, value) else e
  else entries ++ [(key, value)]

/-- `relevant_headers`. -/
def relevantHeaders (r : TransportRequest) : List (String × String) :=
  (r.headers.filter fun h => keyedRequestHeaders.contains (python.casefold h.1)).foldl
    (fun entries h => setEntry entries (python.casefold h.1) h.2) []

/-- The body of a request: its JSON, or its bytes. -/
def canonicalBody (r : TransportRequest) : ByteArray :=
  match r.jsonBody with
  | some v => (String.ofList (dumpsSorted v)).toUTF8
  | none => r.body.getD ByteArray.empty

/-- A query as JSON. -/
def queryValue (query : List (String × String)) : Value :=
  .array (query.map fun q => .array [.string q.1, .string q.2])

/-- An evaluation as JSON. -/
def evaluationValue : Option BrowserEvaluation → Value
  | none => .null
  | some e => .object
      [("action_id", .string e.actionId), ("script_sha256", .string (digest e.script.toUTF8)),
       ("wait_for", (e.waitFor.map Value.string).getD .null),
       ("wait_milliseconds", .number (.ofNat e.waitMilliseconds))]

/-- The value of which the key is the digest. -/
def identityValue (r : TransportRequest) : List (String × Value) :=
  let normalized := (requestTarget python r).map fun t => (String.ofList (t.url python), t.normalizedQuery)
  [("schema", .number (.ofNat 3)), ("method", .string (python.upper r.method)),
   ("url", .string ((normalized.map Prod.fst).getD "[ineligible]")),
   ("query", queryValue ((normalized.map Prod.snd).getD [])),
   ("headers", .object ((relevantHeaders python r).map fun h => (h.1, .string h.2))),
   ("body", .string (digest (canonicalBody r))), ("browser", .string r.browser.value),
   ("evaluation", evaluationValue digest r.evaluation)]

/-- `_RequestCacheIdentity`. -/
structure RequestCacheIdentity where
  key : String
  eligible : Bool
  deriving DecidableEq

/-- `_request_cache_identity`. -/
def requestCacheIdentity (r : TransportRequest) : RequestCacheIdentity where
  key := digest (String.ofList (dumpsSorted (.object (identityValue python digest r)))).toUTF8
  eligible := (requestTarget python r).isSome && !r.headers.any fun h => credentialName python h.1

end Identity

/-! ## The caches -/

variable {ρ : Type*}

/-- An entry of the cache, with the request that wrote it. -/
structure CacheEntry (ρ : Type*) where
  writer : TransportRequest
  response : ρ

/-- An answer of the cache. -/
structure CacheHit (ρ : Type*) where
  request : TransportRequest
  entry : CacheEntry ρ

/-- `MemoryResponseCache` or `FileResponseCache`: the entries by their keys. -/
structure ResponseCache (ρ : Type*) where
  entries : List (String × CacheEntry ρ) := []
  accessed : List TransportRequest := []
  hits : List (CacheHit ρ) := []

/-- What a cache lookup carries to the write of the response. -/
structure CacheLookup where
  identity : RequestCacheIdentity
  writable : Bool

namespace ResponseCache

variable (python : Python) (digest : ByteArray → String)

/-- The lookup of `get_with_stale`, without the responses. -/
def lookup (r : TransportRequest) : CacheLookup :=
  let identity := requestCacheIdentity python digest r
  { identity, writable := identity.eligible && decide (r.cache ≠ .bypass) }

/-- `get_with_stale`; a file that is too old, too large or damaged is not `readable`. -/
def getWithStale (s : ResponseCache ρ) (r : TransportRequest) (readable : Bool) : ResponseCache ρ :=
  let identity := requestCacheIdentity python digest r
  if ¬identity.eligible ∨ r.cache ≠ .default then s
  else
    let s := { s with accessed := r :: s.accessed }
    match s.entries.lookup identity.key with
    | some entry => if readable = true then { s with hits := ⟨r, entry⟩ :: s.hits } else s
    | none => s

/-- `_put`; a cache in memory that is full drops its first entry. -/
def write (s : ResponseCache ρ) (maximumEntries : Option ℕ) (identity : RequestCacheIdentity)
    (r : TransportRequest) (response : ρ) : ResponseCache ρ :=
  let full := maximumEntries.any fun maximum => decide (maximum ≤ s.entries.length)
  let kept := if identity.key ∉ s.entries.map Prod.fst ∧ full = true then s.entries.tail else s.entries
  { s with entries := setEntry kept identity.key ⟨r, response⟩, accessed := r :: s.accessed }

/-- `put`. -/
def put (s : ResponseCache ρ) (maximumEntries : Option ℕ) (r : TransportRequest) (response : ρ) :
    ResponseCache ρ :=
  let identity := requestCacheIdentity python digest r
  if ¬identity.eligible ∨ r.cache = .bypass then s else s.write maximumEntries identity r response

/-- The cache is read before the attempts of a request. -/
def beforeAttempts (s : ResponseCache ρ) (r : TransportRequest) (readable : Bool) : ResponseCache ρ :=
  if r.cache = .default then s.getWithStale python digest r readable else s

/-- `_cache_put`: the response is written through the lookup, if there was one. -/
def cachePut (s : ResponseCache ρ) (maximumEntries : Option ℕ) (r : TransportRequest) (response : ρ) :
    ResponseCache ρ :=
  if r.cache = .default then
    let lookup := lookup python digest r
    if lookup.writable = true then s.write maximumEntries lookup.identity r response else s
  else s.put python digest maximumEntries r response

end ResponseCache

/-- What the middlewares that share a cache do with it. -/
inductive CacheEvent (ρ : Type*)
  | reads (r : TransportRequest) (readable : Bool)
  | writes (r : TransportRequest) (response : ρ)

/-- The cache after an event. -/
def ResponseCache.step (python : Python) (digest : ByteArray → String) (maximumEntries : Option ℕ)
    (s : ResponseCache ρ) : CacheEvent ρ → ResponseCache ρ
  | .reads r readable => s.beforeAttempts python digest r readable
  | .writes r response => s.cachePut python digest maximumEntries r response

/-- The cache after a run, from its creation. -/
def cacheAfter (python : Python) (digest : ByteArray → String) (maximumEntries : Option ℕ)
    (events : List (CacheEvent ρ)) : ResponseCache ρ :=
  Trace.exec (ResponseCache.step python digest maximumEntries) {} events

end CommerceCollector
