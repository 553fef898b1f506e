import CommerceCollector.Transports.URLPolicy

/-!
# Redirects

`HttpxTransport.request`: the loop over the hops of a request, with the variables it carries, its
headers among them, and the URL policy that it shares with the other requests.  A state of the run
is the policy, the phase of the request and the record of the physical requests; an event is a step
of the request, the end of a task of the resolver, a lookup by another request, or the closing of
the transport.

A physical request is what is handed to the client of HTTPX; its answers, and its failures, are
parts of the events.
-/

namespace CommerceCollector.Redirects

open JsonText

/-! ## Physical requests -/

/-- What the loop carries from hop to hop: `current` is the URL of the last hop, and `redirect` its
number. -/
structure Carried where
  current : String
  redirect : ℕ
  method : String
  headers : List (String × String)
  jsonBody : Option Value
  body : Option ByteArray

/-- What is handed to the client: the logical URL, and the endpoint at an address of its host. -/
structure PhysicalRequest where
  method : String
  url : String
  address : String
  endpoint : String
  sniHostname : List Char
  query : List (String × QueryValue)
  headers : List (String × String)
  jsonBody : Option Value
  body : Option ByteArray

/-- A host in brackets, if it is an address with colons. -/
def bracketed (host : List Char) : List Char :=
  if ':' ∈ host then '[' :: (host ++ [']']) else host

/-- `_endpoint_url`, from the parts of the logical URL. -/
def endpointUrl (parsed : SplitResult) (port : Option ℕ) (address : String) : String :=
  urlunsplit parsed.scheme (bracketed address.toList ++ SplitResult.portSuffix port) parsed.path
    parsed.query []

/-- `_host_header`. -/
def hostHeader (python : Python) (parsed : SplitResult) (port : Option ℕ) : String :=
  let host := bracketed ((parsed.hostname python.lower).getD [])
  let default := parsed.scheme = "https".toList ∧ (port = none ∨ port = some 443) ∨
    parsed.scheme = "http".toList ∧ (port = none ∨ port = some 80)
  String.ofList (if default then host else host ++ ':' :: ((port.map (Nat.toDigits 10)).getD
    "None".toList))

/-- The header of the host is set, and the parts of a physical request are put together, unless the
transport is closed. -/
def physicalRequest (python : Python) (r : TransportRequest) (closed : Bool) (c : Carried)
    (address : String) : Except String (Carried × PhysicalRequest) :=
  match (urlsplit python c.current).bind fun parsed => parsed.port.map (parsed, ·) with
  | none => .error "invalid URL"
  | some (parsed, port) =>
    if closed = true then .error "HTTP transport is closed"
    else match python.idna ((parsed.hostname python.lower).getD []) with
      | none => .error "label empty or too long"
      | some sniHostname =>
        let headers := setEntry c.headers "Host" (hostHeader python parsed port)
        .ok ({ c with headers },
          { method := c.method, url := c.current, address,
            endpoint := endpointUrl parsed port address, sniHostname,
            query := if c.redirect = 0 then r.query else [],
            headers, jsonBody := c.jsonBody, body := c.body })

/-! ## Redirects -/

/-- The names that `_strip_sensitive_headers` removes. -/
def sensitive : List String := ["authorization", "proxy-authorization", "cookie"]

/-- `_strip_sensitive_headers`. -/
def stripSensitiveHeaders (python : Python) (headers : List (String × String)) :
    List (String × String) :=
  headers.filter fun h => !sensitive.contains (python.casefold h.1)

/-- A URL that is validated: that of the request, or the target of a redirect with its status. -/
structure Target where
  url : String
  redirected : Option ℕ

/-- The redirect leads to another origin. -/
def Target.Crosses (python : Python) (t : Target) (c : Carried) : Prop :=
  t.redirected.isSome ∧ urlOrigin python t.url ≠ urlOrigin python c.current

instance (python : Python) (t : Target) (c : Carried) : Decidable (t.Crosses python c) := by
  unfold Target.Crosses
  infer_instance

/-- The answer turns the request into one without a body. -/
def becomesGet (python : Python) (status : ℕ) (method : String) : Prop :=
  status = 303 ∨ (status = 301 ∨ status = 302) ∧ python.upper method = "POST"

instance (python : Python) (status : ℕ) (method : String) :
    Decidable (becomesGet python status method) := by
  unfold becomesGet
  infer_instance

/-- The variables of the next hop, after its URL is validated. -/
def follow (python : Python) (t : Target) (c : Carried) : Except String Carried :=
  match t.redirected with
  | none => .ok { c with current := t.url }
  | some status =>
    if t.Crosses python c ∧ (c.jsonBody.isSome ∨ c.body.isSome) then
      .error "cross-origin redirect with a request body is refused"
    else
      let headers := if t.Crosses python c then stripSensitiveHeaders python c.headers else c.headers
      let next := { c with current := t.url, redirect := c.redirect + 1, headers }
      if becomesGet python status c.method then
        .ok { next with method := "GET", jsonBody := none, body := none }
      else .ok next

/-! ## Runs -/

/-- What the request does. -/
inductive Phase
  | fresh
  | resolving (key : String) (t : Target) (c : Carried)
  | awaiting (c : Carried)
  | returned (status : ℕ)
  | raised (error : String)

/-- The request, the policy and whether the transport is closed; `sent` is the record of the
physical requests, the last one first. -/
structure State where
  policy : URLPolicy
  phase : Phase := .fresh
  closed : Bool := false
  sent : List PhysicalRequest := []

/-- What a physical request comes back with. -/
inductive Reply
  | response (status : ℕ) (location : Option String)
  | failure (error : String)

/-- The events of a run. -/
inductive Event
  | starts (now : ℚ)
  | answers (reply : Reply) (now : ℚ)
  | resolves (key : String) (answer : Except String (List String)) (now : ℚ)
  | asks (host : String) (now : ℚ)
  | closes

/-- `response.is_redirect`. -/
def isRedirect (status : ℕ) : Prop := 300 ≤ status ∧ status ≤ 399

instance (status : ℕ) : Decidable (isRedirect status) := by
  unfold isRedirect
  infer_instance

section

variable (python : Python) (isGlobal : String → Bool) (maximumRedirects : ℕ) (r : TransportRequest)

/-- The variables before the first hop. -/
def initially : Carried where
  current := r.url
  redirect := 0
  method := r.method
  headers := r.headers
  jsonBody := r.jsonBody
  body := r.body

/-- The next hop, with the addresses of its host. -/
def hop (closed : Bool) (t : Target) (c : Carried) (addresses : List String) :
    Except String (Carried × PhysicalRequest) :=
  match follow python t c, addresses with
  | .error error, _ => .error error
  | .ok _, [] => .error "tuple index out of range"
  | .ok c, address :: _ => physicalRequest python r closed c address

namespace State

/-- The next hop is sent. -/
def send (s : State) (t : Target) (c : Carried) (addresses : List String) : State :=
  match hop python r s.closed t c addresses with
  | .error error => { s with phase := .raised error }
  | .ok (c, physical) => { s with phase := .awaiting c, sent := physical :: s.sent }

/-- `validate_with_addresses`, and the hop, if the addresses are at hand. -/
def validates (s : State) (t : Target) (c : Carried) (now : ℚ) : State :=
  match s.policy.admits python t.url with
  | .error error => { s with phase := .raised error }
  | .ok host =>
    match s.policy.resolve python host now with
    | (policy, .ready addresses) => { s with policy }.send python r t c addresses
    | (policy, .waits key) => { s with policy, phase := .resolving key t c }

/-- The request gets an answer. -/
def answered (s : State) (c : Carried) (reply : Reply) (now : ℚ) : State :=
  match reply with
  | .failure error => { s with phase := .raised error }
  | .response status location =>
    if ¬isRedirect status then { s with phase := .returned status }
    else if c.redirect = maximumRedirects then
      { s with phase := .raised "maximum redirect count exceeded" }
    else if location.getD "" = "" then
      { s with phase := .raised "redirect response omitted Location" }
    else
      match urljoin python c.current (location.getD "") with
      | none => { s with phase := .raised "invalid URL" }
      | some url => s.validates python r ⟨url, some status⟩ c now

/-- The state after an event. -/
def step (s : State) : Event → State
  | .starts now =>
    match s.phase with
    | .fresh =>
      if r.browser = .required then
        let error := "request requires a browser transport, but only HTTP is configured"
        { s with phase := .raised error }
      else s.validates python r ⟨r.url, none⟩ (initially r) now
    | _ => s
  | .answers reply now =>
    match s.phase with
    | .awaiting c => s.answered python maximumRedirects r c reply now
    | _ => s
  | .resolves key answer now =>
    match s.policy.resolveAndCache isGlobal key answer now, s.phase with
    | (policy, result), .resolving awaited t c =>
      if awaited ≠ key then { s with policy }
      else match result with
        | .ok addresses => { s with policy }.send python r t c addresses
        | .error error => { s with policy, phase := .raised error }
    | (policy, _), _ => { s with policy }
  | .asks host now => { s with policy := (s.policy.resolve python host now).1 }
  | .closes => { s with closed := true }

end State

/-- The state after a run of a request, through a policy with the allowed origins. -/
def after (origins : List (List Char)) (events : List Event) : State :=
  Trace.exec (State.step python isGlobal maximumRedirects r)
    { policy := { origins } } events

end

end CommerceCollector.Redirects
