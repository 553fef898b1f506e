import CommerceCollector.Transports.Redirects

/-!
# Robots checks

`CachedRobotsChecker` of `transports/robots.py`: one robots policy is fetched per origin and kept.
Checks of an origin whose policy is being fetched await the task of that fetch.

The sections under the lock contain no suspension, so a check runs in one go up to `await task`, and
in one go behind it.  Cancelling a check that awaits a running fetch cancels the task of the fetch,
which is not shielded; if the fetch is over, the check itself raises when it goes on.  A cancelled
task may still end in another way, if the transport does not let the cancellation through.  The
parser of robots files is a parameter.
-/

namespace CommerceCollector

/-- The arguments of a checker that its constructor accepts, and `RobotFileParser`. -/
structure RobotsConfig (Parser : Type*) where
  userAgent : String
  transportFailureDecision : Bool
  serverFailureDecision : Bool
  maximumOrigins : ℕ
  maximumOrigins_pos : 0 < maximumOrigins
  parse : String → Parser
  canFetch : Parser → String → String → Bool

/-- `_Rules`. -/
inductive RobotsRules (Parser : Type*)
  | forced (decision : Bool)
  | parsed (parser : Parser)

/-- What an awaited task or a check raises. -/
inductive RobotsError
  /-- `CancelledError`. -/
  | cancelled
  | raised (error : String)
  deriving DecidableEq, Repr

/-- How the request of a fetch ends: with a response, in `TransportFailure`, in another exception,
or cancelled. -/
inductive RobotsAnswer
  | response (status : ℕ) (text : String)
  | transportFailure
  | raised (error : String)
  | cancelled
  deriving DecidableEq, Repr

/-- The task of `_fetch_rules`. -/
structure RobotsFetch where
  origin : String
  cancelRequested : Bool := false
  answer : Option RobotsAnswer := none
  deriving DecidableEq, Repr

/-- Where a check is. -/
inductive RobotsPhase
  | awaiting (origin : String) (fetch : ℕ)
  | ended (outcome : Except RobotsError Bool)
  deriving DecidableEq

/-- A call of `allowed`.  Whether it was cancelled is recorded. -/
structure RobotsCall where
  url : String
  phase : RobotsPhase
  interrupted : Bool := false
  mustCancel : Bool := false
  deriving DecidableEq

/-- A checker, the tasks of its fetches in the order in which they began, and its calls. -/
structure RobotsChecker (Parser : Type*) where
  rules : List (String × RobotsRules Parser) := []
  inflight : List (String × ℕ) := []
  fetches : List RobotsFetch := []
  calls : List RobotsCall := []

/-- What happens to a checker: a call, the cancellation of a call, the end of a fetch, and a call
that goes on behind its fetch. -/
inductive RobotsAction
  | allowed (url : String)
  | cancel (call : ℕ)
  | finish (fetch : ℕ) (answer : RobotsAnswer)
  | resume (call : ℕ)
  deriving DecidableEq, Repr

section

variable {Parser : Type*} (python : Python) (config : RobotsConfig Parser)

/-- `_safe_origin`. -/
def safeOrigin (url : String) : Option String :=
  (urlsplit python url).bind fun parsed =>
    if ["http".toList, "https".toList].contains parsed.scheme = false then none
    else
      (parsed.hostname python.lower).bind fun hostname =>
        parsed.port.map fun port =>
          let host := Redirects.bracketed (python.casefold (String.ofList hostname)).toList
          let defaultPort := if parsed.scheme = "http".toList then 80 else 443
          let netloc := match port with
            | none => host
            | some port => if port = defaultPort then host else host ++ ':' :: Nat.toDigits 10 port
          urlunsplit parsed.scheme netloc [] [] []

/-- `_Rules.allowed`. -/
def RobotsRules.allowed (rules : RobotsRules Parser) (url : String) : Bool :=
  match rules with
  | .forced decision => decision
  | .parsed parser => config.canFetch parser config.userAgent url

/-- What `_fetch_rules` makes of the end of its request. -/
def fetchRules : RobotsAnswer → Except RobotsError (RobotsRules Parser)
  | .transportFailure => .ok (.forced config.transportFailureDecision)
  | .response status text =>
    if 200 ≤ status ∧ status < 300 then .ok (.parsed (config.parse text))
    else if status = 401 ∨ status = 403 then .ok (.forced false)
    else if 400 ≤ status ∧ status < 500 then .ok (.forced true)
    else .ok (.forced config.serverFailureDecision)
  | .raised error => .error (.raised error)
  | .cancelled => .error .cancelled

namespace RobotsChecker

/-- A call is somewhere else. -/
def put (s : RobotsChecker Parser) (i : ℕ) (call : RobotsCall) : RobotsChecker Parser :=
  { s with calls := s.calls.set i call }

/-- `allowed`, up to its suspension, if there is one. -/
def allowed (s : RobotsChecker Parser) (url : String) : RobotsChecker Parser :=
  match safeOrigin python url with
  | none =>
    { s with calls := s.calls ++ [{ url, phase := .ended (.ok config.transportFailureDecision) }] }
  | some origin =>
    match s.rules.lookup origin with
    | some rules =>
      { s with calls := s.calls ++ [{ url, phase := .ended (.ok (rules.allowed config url)) }] }
    | none =>
      match s.inflight.lookup origin with
      | some fetch => { s with calls := s.calls ++ [{ url, phase := .awaiting origin fetch }] }
      | none =>
        { s with
          fetches := s.fetches ++ [{ origin }]
          inflight := s.inflight ++ [(origin, s.fetches.length)]
          calls := s.calls ++ [{ url, phase := .awaiting origin s.fetches.length }] }

/-- A call is cancelled: the task that it awaits, or the call itself, if that task is over. -/
def cancel (s : RobotsChecker Parser) (i : ℕ) : RobotsChecker Parser :=
  match s.calls[i]? with
  | some call =>
    match call.phase with
    | .ended _ => s
    | .awaiting _ f =>
      match s.fetches[f]? with
      | none => s
      | some fetch =>
        if fetch.answer = none then
          ({ s with fetches := s.fetches.set f { fetch with cancelRequested := true } } :
            RobotsChecker Parser).put i { call with interrupted := true }
        else s.put i { call with interrupted := true, mustCancel := true }
  | none => s

/-- A fetch ends.  It ends cancelled only if that was asked for. -/
def finish (s : RobotsChecker Parser) (f : ℕ) (answer : RobotsAnswer) : RobotsChecker Parser :=
  match s.fetches[f]? with
  | none => s
  | some fetch =>
    if fetch.answer = none ∧ (answer = .cancelled → fetch.cancelRequested = true) then
      { s with fetches := s.fetches.set f { fetch with answer := some answer } }
    else s

/-- `_rules_for` behind its suspension, with the rules of the task: the rules that are kept. -/
def keep (s : RobotsChecker Parser) (origin : String) (rules : RobotsRules Parser) :
    RobotsChecker Parser × RobotsRules Parser :=
  match s.rules.lookup origin with
  | some existing => (s, existing)
  | none =>
    let kept := if config.maximumOrigins ≤ s.rules.length then s.rules.drop 1 else s.rules
    ({ s with rules := kept ++ [(origin, rules)] }, rules)

/-- A call goes on when the task that it awaits is over. -/
def resume (s : RobotsChecker Parser) (i : ℕ) : RobotsChecker Parser :=
  match s.calls[i]? with
  | some call =>
    match call.phase with
    | .ended _ => s
    | .awaiting origin f =>
      match s.fetches[f]?.bind (·.answer) with
      | none => s
      | some answer =>
        let s := { s with inflight := s.inflight.filter fun entry => entry.1 ≠ origin }
        let result := if call.mustCancel then .error .cancelled else fetchRules config answer
        match result with
        | .error error => s.put i { call with phase := .ended (.error error) }
        | .ok rules =>
          let kept := s.keep config origin rules
          kept.1.put i { call with phase := .ended (.ok (kept.2.allowed config call.url)) }
  | none => s

/-- One action. -/
def step (s : RobotsChecker Parser) : RobotsAction → RobotsChecker Parser
  | .allowed url => s.allowed python config url
  | .cancel i => s.cancel i
  | .finish f answer => s.finish f answer
  | .resume i => s.resume config i

end RobotsChecker

end

end CommerceCollector
