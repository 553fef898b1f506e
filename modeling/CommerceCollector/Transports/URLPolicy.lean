import CommerceCollector.Foundation.Table
import CommerceCollector.Transports.ResponseCache
import Mathlib.Data.Rat.Defs

/-!
# The URL policy

`url_policy.py`: which URLs a request may go to, and which addresses.  A URL is joined to the one it
redirects from as `urllib.parse.urljoin` joins it; its origin must be one of the allowed origins,
and its host must resolve to public addresses only.  Resolutions are kept for a while under the host
without its case, and a host that is being resolved is not resolved a second time.

A task of the resolver ends at some later time, with an answer; the requests that await it go on
then. The policy carries the record of the answers that passed its check; no code reads it.
-/

namespace CommerceCollector

section

variable (python : Python) (isGlobal : String → Bool)

/-! ## Joining URLs -/

/-- The fragment of a URL. -/
def urlFragment (url : String) : List Char :=
  let stripped := (url.toList.dropWhile fun c => c.toNat ≤ 32).filter fun c =>
    !"\t\r\n".toList.contains c
  SplitResult.afterFirst '#' (splitNetloc (splitScheme stripped).2).2

/-- `_splitparams`: the parameters of the last segment of a path. -/
def splitParams (path : List Char) : List Char × List Char :=
  let segment := (path.reverse.takeWhile (· != '/')).reverse
  (path.take (path.length - segment.length) ++ segment.takeWhile (· != ';'),
    SplitResult.afterFirst ';' segment)

/-- A part of a URL behind its delimiter, if there is one. -/
def delimited (delimiter : Char) (part : List Char) : List Char :=
  if part = [] then [] else delimiter :: part

/-- `urlunsplit`, with an authority. -/
def urlunsplit (scheme netloc path query fragment : List Char) : String :=
  String.ofList (scheme ++ "://".toList ++ netloc ++
    (if path.head?.all (· == '/') = true then path else '/' :: path) ++
    delimited '?' query ++ delimited '#' fragment)

/-- The segments of a path: those behind the directory of the base, if it does not begin at the
root. Empty segments are dropped where the two meet. -/
def joinSegments (base path : List Char) : List (List Char) :=
  if path.head? = some '/' then pieces '/' path
  else
    let parts := pieces '/' base
    match (if parts.getLast? = some [] then parts else parts.dropLast) ++ pieces '/' path with
    | [] => []
    | first :: rest => first :: (rest.dropLast.filter (· ≠ []) ++ rest.getLast?.toList)

/-- The path of the segments, in which `.` and `..` are followed. -/
def resolvePath (segments : List (List Char)) : List Char :=
  let resolved := segments.foldl (fun resolved segment =>
    if segment = "..".toList then resolved.dropLast
    else if segment = ".".toList then resolved
    else resolved ++ [segment]) []
  let last := segments.getLast?
  let closed := if last = some ".".toList ∨ last = some "..".toList then resolved ++ [[]] else resolved
  let path := List.intercalate ['/'] closed
  if path = [] then ['/'] else path

/-- `urljoin`, from a URL of HTTP with an authority; nothing, if a URL cannot be split. -/
def urljoin (base url : String) : Option String :=
  if url = "" then some base
  else
    (urlsplit python base).bind fun b =>
      (urlsplit python url).map fun u =>
        let scheme := if u.scheme = [] then b.scheme else u.scheme
        if scheme ≠ b.scheme then url
        else if u.netloc ≠ [] then urlunsplit scheme u.netloc u.path u.query (urlFragment url)
        else if u.path = [] then
          urlunsplit scheme b.netloc b.path (if u.query = [] then b.query else u.query)
            (urlFragment url)
        else
          let target := splitParams u.path
          urlunsplit scheme b.netloc
            (resolvePath (joinSegments (splitParams b.path).1 target.1) ++ delimited ';' target.2)
            u.query (urlFragment url)

/-! ## Origins -/

namespace SplitResult

/-- The user information of the authority: what precedes its last `@`. -/
def userinfo (p : SplitResult) : List Char :=
  ((p.netloc.reverse.dropWhile (· != '@')).drop 1).reverse

/-- `username`. -/
def username (p : SplitResult) : List Char := p.userinfo.takeWhile (· != ':')

/-- `password`. -/
def password (p : SplitResult) : List Char := afterFirst ':' p.userinfo

/-- The port behind its colon, if there is one and it is not zero. -/
def portSuffix : Option ℕ → List Char
  | none | some 0 => []
  | some port => ':' :: Nat.toDigits 10 port

end SplitResult

/-- `URLPolicy._origin`; nothing, if it raises. -/
def urlOrigin (url : String) : Option (List Char) :=
  (urlsplit python url).bind fun parsed =>
    parsed.port.map fun port =>
      python.lower parsed.scheme ++ "://".toList ++
        python.lower ((parsed.hostname python.lower).getD []) ++ SplitResult.portSuffix port

/-! ## The policy -/

/-- `_ResolutionEntry`. -/
structure ResolutionEntry where
  addresses : List String
  expiresAt : ℚ
  deriving DecidableEq

/-- `URLPolicy`: `origins` are the origins of the allowed URLs, the resolutions are in the order of
their last use, and a task is the key and the host that it resolves. -/
structure URLPolicy where
  origins : List (List Char)
  resolverTtlSeconds : ℚ := 60
  maximumResolvedHosts : ℕ := 256
  resolutions : List (String × ResolutionEntry) := []
  resolutionTasks : List (String × String) := []
  validated : List (String × List String) := []
  deriving DecidableEq

/-- What `_resolve` has at once: addresses, or a task to wait for. -/
inductive HostLookup
  | ready (addresses : List String)
  | waits (key : String)
  deriving DecidableEq

/-- `_validate_addresses`. -/
def validateAddresses (addresses : List String) : Except String (List String) :=
  if addresses = [] then .error "URL host did not resolve"
  else match addresses.find? fun a => !isGlobal a with
    | some a => .error ("URL host resolves to a non-public address: " ++ a)
    | none => .ok addresses

namespace URLPolicy

/-- The checks of `validate_with_addresses` on an absolute URL; the host, if it passes. -/
def admits (p : URLPolicy) (url : String) : Except String String :=
  match urlsplit python url with
  | none => .error "invalid URL"
  | some parsed =>
    match parsed.hostname python.lower with
    | none => .error "URL policy permits only absolute HTTP(S) URLs"
    | some host =>
      if ["http".toList, "https".toList].contains parsed.scheme = false then
        .error "URL policy permits only absolute HTTP(S) URLs"
      else if parsed.username ≠ [] ∨ parsed.password ≠ [] then
        .error "URL policy rejects embedded user information"
      else
        match urlOrigin python url with
        | none => .error "Port out of range 0-65535"
        | some origin =>
          if origin ∈ p.origins then .ok (String.ofList host)
          else .error ("URL origin is not allowed: " ++ String.ofList origin)

/-- The resolutions without those of a key. -/
def forget (p : URLPolicy) (key : String) : List (String × ResolutionEntry) :=
  p.resolutions.filter (·.1 ≠ key)

/-- A task resolves the host, if none does. -/
def awaitTask (p : URLPolicy) (key host : String) : URLPolicy × HostLookup :=
  (if (p.resolutionTasks.lookup key).isSome then p
    else { p with resolutionTasks := p.resolutionTasks ++ [(key, host)] }, .waits key)

/-- `_resolve`, as far as its first wait. -/
def resolve (p : URLPolicy) (host : String) (now : ℚ) : URLPolicy × HostLookup :=
  let key := python.casefold host
  match p.resolutions.lookup key with
  | some entry =>
    if now < entry.expiresAt then
      ({ p with resolutions := p.forget key ++ [(key, entry)] }, .ready entry.addresses)
    else { p with resolutions := p.forget key }.awaitTask key host
  | none => p.awaitTask key host

/-- `_resolve_and_cache` ends, with an answer of the resolver; what its task returns or raises. -/
def resolveAndCache (p : URLPolicy) (key : String) (answer : Except String (List String)) (now : ℚ) :
    URLPolicy × Except String (List String) :=
  match p.resolutionTasks.lookup key with
  | none => (p, .error "no such task")
  | some host =>
    let tasks := p.resolutionTasks.filter (·.1 ≠ key)
    match answer.bind (validateAddresses isGlobal) with
    | .error error => ({ p with resolutionTasks := tasks }, .error error)
    | .ok addresses =>
      let resolutions := p.forget key ++ [(key, ⟨addresses, now + p.resolverTtlSeconds⟩)]
      ({ p with resolutionTasks := tasks,
                resolutions := resolutions.drop (resolutions.length - p.maximumResolvedHosts),
                validated := (host, addresses) :: p.validated }, .ok addresses)

/-! ## What the policy keeps -/

/-- The policy found the addresses public, for a host that is this one up to its case. -/
def Public (p : URLPolicy) (key : String) (addresses : List String) : Prop :=
  addresses ≠ [] ∧ (∀ a ∈ addresses, isGlobal a = true) ∧
    ∃ host, (host, addresses) ∈ p.validated ∧ python.casefold host = key

/-- Everything that the policy keeps was validated. -/
structure Sound (p : URLPolicy) : Prop where
  resolutions : ∀ e ∈ p.resolutions, p.Public python isGlobal e.1 e.2.addresses
  tasks : ∀ t ∈ p.resolutionTasks, python.casefold t.2 = t.1

variable {python isGlobal} {p : URLPolicy}

theorem Sound.fresh (hresolutions : p.resolutions = []) (htasks : p.resolutionTasks = []) :
    p.Sound python isGlobal where
  resolutions := by simp [hresolutions]
  tasks := by simp [htasks]

theorem Public.mono {q : URLPolicy} {key : String} {addresses : List String}
    (h : p.Public python isGlobal key addresses) (hpq : p.validated ⊆ q.validated) :
    q.Public python isGlobal key addresses := by
  obtain ⟨hne, hglobal, host, hmem, hkey⟩ := h
  exact ⟨hne, hglobal, host, hpq hmem, hkey⟩

theorem admits_ok {url host : String} (h : p.admits python url = .ok host) :
    (∃ origin ∈ p.origins, urlOrigin python url = some origin) ∧
      ∃ parsed, urlsplit python url = some parsed ∧
        parsed.hostname python.lower = some host.toList := by
  unfold admits at h
  split at h
  · cases h
  · rename_i parsed hparsed
    split at h
    · cases h
    · rename_i name hname
      split at h
      · cases h
      · split at h
        · cases h
        · split at h
          · cases h
          · rename_i origin horigin
            split at h
            · rename_i hallowed
              cases h
              exact ⟨⟨origin, hallowed, horigin⟩, parsed, hparsed, by simp [hname]⟩
            · cases h

theorem awaitTask_frame (p : URLPolicy) (key host : String) :
    (p.awaitTask key host).1.origins = p.origins ∧
      (p.awaitTask key host).1.validated = p.validated := by
  unfold awaitTask
  dsimp only
  split <;> exact ⟨rfl, rfl⟩

variable (python) in
/-- What `resolve` leaves as it is. -/
theorem resolve_frame (p : URLPolicy) (host : String) (now : ℚ) :
    (p.resolve python host now).1.origins = p.origins ∧
      (p.resolve python host now).1.validated = p.validated := by
  unfold resolve
  dsimp only
  split
  · split
    · exact ⟨rfl, rfl⟩
    · exact awaitTask_frame { p with resolutions := p.forget (python.casefold host) } _ host
  · exact awaitTask_frame p _ host

section

variable (h : p.Sound python isGlobal)

include h

theorem Sound.awaitTask (host : String) :
    (p.awaitTask (python.casefold host) host).1.Sound python isGlobal := by
  unfold URLPolicy.awaitTask
  dsimp only
  split
  · exact h
  · refine ⟨h.resolutions, fun t ht => ?_⟩
    rcases List.mem_append.mp ht with ht | ht
    · exact h.tasks t ht
    · obtain rfl := List.mem_singleton.mp ht
      rfl

theorem Sound.forget (key : String) :
    ({ p with resolutions := p.forget key } : URLPolicy).Sound python isGlobal where
  resolutions e he := h.resolutions e (List.mem_of_mem_filter he)
  tasks := h.tasks

theorem Sound.resolve (host : String) (now : ℚ) :
    (p.resolve python host now).1.Sound python isGlobal := by
  unfold URLPolicy.resolve
  dsimp only
  split
  · rename_i entry hentry
    have hmem := Relational.mem_of_lookup hentry
    split
    · refine ⟨fun e he => ?_, h.tasks⟩
      rcases List.mem_append.mp he with he | he
      · exact h.resolutions e (List.mem_of_mem_filter he)
      · obtain rfl := List.mem_singleton.mp he
        exact h.resolutions _ hmem
    · exact (h.forget _).awaitTask host
  · exact h.awaitTask host

/-- **Addresses from the policy are public.** -/
theorem Sound.ready {host : String} {now : ℚ}
    {addresses : List String} (hready : (p.resolve python host now).2 = .ready addresses) :
    p.Public python isGlobal (python.casefold host) addresses := by
  unfold URLPolicy.resolve URLPolicy.awaitTask at hready
  dsimp only at hready
  split at hready
  · rename_i entry hentry
    split at hready
    · cases hready
      exact h.resolutions _ (Relational.mem_of_lookup hentry)
    · cases hready
  · cases hready

end

theorem resolve_waits {host key : String} {now : ℚ}
    (hwaits : (p.resolve python host now).2 = .waits key) : key = python.casefold host := by
  unfold URLPolicy.resolve URLPolicy.awaitTask at hwaits
  dsimp only at hwaits
  split at hwaits
  · split at hwaits <;> cases hwaits
    rfl
  · cases hwaits
    rfl

theorem validateAddresses_ok {addresses found : List String}
    (h : validateAddresses isGlobal addresses = .ok found) :
    found = addresses ∧ addresses ≠ [] ∧ ∀ a ∈ addresses, isGlobal a = true := by
  unfold validateAddresses at h
  split at h
  · cases h
  · rename_i hne
    split at h
    · cases h
    · rename_i hnone
      cases h
      refine ⟨rfl, hne, fun a ha => ?_⟩
      simpa using List.find?_eq_none.mp hnone a ha

variable (isGlobal) in
theorem resolveAndCache_frame (p : URLPolicy) (key : String) (answer : Except String (List String))
    (now : ℚ) :
    (p.resolveAndCache isGlobal key answer now).1.origins = p.origins ∧
      p.validated ⊆ (p.resolveAndCache isGlobal key answer now).1.validated := by
  unfold resolveAndCache
  split
  · exact ⟨rfl, List.Subset.refl _⟩
  · dsimp only
    split
    · exact ⟨rfl, List.Subset.refl _⟩
    · exact ⟨rfl, List.subset_cons_self _ _⟩

/-- **A task that ends keeps the policy sound**, and what it returns is public. -/
theorem Sound.resolveAndCache (h : p.Sound python isGlobal) (key : String)
    (answer : Except String (List String)) (now : ℚ) :
    (p.resolveAndCache isGlobal key answer now).1.Sound python isGlobal ∧
      ∀ addresses, (p.resolveAndCache isGlobal key answer now).2 = .ok addresses →
        (p.resolveAndCache isGlobal key answer now).1.Public python isGlobal key addresses := by
  unfold URLPolicy.resolveAndCache
  split
  · exact ⟨h, nofun⟩
  · rename_i host hhost
    have hkey : python.casefold host = key := h.tasks _ (Relational.mem_of_lookup hhost)
    dsimp only
    split
    · exact ⟨⟨h.resolutions, fun t ht => h.tasks t (List.mem_of_mem_filter ht)⟩, nofun⟩
    · rename_i addresses hanswer
      have hpublic : ∀ q : URLPolicy, q.validated = (host, addresses) :: p.validated →
          q.Public python isGlobal key addresses := by
        intro q hq
        cases answer with
        | error error => cases hanswer
        | ok given =>
          obtain ⟨rfl, hne, hglobal⟩ := validateAddresses_ok hanswer
          exact ⟨hne, hglobal, host, hq ▸ List.mem_cons_self, hkey⟩
      refine ⟨⟨fun e he => ?_, fun t ht => h.tasks t (List.mem_of_mem_filter ht)⟩, ?_⟩
      · rcases List.mem_append.mp (List.mem_of_mem_drop he) with he | he
        · exact (h.resolutions e (List.mem_of_mem_filter he)).mono (List.subset_cons_self _ _)
        · obtain rfl := List.mem_singleton.mp he
          exact hpublic _ rfl
      · intro found hfound
        cases hfound
        exact hpublic _ rfl

end URLPolicy

end

end CommerceCollector
