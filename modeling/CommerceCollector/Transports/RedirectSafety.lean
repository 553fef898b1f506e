import CommerceCollector.Transports.CacheKeys
import CommerceCollector.Transports.Redirects

/-!
# What a chain of redirects gives away

Every physical request goes to an allowed origin and to a public address of its host, a body stays
at the origin of the request, and the number of requests is bounded.  The headers are another
matter: a redirect to another origin strips the three headers of `sensitive`, while
`_credential_name` knows many more names of credentials.  So the credentials of a request stay at
its origin exactly in the runs that do not leave this origin, and in those whose credentials have
the three names.

The invariant says of the variables of the loop that they are still those of the origin, or that
they have neither a credential nor a body any more.
-/

namespace CommerceCollector.Redirects

open JsonText

section

variable (python : Python) (isGlobal : String → Bool) (maximumRedirects : ℕ) (r : TransportRequest)
variable (origins : List (List Char))

/-! ## The property and the condition -/

/-- A request to an origin other than that of the first URL. -/
def Elsewhere (url : String) : Prop := urlOrigin python url ≠ urlOrigin python r.url

/-- No header has the name of a credential. -/
def CredentialsOut (headers : List (String × String)) : Prop :=
  ∀ h ∈ headers, credentialName python h.1 = false

/-- No credential is sent to another origin, or after a request to another origin. -/
structure Withheld (sent : List PhysicalRequest) : Prop where
  elsewhere : ∀ p ∈ sent, Elsewhere python r p.url → CredentialsOut python p.headers
  afterwards : sent.Pairwise fun p q => Elsewhere python r q.url → CredentialsOut python p.headers

/-- An address that the policy validated for the host of the URL, with the endpoint at this
address. -/
def AtPublicAddress (policy : URLPolicy) (p : PhysicalRequest) : Prop :=
  ∃ parsed port host addresses, urlsplit python p.url = some parsed ∧
    parsed.port = some port ∧ parsed.hostname python.lower = some host ∧
    policy.Public python isGlobal (python.casefold (String.ofList host)) addresses ∧
    p.address ∈ addresses ∧ p.endpoint = endpointUrl parsed port p.address

/-- What the physical requests of a run may do. -/
structure Confined (s : State) : Prop where
  allowed : ∀ p ∈ s.sent, ∃ origin ∈ origins, urlOrigin python p.url = some origin
  address : ∀ p ∈ s.sent, AtPublicAddress python isGlobal s.policy p
  bodies : ∀ p ∈ s.sent, Elsewhere python r p.url → p.jsonBody = none ∧ p.body = none
  withheld : Withheld python r s.sent
  count : s.sent.length ≤ maximumRedirects + 1

/-- Every credential of the request is in a header that a redirect to another origin strips. -/
def Spared : Prop :=
  ∀ h ∈ r.headers, credentialName python h.1 = true → python.casefold h.1 ∈ sensitive

namespace State

/-- The addresses that the policy has at once for an admitted URL. -/
def validated (s : State) (t : Target) (now : ℚ) : Option (List String) :=
  match s.policy.admits python t.url with
  | .error _ => none
  | .ok host =>
    match (s.policy.resolve python host now).2 with
    | .ready addresses => some addresses
    | .waits _ => none

/-- The redirect that an event lets the request follow, with the variables of its last hop and the
addresses of the target. -/
def redirect (s : State) : Event → Option (Target × Carried × List String)
  | .answers (.response status location) now =>
    match s.phase with
    | .awaiting c =>
      if isRedirect status ∧ c.redirect ≠ maximumRedirects ∧ location.getD "" ≠ "" then
        (urljoin python c.current (location.getD "")).bind fun url =>
          (s.validated python ⟨url, some status⟩ now).map (⟨url, some status⟩, c, ·)
      else none
    | _ => none
  | .resolves key answer now =>
    match s.phase with
    | .resolving awaited t c =>
      if awaited = key then
        (s.policy.resolveAndCache isGlobal key answer now).2.toOption.map (t, c, ·)
      else none
    | _ => none
  | _ => none

/-- The request leaves its origin: it follows a redirect to another one. -/
def Leaves (s : State) (e : Event) : Prop :=
  ∃ followed ∈ s.redirect python isGlobal maximumRedirects e,
    followed.1.Crosses python followed.2.1 ∧
      ∃ next, hop python r s.closed followed.1 followed.2.1 followed.2.2 = .ok next

end State

/-! ## One hop -/

/-- What a hop does with the variables of the loop, and what it sends. -/
structure Hops (t : Target) (c : Carried) (addresses : List String) (next : Carried)
    (p : PhysicalRequest) : Prop where
  current : next.current = t.url
  redirect : next.redirect = c.redirect + if t.redirected.isSome then 1 else 0
  headers : ∃ host, next.headers =
    setEntry (if t.Crosses python c then stripSensitiveHeaders python c.headers else c.headers)
      "Host" host
  refused : t.Crosses python c → c.jsonBody = none ∧ c.body = none
  bodies : c.jsonBody = none → c.body = none → next.jsonBody = none ∧ next.body = none
  carried : p.headers = next.headers ∧ p.jsonBody = next.jsonBody ∧ p.body = next.body
  url : p.url = t.url
  endpoint : p.address ∈ addresses ∧ ∃ parsed port, urlsplit python t.url = some parsed ∧
    parsed.port = some port ∧ p.endpoint = endpointUrl parsed port p.address

end

section

variable {python : Python} {isGlobal : String → Bool} {maximumRedirects : ℕ} {r : TransportRequest}
variable {origins : List (List Char)}

variable {p : PhysicalRequest} {c next : Carried}

theorem physicalRequest_ok {closed : Bool} {address : String}
    (h : physicalRequest python r closed c address = .ok (next, p)) :
    (∃ host, next = { c with headers := setEntry c.headers "Host" host }) ∧
      (p.headers = next.headers ∧ p.jsonBody = c.jsonBody ∧ p.body = c.body) ∧
      p.url = c.current ∧ p.address = address ∧
      ∃ parsed port, urlsplit python c.current = some parsed ∧ parsed.port = some port ∧
        p.endpoint = endpointUrl parsed port address := by
  unfold physicalRequest at h
  split at h
  · cases h
  · rename_i parsed port hparsed
    obtain ⟨whole, hwhole, hport⟩ := Option.bind_eq_some_iff.mp hparsed
    obtain ⟨found, hfound, hpair⟩ := Option.map_eq_some_iff.mp hport
    cases hpair
    split at h
    · cases h
    · split at h
      · cases h
      · cases h
        exact ⟨⟨_, rfl⟩, ⟨rfl, rfl, rfl⟩, rfl, rfl, parsed, port, hwhole, hfound, rfl⟩

variable {t : Target}

theorem follow_ok (h : follow python t c = .ok next) :
    next.current = t.url ∧ next.redirect = c.redirect + (if t.redirected.isSome then 1 else 0) ∧
      next.headers =
        (if t.Crosses python c then stripSensitiveHeaders python c.headers else c.headers) ∧
      (t.Crosses python c → c.jsonBody = none ∧ c.body = none) ∧
      (c.jsonBody = none → c.body = none → next.jsonBody = none ∧ next.body = none) := by
  unfold follow at h
  split at h
  · rename_i hnone
    have hstays : ¬t.Crosses python c := by simp [Target.Crosses, hnone]
    cases h
    exact ⟨rfl, by simp [hnone], by simp [hstays], fun hcross => absurd hcross hstays,
      fun hjson hbody => ⟨hjson, hbody⟩⟩
  · rename_i status hsome
    split at h
    · cases h
    · rename_i hallowed
      have hrefused : t.Crosses python c → c.jsonBody = none ∧ c.body = none := by
        intro hcross
        simpa [hcross] using hallowed
      dsimp only at h
      split at h
      · cases h
        exact ⟨rfl, by simp [hsome], rfl, hrefused, fun _ _ => ⟨rfl, rfl⟩⟩
      · cases h
        exact ⟨rfl, by simp [hsome], rfl, hrefused, fun hjson hbody => ⟨hjson, hbody⟩⟩

variable {addresses : List String}

/-- **What a hop does.** -/
theorem hop_ok {closed : Bool} (h : hop python r closed t c addresses = .ok (next, p)) :
    Hops python t c addresses next p := by
  unfold hop at h
  split at h
  · cases h
  · cases h
  · rename_i followed address rest hfollow
    obtain ⟨hcurrent, hredirect, hheaders, hrefused, hbodies⟩ := follow_ok hfollow
    obtain ⟨⟨host, rfl⟩, ⟨hp, hjson, hbody⟩, hurl, haddress, parsed, port, hparsed, hport, hend⟩ :=
      physicalRequest_ok h
    exact {
      current := hcurrent
      redirect := hredirect
      headers := ⟨host, by rw [← hheaders]⟩
      refused := hrefused
      bodies := hbodies
      carried := ⟨hp, hjson, hbody⟩
      url := hurl.trans hcurrent
      endpoint := ⟨haddress ▸ List.mem_cons_self, parsed, port, hcurrent ▸ hparsed, hport,
        haddress ▸ hend⟩ }

/-! ## The variables of the loop -/

/-- What Python makes of the name of the header that the loop sets. -/
structure ReadsHost (python : Python) : Prop where
  casefold : python.casefold "Host" = "host"
  isalnum : ∀ c ∈ "host".toList, python.isalnum c = true

theorem ReadsHost.credentialName (h : ReadsHost python) : credentialName python "Host" = false := by
  have hname : normalizedName python "Host" = "host".toList := by
    unfold normalizedName
    rw [h.casefold, List.filter_eq_self.mpr h.isalnum]
  unfold CommerceCollector.credentialName
  rw [hname]
  decide

variable {h : String × String}

theorem mem_setEntry_host (hhost : ReadsHost python) {headers : List (String × String)} {host : String}
    (hcredential : credentialName python h.1 = true) :
    h ∈ setEntry headers "Host" host ↔ h ∈ headers := by
  have hne : h.1 ≠ "Host" := by
    intro heq
    rw [heq, hhost.credentialName] at hcredential
    cases hcredential
  rw [mem_setEntry]
  constructor
  · rintro (rfl | ⟨-, hmem⟩)
    · exact absurd rfl hne
    · exact hmem
  · exact fun hmem => .inr ⟨hne, hmem⟩

theorem mem_strip {headers : List (String × String)} :
    h ∈ stripSensitiveHeaders python headers ↔
      h ∈ headers ∧ python.casefold h.1 ∉ sensitive := by
  simp [stripSensitiveHeaders]

variable (python r) in
/-- The variables at the origin of the request: they have its credentials. -/
structure AtHome (c : Carried) (sent : List PhysicalRequest) : Prop where
  sent : ∀ p ∈ sent, ¬Elsewhere python r p.url
  current : ¬Elsewhere python r c.current
  headers : ∀ h, credentialName python h.1 = true → (h ∈ c.headers ↔ h ∈ r.headers)

variable (python r) in
/-- The variables of a request that left its origin: they have nothing to give away. -/
structure Departed (c : Carried) : Prop where
  headers : CredentialsOut python c.headers
  bodies : c.jsonBody = none ∧ c.body = none
  spared : Spared python r

variable (python maximumRedirects r) in
/-- What holds of the variables of the loop after the requests that were sent. -/
structure Carries (c : Carried) (sent : List PhysicalRequest) : Prop where
  count : sent.length = c.redirect + 1
  bound : c.redirect ≤ maximumRedirects
  place : AtHome python r c sent ∨ Departed python r c

variable (python maximumRedirects r) in
/-- A URL that the request may go on to: its own, or the target of a redirect. -/
def Ready (t : Target) (c : Carried) (sent : List PhysicalRequest) : Prop :=
  (t.redirected = none ∧ t.url = r.url ∧ c = initially r ∧ sent = []) ∨
    (t.redirected.isSome ∧ Carries python maximumRedirects r c sent ∧ c.redirect < maximumRedirects)

theorem Hops.mem_headers (hhost : ReadsHost python) (hop : Hops python t c addresses next p)
    (hcredential : credentialName python h.1 = true) :
    h ∈ next.headers ↔ h ∈ c.headers ∧ (t.Crosses python c → python.casefold h.1 ∉ sensitive) := by
  obtain ⟨host, hheaders⟩ := hop.headers
  rw [hheaders, mem_setEntry_host hhost hcredential]
  split
  · rename_i hcross
    rw [mem_strip]
    exact and_congr_right fun _ => ⟨fun hname _ => hname, fun hname => hname hcross⟩
  · rename_i hstays
    exact ⟨fun hmem => ⟨hmem, fun hcross => absurd hcross hstays⟩, And.left⟩

/-- **A hop keeps what is said of the variables**, if it leaves no credential behind. -/
theorem Ready.hops (hhost : ReadsHost python) {sent : List PhysicalRequest}
    (h : Ready python maximumRedirects r t c sent) (hop : Hops python t c addresses next p)
    (hspared : t.Crosses python c → Spared python r) :
    Carries python maximumRedirects r next (p :: sent) := by
  rcases h with ⟨hnone, hurl, rfl, rfl⟩ | ⟨hsome, hcarries, hlt⟩
  · have hstays : ¬t.Crosses python (initially r) := by simp [Target.Crosses, hnone]
    refine ⟨?_, ?_, .inl ⟨?_, ?_, ?_⟩⟩
    · simp [hop.redirect, hnone, initially]
    · simp [hop.redirect, hnone, initially]
    · intro q hq
      obtain rfl := List.mem_singleton.mp hq
      rw [hop.url, hurl]
      exact fun hne => hne rfl
    · rw [hop.current, hurl]
      exact fun hne => hne rfl
    · intro h hcredential
      rw [hop.mem_headers hhost hcredential]
      exact ⟨And.left, fun hmem => ⟨hmem, fun hcross => absurd hcross hstays⟩⟩
  · refine ⟨?_, ?_, ?_⟩
    · simp [hop.redirect, hsome, hcarries.count]
    · rw [hop.redirect, if_pos hsome]
      exact hlt
    · by_cases hcross : t.Crosses python c
      · -- The redirect crosses: what is left of the headers has no credential.
        refine .inr ⟨fun h hmem => ?_, ?_, hspared hcross⟩
        · by_contra hcredential
          rw [Bool.not_eq_false] at hcredential
          obtain ⟨hcarried, hname⟩ := (hop.mem_headers hhost hcredential).mp hmem
          rcases hcarries.place with hhome | hdeparted
          · exact hname hcross
              (hspared hcross h ((hhome.headers h hcredential).mp hcarried) hcredential)
          · rw [hdeparted.headers h hcarried] at hcredential
            cases hcredential
        · exact hop.bodies (hop.refused hcross).1 (hop.refused hcross).2
      · have hsame : urlOrigin python t.url = urlOrigin python c.current := by
          by_contra hne
          exact hcross ⟨hsome, hne⟩
        rcases hcarries.place with hhome | hdeparted
        · refine .inl ⟨?_, ?_, fun h hcredential => ?_⟩
          · intro q hq
            rcases List.mem_cons.mp hq with rfl | hq
            · unfold Elsewhere
              rw [hop.url, hsame]
              exact hhome.current
            · exact hhome.sent q hq
          · unfold Elsewhere
            rw [hop.current, hsame]
            exact hhome.current
          · rw [hop.mem_headers hhost hcredential, ← hhome.headers h hcredential]
            exact ⟨And.left, fun hmem => ⟨hmem, fun h => absurd h hcross⟩⟩
        · refine .inr ⟨fun h hmem => ?_, ?_, hdeparted.spared⟩
          · by_contra hcredential
            rw [Bool.not_eq_false] at hcredential
            have hcarried := ((hop.mem_headers hhost hcredential).mp hmem).1
            rw [hdeparted.headers h hcarried] at hcredential
            cases hcredential
          · exact hop.bodies hdeparted.bodies.1 hdeparted.bodies.2

/-! ## Runs -/

variable (python origins) in
/-- A URL with an allowed origin, and the key of its host. -/
def Admitted (url key : String) : Prop :=
  (∃ origin ∈ origins, urlOrigin python url = some origin) ∧
    ∃ parsed host, urlsplit python url = some parsed ∧
      parsed.hostname python.lower = some host ∧ key = python.casefold (String.ofList host)

variable (python isGlobal maximumRedirects r origins) in
/-- What holds in every phase. -/
structure Guarded (s : State) : Prop where
  sound : s.policy.Sound python isGlobal
  allows : s.policy.origins = origins
  confined : Confined python isGlobal maximumRedirects r origins s

variable (python maximumRedirects r origins) in
/-- What holds of the variables in each phase. -/
def InPhase (s : State) : Prop :=
  match s.phase with
  | .fresh => s.sent = []
  | .resolving key t c =>
    Admitted python origins t.url key ∧ Ready python maximumRedirects r t c s.sent
  | .awaiting c => Carries python maximumRedirects r c s.sent
  | .returned _ | .raised _ => True

variable (python isGlobal maximumRedirects r origins) in
/-- The invariant of a run. -/
structure Invariant (s : State) : Prop where
  guarded : Guarded python isGlobal maximumRedirects r origins s
  phase : InPhase python maximumRedirects r origins s

theorem Guarded.policy {s s' : State} (h : Guarded python isGlobal maximumRedirects r origins s)
    (hsound : s'.policy.Sound python isGlobal) (horigins : s'.policy.origins = s.policy.origins)
    (hvalidated : s.policy.validated ⊆ s'.policy.validated) (hsent : s'.sent = s.sent) :
    Guarded python isGlobal maximumRedirects r origins s' where
  sound := hsound
  allows := horigins.trans h.allows
  confined := by
    refine ⟨?_, fun p hp => ?_, ?_, ?_, ?_⟩
    · exact hsent ▸ h.confined.allowed
    · obtain ⟨parsed, port, host, addresses, hparsed, hport, hhost, hpublic, hrest⟩ :=
        h.confined.address p (hsent ▸ hp)
      exact ⟨parsed, port, host, addresses, hparsed, hport, hhost, hpublic.mono hvalidated, hrest⟩
    · exact hsent ▸ h.confined.bodies
    · exact hsent ▸ h.confined.withheld
    · exact hsent ▸ h.confined.count

variable {s : State}

/-- A request without anything to give away may be sent anywhere, and one at home there. -/
theorem Carries.confined {c : Carried} (h : Carries python maximumRedirects r c (p :: s.sent))
    (hs : Confined python isGlobal maximumRedirects r origins s)
    (hcarried : p.headers = c.headers ∧ p.jsonBody = c.jsonBody ∧ p.body = c.body)
    (hallowed : ∃ origin ∈ origins, urlOrigin python p.url = some origin)
    (haddress : AtPublicAddress python isGlobal s.policy p) :
    Confined python isGlobal maximumRedirects r origins { s with sent := p :: s.sent } := by
  have hbodies : Elsewhere python r p.url → p.jsonBody = none ∧ p.body = none := by
    intro hne
    rcases h.place with hhome | hdeparted
    · exact absurd hne (hhome.sent p List.mem_cons_self)
    · rw [hcarried.2.1, hcarried.2.2]
      exact hdeparted.bodies
  have hheaders : (∃ q ∈ p :: s.sent, Elsewhere python r q.url) →
      CredentialsOut python p.headers := by
    rintro ⟨q, hq, hne⟩
    rcases h.place with hhome | hdeparted
    · exact absurd hne (hhome.sent q hq)
    · rw [hcarried.1]
      exact hdeparted.headers
  refine ⟨?_, ?_, ?_, ⟨?_, ?_⟩, ?_⟩
  · exact List.forall_mem_cons.mpr ⟨hallowed, hs.allowed⟩
  · exact List.forall_mem_cons.mpr ⟨haddress, hs.address⟩
  · exact List.forall_mem_cons.mpr ⟨hbodies, hs.bodies⟩
  · refine List.forall_mem_cons.mpr ⟨fun hne => ?_, hs.withheld.elsewhere⟩
    exact hheaders ⟨p, List.mem_cons_self, hne⟩
  · refine List.pairwise_cons.mpr ⟨fun q hq hne => ?_, hs.withheld.afterwards⟩
    exact hheaders ⟨q, List.mem_cons_of_mem p hq, hne⟩
  · have hcount := h.count
    have hbound := h.bound
    dsimp only
    omega

/-- **Sending the next hop keeps the invariant.** -/
theorem Guarded.send (hhost : ReadsHost python) {c : Carried} {key : String}
    (h : Guarded python isGlobal maximumRedirects r origins s)
    (hready : Ready python maximumRedirects r t c s.sent)
    (hadmitted : Admitted python origins t.url key)
    (hpublic : s.policy.Public python isGlobal key addresses)
    (hspared : t.Crosses python c → (∃ next, hop python r s.closed t c addresses = .ok next) →
      Spared python r) :
    Invariant python isGlobal maximumRedirects r origins (s.send python r t c addresses) := by
  unfold State.send
  split
  · exact ⟨h.policy h.sound rfl (List.Subset.refl _) rfl, trivial⟩
  · rename_i next p hnext
    have hop := hop_ok hnext
    have hcarries := hready.hops hhost hop fun hcross => hspared hcross ⟨_, hnext⟩
    obtain ⟨hallowed, parsed, host, hparsed, hname, rfl⟩ := hadmitted
    obtain ⟨haddress, parsed', port, hparsed', hport, hend⟩ := hop.endpoint
    obtain rfl := Option.some.inj (hparsed.symm.trans hparsed')
    have hconfined := hcarries.confined h.confined hop.carried (hop.url ▸ hallowed)
      ⟨parsed, port, host, addresses, hop.url ▸ hparsed, hport, hname, hpublic, haddress, hend⟩
    exact ⟨⟨h.sound, h.allows, hconfined.allowed, hconfined.address, hconfined.bodies,
      hconfined.withheld, hconfined.count⟩, hcarries⟩

/-- **Validating the next URL keeps the invariant.** -/
theorem Guarded.validates (hhost : ReadsHost python) {c : Carried} {now : ℚ}
    (h : Guarded python isGlobal maximumRedirects r origins s)
    (hready : Ready python maximumRedirects r t c s.sent)
    (hspared : t.Crosses python c → ∀ addresses, s.validated python t now = some addresses →
      (∃ next, hop python r s.closed t c addresses = .ok next) → Spared python r) :
    Invariant python isGlobal maximumRedirects r origins (s.validates python r t c now) := by
  unfold State.validates
  unfold State.validated at hspared
  split
  · exact ⟨h.policy h.sound rfl (List.Subset.refl _) rfl, trivial⟩
  · rename_i host hadmits
    rw [hadmits] at hspared
    dsimp only at hspared
    obtain ⟨⟨origin, horigin, heq⟩, parsed, hparsed, hname⟩ := URLPolicy.admits_ok hadmits
    have hadmitted : Admitted python origins t.url (python.casefold host) :=
      ⟨⟨origin, h.allows ▸ horigin, heq⟩, parsed, host.toList, hparsed, hname, by simp⟩
    have hframe := s.policy.resolve_frame python host now
    have hsound := h.sound.resolve host now
    split
    · rename_i policy addresses hresolve
      have hready' := h.sound.ready (congrArg Prod.snd hresolve)
      rw [hresolve] at hframe hsound hspared
      have hguarded : Guarded python isGlobal maximumRedirects r origins { s with policy } :=
        h.policy hsound hframe.1 (hframe.2 ▸ List.Subset.refl _) rfl
      exact hguarded.send hhost hready hadmitted (hready'.mono (hframe.2 ▸ List.Subset.refl _))
        fun hcross hnext => hspared hcross addresses rfl hnext
    · rename_i policy key hresolve
      have hkey := URLPolicy.resolve_waits (congrArg Prod.snd hresolve)
      rw [hresolve] at hframe hsound
      exact ⟨h.policy hsound hframe.1 (hframe.2 ▸ List.Subset.refl _) rfl,
        hkey ▸ hadmitted, hready⟩

variable (python isGlobal maximumRedirects r) in
/-- The condition on an event: the request leaves its origin only if its credentials are
stripped. -/
def Condition (s : State) (e : Event) : Prop :=
  s.Leaves python isGlobal maximumRedirects r e → Spared python r

/-- **An event keeps the invariant**, if the request does not leave its origin with credentials that
are not stripped. -/
theorem Invariant.step (hhost : ReadsHost python) {e : Event}
    (h : Invariant python isGlobal maximumRedirects r origins s)
    (hcondition : Condition python isGlobal maximumRedirects r s e) :
    Invariant python isGlobal maximumRedirects r origins
      (s.step python isGlobal maximumRedirects r e) := by
  have hphase := h.phase
  unfold InPhase at hphase
  cases e with
  | starts now =>
    unfold State.step
    dsimp only
    split
    · rename_i hfresh
      rw [hfresh] at hphase
      split
      · exact ⟨h.guarded.policy h.guarded.sound rfl (List.Subset.refl _) rfl, trivial⟩
      · exact h.guarded.validates hhost (.inl ⟨rfl, rfl, rfl, hphase⟩) (by simp [Target.Crosses])
    · exact h
  | answers reply now =>
    unfold State.step
    dsimp only
    split
    · rename_i c hawaiting
      rw [hawaiting] at hphase
      unfold State.answered
      split
      · exact ⟨h.guarded.policy h.guarded.sound rfl (List.Subset.refl _) rfl, trivial⟩
      · rename_i status location
        split
        · exact ⟨h.guarded.policy h.guarded.sound rfl (List.Subset.refl _) rfl, trivial⟩
        · rename_i hredirect
          rw [not_not] at hredirect
          split
          · exact ⟨h.guarded.policy h.guarded.sound rfl (List.Subset.refl _) rfl, trivial⟩
          · rename_i hmore
            split
            · exact ⟨h.guarded.policy h.guarded.sound rfl (List.Subset.refl _) rfl, trivial⟩
            · rename_i hlocation
              split
              · exact ⟨h.guarded.policy h.guarded.sound rfl (List.Subset.refl _) rfl, trivial⟩
              · rename_i url hurl
                refine h.guarded.validates hhost
                  (.inr ⟨rfl, hphase, lt_of_le_of_ne hphase.bound hmore⟩) ?_
                intro hcross addresses haddresses hnext
                refine hcondition ⟨⟨⟨url, some status⟩, c, addresses⟩, ?_, hcross, hnext⟩
                simp [State.redirect, hawaiting, hredirect, hmore, hlocation, hurl, haddresses]
    · exact h
  | resolves key answer now =>
    have hframe := s.policy.resolveAndCache_frame isGlobal key answer now
    obtain ⟨hsound, hreturns⟩ := h.guarded.sound.resolveAndCache key answer now
    have hguarded : ∀ s' : State,
        s'.policy = (s.policy.resolveAndCache isGlobal key answer now).1 → s'.sent = s.sent →
        Guarded python isGlobal maximumRedirects r origins s' := by
      intro s' hpolicy hsent
      exact h.guarded.policy (hpolicy ▸ hsound) (hpolicy ▸ hframe.1) (hpolicy ▸ hframe.2) hsent
    unfold State.step
    dsimp only
    split
    · rename_i policy result awaited t c hresult hresolving
      rw [hresolving] at hphase
      rw [hresult] at hguarded hreturns
      split
      · refine ⟨hguarded _ rfl rfl, ?_⟩
        unfold InPhase
        rw [hresolving]
        exact hphase
      · rename_i hkey
        rw [not_not] at hkey
        subst hkey
        split
        · rename_i addresses
          refine (hguarded { s with policy } rfl rfl).send hhost hphase.2 hphase.1
            (hreturns addresses rfl) fun hcross hnext => ?_
          refine hcondition ⟨⟨t, c, addresses⟩, ?_, hcross, hnext⟩
          simp [State.redirect, hresolving, hresult, Except.toOption]
        · exact ⟨hguarded _ rfl rfl, trivial⟩
    · rename_i policy result hresult hother
      rw [hresult] at hguarded
      exact ⟨hguarded _ rfl rfl, h.phase⟩
  | asks host now =>
    have hframe := s.policy.resolve_frame python host now
    exact ⟨h.guarded.policy (h.guarded.sound.resolve host now) hframe.1
      (hframe.2 ▸ List.Subset.refl _) rfl, h.phase⟩
  | closes => exact ⟨h.guarded.policy h.guarded.sound rfl (List.Subset.refl _) rfl, h.phase⟩

/-! ## What is lost -/

theorem send_suffix (s : State) (t : Target) (c : Carried) (addresses : List String) :
    s.sent <:+ (s.send python r t c addresses).sent := by
  unfold State.send
  split
  · exact List.suffix_rfl
  · exact List.suffix_cons _ _

theorem validates_suffix (s : State) (t : Target) (c : Carried) (now : ℚ) :
    s.sent <:+ (s.validates python r t c now).sent := by
  unfold State.validates
  split
  · exact List.suffix_rfl
  · split
    · rename_i policy addresses hresolve
      exact send_suffix { s with policy } t c addresses
    · exact List.suffix_rfl

theorem step_suffix (s : State) (e : Event) :
    s.sent <:+ (s.step python isGlobal maximumRedirects r e).sent := by
  cases e with
  | starts now =>
    unfold State.step
    dsimp only
    split
    · split
      · exact List.suffix_rfl
      · exact validates_suffix s _ _ now
    · exact List.suffix_rfl
  | answers reply now =>
    unfold State.step
    dsimp only
    split
    · unfold State.answered
      repeat' split
      all_goals first | exact List.suffix_rfl | exact validates_suffix s _ _ now
    · exact List.suffix_rfl
  | resolves key answer now =>
    unfold State.step
    dsimp only
    split
    · rename_i policy result awaited t c hresult hresolving
      split
      · exact List.suffix_rfl
      · split
        · exact send_suffix { s with policy } t c _
        · exact List.suffix_rfl
    · exact List.suffix_rfl
  | asks host now => exact List.suffix_rfl
  | closes => exact List.suffix_rfl

theorem Withheld.of_suffix {sent sent' : List PhysicalRequest} (h : Withheld python r sent')
    (hsuffix : sent <:+ sent') : Withheld python r sent where
  elsewhere p hp := h.elsewhere p (hsuffix.subset hp)
  afterwards := h.afterwards.sublist hsuffix.sublist

theorem validates_sent {c : Carried} {now : ℚ} {next : Carried × PhysicalRequest}
    (hvalidated : s.validated python t now = some addresses)
    (hnext : hop python r s.closed t c addresses = .ok next) :
    (s.validates python r t c now).sent = next.2 :: s.sent := by
  unfold State.validated at hvalidated
  unfold State.validates
  cases hadmits : URLPolicy.admits python s.policy t.url with
  | error e =>
    rw [hadmits] at hvalidated
    cases hvalidated
  | ok host =>
    rw [hadmits] at hvalidated
    rcases hresolve : URLPolicy.resolve python s.policy host now with ⟨policy, lookup⟩
    simp only [hresolve] at hvalidated ⊢
    cases lookup with
    | ready found =>
      cases hvalidated
      simp [State.send, hnext]
    | waits key => cases hvalidated

/-- **A redirect that is followed is sent.** -/
theorem redirect_sent {e : Event} {c : Carried} {next : Carried × PhysicalRequest}
    (hredirect : s.redirect python isGlobal maximumRedirects e = some (t, c, addresses))
    (hnext : hop python r s.closed t c addresses = .ok next) :
    (s.step python isGlobal maximumRedirects r e).sent = next.2 :: s.sent := by
  unfold State.redirect at hredirect
  split at hredirect
  · rename_i status location now
    split at hredirect
    · rename_i c' hawaiting
      split at hredirect
      · rename_i hfollowed
        obtain ⟨hstatus, hmore, hlocation⟩ := hfollowed
        obtain ⟨url, hurl, hmap⟩ := Option.bind_eq_some_iff.mp hredirect
        obtain ⟨found, hfound, hsame⟩ := Option.map_eq_some_iff.mp hmap
        cases hsame
        have hsent := validates_sent hfound hnext
        simpa [State.step, hawaiting, State.answered, hstatus, hmore, hlocation, hurl] using hsent
      · cases hredirect
    · cases hredirect
  · rename_i key answer now
    split at hredirect
    · rename_i awaited t' c' hresolving
      split at hredirect
      · rename_i hkey
        obtain ⟨found, hfound, hsame⟩ := Option.map_eq_some_iff.mp hredirect
        cases hsame
        unfold State.step
        dsimp only
        split
        · rename_i policy result awaited' t'' c'' hresult hresolving'
          rw [hresolving] at hresolving'
          cases hresolving'
          rw [hresult] at hfound
          rw [if_neg (not_not.mpr hkey)]
          cases result with
          | error error => cases hfound
          | ok addresses' =>
            cases hfound
            simp [State.send, hnext]
        · rename_i policy result hresult hother
          exact absurd hresolving (hother awaited _ _)
      · cases hredirect
    · cases hredirect
  · cases hredirect

theorem Invariant.carries {e : Event} {c : Carried}
    (h : Invariant python isGlobal maximumRedirects r origins s)
    (hredirect : s.redirect python isGlobal maximumRedirects e = some (t, c, addresses))
    (hsome : t.redirected.isSome) : Carries python maximumRedirects r c s.sent := by
  have hphase := h.phase
  unfold InPhase at hphase
  unfold State.redirect at hredirect
  split at hredirect
  · split at hredirect
    · rename_i c' hawaiting
      rw [hawaiting] at hphase
      split at hredirect
      · obtain ⟨url, -, hmap⟩ := Option.bind_eq_some_iff.mp hredirect
        obtain ⟨found, -, hsame⟩ := Option.map_eq_some_iff.mp hmap
        cases hsame
        exact hphase
      · cases hredirect
    · cases hredirect
  · split at hredirect
    · rename_i awaited t' c' hresolving
      rw [hresolving] at hphase
      split at hredirect
      · obtain ⟨found, -, hsame⟩ := Option.map_eq_some_iff.mp hredirect
        cases hsame
        rcases hphase.2 with ⟨hnone, -⟩ | ⟨-, hcarries, -⟩
        · rw [hnone] at hsome
          cases hsome
        · exact hcarries
      · cases hredirect
    · cases hredirect
  · cases hredirect

/-- **A request that leaves its origin with a credential gives it away.** -/
theorem Invariant.gives_away (hhost : ReadsHost python) {e : Event}
    (h : Invariant python isGlobal maximumRedirects r origins s)
    (hcondition : ¬Condition python isGlobal maximumRedirects r s e) :
    ¬Withheld python r (s.step python isGlobal maximumRedirects r e).sent := by
  obtain ⟨⟨followed, hfollowed, hcross, next, hnext⟩, hspared⟩ :=
    Classical.not_imp.mp hcondition
  obtain ⟨t, c, addresses⟩ := followed
  have hcarries := h.carries hfollowed hcross.1
  have hhome : AtHome python r c s.sent := by
    rcases hcarries.place with hhome | hdeparted
    · exact hhome
    · exact absurd hdeparted.spared hspared
  unfold Spared at hspared
  push Not at hspared
  obtain ⟨header, hheader, hcredential, hname⟩ := hspared
  have hop : Hops python t c addresses next.1 next.2 := hop_ok hnext
  have hmem : header ∈ next.2.headers := by
    rw [hop.carried.1, hop.mem_headers hhost hcredential, hhome.headers header hcredential]
    exact ⟨hheader, fun _ => hname⟩
  intro hwithheld
  rw [redirect_sent hfollowed hnext] at hwithheld
  have helsewhere : Elsewhere python r next.2.url := by
    unfold Elsewhere
    rw [hop.url, ← not_not.mp hhome.current]
    exact hcross.2
  have hout := hwithheld.elsewhere next.2 List.mem_cons_self helsewhere header hmem
  rw [hout] at hcredential
  cases hcredential

/-! ## Exactness -/

theorem Invariant.initially :
    Invariant python isGlobal maximumRedirects r origins { policy := { origins } } where
  guarded := {
    sound := .fresh rfl rfl
    allows := rfl
    confined := {
      allowed := by simp
      address := by simp
      bodies := by simp
      withheld := ⟨by simp, List.Pairwise.nil⟩
      count := Nat.zero_le _ } }
  phase := rfl

/-- **Redirects and credentials.**  In a run of a request every physical request goes to an allowed
origin and a validated public address, no body and no credential goes to another origin, and the
number of requests is bounded, exactly if the request leaves its origin only when its credentials
are those that a redirect strips. -/
theorem redirects_confined_iff (python : Python) (isGlobal : String → Bool) (maximumRedirects : ℕ)
    (r : TransportRequest) (origins : List (List Char)) (hhost : ReadsHost python)
    (events : List Event) :
    Confined python isGlobal maximumRedirects r origins
        (after python isGlobal maximumRedirects r origins events) ↔
      Trace.Along (State.step python isGlobal maximumRedirects r)
        (fun s e => s.Leaves python isGlobal maximumRedirects r e → Spared python r)
        { policy := { origins } } events := by
  have hstart : Invariant python isGlobal maximumRedirects r origins { policy := { origins } } :=
    .initially
  constructor
  · intro hconfined
    refine (Trace.exec_iff_along (State.step python isGlobal maximumRedirects r)
      (D := fun _ _ => True) (Q := fun s => Withheld python r s.sent)
      (fun s e _ hcondition hs => hs.step hhost hcondition)
      (fun s e _ hcondition hs => hs.gives_away hhost hcondition)
      (fun s e hlost hkept => hlost (hkept.of_suffix (step_suffix s e)))
      (fun s hs => hs.guarded.confined.withheld) hstart
      (Trace.along_of_forall _ (fun _ _ _ => trivial) _)).mp hconfined.withheld
  · intro halong
    exact (Trace.exec_invariant_of_along (State.step python isGlobal maximumRedirects r)
      (fun s e hcondition hs => hs.step hhost hcondition) hstart halong).guarded.confined

end

/-! ## Two requests -/

theorem asciiPython_readsHost : ReadsHost asciiPython where
  casefold := by decide
  isalnum := List.all_eq_true.mp (by decide)

/-- The policy knows two shops. -/
def shops : List (List Char) := ["https://shop.example".toList, "https://other.example".toList]

/-- A public address. -/
def publicAddress : String := "93.184.216.34"

/-- A request with a header, to the first shop. -/
def shopRequest (header : String) : TransportRequest where
  url := "https://shop.example/products"
  headers := [(header, "secret")]

/-- The first shop redirects to the other one. -/
def leavesShop : List Event :=
  [.starts 0, .resolves "shop.example" (.ok [publicAddress]) 0,
   .answers (.response 302 (some "https://other.example/products")) 1,
   .resolves "other.example" (.ok [publicAddress]) 1]

/-- The other shop redirects back. -/
def returnsToShop : List Event :=
  leavesShop ++ [.answers (.response 302 (some "https://shop.example/")) 2]

/-- A session that comes back to its origin has lost its cookie, and the rest holds as well. -/
theorem redirects_confined_with_cookie :
    Confined asciiPython (· == publicAddress) 10 (shopRequest "Cookie") shops
      (after asciiPython (· == publicAddress) 10 (shopRequest "Cookie") shops returnsToShop) :=
  (redirects_confined_iff asciiPython _ 10 _ shops asciiPython_readsHost returnsToShop).mpr
    (Trace.along_of_forall _ (fun _ _ _ _ => by
      intro h hmem _
      obtain rfl := List.mem_singleton.mp hmem
      decide) _)

/-- A key of an interface goes to the other shop. -/
theorem redirect_sends_api_key :
    ¬Confined asciiPython (· == publicAddress) 10 (shopRequest "X-Api-Key") shops
      (after asciiPython (· == publicAddress) 10 (shopRequest "X-Api-Key") shops leavesShop) := by
  have hsent : (after asciiPython (· == publicAddress) 10 (shopRequest "X-Api-Key") shops
      leavesShop).sent.any (fun p => decide (p.url = "https://other.example/products" ∧
        ("X-Api-Key", "secret") ∈ p.headers)) = true := by
    decide +kernel
  obtain ⟨p, hp, hshop⟩ := List.any_eq_true.mp hsent
  obtain ⟨hurl, hheader⟩ := of_decide_eq_true hshop
  have helsewhere : Elsewhere asciiPython (shopRequest "X-Api-Key") p.url := by
    rw [hurl]
    unfold Elsewhere
    decide +kernel
  intro hconfined
  have hout := hconfined.withheld.elsewhere p hp helsewhere _ hheader
  revert hout
  decide

end CommerceCollector.Redirects
