import CommerceCollector.Proxy.StaticPool

/-!
# The caps of a collection

A usage is an account of the attempts that were authorized on all leases that hold it: the lease
that `acquire` returns, and every lease by which a rotation replaces it.  The counters of a usage
are the sums over its attempts, and the caps bound these sums.
-/

namespace CommerceCollector

open Relational

namespace StaticAttempt

/-- The attempt was authorized on a usage. -/
def on (u : ℕ) (a : StaticAttempt) : Bool := a.token.usage == u

/-- The attempts as which it counts against the cap of requests. -/
def counted (a : StaticAttempt) : ℕ :=
  match a.fate with
  | .pending => 1
  | .reconciled outcome => outcome.physicalRequests
  | .released => 0

/-- One, if the authorization was not released. -/
def granted (a : StaticAttempt) : ℕ :=
  match a.fate with
  | .pending | .reconciled _ => 1
  | .released => 0

/-- The actual bytes. -/
def spent (a : StaticAttempt) : ℕ :=
  match a.fate with
  | .reconciled outcome => outcome.transmittedBytes + outcome.receivedBytes
  | _ => 0

/-- The authorized bytes of an attempt that is not resolved. -/
def held (a : StaticAttempt) : ℕ :=
  match a.fate with
  | .pending => a.estimatedBytes
  | _ => 0

/-- The bytes by which the actual bytes exceed those that were authorized. -/
def excess (a : StaticAttempt) : ℕ :=
  match a.fate with
  | .reconciled outcome => outcome.transmittedBytes + outcome.receivedBytes - a.estimatedBytes
  | _ => 0

/-- The authorized or actual bytes. -/
def bytes (a : StaticAttempt) : ℕ := a.spent + a.held

end StaticAttempt

namespace StaticProxyPool

/-- The sum over the attempts that were authorized on a usage. -/
def sum (s : StaticProxyPool) (u : ℕ) (amount : StaticAttempt → ℕ) : ℕ :=
  total (StaticAttempt.on u) amount s.attempts

/-- **A usage is the account of its attempts.** -/
structure Account (attempts : List StaticAttempt) (u : ℕ) (usage : StaticProxyUsage) : Prop where
  requests : usage.requests = (total (StaticAttempt.on u) StaticAttempt.counted attempts : ℤ)
  used : usage.usedBytes = (total (StaticAttempt.on u) StaticAttempt.spent attempts : ℤ)
  reserved : usage.reservedBytes = (total (StaticAttempt.on u) StaticAttempt.held attempts : ℤ)
  pending : ∀ id estimatedBytes, (id, estimatedBytes) ∈ usage.authorizations →
    ∃ a ∈ attempts, a.token = ⟨u, id⟩ ∧ a.fate = .pending ∧ estimatedBytes = a.estimatedBytes
  fresh : ∀ a ∈ attempts, a.token.usage = u → a.token.authorizationId < usage.nextAuthorizationId
  requestsCap : ∀ m ∈ usage.maximumRequests,
    total (StaticAttempt.on u) StaticAttempt.granted attempts ≤ m
  bytesCap : ∀ m ∈ usage.maximumBytes,
    total (StaticAttempt.on u) StaticAttempt.spent attempts +
      total (StaticAttempt.on u) StaticAttempt.held attempts ≤
      m + total (StaticAttempt.on u) StaticAttempt.excess attempts

/-- **The invariant of the pool.** -/
structure Sound (s : StaticProxyPool) : Prop where
  keyed : Keyed StaticAttempt.token s.attempts
  account : ∀ u, Account s.attempts u (s.usage u)
  born : ∀ a ∈ s.attempts, a.token.usage < s.usages
  physical : ∀ a ∈ s.attempts, ∀ outcome, a.fate = .reconciled outcome → 1 ≤ outcome.physicalRequests
  held : ∀ l ∈ s.leases, l.usage < s.usages
  counted : ∀ l ∈ s.leases, l.leaseId < s.counter

/-! ## Accounts -/

theorem share_of_ne {u : ℕ} {a : StaticAttempt} (h : a.token.usage ≠ u) (amount : StaticAttempt → ℕ) :
    share (StaticAttempt.on u) amount a = 0 := by
  simp [share, StaticAttempt.on, h]

theorem share_token (token : StaticProxyAuthorization) (e : ℕ) (fate : AttemptFate)
    (amount : StaticAttempt → ℕ) :
    share (StaticAttempt.on token.usage) amount ⟨token, e, fate⟩ = amount ⟨token, e, fate⟩ := by
  simp [share, StaticAttempt.on]

theorem Account.append_other {attempts : List StaticAttempt} {u : ℕ} {usage : StaticProxyUsage}
    (h : Account attempts u usage) {a : StaticAttempt} (ha : a.token.usage ≠ u) :
    Account (attempts ++ [a]) u usage := by
  have hsum : ∀ amount, total (StaticAttempt.on u) amount (attempts ++ [a]) =
      total (StaticAttempt.on u) amount attempts := by
    intro amount
    rw [total_append, total_cons, total_nil, share_of_ne ha, Nat.add_zero]
  refine ⟨?_, ?_, ?_, fun id e hmem => ?_, fun b hb hu => ?_, fun m hm => ?_, fun m hm => ?_⟩
  · rw [hsum]
    exact h.requests
  · rw [hsum]
    exact h.used
  · rw [hsum]
    exact h.reserved
  · obtain ⟨b, hb, heq⟩ := h.pending id e hmem
    exact ⟨b, List.mem_append_left _ hb, heq⟩
  · rcases List.mem_append.mp hb with hold | hnew
    · exact h.fresh b hold hu
    · exact absurd (List.mem_singleton.mp hnew ▸ hu) ha
  · rw [hsum]
    exact h.requestsCap m hm
  · rw [hsum, hsum, hsum]
    exact h.bytesCap m hm

theorem Sound.granted_le {s : StaticProxyPool} (hs : s.Sound) (u : ℕ) :
    s.sum u StaticAttempt.granted ≤ s.sum u StaticAttempt.counted := by
  refine total_mono fun a ha => ?_
  unfold share
  split
  · unfold StaticAttempt.granted StaticAttempt.counted
    split
    · exact le_rfl
    · rename_i outcome hfate
      exact hs.physical a ha outcome hfate
    · exact le_rfl
  · exact le_rfl

theorem Account.grant {s : StaticProxyPool} (hs : s.Sound) {u : ℕ} {estimatedBytes : ℤ}
    (hpos : 0 ≤ estimatedBytes) (hroom : ¬exhausted (s.usage u) estimatedBytes) :
    Account (s.grant u estimatedBytes).attempts u ((s.grant u estimatedBytes).usage u) ∧
      ∀ m ∈ (s.usage u).maximumBytes,
        (s.grant u estimatedBytes).sum u StaticAttempt.spent +
          (s.grant u estimatedBytes).sum u StaticAttempt.held ≤ m := by
  have h := hs.account u
  have hgranted := hs.granted_le u
  simp only [exhausted, not_or, not_exists, not_and, not_le, not_lt] at hroom
  have hestimate : ((estimatedBytes.toNat : ℕ) : ℤ) = estimatedBytes := Int.toNat_of_nonneg hpos
  have hsum : ∀ amount, (s.grant u estimatedBytes).sum u amount = s.sum u amount +
      amount ⟨⟨u, (s.usage u).nextAuthorizationId⟩, estimatedBytes.toNat, .pending⟩ := by
    intro amount
    unfold sum StaticProxyPool.grant
    dsimp only
    have hshare := share_token ⟨u, (s.usage u).nextAuthorizationId⟩ estimatedBytes.toNat .pending
      amount
    dsimp only at hshare
    rw [total_append, total_cons, total_nil, hshare, Nat.add_zero]
  have hcounted := hsum StaticAttempt.counted
  have hspent := hsum StaticAttempt.spent
  have hheld := hsum StaticAttempt.held
  have hexcess := hsum StaticAttempt.excess
  have hgrant := hsum StaticAttempt.granted
  simp only [StaticAttempt.counted, StaticAttempt.spent, StaticAttempt.held, StaticAttempt.excess,
    StaticAttempt.granted] at hcounted hspent hheld hexcess hgrant
  have hrequests := h.requests
  have hused := h.used
  have hreserved := h.reserved
  simp only [sum] at hcounted hspent hheld hexcess hgrant hgranted
  have hbytes : ∀ m ∈ (s.usage u).maximumBytes,
      (s.grant u estimatedBytes).sum u StaticAttempt.spent +
        (s.grant u estimatedBytes).sum u StaticAttempt.held ≤ m := by
    intro m hm
    have hfits := hroom.2 m hm
    simp only [sum]
    omega
  refine ⟨⟨?_, ?_, ?_, fun id e hmem => ?_, fun b hb hu => ?_, fun m hm => ?_, fun m hm => ?_⟩, hbytes⟩
  · rw [hcounted]
    simp [StaticProxyPool.grant, hrequests]
  · rw [hspent]
    simp [StaticProxyPool.grant, hused]
  · rw [hheld]
    simp [StaticProxyPool.grant, hreserved, hestimate]
  · simp only [StaticProxyPool.grant, Function.update_self, List.mem_append, List.mem_singleton,
      Prod.mk.injEq] at hmem
    rcases hmem with hold | ⟨rfl, rfl⟩
    · obtain ⟨b, hb, heq⟩ := h.pending id e hold
      exact ⟨b, List.mem_append_left _ hb, heq⟩
    · exact ⟨_, List.mem_append_right _ (List.mem_singleton_self _), rfl, rfl, hestimate.symm⟩
  · simp only [StaticProxyPool.grant, Function.update_self]
    rcases List.mem_append.mp hb with hold | hnew
    · exact Nat.lt_succ_of_lt (h.fresh b hold hu)
    · rw [List.mem_singleton.mp hnew]
      exact Nat.lt_succ_self _
  · simp only [StaticProxyPool.grant, Function.update_self] at hm
    have hfits := hroom.1 m hm
    omega
  · simp only [StaticProxyPool.grant, Function.update_self] at hm
    have hle := hbytes m hm
    simp only [sum] at hle
    omega

theorem Account.resolve {s : StaticProxyPool} (hs : s.Sound) {token : StaticProxyAuthorization}
    {estimatedBytes : ℤ} {usage : StaticProxyUsage} {fate : AttemptFate}
    (hpending : (token.authorizationId, estimatedBytes) ∈ (s.usage token.usage).authorizations)
    (hfate : fate ≠ .pending)
    (hmaximumRequests : usage.maximumRequests = (s.usage token.usage).maximumRequests)
    (hmaximumBytes : usage.maximumBytes = (s.usage token.usage).maximumBytes)
    (hnext : usage.nextAuthorizationId = (s.usage token.usage).nextAuthorizationId)
    (hauthorizations : usage.authorizations = (s.usage token.usage).authorizations)
    (hrequests : usage.requests = (s.usage token.usage).requests - 1 +
      (StaticAttempt.counted ⟨token, estimatedBytes.toNat, fate⟩ : ℤ))
    (hused : usage.usedBytes = (s.usage token.usage).usedBytes +
      (StaticAttempt.spent ⟨token, estimatedBytes.toNat, fate⟩ : ℤ))
    (hreserved : usage.reservedBytes = (s.usage token.usage).reservedBytes - estimatedBytes) :
    Account (s.resolve token usage fate).attempts token.usage
      ((s.resolve token usage fate).usage token.usage) := by
  have h := hs.account token.usage
  obtain ⟨⟨was, estimate, wasFate⟩, ha, htoken, hwas, rfl⟩ := h.pending _ _ hpending
  obtain rfl : token = was := htoken.symm
  obtain rfl : wasFate = .pending := hwas
  simp only [Int.toNat_natCast] at hrequests hused hreserved
  -- The attempt exchanges its share for the one of its fate.
  have hsum : ∀ amount, (s.resolve token usage fate).sum token.usage amount +
      amount ⟨token, estimate, .pending⟩ =
      s.sum token.usage amount + amount ⟨token, estimate, fate⟩ := by
    intro amount
    have hkey := total_update_key hs.keyed ha (q := fun a => a.token == token) (by simp)
      (fun b hb => beq_iff_eq.mp hb) (StaticAttempt.on token.usage) amount
      fun attempt => { attempt with fate }
    rw [share_token, share_token] at hkey
    exact hkey
  have hcounted := hsum StaticAttempt.counted
  have hspent := hsum StaticAttempt.spent
  have hheld := hsum StaticAttempt.held
  have hexcess := hsum StaticAttempt.excess
  have hgranted := hsum StaticAttempt.granted
  have hover : StaticAttempt.spent ⟨token, estimate, fate⟩ ≤
      estimate + StaticAttempt.excess ⟨token, estimate, fate⟩ := by
    cases fate with
    | pending => exact absurd rfl hfate
    | reconciled outcome =>
      simp only [StaticAttempt.spent, StaticAttempt.excess]
      omega
    | released => exact Nat.zero_le _
  have hone : StaticAttempt.granted ⟨token, estimate, fate⟩ ≤ 1 := by
    cases fate <;> simp [StaticAttempt.granted]
  have hnone : StaticAttempt.held ⟨token, estimate, fate⟩ = 0 := by
    cases fate with
    | pending => exact absurd rfl hfate
    | reconciled outcome => rfl
    | released => rfl
  have hwere : StaticAttempt.counted ⟨token, estimate, .pending⟩ = 1 ∧
      StaticAttempt.spent ⟨token, estimate, .pending⟩ = 0 ∧
      StaticAttempt.held ⟨token, estimate, .pending⟩ = estimate ∧
      StaticAttempt.excess ⟨token, estimate, .pending⟩ = 0 ∧
      StaticAttempt.granted ⟨token, estimate, .pending⟩ = 1 := ⟨rfl, rfl, rfl, rfl, rfl⟩
  obtain ⟨h₁, h₂, h₃, h₄, h₅⟩ := hwere
  have hr := h.requests
  have hu := h.used
  have hv := h.reserved
  simp only [sum] at hcounted hspent hheld hexcess hgranted
  have husage : (s.resolve token usage fate).usage token.usage = { usage with
      authorizations := usage.authorizations.filter fun entry => entry.1 != token.authorizationId } :=
    Function.update_self ..
  rw [husage]
  refine ⟨?_, ?_, ?_, fun id e hmem => ?_, fun b hb hbu => ?_, fun m hm => ?_, fun m hm => ?_⟩
  · dsimp only
    omega
  · dsimp only
    omega
  · dsimp only
    omega
  · obtain ⟨hmem, hid⟩ := List.mem_filter.mp hmem
    rw [hauthorizations] at hmem
    obtain ⟨b, hb, hbt, hbf, hbe⟩ := h.pending id e hmem
    refine ⟨b, mem_update_of_neg hb ?_, hbt, hbf, hbe⟩
    rw [hbt]
    simp only [bne_iff_ne, ne_eq] at hid
    rw [beq_eq_false_iff_ne]
    intro heq
    exact hid (congrArg StaticProxyAuthorization.authorizationId heq)
  · obtain ⟨c, hc, rfl⟩ := mem_update.mp hb
    dsimp only
    rw [hnext]
    split at hbu <;> split <;> exact h.fresh c hc hbu
  · have hcap := h.requestsCap m (hmaximumRequests ▸ hm)
    omega
  · have hcap := h.bytesCap m (hmaximumBytes ▸ hm)
    omega

theorem Account.resolve_other {s : StaticProxyPool} {token : StaticProxyAuthorization} {u : ℕ}
    (hu : u ≠ token.usage) (h : Account s.attempts u (s.usage u)) (usage : StaticProxyUsage)
    (fate : AttemptFate) :
    Account (s.resolve token usage fate).attempts u ((s.resolve token usage fate).usage u) := by
  have husage : (s.resolve token usage fate).usage u = s.usage u := Function.update_of_ne hu ..
  have hsum : ∀ amount, total (StaticAttempt.on u) amount (s.resolve token usage fate).attempts =
      total (StaticAttempt.on u) amount s.attempts := by
    intro amount
    refine total_update_eq fun a _ hq => ?_
    have hne : a.token.usage ≠ u := by
      rw [beq_iff_eq.mp hq]
      exact Ne.symm hu
    rw [share_of_ne hne, share_of_ne (a := { a with fate }) hne]
  rw [husage]
  refine ⟨?_, ?_, ?_, fun id e hmem => ?_, fun b hb hbu => ?_, fun m hm => ?_, fun m hm => ?_⟩
  · rw [hsum]
    exact h.requests
  · rw [hsum]
    exact h.used
  · rw [hsum]
    exact h.reserved
  · obtain ⟨b, hb, hbt, heq⟩ := h.pending id e hmem
    refine ⟨b, mem_update_of_neg hb ?_, hbt, heq⟩
    rw [hbt, beq_eq_false_iff_ne]
    intro hsame
    exact hu (congrArg StaticProxyAuthorization.usage hsame)
  · obtain ⟨c, hc, rfl⟩ := mem_update.mp hb
    split at hbu <;> split <;> exact h.fresh c hc hbu
  · rw [hsum]
    exact h.requestsCap m hm
  · rw [hsum, hsum, hsum]
    exact h.bytesCap m hm

/-! ## Operations -/

theorem Sound.enter {s : StaticProxyPool} (hs : s.Sound) (request : StaticProxyRequest)
    (selected : StaticRoute) : (s.enter request selected).1.Sound where
  keyed := hs.keyed
  account u := by
    by_cases hu : u = s.usages
    · subst hu
      have hempty : ∀ amount, total (StaticAttempt.on s.usages) amount s.attempts = 0 := by
        intro amount
        refine total_eq_zero fun a ha => ?_
        rw [StaticAttempt.on, beq_eq_false_iff_ne]
        exact Nat.ne_of_lt (hs.born a ha)
      have husage : (s.enter request selected).1.usage s.usages =
          { maximumRequests := request.maximumRequests, maximumBytes := request.maximumBytes } :=
        Function.update_self ..
      have hattempts : (s.enter request selected).1.attempts = s.attempts := rfl
      rw [husage, hattempts]
      refine ⟨by simp [hempty], by simp [hempty], by simp [hempty], by simp, fun a ha hon => ?_,
        by simp [hempty], by simp [hempty]⟩
      exact absurd hon (Nat.ne_of_lt (hs.born a ha))
    · have husage : (s.enter request selected).1.usage u = s.usage u :=
        Function.update_of_ne hu ..
      rw [husage]
      exact hs.account u
  born a ha := Nat.lt_succ_of_lt (hs.born a ha)
  physical := hs.physical
  held l hl := by
    rcases List.mem_append.mp hl with hold | hnew
    · exact Nat.lt_succ_of_lt (hs.held l hold)
    · rw [List.mem_singleton.mp hnew]
      exact Nat.lt_succ_self _
  counted l hl := by
    rcases List.mem_append.mp hl with hold | hnew
    · exact Nat.lt_succ_of_lt (hs.counted l hold)
    · rw [List.mem_singleton.mp hnew]
      exact Nat.lt_succ_self _

/-- **What `acquire` does.**  It raises and changes nothing, or it enters a lease. -/
theorem acquire_cases (s : StaticProxyPool) (request : StaticProxyRequest) (available : Available) :
    (∃ e, s.acquire request available = (s, .error e)) ∨
      ∃ scores selected, s.acquire request available =
        (({ s with routingScores := scores }.enter request selected).1,
          .ok ({ s with routingScores := scores }.enter request selected).2) := by
  unfold acquire
  split
  · exact Or.inl ⟨_, rfl⟩
  dsimp only
  split
  · exact Or.inl ⟨_, rfl⟩
  · exact Or.inr ⟨_, _, rfl⟩

/-- `acquire` keeps the invariant, and no usage is lost. -/
theorem Sound.acquire {s : StaticProxyPool} (hs : s.Sound) (request : StaticProxyRequest)
    (available : Available) :
    (s.acquire request available).1.Sound ∧ s.usages ≤ (s.acquire request available).1.usages := by
  rcases s.acquire_cases request available with ⟨e, heq⟩ | ⟨scores, selected, heq⟩ <;> rw [heq]
  · exact ⟨hs, le_rfl⟩
  · have hscores : Sound { s with routingScores := scores } := { hs with }
    exact ⟨hscores.enter request selected, Nat.le_succ _⟩

/-- `release` keeps the invariant. -/
theorem Sound.release {s : StaticProxyPool} (hs : s.Sound) (leaseId : ℕ) : (s.release leaseId).Sound :=
  { hs with
    held := fun l hl => hs.held l (List.mem_filter.mp hl).1
    counted := fun l hl => hs.counted l (List.mem_filter.mp hl).1 }

theorem mem_of_owned {s : StaticProxyPool} {leaseId : ℕ} {lease : StaticProxyLease}
    (h : s.owned leaseId = some lease) : lease ∈ s.leases :=
  List.mem_of_find?_eq_some h

theorem Sound.handUsage {s : StaticProxyPool} (hs : s.Sound) (leaseId : ℕ) {u : ℕ}
    (hu : u < s.usages) : (s.handUsage leaseId u).Sound :=
  { hs with
    held := fun l hl => by
      obtain ⟨l', hl', rfl⟩ := mem_update.mp hl
      split
      · exact hu
      · exact hs.held l' hl'
    counted := fun l hl => by
      obtain ⟨l', hl', rfl⟩ := mem_update.mp hl
      split <;> exact hs.counted l' hl' }

/-- `rotate` keeps the invariant. -/
theorem Sound.rotate {s : StaticProxyPool} (hs : s.Sound) (leaseId : ℕ) (available : Available) :
    (s.rotate leaseId available).1.Sound := by
  unfold StaticProxyPool.rotate
  split
  · exact hs
  · rename_i current howned
    obtain ⟨hsound, hle⟩ := (hs.release leaseId).acquire current.request available
    split
    · rename_i s' e heq
      rw [heq] at hsound
      exact hsound
    · rename_i s' replacement heq
      rw [heq] at hsound hle
      exact hsound.handUsage replacement.leaseId (lt_of_lt_of_le (hs.held current (mem_of_owned howned)) hle)

/-- `authorize` keeps the invariant. -/
theorem Sound.authorize {s : StaticProxyPool} (hs : s.Sound) (leaseId : ℕ) (estimatedBytes : ℤ) :
    (s.authorize leaseId estimatedBytes).1.Sound := by
  unfold StaticProxyPool.authorize
  split
  · exact hs
  rename_i hpos
  split
  · exact hs
  rename_i current howned
  split
  · exact hs
  rename_i hroom
  have hborn := hs.held current (mem_of_owned howned)
  refine ⟨hs.keyed.append fun a ha heq => ?_, fun u => ?_, fun a ha => ?_,
    fun a ha outcome hfate => ?_, hs.held, hs.counted⟩
  · have hlt := (hs.account current.usage).fresh a ha (by rw [heq])
    rw [heq] at hlt
    exact Nat.lt_irrefl _ hlt
  · by_cases hu : u = current.usage
    · subst hu
      exact (Account.grant hs (not_lt.mp hpos) hroom).1
    · have husage : (s.grant current.usage estimatedBytes).usage u = s.usage u :=
        Function.update_of_ne hu ..
      rw [husage]
      exact (hs.account u).append_other (Ne.symm hu)
  · rcases List.mem_append.mp ha with hold | hnew
    · exact hs.born a hold
    · rw [List.mem_singleton.mp hnew]
      exact hborn
  · rcases List.mem_append.mp ha with hold | hnew
    · exact hs.physical a hold outcome hfate
    · rw [List.mem_singleton.mp hnew] at hfate
      exact absurd hfate (by simp)

theorem Sound.resolve {s : StaticProxyPool} (hs : s.Sound) {token : StaticProxyAuthorization}
    {usage : StaticProxyUsage} {fate : AttemptFate}
    (hself : Account (s.resolve token usage fate).attempts token.usage
      ((s.resolve token usage fate).usage token.usage))
    (hphysical : ∀ outcome, fate = .reconciled outcome → 1 ≤ outcome.physicalRequests) :
    (s.resolve token usage fate).Sound where
  keyed := hs.keyed.update fun _ => rfl
  account u := by
    by_cases hu : u = token.usage
    · subst hu
      exact hself
    · exact (hs.account u).resolve_other hu usage fate
  born a ha := by
    obtain ⟨b, hb, rfl⟩ := mem_update.mp ha
    split <;> exact hs.born b hb
  physical a ha outcome hfate := by
    obtain ⟨b, hb, rfl⟩ := mem_update.mp ha
    split at hfate
    · exact hphysical outcome hfate
    · exact hs.physical b hb outcome hfate
  held := hs.held
  counted := hs.counted

/-- `reconcile` keeps the invariant, if the outcome has a physical request. -/
theorem Sound.reconcile {s : StaticProxyPool} (hs : s.Sound) (token : StaticProxyAuthorization)
    {outcome : ProxyOutcome} (hphysical : 1 ≤ outcome.physicalRequests) :
    (s.reconcile token outcome).1.Sound := by
  unfold StaticProxyPool.reconcile
  dsimp only
  split
  · exact hs
  rename_i estimatedBytes hfound
  refine hs.resolve ?_ fun o ho => ?_
  · refine Account.resolve hs (Relational.mem_of_lookup hfound) (by simp) rfl rfl rfl rfl ?_ ?_ rfl
    · simp only [StaticAttempt.counted]
      omega
    · simp only [StaticAttempt.spent]
      omega
  · obtain rfl := AttemptFate.reconciled.inj ho
    exact hphysical

theorem Sound.releaseAttempt {s : StaticProxyPool} (hs : s.Sound)
    (token : StaticProxyAuthorization) : (s.releaseAttempt token).1.Sound := by
  unfold StaticProxyPool.releaseAttempt
  dsimp only
  split
  · exact hs
  rename_i estimatedBytes hfound
  refine hs.resolve ?_ (by simp)
  refine Account.resolve hs (Relational.mem_of_lookup hfound) (by simp) rfl rfl rfl rfl ?_ ?_ rfl
  · simp [StaticAttempt.counted]
  · simp [StaticAttempt.spent]

theorem one_le_physicalRequests (config : RoutingConfig) (r : RoutedRequest)
    (accounting : Option TransportAccounting) (receivedBytes : ℕ) (classification : String)
    (status : Option ℤ) :
    1 ≤ (RoutedTransport.attemptOutcome config
      (RoutedTransport.attemptAccounting r accounting receivedBytes) classification
      status).physicalRequests := by
  cases accounting with
  | none => exact le_rfl
  | some a => exact le_max_left _ _

/-- **Every operation keeps the invariant.** -/
theorem Sound.step {s : StaticProxyPool} (hs : s.Sound) (config : RoutingConfig) (op : Op) :
    (s.step config op).Sound := by
  cases op with
  | acquire request available => exact (hs.acquire request available).1
  | rotate leaseId available => exact hs.rotate leaseId available
  | release leaseId => exact hs.release leaseId
  | authorize leaseId estimatedBytes => exact hs.authorize leaseId estimatedBytes
  | reconcile token r accounting receivedBytes classification status =>
    exact hs.reconcile token (one_le_physicalRequests config r accounting receivedBytes
      classification status)
  | releaseAttempt token => exact hs.releaseAttempt token

theorem sound_after (config : RoutingConfig) (routes : List StaticRoute) (ops : List Op) :
    (after config routes ops).Sound := by
  refine Trace.exec_invariant (step config) (I := Sound) (fun s op hs => hs.step config op) ?_ ops
  exact ⟨List.nodup_nil, fun u => ⟨rfl, rfl, rfl, by simp, by simp, by simp, by simp⟩, by simp,
    by simp, by simp, by simp⟩

/-! ## The caps -/

/-- A rotation hands the usage of the old lease to its replacement, which is active. -/
theorem rotate_usage {s : StaticProxyPool} (hs : s.Sound) {leaseId : ℕ} {available : Available}
    {replacement : StaticProxyLease} (h : (s.rotate leaseId available).2 = .ok replacement) :
    ∃ current, s.owned leaseId = some current ∧ replacement.usage = current.usage ∧
      (s.rotate leaseId available).1.owned replacement.leaseId = some replacement := by
  unfold StaticProxyPool.rotate at h ⊢
  split at h
  · exact absurd h (by simp)
  rename_i current howned
  refine ⟨current, howned, ?_⟩
  rcases (s.release leaseId).acquire_cases current.request available with
    ⟨e, heq⟩ | ⟨scores, selected, heq⟩
  · rw [heq] at h
    exact absurd h (by simp)
  · rw [heq] at h ⊢
    simp only [Except.ok.injEq] at h
    subst h
    refine ⟨rfl, ?_⟩
    -- No other lease has the number of the new one.
    have hnone : ∀ l ∈ (s.release leaseId).leases, l.leaseId ≠ s.counter := fun l hl =>
      Nat.ne_of_lt (hs.counted l (List.mem_filter.mp hl).1)
    have hskip : ((update (fun l : StaticProxyLease => l.leaseId == s.counter)
        (fun l => { l with usage := current.usage }) (s.release leaseId).leases).find?
          fun l => l.leaseId == s.counter) = none := by
      rw [List.find?_eq_none]
      intro l hl
      obtain ⟨l', hl', rfl⟩ := mem_update.mp hl
      split <;> simp [hnone l' hl']
    unfold owned handUsage StaticProxyPool.enter
    unfold update at hskip ⊢
    dsimp only at hskip ⊢
    rw [List.map_append, List.find?_append]
    have hcounter : (s.release leaseId).counter = s.counter := rfl
    rw [hcounter, hskip]
    simp

/-- **The caps survive a rotation.**  On all leases that hold a usage, the attempts that were
authorized and not released never exceed the cap of requests, and the authorized or actual bytes
exceed the cap of bytes at most by what reconciled attempts took beyond their authorization.  No
authorization takes these bytes over the cap, and a rotation hands the usage on. -/
theorem caps_kept (config : RoutingConfig) (routes : List StaticRoute) (ops : List Op) :
    (∀ u, (∀ m ∈ ((after config routes ops).usage u).maximumRequests,
        (after config routes ops).sum u StaticAttempt.granted ≤ m) ∧
      ∀ m ∈ ((after config routes ops).usage u).maximumBytes,
        (after config routes ops).sum u StaticAttempt.bytes ≤
          m + (after config routes ops).sum u StaticAttempt.excess) ∧
    (∀ leaseId estimatedBytes token,
      ((after config routes ops).authorize leaseId estimatedBytes).2 = .ok (some token) →
      ∀ m ∈ ((after config routes ops).usage token.usage).maximumBytes,
        ((after config routes ops).authorize leaseId estimatedBytes).1.sum token.usage
          StaticAttempt.bytes ≤ m) ∧
    ∀ leaseId available replacement,
      ((after config routes ops).rotate leaseId available).2 = .ok replacement →
      ∃ current, (after config routes ops).owned leaseId = some current ∧
        replacement.usage = current.usage ∧
        ((after config routes ops).rotate leaseId available).1.owned replacement.leaseId =
          some replacement := by
  have hs := sound_after config routes ops
  have hbytes : ∀ (s : StaticProxyPool) (u : ℕ), s.sum u StaticAttempt.bytes =
      s.sum u StaticAttempt.spent + s.sum u StaticAttempt.held := by
    intro s u
    unfold sum StaticAttempt.bytes
    induction s.attempts with
    | nil => rfl
    | cons a attempts ih =>
      simp only [total_cons, ih, share]
      split <;> omega
  refine ⟨fun u => ⟨(hs.account u).requestsCap, fun m hm => ?_⟩, fun leaseId estimatedBytes token h => ?_,
    fun leaseId available replacement h => rotate_usage hs h⟩
  · rw [hbytes]
    exact (hs.account u).bytesCap m hm
  · intro m hm
    rw [hbytes]
    unfold authorize at h ⊢
    split at h
    · exact absurd h (by simp)
    rename_i hpos
    rw [if_neg hpos]
    split at h
    · exact absurd h (by simp)
    rename_i current howned
    split at h
    · exact absurd h (by simp)
    rename_i hroom
    simp only [Except.ok.injEq, Option.some.injEq] at h
    subst h
    rw [if_neg hroom]
    exact (Account.grant hs (not_lt.mp hpos) hroom).2 m hm

/-! ## Beyond the caps -/

/-- A pool with one route. -/
def oneRoute : List StaticRoute :=
  [{ endpoint := { provider := "one", endpointId := "one-1", kind := .residential } }]

/-- A source that goes through the pool. -/
def cappedSource : RoutingConfig := { mode := .always, targetHost := "shop.example" }

/-- A collection that may make one attempt and take ten bytes. -/
def cappedRequest : StaticProxyRequest :=
  { targetHost := "shop.example", maximumRequests := some 1, maximumBytes := some 10 }

/-- The attempt of ten bytes takes eleven. -/
def overrun : List Op :=
  [.acquire cappedRequest fun _ _ _ => true, .authorize 1 10,
    .reconcile ⟨0, 0⟩ { transmittedBytes := 5 } none 6 "success" (some 200)]

/-- No route is available when the lease is rotated, and the next lease is acquired afresh. -/
def reacquired : List Op :=
  [.acquire cappedRequest fun _ _ _ => true, .authorize 1 10, .rotate 1 fun _ _ _ => false,
    .acquire cappedRequest fun _ _ _ => true, .authorize 2 10]

/-- The bytes of the first collection and the attempts of the second one exceed the caps. -/
theorem caps_exceeded :
    10 < ((after cappedSource oneRoute overrun).attempts.map StaticAttempt.bytes).sum ∧
      1 < ((after cappedSource oneRoute reacquired).attempts.map StaticAttempt.granted).sum := by
  constructor <;> decide +kernel

end StaticProxyPool

end CommerceCollector
