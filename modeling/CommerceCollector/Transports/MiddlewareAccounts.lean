import CommerceCollector.Foundation.Total
import CommerceCollector.Transports.Middleware

/-!
# The accounts of the middleware

The counters of the budget are sums over the attempts, and so are the permits that are held at an
origin.  `Sound` is the invariant of the middleware, `Relies` what a suspended call relies on, and
`Apart` what keeps two calls apart: each has a number of its own, and so has its attempt.
-/

namespace CommerceCollector

open Relational Tasks

namespace TransportAttempt

/-- The authorization was not released. -/
def granted (a : TransportAttempt) : ℕ := (a.authorization.isSome && a.released == 0).toNat

/-- The bytes with which the authorization was reconciled. -/
def spent (a : TransportAttempt) : ℕ := a.reconciled.sum

/-- The authorization is not resolved. -/
def pending (a : TransportAttempt) : Bool :=
  a.authorization.isSome && a.reconciled.isEmpty && a.released == 0

/-- The bytes that are reserved for the attempt. -/
def reserved (a : TransportAttempt) : ℕ := if a.pending = true then a.estimatedBytes else 0

/-- The permits that the attempt holds. -/
def outstanding (a : TransportAttempt) : ℕ := a.permits - a.permitsReleased

/-- The attempt is accounted for: its authorization was resolved once, by `reconcile` if and only if
the backend was called, and its permit was released as often as it was acquired. -/
structure Accounted (a : TransportAttempt) : Prop where
  reconciled : a.reconciled.length = (a.authorization.isSome && a.dispatched).toNat
  released : a.released = (a.authorization.isSome && !a.dispatched).toNat
  permits : a.permitsReleased = a.permits

end TransportAttempt

/-- All rows. -/
def everyRow {α : Type*} (_ : α) : Bool := true

/-- **The budget is the account of the attempts.** -/
structure BudgetOf (attempts : List TransportAttempt) (b : MemoryRequestBudget) : Prop where
  requests : b.requests = (total everyRow TransportAttempt.granted attempts : ℤ)
  bytes : b.bytes = (total everyRow TransportAttempt.spent attempts : ℤ)
  reserved : b.reservedBytes = (total everyRow TransportAttempt.reserved attempts : ℤ)
  entries : ∀ id e, (id, e) ∈ b.authorizations ↔
    ∃ a ∈ attempts, a.authorization = some id ∧ a.pending = true ∧ e = a.estimatedBytes
  fresh : ∀ a ∈ attempts, ∀ id ∈ a.authorization, id < b.nextAuthorizationId
  distinct : ∀ a ∈ attempts, ∀ a' ∈ attempts, ∀ id, a.authorization = some id →
    a'.authorization = some id → a.id = a'.id

variable {a : TransportAttempt} {id : ℕ} {b : MemoryRequestBudget}

theorem BudgetOf.lookup {attempts : List TransportAttempt} (h : BudgetOf attempts b)
    (hkey : Keyed (fun a : TransportAttempt => a.id) attempts) (ha : a ∈ attempts)
    (hid : a.authorization = some id)
    (hpending : a.pending = true) : b.authorizations.lookup id = some a.estimatedBytes := by
  have hmem : (id, a.estimatedBytes) ∈ b.authorizations :=
    (h.entries id a.estimatedBytes).mpr ⟨a, ha, hid, hpending, rfl⟩
  cases hfound : b.authorizations.lookup id with
  | none =>
    have hnone := List.lookup_eq_none_iff.mp hfound _ hmem
    simp at hnone
  | some e =>
    obtain ⟨before, rest, heq, -⟩ := List.lookup_eq_some_iff.mp hfound
    have hmem' : (id, e) ∈ b.authorizations :=
      heq ▸ List.mem_append_right _ (List.mem_cons_self ..)
    obtain ⟨c, hc, hci, -, he⟩ := (h.entries id e).mp hmem'
    obtain rfl := hkey.eq_of_mem hc ha (h.distinct c hc a ha id hci hid)
    rw [he]

namespace MiddlewareTransport

/-- **The invariant of the middleware.** -/
structure Sound (config : MiddlewareConfig) (s : MiddlewareTransport) : Prop where
  keyed : s.attempts.map (fun a => a.id) = List.range s.attempts.length
  known : ∀ a ∈ s.attempts, a.call < s.calls
  limited : ∀ c, s.attempts.countP (fun a => a.call == c) ≤ config.retries + 1
  settled : ∀ a ∈ s.attempts, a.settled = true → a.Accounted
  permits : ∀ o, s.held o = total (fun a => a.origin == o) TransportAttempt.outstanding s.attempts
  budget : ∀ b ∈ s.budget, BudgetOf s.attempts b
  unbudgeted : s.budget = none → ∀ a ∈ s.attempts, a.authorization = none

/-- A call has made at most so many attempts. -/
def Used (s : MiddlewareTransport) (call k : ℕ) : Prop :=
  call < s.calls ∧ s.attempts.countP (fun a => a.call == call) ≤ k

/-- The attempt of a call is not settled yet. -/
def Open (s : MiddlewareTransport) (c : TransportCall) (id : ℕ) (permits : ℕ)
    (dispatched : Bool) : Prop :=
  ∃ a ∈ s.attempts, a.id = id ∧ a.origin = c.input.origin ∧ a.settled = false ∧
    a.reconciled = [] ∧ a.released = 0 ∧ a.permitsReleased = 0 ∧ a.permits = permits ∧
    a.dispatched = dispatched

/-- **What a suspended call relies on.** -/
def Relies (config : MiddlewareConfig) (s : MiddlewareTransport) : TransportTask → Prop
  | .called _ => True
  | .robots c | .lookup c => s.Used c.id 0
  | .permit c attempt id =>
    s.Used c.id (attempt + 1) ∧ attempt ≤ config.retries ∧ s.Open c id 0 false
  | .pacing c attempt id =>
    s.Used c.id (attempt + 1) ∧ attempt ≤ config.retries ∧ s.Open c id 1 false ∧
      config.concurrency.isSome = true
  | .dispatched c attempt id =>
    s.Used c.id (attempt + 1) ∧ attempt ≤ config.retries ∧
      s.Open c id config.concurrency.isSome.toNat true
  | .rotating c attempt | .sleeping c attempt =>
    s.Used c.id (attempt + 1) ∧ attempt < config.retries
  | .caching c => c.id < s.calls

end MiddlewareTransport

namespace TransportTask

/-- The number of the call. -/
def call? : TransportTask → Option ℕ
  | called _ => none
  | robots c | lookup c | permit c _ _ | pacing c _ _ | dispatched c _ _ | rotating c _
  | sleeping c _ | caching c => some c.id

/-- The number of the attempt that is under way. -/
def attempt? : TransportTask → Option ℕ
  | permit _ _ id | pacing _ _ id | dispatched _ _ id => some id
  | _ => none

/-- **What keeps two calls apart.** -/
structure Apart (t u : TransportTask) : Prop where
  call : ∀ i j, t.call? = some i → u.call? = some j → i ≠ j
  attempt : ∀ i j, t.attempt? = some i → u.attempt? = some j → i ≠ j

theorem Apart.symm {t u : TransportTask} (h : Apart t u) : Apart u t where
  call i j hi hj heq := h.call j i hj hi heq.symm
  attempt i j hi hj heq := h.attempt j i hj hi heq.symm

end TransportTask

namespace MiddlewareTransport

open TransportTask

variable {config : MiddlewareConfig} {s s' : MiddlewareTransport}

/-! ## What a call relies on -/

theorem Relies.lt {t : TransportTask} (h : s.Relies config t) {i : ℕ} (hi : t.call? = some i) :
    i < s.calls := by
  cases t with
  | called input => cases hi
  | robots c => exact Option.some.inj hi ▸ h.1
  | lookup c => exact Option.some.inj hi ▸ h.1
  | permit c n id => exact Option.some.inj hi ▸ h.1.1
  | pacing c n id => exact Option.some.inj hi ▸ h.1.1
  | dispatched c n id => exact Option.some.inj hi ▸ h.1.1
  | rotating c n => exact Option.some.inj hi ▸ h.1.1
  | sleeping c n => exact Option.some.inj hi ▸ h.1.1
  | caching c => exact Option.some.inj hi ▸ h

/-- A call relies on its number, on the count of its attempts and on the record of its attempt. -/
theorem Relies.of_same {t : TransportTask} (h : s.Relies config t) (hcalls : s.calls ≤ s'.calls)
    (hcount : ∀ i, t.call? = some i → s'.attempts.countP (fun a => a.call == i) ≤
      s.attempts.countP fun a => a.call == i)
    (hattempt : ∀ a ∈ s.attempts, t.attempt? = some a.id → a ∈ s'.attempts) :
    s'.Relies config t := by
  have hused : ∀ i k, t.call? = some i → s.Used i k → s'.Used i k := fun i k hi hk =>
    ⟨lt_of_lt_of_le hk.1 hcalls, le_trans (hcount i hi) hk.2⟩
  have hopen : ∀ c id permits dispatched, t.attempt? = some id → s.Open c id permits dispatched →
      s'.Open c id permits dispatched := by
    rintro c id permits dispatched hid ⟨a, ha, rfl, hrest⟩
    exact ⟨a, hattempt a ha hid, rfl, hrest⟩
  cases t with
  | called input => trivial
  | robots c => exact hused _ _ rfl h
  | lookup c => exact hused _ _ rfl h
  | permit c n id => exact ⟨hused _ _ rfl h.1, h.2.1, hopen _ _ _ _ rfl h.2.2⟩
  | pacing c n id => exact ⟨hused _ _ rfl h.1, h.2.1, hopen _ _ _ _ rfl h.2.2.1, h.2.2.2⟩
  | dispatched c n id => exact ⟨hused _ _ rfl h.1, h.2.1, hopen _ _ _ _ rfl h.2.2⟩
  | rotating c n => exact ⟨hused _ _ rfl h.1, h.2⟩
  | sleeping c n => exact ⟨hused _ _ rfl h.1, h.2⟩
  | caching c => exact lt_of_lt_of_le h hcalls

theorem Sound.nodup (hs : s.Sound config) : Keyed (fun a : TransportAttempt => a.id) s.attempts := by
  unfold Keyed
  rw [hs.keyed]
  exact List.nodup_range

theorem Sound.id_lt (hs : s.Sound config) (ha : a ∈ s.attempts) : a.id < s.attempts.length := by
  have hmem : a.id ∈ s.attempts.map fun a => a.id := List.mem_map_of_mem ha
  rw [hs.keyed] at hmem
  exact List.mem_range.mp hmem

theorem Relies.attempt_lt {t : TransportTask} (h : s.Relies config t) (hs : s.Sound config) {i : ℕ}
    (hi : t.attempt? = some i) : i < s.attempts.length := by
  have hopen : ∀ c id permits dispatched, s.Open c id permits dispatched → some id = some i →
      i < s.attempts.length := by
    rintro c id permits dispatched ⟨a, ha, rfl, -⟩ heq
    exact Option.some.inj heq ▸ hs.id_lt ha
  cases t with
  | permit c n id => exact hopen _ _ _ _ h.2.2 hi
  | pacing c n id => exact hopen _ _ _ _ h.2.2.1 hi
  | dispatched c n id => exact hopen _ _ _ _ h.2.2 hi
  | called input => cases hi
  | robots c => cases hi
  | lookup c => cases hi
  | rotating c n => cases hi
  | sleeping c n => cases hi
  | caching c => cases hi

/-! ## The record of an attempt -/

/-- The rewriting keeps what identifies the attempt. -/
structure Keeps (f : TransportAttempt → TransportAttempt) : Prop where
  id : ∀ a, (f a).id = a.id
  call : ∀ a, (f a).call = a.call
  origin : ∀ a, (f a).origin = a.origin
  estimate : ∀ a, (f a).estimatedBytes = a.estimatedBytes
  authorization : ∀ a, (f a).authorization = a.authorization

theorem keeps_permits : Keeps fun a => { a with permits := a.permits + 1 } :=
  ⟨fun _ => rfl, fun _ => rfl, fun _ => rfl, fun _ => rfl, fun _ => rfl⟩

theorem keeps_permitsReleased : Keeps fun a => { a with permitsReleased := a.permitsReleased + 1 } :=
  ⟨fun _ => rfl, fun _ => rfl, fun _ => rfl, fun _ => rfl, fun _ => rfl⟩

theorem keeps_reconciled (responseBytes : ℕ) :
    Keeps fun a => { a with reconciled := responseBytes :: a.reconciled } :=
  ⟨fun _ => rfl, fun _ => rfl, fun _ => rfl, fun _ => rfl, fun _ => rfl⟩

theorem keeps_released : Keeps fun a => { a with released := a.released + 1 } :=
  ⟨fun _ => rfl, fun _ => rfl, fun _ => rfl, fun _ => rfl, fun _ => rfl⟩

/-- The end of the `finally` is noted. -/
theorem keeps_settled : Keeps fun a => { a with settled := true } :=
  ⟨fun _ => rfl, fun _ => rfl, fun _ => rfl, fun _ => rfl, fun _ => rfl⟩

theorem keeps_dispatched : Keeps fun a => { a with dispatched := true } :=
  ⟨fun _ => rfl, fun _ => rfl, fun _ => rfl, fun _ => rfl, fun _ => rfl⟩

variable {f : TransportAttempt → TransportAttempt}

/-- A count of the attempts of a call does not depend on what has become of them. -/
theorem countP_record (hf : Keeps f) (id c : ℕ) :
    (s.record id f).attempts.countP (fun a => a.call == c) =
      s.attempts.countP fun a => a.call == c := by
  rw [countP_eq_total, countP_eq_total]
  exact total_update_eq fun a _ _ => by simp [share, hf.call]

theorem mem_record (ha : a ∈ s.attempts) (hid : a.id ≠ id) : a ∈ (s.record id f).attempts :=
  mem_update_of_neg ha (by simp [hid])

theorem Sound.mem_record_cases (hs : s.Sound config) {a b : TransportAttempt} (ha : a ∈ s.attempts)
    (hb : b ∈ (s.record a.id f).attempts) : (b ∈ s.attempts ∧ b.id ≠ a.id) ∨ b = f a := by
  obtain ⟨c, hc, rfl⟩ := mem_update.mp hb
  split
  · rename_i hid
    rw [hs.nodup.eq_of_mem hc ha (beq_iff_eq.mp hid)]
    exact Or.inr rfl
  · rename_i hid
    exact Or.inl ⟨hc, fun h => hid (beq_iff_eq.mpr h)⟩

theorem Sound.total_record (hs : s.Sound config) (ha : a ∈ s.attempts)
    (f : TransportAttempt → TransportAttempt) (p : TransportAttempt → Bool)
    (amount : TransportAttempt → ℕ) :
    total p amount (s.record a.id f).attempts + share p amount a =
      total p amount s.attempts + share p amount (f a) :=
  total_update_key hs.nodup ha (by simp) (fun _ hb => beq_iff_eq.mp hb) p amount f

variable {budget : Option MemoryRequestBudget}

section

variable (hs : s.Sound config) (ha : a ∈ s.attempts)

include hs ha

/-- **One attempt is rewritten,** with the permits and the budget. -/
theorem Sound.rewrite (hf : Keeps f) {held : Origin → ℕ}
    (hsettled : (f a).settled = true → (f a).Accounted)
    (hheld : ∀ o, held o + (if a.origin = o then a.outstanding else 0) =
      s.held o + if a.origin = o then (f a).outstanding else 0)
    (hbudget : ∀ b ∈ budget, BudgetOf (s.record a.id f).attempts b)
    (hnone : budget = none → s.budget = none) :
    Sound config { s.record a.id f with held, budget } where
  keyed := by
    unfold record
    simp only [update, List.length_map]
    exact (map_update hf.id s.attempts).trans hs.keyed
  known b hb := by
    rcases hs.mem_record_cases ha hb with ⟨hold, -⟩ | rfl
    · exact hs.known b hold
    · rw [hf.call]
      exact hs.known a ha
  limited c := (countP_record hf a.id c).trans_le (hs.limited c)
  settled b hb hset := by
    rcases hs.mem_record_cases ha hb with ⟨hold, -⟩ | rfl
    · exact hs.settled b hold hset
    · exact hsettled hset
  permits o := by
    have hsum := hs.total_record ha f (fun a => a.origin == o) TransportAttempt.outstanding
    have hexchange := hheld o
    have hold := hs.permits o
    simp only [share, hf.origin, beq_iff_eq] at hsum
    dsimp only
    omega
  budget := hbudget
  unbudgeted h b hb := by
    rcases hs.mem_record_cases ha hb with ⟨hold, -⟩ | rfl
    · exact hs.unbudgeted (hnone h) b hold
    · rw [hf.authorization]
      exact hs.unbudgeted (hnone h) a ha

/-- The budget does not depend on the permits and on the flags of an attempt. -/
theorem Sound.budget_same (hf : Keeps f)
    (hreconciled : (f a).reconciled = a.reconciled) (hreleased : (f a).released = a.released) :
    ∀ b ∈ s.budget, BudgetOf (s.record a.id f).attempts b := by
  intro b hb
  have h := hs.budget b hb
  have hpending : (f a).pending = a.pending := by
    simp only [TransportAttempt.pending, hf.authorization, hreconciled, hreleased]
  have hsum : ∀ amount, amount (f a) = amount a →
      total everyRow amount (s.record a.id f).attempts = total everyRow amount s.attempts := by
    intro amount heq
    have hkey := hs.total_record ha f everyRow amount
    simp only [share, everyRow, ↓reduceIte, heq] at hkey
    omega
  have hcases := fun b hb => hs.mem_record_cases (f := f) (b := b) ha hb
  refine ⟨?_, ?_, ?_, fun id e => ?_, fun c hc => ?_, fun c hc c' hc' id hid hid' => ?_⟩
  · rw [hsum _ (by simp only [TransportAttempt.granted, hf.authorization, hreleased])]
    exact h.requests
  · rw [hsum _ (by simp only [TransportAttempt.spent, hreconciled])]
    exact h.bytes
  · rw [hsum _ (by simp only [TransportAttempt.reserved, hpending, hf.estimate])]
    exact h.reserved
  · rw [h.entries]
    constructor
    · rintro ⟨c, hc, hid, hp, he⟩
      by_cases hca : c.id = a.id
      · obtain rfl := hs.nodup.eq_of_mem hc ha hca
        exact ⟨f c, mem_update_of_pos hc (by simp), (hf.authorization c).trans hid,
          hpending.trans hp, he.trans (hf.estimate c).symm⟩
      · exact ⟨c, mem_record hc hca, hid, hp, he⟩
    · rintro ⟨c, hc, hid, hp, he⟩
      rcases hcases c hc with ⟨hold, -⟩ | rfl
      · exact ⟨c, hold, hid, hp, he⟩
      · exact ⟨a, ha, (hf.authorization a).symm.trans hid, hpending.symm.trans hp,
          he.trans (hf.estimate a)⟩
  · rcases hcases c hc with ⟨hold, -⟩ | rfl
    · exact h.fresh c hold
    · rw [hf.authorization]
      exact h.fresh a ha
  · rcases hcases c hc with ⟨hold, -⟩ | rfl <;> rcases hcases c' hc' with ⟨hold', -⟩ | rfl
    · exact h.distinct c hold c' hold' id hid hid'
    · rw [hf.id]
      exact h.distinct c hold a ha id hid ((hf.authorization a).symm.trans hid')
    · rw [hf.id]
      exact h.distinct a ha c' hold' id ((hf.authorization a).symm.trans hid) hid'
    · rfl

theorem Sound.budget_pop (hf : Keeps f)
    {b b' : MemoryRequestBudget} (hb : b ∈ s.budget) (hid : a.authorization = some id)
    (hpending : a.pending = true) (hdone : (f a).pending = false)
    (hentries : b'.authorizations = b.pop id)
    (hnext : b'.nextAuthorizationId = b.nextAuthorizationId)
    (hrequests : b'.requests + a.granted = b.requests + (f a).granted)
    (hbytes : b'.bytes + a.spent = b.bytes + (f a).spent)
    (hreserved : b'.reservedBytes = b.reservedBytes - a.estimatedBytes) :
    BudgetOf (s.record a.id f).attempts b' := by
  have h := hs.budget b hb
  have hcases := fun b hb => hs.mem_record_cases (f := f) (b := b) ha hb
  have hsum : ∀ amount, total everyRow amount (s.record a.id f).attempts + amount a =
      total everyRow amount s.attempts + amount (f a) := fun amount => by
    have hkey := hs.total_record ha f everyRow amount
    simpa only [share, everyRow, ↓reduceIte] using hkey
  refine ⟨?_, ?_, ?_, fun i e => ?_, fun c hc => ?_, fun c hc c' hc' i hi hi' => ?_⟩
  · have hg := hsum TransportAttempt.granted
    have hold := h.requests
    omega
  · have hg := hsum TransportAttempt.spent
    have hold := h.bytes
    omega
  · have hg := hsum TransportAttempt.reserved
    have hold := h.reserved
    have hwas : a.reserved = a.estimatedBytes := if_pos hpending
    have hnow : (f a).reserved = 0 := by simp [TransportAttempt.reserved, hdone]
    omega
  · rw [hentries, MemoryRequestBudget.pop, List.mem_filter, h.entries]
    constructor
    · rintro ⟨⟨c, hc, hci, hp, he⟩, hne⟩
      have hca : c.id ≠ a.id := by
        intro heq
        obtain rfl := hs.nodup.eq_of_mem hc ha heq
        have hsame : i = id := Option.some.inj (hci.symm.trans hid)
        simp [hsame] at hne
      exact ⟨c, mem_record hc hca, hci, hp, he⟩
    · rintro ⟨c, hc, hci, hp, he⟩
      rcases hcases c hc with ⟨hold, hne⟩ | rfl
      · refine ⟨⟨c, hold, hci, hp, he⟩, ?_⟩
        simp only [bne_iff_ne, ne_eq]
        rintro rfl
        exact hne (h.distinct c hold a ha i hci hid)
      · exact absurd (hdone.symm.trans hp) Bool.false_ne_true
  · rw [hnext]
    rcases hcases c hc with ⟨hold, -⟩ | rfl
    · exact h.fresh c hold
    · rw [hf.authorization]
      exact h.fresh a ha
  · rcases hcases c hc with ⟨hold, -⟩ | rfl <;> rcases hcases c' hc' with ⟨hold', -⟩ | rfl
    · exact h.distinct c hold c' hold' i hi hi'
    · rw [hf.id]
      exact h.distinct c hold a ha i hi ((hf.authorization a).symm.trans hi')
    · rw [hf.id]
      exact h.distinct a ha c' hold' i ((hf.authorization a).symm.trans hi) hi'
    · rfl

/-! ## The steps of an attempt -/

theorem Sound.takePermit (hopen : a.settled = false)
    (hnone : a.permits = 0) (hback : a.permitsReleased = 0) :
    (s.takePermit a.origin a.id).Sound config := by
  refine hs.rewrite ha keeps_permits (fun h => ?_) (fun o => ?_)
    (hs.budget_same ha keeps_permits rfl rfl) id
  · exact absurd (hopen.symm.trans h) Bool.false_ne_true
  · by_cases ho : a.origin = o
    · subst ho
      simp only [Function.update_self, ↓reduceIte, TransportAttempt.outstanding]
      omega
    · simp [ho, Function.update_of_ne (Ne.symm ho)]

theorem Sound.givePermit (hopen : a.settled = false)
    (hone : a.permits = a.permitsReleased + 1) :
    (s.givePermit a.origin a.id).Sound config ∧ s.held a.origin ≠ 0 := by
  have hheld : 1 ≤ s.held a.origin := by
    have hout : 1 = share (fun b => b.origin == a.origin) TransportAttempt.outstanding a := by
      simp [share, TransportAttempt.outstanding, hone]
    rw [hs.permits, total_eq_sum, hout]
    exact List.single_le_sum (fun _ _ => Nat.zero_le _) _ (List.mem_map_of_mem ha)
  refine ⟨hs.rewrite ha keeps_permitsReleased (fun h => ?_) (fun o => ?_)
    (hs.budget_same ha keeps_permitsReleased rfl rfl) id, by omega⟩
  · exact absurd (hopen.symm.trans h) Bool.false_ne_true
  · by_cases ho : a.origin = o
    · subst ho
      simp only [Function.update_self, ↓reduceIte, TransportAttempt.outstanding]
      omega
    · simp [ho, Function.update_of_ne (Ne.symm ho)]

theorem Sound.reconcile (hopen : a.settled = false)
    (hreconciled : a.reconciled = []) (hreleased : a.released = 0) (hb : b ∈ s.budget)
    (hid : a.authorization = some id) (responseBytes : ℕ) :
    ∃ b', b.reconcile id responseBytes = some b' ∧
      Sound config { s.record a.id (fun a => { a with reconciled := responseBytes :: a.reconciled })
        with budget := some b' } := by
  have hf := keeps_reconciled responseBytes
  have hpending : a.pending = true := by
    simp [TransportAttempt.pending, hid, hreconciled, hreleased]
  have hlookup := (hs.budget b hb).lookup hs.nodup ha hid hpending
  refine ⟨_, by rw [MemoryRequestBudget.reconcile, hlookup, Option.map_some], ?_⟩
  refine hs.rewrite ha hf (fun h => ?_) (fun o => rfl) (fun b' hb' => ?_) nofun
  · exact absurd (hopen.symm.trans h) Bool.false_ne_true
  · obtain rfl := Option.some.inj hb'
    refine hs.budget_pop ha hf hb hid hpending ?_ rfl rfl rfl ?_ rfl
    · simp [TransportAttempt.pending]
    · simp [TransportAttempt.spent, hreconciled]

theorem Sound.release (hopen : a.settled = false)
    (hreconciled : a.reconciled = []) (hreleased : a.released = 0) (hb : b ∈ s.budget)
    (hid : a.authorization = some id) :
    ∃ b', b.release id = some b' ∧
      Sound config { s.record a.id (fun a => { a with released := a.released + 1 })
        with budget := some b' } := by
  have hf := keeps_released
  have hpending : a.pending = true := by
    simp [TransportAttempt.pending, hid, hreconciled, hreleased]
  have hlookup := (hs.budget b hb).lookup hs.nodup ha hid hpending
  refine ⟨_, by rw [MemoryRequestBudget.release, hlookup, Option.map_some], ?_⟩
  refine hs.rewrite ha hf (fun h => ?_) (fun o => rfl) (fun b' hb' => ?_) nofun
  · exact absurd (hopen.symm.trans h) Bool.false_ne_true
  · obtain rfl := Option.some.inj hb'
    refine hs.budget_pop ha hf hb hid hpending ?_ rfl rfl ?_ rfl rfl
    · simp [TransportAttempt.pending]
    · simp [TransportAttempt.granted, hid, hreleased]

theorem Sound.flag (hf : Keeps f)
    (hreconciled : (f a).reconciled = a.reconciled) (hreleased : (f a).released = a.released)
    (hpermits : (f a).outstanding = a.outstanding)
    (hsettled : (f a).settled = true → (f a).Accounted) : (s.record a.id f).Sound config :=
  hs.rewrite ha hf hsettled (fun o => by rw [hpermits]) (hs.budget_same ha hf hreconciled hreleased)
    id

end

/-- The calls and the other attempts are the same. -/
structure Frame (id : ℕ) (s s' : MiddlewareTransport) : Prop where
  calls : s'.calls = s.calls
  length : s'.attempts.length = s.attempts.length
  count : ∀ i, s'.attempts.countP (fun a => a.call == i) = s.attempts.countP fun a => a.call == i
  other : ∀ a, a.id ≠ id → (a ∈ s'.attempts ↔ a ∈ s.attempts)

theorem Frame.trans {s s₁ s' : MiddlewareTransport} (h₁ : Frame id s s₁)
    (h₂ : Frame id s₁ s') : Frame id s s' where
  calls := h₂.calls.trans h₁.calls
  length := h₂.length.trans h₁.length
  count i := (h₂.count i).trans (h₁.count i)
  other a hne := (h₂.other a hne).trans (h₁.other a hne)

theorem Frame.refl (id : ℕ) (s : MiddlewareTransport) : Frame id s s :=
  ⟨rfl, rfl, fun _ => rfl, fun _ _ => Iff.rfl⟩

theorem Frame.record (hf : Keeps f) {held : Origin → ℕ} :
    Frame id s { s.record id f with held, budget } where
  calls := rfl
  length := by simp [MiddlewareTransport.record, update]
  count i := countP_record hf id i
  other a hne := by
    refine ⟨fun ha => ?_, fun ha => mem_record ha hne⟩
    obtain ⟨b, hb, rfl⟩ := mem_update.mp ha
    split at hne
    · rename_i hid
      exact absurd ((hf.id b).trans (beq_iff_eq.mp hid)) hne
    · rename_i hid
      rwa [if_neg hid]

/-- **The `finally` of an attempt** raises nothing, and the attempt is accounted for. -/
theorem Sound.finish (hs : s.Sound config) {c : TransportCall} (ha : a ∈ s.attempts)
    (horigin : a.origin = c.input.origin) (hopen : a.settled = false)
    (hreconciled : a.reconciled = []) (hreleased : a.released = 0) (acquired : Bool)
    (hpermits : a.permits = a.permitsReleased + acquired.toNat) (responseBytes : ℕ) :
    (s.finish c a.id acquired a.dispatched responseBytes).2 = false ∧
      (s.finish c a.id acquired a.dispatched responseBytes).1.Sound config ∧
      Frame a.id s (s.finish c a.id acquired a.dispatched responseBytes).1 ∧
      ∀ b ∈ (s.finish c a.id acquired a.dispatched responseBytes).1.attempts,
        b.settled = false → b.id ≠ a.id := by
  have hfound : (s.attempts.find? fun b => b.id == a.id) = some a :=
    hs.nodup.find?_of_key ha (by simp) fun b hb => beq_iff_eq.mp hb
  -- The permit.
  obtain ⟨s₁, hs₁, hsound₁, hframe₁, hbudget₁, a₁, ha₁, hid₁, hauth₁, hd₁, hr₁, hl₁, ho₁, hp₁⟩ :
      ∃ s₁, s.settlePermit c a.id acquired = some s₁ ∧ s₁.Sound config ∧ Frame a.id s s₁ ∧
        s₁.budget = s.budget ∧ ∃ a₁ ∈ s₁.attempts, a₁.id = a.id ∧
          a₁.authorization = a.authorization ∧ a₁.dispatched = a.dispatched ∧ a₁.reconciled = [] ∧
          a₁.released = 0 ∧ a₁.settled = false ∧ a₁.permitsReleased = a₁.permits := by
    cases acquired with
    | true =>
      obtain ⟨hgiven, hheld⟩ := hs.givePermit ha hopen hpermits
      rw [horigin] at hgiven hheld
      have hframe : Frame a.id s (s.givePermit c.input.origin a.id) :=
        Frame.record keeps_permitsReleased
      exact ⟨s.givePermit c.input.origin a.id, by simp [settlePermit, hheld], hgiven, hframe, rfl,
        { a with permitsReleased := a.permitsReleased + 1 }, mem_update_of_pos ha (by simp), rfl, rfl,
        rfl, hreconciled, hreleased, hopen, hpermits.symm⟩
    | false =>
      exact ⟨s, by simp [settlePermit], hs, Frame.refl _ _, rfl, a, ha, rfl, rfl, rfl, hreconciled,
        hreleased, hopen, hpermits.symm⟩
  -- The authorization.
  obtain ⟨s₂, hs₂, hsound₂, hframe₂, a₂, ha₂, hid₂, hr₂, hl₂, hp₂, ho₂⟩ :
      ∃ s₂, s₁.settleBudget a.id a.authorization a.dispatched responseBytes = some s₂ ∧
        s₂.Sound config ∧ Frame a.id s₁ s₂ ∧ ∃ a₂ ∈ s₂.attempts, a₂.id = a.id ∧
          a₂.reconciled.length = (a₂.authorization.isSome && a₂.dispatched).toNat ∧
          a₂.released = (a₂.authorization.isSome && !a₂.dispatched).toNat ∧
          a₂.permitsReleased = a₂.permits ∧ a₂.settled = false := by
    cases hb : s₁.budget with
    | none =>
      have hnone := hsound₁.unbudgeted hb a₁ ha₁
      exact ⟨s₁, by simp [settleBudget, hb], hsound₁, Frame.refl _ _, a₁, ha₁, hid₁,
        by simp [hnone, hr₁], by simp [hnone, hl₁], hp₁, ho₁⟩
    | some b =>
      cases hid : a.authorization with
      | none =>
        have hnone := hauth₁.trans hid
        exact ⟨s₁, by simp [settleBudget, hb], hsound₁, Frame.refl _ _, a₁, ha₁, hid₁,
          by simp [hnone, hr₁], by simp [hnone, hl₁], hp₁, ho₁⟩
      | some id =>
        have hsome := hauth₁.trans hid
        cases hd : a.dispatched with
        | true =>
          obtain ⟨b', hb', hsound⟩ := hsound₁.reconcile ha₁ ho₁ hr₁ hl₁ hb hsome responseBytes
          rw [hid₁] at hsound
          refine ⟨_, by simp [settleBudget, hb, hb'], hsound,
            Frame.record (keeps_reconciled responseBytes),
            { a₁ with reconciled := responseBytes :: a₁.reconciled },
            mem_update_of_pos ha₁ (by simp [hid₁]), hid₁, ?_, ?_, hp₁, ho₁⟩
          · simp [hr₁, hsome, hd₁, hd]
          · simp [hl₁, hsome, hd₁, hd]
        | false =>
          obtain ⟨b', hb', hsound⟩ := hsound₁.release ha₁ ho₁ hr₁ hl₁ hb hsome
          rw [hid₁] at hsound
          refine ⟨_, by simp [settleBudget, hb, hb'], hsound, Frame.record keeps_released,
            { a₁ with released := a₁.released + 1 },
            mem_update_of_pos ha₁ (by simp [hid₁]), hid₁, ?_, ?_, hp₁, ho₁⟩
          · simp [hr₁, hsome, hd₁, hd]
          · simp [hl₁, hsome, hd₁, hd]
  have hdone := hsound₂.flag ha₂ keeps_settled rfl rfl rfl fun _ => ⟨hr₂, hl₂, hp₂⟩
  have hfinish : s.finish c a.id acquired a.dispatched responseBytes =
      (s₂.record a.id fun a => { a with settled := true }, false) := by
    unfold MiddlewareTransport.finish
    simp only [hfound, Option.bind_some, hs₁, Option.getD_some, hs₂, Option.isNone_some, Bool.or_false]
  rw [hfinish]
  refine ⟨rfl, hid₂ ▸ hdone, (hframe₁.trans hframe₂).trans (Frame.record keeps_settled),
    fun b hb hset heq => ?_⟩
  rw [← hid₂] at hb heq
  rcases hsound₂.mem_record_cases ha₂ hb with ⟨-, hne⟩ | rfl
  · exact hne heq
  · cases hset

/-! ## The beginning of an attempt -/

/-- The record of an attempt that begins. -/
def newAttempt (c : TransportCall) (id : ℕ) (authorization : Option ℕ) : TransportAttempt :=
  { id, call := c.id, origin := c.input.origin, estimatedBytes := c.input.estimatedBytes,
    authorization }

theorem BudgetOf.authorize {attempts : List TransportAttempt} {b b' : MemoryRequestBudget}
    (h : BudgetOf attempts b) {c : TransportCall} {n id : ℕ}
    (hauth : b.authorize c.input.estimatedBytes = some (b', id)) :
    BudgetOf (attempts ++ [newAttempt c n (some id)]) b' := by
  unfold MemoryRequestBudget.authorize at hauth
  split at hauth
  case isFalse => cases hauth
  obtain ⟨rfl, rfl⟩ := Prod.mk.inj (Option.some.inj hauth)
  have hpending : (newAttempt c n (some b.nextAuthorizationId)).pending = true := rfl
  have hnext : ∀ a ∈ attempts, a.authorization ≠ some b.nextAuthorizationId := fun a ha hid =>
    absurd (h.fresh a ha _ hid) (lt_irrefl _)
  refine ⟨?_, ?_, ?_, fun i e => ?_, fun a ha i hi => ?_, fun a ha a' ha' i hi hi' => ?_⟩
  · simp [h.requests, share, everyRow, TransportAttempt.granted, newAttempt]
  · simp [h.bytes, share, everyRow, TransportAttempt.spent, newAttempt]
  · have hreserved : (newAttempt c n (some b.nextAuthorizationId)).reserved =
        c.input.estimatedBytes := if_pos hpending
    simp [h.reserved, share, everyRow, hreserved]
  · rw [List.mem_append, List.mem_singleton, h.entries]
    constructor
    · rintro (⟨a, ha, hi⟩ | heq)
      · exact ⟨a, List.mem_append_left _ ha, hi⟩
      · obtain ⟨rfl, rfl⟩ := Prod.mk.inj heq
        exact ⟨_, List.mem_append_right _ (List.mem_singleton_self _), rfl, hpending, rfl⟩
    · rintro ⟨a, ha, hi, hp, he⟩
      rcases List.mem_append.mp ha with hold | hnew
      · exact Or.inl ⟨a, hold, hi, hp, he⟩
      · obtain rfl := List.mem_singleton.mp hnew
        obtain rfl := Option.some.inj hi
        exact Or.inr (by rw [he]; rfl)
  · rcases List.mem_append.mp ha with hold | hnew
    · exact Nat.lt_succ_of_lt (h.fresh a hold i hi)
    · obtain rfl := List.mem_singleton.mp hnew
      obtain rfl := Option.some.inj hi
      exact Nat.lt_succ_self _
  · rcases List.mem_append.mp ha with hold | hnew <;> rcases List.mem_append.mp ha' with hold' | hnew'
    · exact h.distinct a hold a' hold' i hi hi'
    · obtain rfl := List.mem_singleton.mp hnew'
      obtain rfl := Option.some.inj hi'
      exact absurd hi (hnext a hold)
    · obtain rfl := List.mem_singleton.mp hnew
      obtain rfl := Option.some.inj hi
      exact absurd hi' (hnext a' hold')
    · rw [List.mem_singleton.mp hnew, List.mem_singleton.mp hnew']

/-- **An attempt begins.** -/
theorem Sound.begin (hs : s.Sound config) {c : TransportCall} {k : ℕ} (hused : s.Used c.id k)
    (hk : k ≤ config.retries) {authorization : Option ℕ} (hbudget : ∀ b ∈ budget,
      BudgetOf (s.attempts ++ [newAttempt c s.attempts.length authorization]) b)
    (hnone : budget = none → s.budget = none ∧ authorization = none) :
    Sound config { s with budget, attempts :=
      s.attempts ++ [newAttempt c s.attempts.length authorization] } where
  keyed := by
    simp only [List.map_append, hs.keyed, List.map_cons, List.map_nil, List.length_append,
      List.length_singleton, List.range_succ]
    rfl
  known a ha := by
    rcases List.mem_append.mp ha with hold | hnew
    · exact hs.known a hold
    · rw [List.mem_singleton.mp hnew]
      exact hused.1
  limited i := by
    rw [List.countP_append, List.countP_singleton]
    split
    · rename_i hi
      obtain rfl : c.id = i := beq_iff_eq.mp hi
      have := hused.2
      omega
    · exact hs.limited i
  settled a ha hset := by
    rcases List.mem_append.mp ha with hold | hnew
    · exact hs.settled a hold hset
    · rw [List.mem_singleton.mp hnew] at hset
      cases hset
  permits o := by
    rw [total_append, total_cons, total_nil, ← hs.permits o]
    simp [share, TransportAttempt.outstanding, newAttempt]
  budget := hbudget
  unbudgeted h a ha := by
    obtain ⟨hb, rfl⟩ := hnone h
    rcases List.mem_append.mp ha with hold | hnew
    · exact hs.unbudgeted hb a hold
    · rw [List.mem_singleton.mp hnew]
      rfl

end MiddlewareTransport

end CommerceCollector
