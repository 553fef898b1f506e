import CommerceCollector.Connectors.RequestBudget

/-!
# The reserves of a request budget

No claim raises, and no run of claims spends more than the budget's limit or than the ceiling of a
priority.  What the priorities up to one have not spent of their reserves stays free under claims at
or below that priority, so a claim within the reserve of its own priority is allowed.

A claim has to fund its future reserve as well, from what is free beside the reserves of the higher
priorities.  It is the cost and the future reserve together that the reserve of the priority vouches
for.
-/

namespace CommerceCollector

/-- The components of a cost. -/
inductive CostComponent
  | httpRequests
  | browserRequests
  | proxyBytes
  deriving DecidableEq, Repr

namespace RequestCost

/-- A component of a cost. -/
def get (cost : RequestCost) : CostComponent → ℕ
  | .httpRequests => cost.httpRequests
  | .browserRequests => cost.browserRequests
  | .proxyBytes => cost.proxyBytes

variable {cost other limit : RequestCost} {component : CostComponent}

@[simp] theorem get_zero : (0 : RequestCost).get component = 0 := by
  cases component <;> rfl

@[simp] theorem get_add : (cost + other).get component = cost.get component + other.get component := by
  cases component <;> rfl

@[simp] theorem get_less : (cost.less other).get component = cost.get component - other.get component := by
  cases component <;> rfl

theorem get_sum {ι : Type*} (s : Finset ι) (costs : ι → RequestCost) :
    (∑ i ∈ s, costs i).get component = ∑ i ∈ s, (costs i).get component :=
  map_sum (⟨⟨fun cost => cost.get component, get_zero⟩, fun _ _ => get_add⟩ : RequestCost →+ ℕ) costs s

theorem ext_get (h : ∀ component, cost.get component = other.get component) : cost = other :=
  RequestCost.ext (h .httpRequests) (h .browserRequests) (h .proxyBytes)

theorem exceeds_eq_false_iff :
    cost.exceeds limit = false ↔ ∀ component, cost.get component ≤ limit.get component := by
  simp only [exceeds, Bool.or_eq_false_iff, decide_eq_false_iff_not, not_lt]
  constructor
  · rintro ⟨hhttp, hbrowser, hbytes⟩ component
    cases component with
    | httpRequests => exact hhttp
    | browserRequests => exact hbrowser
    | proxyBytes => exact hbytes
  · intro h
    exact ⟨h .httpRequests, h .browserRequests, h .proxyBytes⟩

theorem ofInts_of_not_exceeds (h : cost.exceeds limit = false) :
    ofInts (limit.httpRequests - cost.httpRequests) (limit.browserRequests - cost.browserRequests)
      (limit.proxyBytes - cost.proxyBytes) = .ok (limit.less cost) := by
  have hhttp : cost.httpRequests ≤ limit.httpRequests := exceeds_eq_false_iff.mp h .httpRequests
  have hbrowser : cost.browserRequests ≤ limit.browserRequests :=
    exceeds_eq_false_iff.mp h .browserRequests
  have hbytes : cost.proxyBytes ≤ limit.proxyBytes := exceeds_eq_false_iff.mp h .proxyBytes
  rw [ofInts, if_pos ⟨by omega, by omega, by omega⟩]
  congr 2
  · exact Int.toNat_sub _ _
  · exact Int.toNat_sub _ _
  · exact Int.toNat_sub _ _

end RequestCost

namespace RequestBudget

/-! ## What a claim does -/

/-- What a claim needs: the limit, the ceiling of its priority and the reserves of the higher
ones. -/
structure Funds (budget : RequestBudget) (priority : RequestPriority) (cost : RequestCost)
    (futureReserve : Option RequestCost) : Prop where
  limit : ∀ component, budget.used.get component + cost.get component +
    (futureReserve.getD 0).get component ≤ budget.limit.get component
  ceiling : ∀ ceiling, budget.ceilings priority = some ceiling → ∀ component,
    (budget.usedBy priority).get component + cost.get component ≤ ceiling.get component
  left : ∀ component, (budget.protectedCost priority).get component ≤ budget.limit.get component -
    (budget.used.get component + cost.get component + (futureReserve.getD 0).get component)

/-- The budget after a measured usage. -/
def record (budget : RequestBudget) (priority : RequestPriority) (actual : RequestCost) :
    RequestBudget :=
  { budget with
    used := budget.used + actual
    usedByPriority :=
      Function.update budget.usedByPriority priority (some (budget.usedBy priority + actual)) }

variable {budget : RequestBudget} {priority p : RequestPriority} {cost : RequestCost}
  {futureReserve : Option RequestCost} {component : CostComponent}

theorem any_exceeds_eq_false_iff {ceiling : Option RequestCost} : ceiling.any cost.exceeds = false ↔
    ∀ bound, ceiling = some bound → ∀ component, cost.get component ≤ bound.get component := by
  cases ceiling with
  | none => simp
  | some bound =>
    rw [Option.any_some, RequestCost.exceeds_eq_false_iff]
    constructor
    · intro h other heq
      exact Option.some.inj heq ▸ h
    · intro h
      exact h bound rfl

/-- **When a cost is allowed.**  The check does not raise. -/
theorem allows_eq (budget : RequestBudget) (priority : RequestPriority) (cost : RequestCost)
    (futureReserve : Option RequestCost) : ∃ answer,
      budget.allows priority cost futureReserve = .ok answer ∧
        (answer = true ↔ budget.Funds priority cost futureReserve) := by
  have htotal : ∃ nextTotal, nextTotal = budget.used + cost + futureReserve.getD 0 ∧
      budget.allows priority cost futureReserve =
        if nextTotal.exceeds budget.limit then .ok false
        else if (budget.ceilings priority).any (budget.usedBy priority + cost).exceeds then .ok false
        else do
          let remaining ← RequestCost.ofInts (budget.limit.httpRequests - nextTotal.httpRequests)
            (budget.limit.browserRequests - nextTotal.browserRequests)
            (budget.limit.proxyBytes - nextTotal.proxyBytes)
          return !(budget.protectedCost priority).exceeds remaining := by
    cases futureReserve with
    | none => exact ⟨budget.used + cost, (add_zero _).symm, rfl⟩
    | some reserve => exact ⟨budget.used + cost + reserve, rfl, rfl⟩
  obtain ⟨nextTotal, rfl, heq⟩ := htotal
  rw [heq]
  split
  · rename_i hexceeds
    refine ⟨false, rfl, iff_of_false Bool.false_ne_true fun h => ?_⟩
    have hlimit : (budget.used + cost + futureReserve.getD 0).exceeds budget.limit = false :=
      RequestCost.exceeds_eq_false_iff.mpr fun component => by simpa using h.limit component
    exact absurd (hexceeds.symm.trans hlimit) (by decide)
  · rename_i hlimit
    split
    · rename_i hexceeds
      refine ⟨false, rfl, iff_of_false Bool.false_ne_true fun h => ?_⟩
      have hceiling :
          (budget.ceilings priority).any (budget.usedBy priority + cost).exceeds = false :=
        any_exceeds_eq_false_iff.mpr fun bound hbound component => by
          simpa using h.ceiling bound hbound component
      exact absurd (hexceeds.symm.trans hceiling) (by decide)
    · rename_i hceiling
      rw [Bool.not_eq_true] at hlimit hceiling
      rw [RequestCost.ofInts_of_not_exceeds hlimit]
      refine ⟨_, rfl, ?_⟩
      rw [Bool.not_eq_true', RequestCost.exceeds_eq_false_iff]
      constructor
      · intro hleft
        refine ⟨fun component => ?_, fun bound hbound component => ?_, fun component => ?_⟩
        · simpa using RequestCost.exceeds_eq_false_iff.mp hlimit component
        · simpa using any_exceeds_eq_false_iff.mp hceiling bound hbound component
        · simpa using hleft component
      · intro h component
        simpa using h.left component

theorem consume_of_funds (h : budget.Funds priority cost futureReserve) :
    budget.consume priority cost = .ok (budget.record priority cost) := by
  have hlimit : (budget.used + cost).exceeds budget.limit = false :=
    RequestCost.exceeds_eq_false_iff.mpr fun component => by
      have hle := h.limit component
      rw [RequestCost.get_add]
      omega
  have hceiling : (budget.ceilings priority).any (budget.usedBy priority + cost).exceeds = false :=
    any_exceeds_eq_false_iff.mpr fun bound hbound component => by
      simpa using h.ceiling bound hbound component
  simp [consume, hlimit, hceiling, record]

/-- What a claim charges, under the answer to it. -/
def charged (args : BudgetClaim) : BudgetDecision → Option RequestCost
  | .allow => some args.cost
  | .downgrade => args.alternative
  | .defer => none
  | .deny => none

/-- The budget after a charge, if there is one. -/
def recordIf (budget : RequestBudget) (priority : RequestPriority) : Option RequestCost → RequestBudget
  | none => budget
  | some cost => budget.record priority cost

theorem decision_cases (budget : RequestBudget) (args : BudgetClaim) :
    (budget.Funds args.priority args.cost args.futureReserve ∧
      budget.decision args = .ok .allow) ∨
    (¬budget.Funds args.priority args.cost args.futureReserve ∧ ∃ alternative,
      args.alternative = some alternative ∧
        budget.Funds args.priority alternative args.futureReserve ∧
          budget.decision args = .ok .downgrade) ∨
    (¬budget.Funds args.priority args.cost args.futureReserve ∧
      budget.decision args = .ok (if args.required then .deny else .defer)) := by
  obtain ⟨answer, hallows, hiff⟩ := allows_eq budget args.priority args.cost args.futureReserve
  cases answer with
  | true =>
    refine Or.inl ⟨hiff.mp rfl, ?_⟩
    rw [decision, hallows]
    rfl
  | false =>
    have hnot : ¬budget.Funds args.priority args.cost args.futureReserve :=
      fun h => Bool.false_ne_true (hiff.mpr h)
    right
    cases halternative : args.alternative with
    | none =>
      refine Or.inr ⟨hnot, ?_⟩
      rw [decision, hallows, halternative]
      rfl
    | some alternative =>
      obtain ⟨answer, hallows', hiff'⟩ :=
        allows_eq budget args.priority alternative args.futureReserve
      have heq : budget.decision args = .ok
          (if answer then .downgrade else if args.required then .deny else .defer) := by
        rw [decision, hallows, halternative]
        change (do
          let allowed ← budget.allows args.priority alternative args.futureReserve
          if allowed then return BudgetDecision.downgrade
          return _) = _
        rw [hallows']
        cases answer <;> rfl
      cases answer with
      | true => exact Or.inl ⟨hnot, alternative, rfl, hiff'.mp rfl, heq⟩
      | false => exact Or.inr ⟨hnot, heq⟩

/-- **What a claim does.**  It does not raise, charges only what is funded, and is allowed iff its
cost is funded. -/
theorem claim_eq (budget : RequestBudget) (args : BudgetClaim) : ∃ answer,
    (⟨some budget⟩ : RequestGate).claim args =
        .ok (answer, ⟨some (budget.recordIf args.priority (charged args answer))⟩) ∧
      (∀ cost, charged args answer = some cost →
        budget.Funds args.priority cost args.futureReserve) ∧
      (answer = .allow ↔ budget.Funds args.priority args.cost args.futureReserve) := by
  rcases decision_cases budget args with ⟨hfunds, heq⟩ | ⟨hnot, alternative, halternative, hfunds, heq⟩ |
    ⟨hnot, heq⟩
  · refine ⟨.allow, ?_, ?_, iff_of_true rfl hfunds⟩
    · simp only [RequestGate.claim, heq]
      change (do let recorded ← budget.consume args.priority args.cost; _) = _
      rw [consume_of_funds hfunds]
      rfl
    · intro cost h
      exact Option.some.inj h ▸ hfunds
  · refine ⟨.downgrade, ?_, ?_, iff_of_false (by decide) hnot⟩
    · simp only [RequestGate.claim, heq, charged, halternative]
      change (do let recorded ← budget.consume args.priority alternative; _) = _
      rw [consume_of_funds hfunds]
      rfl
    · intro cost h
      exact Option.some.inj (halternative.symm.trans h) ▸ hfunds
  · refine ⟨if args.required then .deny else .defer, ?_, ?_, ?_⟩
    · simp only [RequestGate.claim, heq]
      split <;> rfl
    · intro cost h
      split at h <;> cases h
    · refine iff_of_false ?_ hnot
      split <;> decide

/-! ## Accounts and reserves -/

/-- The accounts of a budget that was made with a limit, reserves and ceilings. -/
structure Within (limit : RequestCost) (reserves ceilings : RequestPriority → Option RequestCost)
    (budget : RequestBudget) : Prop where
  limit_eq : budget.limit = limit
  reserves_eq : budget.reserves = reserves
  ceilings_eq : budget.ceilings = ceilings
  limit : budget.used.exceeds limit = false
  ceiling : ∀ priority ceiling, ceilings priority = some ceiling →
    (budget.usedBy priority).exceeds ceiling = false
  sum : budget.used = ∑ priority, budget.usedBy priority

/-- What the priorities up to one have not spent of their reserves fits in what is unused. -/
def Fits (budget : RequestBudget) (p : RequestPriority) : Prop :=
  (∑ q with q ≤ p, budget.unspent q).exceeds (budget.limit.less budget.used) = false

instance (budget : RequestBudget) (p : RequestPriority) : Decidable (budget.Fits p) :=
  inferInstanceAs (Decidable (_ = _))

/-- A component of the reserves. -/
def reserveOf (budget : RequestBudget) (component : CostComponent) (q : RequestPriority) : ℕ :=
  ((budget.reserves q).getD 0).get component

/-- A component of what the priorities have used. -/
def spentOf (budget : RequestBudget) (component : CostComponent) (q : RequestPriority) : ℕ :=
  (budget.usedBy q).get component

theorem unspent_get (q : RequestPriority) : (budget.unspent q).get component =
    Reserves.unspent (budget.reserveOf component) (budget.spentOf component) q := by
  rw [Reserves.unspent, reserveOf, spentOf, unspent]
  cases budget.reserves q with
  | none => simp
  | some reserve => simp

theorem protectedCost_get : (budget.protectedCost priority).get component =
    Reserves.below (budget.reserveOf component) (budget.spentOf component) priority := by
  rw [protectedCost, RequestCost.get_sum, Reserves.below]
  exact Finset.sum_congr rfl fun q _ => unspent_get q

theorem fits_iff : budget.Fits p ↔ ∀ component,
    Reserves.upTo (budget.reserveOf component) (budget.spentOf component) p ≤
      budget.limit.get component - budget.used.get component := by
  rw [Fits, RequestCost.exceeds_eq_false_iff]
  refine forall_congr' fun component => ?_
  have hsum : (∑ q with q ≤ p, budget.unspent q).get component =
      Reserves.upTo (budget.reserveOf component) (budget.spentOf component) p := by
    rw [RequestCost.get_sum, Reserves.upTo]
    exact Finset.sum_congr rfl fun q _ => unspent_get q
  rw [hsum, RequestCost.get_less]

theorem usedBy_record (q : RequestPriority) : (budget.record priority cost).usedBy q =
    if q = priority then budget.usedBy priority + cost else budget.usedBy q := by
  by_cases h : q = priority
  · subst h
    simp [record, usedBy]
  · simp [record, usedBy, h]

theorem spentOf_record : (budget.record priority cost).spentOf component =
    Reserves.spend (budget.spentOf component) priority (cost.get component) := by
  funext q
  rw [spentOf, usedBy_record, Reserves.spend]
  by_cases h : q = priority
  · subst h
    simp [spentOf]
  · simp [spentOf, h]

section Step

variable {limit : RequestCost} {reserves ceilings : RequestPriority → Option RequestCost}

theorem within_new : Within limit reserves ceilings (new limit reserves ceilings) where
  limit_eq := rfl
  reserves_eq := rfl
  ceilings_eq := rfl
  limit := RequestCost.exceeds_eq_false_iff.mpr fun component => by simp [new]
  ceiling _ _ _ := RequestCost.exceeds_eq_false_iff.mpr fun component => by simp [usedBy, new]
  sum := by simp [usedBy, new]

theorem Within.record (h : Within limit reserves ceilings budget)
    (hfunds : budget.Funds priority cost futureReserve) :
    Within limit reserves ceilings (budget.record priority cost) where
  limit_eq := h.limit_eq
  reserves_eq := h.reserves_eq
  ceilings_eq := h.ceilings_eq
  limit := RequestCost.exceeds_eq_false_iff.mpr fun component => by
    have hlimit := hfunds.limit component
    rw [h.limit_eq] at hlimit
    rw [RequestBudget.record, RequestCost.get_add]
    omega
  ceiling q bound hbound := by
    rw [usedBy_record]
    split
    · rename_i hq
      subst hq
      refine RequestCost.exceeds_eq_false_iff.mpr fun component => ?_
      rw [RequestCost.get_add]
      exact hfunds.ceiling bound (h.ceilings_eq ▸ hbound) component
    · exact h.ceiling q bound hbound
  sum := by
    refine RequestCost.ext_get fun component => ?_
    have hsum : budget.used.get component = ∑ q, budget.spentOf component q := by
      rw [h.sum, RequestCost.get_sum]
      rfl
    have hrecord : ∑ q, (budget.record priority cost).spentOf component q =
        ∑ q, budget.spentOf component q + cost.get component := by
      rw [spentOf_record, Reserves.sum_spend]
    rw [RequestCost.get_sum]
    change (budget.used + cost).get component =
      ∑ q, (budget.record priority cost).spentOf component q
    rw [RequestCost.get_add, hrecord, hsum]

/-- **Funded usage leaves the reserves up to its priority free.** -/
theorem Fits.record (h : budget.Fits p) (hle : p ≤ priority)
    (hfunds : budget.Funds priority cost futureReserve) : (budget.record priority cost).Fits p := by
  refine fits_iff.mpr fun component => ?_
  have hlimit := hfunds.limit component
  have hbelow := hfunds.left component
  rw [protectedCost_get] at hbelow
  have hleft : Reserves.below (budget.reserveOf component) (budget.spentOf component) priority +
      cost.get component ≤ budget.limit.get component - budget.used.get component := by
    omega
  have hkept := Reserves.upTo_spend_le hle hleft (fits_iff.mp h component)
  rw [spentOf_record]
  change Reserves.upTo (budget.reserveOf component) _ p ≤
    budget.limit.get component - (budget.used + cost).get component
  rw [RequestCost.get_add]
  omega

/-- A cost and a future reserve within the reserve of their priority are funded. -/
theorem Fits.funds (h : budget.Fits p) (hwithin : Within limit reserves ceilings budget)
    (hceiling : ceilings p = none)
    (hcost : (cost + futureReserve.getD 0).exceeds (budget.unspent p) = false) :
    budget.Funds p cost futureReserve := by
  have hroom : ∀ component, budget.used.get component + cost.get component +
      (futureReserve.getD 0).get component + Reserves.below (budget.reserveOf component)
        (budget.spentOf component) p ≤ budget.limit.get component := by
    intro component
    have hfree := fits_iff.mp h component
    have hused := RequestCost.exceeds_eq_false_iff.mp hwithin.limit component
    have hreserve := RequestCost.exceeds_eq_false_iff.mp hcost component
    rw [Reserves.upTo_eq_below_add] at hfree
    rw [unspent_get, RequestCost.get_add] at hreserve
    rw [hwithin.limit_eq] at hfree ⊢
    omega
  refine ⟨fun component => ?_, fun bound hbound => ?_, fun component => ?_⟩
  · have hle := hroom component
    omega
  · rw [hwithin.ceilings_eq, hceiling] at hbound
    cases hbound
  · have hle := hroom component
    rw [protectedCost_get]
    omega

end Step

/-! ## Runs of claims -/

/-- A property that funded usage keeps is kept by a run of claims, none of which raises. -/
theorem claims_run {Q : RequestBudget → Prop} {calls : List BudgetClaim}
    (hstep : ∀ budget cost, ∀ args ∈ calls, Q budget →
      budget.Funds args.priority cost args.futureReserve → Q (budget.record args.priority cost))
    (hQ : Q budget) : ∃ answers after,
      (⟨some budget⟩ : RequestGate).claims calls = .ok (answers, ⟨some after⟩) ∧ Q after := by
  induction calls generalizing budget with
  | nil => exact ⟨[], budget, rfl, hQ⟩
  | cons args calls ih =>
    obtain ⟨answer, hclaim, hfunds, -⟩ := claim_eq budget args
    have hnext : Q (budget.recordIf args.priority (charged args answer)) := by
      cases hcharged : charged args answer with
      | none => exact hQ
      | some cost => exact hstep budget cost args List.mem_cons_self hQ (hfunds cost hcharged)
    obtain ⟨answers, after, hrest, hafter⟩ :=
      ih (fun budget cost args hmem => hstep budget cost args (List.mem_cons_of_mem _ hmem)) hnext
    refine ⟨answer :: answers, after, ?_, hafter⟩
    rw [RequestGate.claims, hclaim]
    change (do let rest ← RequestGate.claims _ calls; _) = _
    rw [hrest]
    rfl

/-- **Reserves are protected.**  Whatever is claimed of a budget, no call raises and the accounts
stay within the limit and the ceilings.  If the reserves up to a priority fit at some point, then
they fit after any claims at or below that priority.  After those a claim of the priority is
allowed, if it has no ceiling and the cost and the future reserve of the claim are within what is
unspent of its reserve. -/
theorem reserves_protected (limit : RequestCost)
    (reserves ceilings : RequestPriority → Option RequestCost) (calls : List BudgetClaim) :
    ∃ answers budget, (⟨some (new limit reserves ceilings)⟩ : RequestGate).claims calls =
        .ok (answers, ⟨some budget⟩) ∧
      Within limit reserves ceilings budget ∧
      ∀ p, budget.Fits p → ∀ later : List BudgetClaim, (∀ args ∈ later, p ≤ args.priority) →
        ∃ answers after, (⟨some budget⟩ : RequestGate).claims later = .ok (answers, ⟨some after⟩) ∧
          Within limit reserves ceilings after ∧ after.Fits p ∧
          (ceilings p = none → ∀ args : BudgetClaim, args.priority = p →
            (args.cost + args.futureReserve.getD 0).exceeds (after.unspent p) = false →
            ∃ gate, (⟨some after⟩ : RequestGate).claim args = .ok (.allow, gate)) := by
  obtain ⟨answers, budget, hrun, hwithin⟩ := claims_run (Q := Within limit reserves ceilings)
    (fun _ _ args (_ : args ∈ calls) h hfunds => h.record hfunds) within_new
  refine ⟨answers, budget, hrun, hwithin, fun p hfits later hlater => ?_⟩
  obtain ⟨answers', after, hrun', hwithin', hfits'⟩ := claims_run
    (Q := fun budget => Within limit reserves ceilings budget ∧ budget.Fits p)
    (fun _ _ args hmem h hfunds => ⟨h.1.record hfunds, h.2.record (hlater args hmem) hfunds⟩)
    ⟨hwithin, hfits⟩
  refine ⟨answers', after, hrun', hwithin', hfits', ?_⟩
  rintro hceiling args rfl hcost
  obtain ⟨answer, hclaim, -, hallow⟩ := claim_eq after args
  rw [hallow.mpr (hfits'.funds hwithin' hceiling hcost)] at hclaim
  exact ⟨_, hclaim⟩

/-- The reserve of a priority does not vouch for a future reserve beside the cost. -/
theorem future_reserve_denied :
    ∃ (limit : RequestCost) (reserves : RequestPriority → Option RequestCost) (args : BudgetClaim),
      (new limit reserves fun _ => none).Fits args.priority ∧
      args.cost.exceeds ((new limit reserves fun _ => none).unspent args.priority) = false ∧
      ((⟨some (new limit reserves fun _ => none)⟩ : RequestGate).claim args).map (·.1) = .ok .deny :=
  ⟨{ httpRequests := 1 }, fun q => if q = .discovery then some { httpRequests := 1 } else none,
    { priority := .discovery, cost := { httpRequests := 1 }, required := true,
      futureReserve := some { httpRequests := 1 } },
    by decide, by decide, by decide⟩

end RequestBudget

end CommerceCollector
