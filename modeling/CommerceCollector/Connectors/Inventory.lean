import CommerceCollector.Transports.Middleware
import Mathlib.Algebra.Order.Group.Multiset
import Mathlib.Data.PNat.Basic
import Mathlib.Logic.Relation
import Mathlib.Tactic.Abel

/-!
# The inventory of Shopify products

`_enrich_inventory` of `connectors/shopify.py`: the inventory of the products is requested batch by
batch, and a batch wave by wave.  The requests of a wave are under way together, and a wave has as
many as leave the budget enough for the next request of the discovery.

Whatever becomes of the requests, the next request of the discovery stays affordable, and every
product is counted once (`inventory_safe`).
-/

namespace CommerceCollector.Shopify

/-- What `_inventory_detail` makes of a request. -/
inductive InventoryResult
  | detail | failed | deferred
  deriving DecidableEq, Repr

/-- A request of a wave, with its estimated bytes or with its authorization. -/
inductive WaveRequest
  | waiting (estimatedBytes : ℕ)
  | sent (authorizationId : ℕ)
  | settled (result : InventoryResult)

/-- A wave under way. -/
abbrev Wave := MemoryRequestBudget × List WaveRequest

/-- What may happen to a request while the wave is gathered. -/
inductive WaveStep : Wave → Wave → Prop
  /-- It ends without an attempt, for one because the budget refuses it. -/
  | skip {b pre estimate post} (result : InventoryResult) :
    WaveStep (b, pre ++ .waiting estimate :: post) (b, pre ++ .settled result :: post)
  | authorize {b b' pre estimate post id} (h : b.authorize estimate = some (b', id)) :
    WaveStep (b, pre ++ .waiting estimate :: post) (b', pre ++ .sent id :: post)
  /-- The attempt has taken at most the estimated bytes. -/
  | reconcile {b b' pre id post bytes} (result : InventoryResult)
    (hbytes : ∀ estimate ∈ b.authorizations.lookup id, bytes ≤ estimate)
    (h : b.reconcile id bytes = some b') :
    WaveStep (b, pre ++ .sent id :: post) (b', pre ++ .settled result :: post)
  | release {b b' pre id post} (result : InventoryResult) (h : b.release id = some b') :
    WaveStep (b, pre ++ .sent id :: post) (b', pre ++ .settled result :: post)

/-- How the waves go: what `asyncio.gather` makes of the requests of each of them. -/
structure Outcomes where
  gather : ℕ → MemoryRequestBudget → List ℕ → MemoryRequestBudget × List InventoryResult
  gathers : ∀ wave b estimates, Relation.ReflTransGen WaveStep (b, estimates.map .waiting)
    ((gather wave b estimates).1, (gather wave b estimates).2.map .settled)

/-- The options, and `_inventory_request`: the estimated bytes of the request for a product, if its
handle makes one. -/
structure InventoryOptions (α : Type*) where
  inventoryBatchSize : ℕ+
  discoveryRequestEstimatedBytes : ℕ
  inventoryRequest : α → Option ℕ

/-- The products behind the counters `failures` and `deferred`, those whose request was answered,
and the number of waves so far. -/
structure Enrichment (α : Type*) where
  budget : MemoryRequestBudget
  waves : ℕ := 0
  failures : Multiset α := 0
  deferred : Multiset α := 0
  answered : Multiset α := 0

variable {α : Type*} (o : InventoryOptions α) (t : Outcomes)

/-- How many of the requests are affordable one after the other, on top of some bytes. -/
def admitted (b : MemoryRequestBudget) : ℕ → List ℕ → ℕ
  | _, [] => 0
  | estimatedBytes, estimate :: rest =>
    if b.affordable (estimatedBytes + estimate) then
      admitted b (estimatedBytes + estimate) rest + 1
    else 0

/-- The `capacity` of a budget for optional requests. -/
def capacity (b : MemoryRequestBudget) (requests : ℕ) : ℕ :=
  match b.maximumRequests with
  | none => requests
  | some maximum => (maximum - b.requests - 1).toNat

/-- `_inventory_admission_count`. -/
def inventoryAdmissionCount (b : MemoryRequestBudget) (pending : List (α × ℕ)) : ℕ :=
  admitted b o.discoveryRequestEstimatedBytes
    ((pending.map Prod.snd).take (capacity b pending.length))

/-- A result of a wave is counted. -/
def Enrichment.count (e : Enrichment α) : α × InventoryResult → Enrichment α
  | (product, .deferred) => { e with deferred := product ::ₘ e.deferred }
  | (product, .failed) => { e with failures := product ::ₘ e.failures }
  | (product, .detail) => { e with answered := product ::ₘ e.answered }

/-- A wave: the results of its requests are counted.  The flag is `exhausted`. -/
def runWave (e : Enrichment α) (wave : List (α × ℕ)) : Enrichment α × Bool :=
  let gathered := t.gather e.waves e.budget (wave.map Prod.snd)
  (((wave.map Prod.fst).zip gathered.2).foldl Enrichment.count
    { e with budget := gathered.1, waves := e.waves + 1 }, decide (.deferred ∈ gathered.2))

/-- `while pending`, with the products behind the batch. -/
def runWaves (later : List α) (e : Enrichment α) (pending : List (α × ℕ)) : Enrichment α :=
  if _hpending : pending = [] then e
  else
    match inventoryAdmissionCount o e.budget pending with
    | 0 => { e with deferred := e.deferred + (pending.map Prod.fst : List α) + later }
    | count + 1 =>
      match runWave t e (pending.take (count + 1)) with
      | (e, true) =>
        { e with deferred := e.deferred + ((pending.drop (count + 1)).map Prod.fst : List α) + later }
      | (e, false) => runWaves later e (pending.drop (count + 1))
termination_by pending.length
decreasing_by
  rw [List.length_drop]
  exact Nat.sub_lt (List.length_pos_of_ne_nil _hpending) count.succ_pos

/-- The body of `for offset`: a product without a handle is a failure. -/
def runBatch (batch later : List α) (e : Enrichment α) : Enrichment α :=
  let unrequested := batch.filter fun p => (o.inventoryRequest p).isNone
  let pending := batch.filterMap fun p => (o.inventoryRequest p).map fun estimate => (p, estimate)
  runWaves o t later { e with failures := e.failures + unrequested } pending

/-- `_enrich_inventory`. -/
def enrichInventory (e : Enrichment α) (products : List α) : Enrichment α :=
  if _hproducts : products = [] then e
  else
    let later := products.drop o.inventoryBatchSize
    let e := runBatch o t (products.take o.inventoryBatchSize) later e
    if 0 < e.deferred.card then e else enrichInventory e later
termination_by products.length
decreasing_by
  rw [List.length_drop]
  exact Nat.sub_lt (List.length_pos_of_ne_nil _hproducts) o.inventoryBatchSize.pos

/-! ## What a wave takes -/

/-- The budget affords these requests together, and a request of the discovery behind them. -/
def Affords (b : MemoryRequestBudget) (discovery : ℕ) (requests : List ℕ) : Prop :=
  (∀ maximum ∈ b.maximumRequests, b.requests + requests.length < maximum) ∧
    ∀ maximum ∈ b.maximumBytes,
      b.bytes + b.reservedBytes + (discovery + requests.sum : ℕ) ≤ maximum

variable {o t} {b : MemoryRequestBudget} {discovery : ℕ}

theorem admitted_le (estimatedBytes : ℕ) (requests : List ℕ) :
    admitted b estimatedBytes requests ≤ requests.length := by
  induction requests generalizing estimatedBytes with
  | nil => exact le_rfl
  | cons estimate rest ih =>
    rw [admitted]
    split
    · exact Nat.succ_le_succ (ih _)
    · exact Nat.zero_le _

theorem admitted_bytes {estimatedBytes : ℕ} (requests : List ℕ)
    (h : ∀ maximum ∈ b.maximumBytes, b.bytes + b.reservedBytes + estimatedBytes ≤ maximum) :
    ∀ maximum ∈ b.maximumBytes, b.bytes + b.reservedBytes +
      (estimatedBytes + (requests.take (admitted b estimatedBytes requests)).sum : ℕ) ≤ maximum := by
  induction requests generalizing estimatedBytes with
  | nil => simpa [admitted] using h
  | cons estimate rest ih =>
    rw [admitted]
    split
    · next hafford =>
      rw [List.take_succ_cons, List.sum_cons, ← add_assoc]
      exact ih hafford.2
    · simpa using h

/-- The admitted requests leave enough for the discovery. -/
theorem affords_admitted (h : b.affordable o.discoveryRequestEstimatedBytes)
    (pending : List (α × ℕ)) : Affords b o.discoveryRequestEstimatedBytes
      ((pending.take (inventoryAdmissionCount o b pending)).map Prod.snd) := by
  have hle := admitted_le (b := b) o.discoveryRequestEstimatedBytes
    ((pending.map Prod.snd).take (capacity b pending.length))
  rw [← inventoryAdmissionCount, List.length_take] at hle
  constructor
  · intro maximum hmaximum
    have hcapacity : capacity b pending.length = (maximum - b.requests - 1).toNat := by
      rw [capacity, Option.mem_def.mp hmaximum]
    have hfree := h.1 maximum hmaximum
    rw [List.length_map, List.length_take]
    omega
  · have hbytes := admitted_bytes ((pending.map Prod.snd).take (capacity b pending.length)) h.2
    rwa [← inventoryAdmissionCount, List.take_take, Nat.min_eq_left (hle.trans (min_le_left _ _)),
      ← List.map_take] at hbytes

/-- The estimated bytes of the requests that wait. -/
def waiting (requests : List WaveRequest) : List ℕ :=
  requests.filterMap fun
    | .waiting estimatedBytes => some estimatedBytes
    | _ => none

theorem Affords.mono {b' : MemoryRequestBudget} {requests requests' : List ℕ}
    (h : Affords b discovery requests) (hrequests : b'.maximumRequests = b.maximumRequests)
    (hbytes : b'.maximumBytes = b.maximumBytes)
    (hlength : b'.requests + requests'.length ≤ b.requests + requests.length)
    (hsum : b'.bytes + b'.reservedBytes + requests'.sum ≤ b.bytes + b.reservedBytes + requests.sum) :
    Affords b' discovery requests' := by
  refine ⟨fun maximum hmaximum => ?_, fun maximum hmaximum => ?_⟩
  · have hle := h.1 maximum (hrequests ▸ hmaximum)
    omega
  · have hle := h.2 maximum (hbytes ▸ hmaximum)
    omega

/-- **What happens to one request leaves the others and the discovery affordable.** -/
theorem WaveStep.affords {v w : Wave} (h : WaveStep v w)
    (hv : Affords v.1 discovery (waiting v.2)) : Affords w.1 discovery (waiting w.2) := by
  cases h with
  | skip result => exact hv.mono rfl rfl (by simp [waiting]) (by simp [waiting])
  | authorize h =>
    unfold MemoryRequestBudget.authorize at h
    split at h
    · obtain ⟨rfl, -⟩ := Prod.mk.inj (Option.some.inj h)
      refine hv.mono rfl rfl ?_ ?_
      · simp [waiting]
        omega
      · simp [waiting]
        omega
    · cases h
  | reconcile result hle h =>
    obtain ⟨estimate, hestimate, rfl⟩ := Option.map_eq_some_iff.mp h
    have hbytes := hle estimate hestimate
    refine hv.mono rfl rfl (by simp [waiting]) ?_
    simp [waiting]
    omega
  | release result h =>
    obtain ⟨estimate, -, rfl⟩ := Option.map_eq_some_iff.mp h
    exact hv.mono rfl rfl (by simp [waiting]) (by simp [waiting])

/-- A gathered wave leaves the discovery affordable, and has a result for every request. -/
theorem Outcomes.gather_affordable {estimates : List ℕ} (wave : ℕ)
    (h : Affords b discovery estimates) :
    (t.gather wave b estimates).1.affordable discovery ∧
      (t.gather wave b estimates).2.length = estimates.length := by
  have hrun : ∀ w, Relation.ReflTransGen WaveStep (b, estimates.map .waiting) w →
      Affords w.1 discovery (waiting w.2) ∧ w.2.length = estimates.length := by
    intro w hw
    induction hw with
    | refl =>
      have hwaiting : waiting (estimates.map .waiting) = estimates := by
        simp [waiting, List.filterMap_map]
      exact ⟨hwaiting.symm ▸ h, List.length_map _⟩
    | tail _ hstep ih =>
      refine ⟨hstep.affords ih.1, ?_⟩
      cases hstep <;> simpa using ih.2
  obtain ⟨hafford, hlength⟩ := hrun _ (t.gathers wave b estimates)
  have hwaiting : waiting ((t.gather wave b estimates).2.map .settled) = [] := by
    simp [waiting, List.filterMap_map]
  rw [hwaiting] at hafford
  refine ⟨⟨fun maximum hmaximum => ?_, fun maximum hmaximum => ?_⟩, by simpa using hlength⟩
  · simpa using hafford.1 maximum hmaximum
  · simpa using hafford.2 maximum hmaximum

/-! ## What is counted -/

variable {e : Enrichment α}

/-- All products that are counted. -/
def Enrichment.counted (e : Enrichment α) : Multiset α := e.failures + e.deferred + e.answered

/-- Each product of a wave is counted once. -/
theorem count_spec (results : List (α × InventoryResult)) :
    let e' := results.foldl Enrichment.count e
    e'.budget = e.budget ∧ e'.waves = e.waves ∧
      e'.counted = e.counted + (results.map Prod.fst : List α) ∧
      e'.deferred.card = e.deferred.card + (results.map Prod.snd).count .deferred := by
  induction results generalizing e with
  | nil => simp
  | cons r results ih =>
    obtain ⟨product, result⟩ := r
    obtain ⟨hbudget, hwaves, hcounted, hdeferred⟩ := ih (e := e.count (product, result))
    have hone : (e.count (product, result)).counted = e.counted + {product} := by
      cases result <;>
        simp only [Enrichment.count, Enrichment.counted, ← Multiset.singleton_add] <;>
        abel
    refine ⟨?_, ?_, ?_, ?_⟩
    · exact hbudget.trans (by cases result <;> rfl)
    · exact hwaves.trans (by cases result <;> rfl)
    · rw [List.foldl_cons, hcounted, hone, List.map_cons, ← Multiset.cons_coe,
        ← Multiset.singleton_add, add_assoc]
    · rw [List.foldl_cons, hdeferred]
      cases result <;> simp [Enrichment.count, add_assoc, add_comm]

/-- A wave is counted, and it is exhausted if a request of it was deferred. -/
theorem runWave_spec {e' : Enrichment α} {exhausted : Bool} {wave : List (α × ℕ)}
    (h : Affords e.budget discovery (wave.map Prod.snd))
    (hwave : runWave t e wave = (e', exhausted)) :
    e'.budget.affordable discovery ∧ e'.waves = e.waves + 1 ∧
      e'.counted = e.counted + (wave.map Prod.fst : List α) ∧
      if exhausted then e.deferred.card < e'.deferred.card else e'.deferred.card = e.deferred.card := by
  obtain ⟨rfl, rfl⟩ := Prod.mk.inj hwave
  set gathered := t.gather e.waves e.budget (wave.map Prod.snd) with hgathered
  obtain ⟨hafford, hlength⟩ := Outcomes.gather_affordable (t := t) e.waves h
  rw [← hgathered, List.length_map] at hlength
  obtain ⟨hbudget, hwaves, hcounted, hdeferred⟩ :=
    count_spec (e := { e with budget := gathered.1, waves := e.waves + 1 })
      ((wave.map Prod.fst).zip gathered.2)
  rw [List.map_fst_zip (by simpa using hlength.ge)] at hcounted
  rw [List.map_snd_zip (by simpa using hlength.le)] at hdeferred
  refine ⟨hbudget ▸ hafford, hwaves, hcounted, ?_⟩
  have hcount := List.count_pos_iff (a := InventoryResult.deferred) (l := gathered.2)
  simp only [decide_eq_true_eq, hdeferred]
  split <;> grind

/-- What the waves of a batch come to: they deferred none, or all that is left. -/
structure Waves (o : InventoryOptions α) (later pending : List α) (e e' : Enrichment α) : Prop where
  affordable : e'.budget.affordable o.discoveryRequestEstimatedBytes
  waves : e'.waves ≤ e.waves + pending.length
  counted : e'.deferred.card = e.deferred.card ∧ e'.counted = e.counted + (pending : Multiset α) ∨
    0 < e'.deferred.card ∧ e'.counted = e.counted + (pending : Multiset α) + later

theorem take_add_drop (count : ℕ) (pending : List (α × ℕ)) : (pending.map Prod.fst : Multiset α) =
    ((pending.take count).map Prod.fst : List α) + ((pending.drop count).map Prod.fst : List α) := by
  rw [Multiset.coe_add, ← List.map_append, List.take_append_drop]

theorem runWaves_spec (later : List α) (pending : List (α × ℕ))
    (h : e.budget.affordable o.discoveryRequestEstimatedBytes) :
    Waves o later (pending.map Prod.fst) e (runWaves o t later e pending) := by
  fun_induction runWaves o t later e pending with
  | case1 e => exact ⟨h, Nat.le_add_right _ _, Or.inl ⟨rfl, by simp⟩⟩
  | case2 e pending hpending hcount =>
    have hlength := List.length_pos_of_ne_nil hpending
    refine ⟨h, Nat.le_add_right _ _, Or.inr ⟨?_, ?_⟩⟩
    · simp
      omega
    · simp only [Enrichment.counted]
      abel
  | case3 e pending hpending count hcount e₁ hwave =>
    have haffords := affords_admitted h pending
    rw [hcount] at haffords
    obtain ⟨hafford, hwaves, hcounted, hdeferred⟩ := runWave_spec haffords hwave
    have hlength := List.length_pos_of_ne_nil hpending
    refine ⟨hafford, ?_, Or.inr ⟨?_, ?_⟩⟩
    · rw [List.length_map]
      exact hwaves.trans_le (Nat.add_le_add_left hlength _)
    · rw [if_pos rfl] at hdeferred
      simp only [Multiset.card_add]
      omega
    · calc _ = e₁.counted + ((pending.drop (count + 1)).map Prod.fst : List α) + later := by
              simp only [Enrichment.counted]
              abel
        _ = _ := by rw [hcounted, add_assoc e.counted, ← take_add_drop]
  | case4 e pending hpending count hcount e₁ hwave ih =>
    have haffords := affords_admitted h pending
    rw [hcount] at haffords
    obtain ⟨hafford, hwaves, hcounted, hdeferred⟩ := runWave_spec haffords hwave
    rw [if_neg Bool.false_ne_true] at hdeferred
    have hlength := List.length_pos_of_ne_nil hpending
    obtain ⟨haffordable, hwaves', hcounted'⟩ := ih hafford
    refine ⟨haffordable, ?_, ?_⟩
    · rw [List.length_map, List.length_drop] at hwaves'
      rw [List.length_map]
      omega
    · rwa [hdeferred, hcounted, add_assoc e.counted, ← take_add_drop] at hcounted'

theorem request_split (request : α → Option ℕ) (batch : List α) :
    (batch.filter fun p => (request p).isNone : List α) + ((batch.filterMap fun p =>
      (request p).map fun estimate => (p, estimate)).map Prod.fst : List α) = (batch : Multiset α) := by
  induction batch with
  | nil => rfl
  | cons p batch ih =>
    cases hp : request p <;> simp [hp, ← Multiset.cons_coe, ← ih]

theorem counted_failures (unrequested : Multiset α) :
    Enrichment.counted { e with failures := e.failures + unrequested } =
      e.counted + unrequested := by
  simp only [Enrichment.counted]
  abel

theorem runBatch_spec (later batch : List α) (h : e.budget.affordable o.discoveryRequestEstimatedBytes) :
    Waves o later batch e (runBatch o t batch later e) := by
  obtain ⟨hafford, hwaves, hcounted⟩ := runWaves_spec (t := t)
    (e := { e with
      failures := e.failures + ↑(batch.filter fun p => (o.inventoryRequest p).isNone) })
    later (batch.filterMap fun p => (o.inventoryRequest p).map fun estimate => (p, estimate)) h
  refine ⟨hafford, hwaves.trans (Nat.add_le_add_left ?_ _), ?_⟩
  · rw [List.length_map]
    exact List.length_filterMap_le _ _
  · rwa [counted_failures, add_assoc e.counted, request_split] at hcounted

theorem enrichInventory_spec (products : List α)
    (h : e.budget.affordable o.discoveryRequestEstimatedBytes) (hnone : e.deferred.card = 0) :
    (enrichInventory o t e products).budget.affordable o.discoveryRequestEstimatedBytes ∧
      (enrichInventory o t e products).waves ≤ e.waves + products.length ∧
      (enrichInventory o t e products).counted = e.counted + (products : Multiset α) := by
  fun_induction enrichInventory o t e products with
  | case1 e => simpa using h
  | case2 e products hproducts later e₁ hdeferred =>
    obtain ⟨hafford, hwaves, hcounted⟩ :=
      runBatch_spec (t := t) later (products.take o.inventoryBatchSize) h
    have hsplit : (products.take o.inventoryBatchSize : Multiset α) + later = products := by
      rw [Multiset.coe_add, List.take_append_drop]
    refine ⟨hafford, hwaves.trans (Nat.add_le_add_left (List.length_take_le' _ _) _), ?_⟩
    obtain ⟨hnone', -⟩ | ⟨-, hcounted⟩ := hcounted
    · exact absurd (hnone'.trans hnone) hdeferred.ne'
    · rwa [add_assoc, hsplit] at hcounted
  | case3 e products hproducts later e₁ hdeferred ih =>
    obtain ⟨hafford, hwaves, hcounted⟩ :=
      runBatch_spec (t := t) later (products.take o.inventoryBatchSize) h
    have hsplit : (products.take o.inventoryBatchSize : Multiset α) + later = products := by
      rw [Multiset.coe_add, List.take_append_drop]
    obtain ⟨hafford', hwaves', hcounted'⟩ := ih hafford (Nat.eq_zero_of_not_pos hdeferred)
    refine ⟨hafford', hwaves'.trans ?_, ?_⟩
    · have hlength : (products.take o.inventoryBatchSize).length + later.length = products.length := by
        rw [← List.length_append, List.take_append_drop]
      rw [← hlength, ← add_assoc]
      exact Nat.add_le_add_right hwaves _
    · obtain ⟨-, hcounted⟩ | ⟨hdeferred', -⟩ := hcounted
      · rw [hcounted', hcounted, add_assoc, hsplit]
      · exact absurd hdeferred' hdeferred

/-- **Optional inventory never starves the discovery.**  After `_enrich_inventory` the next request
of the discovery is still affordable, whatever became of the requests, every product was counted
once, and there were at most as many waves as products. -/
theorem inventory_safe (products : List α) (h : b.affordable o.discoveryRequestEstimatedBytes) :
    let e := enrichInventory o t { budget := b } products
    e.budget.affordable o.discoveryRequestEstimatedBytes ∧ e.waves ≤ products.length ∧
      e.failures + e.deferred + e.answered = products := by
  simpa [Enrichment.counted] using enrichInventory_spec (t := t) (e := { budget := b }) products h rfl

/-- Every request fails before its attempt, as when the address of the store is refused. -/
def failing : Outcomes where
  gather _ b estimates := (b, estimates.map fun _ => .failed)
  gathers _ b estimates := by
    have hrun : ∀ pre : List WaveRequest, Relation.ReflTransGen WaveStep
        (b, pre ++ estimates.map .waiting)
        (b, pre ++ (estimates.map fun _ => .failed).map .settled) := by
      induction estimates with
      | nil => exact fun pre => .refl
      | cons estimate estimates ih =>
        intro pre
        have hrest := ih (pre ++ [.settled .failed])
        rw [List.append_assoc, List.append_assoc] at hrest
        exact .head (.skip .failed) hrest
    exact hrun []

theorem inventory_safe_failing :
    let e := enrichInventory ⟨2, 100, fun handle : String => if handle = "" then none else some 40⟩
      failing { budget := { maximumRequests := some 9, maximumBytes := some 200 } } ["a", "", "b"]
    e.budget.affordable 100 ∧ e.waves ≤ 3 ∧
      e.failures + e.deferred + e.answered = ↑["a", "", "b"] :=
  inventory_safe ["a", "", "b"] (by decide)

end CommerceCollector.Shopify
