import CommerceCollector.Catalogue.Reload

/-!
# When a list of records may be loaded again

A record that was loaded is absorbed: its raw record is held, and the price history settles it.
Only a new observation can unsettle a record, namely one that extended the latest observation and is
not older than the new one.  A list of records may be loaded again, with all its beginnings, exactly
if no load of it adds such an observation (`reload_idempotent_iff`).
-/

namespace CommerceCollector

open Relational LatestWins

variable {pg : Postgres}

/-! ## The latest observation -/

namespace Catalogue

variable {db db' : Catalogue} {product : Uuid} {rawRecord : ℕ} {f : Time} {t : Terms Numeric}
  {sha : Digest} {p : Record}

/-- The primary key of the observations, and its sequence. -/
structure OffersKeyed (db : Catalogue) : Prop where
  keyed : Keyed OfferObservation.id db.offers
  bounded : ∀ o ∈ db.offers, o.id < db.nextOffer

/-- The order of the observations. -/
def rank (o : OfferObservation) : Lex (Time × ℕ) := toLex (o.observedAt, o.id)

theorem latestOffer_eq_some_iff (h : db.OffersKeyed) {m : OfferObservation} :
    db.latestOffer product = some m ↔
      m ∈ db.offersOf product ∧ ∀ o ∈ db.offersOf product, rank o ≤ rank m := by
  constructor
  · intro hm
    exact ⟨List.argmax_mem hm, fun o ho => List.le_of_mem_argmax ho hm⟩
  · rintro ⟨hm, hmax⟩
    cases hlatest : db.latestOffer product with
    | none =>
      have hnil : db.offersOf product = [] := List.argmax_eq_none.mp hlatest
      exact absurd (hnil ▸ hm) List.not_mem_nil
    | some n =>
      have hn : n ∈ db.offersOf product := List.argmax_mem hlatest
      have hle : rank m ≤ rank n := List.le_of_mem_argmax hm hlatest
      have heq : rank m = rank n := le_antisymm hle (hmax n hn)
      have hid : m.id = n.id := congrArg (fun r => (ofLex r).2) heq
      rw [h.keyed.eq_of_mem (mem_offersOf.mp hm).1 (mem_offersOf.mp hn).1 hid]

theorem latestOffer_eq_none_iff : db.latestOffer product = none ↔ db.offersOf product = [] :=
  List.argmax_eq_none

/-- **What a priced record does to the observations**: nothing, if it is known or late; it extends
the latest one; or it adds one. -/
theorem observe_cases (hok : db.observe product rawRecord f t sha p = .ok db') :
    (db'.offers = db.offers ∧ db'.nextOffer = db.nextOffer ∧
      ((∃ o ∈ db.offersOf product, o.observedAt = f ∧ o.contextSha256 = sha) ∨
        ∃ latest, db.latestOffer product = some latest ∧ f < latest.observedAt)) ∨
    (∃ latest, db.latestOffer product = some latest ∧ latest.observedAt ≤ f ∧
      latest.terms.unchanged t = true ∧ db'.nextOffer = db.nextOffer ∧
      db'.offers = update (fun o => o.id == latest.id) (·.extend f) db.offers) ∨
    ((∀ o ∈ db.offersOf product, ¬(o.observedAt = f ∧ o.contextSha256 = sha)) ∧
      (∀ latest, db.latestOffer product = some latest →
        latest.observedAt ≤ f ∧ latest.terms.unchanged t = false) ∧
      ∃ o : OfferObservation, o.id = db.nextOffer ∧ o.productId = product ∧ o.observedAt = f ∧
        o.lastSeenAt = f ∧ o.contextSha256 = sha ∧ t.fixed = some o.terms ∧
        db'.offers = db.offers ++ [o] ∧ db'.nextOffer = db.nextOffer + 1) := by
  unfold observe at hok
  split at hok
  · rename_i hany
    obtain rfl := Except.ok.inj hok
    obtain ⟨o, ho, hsame⟩ := List.any_eq_true.mp hany
    rw [Bool.and_eq_true, beq_iff_eq, beq_iff_eq] at hsame
    exact .inl ⟨rfl, rfl, .inl ⟨o, ho, hsame⟩⟩
  · rename_i hany
    have hnew : ∀ o ∈ db.offersOf product, ¬(o.observedAt = f ∧ o.contextSha256 = sha) := by
      intro o ho hsame
      exact hany (List.any_eq_true.mpr ⟨o, ho, by simp [hsame]⟩)
    have hinsert : db.insertOffer product rawRecord f t sha p = .ok db' →
        ∃ o : OfferObservation, o.id = db.nextOffer ∧ o.productId = product ∧ o.observedAt = f ∧
          o.lastSeenAt = f ∧ o.contextSha256 = sha ∧ t.fixed = some o.terms ∧
          db'.offers = db.offers ++ [o] ∧ db'.nextOffer = db.nextOffer + 1 := by
      intro h
      obtain ⟨o, hid, hproduct, hat, hseen, hsha, hterms, hoffers, hnext⟩ := insertOffer_ok h
      exact ⟨o, hid, hproduct, hat, hseen, hsha, Record.fixed_of_admitted hterms, hoffers, hnext⟩
    split at hok
    · rename_i hnone
      refine .inr (.inr ⟨hnew, fun latest hlatest => ?_, hinsert hok⟩)
      rw [hnone] at hlatest
      cases hlatest
    · rename_i latest hlatest
      split at hok
      · rename_i hlate
        obtain rfl := Except.ok.inj hok
        exact .inl ⟨rfl, rfl, .inr ⟨latest, hlatest, hlate⟩⟩
      · rename_i hlate
        split at hok
        · rename_i hsame
          obtain rfl := Except.ok.inj hok
          exact .inr (.inl ⟨latest, hlatest, not_lt.mp hlate, hsame, rfl, rfl⟩)
        · rename_i hchanged
          refine .inr (.inr ⟨hnew, fun latest' hlatest' => ?_, hinsert hok⟩)
          obtain rfl := Option.some.inj (hlatest.symm.trans hlatest')
          exact ⟨not_lt.mp hlate, Bool.eq_false_iff.mpr hchanged⟩

theorem observe_frame (hok : db.observe product rawRecord f t sha p = .ok db') :
    db'.productTable = db.productTable ∧ db'.rawRecords = db.rawRecords := by
  have hinsert : db.insertOffer product rawRecord f t sha p = .ok db' →
      db'.productTable = db.productTable ∧ db'.rawRecords = db.rawRecords := by
    intro h
    unfold insertOffer at h
    split at h
    · cases h
    · split at h
      · rw [← Except.ok.inj h]
        exact ⟨rfl, rfl⟩
      · cases h
  unfold observe at hok
  split at hok
  · rw [← Except.ok.inj hok]
    exact ⟨rfl, rfl⟩
  · split at hok
    · exact hinsert hok
    · split at hok
      · rw [← Except.ok.inj hok]
        exact ⟨rfl, rfl⟩
      · split at hok
        · rw [← Except.ok.inj hok]
          exact ⟨rfl, rfl⟩
        · exact hinsert hok

/-- What a priced record does to the observations. -/
inductive Moves (pg : Postgres) (db db' : Catalogue) (r : Priced) : Prop
  | stays (offers : db'.offers = db.offers) (next : db'.nextOffer = db.nextOffer)
      (place : Loads.Known pg (db.offersOf r.product) r ∨
        ∃ latest, db.latestOffer r.product = some latest ∧ r.fetchedAt < latest.observedAt)
  | prolongs (latest : OfferObservation) (found : db.latestOffer r.product = some latest)
      (le : latest.observedAt ≤ r.fetchedAt) (same : latest.terms.unchanged r.terms = true)
      (next : db'.nextOffer = db.nextOffer)
      (offers : db'.offers = update (fun o => o.id == latest.id) (·.extend r.fetchedAt) db.offers)
  | adds (new : ¬Loads.Known pg (db.offersOf r.product) r)
      (changed : ∀ latest, db.latestOffer r.product = some latest →
        latest.observedAt ≤ r.fetchedAt ∧ latest.terms.unchanged r.terms = false)
      (o : OfferObservation) (id_eq : o.id = db.nextOffer) (product_eq : o.productId = r.product)
      (at_eq : o.observedAt = r.fetchedAt) (sha_eq : o.contextSha256 = pg.contextSha256 r.terms)
      (terms_eq : r.terms.fixed = some o.terms) (offers : db'.offers = db.offers ++ [o])
      (next : db'.nextOffer = db.nextOffer + 1)

theorem latestOffer_congr (h : db'.offersOf product = db.offersOf product) :
    db'.latestOffer product = db.latestOffer product := by
  rw [latestOffer, h, latestOffer]

theorem latestOffer_extend (h : db.OffersKeyed) (h' : db'.OffersKeyed) {k : ℕ}
    (hoffers : db'.offers = update (fun o => o.id == k) (·.extend f) db.offers) (q : Uuid) :
    db'.latestOffer q = (db.latestOffer q).map fun o => if o.id == k then o.extend f else o := by
  have hrows := offersOf_update hoffers (fun _ => rfl) q
  cases hlatest : db.latestOffer q with
  | none =>
    have hnil : db'.offersOf q = [] := by
      rw [hrows, latestOffer_eq_none_iff.mp hlatest]
      rfl
    exact latestOffer_eq_none_iff.mpr hnil
  | some m =>
    obtain ⟨hm, hmax⟩ := (latestOffer_eq_some_iff h).mp hlatest
    have hrank : ∀ o : OfferObservation, rank (if o.id == k then o.extend f else o) = rank o := by
      intro o
      split <;> rfl
    refine (latestOffer_eq_some_iff h').mpr ⟨?_, fun o ho => ?_⟩
    · rw [hrows]
      exact mem_update.mpr ⟨m, hm, rfl⟩
    · rw [hrows] at ho
      obtain ⟨v, hv, rfl⟩ := mem_update.mp ho
      rw [hrank, hrank]
      exact hmax v hv

/-- An observation that is not older than the latest one becomes the latest one. -/
theorem latestOffer_add (h : db.OffersKeyed) (h' : db'.OffersKeyed) {o : OfferObservation}
    (hoffers : db'.offers = db.offers ++ [o]) (hid : o.id = db.nextOffer)
    (hle : ∀ latest, db.latestOffer o.productId = some latest → latest.observedAt ≤ o.observedAt) :
    db'.latestOffer o.productId = some o := by
  have hrows := offersOf_append hoffers o.productId
  rw [if_pos rfl] at hrows
  refine (latestOffer_eq_some_iff h').mpr ⟨?_, fun v hv => ?_⟩
  · rw [hrows]
    exact List.mem_append_right _ (List.mem_singleton_self o)
  · rw [hrows] at hv
    rcases List.mem_append.mp hv with hv | hv
    · cases hlatest : db.latestOffer o.productId with
      | none => exact absurd (latestOffer_eq_none_iff.mp hlatest ▸ hv) List.not_mem_nil
      | some m =>
        have hvm := ((latestOffer_eq_some_iff h).mp hlatest).2 v hv
        have hlt : v.id < o.id := by
          rw [hid]
          exact h.bounded v (mem_offersOf.mp hv).1
        have hobserved : v.observedAt ≤ o.observedAt := by
          refine le_trans ?_ (hle m hlatest)
          rcases Prod.Lex.toLex_le_toLex.mp hvm with hlt | ⟨heq, -⟩
          · exact hlt.le
          · exact heq.le
        refine Prod.Lex.toLex_le_toLex.mpr ?_
        rcases hobserved.lt_or_eq with hobserved | hobserved
        · exact .inl hobserved
        · exact .inr ⟨hobserved, hlt.le⟩
    · rw [List.mem_singleton.mp hv]

theorem Moves.offersKeyed {r : Priced} (hmoves : Moves pg db db' r) (h : db.OffersKeyed) :
    db'.OffersKeyed := by
  cases hmoves with
  | stays hoffers hnext _ =>
    refine ⟨?_, ?_⟩
    · rw [hoffers]
      exact h.keyed
    · rw [hoffers, hnext]
      exact h.bounded
  | prolongs latest _ _ _ hnext hoffers =>
    refine ⟨?_, ?_⟩
    · rw [hoffers]
      exact h.keyed.update fun _ => rfl
    · rw [hoffers, hnext]
      intro o ho
      obtain ⟨v, hv, rfl⟩ := mem_update.mp ho
      split
      · exact h.bounded v hv
      · exact h.bounded v hv
  | adds _ _ o hid _ _ _ _ hoffers hnext =>
    refine ⟨?_, ?_⟩
    · rw [hoffers]
      exact h.keyed.append fun v hv => hid ▸ (h.bounded v hv).ne
    · rw [hoffers, hnext]
      intro v hv
      rcases List.mem_append.mp hv with hv | hv
      · exact (h.bounded v hv).trans (Nat.lt_succ_self _)
      · rw [List.mem_singleton.mp hv, hid]
        exact Nat.lt_succ_self _

/-! ## Settled records -/

/-- The price history settles a record: it is known, or late, or part of the interval of the latest
observation. -/
def Settled (pg : Postgres) (db : Catalogue) (r : Priced) : Prop :=
  Loads.Known pg (db.offersOf r.product) r ∨
    ∃ latest, db.latestOffer r.product = some latest ∧ (r.fetchedAt < latest.observedAt ∨
      latest.terms.unchanged r.terms = true ∧ r.fetchedAt ≤ latest.lastSeenAt)

/-- A new observation leaves a record in its place: the record is from before it, or known. -/
def InPlace (pg : Postgres) (db : Catalogue) (r r' : Priced) : Prop :=
  r'.fetchedAt < r.fetchedAt ∨ Loads.Known pg (db.offersOf r'.product) r' ∨
    (r'.fetchedAt = r.fetchedAt ∧ pg.contextSha256 r'.terms = pg.contextSha256 r.terms)

/-- A record adds an observation. -/
def Adds (pg : Postgres) (db : Catalogue) (r : Priced) : Prop :=
  ¬Loads.Known pg (db.offersOf r.product) r ∧ ∀ latest, db.latestOffer r.product = some latest →
    latest.observedAt ≤ r.fetchedAt ∧ latest.terms.unchanged r.terms = false

theorem Moves.settled {r : Priced} (hmoves : Moves pg db db' r) (h : db.OffersKeyed) :
    Settled pg db' r := by
  have h' := hmoves.offersKeyed h
  cases hmoves with
  | stays hoffers _ hplace =>
    have hrows : db'.offersOf r.product = db.offersOf r.product := by
      rw [offersOf, hoffers, offersOf]
    rcases hplace with hknown | ⟨latest, hlatest, hlate⟩
    · exact .inl (hrows ▸ hknown)
    · exact .inr ⟨latest, (latestOffer_congr hrows).trans hlatest, .inl hlate⟩
  | prolongs latest hlatest _ hsame _ hoffers =>
    refine .inr ⟨latest.extend r.fetchedAt, ?_, .inr ⟨hsame, le_max_right _ _⟩⟩
    rw [latestOffer_extend h h' hoffers, hlatest, Option.map_some, if_pos (beq_self_eq_true _)]
  | adds _ _ o _ hproduct hat hsha _ hoffers _ =>
    refine .inl ⟨o, ?_, hat, hsha⟩
    rw [offersOf_append hoffers, if_pos hproduct]
    exact List.mem_append_right _ (List.mem_singleton_self o)

theorem Moves.known {r r' : Priced} (hmoves : Moves pg db db' r)
    (h : Loads.Known pg (db.offersOf r'.product) r') : Loads.Known pg (db'.offersOf r'.product) r' := by
  obtain ⟨o, ho, hat, hsha⟩ := h
  cases hmoves with
  | stays hoffers _ _ =>
    rw [offersOf, hoffers]
    exact ⟨o, ho, hat, hsha⟩
  | prolongs latest _ _ _ _ hoffers =>
    rw [offersOf_update hoffers fun _ => rfl]
    refine ⟨_, mem_update.mpr ⟨o, ho, rfl⟩, ?_⟩
    split
    · exact ⟨hat, hsha⟩
    · exact ⟨hat, hsha⟩
  | adds _ _ o' _ _ _ _ _ hoffers _ =>
    rw [offersOf_append hoffers]
    exact ⟨o, List.mem_append_left _ ho, hat, hsha⟩

/-- **A settled record stays settled**, unless a new observation overtakes it. -/
theorem Moves.keeps_settled {r r' : Priced} (hmoves : Moves pg db db' r) (h : db.OffersKeyed)
    (hsettled : Settled pg db r')
    (hplace : Adds pg db r → r'.product = r.product → InPlace pg db r r') : Settled pg db' r' := by
  have h' := hmoves.offersKeyed h
  rcases hsettled with hknown | ⟨latest', hlatest', hcase⟩
  · exact .inl (hmoves.known hknown)
  cases hmoves with
  | stays hoffers _ _ =>
    have hrows : db'.offersOf r'.product = db.offersOf r'.product := by
      rw [offersOf, hoffers, offersOf]
    exact .inr ⟨latest', (latestOffer_congr hrows).trans hlatest', hcase⟩
  | prolongs latest _ _ _ _ hoffers =>
    refine .inr ⟨_, by rw [latestOffer_extend h h' hoffers, hlatest', Option.map_some], ?_⟩
    split
    · exact hcase.imp_right (And.imp_right fun hseen => hseen.trans (le_max_left _ _))
    · exact hcase
  | adds hnew hchanged o hid hproduct hat hsha _ hoffers _ =>
    by_cases hr : r'.product = r.product
    · have hlatest : db'.latestOffer r'.product = some o := by
        rw [hr, ← hproduct]
        refine latestOffer_add h h' hoffers hid fun latest hlatest => ?_
        rw [hat]
        exact (hchanged latest (hproduct ▸ hlatest)).1
      rcases hplace ⟨hnew, hchanged⟩ hr with hbefore | hknown | ⟨hsame, hsha'⟩
      · exact .inr ⟨o, hlatest, .inl (hat ▸ hbefore)⟩
      · refine .inl ?_
        obtain ⟨v, hv, hv'⟩ := hknown
        rw [offersOf_append hoffers]
        exact ⟨v, List.mem_append_left _ hv, hv'⟩
      · refine .inl ⟨o, ?_, hat.trans hsame.symm, hsha.trans hsha'.symm⟩
        rw [offersOf_append hoffers, if_pos (hproduct.trans hr.symm)]
        exact List.mem_append_right _ (List.mem_singleton_self o)
    · have hrows : db'.offersOf r'.product = db.offersOf r'.product := by
        rw [offersOf_append hoffers, if_neg fun heq => hr (heq.symm.trans hproduct), List.append_nil]
      exact .inr ⟨latest', (latestOffer_congr hrows).trans hlatest', hcase⟩

theorem observe_of_settled {r : Priced} (h : db.OffersKeyed) (hsettled : Settled pg db r)
    (rawRecord : ℕ) (p : Record) :
    ∃ db', db.observe r.product rawRecord r.fetchedAt r.terms (pg.contextSha256 r.terms) p =
      .ok db' ∧ db'.offers = db.offers ∧ db'.nextOffer = db.nextOffer := by
  unfold observe
  split
  · exact ⟨db, rfl, rfl, rfl⟩
  · rename_i hany
    rcases hsettled with ⟨o, ho, hat, hsha⟩ | ⟨latest, hlatest, hcase⟩
    · exact absurd (List.any_eq_true.mpr ⟨o, ho, by simp [hat, hsha]⟩) hany
    · rw [hlatest]
      dsimp only
      split
      · exact ⟨_, rfl, rfl, rfl⟩
      · rename_i hlate
        obtain ⟨hsame, hseen⟩ := hcase.resolve_left hlate
        rw [if_pos hsame]
        refine ⟨_, rfl, ?_, rfl⟩
        refine (List.map_congr_left fun o ho => ?_).trans (List.map_id _)
        split
        · rename_i hid
          have heq : o = latest := h.keyed.eq_of_mem ho
            (mem_offersOf.mp ((latestOffer_eq_some_iff h).mp hlatest).1).1 (beq_iff_eq.mp hid)
          subst heq
          exact congrArg (fun seen => { o with lastSeenAt := seen }) (max_eq_left hseen)
        · rfl

/-! ## One load -/

variable {c : LoadCall}

theorem loadRecord_tables (h : loadRecord pg db c = .ok (product, db')) :
    ∃ v f, pg.values c = some (v, f) ∧
      db'.productTable = productRule.mergeOne db.productTable (v.entry pg f c) ∧
      db'.rawRecords =
        (db.upsertRawRecord (pg.rawRow f c (db.productOf v) db.nextRawRecord)).2.rawRecords ∧
      ((v.offer = .ok none ∧ db'.offers = db.offers ∧ db'.nextOffer = db.nextOffer) ∨
        ∃ t, v.offer = .ok (some t) ∧ Moves pg db db' ⟨db.productOf v, f, t⟩) := by
  obtain ⟨v, f, hvalues, hcase⟩ := loadRecord_cases h
  obtain ⟨hoffers, hnext⟩ : (db.register pg v f c).2.2.offers = db.offers ∧
      (db.register pg v f c).2.2.nextOffer = db.nextOffer := db.register_offers v f c
  have hproduct : (db.register pg v f c).1 = db.productOf v := db.register_product v f c
  have hproducts := db.register_products pg v f c
  have hraw := db.register_rawRecords pg v f c
  refine ⟨v, f, hvalues, ?_⟩
  rcases hcase with ⟨hnone, rfl⟩ | ⟨t, ht, hobserve⟩
  · exact ⟨hproducts, hraw, .inl ⟨hnone, hoffers, hnext⟩⟩
  · obtain ⟨hframe, hframe'⟩ := observe_frame hobserve
    refine ⟨hframe.trans hproducts, hframe'.trans hraw, .inr ⟨t, ht, ?_⟩⟩
    have hrows : (db.register pg v f c).2.2.offersOf (db.productOf v) = db.offersOf (db.productOf v) := by
      rw [offersOf, hoffers, offersOf]
    have hlatest := latestOffer_congr hrows
    rw [hproduct] at hobserve
    rcases observe_cases hobserve with ⟨hsame, hsame', hplace⟩ |
      ⟨latest, hfound, hle, hunchanged, hnext', hoffers'⟩ |
      ⟨hnew, hchanged, o, hid, hproduct', hat, -, hsha, hterms, hoffers', hnext'⟩
    · rw [hrows, hlatest] at hplace
      exact .stays (hsame.trans hoffers) (hsame'.trans hnext) hplace
    · rw [hlatest] at hfound
      rw [hoffers] at hoffers'
      exact .prolongs latest hfound hle hunchanged (hnext'.trans hnext) hoffers'
    · rw [hrows] at hnew
      rw [hlatest] at hchanged
      rw [hoffers] at hoffers'
      rw [hnext] at hid hnext'
      refine .adds ?_ hchanged o hid hproduct' hat hsha hterms hoffers' hnext'
      rintro ⟨o, ho, heq⟩
      exact hnew o ho heq

/-- A record that was loaded is absorbed by the tables. -/
def Absorbed (pg : Postgres) (db : Catalogue) (c : LoadCall) : Prop :=
  ∃ v f, pg.values c = some (v, f) ∧ db.HasProduct v ∧
    HoldsRaw db.rawRecords (pg.rawRow f c (db.productOf v) 0) ∧
    (v.offer = .ok none ∨ ∃ t, v.offer = .ok (some t) ∧ Settled pg db ⟨db.productOf v, f, t⟩)

theorem priced_eq {v : Values} (hvalues : pg.values c = some (v, f)) (ht : v.offer = .ok (some t))
    (db : Catalogue) : pg.priced db c = some ⟨db.productOf v, f, t⟩ := by
  unfold Postgres.values at hvalues
  unfold Postgres.priced
  cases hread : pg.read c.stockTrendsEnabled c.record with
  | error e =>
    rw [hread] at hvalues
    cases hvalues
  | ok w =>
    rw [hread] at hvalues
    obtain ⟨f', hf', heq⟩ := Option.map_eq_some_iff.mp hvalues
    obtain ⟨rfl, rfl⟩ := Prod.mk.inj heq
    simp only [hf', ht]

theorem values_of_priced {r : Priced} (h : pg.priced db c = some r) :
    ∃ v, pg.values c = some (v, r.fetchedAt) ∧ v.offer = .ok (some r.terms) ∧
      r.product = db.productOf v := by
  unfold Postgres.priced at h
  unfold Postgres.values
  cases hread : pg.read c.stockTrendsEnabled c.record with
  | error e =>
    rw [hread] at h
    cases h
  | ok v =>
    rw [hread] at h
    dsimp only at h
    split at h
    · rename_i f' t' hfetched hoffer
      obtain rfl := Option.some.inj h
      exact ⟨v, by simp only [hfetched, Option.map_some], hoffer, rfl⟩
    · cases h

theorem absorbed_of_loadRecord (h : db.OffersKeyed)
    (hload : loadRecord pg db c = .ok (product, db')) : db'.OffersKeyed ∧ Absorbed pg db' c := by
  obtain ⟨v, f, hvalues, hproducts, hraw, hcase⟩ := loadRecord_tables hload
  obtain ⟨hid, hhas⟩ := productOf_mergeOne (v := v) hproducts (.inr rfl)
  have hholds : HoldsRaw db'.rawRecords (pg.rawRow f c (db'.productOf v) 0) := by
    rw [hraw, hid]
    exact (holdsRaw_upsert db _).1
  rcases hcase with ⟨hnone, hoffers, hnext⟩ | ⟨t, ht, hmoves⟩
  · refine ⟨⟨hoffers ▸ h.keyed, ?_⟩, v, f, hvalues, hhas, hholds, .inl hnone⟩
    rw [hoffers, hnext]
    exact h.bounded
  · refine ⟨hmoves.offersKeyed h, v, f, hvalues, hhas, hholds, .inr ⟨t, ht, ?_⟩⟩
    rw [hid]
    exact hmoves.settled h

/-- The loads before a call keep their places: a new observation overtakes none of them. -/
def KeepsPlaces (pg : Postgres) (db : Catalogue) (before : List LoadCall) (c : LoadCall) : Prop :=
  ∀ r, pg.priced db c = some r → Adds pg db r → ∀ c' ∈ before, ∀ r', pg.priced db c' = some r' →
    r'.product = r.product → InPlace pg db r r'

/-- **A load keeps the absorbed records absorbed**, if it keeps their places. -/
theorem Absorbed.step {before : List LoadCall} {c c' : LoadCall} (h : db.OffersKeyed)
    (hc' : c' ∈ before) (habsorbed : Absorbed pg db c')
    (hload : loadRecord pg db c = .ok (product, db')) (hplaces : KeepsPlaces pg db before c) :
    Absorbed pg db' c' := by
  obtain ⟨v, f, hvalues, hhas, hholds, hcase⟩ := habsorbed
  obtain ⟨w, g, hvalues', hproducts, hraw, hcase'⟩ := loadRecord_tables hload
  obtain ⟨hid, hhas'⟩ := productOf_mergeOne hproducts (.inl hhas)
  refine ⟨v, f, hvalues, hhas', ?_, ?_⟩
  · rw [hid, hraw]
    exact (holdsRaw_upsert db _).2 _ hholds
  · rcases hcase with hnone | ⟨t, ht, hsettled⟩
    · exact .inl hnone
    · refine .inr ⟨t, ht, ?_⟩
      rw [hid]
      rcases hcase' with ⟨-, hoffers, -⟩ | ⟨t', ht', hmoves⟩
      · have hrows : db'.offersOf (db.productOf v) = db.offersOf (db.productOf v) := by
          rw [offersOf, hoffers, offersOf]
        unfold Settled at hsettled ⊢
        rwa [hrows, latestOffer_congr hrows]
      · refine hmoves.keeps_settled h hsettled fun hadds hsame => ?_
        exact hplaces _ (priced_eq hvalues' ht' db) hadds c' hc' _ (priced_eq hvalues ht db) hsame

/-! ## Lists of records -/

/-- The calls one after the other; a call that raises ends them. -/
def loadCalls (pg : Postgres) (db : Catalogue) (calls : List LoadCall) : Except LoadError Catalogue :=
  calls.foldlM (fun db c => (loadRecord pg db c).map Prod.snd) db

/-- What the calls bring to the products. -/
def entries (pg : Postgres) (calls : List LoadCall) : List ProductEntry :=
  calls.filterMap fun c => (pg.values c).map fun v => v.1.entry pg v.2 c

variable {calls : List LoadCall}

theorem loadCalls_cons :
    loadCalls pg db (c :: calls) = .ok db' ↔
      ∃ product s, loadRecord pg db c = .ok (product, s) ∧ loadCalls pg s calls = .ok db' := by
  rw [loadCalls, List.foldlM_cons, Transaction.bind_eq_ok]
  constructor
  · rintro ⟨s, hmap, hrest⟩
    obtain ⟨⟨product, s'⟩, hload, rfl⟩ := Transaction.map_eq_ok.mp hmap
    exact ⟨product, s', hload, hrest⟩
  · rintro ⟨product, s, hload, hrest⟩
    exact ⟨s, Transaction.map_eq_ok.mpr ⟨(product, s), hload, rfl⟩, hrest⟩

theorem loadCalls_append {calls more : List LoadCall} :
    loadCalls pg db (calls ++ more) = .ok db' ↔
      ∃ s, loadCalls pg db calls = .ok s ∧ loadCalls pg s more = .ok db' := by
  rw [loadCalls, List.foldlM_append, Transaction.bind_eq_ok]
  rfl

theorem loadCalls_concat :
    loadCalls pg db (calls ++ [c]) = .ok db' ↔
      ∃ s product, loadCalls pg db calls = .ok s ∧ loadRecord pg s c = .ok (product, db') := by
  rw [loadCalls_append]
  constructor
  · rintro ⟨s, hcalls, hlast⟩
    obtain ⟨product, s', hload, hnil⟩ := loadCalls_cons.mp hlast
    obtain rfl := Except.ok.inj hnil
    exact ⟨s, product, hcalls, hload⟩
  · rintro ⟨s, product, hcalls, hload⟩
    exact ⟨s, hcalls, loadCalls_cons.mpr ⟨product, db', hload, rfl⟩⟩

theorem productTable_loadCalls (h : loadCalls pg db calls = .ok db') :
    db'.productTable = productRule.mergeAll db.productTable (entries pg calls) := by
  induction calls generalizing db with
  | nil =>
    obtain rfl := Except.ok.inj h
    rfl
  | cons c calls ih =>
    obtain ⟨product, s, hload, hrest⟩ := loadCalls_cons.mp h
    obtain ⟨v, f, hvalues, hproducts, -⟩ := loadRecord_tables hload
    have hentries : entries pg (c :: calls) = v.entry pg f c :: entries pg calls := by
      rw [entries, List.filterMap_cons, hvalues]
      rfl
    rw [ih hrest, hproducts, hentries]
    rfl

/-- A list of records may be loaded again: nothing raises, and the products, the raw records and the
observations are as they were. -/
def Reloads (pg : Postgres) (db : Catalogue) (calls : List LoadCall) : Prop :=
  ∀ s, loadCalls pg db calls = .ok s → ∃ s', loadCalls pg s calls = .ok s' ∧
    s'.products = s.products ∧ s'.rawRecords = s.rawRecords ∧ s'.offers = s.offers

/-- No load of a list overtakes an earlier one. -/
def NoneOvertaken (pg : Postgres) (db : Catalogue) (calls : List LoadCall) : Prop :=
  ∀ before c, before ++ [c] <+: calls → ∀ s, loadCalls pg db before = .ok s →
    ∀ product s', loadRecord pg s c = .ok (product, s') → KeepsPlaces pg s before c

theorem absorbed_loadCalls (h : db.OffersKeyed) (hnone : NoneOvertaken pg db calls) {s : Catalogue}
    (hcalls : loadCalls pg db calls = .ok s) : s.OffersKeyed ∧ ∀ c ∈ calls, Absorbed pg s c := by
  induction calls using List.reverseRecOn generalizing s with
  | nil =>
    obtain rfl := Except.ok.inj hcalls
    exact ⟨h, fun _ hc => absurd hc List.not_mem_nil⟩
  | append_singleton calls c ih =>
    obtain ⟨t, product, hbefore, hload⟩ := loadCalls_concat.mp hcalls
    obtain ⟨hkeyed, habsorbed⟩ := ih
      (fun before d hstart => hnone before d (hstart.trans (List.prefix_append _ _))) hbefore
    obtain ⟨hkeyed', hself⟩ := absorbed_of_loadRecord hkeyed hload
    refine ⟨hkeyed', fun d hd => ?_⟩
    rcases List.mem_append.mp hd with hd | hd
    · exact (habsorbed d hd).step hkeyed hd hload
        (hnone calls c List.prefix_rfl t hbefore product s hload)
    · rw [List.mem_singleton.mp hd]
      exact hself

theorem loadRecord_of_absorbed (h : db.OffersKeyed) (habsorbed : Absorbed pg db c) :
    ∃ product s, loadRecord pg db c = .ok (product, s) ∧ s.offers = db.offers ∧
      s.nextOffer = db.nextOffer ∧ s.rawRecords = db.rawRecords := by
  obtain ⟨v, f, hvalues, hhas, hholds, hcase⟩ := habsorbed
  obtain ⟨hoffers, hnext⟩ : (db.register pg v f c).2.2.offers = db.offers ∧
      (db.register pg v f c).2.2.nextOffer = db.nextOffer := db.register_offers v f c
  have hproduct : (db.register pg v f c).1 = db.productOf v := db.register_product v f c
  have hraw : (db.register pg v f c).2.2.rawRecords = db.rawRecords :=
    (db.register_rawRecords pg v f c).trans (upsertRawRecord_of_holds hholds)
  unfold Postgres.values at hvalues
  cases hread : pg.read c.stockTrendsEnabled c.record with
  | error e =>
    rw [hread] at hvalues
    cases hvalues
  | ok w =>
    rw [hread] at hvalues
    obtain ⟨f', hfetched, heq⟩ := Option.map_eq_some_iff.mp hvalues
    obtain ⟨rfl, rfl⟩ := Prod.mk.inj heq
    unfold loadRecord
    rw [hread]
    simp only [bind, Except.bind, hfetched]
    rcases hcase with hnone | ⟨t, ht, hsettled⟩
    · rw [hnone]
      exact ⟨_, _, rfl, hoffers, hnext, hraw⟩
    · rw [ht]
      have hrows : ∀ q, (db.register pg w f' c).2.2.offersOf q = db.offersOf q := by
        intro q
        rw [offersOf, hoffers, offersOf]
      have hkeyed : (db.register pg w f' c).2.2.OffersKeyed := by
        refine ⟨hoffers ▸ h.keyed, ?_⟩
        rw [hoffers, hnext]
        exact h.bounded
      have hsettled' : Settled pg (db.register pg w f' c).2.2 ⟨db.productOf w, f', t⟩ := by
        unfold Settled at hsettled ⊢
        rwa [hrows, latestOffer_congr (hrows _)]
      obtain ⟨s, hobserve, hs, hs'⟩ := observe_of_settled hkeyed hsettled'
        (db.register pg w f' c).2.1 c.record
      have hframe := (observe_frame hobserve).2
      simp only [hproduct]
      rw [hobserve]
      exact ⟨_, s, rfl, hs.trans hoffers, hs'.trans hnext, hframe.trans hraw⟩

/-- An absorbed record is absorbed by tables with the same rows, if its product keeps its id. -/
theorem Absorbed.congr {e : ProductEntry} (habsorbed : Absorbed pg db c)
    (hoffers : db'.offers = db.offers) (hraw : db'.rawRecords = db.rawRecords)
    (hproducts : db'.productTable = productRule.mergeOne db.productTable e) : Absorbed pg db' c := by
  obtain ⟨v, f, hvalues, hhas, hholds, hcase⟩ := habsorbed
  obtain ⟨hid, hhas'⟩ := productOf_mergeOne hproducts (.inl hhas)
  have hrows : ∀ q, db'.offersOf q = db.offersOf q := by
    intro q
    rw [offersOf, hoffers, offersOf]
  refine ⟨v, f, hvalues, hhas', by rwa [hraw, hid], ?_⟩
  rcases hcase with hnone | ⟨t, ht, hsettled⟩
  · exact .inl hnone
  · refine .inr ⟨t, ht, ?_⟩
    rw [hid]
    unfold Settled at hsettled ⊢
    rwa [hrows, latestOffer_congr (hrows _)]

/-- Absorbed records are loaded again, and change no raw record and no observation. -/
theorem loadCalls_of_absorbed (h : db.OffersKeyed) (habsorbed : ∀ c ∈ calls, Absorbed pg db c) :
    ∃ s, loadCalls pg db calls = .ok s ∧ s.offers = db.offers ∧ s.rawRecords = db.rawRecords := by
  induction calls generalizing db with
  | nil => exact ⟨db, rfl, rfl, rfl⟩
  | cons c calls ih =>
    obtain ⟨product, s, hload, hoffers, hnext, hraw⟩ :=
      loadRecord_of_absorbed h (habsorbed c List.mem_cons_self)
    obtain ⟨v, f, -, hproducts, -⟩ := loadRecord_tables hload
    have hkeyed : s.OffersKeyed := by
      refine ⟨hoffers ▸ h.keyed, ?_⟩
      rw [hoffers, hnext]
      exact h.bounded
    obtain ⟨s', hcalls, hoffers', hraw'⟩ := ih hkeyed fun d hd =>
      (habsorbed d (List.mem_cons_of_mem c hd)).congr hoffers hraw hproducts
    exact ⟨s', loadCalls_cons.mpr ⟨product, s, hload, hcalls⟩, hoffers'.trans hoffers,
      hraw'.trans hraw⟩

/-- A list of which no load overtakes an earlier one may be loaded again. -/
theorem NoneOvertaken.reloads (h : db.OffersKeyed)
    (hnone : NoneOvertaken pg db calls) : Reloads pg db calls := by
  intro s hcalls
  obtain ⟨hkeyed, habsorbed⟩ := absorbed_loadCalls h hnone hcalls
  obtain ⟨s', hagain, hoffers, hraw⟩ := loadCalls_of_absorbed hkeyed habsorbed
  refine ⟨s', hagain, ?_, hraw, hoffers⟩
  have htable : s'.productTable = s.productTable := by
    rw [productTable_loadCalls hagain, productTable_loadCalls hcalls,
      MergeRule.mergeAll_mergeAll productRule_self productRule_again]
  exact congrArg Table.rows htable

/-! ## What a second load shows -/

/-- Observations grow: rows are added, and the others are seen later. -/
def Grows (rows rows' : List OfferObservation) : Prop :=
  ∀ (i : ℕ) (o : OfferObservation), rows[i]? = some o → ∃ o', rows'[i]? = some o' ∧
    o.lastSeenAt ≤ o'.lastSeenAt ∧ { o' with lastSeenAt := o.lastSeenAt } = o

theorem Grows.refl (rows : List OfferObservation) : Grows rows rows := fun _ o h => ⟨o, h, le_rfl, rfl⟩

theorem Grows.trans {a b c : List OfferObservation} (h : Grows a b) (h' : Grows b c) : Grows a c := by
  intro i o ho
  obtain ⟨o', ho', hle, heq⟩ := h i o ho
  obtain ⟨o'', ho'', hle', heq'⟩ := h' i o' ho'
  refine ⟨o'', ho'', hle.trans hle', ?_⟩
  rw [← heq, ← heq']

theorem Grows.antisymm {a b : List OfferObservation} (h : Grows a b) (h' : Grows b a) : a = b := by
  refine List.ext_getElem? fun i => ?_
  cases ha : a[i]? with
  | none =>
    cases hb : b[i]? with
    | none => rfl
    | some o =>
      obtain ⟨o', ho', -⟩ := h' i o hb
      rw [ha] at ho'
      cases ho'
  | some o =>
    obtain ⟨o', ho', hle, heq⟩ := h i o ha
    obtain ⟨o'', ho'', hle', -⟩ := h' i o' ho'
    obtain rfl := Option.some.inj (ha.symm.trans ho'')
    rw [ho', ← heq, le_antisymm hle hle']

theorem grows_loadRecord (h : loadRecord pg db c = .ok (product, db')) :
    Grows db.offers db'.offers := by
  obtain ⟨v, f, -, -, -, ⟨-, hoffers, -⟩ | ⟨t, -, hmoves⟩⟩ := loadRecord_tables h
  · rw [hoffers]
    exact .refl _
  · cases hmoves with
    | stays hoffers _ _ =>
      rw [hoffers]
      exact .refl _
    | prolongs latest _ _ _ _ hoffers =>
      intro i o ho
      rw [hoffers, update, List.getElem?_map, ho]
      refine ⟨_, rfl, ?_⟩
      dsimp only
      split
      · exact ⟨le_max_left _ _, rfl⟩
      · exact ⟨le_rfl, rfl⟩
    | adds _ _ o _ _ _ _ _ hoffers _ =>
      intro i v hv
      rw [hoffers]
      exact ⟨v, List.getElem?_append_left (List.getElem?_eq_some_iff.mp hv).1 ▸ hv, le_rfl, rfl⟩

theorem grows_loadCalls (h : loadCalls pg db calls = .ok db') : Grows db.offers db'.offers := by
  induction calls generalizing db with
  | nil =>
    obtain rfl := Except.ok.inj h
    exact .refl _
  | cons c calls ih =>
    obtain ⟨product, s, hload, hrest⟩ := loadCalls_cons.mp h
    exact (grows_loadRecord hload).trans (ih hrest)

theorem productOf_loadCalls {v : Values} (hv : db.HasProduct v)
    (h : loadCalls pg db calls = .ok db') : db'.productOf v = db.productOf v ∧ db'.HasProduct v := by
  induction calls generalizing db with
  | nil =>
    obtain rfl := Except.ok.inj h
    exact ⟨rfl, hv⟩
  | cons c calls ih =>
    obtain ⟨product, s, hload, hrest⟩ := loadCalls_cons.mp h
    obtain ⟨w, f, -, hproducts, -⟩ := loadRecord_tables hload
    obtain ⟨hid, hhas⟩ := productOf_mergeOne hproducts (.inl hv)
    obtain ⟨hid', hhas'⟩ := ih hhas hrest
    exact ⟨hid'.trans hid, hhas'⟩

/-- The numbers of a call are representable in `numeric(18,6)`: a column holds them as they are. -/
def Representable (pg : Postgres) (c : LoadCall) : Prop :=
  ∀ v f t, pg.values c = some (v, f) → v.offer = .ok (some t) →
    ∀ fixed, t.fixed = some fixed → fixed.unchanged t = true

instance (c : LoadCall) : Decidable (Representable pg c) :=
  decidable_of_iff (∀ v ∈ pg.values c, ∀ offer ∈ v.1.offer.toOption, ∀ t ∈ offer, ∀ fixed ∈ t.fixed,
    fixed.unchanged t = true) <| by
    constructor
    · intro h v f t hvalues ht fixed hfixed
      refine h (v, f) hvalues (some t) ?_ t rfl fixed hfixed
      rw [ht]
      rfl
    · intro h v hv offer hoffer t ht fixed hfixed
      obtain rfl : offer = some t := ht
      refine h v.1 v.2 t hv ?_ fixed hfixed
      cases hok : v.1.offer with
      | error e =>
        rw [hok] at hoffer
        cases hoffer
      | ok offer' =>
        rw [hok] at hoffer
        exact congrArg Except.ok (Option.some.inj hoffer)

theorem Reloads.keepsPlaces {s s' : Catalogue} (h : db.OffersKeyed)
    (hnone : NoneOvertaken pg db calls) (hc : Representable pg c)
    (hcalls : loadCalls pg db calls = .ok s) (hload : loadRecord pg s c = .ok (product, s'))
    (hreloads : Reloads pg db (calls ++ [c])) : KeepsPlaces pg s calls c := by
  intro r hr hadds c' hc' r' hr' hproduct
  by_contra hplace
  obtain ⟨hkeyed, habsorbed⟩ := absorbed_loadCalls h hnone hcalls
  obtain ⟨v, hvalues, ht, hrproduct⟩ := values_of_priced hr
  obtain ⟨v', hvalues', ht', hrproduct'⟩ := values_of_priced hr'
  -- The new observation.
  obtain ⟨w, f, hw, hproducts, -, hcase⟩ := loadRecord_tables hload
  obtain ⟨rfl, rfl⟩ := Prod.mk.inj (Option.some.inj (hvalues.symm.trans hw))
  obtain ⟨t, ht₁, hmoves⟩ := hcase.resolve_left fun hnone => by
    rw [ht] at hnone
    cases Except.ok.inj hnone.1
  obtain rfl : r.terms = t := Option.some.inj (Except.ok.inj (ht.symm.trans ht₁))
  have hreq : (⟨s.productOf v, r.fetchedAt, r.terms⟩ : Priced) = r := by rw [← hrproduct]
  rw [hreq] at hmoves
  have hkeyed' := hmoves.offersKeyed hkeyed
  obtain ⟨o, hid, hoproduct, hat, hsha, hterms, hoffers⟩ : ∃ o : OfferObservation,
      o.id = s.nextOffer ∧ o.productId = r.product ∧ o.observedAt = r.fetchedAt ∧
      o.contextSha256 = pg.contextSha256 r.terms ∧ r.terms.fixed = some o.terms ∧
      s'.offers = s.offers ++ [o] := by
    cases hmoves with
    | stays _ _ hplace =>
      rcases hplace with hknown | ⟨latest, hlatest, hlate⟩
      · exact absurd hknown hadds.1
      · exact absurd hlate (not_lt.mpr (hadds.2 latest hlatest).1)
    | prolongs latest hlatest _ hsame _ _ =>
      rw [(hadds.2 latest hlatest).2] at hsame
      cases hsame
    | adds _ _ o hid hoproduct hat hsha hterms hoffers _ =>
      exact ⟨o, hid, hoproduct, hat, hsha, hterms, hoffers⟩
  have hlatest : s'.latestOffer r.product = some o := by
    rw [← hoproduct]
    refine latestOffer_add hkeyed hkeyed' hoffers hid fun latest hlatest => ?_
    rw [hat]
    exact (hadds.2 latest (hoproduct ▸ hlatest)).1
  have hrows : s'.offersOf r.product = s.offersOf r.product ++ [o] := by
    rw [offersOf_append hoffers, if_pos hoproduct]
  -- The earlier record extended the observation that was the latest one.
  unfold InPlace at hplace
  simp only [not_or, not_lt] at hplace
  obtain ⟨hbefore, hunknown, hother⟩ := hplace
  obtain ⟨v₁, f₁, hv₁, hhas, -, hoffer⟩ := habsorbed c' hc'
  obtain ⟨rfl, rfl⟩ := Prod.mk.inj (Option.some.inj (hvalues'.symm.trans hv₁))
  have hreq' : (⟨s.productOf v', r'.fetchedAt, r'.terms⟩ : Priced) = r' := by rw [← hrproduct']
  have hsettled : Settled pg s r' := by
    rcases hoffer with hno | ⟨t', ht'', hsettled⟩
    · rw [ht'] at hno
      cases Except.ok.inj hno
    · obtain rfl := Option.some.inj (Except.ok.inj (ht'.symm.trans ht''))
      rwa [hreq'] at hsettled
  obtain ⟨latest, hlatest', hin⟩ := hsettled.resolve_left hunknown
  rw [hproduct] at hlatest'
  obtain ⟨hle, hchanged⟩ := hadds.2 latest hlatest'
  obtain ⟨hsame, -⟩ := hin.resolve_left (not_lt.mpr (hle.trans hbefore))
  have hunlike : o.terms.unchanged r'.terms = false := by
    refine Bool.eq_false_iff.mpr fun hunchanged => ?_
    have heq : o.terms = latest.terms := Option.some.inj
      ((Terms.fixed_of_unchanged hunchanged).symm.trans (Terms.fixed_of_unchanged hsame))
    have hself := hc v r.fetchedAt r.terms hvalues ht o.terms hterms
    rw [heq, hchanged] at hself
    cases hself
  -- The second load of the earlier record adds an observation.
  obtain ⟨s₂, hagain, -, -, hsameOffers⟩ :=
    hreloads s' (loadCalls_concat.mpr ⟨s, product, hcalls, hload⟩)
  obtain ⟨front, back, rfl⟩ := List.append_of_mem hc'
  rw [List.append_assoc, loadCalls_append] at hagain
  obtain ⟨a, hfront, hagain⟩ := hagain
  rw [List.cons_append, loadCalls_cons] at hagain
  obtain ⟨product', b, hsecond, hback⟩ := hagain
  have hgrows : Grows s'.offers a.offers := grows_loadCalls hfront
  have hgrows' : Grows a.offers b.offers := grows_loadRecord hsecond
  have hgrows'' : Grows b.offers s'.offers := hsameOffers ▸ grows_loadCalls hback
  have ha : a.offers = s'.offers := (hgrows.antisymm (hgrows'.trans hgrows'')).symm
  have hb : b.offers = a.offers := (hgrows'.antisymm (hgrows''.trans (ha ▸ .refl _))).symm
  obtain ⟨hids, hhas'⟩ := productOf_mergeOne hproducts (.inl hhas)
  obtain ⟨hids', -⟩ := productOf_loadCalls hhas' hfront
  obtain ⟨w, f, hw, -, -, hcase'⟩ := loadRecord_tables hsecond
  obtain ⟨rfl, rfl⟩ := Prod.mk.inj (Option.some.inj (hvalues'.symm.trans hw))
  have harows : ∀ q, a.offersOf q = s'.offersOf q := by
    intro q
    rw [offersOf, ha, offersOf]
  rcases hcase' with ⟨hno, -⟩ | ⟨t', ht'', hmoves'⟩
  · rw [ht'] at hno
    cases Except.ok.inj hno
  obtain rfl := Option.some.inj (Except.ok.inj (ht'.symm.trans ht''))
  rw [hids', hids, hreq'] at hmoves'
  cases hmoves' with
  | stays _ _ hplace' =>
    rw [harows, hproduct, hrows, latestOffer_congr (harows _), hlatest] at hplace'
    rcases hplace' with ⟨u, hu, huat, husha⟩ | ⟨latest', heq, hlate⟩
    · rcases List.mem_append.mp hu with hu | hu
      · exact hunknown ⟨u, hproduct ▸ hu, huat, husha⟩
      · obtain rfl := List.mem_singleton.mp hu
        exact hother ⟨huat.symm.trans hat, husha.symm.trans hsha⟩
    · obtain rfl := Option.some.inj heq
      exact absurd hlate (not_lt.mpr (hat ▸ hbefore))
  | prolongs latest' hfound _ hsame' _ _ =>
    rw [hproduct, latestOffer_congr (harows _), hlatest] at hfound
    obtain rfl := Option.some.inj hfound
    rw [hunlike] at hsame'
    cases hsame'
  | adds _ _ u _ _ _ _ _ hadded _ =>
    rw [hb] at hadded
    simpa using congrArg List.length hadded

/-- **A list of records may be loaded again**, with all its beginnings, iff no load of it adds an
observation that is not newer than an earlier record which is no observation of its own. -/
theorem reload_idempotent_iff (pg : Postgres) {db : Catalogue} (h : db.OffersKeyed)
    {calls : List LoadCall} (hcalls : ∀ c ∈ calls, Representable pg c) :
    (∀ front, front <+: calls → Reloads pg db front) ↔ NoneOvertaken pg db calls := by
  constructor
  · intro hreloads
    induction calls using List.reverseRecOn with
    | nil =>
      intro before c hstart
      exact absurd (List.prefix_nil.mp hstart) (by simp)
    | append_singleton calls c ih =>
      have hnone := ih (fun d hd => hcalls d (List.mem_append_left _ hd))
        fun front hfront => hreloads front (hfront.trans (List.prefix_append _ _))
      intro before d hstart s hbefore product s' hload
      rcases List.prefix_concat_iff.mp hstart with heq | hstart
      · obtain ⟨rfl, hcd⟩ := List.append_inj' heq rfl
        obtain rfl : d = c := by simpa using hcd
        exact (hreloads _ List.prefix_rfl).keepsPlaces h hnone (hcalls d (by simp)) hbefore hload
      · exact hnone before d hstart s hbefore product s' hload
  · intro hnone front hfront
    refine NoneOvertaken.reloads h fun before c hstart => ?_
    exact hnone before c (hstart.trans hfront)

/-! ## A run of the code -/

/-- Records of three days, in their order. -/
def threeDaysInOrder : List LoadCall :=
  [Loads.blueGlaze "10" "2026-08-08T00:00:00Z", Loads.blueGlaze "12" "2026-08-09T00:00:00Z",
    Loads.blueGlaze "10" "2026-08-10T00:00:00Z"]

theorem offersKeyed_empty : ({} : Catalogue).OffersKeyed := ⟨List.nodup_nil, fun _ h => nomatch h⟩

/-- Records of three days, in their order, are loaded again. -/
theorem reload_three_days :
    (∀ front, front <+: threeDaysInOrder → Reloads Loads.threeDays {} front) ↔
      NoneOvertaken Loads.threeDays {} threeDaysInOrder :=
  reload_idempotent_iff Loads.threeDays offersKeyed_empty (by decide)

/-- The price of the first day is seen again on the third, the record of the second day arrives, and
the list is loaded again: the price of the third day is observed once more. -/
theorem late_record_reloaded :
    (∀ c ∈ Loads.lateInsideInterval, Representable Loads.threeDays c) ∧
      ¬Reloads Loads.threeDays {} Loads.lateInsideInterval := by
  refine ⟨by decide, fun hreloads => ?_⟩
  let again (s : Catalogue) : Bool := (loadCalls Loads.threeDays s Loads.lateInsideInterval).toOption.any
    fun s' => decide (s'.offers ≠ s.offers)
  obtain ⟨s, hs, hagain⟩ : ∃ s, loadCalls Loads.threeDays {} Loads.lateInsideInterval = .ok s ∧
      again s = true := Transaction.exists_ok (by decide)
  obtain ⟨s', hs', hne⟩ := Transaction.exists_ok hagain
  obtain ⟨s₂, hs₂, -, -, hoffers⟩ := hreloads s hs
  obtain rfl := Except.ok.inj (hs'.symm.trans hs₂)
  exact absurd hoffers (of_decide_eq_true hne)

end Catalogue

end CommerceCollector
