import CommerceCollector.Transports.CacheKeys
import CommerceCollector.Transports.Robots

/-!
# Checks that share a fetch

A check that was not cancelled ends with a verdict, in every run in which no check is cancelled
while others wait for the same running fetch, none joins a fetch that was cancelled or ended in an
exception, and no fetch that is waited for ends in an exception other than `TransportFailure`.  What
carries this is that the fetch which such a check awaits was not asked to be cancelled and has not
ended in an exception.

While the rules of an origin are kept, no fetch of it begins.
-/

namespace CommerceCollector

variable {Parser : Type*} {python : Python} {config : RobotsConfig Parser}

/-- The fetch that a call awaits. -/
def RobotsCall.fetch (call : RobotsCall) : Option ℕ :=
  match call.phase with
  | .awaiting _ f => some f
  | .ended _ => none

/-- A fetch was not asked to be cancelled, and has not ended without rules. -/
def RobotsFetch.Sound (config : RobotsConfig Parser) (fetch : RobotsFetch) : Prop :=
  fetch.cancelRequested = false ∧ ∀ answer ∈ fetch.answer, (fetchRules config answer).isOk = true

instance (fetch : RobotsFetch) : Decidable (fetch.Sound config) :=
  inferInstanceAs (Decidable (_ ∧ _))

theorem fetchRules_response (status : ℕ) (text : String) :
    (fetchRules config (.response status text)).isOk = true := by
  simp only [fetchRules]
  split_ifs <;> rfl

namespace RobotsChecker

/-- Rules that a completed fetch of an origin gave. -/
def Completed (config : RobotsConfig Parser) (s : RobotsChecker Parser) (origin : String)
    (rules : RobotsRules Parser) : Prop :=
  ∃ fetch ∈ s.fetches, fetch.origin = origin ∧
    ∃ answer, fetch.answer = some answer ∧ fetchRules config answer = .ok rules

/-- The verdict of a completed fetch, or the one for URLs without an origin. -/
def Verdict (python : Python) (config : RobotsConfig Parser) (s : RobotsChecker Parser) (url : String)
    (verdict : Bool) : Prop :=
  (safeOrigin python url = none ∧ verdict = config.transportFailureDecision) ∨
    ∃ origin rules, safeOrigin python url = some origin ∧ s.Completed config origin rules ∧
      verdict = rules.allowed config url

/-- Every call that ended and was not cancelled has a verdict. -/
def Independent (python : Python) (config : RobotsConfig Parser) (s : RobotsChecker Parser) : Prop :=
  ∀ call ∈ s.calls, call.interrupted = false → ∀ outcome, call.phase = .ended outcome →
    ∃ verdict, outcome = .ok verdict ∧ s.Verdict python config call.url verdict

/-- The fetches of an origin that have begun. -/
def begun (s : RobotsChecker Parser) (origin : String) : ℕ :=
  s.fetches.countP fun fetch => fetch.origin = origin

/-- No call loses its fetch to another one: it joins no fetch that was cancelled or failed, no call
is cancelled while others that are not await the same running fetch, and no fetch that such a call
awaits ends in an exception that `_fetch_rules` does not catch. -/
def Orderly (python : Python) (config : RobotsConfig Parser) (s : RobotsChecker Parser) :
    RobotsAction → Prop
  | .allowed url => ∀ origin ∈ safeOrigin python url, (s.rules.lookup origin).isNone →
      ∀ f ∈ s.inflight.lookup origin, ∀ fetch ∈ s.fetches[f]?, fetch.Sound config
  | .cancel i => ∀ call ∈ s.calls[i]?, ∀ f ∈ call.fetch, ∀ fetch ∈ s.fetches[f]?,
      fetch.answer = none → ∀ other ∈ s.calls.eraseIdx i, other.fetch = some f →
        other.interrupted = true
  | .finish f (.raised _) => ∀ call ∈ s.calls, call.fetch = some f → call.interrupted = true
  | .finish _ _ => True
  | .resume _ => True

instance (s : RobotsChecker Parser) : ∀ a, Decidable (Orderly python config s a)
  | .allowed url => inferInstanceAs (Decidable (∀ origin ∈ safeOrigin python url,
      (s.rules.lookup origin).isNone → ∀ f ∈ s.inflight.lookup origin, ∀ fetch ∈ s.fetches[f]?,
        fetch.Sound config))
  | .cancel i => inferInstanceAs (Decidable (∀ call ∈ s.calls[i]?, ∀ f ∈ call.fetch,
      ∀ fetch ∈ s.fetches[f]?, fetch.answer = none → ∀ other ∈ s.calls.eraseIdx i,
        other.fetch = some f → other.interrupted = true))
  | .finish f (.raised _) => inferInstanceAs (Decidable (∀ call ∈ s.calls, call.fetch = some f →
      call.interrupted = true))
  | .finish _ (.response _ _) => inferInstanceAs (Decidable True)
  | .finish _ .transportFailure => inferInstanceAs (Decidable True)
  | .finish _ .cancelled => inferInstanceAs (Decidable True)
  | .resume _ => inferInstanceAs (Decidable True)

/-! ## Fetches only get on -/

/-- Every fetch is still there, with its origin and its answer. -/
def Grows (fetches later : List RobotsFetch) : Prop :=
  ∀ (f : ℕ) (fetch : RobotsFetch), fetches[f]? = some fetch → ∃ fetch' : RobotsFetch,
    later[f]? = some fetch' ∧ fetch'.origin = fetch.origin ∧
      ∀ answer, fetch.answer = some answer → fetch'.answer = some answer

theorem grows_append (fetches : List RobotsFetch) (fetch : RobotsFetch) :
    Grows fetches (fetches ++ [fetch]) := by
  intro f old h
  have hlt : f < fetches.length := (List.getElem?_eq_some_iff.mp h).1
  exact ⟨old, by rw [List.getElem?_append_left hlt]; exact h, rfl, fun _ ha => ha⟩

theorem grows_set {fetches : List RobotsFetch} {f : ℕ} {fetch fetch' : RobotsFetch}
    (hf : fetches[f]? = some fetch) (horigin : fetch'.origin = fetch.origin)
    (hanswer : ∀ answer, fetch.answer = some answer → fetch'.answer = some answer) :
    Grows fetches (fetches.set f fetch') := by
  intro g old h
  have hlt : f < fetches.length := (List.getElem?_eq_some_iff.mp hf).1
  by_cases hg : f = g
  · subst hg
    rw [hf] at h
    cases h
    exact ⟨fetch', List.getElem?_set_self hlt, horigin, hanswer⟩
  · exact ⟨old, by rw [List.getElem?_set_ne hg]; exact h, rfl, fun _ ha => ha⟩

variable {s s' : RobotsChecker Parser}

theorem Completed.mono {origin : String} {rules : RobotsRules Parser}
    (h : s.Completed config origin rules) (hgrows : Grows s.fetches s'.fetches) :
    s'.Completed config origin rules := by
  obtain ⟨fetch, hmem, horigin, answer, hanswer, hrules⟩ := h
  obtain ⟨f, hf⟩ := List.mem_iff_getElem?.mp hmem
  obtain ⟨fetch', hf', horigin', hanswer'⟩ := hgrows f fetch hf
  exact ⟨fetch', List.mem_of_getElem? hf', horigin'.trans horigin, answer, hanswer' answer hanswer,
    hrules⟩

theorem Verdict.mono {url : String} {verdict : Bool} (h : s.Verdict python config url verdict)
    (hgrows : Grows s.fetches s'.fetches) : s'.Verdict python config url verdict := by
  rcases h with hnone | ⟨origin, rules, horigin, hcompleted, hverdict⟩
  · exact Or.inl hnone
  · exact Or.inr ⟨origin, rules, horigin, hcompleted.mono hgrows, hverdict⟩

/-! ## What a call relies on -/

/-- What holds of a call: what it awaits is a fetch of its origin, which is sound if the call was
not cancelled, and what it ended with is a verdict in that case. -/
def CallOk (python : Python) (config : RobotsConfig Parser) (s : RobotsChecker Parser)
    (call : RobotsCall) : Prop :=
  match call.phase with
  | .awaiting origin f => safeOrigin python call.url = some origin ∧
      ∃ fetch, s.fetches[f]? = some fetch ∧ fetch.origin = origin ∧
        (call.interrupted = false → call.mustCancel = false ∧ fetch.Sound config)
  | .ended outcome => call.interrupted = false →
      ∃ verdict, outcome = .ok verdict ∧ s.Verdict python config call.url verdict

/-- What is kept comes from completed fetches, the map holds fetches of their origins, and the calls
rely on what there is. -/
structure Ready (python : Python) (config : RobotsConfig Parser) (s : RobotsChecker Parser) : Prop where
  rules : ∀ entry ∈ s.rules, s.Completed config entry.1 entry.2
  inflight : ∀ entry ∈ s.inflight, ∃ fetch, s.fetches[entry.2]? = some fetch ∧
    fetch.origin = entry.1
  calls : ∀ call ∈ s.calls, s.CallOk python config call

theorem mem_set_cases {α : Type*} {xs : List α} {i : ℕ} {x y : α} (h : y ∈ xs.set i x) :
    y = x ∨ ∃ j, j ≠ i ∧ xs[j]? = some y := by
  obtain ⟨j, hj⟩ := List.mem_iff_getElem?.mp h
  rw [List.getElem?_set] at hj
  split at hj
  · split at hj
    · exact Or.inl (Option.some.inj hj).symm
    · cases hj
  · rename_i hne
    exact Or.inr ⟨j, Ne.symm hne, hj⟩

theorem CallOk.mono {call : RobotsCall} (h : s.CallOk python config call)
    (hgrows : Grows s.fetches s'.fetches)
    (hsound : call.interrupted = false → ∀ f, call.fetch = some f → ∀ fetch fetch',
      s.fetches[f]? = some fetch → s'.fetches[f]? = some fetch' → fetch.Sound config →
        fetch'.Sound config) : s'.CallOk python config call := by
  unfold CallOk at h ⊢
  cases hphase : call.phase with
  | awaiting origin f =>
    simp only [hphase] at h
    obtain ⟨horigin, fetch, hf, hfetch, hok⟩ := h
    obtain ⟨fetch', hf', horigin', -⟩ := hgrows f fetch hf
    refine ⟨horigin, fetch', hf', horigin'.trans hfetch, fun hnot => ⟨(hok hnot).1, ?_⟩⟩
    exact hsound hnot f (by rw [RobotsCall.fetch, hphase]) fetch fetch' hf hf' (hok hnot).2
  | ended outcome =>
    simp only [hphase] at h
    intro hnot
    obtain ⟨verdict, houtcome, hverdict⟩ := h hnot
    exact ⟨verdict, houtcome, hverdict.mono hgrows⟩

/-- A call is as it was, if the fetches that there were are as they were. -/
theorem CallOk.same {call : RobotsCall} (h : s.CallOk python config call)
    (hsame : ∀ (f : ℕ) (fetch : RobotsFetch), s.fetches[f]? = some fetch →
      s'.fetches[f]? = some fetch) : s'.CallOk python config call := by
  refine h.mono (fun f fetch hf => ⟨fetch, hsame f fetch hf, rfl, fun _ ha => ha⟩) ?_
  intro _ f _ fetch fetch' hf hf' hsound
  rw [hsame f fetch hf] at hf'
  exact Option.some.inj hf' ▸ hsound

section

variable (h : s.Ready python config)

include h

/-- What a state relies on among its rules and its map stays, when the fetches get on. -/
theorem Ready.entries (s' : RobotsChecker Parser) (hgrows : Grows s.fetches s'.fetches)
    (hrules : s'.rules = s.rules) (hinflight : s'.inflight = s.inflight) :
    (∀ entry ∈ s'.rules, s'.Completed config entry.1 entry.2) ∧
      ∀ entry ∈ s'.inflight, ∃ fetch, s'.fetches[entry.2]? = some fetch ∧ fetch.origin = entry.1 := by
  constructor
  · intro entry hentry
    exact (h.rules entry (hrules ▸ hentry)).mono hgrows
  · intro entry hentry
    obtain ⟨fetch, hf, horigin⟩ := h.inflight entry (hinflight ▸ hentry)
    obtain ⟨fetch', hf', horigin', -⟩ := hgrows _ fetch hf
    exact ⟨fetch', hf', horigin'.trans horigin⟩

/-! ## Steps -/

theorem Ready.allowed {url : String}
    (horderly : s.Orderly python config (.allowed url)) :
    (s.allowed python config url).Ready python config := by
  have hkeep : ∀ call : RobotsCall, s.CallOk python config call →
      ({ s with calls := s.calls ++ [call] } : RobotsChecker Parser).Ready python config := by
    intro call hcall
    refine ⟨h.rules, h.inflight, fun other hother => ?_⟩
    rcases List.mem_append.mp hother with hold | hnew
    · exact h.calls other hold
    · rw [List.mem_singleton.mp hnew]
      exact hcall
  unfold RobotsChecker.allowed
  cases horigin : safeOrigin python url with
  | none => exact hkeep _ fun _ => ⟨_, rfl, Or.inl ⟨horigin, rfl⟩⟩
  | some origin =>
    dsimp only
    cases hrules : s.rules.lookup origin with
    | some rules =>
      exact hkeep _ fun _ => ⟨_, rfl, Or.inr ⟨origin, rules, horigin,
        h.rules (origin, rules) (Relational.mem_of_lookup hrules), rfl⟩⟩
    | none =>
      dsimp only
      cases hinflight : s.inflight.lookup origin with
      | some f =>
        obtain ⟨fetch, hf, hfetch⟩ := h.inflight (origin, f) (Relational.mem_of_lookup hinflight)
        exact hkeep _ ⟨horigin, fetch, hf, hfetch, fun _ =>
          ⟨rfl, horderly origin horigin (by rw [hrules]; rfl) f hinflight fetch hf⟩⟩
      | none =>
        -- a fetch begins, at the end of the list
        have hgrows := grows_append s.fetches ({ origin } : RobotsFetch)
        have hnew : (s.fetches ++ [({ origin } : RobotsFetch)])[s.fetches.length]? =
            some ({ origin } : RobotsFetch) := by simp
        refine ⟨fun entry hentry => (h.rules entry hentry).mono hgrows, fun entry hentry => ?_,
          fun call hcall => ?_⟩
        · rcases List.mem_append.mp hentry with hold | hlast
          · obtain ⟨fetch, hf, hfetch⟩ := h.inflight entry hold
            obtain ⟨fetch', hf', horigin', -⟩ := hgrows _ fetch hf
            exact ⟨fetch', hf', horigin'.trans hfetch⟩
          · rw [List.mem_singleton.mp hlast]
            exact ⟨_, hnew, rfl⟩
        · rcases List.mem_append.mp hcall with hold | hlast
          · refine (h.calls call hold).same fun f fetch hf => ?_
            have hlt : f < s.fetches.length := (List.getElem?_eq_some_iff.mp hf).1
            exact (List.getElem?_append_left hlt).trans hf
          · rw [List.mem_singleton.mp hlast]
            exact ⟨horigin, _, hnew, rfl, fun _ => ⟨rfl, rfl, fun _ ha => nomatch ha⟩⟩

theorem Ready.cancel {i : ℕ}
    (horderly : s.Orderly python config (.cancel i)) : (s.cancel i).Ready python config := by
  unfold RobotsChecker.cancel
  cases hi : s.calls[i]? with
  | none => exact h
  | some call =>
    have hcall := h.calls call (List.mem_of_getElem? hi)
    dsimp only
    cases hphase : call.phase with
    | ended outcome => exact h
    | awaiting origin f =>
      unfold CallOk at hcall
      simp only [hphase] at hcall
      obtain ⟨horigin, fetch, hf, hfetch, -⟩ := hcall
      simp only [hf]
      split
      · rename_i hrunning
        have hgrows : Grows s.fetches (s.fetches.set f { fetch with cancelRequested := true }) :=
          grows_set hf rfl fun _ ha => ha
        obtain ⟨hrules, hinflight⟩ := h.entries
          ({ s with fetches := s.fetches.set f { fetch with cancelRequested := true } } :
            RobotsChecker Parser) hgrows rfl rfl
        refine ⟨hrules, hinflight, fun other hother => ?_⟩
        rcases mem_set_cases hother with rfl | ⟨j, hj, hother⟩
        · obtain ⟨fetch', hf', horigin', -⟩ := hgrows f fetch hf
          exact ⟨horigin, fetch', hf', horigin'.trans hfetch, fun hnot => nomatch hnot⟩
        · refine (h.calls other (List.mem_of_getElem? hother)).mono hgrows ?_
          intro hnot g hawaits old new hold hnew hsound
          have hne : f ≠ g := by
            rintro rfl
            have htrue := horderly call hi f (by rw [RobotsCall.fetch, hphase]; rfl) fetch hf
              hrunning other (List.mem_eraseIdx_iff_getElem?.mpr ⟨j, hj, hother⟩) hawaits
            rw [hnot] at htrue
            cases htrue
          have hnew' : (s.fetches.set f { fetch with cancelRequested := true })[g]? = some new := hnew
          rw [List.getElem?_set_ne hne, hold] at hnew'
          exact Option.some.inj hnew' ▸ hsound
      · refine ⟨h.rules, h.inflight, fun other hother => ?_⟩
        rcases mem_set_cases hother with rfl | ⟨j, hj, hother⟩
        · exact ⟨horigin, fetch, hf, hfetch, fun hnot => nomatch hnot⟩
        · exact h.calls other (List.mem_of_getElem? hother)

theorem Ready.finish {f : ℕ} {answer : RobotsAnswer}
    (horderly : s.Orderly python config (.finish f answer)) :
    (s.finish f answer).Ready python config := by
  unfold RobotsChecker.finish
  cases hf : s.fetches[f]? with
  | none => exact h
  | some fetch =>
    dsimp only
    split
    · rename_i hends
      obtain ⟨hrunning, hcancelled⟩ := hends
      have hgrows : Grows s.fetches (s.fetches.set f { fetch with answer := some answer }) :=
        grows_set hf rfl fun a ha => by rw [hrunning] at ha; cases ha
      obtain ⟨hrules, hinflight⟩ := h.entries
        ({ s with fetches := s.fetches.set f { fetch with answer := some answer } } :
          RobotsChecker Parser) hgrows rfl rfl
      refine ⟨hrules, hinflight, fun call hcall => (h.calls call hcall).mono hgrows ?_⟩
      intro hnot g hawaits old new hold hnew hsound
      have hnew' : (s.fetches.set f { fetch with answer := some answer })[g]? = some new := hnew
      by_cases hg : f = g
      · subst hg
        rw [List.getElem?_set_self (List.getElem?_eq_some_iff.mp hf).1] at hnew'
        rw [hf] at hold
        cases hold
        cases hnew'
        refine ⟨hsound.1, fun a ha => ?_⟩
        cases ha
        cases answer with
        | response status text => exact fetchRules_response status text
        | transportFailure => rfl
        | raised error =>
          have htrue := horderly call hcall hawaits
          rw [hnot] at htrue
          cases htrue
        | cancelled =>
          have hrequested := hcancelled rfl
          rw [hsound.1] at hrequested
          cases hrequested
      · rw [List.getElem?_set_ne hg, hold] at hnew'
        exact Option.some.inj hnew' ▸ hsound
    · exact h

/-- Rules of a completed fetch that are kept, or those that are kept already. -/
theorem Ready.keep {origin : String} {rules : RobotsRules Parser}
    (hcompleted : s.Completed config origin rules) :
    (∀ entry ∈ (s.keep config origin rules).1.rules, s.Completed config entry.1 entry.2) ∧
      s.Completed config origin (s.keep config origin rules).2 := by
  unfold RobotsChecker.keep
  cases hlookup : s.rules.lookup origin with
  | some existing => exact ⟨h.rules, h.rules (origin, existing) (Relational.mem_of_lookup hlookup)⟩
  | none =>
    refine ⟨fun entry hentry => ?_, hcompleted⟩
    rcases List.mem_append.mp hentry with hold | hnew
    · refine h.rules entry ?_
      split at hold
      · exact List.mem_of_mem_drop hold
      · exact hold
    · rw [List.mem_singleton.mp hnew]
      exact hcompleted

end

theorem keep_frame (config : RobotsConfig Parser) (s : RobotsChecker Parser) (origin : String) (rules : RobotsRules Parser) :
    (s.keep config origin rules).1.fetches = s.fetches ∧
      (s.keep config origin rules).1.inflight = s.inflight ∧
      (s.keep config origin rules).1.calls = s.calls := by
  unfold RobotsChecker.keep
  split <;> exact ⟨rfl, rfl, rfl⟩

theorem Ready.resume (h : s.Ready python config) (i : ℕ) :
    (s.resume config i).Ready python config := by
  unfold RobotsChecker.resume
  cases hi : s.calls[i]? with
  | none => exact h
  | some call =>
    have hcall := h.calls call (List.mem_of_getElem? hi)
    dsimp only
    cases hphase : call.phase with
    | ended outcome => exact h
    | awaiting origin f =>
      unfold CallOk at hcall
      simp only [hphase] at hcall
      obtain ⟨horigin, fetch, hf, hfetch, hok⟩ := hcall
      simp only [hf, Option.bind_some]
      cases hanswer : fetch.answer with
      | none => exact h
      | some answer =>
        dsimp only
        -- the map without the origin is part of the map
        have hpopped : ({ s with inflight := s.inflight.filter fun entry => entry.1 ≠ origin } :
            RobotsChecker Parser).Ready python config :=
          ⟨h.rules, fun entry hentry => h.inflight entry (List.mem_of_mem_filter hentry), h.calls⟩
        have hput : ∀ (t : RobotsChecker Parser) (outcome : Except RobotsError Bool),
            t.fetches = s.fetches → t.calls = s.calls →
            (∀ entry ∈ t.rules, s.Completed config entry.1 entry.2) →
            (∀ entry ∈ t.inflight, ∃ fetch, s.fetches[entry.2]? = some fetch ∧
              fetch.origin = entry.1) →
            s.CallOk python config { call with phase := .ended outcome } →
            (t.put i { call with phase := .ended outcome }).Ready python config := by
          intro t outcome hfetches hcalls hrules hinflight hended
          have hsame : ∀ (f : ℕ) (fetch : RobotsFetch), s.fetches[f]? = some fetch →
              (t.put i { call with phase := .ended outcome }).fetches[f]? = some fetch := by
            intro f fetch hf
            exact (congrArg (·[f]?) hfetches).trans hf
          have hgrows : Grows s.fetches (t.put i { call with phase := .ended outcome }).fetches :=
            fun f fetch hf => ⟨fetch, hsame f fetch hf, rfl, fun _ ha => ha⟩
          refine ⟨fun entry hentry => (hrules entry hentry).mono hgrows, fun entry hentry => ?_,
            fun other hother => ?_⟩
          · obtain ⟨fetch, hf, hfetch⟩ := hinflight entry hentry
            exact ⟨fetch, hsame _ fetch hf, hfetch⟩
          · rcases mem_set_cases hother with rfl | ⟨j, hj, hother⟩
            · exact hended.same hsame
            · rw [hcalls] at hother
              exact (h.calls other (List.mem_of_getElem? hother)).same hsame
        cases hresult : (if call.mustCancel then Except.error RobotsError.cancelled
            else fetchRules config answer) with
        | error error =>
          refine hput _ _ rfl rfl hpopped.rules hpopped.inflight fun hnot => ?_
          obtain ⟨hmust, hsound⟩ := hok hnot
          have hok := hsound.2 answer hanswer
          rw [hmust, if_neg Bool.false_ne_true] at hresult
          rw [hresult] at hok
          cases hok
        | ok rules =>
          have hrules : fetchRules config answer = .ok rules := by
            split at hresult
            · cases hresult
            · exact hresult
          have hcompleted : s.Completed config origin rules :=
            ⟨fetch, List.mem_of_getElem? hf, hfetch, answer, hanswer, hrules⟩
          obtain ⟨hkept, hmine⟩ := hpopped.keep hcompleted
          obtain ⟨hfetches, hinflight, hcalls⟩ := keep_frame config
            { s with inflight := s.inflight.filter fun entry => entry.1 ≠ origin } origin rules
          refine hput _ _ hfetches hcalls hkept ?_ fun _ => ⟨_, rfl, Or.inr ⟨origin, _, horigin,
            hmine, rfl⟩⟩
          rw [hinflight]
          exact hpopped.inflight

theorem Ready.step (h : s.Ready python config) {a : RobotsAction}
    (horderly : s.Orderly python config a) : (s.step python config a).Ready python config := by
  cases a with
  | allowed url => exact h.allowed horderly
  | cancel i => exact h.cancel horderly
  | finish f answer => exact h.finish horderly
  | resume i => exact h.resume i

theorem Ready.independent (h : s.Ready python config) : s.Independent python config := by
  intro call hcall hnot outcome hphase
  have hok := h.calls call hcall
  unfold CallOk at hok
  simp only [hphase] at hok
  exact hok hnot

/-! ## Fetches that begin -/

theorem countP_set_origin {fetches : List RobotsFetch} {f : ℕ} {fetch fetch' : RobotsFetch}
    (hf : fetches[f]? = some fetch) (horigin : fetch'.origin = fetch.origin) (origin : String) :
    (fetches.set f fetch').countP (fun fetch => fetch.origin = origin) =
      fetches.countP fun fetch => fetch.origin = origin := by
  induction fetches generalizing f with
  | nil => rfl
  | cons first rest ih =>
    cases f with
    | zero =>
      rw [List.getElem?_cons_zero] at hf
      cases hf
      rw [List.set_cons_zero, List.countP_cons, List.countP_cons, horigin]
    | succ f =>
      rw [List.getElem?_cons_succ] at hf
      rw [List.set_cons_succ, List.countP_cons, List.countP_cons, ih hf]

/-- **While the rules of an origin are kept, no fetch of it begins.** -/
theorem begun_step_of_kept (python : Python) (config : RobotsConfig Parser) (s : RobotsChecker Parser)
    (a : RobotsAction) {origin : String} (hkept : (s.rules.lookup origin).isSome) :
    (s.step python config a).begun origin = s.begun origin := by
  cases a with
  | allowed url =>
    simp only [step, RobotsChecker.allowed]
    split
    · rfl
    · rename_i found hfound
      split
      · rfl
      · rename_i hnone
        split
        · rfl
        · have hne : found ≠ origin := by
            rintro rfl
            rw [hnone] at hkept
            cases hkept
          simp [begun, hne]
  | cancel i =>
    simp only [step, RobotsChecker.cancel]
    split
    · split
      · rfl
      · split
        · rfl
        · rename_i fetch hf
          split
          · exact countP_set_origin hf (by rfl) origin
          · rfl
    · rfl
  | finish f answer =>
    simp only [step, RobotsChecker.finish]
    split
    · rfl
    · rename_i fetch hf
      split
      · exact countP_set_origin hf (by rfl) origin
      · rfl
  | resume i =>
    simp only [step, RobotsChecker.resume]
    split
    · split
      · rfl
      · split
        · rfl
        · split
          · rfl
          · exact congrArg (List.countP _) (keep_frame _ _ _ _).1
    · rfl

/-- **Robots lookups are independent.**  In every orderly run, a call that was not cancelled ends
with the verdict of a completed fetch or with the one for what cannot be fetched, and no fetch of an
origin begins while its rules are kept. -/
theorem lookups_independent (python : Python) (config : RobotsConfig Parser)
    (actions : List RobotsAction)
    (h : Trace.Along (RobotsChecker.step python config) (Orderly python config) {} actions) :
    let s := Trace.exec (RobotsChecker.step python config) {} actions
    s.Independent python config ∧ ∀ (a : RobotsAction) (origin : String),
      (s.rules.lookup origin).isSome → (s.step python config a).begun origin = s.begun origin := by
  intro s
  have hready : s.Ready python config :=
    Trace.exec_invariant_of_along (RobotsChecker.step python config)
      (I := fun s => s.Ready python config) (fun _ _ horderly hready => hready.step horderly)
      ⟨fun _ h => (nomatch h), fun _ h => (nomatch h), fun _ h => nomatch h⟩ h
  exact ⟨hready.independent, fun a _ hkept => begun_step_of_kept python config s a hkept⟩

/-- A checker that denies what it cannot fetch, and a parser that allows everything. -/
def denying : RobotsConfig Unit where
  userAgent := "*"
  transportFailureDecision := false
  serverFailureDecision := false
  maximumOrigins := 1000
  maximumOrigins_pos := by decide
  parse _ := ()
  canFetch _ _ _ := true

/-- Two calls share a fetch, and one of them is cancelled when the fetch is over. -/
theorem cancelled_behind_fetch :
    (Trace.exec (RobotsChecker.step asciiPython denying) {} [.allowed "http://a/b",
      .allowed "http://a/c", .finish 0 (.response 404 ""), .cancel 0, .resume 0,
      .resume 1]).Independent asciiPython denying :=
  (lookups_independent asciiPython denying _ (by decide +kernel)).1

/-- Two calls share a fetch, and the one that is not cancelled ends in `CancelledError`. -/
theorem cancelled_with_another :
    ¬RobotsChecker.Independent asciiPython denying
      (Trace.exec (RobotsChecker.step asciiPython denying) {} [.allowed "http://a/b",
        .allowed "http://a/c", .cancel 0, .finish 0 .cancelled, .resume 0, .resume 1]) := by
  intro h
  have hcall : (Trace.exec (RobotsChecker.step asciiPython denying) {} [.allowed "http://a/b",
      .allowed "http://a/c", .cancel 0, .finish 0 .cancelled, .resume 0, .resume 1]).calls[1]? =
        some { url := "http://a/c", phase := .ended (.error .cancelled) } := by
    decide +kernel
  obtain ⟨verdict, hverdict, -⟩ := h _ (List.mem_of_getElem? hcall) rfl _ rfl
  cases hverdict

end RobotsChecker

end CommerceCollector
