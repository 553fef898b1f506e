import CommerceCollector.Proxy.MutationScripts

/-!
# Interleaved mutations

Requests of any actors interleave at every question.  The table of the operations answers the
questions for a row, everything else is answered by the schedule, which may also raise an exception
at any question; a call that raises one may have changed something at the provider all the same.

A key has at most one operation, and the provider is called at most once for it.  A replay is
answered from a request with the same actor, action and key, which need not be about the same
profile: the action does not name it.  An operation that has not been finished is being worked on,
unless its request has ended with an exception; such an operation stays as it is, and its key is
refused.
-/

namespace CommerceCollector

open Relational Scripts Tasks

namespace Mutations

/-! ## The table and the requests -/

/-- The unique key of `catalogue.proxy_mutation_requests`. -/
structure Ticket where
  actor : String
  action : String
  idempotencyKey : String
  deriving DecidableEq, Repr

/-- The key of a row. -/
def MutationRow.ticket (row : MutationRow) : Ticket := ⟨row.actor, row.action, row.idempotencyKey⟩

/-- The key of a request. -/
def Request.ticket (r : Request) : Ticket := ⟨r.actor, r.kind.action, r.key.getD ""⟩

/-- What a request is about: the provider, and the logical name or the id of the profile. -/
def Request.subject (r : Request) : String × String :=
  (r.provider,
    match r.kind with
    | .createProfile body => (body.map CreateBody.logicalName).getD ""
    | .profileAction profileId _ _ => profileId
    | .killSwitch _ _ => ""
    | .reconcileAction => "")

/-- A row with the request that inserted it. -/
structure Operation where
  row : MutationRow
  request : Request
  deriving DecidableEq, Repr

/-- The id of an operation. -/
def Operation.id (o : Operation) : ℕ := o.row.operationId

/-- The key of an operation. -/
def Operation.ticket (o : Operation) : Ticket := o.row.ticket

/-- The update of `finish_mutation`. -/
def Operation.finish (o : Operation) (status : ℕ) (data : Payload) (state : MutationState) :
    Operation :=
  { o with row := { o.row with state, responseStatus := some status, responseData := some data } }

@[simp] theorem finish_id (status : ℕ) (data : Payload) (state : MutationState) (o : Operation) :
    (o.finish status data state).id = o.id := rfl

@[simp] theorem finish_ticket (status : ℕ) (data : Payload) (state : MutationState) (o : Operation) :
    (o.finish status data state).ticket = o.ticket := rfl

/-- The table, with an account of the calls of the provider for each key, and of the replays: the
request that was answered, and the one whose record answered it. -/
structure MutationTable where
  operations : List Operation := []
  calls : List Ticket := []
  replays : List (Request × Request) := []
  deriving DecidableEq, Repr

/-- A suspended request: what is left of it, the profile that it found, and its operation if it has
begun one. -/
structure MutationTask where
  request : Request
  script : Handler Response
  found : Option ActionProfile := none
  operation : Option ℕ := none
  closed : Bool := false

/-! ## Steps -/

/-- The row of a key. -/
def MutationTable.lookup (s : MutationTable) (ticket : Ticket) : Option Operation :=
  s.operations.find? fun o => o.ticket == ticket

/-- The next operation id. -/
def MutationTable.fresh (s : MutationTable) : ℕ :=
  freshKey Operation.id s.operations

/-- The reply to a question: the table answers those about its rows. -/
def MutationTable.reply (s : MutationTable) (r : Request)
    (outside : ∀ q : Question, q.Reply) : (q : Question) → q.Reply
  | .insertRequest action key =>
    if (s.lookup ⟨r.actor, action, key⟩).isSome then none else some s.fresh
  | .selectRequest action key => (s.lookup ⟨r.actor, action, key⟩).map Operation.row
  | q => outside q

/-- The table with the row of a new operation. -/
def MutationTable.insert (s : MutationTable) (r : Request) (action key : String) : MutationTable :=
  { s with operations := s.operations ++
      [⟨{ operationId := s.fresh, actor := r.actor, action, idempotencyKey := key }, r⟩] }

/-- The table with a finished operation. -/
def MutationTable.finish (s : MutationTable) (operationId status : ℕ) (data : Payload)
    (state : MutationState) : MutationTable :=
  { s with
    operations := update (fun o => o.id == operationId)
      (·.finish status data state) s.operations }

/-- What a question does to the table. -/
def MutationTable.apply (s : MutationTable) (r : Request) : Question → MutationTable
  | .insertRequest action key =>
    if (s.lookup ⟨r.actor, action, key⟩).isSome then s
    else s.insert r action key
  | .selectRequest action key =>
    match s.lookup ⟨r.actor, action, key⟩ with
    | none => s
    | some o =>
      if o.row.state = .started then s else { s with replays := s.replays ++ [(r, o.request)] }
  | .finish operationId status data state =>
    s.finish operationId status data state
  | .call => { s with calls := s.calls ++ [r.ticket] }
  | .reconcile => { s with calls := s.calls ++ [r.ticket] }
  | _ => s

/-- What a reply tells about a request. -/
def MutationTask.note (t : MutationTask) : (q : Question) → q.Reply → MutationTask
  | .profile, reply => { t with found := reply }
  | .insertRequest _ _, reply => { t with operation := reply }
  | .finish _ _ _ _, _ => { t with closed := true }
  | _, _ => t

/-- A request goes on to its next question.  No answer is an exception, after which only what was
done outside of the database may have happened. -/
def resume (s : MutationTable) (t : MutationTask) (answer : Option (∀ q : Question, q.Reply)) :
    MutationTable × Option MutationTask :=
  match t.script with
  | .done _ => (s, none)
  | .fail => (s, none)
  | .ask q next =>
    match answer with
    | none => (if q.touches = true then s.apply t.request q else s, none)
    | some outside =>
      (s.apply t.request q,
        some { t.note q (s.reply t.request outside q) with
          script := next (s.reply t.request outside q) })

/-- The requests of the control plane. -/
def requests (proxyEnabled : Bool) :
    Program MutationTable MutationTask Request (Option (∀ q : Question, q.Reply)) where
  start r := { request := r, script := r.script proxyEnabled }
  run := resume

/-! ## The invariant -/

/-- What holds of the table; `D` is a property of all requests. -/
structure MutationTable.Held (D : Request → Prop) (s : MutationTable) : Prop where
  keys : Keyed Operation.ticket s.operations
  ids : Keyed Operation.id s.operations
  replayable : ∀ o ∈ s.operations, Replayable o.row
  origins : ∀ o ∈ s.operations, o.request.ticket = o.ticket ∧ D o.request
  replays : ∀ p ∈ s.replays, p.1.ticket = p.2.ticket ∧ p.1.ticket.idempotencyKey ≠ "" ∧ D p.1 ∧ D p.2
  once : ∀ k, s.calls.count k ≤ 1
  called : ∀ k ∈ s.calls, ∃ o ∈ s.operations, o.ticket = k

/-- What holds of a request: it is opening, or it works on an operation of its own. -/
structure MutationTask.Valid (D : Request → Prop) (calm : Prop) (s : MutationTable)
    (t : MutationTask) : Prop where
  request : D t.request
  opening : t.operation = none → t.closed = false ∧ Opening (t.request.Working calm)
    t.request.kind.action (t.request.key.getD "") t.found t.script
  working : ∀ id ∈ t.operation, ∃ n, Works (Fits t.request.kind t.found) calm id n t.closed t.script ∧
    s.calls.count t.request.ticket + n ≤ 1
  own : ∀ id ∈ t.operation, ∃ o ∈ s.operations, o.id = id ∧
    o.ticket = t.request.ticket ∧ (t.closed = false → o.row.state = .started)

/-- Two requests work on different operations. -/
def MutationTask.Apart (t u : MutationTask) : Prop :=
  ∀ id ∈ t.operation, id ∉ u.operation

/-- No exception ends the request before it has finished its operation, and the replies to it are
those on which it raises none. -/
def MutationTask.Calm (t : MutationTask) : Option (∀ q : Question, q.Reply) → Prop
  | none => t.operation.isSome = true → t.closed = true
  | some outside =>
    match t.script with
    | .ask q _ => t.operation.isSome = true → Fits t.request.kind t.found q (outside q)
    | _ => True

instance (kind : RequestKind) (found : Option ActionProfile) :
    ∀ (q : Question) (reply : q.Reply), Decidable (Fits kind found q reply)
  | .call, reply => inferInstanceAs (Decidable (reply = .localError → kind.catches = true))
  | .active, _ => inferInstanceAs (Decidable (¬ kind.Raises found))
  | .profile, _ => inferInstanceAs (Decidable True)
  | .capacity, _ => inferInstanceAs (Decidable True)
  | .number, _ => inferInstanceAs (Decidable True)
  | .row, _ => inferInstanceAs (Decidable True)
  | .returning, _ => inferInstanceAs (Decidable True)
  | .statement, _ => inferInstanceAs (Decidable True)
  | .install, _ => inferInstanceAs (Decidable True)
  | .reconcile, _ => inferInstanceAs (Decidable True)
  | .insertRequest _ _, _ => inferInstanceAs (Decidable True)
  | .selectRequest _ _, _ => inferInstanceAs (Decidable True)
  | .finish _ _ _ _, _ => inferInstanceAs (Decidable True)

instance (t : MutationTask) : ∀ answer, Decidable (t.Calm answer)
  | none => inferInstanceAs (Decidable (t.operation.isSome = true → t.closed = true))
  | some outside =>
    match h : t.script with
    | .ask q _ =>
      decidable_of_iff (t.operation.isSome = true → Fits t.request.kind t.found q (outside q))
        (by rw [MutationTask.Calm, h])
    | .done _ => isTrue (by rw [MutationTask.Calm, h]; trivial)
    | .fail => isTrue (by rw [MutationTask.Calm, h]; trivial)

/-! ## What a question does -/

/-- The changes of the table by a request. -/
inductive Change (s : MutationTable) (t : MutationTask) : MutationTable → Prop
  | nothing : Change s t s
  | begins (idle : t.operation = none) (new : s.lookup t.request.ticket = none) :
    Change s t (s.insert t.request t.request.kind.action (t.request.key.getD ""))
  | replays (idle : t.operation = none) {o : Operation} (mem : o ∈ s.operations)
    (same : o.ticket = t.request.ticket) (given : t.request.ticket.idempotencyKey ≠ "") :
    Change s t { s with replays := s.replays ++ [(t.request, o.request)] }
  | finishes {id status : ℕ} {data : Payload} {state : MutationState} (own : id ∈ t.operation)
    (hstatus : status ≠ 0) (hstate : state ≠ .started) :
    Change s t (s.finish id status data state)
  | calls {id : ℕ} (own : id ∈ t.operation) (first : s.calls.count t.request.ticket = 0) :
    Change s t { s with calls := s.calls ++ [t.request.ticket] }

variable {D : Request → Prop} {calm : Prop} {s : MutationTable} {t u : MutationTask}

theorem lookup_some {k : Ticket} {o : Operation} (h : s.lookup k = some o) :
    o ∈ s.operations ∧ o.ticket = k := by
  obtain ⟨hmem, hkey⟩ := mem_of_find? h
  exact ⟨hmem, beq_iff_eq.mp hkey⟩

theorem lookup_none {k : Ticket} (h : s.lookup k = none) : ∀ o ∈ s.operations, o.ticket ≠ k := by
  intro o ho heq
  exact List.find?_eq_none.mp h o ho (beq_iff_eq.mpr heq)

theorem insert_new {r : Request} (h : s.lookup r.ticket = none) :
    s.apply r (.insertRequest r.kind.action (r.key.getD "")) =
        s.insert r r.kind.action (r.key.getD "") ∧
      ∀ outside, s.reply r outside (.insertRequest r.kind.action (r.key.getD "")) = some s.fresh := by
  have hnone : ¬ (s.lookup r.ticket).isSome = true := by
    rw [h]
    exact Bool.false_ne_true
  exact ⟨if_neg hnone, fun _ => if_neg hnone⟩

theorem insert_found {r : Request} {o : Operation} (h : s.lookup r.ticket = some o) :
    s.apply r (.insertRequest r.kind.action (r.key.getD "")) = s ∧
      ∀ outside, s.reply r outside (.insertRequest r.kind.action (r.key.getD "")) = none := by
  have hsome : (s.lookup r.ticket).isSome = true := Option.isSome_iff_exists.mpr ⟨o, h⟩
  exact ⟨if_pos hsome, fun _ => if_pos hsome⟩

/-- **What the question of a request does.** -/
theorem change_apply (hJ : t.Valid D calm s) {q : Question} {next : q.Reply → Handler Response}
    (hscript : t.script = .ask q next) : Change s t (s.apply t.request q) := by
  cases hop : t.operation with
  | none =>
    have hopening := (hJ.opening hop).2
    rw [hscript] at hopening
    cases hopening with
    | profile h => exact .nothing
    | insert given new old =>
      cases hlookup : s.lookup t.request.ticket with
      | none =>
        rw [(insert_new hlookup).1]
        exact .begins hop hlookup
      | some o =>
        rw [(insert_found hlookup).1]
        exact .nothing
    | select given h =>
      have happly : s.apply t.request (.selectRequest t.request.kind.action
          (t.request.key.getD "")) = match s.lookup t.request.ticket with
            | none => s
            | some o => if o.row.state = .started then s
              else { s with replays := s.replays ++ [(t.request, o.request)] } := rfl
      rw [happly]
      cases hlookup : s.lookup t.request.ticket with
      | none => exact .nothing
      | some o =>
        dsimp only
        split
        · exact .nothing
        · exact .replays hop (lookup_some hlookup).1 (lookup_some hlookup).2 given
  | some id =>
    obtain ⟨n, hworks, hcount⟩ := hJ.working id hop
    rw [hscript] at hworks
    have hproper := hworks.every.1
    have hcalls := hworks.atMost.1
    cases q with
    | finish operationId status data state =>
      obtain ⟨rfl, hstatus, hstate⟩ := hproper
      exact .finishes hop hstatus hstate
    | call => exact .calls hop (by have := hcalls rfl; omega)
    | reconcile => exact .calls hop (by have := hcalls rfl; omega)
    | profile => exact hproper.elim
    | insertRequest action key => exact hproper.elim
    | selectRequest action key => exact hproper.elim
    | _ => exact .nothing

theorem replayable_finish {o : Operation} {status : ℕ} {data : Payload} {state : MutationState}
    (hstatus : status ≠ 0) : Replayable (o.finish status data state).row :=
  fun _ => hstatus

theorem mem_finish {id status : ℕ} {data : Payload} {state : MutationState} {o' : Operation} :
    o' ∈ (s.finish id status data state).operations ↔
      ∃ o ∈ s.operations, (if o.id = id then o.finish status data state else o) = o' := by
  simp [MutationTable.finish, mem_update]

theorem mem_insert {r : Request} {action key : String} {o : Operation} :
    o ∈ (s.insert r action key).operations ↔ o ∈ s.operations ∨
      o = ⟨{ operationId := s.fresh, actor := r.actor, action, idempotencyKey := key }, r⟩ := by
  simp [MutationTable.insert]

theorem count_eq_zero (hI : s.Held D) {k : Ticket} (h : s.lookup k = none) : s.calls.count k = 0 := by
  refine List.count_eq_zero.mpr fun hmem => ?_
  obtain ⟨o, ho, hticket⟩ := hI.called k hmem
  exact lookup_none h o ho hticket

theorem Change.held {s' : MutationTable} (h : Change s t s') (hI : s.Held D)
    (hJ : t.Valid D calm s) : s'.Held D := by
  cases h with
  | nothing => exact hI
  | begins idle new =>
    refine ⟨?_, ?_, fun o ho => ?_, fun o ho => ?_, hI.replays, hI.once, fun k hk => ?_⟩
    · exact hI.keys.append fun o ho => lookup_none new o ho
    · exact hI.ids.append_fresh rfl
    · rcases mem_insert.mp ho with hold | rfl
      · exact hI.replayable o hold
      · exact fun hstarted => absurd rfl hstarted
    · rcases mem_insert.mp ho with hold | rfl
      · exact hI.origins o hold
      · exact ⟨rfl, hJ.request⟩
    · obtain ⟨o, ho, hticket⟩ := hI.called k hk
      exact ⟨o, mem_insert.mpr (Or.inl ho), hticket⟩
  | replays idle mem same given =>
    refine { hI with replays := fun p hp => ?_ }
    rcases List.mem_append.mp hp with hold | hnew
    · exact hI.replays p hold
    · rw [List.mem_singleton.mp hnew]
      obtain ⟨hticket, hD⟩ := hI.origins _ mem
      exact ⟨same.symm.trans hticket.symm, given, hJ.request, hD⟩
  | finishes own hstatus hstate =>
    refine ⟨hI.keys.update fun _ => rfl, hI.ids.update fun _ => rfl, fun o' ho' => ?_,
      fun o' ho' => ?_, hI.replays, hI.once, fun k hk => ?_⟩
    · obtain ⟨o, ho, rfl⟩ := mem_finish.mp ho'
      split
      · exact replayable_finish hstatus
      · exact hI.replayable o ho
    · obtain ⟨o, ho, rfl⟩ := mem_finish.mp ho'
      split
      · exact hI.origins o ho
      · exact hI.origins o ho
    · obtain ⟨o, ho, hticket⟩ := hI.called k hk
      refine ⟨_, mem_finish.mpr ⟨o, ho, rfl⟩, ?_⟩
      split
      · exact hticket
      · exact hticket
  | calls own first =>
    refine { hI with once := fun k => ?_, called := fun k hk => ?_ }
    · rw [List.count_append, List.count_singleton]
      by_cases hk : t.request.ticket = k
      · rw [← hk, first]
        simp
      · have hbeq : (t.request.ticket == k) = false := beq_eq_false_iff_ne.mpr hk
        simpa [hbeq] using hI.once k
    · rcases List.mem_append.mp hk with hold | hnew
      · exact hI.called k hold
      · obtain ⟨o, ho, -, hticket, -⟩ := hJ.own _ own
        exact ⟨o, ho, hticket.trans (List.mem_singleton.mp hnew).symm⟩

theorem ticket_ne (hI : s.Held D) (ht : t.Valid D calm s) (hu : u.Valid D calm s) (hK : u.Apart t)
    {id id' : ℕ} (hid : id ∈ t.operation) (hid' : id' ∈ u.operation) :
    t.request.ticket ≠ u.request.ticket := by
  intro heq
  obtain ⟨o, ho, hrow, hticket, -⟩ := ht.own id hid
  obtain ⟨o', ho', hrow', hticket', -⟩ := hu.own id' hid'
  have hsame : o = o' := hI.keys.eq_of_mem ho ho' (hticket.trans (heq.trans hticket'.symm))
  have hids : id = id' := hrow.symm.trans (hsame ▸ hrow')
  exact hK id' hid' (hids ▸ hid)

theorem Change.other {s' : MutationTable} (h : Change s t s') (hI : s.Held D)
    (hJ : t.Valid D calm s) (hu : u.Valid D calm s) (hK : u.Apart t) : u.Valid D calm s' := by
  cases h with
  | nothing => exact hu
  | begins idle new =>
    refine { hu with own := fun id hid => ?_ }
    obtain ⟨o, ho, hrow⟩ := hu.own id hid
    exact ⟨o, mem_insert.mpr (Or.inl ho), hrow⟩
  | replays idle mem same given => exact { hu with }
  | finishes own hstatus hstate =>
    refine { hu with own := fun id hid => ?_ }
    obtain ⟨o, ho, hrow, hticket, hstarted⟩ := hu.own id hid
    refine ⟨o, mem_finish.mpr ⟨o, ho, if_neg ?_⟩, hrow, hticket, hstarted⟩
    rintro rfl
    exact hK _ hid (hrow ▸ own)
  | calls own first =>
    refine { hu with working := fun id hid => ?_ }
    obtain ⟨n, hworks, hcount⟩ := hu.working id hid
    have hne := ticket_ne hI hJ hu hK own hid
    refine ⟨n, hworks, ?_⟩
    rw [List.count_append, List.count_singleton]
    have hbeq : (t.request.ticket == u.request.ticket) = false := beq_eq_false_iff_ne.mpr hne
    simpa [hbeq] using hcount

/-! ## What is left of a request -/

/-- A request with the reply to its question. -/
def MutationTask.resumed (t : MutationTask) (s : MutationTable) (q : Question)
    (next : q.Reply → Handler Response) (outside : ∀ q : Question, q.Reply) : MutationTask :=
  { t.note q (s.reply t.request outside q) with script := next (s.reply t.request outside q) }

theorem valid_opening (hI : s.Held D) (hJ : t.Valid D calm s) {q : Question}
    {next : q.Reply → Handler Response} (hscript : t.script = .ask q next) (hop : t.operation = none)
    (outside : ∀ q : Question, q.Reply) :
    (t.resumed s q next outside).Valid D calm (s.apply t.request q) := by
  obtain ⟨hclosed, hopening⟩ := hJ.opening hop
  rw [hscript] at hopening
  cases hopening with
  | profile h =>
    exact ⟨hJ.request, fun _ => ⟨hclosed, h _⟩, fun id hid => absurd (hop ▸ hid) (by simp),
      fun id hid => absurd (hop ▸ hid) (by simp)⟩
  | @insert _ next given new old =>
    unfold MutationTask.resumed
    cases hlookup : s.lookup t.request.ticket with
    | none =>
      rw [(insert_new hlookup).1, (insert_new hlookup).2]
      refine ⟨hJ.request, fun h => (Option.some_ne_none _ h).elim, fun id hid => ⟨1, ?_, ?_⟩,
        fun id hid => ?_⟩
      · cases hid
        have hworks : Works (Fits t.request.kind t.found) calm s.fresh 1 t.closed
            (next (some s.fresh)) := hclosed ▸ new s.fresh
        exact hworks
      · exact (congrArg (· + 1) (count_eq_zero hI hlookup)).le
      · cases hid
        exact ⟨_, mem_insert.mpr (Or.inr rfl), rfl, rfl, fun _ => rfl⟩
    | some o =>
      rw [(insert_found hlookup).1, (insert_found hlookup).2]
      exact ⟨hJ.request, fun _ => ⟨hclosed, old⟩,
        fun id hid => absurd hid (by simp [MutationTask.note]),
        fun id hid => absurd hid (by simp [MutationTask.note])⟩
  | select given h =>
    have hnote : (t.note (.selectRequest t.request.kind.action (t.request.key.getD ""))
        (s.reply t.request outside (.selectRequest t.request.kind.action
          (t.request.key.getD "")))).operation = none := hop
    refine ⟨hJ.request, fun _ => ⟨hclosed, h _ fun row hrow => ?_⟩,
      fun id hid => absurd (hnote ▸ hid) (by simp), fun id hid => absurd (hnote ▸ hid) (by simp)⟩
    obtain ⟨o, ho, rfl⟩ := Option.map_eq_some_iff.mp hrow
    exact hI.replayable o (lookup_some ho).1

theorem valid_working (hJ : t.Valid D calm s) {q : Question} {next : q.Reply → Handler Response}
    (hscript : t.script = .ask q next) {id : ℕ} (hop : t.operation = some id)
    {outside : ∀ q : Question, q.Reply} (hcalm : calm → t.Calm (some outside)) :
    (t.resumed s q next outside).Valid D calm (s.apply t.request q) := by
  obtain ⟨n, hworks, hcount⟩ := hJ.working id hop
  obtain ⟨o, ho, hrow, hticket, hstarted⟩ := hJ.own id hop
  rw [hscript] at hworks
  have hproper := hworks.every.1
  have hcalls := hworks.atMost.1
  have hfits : calm → Fits t.request.kind t.found q (outside q) := by
    intro h
    have := hcalm h
    rw [MutationTask.Calm, hscript] at this
    exact this (by rw [hop]; rfl)
  have hnext := hworks.reply (r := outside q) hfits
  have hkeep : ∀ s' : MutationTable, s'.operations = s.operations →
      (∃ m, Works (Fits t.request.kind t.found) calm id m t.closed (next (outside q)) ∧
        s'.calls.count t.request.ticket + m ≤ 1) →
      ({ t with script := next (outside q) } : MutationTask).Valid D calm s' := by
    rintro s' hs' ⟨m, hm, hle⟩
    refine ⟨hJ.request, fun h => absurd (hop.symm.trans h) (by simp), fun id' hid' => ⟨m, ?_, hle⟩,
      fun id' hid' => ⟨o, hs' ▸ ho, ?_, hticket, hstarted⟩⟩
    · exact Option.some.inj (hop.symm.trans hid') ▸ hm
    · exact hrow.trans (Option.some.inj (hop.symm.trans hid'))
  have hcalled : n - 1 + 1 = n → (s.calls ++ [t.request.ticket]).count t.request.ticket +
      (n - 1) ≤ 1 := by
    intro hn
    rw [List.count_append, List.count_singleton_self]
    omega
  cases q with
  | profile => exact hproper.elim
  | insertRequest action key => exact hproper.elim
  | selectRequest action key => exact hproper.elim
  | finish operationId status data state =>
    obtain ⟨rfl, hstatus, hstate⟩ := hproper
    rw [show (t.closed || Question.finishes (.finish operationId status data state)) = true from
      Bool.or_true t.closed] at hnext
    refine ⟨hJ.request, fun h => absurd (hop.symm.trans h) (by simp), fun id' hid' => ?_,
      fun id' hid' => ?_⟩
    · obtain rfl : operationId = id' := Option.some.inj (hop.symm.trans hid')
      exact ⟨n, hnext, hcount⟩
    · obtain rfl : operationId = id' := Option.some.inj (hop.symm.trans hid')
      exact ⟨_, mem_finish.mpr ⟨o, ho, if_pos hrow⟩, hrow, hticket,
        fun h => absurd h (by simp [MutationTask.resumed, MutationTask.note])⟩
  | call => exact hkeep _ rfl ⟨n - 1, by simpa [Question.touches, Question.finishes] using hnext,
      hcalled (Nat.sub_add_cancel (hcalls rfl))⟩
  | reconcile => exact hkeep _ rfl ⟨n - 1,
      by simpa [Question.touches, Question.finishes] using hnext,
      hcalled (Nat.sub_add_cancel (hcalls rfl))⟩
  | _ =>
    exact hkeep s rfl ⟨n, by simpa [Question.touches, Question.finishes] using hnext, hcount⟩

/-- **What is left of a request keeps what holds of it.** -/
theorem valid_resumed (hI : s.Held D) (hJ : t.Valid D calm s) {q : Question}
    {next : q.Reply → Handler Response} (hscript : t.script = .ask q next)
    {outside : ∀ q : Question, q.Reply} (hcalm : calm → t.Calm (some outside)) :
    (t.resumed s q next outside).Valid D calm (s.apply t.request q) := by
  cases hop : t.operation with
  | none => exact valid_opening hI hJ hscript hop outside
  | some id => exact valid_working hJ hscript hop hcalm

theorem operation_resumed (hJ : t.Valid D calm s) {q : Question} {next : q.Reply → Handler Response}
    (hscript : t.script = .ask q next) (outside : ∀ q : Question, q.Reply) :
    (t.resumed s q next outside).operation = t.operation ∨
      (t.resumed s q next outside).operation = some s.fresh := by
  cases hop : t.operation with
  | none =>
    have hopening := (hJ.opening hop).2
    rw [hscript] at hopening
    cases hopening with
    | profile h => exact Or.inl hop
    | insert given new old =>
      unfold MutationTask.resumed
      cases hlookup : s.lookup t.request.ticket with
      | none =>
        rw [(insert_new hlookup).2]
        exact Or.inr rfl
      | some o =>
        rw [(insert_found hlookup).2]
        exact Or.inl rfl
    | select given h => exact Or.inl hop
  | some id =>
    obtain ⟨n, hworks, -⟩ := hJ.working id hop
    rw [hscript] at hworks
    have hproper := hworks.every.1
    cases q with
    | insertRequest action key => exact hproper.elim
    | _ => exact Or.inl hop

/-! ## Every run -/

theorem resume_cases (s : MutationTable) (t : MutationTask)
    (answer : Option (∀ q : Question, q.Reply)) :
    (((∃ response, t.script = .done response) ∨ t.script = .fail ∨ answer = none) ∧
        resume s t answer = (s, none)) ∨
      ∃ q next, t.script = .ask q next ∧
        ((answer = none ∧ q.touches = true ∧ resume s t answer = (s.apply t.request q, none)) ∨
          ∃ outside, answer = some outside ∧
            resume s t answer = (s.apply t.request q, some (t.resumed s q next outside))) := by
  cases hscript : t.script with
  | done response => exact Or.inl ⟨Or.inl ⟨response, rfl⟩, by rw [resume, hscript]⟩
  | fail => exact Or.inl ⟨Or.inr (Or.inl rfl), by rw [resume, hscript]⟩
  | ask q next =>
    cases answer with
    | none =>
      cases htouches : q.touches with
      | false => exact Or.inl ⟨Or.inr (Or.inr rfl), by simp [resume, hscript, htouches]⟩
      | true =>
        exact Or.inr ⟨q, next, rfl, Or.inl ⟨rfl, htouches, by simp [resume, hscript, htouches]⟩⟩
    | some outside =>
      exact Or.inr ⟨q, next, rfl, Or.inr ⟨outside, rfl, by simp [resume, hscript,
        MutationTask.resumed]⟩⟩

/-- **The requests do not disturb each other.** -/
theorem requests_respect (proxyEnabled : Bool) (D : Request → Prop) (calm : Prop) :
    (requests proxyEnabled).Respects (MutationTable.Held D) (fun s t => t.Valid D calm s)
      MutationTask.Apart D (fun _ t answer => calm → t.Calm answer) where
  symm t u h id hu ht := h id ht hu
  start s r hD _ :=
    ⟨hD, fun _ => ⟨rfl, r.opening proxyEnabled calm⟩, fun _ hid => absurd hid (by simp [requests]),
      fun _ hid => absurd hid (by simp [requests])⟩
  apart r u id _ hid := absurd hid (by simp [requests])
  shared s t answer _ hI hJ := by
    rcases resume_cases s t answer with ⟨-, heq⟩ | ⟨q, next, hscript, ⟨-, -, heq⟩ | ⟨outside, -, heq⟩⟩
    · exact (congrArg Prod.fst heq).symm ▸ hI
    · exact (congrArg Prod.fst heq).symm ▸ (change_apply hJ hscript).held hI hJ
    · exact (congrArg Prod.fst heq).symm ▸ (change_apply hJ hscript).held hI hJ
  own s t answer hcalm hI hJ t' ht' := by
    rcases resume_cases s t answer with ⟨-, heq⟩ | ⟨q, next, hscript, ⟨-, -, heq⟩ | ⟨outside, rfl, heq⟩⟩
    · exact absurd ht' (by simp [requests, heq])
    · exact absurd ht' (by simp [requests, heq])
    · have hnext : t' = t.resumed s q next outside := by
        simpa [requests, heq] using ht'.symm
      rw [hnext]
      exact (congrArg Prod.fst heq).symm ▸ valid_resumed hI hJ hscript hcalm
  other s t answer _ hI hJ u hu hK := by
    rcases resume_cases s t answer with ⟨-, heq⟩ | ⟨q, next, hscript, ⟨-, -, heq⟩ | ⟨outside, -, heq⟩⟩
    · exact ⟨(congrArg Prod.fst heq).symm ▸ hu, fun t' ht' => absurd ht' (by simp [requests, heq])⟩
    · exact ⟨(congrArg Prod.fst heq).symm ▸ (change_apply hJ hscript).other hI hJ hu hK,
        fun t' ht' => absurd ht' (by simp [requests, heq])⟩
    · refine ⟨(congrArg Prod.fst heq).symm ▸ (change_apply hJ hscript).other hI hJ hu hK,
        fun t' ht' id hid hid' => ?_⟩
      have hnext : t' = t.resumed s q next outside := by
        simpa [requests, heq] using ht'.symm
      rcases operation_resumed hJ hscript outside with hop | hop
      · exact hK id hid (hop ▸ hnext ▸ hid')
      · obtain ⟨o, ho, hrow, -⟩ := hu.own id hid
        have hfresh : id = s.fresh := Option.some.inj ((hnext ▸ hid').symm.trans hop)
        exact absurd (hrow.trans hfresh) (Nat.ne_of_lt (key_lt_freshKey ho))

/-! ## Operations that are not finished -/

/-- Whether the operation of a key has been started and not finished. -/
def MutationTable.pending (k : Ticket) (s : MutationTable) : ℕ :=
  ((s.lookup k).any fun o => o.row.state == .started).toNat

/-- Whether a request works on the operation of a key that it has not finished. -/
def MutationTask.holds (k : Ticket) (t : MutationTask) : ℕ :=
  if t.request.ticket = k ∧ t.operation.isSome = true ∧ t.closed = false then 1 else 0

variable {k : Ticket}

theorem pending_le_one : s.pending k ≤ 1 := Bool.toNat_le _

theorem pending_congr {s' : MutationTable} (h : s'.operations = s.operations) :
    s'.pending k = s.pending k := by
  simp [MutationTable.pending, MutationTable.lookup, h]

theorem pending_insert {r : Request} {action key : String}
    (h : (⟨r.actor, action, key⟩ : Ticket) ≠ k) : (s.insert r action key).pending k = s.pending k := by
  have hrow : Operation.ticket ⟨⟨s.fresh, r.actor, action, key, .started, none, none⟩, r⟩ ≠ k := h
  have hlookup : (s.insert r action key).lookup k = s.lookup k := by
    simp [MutationTable.lookup, MutationTable.insert, List.find?_append, hrow]
  rw [MutationTable.pending, hlookup, MutationTable.pending]

theorem pending_finish (hI : s.Held D) {o : Operation} (ho : o ∈ s.operations)
    (hticket : o.ticket = k) {status : ℕ} {data : Payload} {state : MutationState}
    (hstate : state ≠ .started) :
    (s.finish o.id status data state).pending k = 0 := by
  have hfind : s.operations.find? (fun o => o.ticket == k) = some o := by
    rw [← hticket]
    exact hI.keys.find?_eq_some ho
  have hlookup : (s.finish o.id status data state).lookup k =
      some (o.finish status data state) := by
    have hupdated : (s.finish o.id status data state).lookup k =
        (s.operations.find? fun o' => o'.ticket == k).map fun o' =>
          if o'.id == o.id then o'.finish status data state else o' :=
      find?_update (finish_ticket status data state) _ _ _
    rw [hupdated, hfind]
    simp
  simp [MutationTable.pending, hlookup, Operation.finish, hstate]

theorem pending_finish_le {id status : ℕ} {data : Payload} {state : MutationState}
    (hstate : state ≠ .started) : (s.finish id status data state).pending k ≤ s.pending k := by
  have hlookup : (s.finish id status data state).lookup k =
      (s.lookup k).map fun o => if o.id == id then o.finish status data state else o :=
    find?_update (finish_ticket status data state) _ _ _
  unfold MutationTable.pending
  rw [hlookup]
  cases s.lookup k with
  | none => exact le_rfl
  | some o =>
    by_cases hid : o.id = id
    · simp [hid, Operation.finish, beq_eq_false_iff_ne.mpr hstate]
    · simp [hid]

theorem holds_of_idle (h : t.operation = none) : t.holds k = 0 := by
  simp [MutationTask.holds, h]

theorem holds_of_ne (h : t.request.ticket ≠ k) : t.holds k = 0 := by
  simp [MutationTask.holds, h]

theorem holds_of_closed (h : t.closed = true) : t.holds k = 0 := by
  simp [MutationTask.holds, h]

theorem pending_opening (hJ : t.Valid D calm s) {q : Question} {next : q.Reply → Handler Response}
    (hscript : t.script = .ask q next) (hop : t.operation = none)
    (outside : ∀ q : Question, q.Reply) :
    (s.apply t.request q).pending k ≤ (t.resumed s q next outside).holds k ∨
      (s.apply t.request q).pending k = s.pending k := by
  obtain ⟨hclosed, hopening⟩ := hJ.opening hop
  rw [hscript] at hopening
  cases hopening with
  | profile h => exact Or.inr rfl
  | insert given new old =>
    cases hlookup : s.lookup t.request.ticket with
    | none =>
      by_cases hk : t.request.ticket = k
      · left
        unfold MutationTask.resumed
        rw [(insert_new hlookup).2]
        have hholds : ∀ script, (MutationTask.mk t.request script t.found (some s.fresh)
            t.closed).holds k = 1 := fun script => if_pos ⟨hk, rfl, hclosed⟩
        exact le_of_le_of_eq pending_le_one (hholds _).symm
      · right
        rw [(insert_new hlookup).1]
        exact pending_insert hk
    | some o =>
      right
      rw [(insert_found hlookup).1]
  | select given h =>
    refine Or.inr (pending_congr ?_)
    simp only [MutationTable.apply]
    split
    · rfl
    · split <;> rfl

theorem pending_working (hI : s.Held D) (hJ : t.Valid D calm s) {q : Question}
    {next : q.Reply → Handler Response} (hscript : t.script = .ask q next) {id : ℕ}
    (hop : t.operation = some id) (outside : ∀ q : Question, q.Reply) :
    (s.apply t.request q).pending k ≤ (t.resumed s q next outside).holds k ∨
      (s.apply t.request q).pending k + t.holds k ≤
        s.pending k + (t.resumed s q next outside).holds k := by
  obtain ⟨n, hworks, -⟩ := hJ.working id hop
  rw [hscript] at hworks
  have hproper := hworks.every.1
  have hkeep : ∀ s' : MutationTable, s'.operations = s.operations → ∀ t' : MutationTask,
      t'.request = t.request → t'.operation = t.operation → t'.closed = t.closed →
        s'.pending k ≤ t'.holds k ∨ s'.pending k + t.holds k ≤ s.pending k + t'.holds k := by
    intro s' hs' t' hrequest hoperation hclosed
    right
    rw [pending_congr hs', MutationTask.holds, MutationTask.holds, hrequest, hoperation, hclosed]
  cases q with
  | profile => exact hproper.elim
  | insertRequest action key => exact hproper.elim
  | selectRequest action key => exact hproper.elim
  | finish operationId status data state =>
    obtain ⟨rfl, hstatus, hstate⟩ := hproper
    by_cases hk : t.request.ticket = k
    · obtain ⟨o, ho, rfl, hticket, -⟩ := hJ.own operationId hop
      left
      exact le_of_eq_of_le (pending_finish hI ho (hticket.trans hk) hstate) (Nat.zero_le _)
    · right
      rw [holds_of_ne hk, Nat.add_zero]
      exact le_trans (pending_finish_le hstate) (Nat.le_add_right _ _)
  | call => exact hkeep _ rfl _ rfl rfl rfl
  | reconcile => exact hkeep _ rfl _ rfl rfl rfl
  | _ => exact hkeep s rfl _ rfl rfl rfl

theorem holds_of_end (hJ : t.Valid D True s) {answer : Option (∀ q : Question, q.Reply)}
    (hcalm : t.Calm answer)
    (hend : (∃ response, t.script = .done response) ∨ t.script = .fail ∨ answer = none) :
    t.holds k = 0 := by
  cases hop : t.operation with
  | none => exact holds_of_idle hop
  | some id =>
    obtain ⟨n, hworks, -⟩ := hJ.working id hop
    refine holds_of_closed ?_
    rcases hend with ⟨response, hscript⟩ | hscript | rfl
    · rw [hscript] at hworks
      exact hworks.before
    · rw [hscript] at hworks
      exact (hworks.safe trivial).elim
    · exact hcalm (by rw [hop]; rfl)

theorem apply_of_touches {r : Request} {q : Question} (h : q.touches = true) :
    (s.apply r q).operations = s.operations := by
  cases q with
  | call => rfl
  | reconcile => rfl
  | _ => cases h

/-- **What is pending after a turn is held.** -/
theorem pending_resume (hI : s.Held D) (hJ : t.Valid D True s)
    {answer : Option (∀ q : Question, q.Reply)} (hcalm : t.Calm answer) :
    (resume s t answer).1.pending k ≤
        ((resume s t answer).2.map (MutationTask.holds k)).getD 0 ∨
      (resume s t answer).1.pending k + t.holds k ≤
        s.pending k + ((resume s t answer).2.map (MutationTask.holds k)).getD 0 := by
  rcases resume_cases s t answer with ⟨hend, heq⟩ | ⟨q, next, hscript, ⟨rfl, htouches, heq⟩ |
    ⟨outside, rfl, heq⟩⟩
  · rw [heq]
    right
    rw [holds_of_end hJ hcalm hend]
    exact le_rfl
  · rw [heq]
    right
    rw [holds_of_end hJ hcalm (Or.inr (Or.inr rfl)), pending_congr (apply_of_touches htouches)]
    exact le_rfl
  · rw [heq]
    cases hop : t.operation with
    | none =>
      rcases pending_opening (k := k) hJ hscript hop outside with hle | hsame
      · exact Or.inl hle
      · right
        rw [holds_of_idle hop, hsame]
        exact Nat.le_add_right _ _
    | some id => exact pending_working hI hJ hscript hop outside

/-! ## The keys are honest -/

/-- The control plane before any request. -/
def idle : Pool MutationTable MutationTask := ⟨{}, []⟩

/-- A turn of the control plane. -/
abbrev MutationTurn := Turn Request (Option (∀ q : Question, q.Reply))

theorem free_idle (D : Request → Prop) (calm : Prop) :
    Program.Free (MutationTable.Held D) (fun s t => t.Valid D calm s) MutationTask.Apart idle :=
  .of_shared ⟨List.nodup_nil, List.nodup_nil, by simp, by simp, by simp,
    by simp, by simp⟩

theorem free_after (proxyEnabled : Bool) (calm : Prop) (turns : List MutationTurn)
    (hcalm : calm → Trace.Along (requests proxyEnabled).step
      (Program.Meets fun _ t answer => t.Calm answer) idle turns) :
    Program.Free (MutationTable.Held fun r => .spawn r ∈ turns)
      (fun s t => t.Valid (fun r => .spawn r ∈ turns) calm s) MutationTask.Apart
      ((requests proxyEnabled).after idle turns) := by
  refine (requests_respect proxyEnabled _ calm).after (free_idle _ calm) (fun _ hmem => hmem) ?_
  by_cases h : calm
  · exact (hcalm h).mono _ fun p turn hmeets => by
      cases turn with
      | spawn r => trivial
      | resume i answer => exact fun t ht _ => hmeets t ht
  · exact ((requests proxyEnabled).along_trivial idle turns).mono _ fun p turn _ => by
      cases turn with
      | spawn r => trivial
      | resume i answer => exact fun t _ hc => absurd hc h

/-- **The keys of the mutations, in every run.**  For each key the provider is called at most once.
Replays are about the same provider and resource, if no key is used again for another one on the
same action.  An operation that is not finished is one of a request in progress, as long as no
exception ends a request before it has finished its operation: neither one of a number or a mode in
its body, nor one of its call that it does not catch, nor any other. -/
theorem mutation_keys_honest (proxyEnabled : Bool) (turns : List MutationTurn) :
    (∀ k, ((requests proxyEnabled).after idle turns).shared.calls.count k ≤ 1) ∧
      ((∀ r r' : Request, .spawn r ∈ turns → .spawn r' ∈ turns → r.ticket = r'.ticket →
          r.ticket.idempotencyKey ≠ "" → r.subject = r'.subject) →
        ∀ p ∈ ((requests proxyEnabled).after idle turns).shared.replays,
          p.1.subject = p.2.subject) ∧
      (Trace.Along (requests proxyEnabled).step (Program.Meets fun _ t answer => t.Calm answer) idle
          turns →
        ∀ o ∈ ((requests proxyEnabled).after idle turns).shared.operations, o.row.state = .started →
          ∃ t ∈ ((requests proxyEnabled).after idle turns).tasks,
            t.operation = some o.id ∧ t.closed = false) := by
  refine ⟨?_, fun hsame p hp => ?_, fun hcalm o ho hstarted => ?_⟩
  · exact (free_after proxyEnabled False turns False.elim).shared.once
  · obtain ⟨hticket, hgiven, hD, hD'⟩ :=
      (free_after proxyEnabled False turns False.elim).shared.replays p hp
    exact hsame p.1 p.2 hD hD' hticket hgiven
  · have hfree := free_after proxyEnabled True turns fun _ => hcalm
    have hmeets : Trace.Along (requests proxyEnabled).step
        (Program.Meets fun _ t answer => True → t.Calm answer) idle turns :=
      hcalm.mono _ fun p turn hmeets => by
        cases turn with
        | spawn r => trivial
        | resume i answer => exact fun t ht _ => hmeets t ht
    have hcover := (requests_respect proxyEnabled (fun r => .spawn r ∈ turns) True).covered
      (m := MutationTable.pending o.ticket) (w := MutationTask.holds o.ticket)
      (fun s t answer hC hI hJ => pending_resume hI hJ (hC trivial)) (free_idle _ True)
      (le_of_eq rfl) (fun _ hmem => hmem) hmeets
    have hpending : ((requests proxyEnabled).after idle turns).shared.pending o.ticket = 1 := by
      have hlookup : ((requests proxyEnabled).after idle turns).shared.lookup o.ticket = some o :=
        hfree.shared.keys.find?_eq_some ho
      simp [MutationTable.pending, hlookup, hstarted]
    obtain ⟨t, ht, hholds⟩ := Program.exists_of_owed (hpending ▸ hcover)
    have hheld : t.request.ticket = o.ticket ∧ t.operation.isSome = true ∧ t.closed = false := by
      by_contra hnot
      exact absurd hholds (by simp [MutationTask.holds, hnot])
    obtain ⟨id, hid⟩ := Option.isSome_iff_exists.mp hheld.2.1
    obtain ⟨o', ho', hrow, hticket, -⟩ := (hfree.each t ht).own id hid
    obtain rfl : o' = o := hfree.shared.keys.eq_of_mem ho' ho (hticket.trans hheld.1)
    exact ⟨t, ht, hid.trans (congrArg some hrow.symm), hheld.2.2⟩

/-- Replies in the ordinary course. -/
def ordinary (profile : ActionProfile) : ∀ q : Question, q.Reply
  | .profile => some profile
  | .active => 0
  | .capacity => none
  | .number => none
  | .row => []
  | .returning => true
  | .statement => ()
  | .call => .ok
  | .install => some 1
  | .reconcile => .reported 0
  | .insertRequest _ _ => none
  | .selectRequest _ _ => none
  | .finish _ _ _ _ => ()

/-- A request to limit a profile, with the limit as a confirmation shows it and as `int` reads
it. -/
def limitRequest (profileId text : String) (value : Option ℤ) : Request where
  actor := "operator"
  provider := "decodo"
  key := some "key"
  kind := .profileAction profileId "limit"
    (some { confirmation := some ("SET LIMIT " ++ text ++ " FOR pool"),
            providerTrafficLimitBytes := ⟨text, value⟩ })

/-- The first request of the control plane, with so many replies. -/
def alone (r : Request) (replies : ℕ) : List MutationTurn :=
  .spawn r :: List.replicate replies
    (.resume 0 (some (ordinary { logicalName := "pool", providerResourceId := some "resource",
                                 allocatedBytes := some 100 })))

/-- A limit that is no number leaves its operation started when its request has ended, and a key
that is used for another profile is answered with what was recorded for the first. -/
theorem unread_limit_stays_started :
    (((requests true).after idle (alone (limitRequest "p1" "abc" none) 5)).tasks.length = 0 ∧
      ((requests true).after idle (alone (limitRequest "p1" "abc" none) 5)).shared.operations.map
        (fun o => o.row.state) = [.started]) ∧
      ((requests true).after idle (alone (limitRequest "p1" "0" (some 0)) 8 ++
        alone (limitRequest "p2" "50" (some 50)) 4)).shared.replays.map
          (fun p => (p.1.subject, p.2.subject)) = [(("decodo", "p2"), ("decodo", "p1"))] := by
  decide +kernel

/-- A limit that is set, and asked for again. -/
def limitTwice : List MutationTurn :=
  alone (limitRequest "p1" "50" (some 50)) 9 ++ alone (limitRequest "p1" "50" (some 50)) 4

/-- A limit that is asked for again calls the provider once, and its replay is about its profile. -/
theorem limit_asked_again :
    (((requests true).after idle limitTwice).shared.calls.count
        (limitRequest "p1" "50" (some 50)).ticket ≤ 1) ∧
      (∀ p ∈ ((requests true).after idle limitTwice).shared.replays, p.1.subject = p.2.subject) ∧
      ∀ o ∈ ((requests true).after idle limitTwice).shared.operations, o.row.state = .started →
        ∃ t ∈ ((requests true).after idle limitTwice).tasks,
          t.operation = some o.id ∧ t.closed = false := by
  have hspawn : ∀ r : Request, .spawn r ∈ limitTwice → r = limitRequest "p1" "50" (some 50) := by
    intro r hr
    simpa [limitTwice, alone] using hr
  obtain ⟨honce, hreplays, hstarted⟩ := mutation_keys_honest true limitTwice
  refine ⟨honce _, hreplays fun r r' hr hr' _ _ => ?_, hstarted (by decide +kernel)⟩
  rw [hspawn r hr, hspawn r' hr']

example : ((requests true).after idle limitTwice).shared.replays.length = 1 := by decide +kernel

end Mutations

end CommerceCollector
