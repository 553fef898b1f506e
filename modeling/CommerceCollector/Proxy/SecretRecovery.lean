import CommerceCollector.Proxy.InStep

/-!
# Imports of secrets across crashes

Every call of an import runs under the lock of its operation, so the intent that it has read is
still open when it writes the file or ends the intent.  With that, every step keeps the secret file
and the database in step, whatever the other calls do and wherever a session ends, and a recovery
ends an open intent by the generation of the file alone.
-/

namespace CommerceCollector

open Relational Transaction Tasks

namespace ImportTask

/-- The lock that a call holds. -/
def lock (lockKey : Uuid → ℕ) (t : ImportTask) : Option ℕ := t.operation.map lockKey

end ImportTask

namespace ImportStore

/-- The answer of a recovery is one in which an intent may end. -/
def Explained : ImportCall × ImportAnswer → Prop
  | (.recover _, .ok r) => Resolved r
  | _ => True

/-- The intent of a call is open. -/
structure Owns (s : ImportStore) (c : ImportCall) (row : SecretIntent) : Prop where
  mem : row ∈ s.intents
  isOpen : row.isOpen = true
  operation : row.operationId = c.operationId

/-- What a suspended call relies on, beside its lock. -/
def Relies (s : ImportStore) : ImportTask → Prop
  | .findIntent c | .matchOperation c _ | .prepare c => c.Valid
  | .installSecret c row => s.Owns (.install c) row ∧ c.secret.logicalName = row.logicalName ∧
    c.secret.generation = row.targetGeneration
  | .readFile c row => s.Owns c row
  | .finalize c row =>
    s.Owns c row ∧ s.file.generation row.logicalName = some row.targetGeneration
  | .markFailed c row _ =>
    s.Owns c row ∧ s.file.generation row.logicalName ≠ some row.targetGeneration
  | .unlock c answer => Explained (c, answer)
  | _ => True

/-- A suspended call holds its lock, and what it relies on. -/
structure Holds (lockKey : Uuid → ℕ) (s : ImportStore) (t : ImportTask) : Prop where
  locked : ∀ k ∈ t.lock lockKey, k ∈ s.locks
  relies : s.Relies t

/-- Two calls do not hold the same lock. -/
def Apart (lockKey : Uuid → ℕ) (t u : ImportTask) : Prop :=
  ∀ k ∈ t.lock lockKey, k ∉ u.lock lockKey

/-- The stores are in step, and every answer is explained. -/
structure Consistent (s : ImportStore) : Prop where
  inStep : s.InStep
  explained : ∀ entry ∈ s.answers, Explained entry

/-- What a step of a call does: it keeps the stores in step, spares the intents and the locks of the
other calls, and what is left of the call holds. -/
structure Proceeds (lockKey : Uuid → ℕ) (s : ImportStore) (t : ImportTask)
    (r : ImportStore × Option ImportTask) : Prop where
  consistent : r.1.Consistent
  grows : Grows s r.1
  locks : ∀ k ∈ s.locks, k ∉ t.lock lockKey → k ∈ r.1.locks
  rows : ∀ i ∈ s.intents, i.isOpen = true → (∀ op ∈ t.operation, i.operationId ≠ op) →
    i ∈ r.1.intents ∧ r.1.file.generation i.logicalName = s.file.generation i.logicalName
  holds : ∀ t' ∈ r.2, r.1.Holds lockKey t'
  lock : ∀ t' ∈ r.2, ∀ k ∈ t'.lock lockKey, k ∈ t.lock lockKey ∨ k ∉ s.locks

section Steps

variable {lockKey : Uuid → ℕ} {s s' : ImportStore} {t u : ImportTask}

theorem Proceeds.spares {r : ImportStore × Option ImportTask} (h : Proceeds lockKey s t r)
    (hu : s.Holds lockKey u) (hapart : Apart lockKey u t) : r.1.Holds lockKey u := by
  have hother : ∀ {c : ImportCall} {row : SecretIntent}, u.operation = some c.operationId →
      s.Owns c row → r.1.Owns c row ∧
        r.1.file.generation row.logicalName = s.file.generation row.logicalName := by
    intro c row hoperation hrow
    have hne : ∀ op ∈ t.operation, row.operationId ≠ op := by
      rintro op hop rfl
      apply hapart (lockKey row.operationId)
      · rw [ImportTask.lock, hoperation, ← hrow.operation]
        rfl
      · rw [ImportTask.lock, hop]
        rfl
    obtain ⟨hmem, hfile⟩ := h.rows row hrow.mem hrow.isOpen hne
    exact ⟨⟨hmem, hrow.isOpen, hrow.operation⟩, hfile⟩
  refine ⟨fun k hk => h.locks k (hu.locked k hk) (hapart k hk), ?_⟩
  have hrelies := hu.relies
  cases u with
  | called c => trivial
  | findIntent c => exact hrelies
  | matchOperation c row => exact hrelies
  | prepare c => exact hrelies
  | installSecret c row => exact ⟨(hother rfl hrelies.1).1, hrelies.2⟩
  | readIntent c => trivial
  | readFile c row => exact (hother rfl hrelies).1
  | finalize c row =>
    obtain ⟨hrow, hfile⟩ := hother rfl hrelies.1
    exact ⟨hrow, hfile.trans hrelies.2⟩
  | markFailed c row code =>
    obtain ⟨hrow, hfile⟩ := hother rfl hrelies.1
    exact ⟨hrow, fun heq => hrelies.2 (hfile.symm.trans heq)⟩
  | unlock c answer => exact hrelies
  | surround around => trivial

theorem Proceeds.apart {r : ImportStore × Option ImportTask} (h : Proceeds lockKey s t r)
    (hu : s.Holds lockKey u) (hapart : Apart lockKey u t) {t' : ImportTask} (ht' : t' ∈ r.2) :
    Apart lockKey u t' := by
  intro k hk hnext
  rcases h.lock t' ht' k hnext with hold | hfree
  · exact hapart k hk hold
  · exact hfree (hu.locked k hk)

/-! ## Steps that write no table -/

theorem proceeds_read (h : s.Consistent) (ht : s.Holds lockKey t) {t' : ImportTask}
    (hoperation : t'.operation = t.operation) (hrelies : s.Relies t') :
    Proceeds lockKey s t (s, some t') := by
  have hlock : t'.lock lockKey = t.lock lockKey := congrArg (Option.map lockKey) hoperation
  refine ⟨h, Grows.refl s, fun _ hk _ => hk, fun _ hi _ _ => ⟨hi, rfl⟩, ?_, ?_⟩
  · rintro _ ⟨⟩
    exact ⟨fun k hk => ht.locked k (hlock ▸ hk), hrelies⟩
  · rintro _ ⟨⟩ k hk
    exact Or.inl (hlock ▸ hk)

theorem proceeds_end (h : s.Consistent) (hsame : s' = { s with
      locks := s'.locks, answers := s'.answers })
    (hlocks : ∀ k ∈ s.locks, k ∉ t.lock lockKey → k ∈ s'.locks)
    (hanswers : ∀ entry ∈ s'.answers, Explained entry) : Proceeds lockKey s t (s', none) := by
  refine ⟨⟨?_, hanswers⟩, ?_, hlocks, ?_, by simp, by simp⟩
  · rw [hsame]
    exact h.inStep.of_same rfl rfl rfl rfl
  · rw [hsame]
    exact ⟨(Grows.refl s).profiles, (Grows.refl s).file⟩
  · intro i hi _ _
    change i ∈ s'.intents ∧ s'.file.generation i.logicalName = s.file.generation i.logicalName
    rw [hsame]
    exact ⟨hi, rfl⟩

variable {c : ImportCall}

theorem Consistent.answer (h : s.Consistent) {answer : ImportAnswer}
    (hanswer : Explained (c, answer)) : ∀ entry ∈ s.answers ++ [(c, answer)], Explained entry := by
  intro entry hentry
  rcases List.mem_append.mp hentry with hold | hnew
  · exact h.explained entry hold
  · rw [List.mem_singleton.mp hnew]
    exact hanswer

theorem proceeds_lockOperation (h : s.Consistent) {next : ImportTask} (ht : t.operation = none)
    (hoperation : next.operation = some c.operationId)
    (hrelies : ∀ locks, Relies { s with locks } next) :
    Proceeds lockKey s t (s.lockOperation lockKey c next) := by
  unfold lockOperation
  split
  · refine proceeds_end h rfl (fun _ hk _ => hk) (h.answer ?_)
    cases c <;> trivial
  · next hfree =>
    have hlock : next.lock lockKey = some (lockKey c.operationId) := by
      rw [ImportTask.lock, hoperation]
      rfl
    refine ⟨⟨h.inStep.of_same rfl rfl rfl rfl, h.explained⟩,
      ⟨(Grows.refl s).profiles, (Grows.refl s).file⟩, fun _ hk _ => List.mem_cons_of_mem _ hk,
      fun _ hi _ _ => ⟨hi, rfl⟩, ?_, ?_⟩
    · rintro _ ⟨⟩
      refine ⟨fun k hk => ?_, hrelies _⟩
      rw [hlock] at hk
      rw [← Option.some.inj hk]
      exact List.mem_cons_self
    · rintro _ ⟨⟩ k hk
      rw [hlock] at hk
      rw [← Option.some.inj hk]
      exact Or.inr hfree

theorem proceeds_readIntent (h : s.Consistent) (ht : s.Holds lockKey (.readIntent c)) :
    Proceeds lockKey s (.readIntent c) (s.readIntent c) := by
  have hraise : ∀ e : String, Explained (c, (.error e : ImportAnswer)) := by
    intro e
    cases c <;> trivial
  unfold readIntent
  split
  · exact proceeds_read h ht rfl (hraise _)
  · next row hrow =>
    obtain ⟨hmem, hfound⟩ := mem_of_find? hrow
    have howns : row.isOpen = true → s.Owns c row := fun hopen =>
      ⟨hmem, hopen, beq_iff_eq.mp hfound⟩
    cases hstate : row.state with
    | completed =>
      apply proceeds_read h ht
      · rfl
      · cases c with
        | install c => trivial
        | recover id => exact Or.inl rfl
    | failed =>
      apply proceeds_read h ht
      · rfl
      · cases c with
        | install c => trivial
        | recover id => exact Or.inr (Or.inl rfl)
    | prepared => exact proceeds_read h ht rfl (howns (by simp [SecretIntent.isOpen, hstate]))
    | installed => exact proceeds_read h ht rfl (howns (by simp [SecretIntent.isOpen, hstate]))

variable {row : SecretIntent}

theorem relies_recoverUnlocked (h : s.Owns c row) : s.Relies (s.recoverUnlocked c row) := by
  unfold recoverUnlocked
  dsimp only
  split
  · next htarget => exact ⟨h, htarget⟩
  · next hother =>
    split
    · exact ⟨h, hother⟩
    · exact ⟨h, hother⟩

/-! ## Steps that write -/

section

variable (h : s.Consistent)

include h

theorem proceeds_keeps (ht : s.Holds lockKey t) (hkeeps : Keeps s s')
    (hrows : ∀ i ∈ s.intents, (∀ op ∈ t.operation, i.operationId ≠ op) → i ∈ s'.intents)
    {t' : ImportTask} (hoperation : t'.operation = t.operation) (hrelies : s'.Relies t') :
    Proceeds lockKey s t (s', some t') := by
  have hlock : t'.lock lockKey = t.lock lockKey := congrArg (Option.map lockKey) hoperation
  refine ⟨⟨hkeeps.inStep, ?_⟩, hkeeps.grows, fun k hk _ => ?_, fun i hi _ hne => ⟨?_, ?_⟩, ?_, ?_⟩
  · intro entry hentry
    exact h.explained entry (hkeeps.answers ▸ hentry)
  · change k ∈ s'.locks
    rw [hkeeps.locks]
    exact hk
  · exact hrows i hi hne
  · change s'.file.generation i.logicalName = s.file.generation i.logicalName
    rw [hkeeps.file]
  · rintro _ ⟨⟩
    refine ⟨fun k hk => ?_, hrelies⟩
    change k ∈ s'.locks
    rw [hkeeps.locks]
    exact ht.locked k (hlock ▸ hk)
  · rintro _ ⟨⟩ k hk
    exact Or.inl (hlock ▸ hk)

theorem proceeds_prepare {c : InstallCall} (ht : s.Holds lockKey (.prepare c))
    (now : Time) (file : FileAnswer) :
    Proceeds lockKey s (.prepare c) (s.proceed lockKey now file (.prepare c)) := by
  change Proceeds lockKey s _ (s.goOn (.install c) (s.prepare now c) _)
  unfold goOn
  cases hok : s.prepare now c with
  | error e =>
    apply proceeds_read h ht
    · rfl
    · trivial
  | ok result =>
    obtain ⟨outcome, s'⟩ := result
    obtain ⟨hkeeps, hrows, hrow⟩ := prepare_ok h.inStep ht.relies hok
    apply proceeds_keeps h ht hkeeps fun i hi _ => hrows i hi
    · cases outcome <;> rfl
    · cases outcome with
      | inl result => trivial
      | inr row =>
        obtain ⟨hmem, hopen, hoperation, hname, hgeneration⟩ := hrow row rfl
        exact ⟨⟨hmem, hopen, hoperation⟩, hname.symm, hgeneration.symm⟩

theorem proceeds_installSecret {c : InstallCall}
    (ht : s.Holds lockKey (.installSecret c row)) (answer : FileAnswer) :
    Proceeds lockKey s (.installSecret c row) (s.installSecret c row answer) := by
  obtain ⟨howns, hname, hgeneration⟩ := ht.relies
  have hrecover : Proceeds lockKey s (.installSecret c row) (s, some (.readIntent (.install c))) :=
    proceeds_read h ht rfl trivial
  unfold installSecret
  cases hok : s.file.install c.secret c.expectedGeneration with
  | error e => exact hrecover
  | ok result =>
    obtain ⟨installed, file⟩ := result
    obtain ⟨hinstalled, rfl, hprovider, -⟩ := SecretFile.install_ok hok
    obtain ⟨hinStep, htarget, hothers, hgrows⟩ :=
      h.inStep.write howns.mem howns.isOpen hprovider hname hgeneration
    have hwrites : ∀ {t' : ImportTask}, t'.operation = some c.operationId →
        Relies { s with file := s.file.assign c.secret } t' →
        Proceeds lockKey s (.installSecret c row)
          ({ s with file := s.file.assign c.secret }, some t') := by
      intro t' hoperation hrelies
      have hlock : t'.lock lockKey = (ImportTask.installSecret c row).lock lockKey :=
        congrArg (Option.map lockKey) hoperation
      refine ⟨⟨hinStep, h.explained⟩, ⟨(Grows.refl s).profiles, hgrows⟩, fun _ hk _ => hk,
        fun i hi hopen hne => ⟨hi, hothers i hi hopen ?_⟩, ?_, ?_⟩
      · rintro rfl
        exact hne c.operationId rfl howns.operation
      · rintro _ ⟨⟩
        exact ⟨fun k hk => ht.locked k (hlock ▸ hk), hrelies⟩
      · rintro _ ⟨⟩ k hk
        exact Or.inl (hlock ▸ hk)
    cases answer with
    | failedBefore => exact hrecover
    | failedAfter =>
      apply hwrites
      · rfl
      · trivial
    | done =>
      dsimp only
      split
      · next hne => exact absurd (hinstalled.trans hgeneration) hne
      · apply hwrites
        · rfl
        · exact ⟨⟨howns.mem, howns.isOpen, howns.operation⟩, htarget⟩

theorem proceeds_finalize (ht : s.Holds lockKey (.finalize c row)) (now : Time)
    (file : FileAnswer) :
    Proceeds lockKey s (.finalize c row) (s.proceed lockKey now file (.finalize c row)) := by
  obtain ⟨howns, hfile⟩ := ht.relies
  obtain ⟨result, s', hok, hkeeps, hrows, hresolved, -⟩ :=
    finalize_ok h.inStep now howns.mem howns.isOpen hfile
  change Proceeds lockKey s _ (s.goOn c (s.finalize now row) _)
  unfold goOn
  rw [hok]
  apply proceeds_keeps h ht hkeeps
  · intro i hi hne
    refine hrows i hi ?_
    rintro rfl
    exact hne c.operationId rfl howns.operation
  · rfl
  · cases c with
    | install c => trivial
    | recover id => exact hresolved

theorem proceeds_markFailed {code : String}
    (ht : s.Holds lockKey (.markFailed c row code)) (now : Time) (file : FileAnswer) :
    Proceeds lockKey s (.markFailed c row code)
      (s.proceed lockKey now file (.markFailed c row code)) := by
  obtain ⟨howns, hfile⟩ := ht.relies
  obtain ⟨result, s', hok, hkeeps, hrows, hfailed⟩ :=
    markFailed_ok h.inStep howns.mem howns.isOpen hfile code
  change Proceeds lockKey s _ (s.goOn c (s.markFailed row code) _)
  unfold goOn
  rw [hok]
  apply proceeds_keeps h ht hkeeps
  · intro i hi hne
    refine hrows i hi ?_
    rintro rfl
    exact hne c.operationId rfl howns.operation
  · rfl
  · cases c with
    | install c => trivial
    | recover id => exact Or.inr (Or.inl hfailed)

theorem proceeds_surround (around : ImportSurroundings) (now : Time)
    (file : FileAnswer) :
    Proceeds lockKey s (.surround around) (s.proceed lockKey now file (.surround around)) := by
  unfold proceed
  dsimp only
  split
  · next hrefers =>
    obtain ⟨hcycles, hbound⟩ := hrefers
    obtain ⟨h1, h2, h3, -, -, h6, h7, h8, h9, h10, h11, h12⟩ := h.inStep
    exact ⟨⟨⟨h1, h2, h3, hcycles, fun i hi => (hbound i hi).1, h6, h7, h8, h9, h10, h11, h12⟩,
      h.explained⟩, ⟨(Grows.refl s).profiles, (Grows.refl s).file⟩, fun _ hk _ => hk,
      fun _ hi _ _ => ⟨hi, rfl⟩, by simp, by simp⟩
  · exact proceeds_end h rfl (fun _ hk _ => hk) h.explained

/-- **Every step of a call keeps the stores in step and spares the other calls.** -/
theorem proceeds_run (ht : s.Holds lockKey t) (reply : ImportReply) :
    Proceeds lockKey s t (s.run lockKey t reply) := by
  cases reply with
  | crash =>
    refine proceeds_end h rfl (fun k hk hother => ?_) h.explained
    exact List.mem_filter.mpr ⟨hk, bne_iff_ne.mpr fun heq => hother (Option.mem_def.mpr heq)⟩
  | next now file =>
    change Proceeds lockKey s t (s.proceed lockKey now file t)
    cases t with
    | called c =>
      cases c with
      | install c =>
        unfold proceed
        dsimp only
        cases hvalid : c.validated with
        | error e =>
          apply proceeds_end h
          · rfl
          · exact fun _ hk _ => hk
          · exact h.answer trivial
        | ok c' =>
          obtain ⟨rfl, hc⟩ := InstallCall.validated_ok hvalid
          apply proceeds_lockOperation h
          · rfl
          · rfl
          · exact fun _ => hc
      | recover id =>
        apply proceeds_lockOperation h
        · rfl
        · rfl
        · exact fun _ => trivial
    | findIntent c =>
      unfold proceed
      dsimp only
      split
      · exact proceeds_read h ht rfl ht.relies
      · exact proceeds_read h ht rfl ht.relies
    | matchOperation c row =>
      unfold proceed
      dsimp only
      split
      · exact proceeds_read h ht rfl trivial
      · exact proceeds_read h ht rfl trivial
    | prepare c => exact proceeds_prepare h ht now file
    | installSecret c row => exact proceeds_installSecret h ht file
    | readIntent c => exact proceeds_readIntent h ht
    | readFile c row =>
      have hoperation : (s.recoverUnlocked c row).operation = some c.operationId := by
        unfold recoverUnlocked
        dsimp only
        split
        · rfl
        · split <;> rfl
      have hraise : ∀ e : String, Explained (c, (.error e : ImportAnswer)) := by
        intro e
        cases c <;> trivial
      cases file with
      | done => exact proceeds_read h ht hoperation (relies_recoverUnlocked ht.relies)
      | failedBefore => exact proceeds_read h ht rfl (hraise _)
      | failedAfter => exact proceeds_read h ht rfl (hraise _)
    | finalize c row => exact proceeds_finalize h ht now file
    | markFailed c row code => exact proceeds_markFailed h ht now file
    | unlock c answer =>
      refine proceeds_end h rfl (fun k hk hother => ?_) (h.answer ht.relies)
      refine List.mem_filter.mpr ⟨hk, bne_iff_ne.mpr fun heq => hother ?_⟩
      rw [heq]
      rfl
    | surround around => exact proceeds_surround h around now file

end

theorem respects_imports (lockKey : Uuid → ℕ) :
    (importProgram lockKey).Respects Consistent (fun s t => s.Holds lockKey t) (Apart lockKey)
      (fun _ => True) (fun _ _ _ => True) := by
  constructor
  case symm => exact fun t u h k hu ht => h k ht hu
  case start =>
    intro s request _ _
    cases request with
    | call c => exact ⟨fun k hk => absurd hk (by simp [importProgram, ImportTask.lock,
        ImportTask.operation]), trivial⟩
    | surround around => exact ⟨fun k hk => absurd hk (by simp [importProgram, ImportTask.lock,
        ImportTask.operation]), trivial⟩
  case apart =>
    intro request u k _ hk
    cases request <;> exact absurd hk (by simp [importProgram, ImportTask.lock,
      ImportTask.operation])
  case shared => exact fun s t reply _ h ht => (proceeds_run h ht reply).consistent
  case own => exact fun s t reply _ h ht t' ht' => (proceeds_run h ht reply).holds t' ht'
  case other =>
    intro s t reply _ h ht u hu hapart
    have hproceeds := proceeds_run h ht reply
    exact ⟨hproceeds.spares hu hapart, fun t' ht' => hproceeds.apart hu hapart ht'⟩

/-! ## Runs -/

theorem free_imports {p : Pool ImportStore ImportTask}
    (h : Program.Free Consistent (fun s t => s.Holds lockKey t) (Apart lockKey) p)
    (turns : List (Turn ImportRequest ImportReply)) :
    Program.Free Consistent (fun s t => s.Holds lockKey t) (Apart lockKey)
      ((importProgram lockKey).after p turns) := by
  apply (respects_imports lockKey).after h fun _ _ => trivial
  apply Trace.along_of_forall
  rintro (request | ⟨i, reply⟩) _ q
  · trivial
  · exact fun _ _ => trivial

theorem grows_imports {p : Pool ImportStore ImportTask}
    (h : Program.Free Consistent (fun s t => s.Holds lockKey t) (Apart lockKey) p)
    (turns : List (Turn ImportRequest ImportReply)) :
    Grows p.shared ((importProgram lockKey).after p turns).shared := by
  induction turns generalizing p with
  | nil => exact Grows.refl _
  | cons turn turns ih =>
    have hstep : Grows p.shared ((importProgram lockKey).step p turn).shared := by
      rcases (importProgram lockKey).step_cases p turn with heq | ⟨request, -, heq⟩ |
        ⟨i, reply, before, t, rest, -, -, hsplit, heq⟩
      · rw [heq]
        exact Grows.refl _
      · rw [heq]
        exact Grows.refl _
      · rw [heq]
        have ht := h.each t (hsplit ▸ List.mem_append_right _ (by simp))
        exact (proceeds_run h.shared ht reply).grows
    exact hstep.trans (ih (free_imports h [turn]))

/-- The answers of the database and of the file system to a recovery that is not disturbed. -/
def recoveryReplies (now : Time) : List ImportReply := List.replicate 5 (.next now .done)

/-- **A recovery ends an open intent** by the generation of the file. -/
theorem recover_alone (h : s.InStep) (hrow : row ∈ s.intents) (hopen : row.isOpen = true)
    (hfree : lockKey row.operationId ∉ s.locks) (now : Time) :
    ∃ r, ((importProgram lockKey).solo s (.called (.recover row.operationId))
        (recoveryReplies now)).1.answers = s.answers ++ [(.recover row.operationId, .ok r)] ∧
      Resolved r ∧ (r.state = .completed ↔
        s.file.generation row.logicalName = some row.targetGeneration ∧ s.Bindable now row) := by
  let s' : ImportStore := { s with locks := lockKey row.operationId :: s.locks }
  have hs' : s'.InStep := h.of_same rfl rfl rfl rfl
  have hlock : s.run lockKey (.called (.recover row.operationId)) (.next now .done) =
      (s', some (.readIntent (.recover row.operationId))) := if_neg hfree
  have hfound : s'.intentForOperation row.operationId = some row := h.intents.find?_eq_some hrow
  have hread : s'.run lockKey (.readIntent (.recover row.operationId)) (.next now .done) =
      (s', some (.readFile (.recover row.operationId) row)) := by
    change s'.readIntent (.recover row.operationId) = _
    have hpending : row.state = .prepared ∨ row.state = .installed := by
      simpa [SecretIntent.isOpen] using hopen
    unfold readIntent ImportCall.operationId
    rw [hfound]
    rcases hpending with hstate | hstate
    · simp only [hstate]
    · simp only [hstate]
  have hdecide : s'.run lockKey (.readFile (.recover row.operationId) row) (.next now .done) =
      (s', some (s'.recoverUnlocked (.recover row.operationId) row)) := rfl
  have hend : ∀ {t : ImportTask} {r : WebshareProfileImportResult} {s'' : ImportStore},
      s'.recoverUnlocked (.recover row.operationId) row = t →
      s'.run lockKey t (.next now .done) = (s'', some (.unlock (.recover row.operationId) (.ok r))) →
      s''.answers = s'.answers →
      ((importProgram lockKey).solo s (.called (.recover row.operationId))
        (recoveryReplies now)).1.answers = s.answers ++ [(.recover row.operationId, .ok r)] := by
    intro t r s'' ht hrun hanswers
    have hunlock : s''.run lockKey (.unlock (.recover row.operationId) (.ok r)) (.next now .done) =
        ({ s''.unlock lockKey (.recover row.operationId) with
            answers := s''.answers ++ [(.recover row.operationId, .ok r)] }, none) := rfl
    simp only [recoveryReplies, List.replicate, Program.solo, importProgram, hlock, hread, hdecide,
      ht, hrun, hunlock]
    rw [hanswers]
  by_cases htarget : s.file.generation row.logicalName = some row.targetGeneration
  · have hnext : s'.recoverUnlocked (.recover row.operationId) row =
        .finalize (.recover row.operationId) row := if_pos htarget
    obtain ⟨r, s'', hok, hkeeps, -, hresolved, hiff⟩ :=
      finalize_ok hs' now hrow hopen htarget
    refine ⟨r, hend hnext ?_ hkeeps.answers, hresolved, ?_⟩
    · change s'.goOn _ (s'.finalize now row) _ = _
      rw [hok]
      rfl
    · rw [hiff]
      exact ⟨fun hbinds => ⟨htarget, hbinds⟩, fun hboth => hboth.2⟩
  · obtain ⟨code, hnext⟩ : ∃ code, s'.recoverUnlocked (.recover row.operationId) row =
        .markFailed (.recover row.operationId) row code := by
      have hother : ¬ s'.file.generation row.logicalName = some row.targetGeneration := htarget
      unfold recoverUnlocked
      dsimp only
      rw [if_neg hother]
      split
      · exact ⟨_, rfl⟩
      · exact ⟨_, rfl⟩
    obtain ⟨r, s'', hok, hkeeps, -, hfailed⟩ := markFailed_ok hs' hrow hopen htarget code
    refine ⟨r, hend hnext ?_ hkeeps.answers, Or.inr (Or.inl hfailed), ?_⟩
    · change s'.goOn _ (s'.markFailed row code) _ = _
      rw [hok]
      rfl
    · rw [hfailed]
      exact iff_of_false (by simp) fun hboth => htarget hboth.1

end Steps

/-! ## The stores in step -/

/-- **The secret file and the database stay in step.**  In every run of imports and recoveries, with
crashes anywhere: a profile has at most one open intent; an enabled profile has none, and the file
holds its generation; the file is ahead of the database by one only while an open intent targets
that generation; neither store goes back; and a recovery answers that its intent is completed,
failed, or waits for a cycle.  An undisturbed recovery of an open intent ends, and completes it
exactly when the file holds the target generation and there is a safe cycle with an allocation;
among other calls, the step that ends the intent decides in the same way. -/
theorem stores_in_step (lockKey : Uuid → ℕ) {s : ImportStore} (h : s.InStep) (hs : s.answers = [])
    (turns : List (Turn ImportRequest ImportReply)) :
    let p := (importProgram lockKey).after ⟨s, []⟩ turns
    let t := p.shared
    (∀ i ∈ t.intents, ∀ j ∈ t.intents, i.isOpen = true → j.isOpen = true →
      i.profileId = j.profileId → i = j) ∧
    (∀ q ∈ t.profiles, q.enabled = true → t.hasOpenIntent q.id = false ∧
      t.file.generation q.logicalName = some q.secretGeneration) ∧
    (∀ q ∈ t.profiles, t.file.generation q.logicalName = q.installed ∨
      t.file.generation q.logicalName = some (q.secretGeneration + 1) ∧
        ∃ i ∈ t.intents, i.isOpen = true ∧ i.profileId = q.id ∧
          i.targetGeneration = q.secretGeneration + 1) ∧
    (∀ more, Grows t ((importProgram lockKey).after ⟨s, []⟩ (turns ++ more)).shared) ∧
    (∀ operationId r, (.recover operationId, .ok r) ∈ t.answers → Resolved r) ∧
    (∀ i ∈ t.intents, i.isOpen = true → lockKey i.operationId ∉ t.locks → ∀ now,
      ∃ r, ((importProgram lockKey).after ⟨s, []⟩ (turns ++ .spawn (.call (.recover i.operationId)) ::
          (recoveryReplies now).map (.resume p.tasks.length))).shared.answers =
          t.answers ++ [(.recover i.operationId, .ok r)] ∧
        Resolved r ∧ (r.state = .completed ↔
          t.file.generation i.logicalName = some i.targetGeneration ∧ t.Bindable now i)) ∧
    (∀ c i now file, .finalize c i ∈ p.tasks →
      t.file.generation i.logicalName = some i.targetGeneration ∧
      ∃ r t', t.run lockKey (.finalize c i) (.next now file) = (t', some (.unlock c (.ok r))) ∧
        Resolved r ∧ (r.state = .completed ↔ t.Bindable now i)) ∧
    (∀ c i code now file, .markFailed c i code ∈ p.tasks →
      t.file.generation i.logicalName ≠ some i.targetGeneration ∧
      ∃ r t', t.run lockKey (.markFailed c i code) (.next now file) =
        (t', some (.unlock c (.ok r))) ∧ r.state = .failed) := by
  intro p t
  have hstart : Consistent s := ⟨h, by simp [hs]⟩
  have hfree : Program.Free Consistent (fun s t => s.Holds lockKey t) (Apart lockKey) p :=
    free_imports (Program.Free.of_shared hstart) turns
  have hstep : t.InStep := hfree.shared.inStep
  have hmore : ∀ more, (importProgram lockKey).after ⟨s, []⟩ (turns ++ more) =
      (importProgram lockKey).after p more := fun more => Trace.exec_append _ _ turns more
  refine ⟨hstep.single, fun q hq => hstep.of_enabled hq, fun q hq => hstep.ahead hq,
    fun more => ?_, fun id r hr => hfree.shared.explained _ hr,
    fun i hi hopen hlock now => ?_, fun c i now file hmem => ?_, fun c i code now file hmem => ?_⟩
  · rw [hmore]
    exact grows_imports hfree more
  · have hspawn : (importProgram lockKey).step p (.spawn (.call (.recover i.operationId))) =
        ⟨t, p.tasks ++ [.called (.recover i.operationId)]⟩ := rfl
    rw [hmore, Program.after, Trace.exec_cons, hspawn]
    have hsolo := (importProgram lockKey).after_solo p.tasks t (.called (.recover i.operationId))
      (recoveryReplies now)
    rw [Program.after] at hsolo
    rw [hsolo]
    exact recover_alone hstep hi hopen hlock now
  · obtain ⟨howns, hfile⟩ := (hfree.each _ hmem).relies
    obtain ⟨r, t', hok, -, -, hresolved, hiff⟩ :=
      finalize_ok hstep now howns.mem howns.isOpen hfile
    refine ⟨hfile, r, t', ?_, hresolved, hiff⟩
    change t.goOn c (t.finalize now i) _ = _
    rw [hok]
    rfl
  · obtain ⟨howns, hfile⟩ := (hfree.each _ hmem).relies
    obtain ⟨r, t', hok, -, -, hfailed⟩ := markFailed_ok hstep howns.mem howns.isOpen hfile code
    refine ⟨hfile, r, t', ?_, hfailed⟩
    change t.goOn c (t.markFailed i code) _ = _
    rw [hok]
    rfl


/-- One safe cycle, and one operation that an operator has started. -/
def oneCycle : ImportStore where
  cycles := [{ provider := "webshare", cycleStart := 0, cycleEnd := 100, operationalBytes := 1000
               dailyBytes := 1000, pilotBytes := 0, pilotActive := false, providerReportedBytes := 0
               applicationBytes := 0, reconciledAt := some 0, reconciliationOk := true
               killSwitch := false, lifecycle := .active, unmanagedAllocationBytes := 0 }]
  operations := [⟨1, "operator", "profile.secret.install", "started"⟩]

/-- The first secret of a profile. -/
def firstSecret : InstallCall where
  operationId := 1
  actorId := "operator"
  secret :=
    { provider := "webshare", logicalName := "main", generation := 1
      endpointId := "webshare-residential-backbone", protocol := "http", host := "p.webshare.io"
      port := 80, username := "user", password := "secret", countries := ["DE"]
      stickySessionTtlSeconds := 600 }
  expectedGeneration := none
  displayName := some "Main"
  allocatedBytes := some 500

/-- The session ends after the file is written. -/
def crashedRun : List (Turn ImportRequest ImportReply) :=
  .spawn (.call (.install firstSecret)) ::
    (List.replicate 4 (.resume 0 (.next 10 .done)) ++ [.resume 0 .crash])

theorem oneCycle_inStep : oneCycle.InStep := by
  constructor <;> simp [oneCycle, Keyed, SecretFile.generation, SecretFile.record]

/-- After the crash the file is ahead, and the open intent targets its generation. -/
theorem stores_in_step_crashed :
    ((importProgram id).after ⟨oneCycle, []⟩ crashedRun).shared.file.generation "main" = some 1 ∧
      ∀ q ∈ ((importProgram id).after ⟨oneCycle, []⟩ crashedRun).shared.profiles,
        ((importProgram id).after ⟨oneCycle, []⟩ crashedRun).shared.file.generation q.logicalName =
            q.installed ∨
          ((importProgram id).after ⟨oneCycle, []⟩ crashedRun).shared.file.generation q.logicalName =
              some (q.secretGeneration + 1) ∧
            ∃ i ∈ ((importProgram id).after ⟨oneCycle, []⟩ crashedRun).shared.intents,
              i.isOpen = true ∧ i.profileId = q.id ∧
                i.targetGeneration = q.secretGeneration + 1 :=
  ⟨by decide +kernel, (stores_in_step id oneCycle_inStep rfl crashedRun).2.2.1⟩

end ImportStore

end CommerceCollector
