import CommerceCollector.Foundation.Keyset
import CommerceCollector.Ops.Schema

/-!
# Paging through the runs

`list_runs` of `app.py` with the query `RUNS`: the newest runs that were created before a cursor, at
most `limit` of them, and the creation time of the last one as the next cursor, if there are
`limit`. The query does not say in which order runs with one creation time come, and the schedule
leader creates several in one transaction.

A run is lost exactly when a page ends between two runs that were created at the same time.
-/

namespace CommerceCollector

/-- A row of `catalogue.runs`, as far as the pages depend on it. -/
structure ListedRun where
  id : Uuid
  createdAt : Time
  deriving DecidableEq, Repr

/-- `_limit`, of the parameter of a request, if that is a number. -/
def queryLimit (parameter : Option ℤ) (default maximum : ℤ) : ℤ :=
  match parameter with
  | none => default
  | some n => min n maximum

/-- `_limit(request, default=25, maximum=200)`. -/
def runLimit (parameter : Option ℤ) : ℕ := (queryLimit parameter 25 200).toNat

/-- The order of `RUNS`. -/
def NotOlder (r s : ListedRun) : Prop := s.createdAt ≤ r.createdAt

/-- What the cursor of `RUNS` compares. -/
def Older (r s : ListedRun) : Prop := r.createdAt < s.createdAt

instance : DecidableRel NotOlder := fun r s => inferInstanceAs (Decidable (s.createdAt ≤ r.createdAt))

instance : DecidableRel Older := fun r s => inferInstanceAs (Decidable (r.createdAt < s.createdAt))

/-- The runs that `RUNS` selects for a cursor. -/
def selectedRuns (runs : List ListedRun) : Option Time → List ListedRun
  | none => runs
  | some cursor => runs.filter fun r => r.createdAt < cursor

/-- `RUNS` may answer with these rows. -/
def RunsAnswer (runs : List ListedRun) (limit : ℕ) (cursor : Option Time) (rows : List ListedRun) :
    Prop :=
  ∃ l, Keyset.Arranges NotOlder (selectedRuns runs cursor) l ∧ rows = l.take limit

/-- `next_cursor` of `list_runs`. -/
def nextCursor (limit : ℕ) (rows : List ListedRun) : Option Time :=
  if rows.length = limit then rows.getLast?.map (·.createdAt) else none

/-- The runs that a reader gets who follows the cursors from a request until there is none. -/
inductive Followed (runs : List ListedRun) (limit : ℕ) : Option Time → List ListedRun → Prop
  | last {cursor : Option Time} {rows : List ListedRun} (answer : RunsAnswer runs limit cursor rows)
      (ends : nextCursor limit rows = none) : Followed runs limit cursor rows
  | next {cursor : Option Time} {rows shown : List ListedRun} {c : Time}
      (answer : RunsAnswer runs limit cursor rows) (more : nextCursor limit rows = some c)
      (rest : Followed runs limit (some c) shown) : Followed runs limit cursor (rows ++ shown)

/-- However `RUNS` answers, the cursors come to an end. -/
inductive CursorsEnd (runs : List ListedRun) (limit : ℕ) : Option Time → Prop
  | intro {cursor : Option Time} (answered : ∃ rows, RunsAnswer runs limit cursor rows)
      (step : ∀ rows c, RunsAnswer runs limit cursor rows → nextCursor limit rows = some c →
        CursorsEnd runs limit (some c)) : CursorsEnd runs limit cursor

/-- No page with runs behind it ends between two runs that were created at the same time. -/
def CutsApart (runs : List ListedRun) (limit : ℕ) : Prop :=
  ∀ k, 0 < k → k * limit < runs.length →
    ((runs.map (·.createdAt)).insertionSort (· ≥ ·))[k * limit - 1]? ≠
      ((runs.map (·.createdAt)).insertionSort (· ≥ ·))[k * limit]?

variable {runs : List ListedRun} {limit : ℕ}

/-! ## The query -/

theorem notOlder_total (r s : ListedRun) : NotOlder r s ∨ NotOlder s r := Nat.le_total _ _

theorem notOlder_trans (r s t : ListedRun) (hrs : NotOlder r s) (hst : NotOlder s t) : NotOlder r t :=
  Nat.le_trans hst hrs

theorem older_trans (r s t : ListedRun) (hrs : Older r s) (hst : Older s t) : Older r t :=
  Nat.lt_trans hrs hst

theorem older_irrefl (r : ListedRun) : ¬Older r r := Nat.lt_irrefl _

theorem exists_sorted (l : List ListedRun) : ∃ l', Keyset.Arranges NotOlder l l' :=
  Keyset.exists_arranges notOlder_total notOlder_trans l

/-- What a cursor selects is what lies below the run that it was read from. -/
theorem selectedRuns_eq (c : Option ListedRun) :
    selectedRuns runs (c.map (·.createdAt)) = Keyset.visible Older runs c := by
  cases c with
  | none => rfl
  | some r => rfl

variable {l : List ListedRun}

theorem times_of_arranges (h : Keyset.Arranges NotOlder runs l) :
    l.map (·.createdAt) = (runs.map (·.createdAt)).insertionSort (· ≥ ·) := by
  have hperm : (l.map (·.createdAt)).Perm ((runs.map (·.createdAt)).insertionSort (· ≥ ·)) :=
    (h.1.map _).trans (List.perm_insertionSort _ _).symm
  have hsorted : (l.map (·.createdAt)).Pairwise (· ≥ ·) := List.pairwise_map.mpr h.2
  exact hperm.eq_of_pairwise (fun a b _ _ hab hba => Nat.le_antisymm hba hab) hsorted
    (List.pairwise_insertionSort _ _)

/-- **When the pages are separated**: if none of them ends between two runs of one creation time. -/
theorem separated_iff_cutsApart (hpos : 0 < limit) :
    Keyset.Separated NotOlder Older runs limit ↔ CutsApart runs limit := by
  constructor
  · intro hsep k hk hlt
    obtain ⟨l, hl⟩ := exists_sorted runs
    have hlength : l.length = runs.length := hl.1.length_eq
    have hpos' : 0 < k * limit := Nat.mul_pos hk hpos
    have hlast : k * limit - 1 < l.length := by omega
    have hfirst : k * limit < l.length := by omega
    have hbehind := (hsep l hl k hk _ (List.getElem?_eq_getElem hlast) hfirst).2 l[k * limit]
      (List.mem_drop_iff_getElem.mpr ⟨0, by omega, by simp⟩)
    rw [← times_of_arranges hl, List.getElem?_map, List.getElem?_map,
      List.getElem?_eq_getElem hlast, List.getElem?_eq_getElem hfirst]
    intro heq
    exact absurd (Option.some.inj heq) (Nat.ne_of_gt hbehind)
  · intro happart l hl k hk r hr hlt
    have hlength : l.length = runs.length := hl.1.length_eq
    have hpos' : 0 < k * limit := Nat.mul_pos hk hpos
    obtain ⟨hlast, rfl⟩ := List.getElem?_eq_some_iff.mp hr
    have hne : l[k * limit - 1].createdAt ≠ l[k * limit].createdAt := by
      have hcut := happart k hk (by omega)
      rw [← times_of_arranges hl, List.getElem?_map, List.getElem?_map,
        List.getElem?_eq_getElem hlast, List.getElem?_eq_getElem hlt] at hcut
      exact fun heq => hcut (congrArg some heq)
    have hsorted := List.pairwise_iff_getElem.mp hl.2
    constructor
    · intro x hx hbelow
      obtain ⟨i, hi, rfl⟩ := List.mem_take_iff_getElem.mp hx
      rcases Nat.lt_or_eq_of_le (Nat.le_sub_one_of_lt (lt_of_lt_of_le hi (Nat.min_le_left _ _))) with
        hlt' | heq
      · exact absurd hbelow (Nat.not_lt.mpr (hsorted i _ _ hlast hlt'))
      · subst heq
        exact older_irrefl _ hbelow
    · intro x hx
      obtain ⟨i, hi, rfl⟩ := List.mem_drop_iff_getElem.mp hx
      have hcut : l[k * limit].createdAt < l[k * limit - 1].createdAt :=
        lt_of_le_of_ne (hsorted _ _ hlast hlt (by omega)) (Ne.symm hne)
      rcases Nat.eq_zero_or_pos i with rfl | hi'
      · exact hcut
      · exact Nat.lt_of_le_of_lt (hsorted (k * limit) (k * limit + i) hlt (by omega) (by omega)) hcut

/-! ## Following the cursors -/

theorem nextCursor_take (hpos : 0 < limit) {r : ListedRun} (hfull : limit ≤ l.length)
    (hr : l[limit - 1]? = some r) : nextCursor limit (l.take limit) = some r.createdAt := by
  have hlength : (l.take limit).length = limit := by
    rw [List.length_take, Nat.min_eq_left hfull]
  rw [nextCursor, if_pos hlength, List.getLast?_eq_getElem?, hlength,
    List.getElem?_take_of_lt (by omega), hr]
  rfl

variable {cursor : Option Time}

theorem answer_cases (hpos : 0 < limit) {rows : List ListedRun}
    (h : RunsAnswer runs limit cursor rows) :
    ∃ l, Keyset.Arranges NotOlder (selectedRuns runs cursor) l ∧ rows = l.take limit ∧
      ((l.length < limit ∧ rows = l ∧ nextCursor limit rows = none) ∨
        ∃ r, limit ≤ l.length ∧ l[limit - 1]? = some r ∧
          nextCursor limit rows = some r.createdAt) := by
  obtain ⟨l, hl, rfl⟩ := h
  refine ⟨l, hl, rfl, ?_⟩
  rcases Nat.lt_or_ge l.length limit with hshort | hfull
  · have hall : l.take limit = l := List.take_of_length_le hshort.le
    refine Or.inl ⟨hshort, hall, ?_⟩
    rw [hall, nextCursor, if_neg hshort.ne]
  · have hlast : limit - 1 < l.length := by omega
    have hr : l[limit - 1]? = some l[limit - 1] := List.getElem?_eq_getElem hlast
    exact Or.inr ⟨l[limit - 1], hfull, hr, nextCursor_take hpos hfull hr⟩

theorem visible_eq_nil_of_last {c : Option ListedRun} {r : ListedRun}
    (hl : Keyset.Arranges NotOlder (Keyset.visible Older runs c) l)
    (hlast : l[l.length - 1]? = some r) : Keyset.visible Older runs (some r) = [] := by
  refine List.eq_nil_iff_forall_not_mem.mpr fun x hx => ?_
  obtain ⟨hmem, holder⟩ := List.mem_filter.mp hx
  have hbelow : Older x r := of_decide_eq_true holder
  obtain ⟨hlt, rfl⟩ := List.getElem?_eq_some_iff.mp hlast
  -- a run that is older than the last one shown was selected too
  have hselected : x ∈ Keyset.visible Older runs c := by
    cases c with
    | none => exact hmem
    | some q =>
      have hq : l[l.length - 1] ∈ Keyset.visible Older runs (some q) :=
        hl.1.mem_iff.mp (List.getElem_mem hlt)
      have hbelow' : Older l[l.length - 1] q := of_decide_eq_true (List.mem_filter.mp hq).2
      exact List.mem_filter.mpr ⟨hmem, decide_eq_true (older_trans _ _ _ hbelow hbelow')⟩
  obtain ⟨i, hi, rfl⟩ := List.mem_iff_getElem.mp (hl.1.mem_iff.mpr hselected)
  rcases Nat.lt_or_eq_of_le (Nat.le_sub_one_of_lt hi) with hlt' | heq
  · exact absurd hbelow (Nat.not_lt.mpr (List.pairwise_iff_getElem.mp hl.2 i _ hi hlt hlt'))
  · simp only [heq] at hbelow
    exact older_irrefl _ hbelow

variable {shown : List ListedRun}

theorem Followed.eq_nil (hpos : 0 < limit) (h : Followed runs limit cursor shown)
    (hnone : selectedRuns runs cursor = []) : shown = [] := by
  have hrows : ∀ rows, RunsAnswer runs limit cursor rows → rows = [] := by
    rintro rows ⟨l, hl, rfl⟩
    rw [hnone] at hl
    rw [hl.1.eq_nil, List.take_nil]
  cases h with
  | last answer _ => exact hrows _ answer
  | next answer more _ =>
    have hnext : nextCursor limit [] = none := if_neg (Nat.ne_of_lt hpos)
    rw [hrows _ answer, hnext] at more
    cases more

theorem Followed.run (hpos : 0 < limit)
    (h : Followed runs limit cursor shown) : ∀ c : Option ListedRun,
      cursor = c.map (·.createdAt) → Keyset.Run NotOlder Older runs limit c shown := by
  induction h with
  | last answer ends =>
    rintro c rfl
    obtain ⟨l, hl, -, ⟨hshort, rfl, -⟩ | ⟨r, -, -, hnext⟩⟩ := answer_cases hpos answer
    · rw [selectedRuns_eq] at hl
      exact .last hl hshort.le
    · rw [hnext] at ends
      cases ends
  | next answer more rest ih =>
    rintro c rfl
    obtain ⟨l, hl, rfl, ⟨-, -, hnone⟩ | ⟨r, hfull, hr, hnext⟩⟩ := answer_cases hpos answer
    · rw [hnone] at more
      cases more
    · rw [hnext] at more
      cases more
      rw [selectedRuns_eq] at hl
      rcases Nat.lt_or_eq_of_le hfull with hlt | heq
      · exact .more hl hlt hr (ih (some r) rfl)
      · -- the page is full and the last one, and the next one is empty
        subst heq
        have hnothing := rest.eq_nil hpos
          ((selectedRuns_eq (some r)).trans (visible_eq_nil_of_last hl hr))
        rw [hnothing, List.append_nil, List.take_length]
        exact .last hl (le_refl _)

/-- The pages of the keyset are what a reader gets who follows the cursors. -/
theorem followed_of_run (hpos : 0 < limit) {c : Option ListedRun}
    (h : Keyset.Run NotOlder Older runs limit c shown) :
    Followed runs limit (c.map (·.createdAt)) shown := by
  induction h with
  | @last c l arranged fits =>
    have hanswer : RunsAnswer runs limit (c.map (·.createdAt)) (l.take limit) :=
      ⟨l, (selectedRuns_eq c).symm ▸ arranged, rfl⟩
    have hall : l.take limit = l := List.take_of_length_le fits
    obtain hshort | heq := Nat.lt_or_eq_of_le fits
    · rw [hall] at hanswer
      exact .last hanswer (by rw [nextCursor, if_neg hshort.ne])
    · subst heq
      have hlast : l.length - 1 < l.length := by omega
      have hnothing := visible_eq_nil_of_last arranged (List.getElem?_eq_getElem hlast)
      have hnext := nextCursor_take hpos (le_refl _) (List.getElem?_eq_getElem hlast)
      rw [hall] at hnext
      have hend : Followed runs l.length (some l[l.length - 1].createdAt) [] := by
        refine .last ⟨[], ?_, List.take_nil.symm⟩ (if_neg (Nat.ne_of_lt hpos))
        rw [show selectedRuns runs (some l[l.length - 1].createdAt) = [] from hnothing]
        exact ⟨List.Perm.refl _, List.Pairwise.nil⟩
      rw [hall] at hanswer
      have hwhole := Followed.next hanswer hnext hend
      rwa [List.append_nil] at hwhole
  | @more c l r shown arranged fits ends _ ih =>
    exact .next ⟨l, (selectedRuns_eq c).symm ▸ arranged, rfl⟩ (nextCursor_take hpos fits.le ends) ih

/-- The cursors come to an end, because every one of them is older than the one before. -/
theorem cursorsEnd (hpos : 0 < limit) (c : Option ListedRun) :
    CursorsEnd runs limit (c.map (·.createdAt)) := by
  induction hn : (Keyset.visible Older runs c).length using Nat.strong_induction_on generalizing c with
  | _ n ih =>
    refine .intro ?_ fun rows t answer more => ?_
    · obtain ⟨l, hl⟩ := exists_sorted (selectedRuns runs (c.map (·.createdAt)))
      exact ⟨l.take limit, l, hl, rfl⟩
    · obtain ⟨l, hl, rfl, ⟨-, -, hnone⟩ | ⟨r, hfull, hr, hnext⟩⟩ := answer_cases hpos answer
      · rw [hnone] at more
        cases more
      · rw [hnext] at more
        cases more
        rw [selectedRuns_eq] at hl
        have hmem : r ∈ Keyset.visible Older runs c :=
          hl.1.mem_iff.mp (List.mem_of_getElem? hr)
        exact ih _ (hn ▸ Keyset.length_visible_lt older_trans older_irrefl hmem) (some r) rfl

/-- **When paging through the runs loses nothing.**  For every limit that a request may ask for, the
cursors come to an end; and the reader always gets every run exactly once, newest first, if and only
if no page that has runs behind it ends between two runs that were created at the same time. -/
theorem run_pages_complete_iff (runs : List ListedRun) (hnodup : runs.Nodup) (parameter : Option ℤ)
    (hlimit : ∀ n ∈ parameter, 1 ≤ n) :
    CursorsEnd runs (runLimit parameter) none ∧
      ((∀ shown, Followed runs (runLimit parameter) none shown →
        shown.Perm runs ∧ shown.Pairwise fun r s => s.createdAt ≤ r.createdAt) ↔
          CutsApart runs (runLimit parameter)) := by
  have hpos : 0 < runLimit parameter := by
    cases parameter with
    | none => decide
    | some n =>
      have hn : 1 ≤ n := hlimit n rfl
      change 0 < (min n 200).toNat
      omega
  refine ⟨cursorsEnd hpos none, ?_⟩
  rw [← separated_iff_cutsApart hpos,
    ← Keyset.complete_iff_separated exists_sorted older_trans older_irrefl hpos hnodup]
  constructor
  · intro h shown hrun
    exact h shown (followed_of_run hpos hrun)
  · intro h shown hfollowed
    exact h shown (hfollowed.run hpos none rfl)

/-- Two runs that were created one after the other, on pages of one. -/
theorem run_pages_two_apart : CutsApart [⟨1, 10⟩, ⟨2, 20⟩] 1 ∧
    ∀ shown, Followed [⟨1, 10⟩, ⟨2, 20⟩] 1 none shown →
      shown.Perm [⟨1, 10⟩, ⟨2, 20⟩] ∧ shown.Pairwise fun r s => s.createdAt ≤ r.createdAt := by
  have hcuts : CutsApart [⟨1, 10⟩, ⟨2, 20⟩] 1 := by
    intro k hk hlt
    have hlt' : k * 1 < 2 := hlt
    obtain rfl : k = 1 := by omega
    decide
  exact ⟨hcuts, (run_pages_complete_iff [⟨1, 10⟩, ⟨2, 20⟩] (by decide) (some 1)
    (by decide)).2.mpr hcuts⟩

/-- Three runs that were created in one transaction, on pages of two: the third one is never
shown. -/
theorem run_pages_lose_ties : ¬∀ shown, Followed [⟨1, 10⟩, ⟨2, 10⟩, ⟨3, 10⟩] 2 none shown →
    shown.Perm [⟨1, 10⟩, ⟨2, 10⟩, ⟨3, 10⟩] ∧ shown.Pairwise fun r s => s.createdAt ≤ r.createdAt := by
  intro h
  have hfirst : RunsAnswer [⟨1, 10⟩, ⟨2, 10⟩, ⟨3, 10⟩] 2 none [⟨1, 10⟩, ⟨2, 10⟩] :=
    ⟨_, ⟨List.Perm.refl _, by decide⟩, rfl⟩
  have hrest : Followed [⟨1, 10⟩, ⟨2, 10⟩, ⟨3, 10⟩] 2 (some 10) [] :=
    .last ⟨[], ⟨List.Perm.refl _, List.Pairwise.nil⟩, rfl⟩ rfl
  have hshown := (h _ (.next hfirst rfl hrest)).1.length_eq
  exact absurd hshown (by decide)

end CommerceCollector
