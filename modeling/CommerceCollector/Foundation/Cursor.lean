import CommerceCollector.Foundation.Table
import CommerceCollector.Foundation.Trace
import Mathlib.Logic.Function.Basic
import Mathlib.Order.MinMax

/-!
# Reading a log behind a shared cursor

Several readers hand out the rows of a growing log and share one cursor, the watermark.  A reader
notes the watermark (`ask`), reads one page of the rows behind it (`read`), and later hands out the
keys of the page and raises the watermark to them (`give`); between two of these steps anything may
happen.  Rows appear in batches, and their keys may appear in any order.

`Inv` holds along every run.  `NoSkip`, that every visible row up to the watermark has been handed
out, is kept as long as no row appears below the watermark or below a row that a reader holds.  The
keys are handed out in increasing order exactly as long as every reader that holds rows finds the
watermark where it left it, provided that the keys appear in increasing order.  Readers that take
turns always find it there.
-/

namespace Cursor

open Relational

/-- Where a reader stands. -/
inductive Phase (α : Type*)
  | idle
  /-- The reader has noted the watermark. -/
  | asked (after : ℕ)
  /-- The reader holds the rows of a page. -/
  | fetched (after : ℕ) (rows : List α)

/-- The visible rows, the watermark, the keys handed out, and the readers. -/
structure State (α δ : Type*) where
  visible : List α
  watermark : ℕ
  given : List ℕ
  phase : δ → Phase α

/-- A step of the log or of a reader. -/
inductive Action (α δ : Type*)
  | append (rows : List α)
  | ask (d : δ)
  | read (d : δ)
  | give (d : δ)
  /-- The reader gives up and forgets its page. -/
  | drop (d : δ)

variable {α δ : Type*} [DecidableEq δ] (key : α → ℕ) (limit : ℕ)

/-- The watermark after some rows were handed out. -/
def raise (watermark : ℕ) (rows : List α) : ℕ := rows.foldl (fun w r => max w (key r)) watermark

/-- The effect of a step. -/
def step (s : State α δ) : Action α δ → State α δ
  | .append rows => { s with visible := s.visible ++ rows }
  | .ask d =>
    match s.phase d with
    | .idle => { s with phase := Function.update s.phase d (.asked s.watermark) }
    | _ => s
  | .read d =>
    match s.phase d with
    | .asked after =>
      { s with
        phase := Function.update s.phase d (.fetched after (page key after limit s.visible)) }
    | _ => s
  | .give d =>
    match s.phase d with
    | .fetched _ rows =>
      { s with
        watermark := raise key s.watermark rows
        given := s.given ++ rows.map key
        phase := Function.update s.phase d .idle }
    | _ => s
  | .drop d => { s with phase := Function.update s.phase d .idle }

/-! ## Conditions on a step -/

/-- Rows appear with new keys. -/
def Distinct (s : State α δ) : Action α δ → Prop
  | .append rows => Keyed key (s.visible ++ rows)
  | _ => True

/-- Rows appear above the watermark and above the rows that readers hold. -/
def Ahead (s : State α δ) : Action α δ → Prop
  | .append rows => ∀ r ∈ rows, s.watermark < key r ∧
      ∀ d after held, s.phase d = .fetched after held → ∀ v ∈ held, key v < key r
  | _ => True

/-- Rows appear above all visible rows. -/
def InOrder (s : State α δ) : Action α δ → Prop
  | .append rows => ∀ r ∈ rows, ∀ v ∈ s.visible, key v < key r
  | _ => True

/-- A reader that hands out rows finds the watermark where it left it. -/
def Undisturbed (s : State α δ) : Action α δ → Prop
  | .give d => ∀ after rows, s.phase d = .fetched after rows → rows = [] ∨ s.watermark = after
  | _ => True

/-! ## What a step does -/

section Step

variable {s : State α δ}

/-- Raising the watermark does not lower it. -/
theorem le_raise (w : ℕ) (rows : List α) : w ≤ raise key w rows := by
  induction rows generalizing w with
  | nil => exact le_rfl
  | cons r rows ih => exact (le_max_left w (key r)).trans (ih _)

/-- The raised watermark is at least the key of every row. -/
theorem key_le_raise (w : ℕ) {rows : List α} {r : α} (hr : r ∈ rows) :
    key r ≤ raise key w rows := by
  induction rows generalizing w with
  | nil => exact absurd hr (by simp)
  | cons q rows ih =>
    rcases List.mem_cons.mp hr with rfl | hr
    · exact (le_max_right w (key r)).trans (le_raise key _ rows)
    · exact ih _ hr

/-- The raised watermark is the old one or the key of a row. -/
theorem raise_eq (w : ℕ) (rows : List α) :
    raise key w rows = w ∨ ∃ r ∈ rows, key r = raise key w rows := by
  induction rows generalizing w with
  | nil => exact Or.inl rfl
  | cons q rows ih =>
    rcases ih (max w (key q)) with heq | ⟨r, hr, heq⟩
    · rcases max_choice w (key q) with hmax | hmax
      · exact Or.inl (heq.trans hmax)
      · exact Or.inr ⟨q, by simp, (heq.trans hmax).symm⟩
    · exact Or.inr ⟨r, List.mem_cons_of_mem _ hr, heq⟩

/-- What a step does to the log: only `append` adds rows. -/
theorem visible_step (s : State α δ) (a : Action α δ) :
    (step key limit s a).visible = s.visible ∨
      ∃ rows, a = .append rows ∧ (step key limit s a).visible = s.visible ++ rows := by
  cases a with
  | append rows => exact Or.inr ⟨rows, rfl, rfl⟩
  | drop d => exact Or.inl rfl
  | _ =>
    refine Or.inl ?_
    unfold step
    dsimp only
    split <;> rfl

/-- What a step does to the output: only `give` hands out keys and raises the watermark. -/
theorem given_step (s : State α δ) (a : Action α δ) :
    ((step key limit s a).given = s.given ∧ (step key limit s a).watermark = s.watermark) ∨
      ∃ d after rows, a = .give d ∧ s.phase d = .fetched after rows ∧
        (step key limit s a).given = s.given ++ rows.map key ∧
        (step key limit s a).watermark = raise key s.watermark rows := by
  cases a with
  | append rows => exact Or.inl ⟨rfl, rfl⟩
  | drop d => exact Or.inl ⟨rfl, rfl⟩
  | give d =>
    cases hphase : s.phase d with
    | fetched after rows =>
      refine Or.inr ⟨d, after, rows, rfl, hphase, ?_, ?_⟩ <;> simp only [step, hphase]
    | _ =>
      refine Or.inl ⟨?_, ?_⟩ <;> simp only [step, hphase]
  | _ =>
    refine Or.inl ⟨?_, ?_⟩ <;> unfold step <;> dsimp only <;> split <;> rfl

/-- Visible rows stay visible. -/
theorem mem_visible_step {r : α} (hr : r ∈ s.visible) (a : Action α δ) :
    r ∈ (step key limit s a).visible := by
  rcases visible_step key limit s a with heq | ⟨rows, -, heq⟩
  · rwa [heq]
  · rw [heq]
    exact List.mem_append_left _ hr

/-- The watermark does not fall. -/
theorem watermark_le_step (s : State α δ) (a : Action α δ) :
    s.watermark ≤ (step key limit s a).watermark := by
  rcases given_step key limit s a with ⟨-, heq⟩ | ⟨d, after, rows, -, -, -, heq⟩
  · exact heq.ge
  · rw [heq]
    exact le_raise key _ _

/-- What was handed out stays handed out. -/
theorem given_prefix_step (s : State α δ) (a : Action α δ) :
    s.given <+: (step key limit s a).given := by
  rcases given_step key limit s a with ⟨heq, -⟩ | ⟨d, after, rows, -, -, heq, -⟩
  · exact heq ▸ List.prefix_refl _
  · rw [heq]
    exact List.prefix_append _ _

/-- **What a step does to a reader.**  It leaves the reader alone, ends its drain, lets it note the
watermark, or gives it the page behind the watermark it noted. -/
theorem phase_step (s : State α δ) (a : Action α δ) (d : δ) :
    (step key limit s a).phase d = s.phase d ∨ (step key limit s a).phase d = .idle ∨
      (step key limit s a).phase d = .asked s.watermark ∨
      ∃ after, s.phase d = .asked after ∧
        (step key limit s a).phase d = .fetched after (page key after limit s.visible) := by
  have hupdate : ∀ (e : δ) (p : Phase α),
      Function.update s.phase e p d = s.phase d ∨ e = d ∧ Function.update s.phase e p d = p := by
    intro e p
    by_cases hd : d = e
    · exact Or.inr ⟨hd.symm, by rw [hd, Function.update_self]⟩
    · exact Or.inl (Function.update_of_ne hd p s.phase)
  cases a with
  | append rows => exact Or.inl rfl
  | ask e =>
    unfold step
    dsimp only
    split
    · rcases hupdate e (.asked s.watermark) with h | h
      · exact Or.inl h
      · exact Or.inr (Or.inr (Or.inl h.2))
    · exact Or.inl rfl
  | read e =>
    unfold step
    dsimp only
    split
    · next after hphase =>
      rcases hupdate e (.fetched after (page key after limit s.visible)) with h | ⟨rfl, h⟩
      · exact Or.inl h
      · exact Or.inr (Or.inr (Or.inr ⟨after, hphase, h⟩))
    · exact Or.inl rfl
  | give e =>
    unfold step
    dsimp only
    split
    · rcases hupdate e .idle with h | h
      · exact Or.inl h
      · exact Or.inr (Or.inl h.2)
    · exact Or.inl rfl
  | drop e =>
    rcases hupdate e .idle with h | h
    · exact Or.inl h
    · exact Or.inr (Or.inl h.2)

/-- A page that a reader holds after a step was held before it or has just been read. -/
theorem fetched_step {a : Action α δ} {d : δ} {after : ℕ} {rows : List α}
    (h : (step key limit s a).phase d = .fetched after rows) :
    s.phase d = .fetched after rows ∨
      s.phase d = .asked after ∧ rows = page key after limit s.visible := by
  rcases phase_step key limit s a d with heq | heq | heq | ⟨after', hasked, heq⟩ <;> rw [h] at heq
  · exact Or.inl heq.symm
  · exact absurd heq (by simp)
  · exact absurd heq (by simp)
  · obtain ⟨rfl, rfl⟩ := Phase.fetched.inj heq
    exact Or.inr ⟨hasked, rfl⟩

/-- A watermark that a reader has noted after a step was noted before it or is the current one. -/
theorem asked_step {a : Action α δ} {d : δ} {after : ℕ}
    (h : (step key limit s a).phase d = .asked after) :
    s.phase d = .asked after ∨ after = s.watermark := by
  rcases phase_step key limit s a d with heq | heq | heq | ⟨after', -, heq⟩ <;> rw [h] at heq
  · exact Or.inl heq.symm
  · exact absurd heq (by simp)
  · exact Or.inr (Phase.asked.inj heq)
  · exact absurd heq (by simp)

end Step

/-! ## The invariant -/

/-- The invariant of every run that starts with the watermark at `start`. -/
structure Inv (start : ℕ) (s : State α δ) : Prop where
  keyed : Keyed key s.visible
  /-- Readers note watermarks of the run. -/
  asked : ∀ d after, s.phase d = .asked after → start ≤ after ∧ after ≤ s.watermark
  fetched : ∀ d after rows, s.phase d = .fetched after rows → start ≤ after ∧ after ≤ s.watermark
  /-- Readers hold visible rows behind the watermark they noted, in increasing order. -/
  increasing : ∀ d after rows, s.phase d = .fetched after rows →
    rows.Pairwise fun a b => key a < key b
  held : ∀ d after rows, s.phase d = .fetched after rows →
    ∀ r ∈ rows, r ∈ s.visible ∧ after < key r
  /-- Keys of visible rows are handed out. -/
  given_visible : ∀ k ∈ s.given, ∃ v ∈ s.visible, key v = k
  /-- The watermark is the largest key handed out, or still the first one. -/
  given_le : ∀ k ∈ s.given, k ≤ s.watermark
  start_le : start ≤ s.watermark
  reached : s.watermark = start ∨ s.watermark ∈ s.given

section Invariants

variable {key limit} {start : ℕ} {s : State α δ} {a : Action α δ}

/-- Every step that adds new keys keeps the invariant. -/
theorem Inv.step (h : Inv key start s) (hdistinct : Distinct key s a) :
    Inv key start (step key limit s a) := by
  have hle := watermark_le_step key limit s a
  refine ⟨?_, ?_, ?_, ?_, ?_, ?_, ?_, h.start_le.trans hle, ?_⟩
  · rcases visible_step key limit s a with heq | ⟨rows, rfl, heq⟩
    · rw [heq]
      exact h.keyed
    · rw [heq]
      exact hdistinct
  · intro d after hphase
    rcases asked_step key limit hphase with hold | rfl
    · obtain ⟨hstart, hafter⟩ := h.asked d after hold
      exact ⟨hstart, hafter.trans hle⟩
    · exact ⟨h.start_le, hle⟩
  · intro d after rows hphase
    have hbounds : start ≤ after ∧ after ≤ s.watermark := by
      rcases fetched_step key limit hphase with hold | ⟨hasked, -⟩
      · exact h.fetched d after rows hold
      · exact h.asked d after hasked
    exact ⟨hbounds.1, hbounds.2.trans hle⟩
  · intro d after rows hphase
    rcases fetched_step key limit hphase with hold | ⟨-, rfl⟩
    · exact h.increasing d after rows hold
    · exact h.keyed.pairwise_page after limit
  · intro d after rows hphase r hr
    rcases fetched_step key limit hphase with hold | ⟨-, rfl⟩
    · obtain ⟨hvisible, hafter⟩ := h.held d after rows hold r hr
      exact ⟨mem_visible_step key limit hvisible a, hafter⟩
    · obtain ⟨hvisible, hafter⟩ := mem_page hr
      exact ⟨mem_visible_step key limit hvisible a, hafter⟩
  · intro k hk
    rcases given_step key limit s a with ⟨heq, -⟩ | ⟨d, after, rows, -, hphase, hgiven, -⟩
    · rw [heq] at hk
      obtain ⟨v, hv, hkey⟩ := h.given_visible k hk
      exact ⟨v, mem_visible_step key limit hv a, hkey⟩
    · rw [hgiven, List.mem_append] at hk
      rcases hk with hold | hnew
      · obtain ⟨v, hv, hkey⟩ := h.given_visible k hold
        exact ⟨v, mem_visible_step key limit hv a, hkey⟩
      · obtain ⟨r, hr, hkey⟩ := List.mem_map.mp hnew
        exact ⟨r, mem_visible_step key limit (h.held d after rows hphase r hr).1 a, hkey⟩
  · intro k hk
    rcases given_step key limit s a with ⟨heq, -⟩ | ⟨d, after, rows, -, -, hgiven, hmark⟩
    · rw [heq] at hk
      exact (h.given_le k hk).trans hle
    · rw [hgiven, List.mem_append] at hk
      rcases hk with hold | hnew
      · exact (h.given_le k hold).trans hle
      · obtain ⟨r, hr, rfl⟩ := List.mem_map.mp hnew
        rw [hmark]
        exact key_le_raise key _ hr
  · rcases given_step key limit s a with ⟨hgiven, heq⟩ | ⟨d, after, rows, -, -, hgiven, hmark⟩
    · rw [heq, hgiven]
      exact h.reached
    · rw [hgiven, hmark, List.mem_append]
      rcases raise_eq key s.watermark rows with hsame | ⟨r, hr, hkey⟩
      · rw [hsame]
        exact h.reached.imp_right Or.inl
      · exact Or.inr (Or.inr (List.mem_map.mpr ⟨r, hr, hkey⟩))

/-! ## No row is skipped -/

variable (key) in
/-- Every visible row behind the first watermark and up to the current one has been handed out, and
the pages that readers hold have no gap. -/
structure NoSkip (start : ℕ) (s : State α δ) : Prop where
  given : ∀ r ∈ s.visible, start < key r → key r ≤ s.watermark → key r ∈ s.given
  closed : ∀ d after rows, s.phase d = .fetched after rows →
    ∀ r ∈ s.visible, after < key r → ∀ v ∈ rows, key r ≤ key v → r ∈ rows

/-- A row that appears ahead of the watermark and of all held rows is not skipped. -/
theorem NoSkip.step (h : NoSkip key start s) (hinv : Inv key start s) (hahead : Ahead key s a) :
    NoSkip key start (step key limit s a) := by
  rcases visible_step key limit s a with heq | ⟨new, rfl, heq⟩
  · refine ⟨fun r hr hstart hmark => ?_, fun d after rows hphase r hr hafter v hv hle => ?_⟩
    · rw [heq] at hr
      rcases given_step key limit s a with
        ⟨hgiven, hsame⟩ | ⟨d, after, rows, -, hphase, hgiven, hraise⟩
      · rw [hsame] at hmark
        rw [hgiven]
        exact h.given r hr hstart hmark
      · rw [hgiven, List.mem_append]
        by_cases hold : key r ≤ s.watermark
        · exact Or.inl (h.given r hr hstart hold)
        · -- the row lies within the page that raises the watermark
          have hafter := (hinv.fetched d after rows hphase).2
          rw [hraise] at hmark
          rcases raise_eq key s.watermark rows with hsame | ⟨v, hv, hkey⟩
          · omega
          · have hmem := h.closed d after rows hphase r hr (by omega) v hv (by omega)
            exact Or.inr (List.mem_map_of_mem hmem)
    · rw [heq] at hr
      rcases fetched_step key limit hphase with hold | ⟨-, rfl⟩
      · exact h.closed d after rows hold r hr hafter v hv hle
      · rcases mem_page_or_full hr hafter limit with hmem | ⟨-, hlast⟩
        · exact hmem
        · have hsame : key r = key v := le_antisymm hle (hlast v hv)
          rwa [hinv.keyed.eq_of_mem hr (mem_page hv).1 hsame]
  · refine ⟨fun r hr hstart hmark => ?_, fun d after rows hphase r hr hafter v hv hle => ?_⟩
    · rcases List.mem_append.mp hr with hold | hnew
      · exact h.given r hold hstart hmark
      · have hlt := (hahead r hnew).1
        exact absurd hmark (not_le.mpr hlt)
    · rcases List.mem_append.mp hr with hold | hnew
      · exact h.closed d after rows hphase r hold hafter v hv hle
      · have hlt := (hahead r hnew).2 d after rows hphase v hv
        exact absurd hle (not_le.mpr hlt)

omit [DecidableEq δ] in
/-- A page that is not full holds every visible row behind the watermark it was read for. -/
theorem NoSkip.mem_given_or_page (h : NoSkip key start s) (hinv : Inv key start s) {d : δ}
    {after : ℕ} (hasked : s.phase d = .asked after)
    (hshort : (page key after limit s.visible).length < limit) {r : α} (hr : r ∈ s.visible)
    (hstart : start < key r) : key r ∈ s.given ∨ r ∈ page key after limit s.visible := by
  by_cases hafter : after < key r
  · rcases mem_page_or_full hr hafter limit with hmem | ⟨hfull, -⟩
    · exact Or.inr hmem
    · omega
  · have hmark := (hinv.asked d after hasked).2
    exact Or.inl (h.given r hr hstart (by omega))

variable (key) in
/-- The key was not handed out, and no reader will hand it out: it lies below the watermark and
below the watermarks that readers have noted, and is on no page. -/
structure Lost (k : ℕ) (s : State α δ) : Prop where
  not_given : k ∉ s.given
  below : k ≤ s.watermark
  asked : ∀ d after, s.phase d = .asked after → k ≤ after
  held : ∀ d after rows, s.phase d = .fetched after rows → k ∉ rows.map key

/-- A lost key stays lost. -/
theorem Lost.step {k : ℕ} (h : Lost key k s) (a : Action α δ) :
    Lost key k (step key limit s a) := by
  refine ⟨?_, h.below.trans (watermark_le_step key limit s a), ?_, ?_⟩
  · rcases given_step key limit s a with ⟨heq, -⟩ | ⟨d, after, rows, -, hphase, heq, -⟩
    · rw [heq]
      exact h.not_given
    · rw [heq, List.mem_append, not_or]
      exact ⟨h.not_given, h.held d after rows hphase⟩
  · intro d after hphase
    rcases asked_step key limit hphase with hold | rfl
    · exact h.asked d after hold
    · exact h.below
  · intro d after rows hphase
    rcases fetched_step key limit hphase with hold | ⟨hasked, rfl⟩
    · exact h.held d after rows hold
    · intro hmem
      obtain ⟨r, hr, rfl⟩ := List.mem_map.mp hmem
      have hafter := (mem_page hr).2
      exact absurd (h.asked d after hasked) (not_le.mpr hafter)

/-! ## The order of the keys -/

variable (key) in
/-- A held page starts with the first visible row behind the watermark it was read for. -/
def First (s : State α δ) : Prop :=
  ∀ d after r rows, s.phase d = .fetched after (r :: rows) →
    ∀ v ∈ s.visible, after < key v → key r ≤ key v

/-- Rows that appear in order come after every held row. -/
theorem First.step (h : First key s) (hinv : Inv key start s) (horder : InOrder key s a) :
    First key (step key limit s a) := by
  intro d after r rows hphase v hv hafter
  rcases visible_step key limit s a with heq | ⟨new, rfl, heq⟩
  · rw [heq] at hv
    rcases fetched_step key limit hphase with hold | ⟨-, hpage⟩
    · exact h d after r rows hold v hv hafter
    · have hsorted := hinv.keyed.pairwise_page after limit
      have hfull := mem_page_or_full hv hafter limit
      rw [← hpage] at hsorted hfull
      rcases hfull with hmem | ⟨-, hlast⟩
      · rcases List.mem_cons.mp hmem with rfl | hrest
        · exact le_rfl
        · exact (List.rel_of_pairwise_cons hsorted hrest).le
      · exact hlast r (by simp)
  · rcases List.mem_append.mp hv with hold | hnew
    · exact h d after r rows hphase v hold hafter
    · have hvisible := (hinv.held d after (r :: rows) hphase r (by simp)).1
      exact (horder v hnew r hvisible).le

/-- An undisturbed step keeps the keys in order. -/
theorem pairwise_given_step (hinv : Inv key start s) (hsorted : s.given.Pairwise (· < ·))
    (hcalm : Undisturbed s a) : (step key limit s a).given.Pairwise (· < ·) := by
  rcases given_step key limit s a with ⟨heq, -⟩ | ⟨d, after, rows, rfl, hphase, heq, -⟩
  · rwa [heq]
  · rw [heq, List.pairwise_append]
    refine ⟨hsorted, List.pairwise_map.mpr (hinv.increasing d after rows hphase), ?_⟩
    intro k hk k' hk'
    obtain ⟨r, hr, rfl⟩ := List.mem_map.mp hk'
    have hafter := (hinv.held d after rows hphase r hr).2
    have hle := hinv.given_le k hk
    rcases hcalm after rows hphase with rfl | hmark
    · exact absurd hr (by simp)
    · omega

/-- A reader that hands out rows after the watermark has moved breaks the order. -/
theorem not_pairwise_given_step (hinv : Inv key start s) (hfirst : First key s)
    (hmoved : ¬ Undisturbed s a) : ¬ (step key limit s a).given.Pairwise (· < ·) := by
  cases a with
  | give d =>
    simp only [Undisturbed, not_forall, not_or] at hmoved
    obtain ⟨after, rows, hphase, hne, hmark⟩ := hmoved
    obtain ⟨hstart, hle⟩ := hinv.fetched d after rows hphase
    obtain ⟨r, rest, rfl⟩ := List.exists_cons_of_ne_nil hne
    have hgiven : (step key limit s (.give d)).given = s.given ++ (r :: rest).map key := by
      simp only [step, hphase]
    intro hsorted
    rw [hgiven, List.pairwise_append] at hsorted
    rcases hinv.reached with hsame | hmem
    · omega
    · obtain ⟨v, hv, hkey⟩ := hinv.given_visible s.watermark hmem
      have hlow := hfirst d after r rest hphase v hv (by omega)
      have hhigh := hsorted.2.2 s.watermark hmem (key r) (by simp)
      omega
  | _ => exact absurd trivial hmoved

/-! ## Readers that take turns -/

/-- The watermark that a reader has noted. -/
def Phase.noted : Phase α → Option ℕ
  | .idle => none
  | .asked after | .fetched after _ => some after

/-- A reader begins only when all readers are idle. -/
def TakesTurns (s : State α δ) : Action α δ → Prop
  | .ask _ => ∀ e, (s.phase e).noted = none
  | _ => True

/-- At most one reader is at work, and it has noted the current watermark. -/
structure Alone (s : State α δ) : Prop where
  current : ∀ d w, (s.phase d).noted = some w → w = s.watermark
  unique : ∀ d e, (s.phase d).noted ≠ none → (s.phase e).noted ≠ none → d = e

omit [DecidableEq δ] in
/-- Noted watermarks that a step only forgets stay those of a single reader. -/
theorem Alone.of_noted {s' : State α δ} (h : Alone s) (hmark : s'.watermark = s.watermark)
    (hnoted : ∀ d, (s'.phase d).noted = none ∨ (s'.phase d).noted = (s.phase d).noted) :
    Alone s' where
  current := by
    intro d w hw
    rw [hmark]
    rcases hnoted d with hnone | hsame
    · exact absurd (hnone.symm.trans hw) (by simp)
    · exact h.current d w (hsame ▸ hw)
  unique := by
    intro d e hd he
    rcases hnoted d with hnone | hsame
    · exact absurd hnone hd
    · rcases hnoted e with hnone' | hsame'
      · exact absurd hnone' he
      · exact h.unique d e (hsame ▸ hd) (hsame' ▸ he)

/-- Readers that take turns stay alone. -/
theorem Alone.step (h : Alone s) (hturns : TakesTurns s a) : Alone (step key limit s a) := by
  cases a with
  | append rows => exact ⟨h.current, h.unique⟩
  | ask d =>
    have hidle : ∀ e, (s.phase e).noted = none := hturns
    unfold Cursor.step
    dsimp only
    split
    · refine ⟨fun e w hw => ?_, fun e e' he he' => ?_⟩
      · by_cases hed : e = d
        · subst hed
          simp only [Function.update_self, Phase.noted] at hw
          exact (Option.some.inj hw).symm
        · simp only [Function.update_of_ne hed, hidle e] at hw
          exact absurd hw (by simp)
      · have honly : ∀ x, (Function.update s.phase d (.asked s.watermark) x).noted ≠ none →
            x = d := by
          intro x hx
          by_contra hxd
          rw [Function.update_of_ne hxd] at hx
          exact hx (hidle x)
        rw [honly e he, honly e' he']
    · exact h
  | read d =>
    unfold Cursor.step
    dsimp only
    split
    · next after hasked =>
      refine h.of_noted rfl fun e => Or.inr ?_
      by_cases hed : e = d
      · subst hed
        simp [hasked, Phase.noted]
      · simp [Function.update_of_ne hed]
    · exact h
  | give d =>
    unfold Cursor.step
    dsimp only
    split
    · next after rows hfetched =>
      have hidle : ∀ e, (Function.update s.phase d .idle e).noted = none := by
        intro e
        by_cases hed : e = d
        · subst hed
          simp [Phase.noted]
        · rw [Function.update_of_ne hed]
          by_contra hbusy
          exact hed (h.unique e d hbusy (by simp [hfetched, Phase.noted]))
      constructor
      · intro e w hw
        exact absurd ((hidle e).symm.trans hw) (by simp)
      · intro e e' he
        exact absurd (hidle e) he
    · exact h
  | drop d =>
    refine h.of_noted rfl fun e => ?_
    by_cases hed : e = d
    · subst hed
      exact Or.inl (by simp [Cursor.step, Phase.noted])
    · exact Or.inr (by simp [Cursor.step, Function.update_of_ne hed])

omit [DecidableEq δ] in
/-- A reader that is alone finds the watermark where it left it. -/
theorem Alone.undisturbed (h : Alone s) (a : Action α δ) : Undisturbed s a := by
  cases a with
  | give d =>
    intro after rows hfetched
    exact Or.inr (h.current d after (by rw [hfetched, Phase.noted])).symm
  | _ => trivial

end Invariants

end Cursor
