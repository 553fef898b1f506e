import Mathlib.Data.List.Sort
import Mathlib.Tactic.Ring

/-!
# Paging by a keyset

A query sorts its rows by a total preorder and shows at most `limit` of them; the next request asks
for the rows that lie `below` the last row shown.  Rows that the order does not tell apart may come
in any order, a different one on every request.

`Run` is what a reader gets who follows the pages to the end.  Every run shows every row once and in
order exactly when the order and the comparison are `Separated`: at the end of every page with rows
behind it, the rows that lie below its last row are the rows behind it.
-/

namespace Keyset

variable {α : Type*} (le : α → α → Prop) (below : α → α → Prop) [DecidableRel below]
  (rows : List α) (limit : ℕ)

/-- The query may return the rows in the order `l`. -/
def Arranges (rows l : List α) : Prop := l.Perm rows ∧ l.Pairwise le

/-- The rows that a request asks for. -/
def visible : Option α → List α
  | none => rows
  | some last => rows.filter fun r => below r last

/-- The rows that a reader gets from a request and the requests that follow it. -/
inductive Run : Option α → List α → Prop
  | last {c : Option α} {l : List α} (arranged : Arranges le (visible below rows c) l)
      (fits : l.length ≤ limit) : Run c l
  | more {c : Option α} {l : List α} {r : α} {shown : List α}
      (arranged : Arranges le (visible below rows c) l) (fits : limit < l.length)
      (ends : l[limit - 1]? = some r) (next : Run (some r) shown) : Run c (l.take limit ++ shown)

/-- At the end of the `k`-th page the rows below its last row are the rows behind it. -/
def SeparatedAt (l : List α) (k : ℕ) : Prop :=
  ∀ r, l[k * limit - 1]? = some r → k * limit < l.length →
    (∀ x ∈ l.take (k * limit), ¬below x r) ∧ ∀ x ∈ l.drop (k * limit), below x r

/-- **The condition of the paging**: however the rows are arranged, every page that is not the last
one ends where the comparison separates the rows. -/
def Separated : Prop :=
  ∀ l, Arranges le rows l → ∀ k, 0 < k → SeparatedAt below limit l k

/-- Some pages in front and any arrangement of what a request asks for make up the rows in order. -/
def Behind (front : List α) (c : Option α) : Prop :=
  ∀ l, Arranges le (visible below rows c) l →
    Arranges le rows (front ++ l) ∧ limit ∣ front.length

variable {le below rows limit}

/-! ## What is visible -/

variable {c : Option α}

/-- A row that a request asks for is a row. -/
theorem mem_of_visible {x : α} (h : x ∈ visible below rows c) : x ∈ rows := by
  cases c with
  | none => exact h
  | some last => exact List.mem_of_mem_filter h

/-- The rows that a separated page leaves are the rows behind it. -/
theorem visible_perm_drop {l : List α} {k : ℕ} {r : α} (hl : Arranges le rows l)
    (hr : l[k * limit - 1]? = some r) (hk : k * limit < l.length)
    (hsep : SeparatedAt below limit l k) :
    (visible below rows (some r)).Perm (l.drop (k * limit)) := by
  obtain ⟨hbefore, hbehind⟩ := hsep r hr hk
  have hperm : (l.filter fun x => below x r).Perm (visible below rows (some r)) :=
    hl.1.filter _
  have hfront : ((l.take (k * limit)).filter fun x => below x r) = [] := by
    rw [List.filter_eq_nil_iff]
    intro x hx
    simpa using hbefore x hx
  have hback : ((l.drop (k * limit)).filter fun x => below x r) = l.drop (k * limit) := by
    rw [List.filter_eq_self]
    intro x hx
    simpa using hbehind x hx
  rw [← List.take_append_drop (k * limit) l, List.filter_append, hfront, hback] at hperm
  exact hperm.symm

theorem behind_none : Behind le below rows limit [] none :=
  fun _ hl => ⟨hl, dvd_zero limit⟩

/-- After a separated page the next request asks for what is behind that page. -/
theorem Behind.take {front l : List α} {r : α} (h : Behind le below rows limit front c)
    (hsep : Separated le below rows limit) (hpos : 0 < limit)
    (hl : Arranges le (visible below rows c) l) (hfits : limit < l.length)
    (hr : l[limit - 1]? = some r) :
    Behind le below rows limit (front ++ l.take limit) (some r) := by
  intro l' hl'
  obtain ⟨hall, k, hk⟩ := h l hl
  have hlen : (k + 1) * limit = front.length + limit := by rw [hk]; ring
  have hr' : (front ++ l)[(k + 1) * limit - 1]? = some r := by
    rw [hlen, List.getElem?_append_right (by omega), ← hr]
    congr 1
    omega
  have hlt : (k + 1) * limit < (front ++ l).length := by
    rw [List.length_append]
    omega
  have hdrop : (front ++ l).drop ((k + 1) * limit) = l.drop limit := by
    rw [hlen, List.drop_append, List.drop_of_length_le (by omega), List.nil_append]
    congr 1
    omega
  have hrest : l'.Perm (l.drop limit) := by
    have hseen := visible_perm_drop hall hr' hlt (hsep _ hall _ (Nat.succ_pos k))
    rw [hdrop] at hseen
    exact hl'.1.trans hseen
  have hsorted := hall.2
  rw [← List.take_append_drop limit l, ← List.append_assoc, List.pairwise_append] at hsorted
  refine ⟨⟨?_, ?_⟩, ?_⟩
  · have hswap := hrest.append_left (front ++ l.take limit)
    rw [List.append_assoc front, List.append_assoc front, List.take_append_drop] at hswap
    rw [List.append_assoc]
    exact hswap.trans hall.1
  · rw [List.pairwise_append]
    exact ⟨hsorted.1, hl'.2, fun x hx y hy => hsorted.2.2 x hx y (hrest.mem_iff.mp hy)⟩
  · rw [List.length_append, List.length_take, Nat.min_eq_left hfits.le, hk]
    exact ⟨k + 1, by ring⟩

/-- What a run shows completes the pages in front of it. -/
theorem Run.arranges {front : List α} {shown : List α} (hrun : Run le below rows limit c shown)
    (hsep : Separated le below rows limit) (hpos : 0 < limit)
    (h : Behind le below rows limit front c) : Arranges le rows (front ++ shown) := by
  induction hrun generalizing front with
  | last arranged _ => exact (h _ arranged).1
  | more arranged fits ends _ ih =>
    rw [← List.append_assoc]
    exact ih (h.take hsep hpos arranged fits ends)

/-! ## Runs exist -/

section Existence

variable (harrange : ∀ l : List α, ∃ l', Arranges le l l')
  (htrans : ∀ x y z, below x y → below y z → below x z) (hirrefl : ∀ x, ¬below x x)

include htrans in
/-- What a run shows is what its first request asks for. -/
theorem Run.subset {shown : List α} (hrun : Run le below rows limit c shown) :
    ∀ x ∈ shown, x ∈ visible below rows c := by
  induction hrun with
  | last arranged _ => exact fun x hx => arranged.1.mem_iff.mp hx
  | @more c l r shown arranged _ ends _ ih =>
    intro x hx
    rcases List.mem_append.mp hx with hx | hx
    · exact arranged.1.mem_iff.mp (List.mem_of_mem_take hx)
    · have hr : r ∈ visible below rows c := arranged.1.mem_iff.mp (List.mem_of_getElem? ends)
      have hx' := ih x hx
      cases c with
      | none => exact mem_of_visible hx'
      | some last =>
        simp only [visible, List.mem_filter, decide_eq_true_eq] at hr hx' ⊢
        exact ⟨hx'.1, htrans x r last hx'.2 hr.2⟩

include htrans hirrefl in
/-- A request after a page asks for fewer rows. -/
theorem length_visible_lt {r : α} (hr : r ∈ visible below rows c) :
    (visible below rows (some r)).length < (visible below rows c).length := by
  have hsub : (visible below rows (some r)).Sublist ((visible below rows c).filter fun x => below x r) := by
    cases c with
    | none => exact List.Sublist.refl _
    | some last =>
      have hlast : below r last := by simpa using (List.mem_filter.mp hr).2
      simp only [visible, List.filter_filter]
      refine List.monotone_filter_right rows ?_
      intro x hx
      simpa using ⟨by simpa using hx, htrans x r last (by simpa using hx) hlast⟩
  refine lt_of_le_of_lt hsub.length_le ?_
  rw [List.length_filter_lt_length_iff_exists]
  exact ⟨r, hr, by simpa using hirrefl r⟩

include harrange htrans hirrefl in
/-- **The pages end**: from every request there is a run that begins with any arrangement of its
rows. -/
theorem exists_run (hpos : 0 < limit) {l : List α} (hl : Arranges le (visible below rows c) l) :
    ∃ rest, Run le below rows limit c (l.take limit ++ rest) := by
  induction hn : (visible below rows c).length using Nat.strong_induction_on generalizing c l with
  | _ n ih =>
    by_cases hfits : l.length ≤ limit
    · refine ⟨[], ?_⟩
      rw [List.append_nil, List.take_of_length_le hfits]
      exact .last hl hfits
    · have hlt : limit < l.length := Nat.lt_of_not_le hfits
      obtain ⟨r, hr⟩ : ∃ r, l[limit - 1]? = some r :=
        ⟨_, List.getElem?_eq_getElem (by omega)⟩
      have hmem : r ∈ visible below rows c := hl.1.mem_iff.mp (List.mem_of_getElem? hr)
      obtain ⟨l', hl'⟩ := harrange (visible below rows (some r))
      obtain ⟨rest, hrest⟩ :=
        ih _ (hn ▸ length_visible_lt htrans hirrefl hmem) hl' rfl
      exact ⟨_, .more hl hlt hr hrest⟩

/-- A run from the end of a page, with separated pages before it, is the end of a run. -/
theorem Run.of_separatedAt {l : List α} (hl : Arranges le rows l) (hpos : 0 < limit) {k : ℕ}
    (hk : 0 < k) {r : α} (hr : l[k * limit - 1]? = some r) (hlt : k * limit < l.length)
    (hsep : ∀ j, 0 < j → j < k → SeparatedAt below limit l j) {shown : List α}
    (hrun : Run le below rows limit (some r) shown) :
    Run le below rows limit none (l.take (k * limit) ++ shown) := by
  induction k, hk using Nat.le_induction generalizing r shown with
  | base =>
    rw [Nat.one_mul] at *
    exact .more hl hlt hr hrun
  | succ k hk ih =>
    have hlen : (k + 1) * limit = k * limit + limit := by ring
    obtain ⟨q, hq⟩ : ∃ q, l[k * limit - 1]? = some q :=
      ⟨_, List.getElem?_eq_getElem (by omega)⟩
    have hseen := visible_perm_drop hl hq (by omega) (hsep k hk (Nat.lt_succ_self k))
    have hpage : Run le below rows limit (some q) ((l.drop (k * limit)).take limit ++ shown) := by
      refine .more ⟨hseen.symm, hl.2.sublist (List.drop_sublist _ _)⟩ ?_ ?_ hrun
      · rw [List.length_drop]
        omega
      · rw [List.getElem?_drop, ← hr]
        congr 1
        omega
    have hwhole := ih hq (by omega) (fun j hj hjk => hsep j hj (by omega)) hpage
    rwa [← List.append_assoc, ← List.take_add, ← hlen] at hwhole

include harrange htrans hirrefl in
/-- If every run is complete, the pages are separated. -/
theorem separated_of_complete (hpos : 0 < limit) (hnodup : rows.Nodup)
    (h : ∀ shown, Run le below rows limit none shown → Arranges le rows shown) :
    Separated le below rows limit := by
  intro l hl k hk
  induction k using Nat.strong_induction_on with
  | _ k ih =>
    intro r hr hlt
    have hprevious : ∀ j, 0 < j → j < k → SeparatedAt below limit l j :=
      fun j hj hjk => ih j hjk hj
    have hrest : ∀ shown, Run le below rows limit (some r) shown →
        shown.Perm (l.drop (k * limit)) := by
      intro shown hrun
      have hall := (h _ (Run.of_separatedAt hl hpos hk hr hlt hprevious hrun)).1.trans hl.1.symm
      rw [← List.perm_append_left_iff (l.take (k * limit)), List.take_append_drop]
      exact hall
    refine ⟨?_, ?_⟩
    · -- A row shown before that lies below the last one comes first on the next page.
      intro x hx hbelow
      have hparts : l.filter (fun y => below y r) =
          (l.take (k * limit)).filter (fun y => below y r) ++
            (l.drop (k * limit)).filter fun y => below y r := by
        rw [← List.filter_append, List.take_append_drop]
      have hback : x ∈ (l.take (k * limit)).filter fun y => below y r :=
        List.mem_filter.mpr ⟨hx, decide_eq_true hbelow⟩
      obtain ⟨y, ys, hys⟩ := List.exists_cons_of_ne_nil (List.ne_nil_of_mem hback)
      rw [hys, List.cons_append] at hparts
      have harranged : Arranges le (visible below rows (some r)) (l.filter fun y => below y r) :=
        ⟨hl.1.filter _, hl.2.sublist List.filter_sublist⟩
      obtain ⟨rest, hrun⟩ := exists_run harrange htrans hirrefl hpos harranged
      have hagain : y ∈ l.drop (k * limit) := by
        refine (hrest _ hrun).mem_iff.mp ?_
        obtain ⟨m, rfl⟩ := Nat.exists_eq_add_of_lt hpos
        simp [hparts]
      have hfirst : y ∈ l.take (k * limit) :=
        List.mem_of_mem_filter (hys ▸ List.mem_cons_self)
      have hdistinct : (l.take (k * limit) ++ l.drop (k * limit)).Nodup := by
        rw [List.take_append_drop]
        exact hl.1.nodup_iff.mpr hnodup
      exact (List.nodup_append.mp hdistinct).2.2 y hfirst y hagain rfl
    · -- A row behind the page is shown later, and what is shown later lies below the last row.
      intro x hx
      obtain ⟨l', hl'⟩ := harrange (visible below rows (some r))
      obtain ⟨rest, hrun⟩ := exists_run harrange htrans hirrefl hpos hl'
      have hseen := hrun.subset htrans x ((hrest _ hrun).mem_iff.mpr hx)
      simpa using (List.mem_filter.mp hseen).2

include harrange htrans hirrefl in
/-- **Every run shows every row once and in order exactly when the pages are separated.** -/
theorem complete_iff_separated (hpos : 0 < limit) (hnodup : rows.Nodup) :
    (∀ shown, Run le below rows limit none shown → Arranges le rows shown) ↔
      Separated le below rows limit := by
  constructor
  · exact separated_of_complete harrange htrans hirrefl hpos hnodup
  · intro hsep shown hrun
    exact hrun.arranges hsep hpos behind_none

end Existence

/-- A total preorder arranges every list. -/
theorem exists_arranges (htotal : ∀ x y, le x y ∨ le y x)
    (htrans : ∀ x y z, le x y → le y z → le x z) (l : List α) : ∃ l', Arranges le l l' := by
  classical
  have : Std.Total le := ⟨htotal⟩
  have : IsTrans α le := ⟨htrans⟩
  exact ⟨l.insertionSort le, List.perm_insertionSort le l, List.pairwise_insertionSort le l⟩

end Keyset
