import CommerceCollector.Foundation.Keyset
import Mathlib.Data.List.Perm.Subperm
import Mathlib.Data.PNat.Basic
import Mathlib.Data.Prod.Lex

/-!
# Paging by an offset

A query sorts its rows by a key and shows the block of `n` rows behind an offset; the reader asks
for one block after the other.  Rows with one key come in any order, and the key of a row may not
be determined by the row: `keys x` are the keys that a query may find for it.  Both are decided
anew by every query.

The blocks show every row once iff every block begins where the rows are `Settled`: the rows in
front of the block come before the other ones under all their keys (`scroll_once_iff`).
-/

namespace Offsets

variable {α κ : Type*} [LinearOrder κ] {keys : α → Set κ} {rows l l' : List α}

/-- A query may return the rows in the order `l`. -/
def Returns (keys : α → Set κ) (rows l : List α) : Prop :=
  ∃ key : α → κ, (∀ x, key x ∈ keys x) ∧ Keyset.Arranges (fun x y => key x ≤ key y) rows l

theorem Returns.perm (h : Returns keys rows l) : l.Perm rows := h.choose_spec.2.1

/-- The blocks in front of the `m`-th one, each of them from the answer to its own query. -/
def scroll (n : ℕ) (answers : ℕ → List α) (m : ℕ) : List α :=
  (List.range m).flatMap fun k => ((answers k).drop (k * n)).take n

/-- Some `b` rows come before all the other ones, whatever keys the rows have. -/
def Settled (keys : α → Set κ) (rows : List α) (b : ℕ) : Prop :=
  ∃ front rest : List α, (front ++ rest).Perm rows ∧ front.length = b ∧
    ∀ x ∈ front, ∀ y ∈ rest, ∀ i ∈ keys x, ∀ j ∈ keys y, i < j

/-! ## Blocks -/

theorem scroll_succ (n : ℕ) (answers : ℕ → List α) (m : ℕ) :
    scroll n answers (m + 1) = scroll n answers m ++ ((answers m).drop (m * n)).take n := by
  simp [scroll, List.range_succ]

/-- The blocks of one answer are a part of it. -/
theorem scroll_const (n : ℕ) (l : List α) (m : ℕ) : scroll n (fun _ => l) m = l.take (m * n) := by
  induction m with
  | zero => simp [scroll]
  | succ m ih => rw [scroll_succ, ih, Nat.succ_mul, List.take_add]

theorem scroll_congr {n m : ℕ} {answers answers' : ℕ → List α}
    (h : ∀ k < m, answers k = answers' k) : scroll n answers m = scroll n answers' m :=
  List.flatMap_congr fun k hk => by rw [h k (List.mem_range.mp hk)]

/-- Scrolls that agree from a block on and hold the same rows held the same rows before it. -/
theorem scroll_perm_of_perm {n k m : ℕ} {answers answers' : ℕ → List α} (hkm : k ≤ m)
    (h : ∀ i, k ≤ i → answers i = answers' i)
    (hperm : (scroll n answers m).Perm (scroll n answers' m)) :
    (scroll n answers k).Perm (scroll n answers' k) := by
  induction m, hkm using Nat.le_induction with
  | base => exact hperm
  | succ m hkm ih =>
    rw [scroll_succ, scroll_succ, h m hkm] at hperm
    exact ih ((List.perm_append_right_iff _).mp hperm)

/-! ## Settled offsets -/

/-- The first `b` rows of an answer are the `b` rows that come before the other ones. -/
theorem Returns.take_perm (h : Returns keys rows l) (hrows : rows.Nodup) {front rest : List α}
    (hperm : (front ++ rest).Perm rows)
    (hfirst : ∀ x ∈ front, ∀ y ∈ rest, ∀ i ∈ keys x, ∀ j ∈ keys y, i < j) :
    (l.take front.length).Perm front := by
  obtain ⟨key, hkey, hl, hsorted⟩ := h
  have hlen : front.length ≤ l.length := by
    rw [hl.length_eq, ← hperm.length_eq, List.length_append]
    omega
  have htake : (l.take front.length).length = front.length := by
    rw [List.length_take, Nat.min_eq_left hlen]
  have hnodup : (l.take front.length).Nodup := (hl.nodup_iff.mpr hrows).sublist (List.take_sublist _ _)
  have hfront : front.Nodup := (hperm.nodup_iff.mpr hrows).sublist (List.sublist_append_left _ _)
  rw [← List.take_append_drop front.length l, List.pairwise_append] at hsorted
  by_contra hne
  -- A row in front is missing, so another one is in its place.
  obtain ⟨x, hx, hx'⟩ : ∃ x ∈ front, x ∉ l.take front.length := by
    by_contra! hall
    exact hne ((List.subperm_of_subset hfront hall).perm_of_length_le htake.le).symm
  obtain ⟨y, hy, hy'⟩ : ∃ y ∈ l.take front.length, y ∉ front := by
    by_contra! hall
    exact hne ((List.subperm_of_subset hnodup hall).perm_of_length_le htake.ge)
  have hxl : x ∈ l.drop front.length := by
    have hmem := hl.mem_iff.mpr (hperm.mem_iff.mp (List.mem_append_left rest hx))
    rw [← List.take_append_drop front.length l, List.mem_append] at hmem
    exact hmem.resolve_left hx'
  have hyr : y ∈ rest :=
    (List.mem_append.mp (hperm.mem_iff.mpr (hl.mem_iff.mp (List.mem_of_mem_take hy)))).resolve_left
      hy'
  exact (hfirst x hx y hyr _ (hkey x) _ (hkey y)).not_ge (hsorted.2.2 y hy x hxl)

/-- A query may return its rows in any order of the ties. -/
theorem exists_returns {key : α → κ} (hkey : ∀ x, key x ∈ keys x) (late : α → Bool)
    (rows : List α) :
    ∃ l, Returns keys rows l ∧ l.Pairwise fun x y =>
      toLex (key x, late x) ≤ toLex (key y, late y) := by
  obtain ⟨l, hl, hsorted⟩ : ∃ l, Keyset.Arranges
      (fun x y => toLex (key x, late x) ≤ toLex (key y, late y)) rows l := by
    apply Keyset.exists_arranges
    · exact fun x y => le_total _ _
    · exact fun x y z => le_trans
  refine ⟨l, ⟨key, hkey, hl, hsorted.imp fun hle => ?_⟩, hsorted⟩
  exact (Prod.Lex.toLex_le_toLex.mp hle).elim le_of_lt fun h => h.1.le

/-- Rows that are in front in every answer come before the other ones. -/
theorem settled_of_take_perm (hrows : rows.Nodup) (hkeys : ∀ x, (keys x).Nonempty) {b : ℕ}
    (hb : b ≤ rows.length)
    (h : ∀ l l', Returns keys rows l → Returns keys rows l' → (l.take b).Perm (l'.take b)) :
    Settled keys rows b := by
  classical
  choose key hkey using hkeys
  obtain ⟨l, hl, -⟩ := exists_returns hkey (fun _ => false) rows
  have hperm := hl.perm
  have hlen : (l.take b).length = b := by rw [List.length_take, hperm.length_eq, Nat.min_eq_left hb]
  refine ⟨l.take b, l.drop b, by rwa [List.take_append_drop], hlen, ?_⟩
  intro x hx y hy i hi j hj
  have hnodup := hperm.nodup_iff.mpr hrows
  rw [← List.take_append_drop b l, List.nodup_append] at hnodup
  have hne : x ≠ y := hnodup.2.2 x hx y hy
  by_contra hlt
  -- An answer may find the key `i` for `x` and `j` for `y`, and prefer `y` in a tie.
  let key' : α → κ := fun z => if z = y then j else if z = x then i else key z
  have hy' : key' y = j := if_pos rfl
  have hx' : key' x = i := (if_neg hne).trans (if_pos rfl)
  have hkey' : ∀ z, key' z ∈ keys z := by
    intro z
    dsimp only [key']
    split
    · next h => exact h ▸ hj
    · split
      · next h => exact h ▸ hi
      · exact hkey z
  obtain ⟨l', hl', hsorted⟩ := exists_returns hkey' (fun z => decide (z ≠ y)) rows
  have htake := h l l' hl hl'
  have hxl : x ∈ l'.take b := htake.mem_iff.mp hx
  have hyl : y ∈ l'.drop b := by
    have hmem := hl'.perm.mem_iff.mpr (hperm.mem_iff.mp (List.mem_of_mem_drop hy))
    rw [← List.take_append_drop b l', List.mem_append] at hmem
    exact hmem.resolve_left fun hmem => hnodup.2.2 y (htake.mem_iff.mpr hmem) y hy rfl
  rw [← List.take_append_drop b l', List.pairwise_append] at hsorted
  rcases Prod.Lex.toLex_le_toLex.mp (hsorted.2.2 x hxl y hyl) with hij | ⟨-, hle⟩
  · exact hlt (hx' ▸ hy' ▸ hij)
  · exact absurd hle (by simp [hne])

/-! ## The scroll -/

/-- The blocks hold the rows up to any block that begins where the rows are settled. -/
theorem scroll_perm_take (hrows : rows.Nodup) {n : ℕ} {answers : ℕ → List α}
    (hanswers : ∀ k, Returns keys rows (answers k))
    (h : ∀ k, k * n < rows.length → Settled keys rows (k * n)) (m : ℕ) :
    (scroll n answers m).Perm ((answers m).take (m * n)) := by
  induction m with
  | zero => simp [scroll]
  | succ m ih =>
    rw [scroll_succ]
    refine (ih.append_right _).trans ?_
    rw [← List.take_add, ← Nat.succ_mul]
    by_cases hm : (m + 1) * n < rows.length
    · obtain ⟨front, rest, hperm, hlen, hfirst⟩ := h _ hm
      rw [← hlen]
      exact ((hanswers m).take_perm hrows hperm hfirst).trans
        ((hanswers (m + 1)).take_perm hrows hperm hfirst).symm
    · have hall : ∀ k, ((answers k).take ((m + 1) * n)).Perm rows := by
        intro k
        rw [List.take_of_length_le ((hanswers k).perm.length_eq.trans_le (not_lt.mp hm))]
        exact (hanswers k).perm
      exact (hall m).trans (hall (m + 1)).symm

/-- **The condition of paging by an offset**: whatever the queries answer, the blocks hold every
row exactly once iff every block that begins in front of the last row begins where the rows are
settled. -/
theorem scroll_once_iff (hrows : rows.Nodup) (hkeys : ∀ x, (keys x).Nonempty) (n : ℕ+) :
    (∀ answers, (∀ k, Returns keys rows (answers k)) → ∀ m, rows.length ≤ m * n →
      (scroll n answers m).Perm rows) ↔ ∀ k, k * n < rows.length → Settled keys rows (k * n) := by
  constructor
  · intro h k hk
    refine settled_of_take_perm hrows hkeys hk.le fun l l' hl hl' => ?_
    -- One answer in front of the offset and the other one behind it.
    let mixed : ℕ → List α := fun i => if i < k then l else l'
    have hmixed : ∀ i, Returns keys rows (mixed i) := by
      intro i
      by_cases hi : i < k
      · rwa [show mixed i = l from if_pos hi]
      · rwa [show mixed i = l' from if_neg hi]
    have hm : rows.length ≤ (k + rows.length) * n :=
      (Nat.le_add_left _ k).trans (Nat.le_mul_of_pos_right _ n.pos)
    have hfront := scroll_perm_of_perm (n := n) (Nat.le_add_right k rows.length)
      (fun i hi => if_neg hi.not_gt)
      ((h mixed hmixed _ hm).trans (h (fun _ => l') (fun _ => hl') _ hm).symm)
    rw [scroll_congr fun i hi => if_pos hi, scroll_const, scroll_const] at hfront
    exact hfront
  · intro h answers hanswers m hm
    have hscroll := scroll_perm_take hrows hanswers h m
    rw [List.take_of_length_le ((hanswers m).perm.length_eq.trans_le hm)] at hscroll
    exact hscroll.trans (hanswers m).perm

end Offsets
