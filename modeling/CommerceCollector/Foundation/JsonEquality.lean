import CommerceCollector.Foundation.Json

/-!
# Equality of JSON values in Python

`==` of two values that `json.loads` gives: numbers are compared as numbers, a truth value is the
number 1 or 0, lists are compared item by item, and two `dict`s are equal if they are as large as
one another and what stands under each key of the one equals what stands under it in the other.  How
an `int` or `float` compares with another is a parameter.
-/

namespace JsonText

/-- Induction over values: what holds of lists and `dict`s whose items it holds of, and of every
other value, holds of all. -/
theorem Value.induction {p : Value → Prop} (null : p .null) (bool : ∀ b, p (.bool b))
    (number : ∀ n, p (.number n)) (string : ∀ s, p (.string s))
    (array : ∀ items, (∀ item ∈ items, p item) → p (.array items))
    (object : ∀ entries : List (String × Value), (∀ entry ∈ entries, p entry.2) → p (.object entries)) :
    ∀ v, p v
  | .null => null
  | .bool b => bool b
  | .number n => number n
  | .string s => string s
  | .array items => array items (ofItems items)
  | .object entries => object entries (ofEntries entries)
where
  ofItems : ∀ items : List Value, ∀ item ∈ items, p item
    | [] => fun _ h => absurd h List.not_mem_nil
    | item :: items => List.forall_mem_cons.mpr
        ⟨Value.induction null bool number string array object item, ofItems items⟩
  ofEntries : ∀ entries : List (String × Value), ∀ entry ∈ entries, p entry.2
    | [] => fun _ h => absurd h List.not_mem_nil
    | (_, item) :: entries => List.forall_mem_cons.mpr
        ⟨Value.induction null bool number string array object item, ofEntries entries⟩

/-- The number that a truth value is. -/
def Number.ofBool (b : Bool) : Number := .ofNat b.toNat

section Equal

variable (same : Number → Number → Bool)

mutual

/-- `first == second`. -/
def equal : Value → Value → Bool
  | .null, second =>
    match second with
    | .null => true
    | _ => false
  | .bool b, second =>
    match second with
    | .bool c => b == c
    | .number n => same (.ofBool b) n
    | _ => false
  | .number n, second =>
    match second with
    | .bool b => same n (.ofBool b)
    | .number m => same n m
    | _ => false
  | .string s, second =>
    match second with
    | .string t => s == t
    | _ => false
  | .array items, second =>
    match second with
    | .array others => equalItems items others
    | _ => false
  | .object entries, second =>
    match second with
    | .object others => entries.length == others.length && equalEntries entries others
    | _ => false

/-- Lists that are equal item by item. -/
def equalItems : List Value → List Value → Bool
  | [], others => others.isEmpty
  | item :: items, others =>
    match others with
    | [] => false
    | other :: rest => equal item other && equalItems items rest

/-- What stands under each key of the first equals what stands under it in the second. -/
def equalEntries : List (String × Value) → List (String × Value) → Bool
  | [], _ => true
  | (key, item) :: entries, others =>
    (match others.lookup key with
      | some other => equal item other
      | none => false) && equalEntries entries others

end

-- The equations are derived once, for the proofs below.
attribute [local simp] equal equalItems equalEntries

end Equal

/-! ## Equality of lists and `dict`s -/

section Iff

variable {same : Number → Number → Bool}

theorem equal_null_iff {w : Value} : equal same .null w = true ↔ w = .null := by
  cases w <;> simp [equal]

theorem equal_bool_iff {b : Bool} {w : Value} : equal same (.bool b) w = true ↔
    w = .bool b ∨ ∃ n, w = .number n ∧ same (.ofBool b) n = true := by
  cases w with
  | bool c => simpa [equal] using eq_comm
  | _ => simp [equal]

theorem equal_number_iff {n : Number} {w : Value} : equal same (.number n) w = true ↔
    (∃ m, w = .number m ∧ same n m = true) ∨ ∃ b, w = .bool b ∧ same n (.ofBool b) = true := by
  cases w <;> simp [equal]

theorem equal_string_iff {s : String} {w : Value} :
    equal same (.string s) w = true ↔ w = .string s := by
  cases w with
  | string t => simpa [equal] using eq_comm
  | _ => simp [equal]

theorem equal_array_iff {items : List Value} {w : Value} : equal same (.array items) w = true ↔
    ∃ others, w = .array others ∧ equalItems same items others = true := by
  cases w <;> simp [equal]

/-- Only a `dict` equals a `dict`. -/
theorem equal_object_kind {entries : List (String × Value)} {w : Value}
    (h : equal same (.object entries) w = true) : ∃ others, w = .object others := by
  cases w with
  | object others => exact ⟨others, rfl⟩
  | _ => simp [equal] at h

/-- Lists are equal if they are as long as one another and equal item by item. -/
theorem equalItems_iff {items others : List Value} :
    equalItems same items others = true ↔ items.length = others.length ∧
      ∀ (i : ℕ) item other, items[i]? = some item → others[i]? = some other →
        equal same item other = true := by
  induction items generalizing others with
  | nil =>
    rw [equalItems, List.isEmpty_iff]
    constructor
    · rintro rfl
      exact ⟨rfl, fun i item other h => absurd h (by simp)⟩
    · exact fun h => (List.length_eq_zero_iff.mp h.1.symm)
  | cons item items ih =>
    cases others with
    | nil =>
      rw [equalItems]
      exact iff_of_false Bool.false_ne_true fun h => absurd h.1 (by simp)
    | cons other others =>
      rw [equalItems, Bool.and_eq_true, ih, List.length_cons, List.length_cons, Nat.succ_inj]
      constructor
      · rintro ⟨hhere, hlength, hrest⟩
        refine ⟨hlength, fun i v w hv hw => ?_⟩
        cases i with
        | zero =>
          rw [List.getElem?_cons_zero, Option.some.injEq] at hv hw
          rw [← hv, ← hw]
          exact hhere
        | succ i =>
          rw [List.getElem?_cons_succ] at hv hw
          exact hrest i v w hv hw
      · rintro ⟨hlength, hall⟩
        refine ⟨hall 0 item other rfl rfl, hlength, fun i v w hv hw => hall (i + 1) v w ?_ ?_⟩
        · rw [List.getElem?_cons_succ, hv]
        · rw [List.getElem?_cons_succ, hw]

theorem equalEntries_iff {entries others : List (String × Value)} :
    equalEntries same entries others = true ↔
      ∀ entry ∈ entries, ∃ other, others.lookup entry.1 = some other ∧
        equal same entry.2 other = true := by
  induction entries with
  | nil => exact iff_of_true rfl fun _ h => absurd h List.not_mem_nil
  | cons entry entries ih =>
    obtain ⟨key, item⟩ := entry
    rw [equalEntries, Bool.and_eq_true, ih, List.forall_mem_cons]
    refine and_congr_left fun _ => ?_
    cases others.lookup key with
    | none => exact iff_of_false Bool.false_ne_true fun ⟨_, h, _⟩ => nomatch h
    | some other => exact ⟨fun h => ⟨other, rfl, h⟩, fun ⟨_, h, heq⟩ => Option.some.inj h ▸ heq⟩

/-- **`dict`s are equal if they have the same keys and under each of them equal values.** -/
theorem equal_object_iff {entries others : List (String × Value)}
    (hentries : (entries.map Prod.fst).Nodup) (hothers : (others.map Prod.fst).Nodup) :
    equal same (.object entries) (.object others) = true ↔
      (∀ key, key ∈ entries.map Prod.fst ↔ key ∈ others.map Prod.fst) ∧
      ∀ key item other, entries.lookup key = some item → others.lookup key = some other →
        equal same item other = true := by
  have hmem : ∀ key, key ∈ others.map Prod.fst ↔ ∃ other, others.lookup key = some other := by
    intro key
    constructor
    · intro hkey
      obtain ⟨⟨_, other⟩, hother, rfl⟩ := List.mem_map.mp hkey
      exact ⟨other, (lookup_of_mem hothers).mpr hother⟩
    · rintro ⟨other, hother⟩
      exact List.mem_map.mpr ⟨_, (lookup_of_mem hothers).mp hother, rfl⟩
  rw [equal, Bool.and_eq_true, beq_iff_eq, equalEntries_iff]
  constructor
  · rintro ⟨hlength, hall⟩
    have hsub : entries.map Prod.fst ⊆ others.map Prod.fst := by
      intro key hkey
      obtain ⟨entry, hentry, rfl⟩ := List.mem_map.mp hkey
      obtain ⟨other, hother, -⟩ := hall entry hentry
      exact (hmem _).mpr ⟨other, hother⟩
    have hperm : (entries.map Prod.fst).Perm (others.map Prod.fst) :=
      (List.subperm_of_subset hentries hsub).perm_of_length_le (by simp [hlength])
    refine ⟨fun key => hperm.mem_iff, fun key item other hitem hother => ?_⟩
    obtain ⟨found, hfound, hequal⟩ := hall _ ((lookup_of_mem hentries).mp hitem)
    exact Option.some.inj (hfound.symm.trans hother) ▸ hequal
  · rintro ⟨hkeys, hall⟩
    have hperm : (entries.map Prod.fst).Perm (others.map Prod.fst) :=
      (List.perm_ext_iff_of_nodup hentries hothers).mpr hkeys
    refine ⟨by simpa using hperm.length_eq, fun entry hentry => ?_⟩
    obtain ⟨other, hother⟩ := (hmem entry.1).mp ((hkeys _).mp (List.mem_map_of_mem hentry))
    exact ⟨other, hother, hall _ _ _ ((lookup_of_mem hentries).mpr hentry) hother⟩

end Iff

/-! ## Values that equal themselves -/

section Sound

variable (number : Number → Prop)

mutual

/-- No `dict` has two entries of one key, and every number is of the given kind. -/
def Sound : Value → Prop
  | .null => True
  | .bool _ => True
  | .number n => number n
  | .string _ => True
  | .array items => SoundItems items
  | .object entries => (entries.map Prod.fst).Nodup ∧ SoundEntries entries

/-- Every item is sound. -/
def SoundItems : List Value → Prop
  | [] => True
  | item :: items => Sound item ∧ SoundItems items

/-- Every entry is sound. -/
def SoundEntries : List (String × Value) → Prop
  | [] => True
  | (_, item) :: entries => Sound item ∧ SoundEntries entries

end

variable {number}

theorem soundItems_iff {items : List Value} :
    SoundItems number items ↔ ∀ item ∈ items, Sound number item := by
  induction items with
  | nil => exact iff_of_true trivial fun _ h => absurd h List.not_mem_nil
  | cons item items ih => rw [SoundItems, ih, List.forall_mem_cons]

theorem soundEntries_iff {entries : List (String × Value)} :
    SoundEntries number entries ↔ ∀ entry ∈ entries, Sound number entry.2 := by
  induction entries with
  | nil => exact iff_of_true trivial fun _ h => absurd h List.not_mem_nil
  | cons entry entries ih =>
    obtain ⟨key, item⟩ := entry
    rw [SoundEntries, ih, List.forall_mem_cons]

variable {same : Number → Number → Bool}

mutual

/-- **A sound value equals itself.** -/
theorem equal_self (h : ∀ n, number n → same n n = true) : ∀ v : Value, Sound number v →
    equal same v v = true
  | .null, _ => rfl
  | .bool b, _ => beq_self_eq_true b
  | .number n, hv => by
    rw [Sound] at hv
    exact h n hv
  | .string s, _ => beq_self_eq_true s
  | .array items, hv => by
    rw [Sound] at hv
    exact equalItems_self h items hv
  | .object entries, hv => by
    rw [Sound] at hv
    have hentries := equalEntries_self h entries entries
      (fun entry hentry => (lookup_of_mem hv.1).mpr hentry) hv.2
    rw [equal, hentries, beq_self_eq_true]
    rfl

/-- The items of a list. -/
theorem equalItems_self (h : ∀ n, number n → same n n = true) : ∀ items : List Value,
    SoundItems number items → equalItems same items items = true
  | [], _ => rfl
  | item :: items, hitems => by
    rw [SoundItems] at hitems
    rw [equalItems, equal_self h item hitems.1, equalItems_self h items hitems.2]
    rfl

/-- The entries of a `dict` that has them all. -/
theorem equalEntries_self (h : ∀ n, number n → same n n = true) :
    ∀ entries all : List (String × Value),
    (∀ entry ∈ entries, all.lookup entry.1 = some entry.2) → SoundEntries number entries →
    equalEntries same entries all = true
  | [], _, _, _ => rfl
  | (key, item) :: entries, all, hall, hentries => by
    rw [SoundEntries] at hentries
    have hhere : all.lookup key = some item := hall (key, item) List.mem_cons_self
    have hrest := equalEntries_self h entries all
      (fun entry hentry => hall entry (List.mem_cons_of_mem _ hentry)) hentries.2
    rw [equalEntries, hhere, hrest, Bool.and_true]
    exact equal_self h item hentries.1

end

end Sound

end JsonText
