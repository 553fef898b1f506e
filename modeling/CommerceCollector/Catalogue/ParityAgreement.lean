import CommerceCollector.Catalogue.Parity

/-!
# What parity of two records means

Two records agree if they are equal as JSON values at every path that no rule ignores, up to the
tolerances of numbers that stand outside of lists.  What is kept of a record is described by what
stands under each key, so that the order of its keys does not matter, and two values that are kept
of records are equal in Python if and only if they agree, unless a truth value stands opposite the
number that it is in Python.
-/

namespace CommerceCollector.Parity

open JsonText

variable {φ : Type*} (library : Library φ) (ignored : List String)
  (tolerances : List (String × NumericTolerance))

/-! ## Agreement -/

/-- The numbers at a path are equal, or, outside of lists, within its tolerance. -/
def AgreeNumbers (inList : Bool) (path : String) (m n : Number) : Prop :=
  library.same m n = true ∨ (inList = false ∧ ∃ tolerance x y,
    tolerances.lookup path = some tolerance ∧ library.float m = some x ∧ library.float n = some y ∧
      library.close tolerance x y = true)

/-- **The values at a path are equal as JSON values at every path below it that is not ignored.** -/
inductive Agree : Bool → String → Value → Value → Prop
  | null {inList path} : Agree inList path .null .null
  | bool {inList path} (b : Bool) : Agree inList path (.bool b) (.bool b)
  | string {inList path} (s : String) : Agree inList path (.string s) (.string s)
  | number {inList path m n} (numbers : AgreeNumbers library tolerances inList path m n) :
      Agree inList path (.number m) (.number n)
  | array {inList path} {items others : List Value} (length : items.length = others.length)
      (agree : ∀ (i : ℕ) item other, items[i]? = some item → others[i]? = some other →
        Agree true path item other) : Agree inList path (.array items) (.array others)
  | object {inList path} {entries others : List (String × Value)}
      (keys : ∀ key, isIgnored ignored (joinPath path key) = false →
        (key ∈ entries.map Prod.fst ↔ key ∈ others.map Prod.fst))
      (agree : ∀ key item other, isIgnored ignored (joinPath path key) = false →
        entries.lookup key = some item → others.lookup key = some other →
        Agree inList (joinPath path key) item other) :
      Agree inList path (.object entries) (.object others)

/-- Somewhere a truth value stands opposite the number that it is in Python. -/
inductive Clash : String → Value → Value → Prop
  | bool {path b n} (same : library.same (.ofBool b) n = true) : Clash path (.bool b) (.number n)
  | number {path n b} (same : library.same n (.ofBool b) = true) : Clash path (.number n) (.bool b)
  | array {path} {items others : List Value} {i : ℕ} {item other : Value}
      (left : items[i]? = some item) (right : others[i]? = some other)
      (clash : Clash path item other) : Clash path (.array items) (.array others)
  | object {path key} {entries others : List (String × Value)} {item other : Value}
      (kept : isIgnored ignored (joinPath path key) = false)
      (left : entries.lookup key = some item) (right : others.lookup key = some other)
      (clash : Clash (joinPath path key) item other) :
      Clash path (.object entries) (.object others)

/-- No `dict` has two entries of one key. -/
abbrev DistinctKeys (v : Value) : Prop := Sound (fun _ => True) v

/-- What is kept of a value: the entries that are not ignored, with sorted keys. -/
def kept (path : String) (v : Value) : Value := sortKeys (visit ignored path v)

variable {library ignored tolerances}

/-! ## What is kept -/

theorem visitItems_eq (path : String) (items : List Value) :
    visitItems ignored path items = items.map (visit ignored path) := by
  induction items with
  | nil => rw [visitItems, List.map_nil]
  | cons item items ih => rw [visitItems, ih, List.map_cons]

theorem kept_array (path : String) (items : List Value) :
    kept ignored path (.array items) = .array (items.map (kept ignored path)) := by
  rw [kept, visit, sortKeys, sortItems_eq, visitItems_eq, List.map_map]
  rfl

variable (ignored) in
theorem keys_visitEntries (path : String) (entries : List (String × Value)) :
    (visitEntries ignored path entries).map Prod.fst =
      (entries.map Prod.fst).filter fun key => !isIgnored ignored (joinPath path key) := by
  induction entries with
  | nil => rw [visitEntries]; rfl
  | cons entry entries ih =>
    obtain ⟨key, child⟩ := entry
    rw [visitEntries, List.map_cons]
    cases hignored : isIgnored ignored (joinPath path key) with
    | true =>
      rw [if_pos rfl, ih, List.filter_cons_of_neg (by simp [hignored])]
    | false =>
      rw [if_neg Bool.false_ne_true, List.map_cons, ih,
        List.filter_cons_of_pos (by simp [hignored])]

theorem lookup_visitEntries (path : String) (entries : List (String × Value)) (key : String) :
    (visitEntries ignored path entries).lookup key =
      if isIgnored ignored (joinPath path key) = true then none
      else (entries.lookup key).map (visit ignored (joinPath path key)) := by
  induction entries with
  | nil => rw [visitEntries]; simp
  | cons entry entries ih =>
    obtain ⟨name, child⟩ := entry
    rw [visitEntries, List.lookup_cons]
    by_cases hname : key = name
    · subst hname
      cases hignored : isIgnored ignored (joinPath path key) with
      | true =>
        rw [if_pos rfl, ih, hignored, if_pos rfl, if_pos rfl]
      | false =>
        rw [if_neg Bool.false_ne_true, if_neg Bool.false_ne_true, List.lookup_cons_self,
          beq_self_eq_true]
        rfl
    · have hne : (key == name) = false := beq_eq_false_iff_ne.mpr hname
      rw [hne]
      cases hignored : isIgnored ignored (joinPath path name) with
      | true => rw [if_pos rfl, ih]
      | false => rw [if_neg Bool.false_ne_true, List.lookup_cons, hne, ih]

variable (ignored) in
/-- **What is kept of a `dict`, by what stands under each key.** -/
theorem kept_object (path : String) {entries : List (String × Value)}
    (hnodup : (entries.map Prod.fst).Nodup) :
    ∃ fields : List (String × Value), kept ignored path (.object entries) = .object fields ∧
      (fields.map Prod.fst).Nodup ∧
      (∀ key, key ∈ fields.map Prod.fst ↔
        isIgnored ignored (joinPath path key) = false ∧ key ∈ entries.map Prod.fst) ∧
      ∀ key, isIgnored ignored (joinPath path key) = false →
        fields.lookup key = (entries.lookup key).map (kept ignored (joinPath path key)) := by
  have hkeys := keys_visitEntries ignored path entries
  have hvisit : ((visitEntries ignored path entries).map Prod.fst).Nodup := by
    rw [hkeys]
    exact hnodup.filter _
  have hsorted : ((sortEntries (visitEntries ignored path entries)).map Prod.fst) =
      (visitEntries ignored path entries).map Prod.fst := by
    rw [sortEntries_eq, List.map_map]
    rfl
  have hperm := List.perm_insertionSort (fun e f : String × Value => e.1 ≤ f.1)
    (sortEntries (visitEntries ignored path entries))
  have hnodup' := (hperm.map Prod.fst).nodup_iff.mpr (hsorted ▸ hvisit)
  refine ⟨_, by rw [kept, visit, sortKeys], hnodup', fun key => ?_, fun key hignored => ?_⟩
  · rw [(hperm.map Prod.fst).mem_iff, hsorted, hkeys, List.mem_filter, and_comm]
    simp
  · rw [lookup_eq_of_perm hperm hnodup', sortEntries_eq]
    have hmap : ∀ fields : List (String × Value),
        (fields.map fun e => (e.1, sortKeys e.2)).lookup key = (fields.lookup key).map sortKeys := by
      intro fields
      induction fields with
      | nil => rfl
      | cons field fields ih =>
        rw [List.map_cons, List.lookup_cons, List.lookup_cons, ih]
        cases key == field.1 <;> rfl
    rw [hmap, lookup_visitEntries, if_neg (by simp [hignored]), Option.map_map]
    rfl

section Kinds

variable {path : String} {w : Value}

theorem kept_eq_null : kept ignored path w = .null ↔ w = .null := by
  cases w <;> simp [kept, visit, sortKeys]

theorem kept_eq_bool {b : Bool} : kept ignored path w = .bool b ↔ w = .bool b := by
  cases w <;> simp [kept, visit, sortKeys]

theorem kept_eq_number {n : Number} : kept ignored path w = .number n ↔ w = .number n := by
  cases w <;> simp [kept, visit, sortKeys]

theorem kept_eq_string {s : String} : kept ignored path w = .string s ↔ w = .string s := by
  cases w <;> simp [kept, visit, sortKeys]

theorem kept_eq_array {others : List Value} : kept ignored path w = .array others ↔
    ∃ items, w = .array items ∧ others = items.map (kept ignored path) := by
  cases w with
  | array items => simp [kept_array, eq_comm]
  | _ => simp [kept, visit, sortKeys]

theorem kept_eq_object {fields : List (String × Value)} :
    kept ignored path w = .object fields → ∃ entries, w = .object entries := by
  cases w with
  | object entries => exact fun _ => ⟨entries, rfl⟩
  | _ => simp [kept, visit, sortKeys]

end Kinds

variable (tolerances) in
/-- **Two values that are kept are equal in Python if and only if the values agree, as in
lists.** -/
theorem equal_kept_iff (v : Value) : ∀ (path : String) (w : Value), DistinctKeys v → DistinctKeys w →
    ¬Clash library ignored path v w →
    (equal library.same (kept ignored path v) (kept ignored path w) = true ↔
      Agree library ignored tolerances true path v w) := by
  induction v using Value.induction with
  | null =>
    intro path w _ _ _
    constructor
    · intro h
      rw [kept_eq_null.mpr rfl, equal_null_iff, kept_eq_null] at h
      rw [h]
      exact .null
    · rintro ⟨⟩
      exact equal_null_iff.mpr (kept_eq_null.mpr rfl)
  | bool b =>
    intro path w _ _ hclash
    constructor
    · intro h
      rw [kept_eq_bool.mpr rfl, equal_bool_iff] at h
      rcases h with h | ⟨n, h, hsame⟩
      · rw [kept_eq_bool.mp h]
        exact .bool b
      · exact absurd (kept_eq_number.mp h ▸ .bool hsame) hclash
    · rintro ⟨⟩
      rw [kept_eq_bool.mpr rfl]
      exact equal_bool_iff.mpr (.inl rfl)
  | number n =>
    intro path w _ _ hclash
    constructor
    · intro h
      rw [kept_eq_number.mpr rfl, equal_number_iff] at h
      rcases h with ⟨m, h, hsame⟩ | ⟨b, h, hsame⟩
      · rw [kept_eq_number.mp h]
        exact .number (.inl hsame)
      · exact absurd (kept_eq_bool.mp h ▸ .number hsame) hclash
    · intro h
      cases h with
      | number hnumbers =>
        rw [kept_eq_number.mpr rfl, kept_eq_number.mpr rfl]
        exact equal_number_iff.mpr (.inl ⟨_, rfl, hnumbers.resolve_right fun h => nomatch h.1⟩)
  | string s =>
    intro path w _ _ _
    constructor
    · intro h
      rw [kept_eq_string.mpr rfl, equal_string_iff, kept_eq_string] at h
      rw [h]
      exact .string s
    · rintro ⟨⟩
      exact equal_string_iff.mpr (kept_eq_string.mpr rfl)
  | array items ih =>
    intro path w hv hw hclash
    rw [DistinctKeys, Sound, soundItems_iff] at hv
    have hitem : ∀ (i : ℕ) item others other, w = .array others → items[i]? = some item →
        others[i]? = some other →
        (equal library.same (kept ignored path item) (kept ignored path other) = true ↔
          Agree library ignored tolerances true path item other) := by
      rintro i item others other rfl hleft hright
      rw [DistinctKeys, Sound, soundItems_iff] at hw
      exact ih item (List.mem_of_getElem? hleft) path other (hv item (List.mem_of_getElem? hleft))
        (hw other (List.mem_of_getElem? hright)) fun h => hclash (.array hleft hright h)
    rw [kept_array, equal_array_iff]
    constructor
    · rintro ⟨others', hothers', hequal⟩
      obtain ⟨others, rfl, rfl⟩ := kept_eq_array.mp hothers'
      rw [equalItems_iff, List.length_map, List.length_map] at hequal
      refine .array hequal.1 fun i item other hleft hright => ?_
      exact (hitem i item others other rfl hleft hright).mp (hequal.2 i _ _
        (by rw [List.getElem?_map, hleft]; rfl) (by rw [List.getElem?_map, hright]; rfl))
    · intro h
      cases h with
      | array hlength hagree =>
        refine ⟨_, kept_array path _, equalItems_iff.mpr ⟨by simpa using hlength, ?_⟩⟩
        intro i v w hleft hright
        rw [List.getElem?_map, Option.map_eq_some_iff] at hleft hright
        obtain ⟨item, hleft, rfl⟩ := hleft
        obtain ⟨other, hright, rfl⟩ := hright
        exact (hitem i item _ other rfl hleft hright).mpr (hagree i item other hleft hright)
  | object entries ih =>
    intro path w hv hw hclash
    rw [DistinctKeys, Sound, soundEntries_iff] at hv
    obtain ⟨fields, hfields, hnodup, hkeys, hlookup⟩ := kept_object ignored path hv.1
    by_cases hkind : ∃ others, w = .object others
    · obtain ⟨others, rfl⟩ := hkind
      rw [DistinctKeys, Sound, soundEntries_iff] at hw
      obtain ⟨fields', hfields', hnodup', hkeys', hlookup'⟩ := kept_object ignored path
        hw.1
      have hfield : ∀ key item other, isIgnored ignored (joinPath path key) = false →
          entries.lookup key = some item → others.lookup key = some other →
          (equal library.same (kept ignored (joinPath path key) item)
              (kept ignored (joinPath path key) other) = true ↔
            Agree library ignored tolerances true (joinPath path key) item other) := by
        intro key item other hkept hleft hright
        have hin := (lookup_of_mem hv.1).mp hleft
        exact ih _ hin (joinPath path key) other (hv.2 _ hin)
          (hw.2 _ ((lookup_of_mem hw.1).mp hright)) fun h => hclash (.object hkept hleft hright h)
      rw [hfields, hfields', equal_object_iff hnodup hnodup']
      constructor
      · rintro ⟨hsame, hequal⟩
        refine .object (fun key hkept => ?_) fun key item other hkept hleft hright => ?_
        · have hboth := hsame key
          rwa [hkeys, hkeys', and_iff_right hkept, and_iff_right hkept] at hboth
        · refine (hfield key item other hkept hleft hright).mp (hequal key _ _ ?_ ?_)
          · rw [hlookup key hkept, hleft]
            rfl
          · rw [hlookup' key hkept, hright]
            rfl
      · intro h
        cases h with
        | object hsame hagree =>
          refine ⟨fun key => ?_, fun key v w hleft hright => ?_⟩
          · rw [hkeys, hkeys']
            exact and_congr_right fun hkept => hsame key hkept
          · have hkept : isIgnored ignored (joinPath path key) = false :=
              ((hkeys key).mp (List.mem_map.mpr ⟨_, (lookup_of_mem hnodup).mp hleft, rfl⟩)).1
            rw [hlookup key hkept, Option.map_eq_some_iff] at hleft
            rw [hlookup' key hkept, Option.map_eq_some_iff] at hright
            obtain ⟨item, hleft, rfl⟩ := hleft
            obtain ⟨other, hright, rfl⟩ := hright
            exact (hfield key item other hkept hleft hright).mpr
              (hagree key item other hkept hleft hright)
    · refine iff_of_false (fun h => hkind ?_) fun h => hkind ?_
      · rw [hfields] at h
        obtain ⟨fields', hfields'⟩ := equal_object_kind h
        exact kept_eq_object hfields'
      · cases h
        exact ⟨_, rfl⟩

end CommerceCollector.Parity
