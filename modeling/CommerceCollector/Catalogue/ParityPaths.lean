import Mathlib.Data.List.Dedup
import CommerceCollector.Catalogue.ParityAgreement
import CommerceCollector.Models.SanitizedNodes

/-!
# Fields under dotted paths

The fields into which a record is taken apart stand under the path of their keys.  Where no key has
a dot, and none is empty, the paths of two keys of a `dict` are apart, so that fields are compared
key by key, and the fields of two records are the same if and only if the records agree.
-/

namespace CommerceCollector.Parity

open JsonText

/-! ## Paths -/

/-- What stands in front of a key in its path. -/
def stem (path : String) : List Char := if path = "" then [] else path.toList ++ ['.']

theorem toList_joinPath (path key : String) :
    (joinPath path key).toList = stem path ++ key.toList := by
  rw [joinPath, stem]
  split
  · rfl
  · rw [String.toList_append, String.toList_append]
    rfl

theorem joinPath_ne {path key : String} (h : path ≠ "" ∨ key ≠ "") : joinPath path key ≠ "" := by
  intro hnil
  have hchars := toList_joinPath path key
  rw [hnil, stem] at hchars
  split at hchars
  · rename_i hpath
    exact (h.resolve_left (not_not.mpr hpath)) (String.toList_inj.mp hchars.symm)
  · simp at hchars

/-- The path leads through another. -/
def Through (path q : String) : Prop := path.toList ++ ['.'] <+: q.toList

/-- The path is another or leads through it. -/
def Below (path q : String) : Prop := q = path ∨ Through path q

theorem not_through_self (path : String) : ¬Through path path := fun h => by
  have hlength := h.length_le
  rw [List.length_append, List.length_singleton] at hlength
  omega

theorem through_of_below_join {path key q : String} (hpath : path ≠ "")
    (h : Below (joinPath path key) q) : Through path q := by
  have hstem : stem path = path.toList ++ ['.'] := if_neg hpath
  have hjoin : path.toList ++ ['.'] <+: (joinPath path key).toList := by
    rw [toList_joinPath, hstem]
    exact List.prefix_append _ _
  rcases h with rfl | h
  · exact hjoin
  · exact hjoin.trans ((List.prefix_append _ _).trans h)

/-- **A path leads through one key at most**, if keys have no dots. -/
theorem below_unique {path key other q : String} (hkey : '.' ∉ key.toList)
    (hother : '.' ∉ other.toList) (h : Below (joinPath path key) q)
    (h' : Below (joinPath path other) q) : key = other := by
  have hread : ∀ {name : String}, '.' ∉ name.toList → Below (joinPath path name) q →
      (q.toList.drop (stem path).length).takeWhile (· != '.') = name.toList := by
    intro name hname hbelow
    obtain ⟨rest, hrest, hq⟩ : ∃ rest : List Char, (rest = [] ∨ rest.head? = some '.') ∧
        q.toList = stem path ++ (name.toList ++ rest) := by
      rcases hbelow with rfl | ⟨rest, hrest⟩
      · exact ⟨[], .inl rfl, by rw [toList_joinPath, List.append_nil]⟩
      · refine ⟨'.' :: rest, .inr rfl, ?_⟩
        rw [← hrest, toList_joinPath]
        simp
    rw [hq, List.drop_left]
    exact takeWhile_ne (fun d hd heq => hname (heq ▸ hd)) hrest
  exact String.toList_inj.mp ((hread hkey h).symm.trans (hread hother h'))

/-! ## Fields -/

theorem flattenEntries_eq (path : String) (entries : List (String × Value)) :
    flattenEntries path entries =
      entries.flatMap fun entry => flattenItem (joinPath path entry.1) entry.2 := by
  induction entries with
  | nil => rw [flattenEntries]; rfl
  | cons entry entries ih =>
    obtain ⟨key, item⟩ := entry
    rw [flattenEntries, ih, List.flatMap_cons]

/-- A value is one field, unless it is a `dict` with entries. -/
theorem flattenItem_cases (path : String) (v : Value) : flattenItem path v = [(path, v)] ∨
    ∃ entries, v = .object entries ∧ entries ≠ [] ∧
      flattenItem path v = flattenEntries path entries := by
  cases v with
  | object entries =>
    rw [flattenItem]
    cases entries with
    | nil => exact .inl rfl
    | cons entry entries => exact .inr ⟨_, rfl, List.cons_ne_nil _ _, rfl⟩
  | _ => exact .inl rfl

theorem below_flattenItem (v : Value) : ∀ {path : String}, path ≠ "" →
    ∀ field ∈ flattenItem path v, Below path field.1 := by
  induction v using Value.induction with
  | object entries ih =>
    intro path hpath field hfield
    rcases flattenItem_cases path (.object entries) with hsingle | ⟨entries', heq, -, hentries⟩
    · rw [hsingle, List.mem_singleton] at hfield
      exact .inl (by rw [hfield])
    · obtain rfl := Value.object.inj heq
      rw [hentries, flattenEntries_eq, List.mem_flatMap] at hfield
      obtain ⟨entry, hentry, hfield⟩ := hfield
      exact .inr (through_of_below_join hpath (ih entry hentry (joinPath_ne (.inl hpath)) field hfield))
  | _ =>
    intro path _ field hfield
    exact .inl (by rw [List.mem_singleton.mp hfield])

theorem flattenItem_ne_nil (v : Value) : ∀ path : String, flattenItem path v ≠ [] := by
  induction v using Value.induction with
  | object entries ih =>
    intro path
    rcases flattenItem_cases path (.object entries) with hsingle | ⟨entries', heq, hne, hentries⟩
    · rw [hsingle]
      exact List.cons_ne_nil _ _
    · obtain rfl := Value.object.inj heq
      obtain ⟨entry, rest, rfl⟩ := List.exists_cons_of_ne_nil hne
      rw [hentries, flattenEntries_eq, List.flatMap_cons]
      exact List.append_ne_nil_of_left_ne_nil (ih entry List.mem_cons_self _) _
  | _ => exact fun path => List.cons_ne_nil _ _

/-- The keys of a `dict` are apart, and none is empty or has a dot. -/
structure PlainKeys (fields : List (String × Value)) : Prop where
  nodup : (fields.map Prod.fst).Nodup
  ne : ∀ field ∈ fields, field.1 ≠ ""
  dot : ∀ field ∈ fields, '.' ∉ field.1.toList

section Lookup

variable {path q : String} {fields : List (String × Value)}

theorem lookup_flattenEntries_none (hne : ∀ field ∈ fields, field.1 ≠ "")
    (h : ∀ field ∈ fields, ¬Below (joinPath path field.1) q) :
    (flattenEntries path fields).lookup q = none := by
  rw [List.lookup_eq_none_iff, flattenEntries_eq]
  intro found hfound
  obtain ⟨field, hfield, hfound⟩ := List.mem_flatMap.mp hfound
  have hbelow := below_flattenItem field.2 (joinPath_ne (.inr (hne field hfield))) found hfound
  rw [bne_iff_ne]
  rintro rfl
  exact h field hfield hbelow

/-- **Under a path that leads through a key stands what the value of the key has there.** -/
theorem lookup_flattenEntries (h : PlainKeys fields) {key : String} {v : Value}
    (hkey : fields.lookup key = some v) (hq : Below (joinPath path key) q) :
    (flattenEntries path fields).lookup q = (flattenItem (joinPath path key) v).lookup q := by
  have hmem := (lookup_of_mem h.nodup).mp hkey
  have hdot := h.dot _ hmem
  induction fields with
  | nil => exact absurd hmem List.not_mem_nil
  | cons field fields ih =>
    obtain ⟨name, w⟩ := field
    have hrest : PlainKeys fields := ⟨(List.nodup_cons.mp h.nodup).2,
      fun f hf => h.ne f (List.mem_cons_of_mem _ hf), fun f hf => h.dot f (List.mem_cons_of_mem _ hf)⟩
    rw [flattenEntries, List.lookup_append]
    by_cases hname : key = name
    · subst hname
      have hw : v = w := by
        rw [List.lookup_cons_self] at hkey
        exact (Option.some.inj hkey).symm
      have hnone : (flattenEntries path fields).lookup q = none := by
        refine lookup_flattenEntries_none hrest.ne fun f hf hbelow => ?_
        have heq := below_unique hdot (hrest.dot f hf) hq hbelow
        exact (List.nodup_cons.mp h.nodup).1 (heq ▸ List.mem_map_of_mem hf)
      rw [hnone, Option.or_none, hw]
    · have hne : (key == name) = false := beq_eq_false_iff_ne.mpr hname
      rw [List.lookup_cons, hne] at hkey
      have hnone : (flattenItem (joinPath path name) w).lookup q = none := by
        rw [List.lookup_eq_none_iff]
        intro found hfound
        have hbelow := below_flattenItem w
          (joinPath_ne (.inr (h.ne (name, w) List.mem_cons_self))) found hfound
        rw [bne_iff_ne]
        rintro rfl
        exact hname (below_unique hdot (h.dot (name, w) List.mem_cons_self) hq hbelow)
      rw [hnone, Option.none_or]
      exact ih hrest hkey ((lookup_of_mem hrest.nodup).mp hkey)

end Lookup

/-! ## Fields that are the same -/

section Same

variable {φ : Type*} {library : Library φ} {tolerances : List (String × NumericTolerance)}
  {ignored : List String}

/-- What stands under each path is equivalent. -/
def SameFields (library : Library φ) (tolerances : List (String × NumericTolerance))
    (left right : List (String × Value)) : Prop :=
  ∀ q, equivalent library (left.lookup q) (right.lookup q) (tolerances.lookup q) = .ok true

theorem equivalent_none (tolerance : Option NumericTolerance) :
    equivalent library none none tolerance = .ok true := rfl

theorem equivalent_missing {v : Value} {tolerance : Option NumericTolerance} :
    equivalent library (some v) none tolerance ≠ .ok true ∧
      equivalent library none (some v) tolerance ≠ .ok true :=
  ⟨nofun, nofun⟩

/-- Two values are equivalent if they are equal or numbers within the tolerance. -/
theorem equivalent_some_iff {v w : Value} {tolerance : Option NumericTolerance} :
    equivalent library (some v) (some w) tolerance = .ok true ↔ equal library.same v w = true ∨
      ∃ t m n x y, tolerance = some t ∧ v = .number m ∧ w = .number n ∧
        library.float m = some x ∧ library.float n = some y ∧ library.close t x y = true := by
  unfold equivalent
  dsimp only
  by_cases hequal : equal library.same v w = true
  · rw [if_pos hequal]
    exact iff_of_true rfl (.inl hequal)
  · rw [if_neg hequal, or_iff_right hequal]
    constructor
    · intro h
      split at h
      · rename_i t m n
        split at h
        · rename_i x y hx hy
          exact ⟨t, m, n, x, y, rfl, rfl, rfl, hx, hy, Except.ok.inj h⟩
        · exact nomatch h
      · exact nomatch h
    · rintro ⟨t, m, n, x, y, rfl, rfl, rfl, hx, hy, hclose⟩
      simp only [hx, hy, hclose]

variable {left right : List (String × Value)}

theorem differencesAt_nil_iff {paths : List String} :
    differencesAt library left right tolerances paths = .ok [] ↔ ∀ path ∈ paths,
      equivalent library (left.lookup path) (right.lookup path) (tolerances.lookup path) = .ok true := by
  induction paths with
  | nil => exact iff_of_true rfl fun _ h => absurd h List.not_mem_nil
  | cons path paths ih =>
    rw [differencesAt, List.forall_mem_cons, ← ih]
    cases equivalent library (left.lookup path) (right.lookup path) (tolerances.lookup path) with
    | error e => exact iff_of_false nofun fun h => nomatch h.1
    | ok alike =>
      cases differencesAt library left right tolerances paths with
      | error e => exact iff_of_false nofun fun h => nomatch h.2
      | ok rest => cases alike <;> simp [bind, Except.bind, pure, Except.pure]

theorem mem_sortedSet {paths : List String} {path : String} : path ∈ sortedSet paths ↔ path ∈ paths := by
  rw [sortedSet, List.mem_insertionSort, List.mem_dedup]

/-- Two records have no differences if and only if their fields are the same. -/
theorem fieldDifferences_nil_iff {left right : Value} :
    fieldDifferences library left right tolerances = .ok [] ↔
      SameFields library tolerances (flatten left) (flatten right) := by
  rw [fieldDifferences, differencesAt_nil_iff]
  refine ⟨fun h q => ?_, fun h q _ => h q⟩
  by_cases hq : q ∈ (flatten left).map Prod.fst ++ (flatten right).map Prod.fst
  · exact h q (mem_sortedSet.mpr hq)
  · rw [List.mem_append, not_or] at hq
    have hnone : ∀ {fields : List (String × Value)}, q ∉ fields.map Prod.fst →
        fields.lookup q = none := by
      intro fields hnot
      rw [List.lookup_eq_none_iff]
      intro field hfield
      rw [bne_iff_ne]
      rintro rfl
      exact hnot (List.mem_map_of_mem hfield)
    rw [hnone hq.1, hnone hq.2]
    rfl

theorem not_sameFields {field : String × Value} {q : String}
    (hq : field.1 = q) (h : field ∈ left ∧ right.lookup q = none ∨ field ∈ right ∧
      left.lookup q = none) : ¬SameFields library tolerances left right := by
  intro hsame
  have hfound : ∀ {fields : List (String × Value)}, field ∈ fields → ∃ v, fields.lookup q = some v := by
    intro fields hmem
    refine Option.isSome_iff_exists.mp (List.lookup_isSome_iff.mpr ⟨field, hmem, ?_⟩)
    rw [hq]
    exact beq_self_eq_true q
  rcases h with ⟨hmem, hnone⟩ | ⟨hmem, hnone⟩
  · obtain ⟨v, hv⟩ := hfound hmem
    exact equivalent_missing.1 (hnone ▸ hv ▸ hsame q)
  · obtain ⟨v, hv⟩ := hfound hmem
    exact equivalent_missing.2 (hnone ▸ hv ▸ hsame q)

theorem sameFields_single {path : String} {v w : Value} :
    SameFields library tolerances [(path, v)] [(path, w)] ↔
      equivalent library (some v) (some w) (tolerances.lookup path) = .ok true := by
  refine ⟨fun h => ?_, fun h q => ?_⟩
  · have hpath := h path
    rwa [List.lookup_cons_self, List.lookup_cons_self] at hpath
  · by_cases hq : q = path
    · subst hq
      rwa [List.lookup_cons_self, List.lookup_cons_self]
    · have hne : (q == path) = false := beq_eq_false_iff_ne.mpr hq
      rw [List.lookup_cons, List.lookup_cons, hne]
      rfl

/-- **The fields of two `dict`s are the same if and only if they have the same keys and under each
of them the same fields.** -/
theorem sameFields_entries_iff {path : String} (hleft : PlainKeys left) (hright : PlainKeys right) :
    SameFields library tolerances (flattenEntries path left) (flattenEntries path right) ↔
      (∀ key, key ∈ left.map Prod.fst ↔ key ∈ right.map Prod.fst) ∧
      ∀ key v w, left.lookup key = some v → right.lookup key = some w →
        SameFields library tolerances (flattenItem (joinPath path key) v)
          (flattenItem (joinPath path key) w) := by
  -- A field of a key that the other side does not have.
  have hmissing : ∀ {one other : List (String × Value)}, PlainKeys one → PlainKeys other →
      ∀ key ∈ one.map Prod.fst, key ∉ other.map Prod.fst →
      ∃ field ∈ flattenEntries path one, (flattenEntries path other).lookup field.1 = none := by
    intro one other hone hother key hkey hnot
    obtain ⟨entry, hentry, rfl⟩ := List.mem_map.mp hkey
    obtain ⟨field, rest, hfield⟩ :=
      List.exists_cons_of_ne_nil (flattenItem_ne_nil entry.2 (joinPath path entry.1))
    have hmem : field ∈ flattenItem (joinPath path entry.1) entry.2 :=
      hfield ▸ List.mem_cons_self
    have hbelow := below_flattenItem entry.2 (joinPath_ne (.inr (hone.ne entry hentry))) field hmem
    refine ⟨field, ?_, lookup_flattenEntries_none hother.ne fun f hf h => ?_⟩
    · rw [flattenEntries_eq]
      exact List.mem_flatMap.mpr ⟨entry, hentry, hmem⟩
    · have heq := below_unique (hone.dot entry hentry) (hother.dot f hf) hbelow h
      exact hnot (heq ▸ List.mem_map_of_mem hf)
  have hitem : ∀ {fields : List (String × Value)}, PlainKeys fields → ∀ {key : String} {v : Value},
      fields.lookup key = some v → ∀ q, ¬Below (joinPath path key) q →
      (flattenItem (joinPath path key) v).lookup q = none := by
    intro fields hfields key v hkey q hnot
    rw [List.lookup_eq_none_iff]
    intro found hfound
    have hne := hfields.ne _ ((lookup_of_mem hfields.nodup).mp hkey)
    have hbelow := below_flattenItem v (joinPath_ne (.inr hne)) found hfound
    rw [bne_iff_ne]
    rintro rfl
    exact hnot hbelow
  constructor
  · intro h
    refine ⟨fun key => ⟨fun hkey => ?_, fun hkey => ?_⟩, fun key v w hv hw q => ?_⟩
    · by_contra hnot
      obtain ⟨field, hfield, hnone⟩ := hmissing hleft hright key hkey hnot
      exact not_sameFields rfl (.inl ⟨hfield, hnone⟩) h
    · by_contra hnot
      obtain ⟨field, hfield, hnone⟩ := hmissing hright hleft key hkey hnot
      exact not_sameFields rfl (.inr ⟨hfield, hnone⟩) h
    · by_cases hq : Below (joinPath path key) q
      · rw [← lookup_flattenEntries hleft hv hq, ← lookup_flattenEntries hright hw hq]
        exact h q
      · rw [hitem hleft hv q hq, hitem hright hw q hq]
        rfl
  · rintro ⟨hkeys, hall⟩ q
    by_cases hq : ∃ field ∈ left, Below (joinPath path field.1) q
    · obtain ⟨field, hfield, hbelow⟩ := hq
      have hv := (lookup_of_mem hleft.nodup).mpr hfield
      obtain ⟨other, hother, hname⟩ := List.mem_map.mp
        ((hkeys field.1).mp (List.mem_map_of_mem hfield))
      have hw : right.lookup field.1 = some other.2 := by
        rw [← hname]
        exact (lookup_of_mem hright.nodup).mpr hother
      rw [lookup_flattenEntries hleft hv hbelow, lookup_flattenEntries hright hw hbelow]
      exact hall field.1 field.2 other.2 hv hw q
    · have hnot : ∀ field ∈ left, ¬Below (joinPath path field.1) q := fun field hfield hbelow =>
        hq ⟨field, hfield, hbelow⟩
      rw [lookup_flattenEntries_none hleft.ne hnot,
        lookup_flattenEntries_none hright.ne fun other hother hbelow => ?_]
      · rfl
      · obtain ⟨field, hfield, hname⟩ := List.mem_map.mp
          ((hkeys other.1).mpr (List.mem_map_of_mem hother))
        exact hnot field hfield (hname ▸ hbelow)

/-! ## Records -/

mutual

/-- Outside of lists no key that is not ignored is empty or has a dot. -/
def DotFree (ignored : List String) (path : String) : Value → Prop
  | .object entries => DotFreeEntries ignored path entries
  | .array _ => True
  | .string _ => True
  | .number _ => True
  | .bool _ => True
  | .null => True

/-- The entries of a `dict`. -/
def DotFreeEntries (ignored : List String) (path : String) : List (String × Value) → Prop
  | [] => True
  | (key, item) :: entries =>
    (isIgnored ignored (joinPath path key) = true ∨ (key ≠ "" ∧ '.' ∉ key.toList ∧
      DotFree ignored (joinPath path key) item)) ∧ DotFreeEntries ignored path entries

end

theorem dotFreeEntries_iff {path : String} {entries : List (String × Value)} :
    DotFreeEntries ignored path entries ↔ ∀ entry ∈ entries,
      isIgnored ignored (joinPath path entry.1) = true ∨ (entry.1 ≠ "" ∧ '.' ∉ entry.1.toList ∧
        DotFree ignored (joinPath path entry.1) entry.2) := by
  induction entries with
  | nil => exact iff_of_true trivial fun _ h => absurd h List.not_mem_nil
  | cons entry entries ih =>
    obtain ⟨key, item⟩ := entry
    rw [DotFreeEntries, List.forall_mem_cons, ih]

/-- What is kept of a `dict` whose keys have no dots. -/
structure KeptFields (ignored : List String) (path : String) (entries fields : List (String × Value)) :
    Prop where
  kept : kept ignored path (.object entries) = .object fields
  plain : PlainKeys fields
  keys : ∀ key, key ∈ fields.map Prod.fst ↔
    isIgnored ignored (joinPath path key) = false ∧ key ∈ entries.map Prod.fst
  lookup : ∀ key, isIgnored ignored (joinPath path key) = false →
    fields.lookup key = (entries.lookup key).map (Parity.kept ignored (joinPath path key))

variable (ignored) in
theorem exists_keptFields {path : String} {entries : List (String × Value)}
    (hnodup : (entries.map Prod.fst).Nodup) (hdots : DotFreeEntries ignored path entries) :
    ∃ fields, KeptFields ignored path entries fields := by
  obtain ⟨fields, hfields, hnodup', hkeys, hlookup⟩ := kept_object ignored path hnodup
  have hplain : ∀ field ∈ fields, field.1 ≠ "" ∧ '.' ∉ field.1.toList := by
    intro field hfield
    obtain ⟨hkept, hkey⟩ := (hkeys field.1).mp (List.mem_map_of_mem hfield)
    obtain ⟨entry, hentry, hname⟩ := List.mem_map.mp hkey
    have hdot := (dotFreeEntries_iff.mp hdots entry hentry).resolve_left (by simp [hname, hkept])
    exact hname ▸ ⟨hdot.1, hdot.2.1⟩
  exact ⟨fields, hfields, ⟨hnodup', fun field hfield => (hplain field hfield).1,
    fun field hfield => (hplain field hfield).2⟩, hkeys, hlookup⟩

/-- Values that are no numbers and no `dict`s agree outside of lists as in them. -/
theorem agree_inList_iff {path : String} {v w : Value} (hnumber : ∀ n, v ≠ .number n)
    (hobject : ∀ entries, v ≠ .object entries) (inList : Bool) :
    Agree library ignored tolerances true path v w ↔
      Agree library ignored tolerances inList path v w := by
  constructor
  · intro h
    cases h with
    | null => exact .null
    | bool b => exact .bool b
    | string s => exact .string s
    | number => exact absurd rfl (hnumber _)
    | array hlength hagree => exact .array hlength hagree
    | object => exact absurd rfl (hobject _)
  · intro h
    cases h with
    | null => exact .null
    | bool b => exact .bool b
    | string s => exact .string s
    | number => exact absurd rfl (hnumber _)
    | array hlength hagree => exact .array hlength hagree
    | object => exact absurd rfl (hobject _)

/-- A value that is one field is not the same as the fields of the entries of a `dict`. -/
theorem not_sameFields_entries {path : String} (hpath : path ≠ "") (v : Value)
    (entries : List (String × Value)) :
    ¬SameFields library tolerances [(path, v)] (flattenEntries path entries) ∧
      ¬SameFields library tolerances (flattenEntries path entries) [(path, v)] := by
  have hnone : (flattenEntries path entries).lookup path = none := by
    rw [List.lookup_eq_none_iff, flattenEntries_eq]
    intro found hfound
    obtain ⟨entry, -, hfound⟩ := List.mem_flatMap.mp hfound
    have hbelow := below_flattenItem entry.2 (joinPath_ne (.inl hpath)) found hfound
    rw [bne_iff_ne]
    intro heq
    have hthrough := through_of_below_join hpath hbelow
    rw [← heq] at hthrough
    exact not_through_self path hthrough
  exact ⟨not_sameFields rfl (.inl ⟨List.mem_singleton.mpr rfl, hnone⟩),
    not_sameFields rfl (.inr ⟨List.mem_singleton.mpr rfl, hnone⟩)⟩

/-- `dict`s without entries are one field each, and the same. -/
theorem sameFields_dicts {path : String} (hpath : path ≠ "") (left right : List (String × Value)) :
    SameFields library tolerances (flattenItem path (.object left)) (flattenItem path (.object right)) ↔
      SameFields library tolerances (flattenEntries path left) (flattenEntries path right) := by
  have hempty : flattenItem path (.object []) = [(path, .object [])] ∧ flattenEntries path [] = [] := by
    rw [flattenItem, flattenEntries]
    exact ⟨rfl, rfl⟩
  have hfull : ∀ {fields : List (String × Value)}, fields ≠ [] →
      flattenItem path (.object fields) = flattenEntries path fields ∧
        ∃ field, field ∈ flattenEntries path fields := by
    intro fields hne
    have heq : flattenItem path (.object fields) = flattenEntries path fields := by
      obtain ⟨field, rest, rfl⟩ := List.exists_cons_of_ne_nil hne
      rw [flattenItem]
      rfl
    exact ⟨heq, heq ▸ List.exists_mem_of_ne_nil _ (flattenItem_ne_nil _ path)⟩
  by_cases hleft : left = []
  · rw [hleft, hempty.1, hempty.2]
    by_cases hright : right = []
    · rw [hright, hempty.1, hempty.2]
      exact iff_of_true (sameFields_single.mpr rfl) fun _ => rfl
    · obtain ⟨heq, field, hfield⟩ := hfull hright
      rw [heq]
      exact iff_of_false (not_sameFields_entries hpath _ _).1
        (not_sameFields rfl (.inr ⟨hfield, rfl⟩))
  · obtain ⟨heq, field, hfield⟩ := hfull hleft
    rw [heq]
    by_cases hright : right = []
    · rw [hright, hempty.1, hempty.2]
      exact iff_of_false (not_sameFields_entries hpath _ _).2
        (not_sameFields rfl (.inl ⟨hfield, rfl⟩))
    · rw [(hfull hright).1]

/-- The fields of two `dict`s are the same if and only if the `dict`s agree, if this holds key by
key. -/
theorem sameFields_object_iff {path : String} {entries others left right : List (String × Value)}
    (hl : KeptFields ignored path entries left) (hr : KeptFields ignored path others right)
    (hitem : ∀ key item other, isIgnored ignored (joinPath path key) = false →
      entries.lookup key = some item → others.lookup key = some other →
      (SameFields library tolerances
          (flattenItem (joinPath path key) (kept ignored (joinPath path key) item))
          (flattenItem (joinPath path key) (kept ignored (joinPath path key) other)) ↔
        Agree library ignored tolerances false (joinPath path key) item other)) :
    SameFields library tolerances (flattenEntries path left) (flattenEntries path right) ↔
      Agree library ignored tolerances false path (.object entries) (.object others) := by
  rw [sameFields_entries_iff hl.plain hr.plain]
  constructor
  · rintro ⟨hkeys, hall⟩
    refine .object (fun key hkept => ?_) fun key item other hkept hleft hright => ?_
    · have hboth := hkeys key
      rwa [hl.keys, hr.keys, and_iff_right hkept, and_iff_right hkept] at hboth
    · refine (hitem key item other hkept hleft hright).mp (hall key _ _ ?_ ?_)
      · rw [hl.lookup key hkept, hleft]
        rfl
      · rw [hr.lookup key hkept, hright]
        rfl
  · intro h
    cases h with
    | object hkeys hagree =>
      refine ⟨fun key => ?_, fun key v w hleft hright => ?_⟩
      · rw [hl.keys, hr.keys]
        exact and_congr_right fun hkept => hkeys key hkept
      · have hkept : isIgnored ignored (joinPath path key) = false :=
          ((hl.keys key).mp (List.mem_map.mpr ⟨_, (lookup_of_mem hl.plain.nodup).mp hleft, rfl⟩)).1
        rw [hl.lookup key hkept, Option.map_eq_some_iff] at hleft
        rw [hr.lookup key hkept, Option.map_eq_some_iff] at hright
        obtain ⟨item, hleft, rfl⟩ := hleft
        obtain ⟨other, hright, rfl⟩ := hright
        exact (hitem key item other hkept hleft hright).mpr (hagree key item other hkept hleft hright)

/-- A value that is no `dict` is one field. -/
theorem flattenItem_leaf {path : String} {v : Value} (h : ∀ entries, v ≠ .object entries) :
    flattenItem path (kept ignored path v) = [(path, kept ignored path v)] := by
  rcases flattenItem_cases path (kept ignored path v) with hsingle | ⟨fields, heq, -, -⟩
  · exact hsingle
  · obtain ⟨entries, hentries⟩ := kept_eq_object heq
    exact absurd hentries (h entries)

/-- A value that is no `dict` does not have the fields of one. -/
theorem not_sameFields_object {path : String} (hpath : path ≠ "") {v : Value}
    (hv : ∀ entries, v ≠ .object entries) {entries fields : List (String × Value)}
    (hfields : KeptFields ignored path entries fields) :
    ¬SameFields library tolerances (flattenItem path (kept ignored path v))
        (flattenItem path (kept ignored path (.object entries))) ∧
      ¬SameFields library tolerances (flattenItem path (kept ignored path (.object entries)))
        (flattenItem path (kept ignored path v)) := by
  have hkind : ∀ others, kept ignored path v ≠ .object others := fun others heq => by
    obtain ⟨entries, hentries⟩ := kept_eq_object heq
    exact hv entries hentries
  rw [flattenItem_leaf hv, hfields.kept]
  rcases flattenItem_cases path (.object fields) with hsingle | ⟨fields', heq, -, hentries⟩
  · rw [hsingle, sameFields_single, sameFields_single, equivalent_some_iff, equivalent_some_iff]
    refine ⟨?_, ?_⟩
    · rintro (hequal | ⟨t, m, n, x, y, -, -, hnumber, -⟩)
      · cases hkept : kept ignored path v with
        | object others => exact hkind others hkept
        | _ => simp [hkept, equal] at hequal
      · exact nomatch hnumber
    · rintro (hequal | ⟨t, m, n, x, y, -, hnumber, -⟩)
      · obtain ⟨others, hothers⟩ := equal_object_kind hequal
        exact hkind others hothers
      · exact nomatch hnumber
  · obtain rfl := Value.object.inj heq
    rw [hentries]
    exact not_sameFields_entries hpath _ _

/-- **The fields of two values are the same if and only if the values agree.** -/
theorem sameFields_iff (v : Value) : ∀ (path : String) (w : Value), path ≠ "" → DistinctKeys v →
    DistinctKeys w → DotFree ignored path v → DotFree ignored path w →
    ¬Clash library ignored path v w →
    (SameFields library tolerances (flattenItem path (kept ignored path v))
        (flattenItem path (kept ignored path w)) ↔
      Agree library ignored tolerances false path v w) := by
  -- Values that are no `dict`s.
  have hleaf : ∀ {v w : Value} {path : String}, (∀ entries, v ≠ .object entries) → path ≠ "" →
      DistinctKeys v → DistinctKeys w → DotFree ignored path w → ¬Clash library ignored path v w →
      (SameFields library tolerances (flattenItem path (kept ignored path v))
          (flattenItem path (kept ignored path w)) ↔
        Agree library ignored tolerances false path v w) := by
    intro v w path hobject hpath hv hw hdots hclash
    by_cases hkind : ∃ others, w = .object others
    · obtain ⟨others, rfl⟩ := hkind
      rw [DistinctKeys, Sound] at hw
      obtain ⟨fields, hfields⟩ := exists_keptFields ignored hw.1 hdots
      refine iff_of_false (not_sameFields_object hpath hobject hfields).1 fun h => ?_
      cases h
      exact hobject _ rfl
    · have hobject' : ∀ others, w ≠ .object others := fun others heq => hkind ⟨others, heq⟩
      have hequal := equal_kept_iff tolerances v path w hv hw hclash
      rw [flattenItem_leaf hobject, flattenItem_leaf hobject', sameFields_single,
        equivalent_some_iff, hequal]
      by_cases hnumber : ∃ n, v = .number n
      · obtain ⟨n, rfl⟩ := hnumber
        constructor
        · rintro (hagree | ⟨t, m, n', x, y, ht, hm, hn, hx, hy, hclose⟩)
          · cases hagree with
            | number hnumbers => exact .number (.inl (hnumbers.resolve_right fun h => Bool.noConfusion h.1))
          · obtain rfl := Value.number.inj (kept_eq_number.mp hm)
            rw [kept_eq_number.mp hn]
            exact .number (.inr ⟨rfl, t, x, y, ht, hx, hy, hclose⟩)
        · intro hagree
          cases hagree with
          | number hnumbers =>
            rcases hnumbers with hsame | ⟨-, t, x, y, ht, hx, hy, hclose⟩
            · exact .inl (.number (.inl hsame))
            · exact .inr ⟨t, _, _, x, y, ht, kept_eq_number.mpr rfl, kept_eq_number.mpr rfl, hx, hy,
                hclose⟩
      · have hnumber' : ∀ n, v ≠ .number n := fun n heq => hnumber ⟨n, heq⟩
        rw [agree_inList_iff hnumber' hobject false]
        refine or_iff_left ?_
        rintro ⟨t, m, n, x, y, -, hm, -⟩
        exact hnumber' m (kept_eq_number.mp hm)
  induction v using Value.induction with
  | object entries ih =>
    intro path w hpath hv hw hdots hdots' hclash
    rw [DistinctKeys, Sound, soundEntries_iff] at hv
    rw [DotFree] at hdots
    obtain ⟨left, hl⟩ := exists_keptFields ignored hv.1 hdots
    by_cases hkind : ∃ others, w = .object others
    · obtain ⟨others, rfl⟩ := hkind
      rw [DistinctKeys, Sound, soundEntries_iff] at hw
      rw [DotFree] at hdots'
      obtain ⟨right, hr⟩ := exists_keptFields ignored hw.1 hdots'
      have hobject : SameFields library tolerances (flattenEntries path left)
            (flattenEntries path right) ↔
          Agree library ignored tolerances false path (.object entries) (.object others) :=
        sameFields_object_iff hl hr fun key item other hkept hleft hright => by
          have hin := (lookup_of_mem hv.1).mp hleft
          have hin' := (lookup_of_mem hw.1).mp hright
          have hdot := (dotFreeEntries_iff.mp hdots _ hin).resolve_left (by simp [hkept])
          have hdot' := (dotFreeEntries_iff.mp hdots' _ hin').resolve_left (by simp [hkept])
          exact ih _ hin (joinPath path key) other (joinPath_ne (.inl hpath)) (hv.2 _ hin)
            (hw.2 _ hin') hdot.2.2 hdot'.2.2 fun h => hclash (.object hkept hleft hright h)
      rw [hl.kept, hr.kept, ← hobject]
      exact sameFields_dicts hpath left right
    · have hobject : ∀ others, w ≠ .object others := fun others heq => hkind ⟨others, heq⟩
      refine iff_of_false (not_sameFields_object hpath hobject hl).2 fun h => ?_
      cases h
      exact hobject _ rfl
  | _ =>
    intro path w hpath hv hw _ hdots hclash
    exact hleaf (fun _ => Value.noConfusion) hpath hv hw hdots hclash

/-- The paths of the fields of a `dict` are apart, if they are key by key. -/
theorem nodup_flattenEntries {path : String} {entries fields : List (String × Value)}
    (h : KeptFields ignored path entries fields)
    (hitem : ∀ key item, isIgnored ignored (joinPath path key) = false →
      entries.lookup key = some item →
      ((flattenItem (joinPath path key) (kept ignored (joinPath path key) item)).map
        Prod.fst).Nodup) :
    ((flattenEntries path fields).map Prod.fst).Nodup := by
  have hfield : ∀ field ∈ fields, ((flattenItem (joinPath path field.1) field.2).map
      Prod.fst).Nodup := by
    intro field hfield
    have hkept := ((h.keys field.1).mp (List.mem_map_of_mem hfield)).1
    have hlookup := (lookup_of_mem h.plain.nodup).mpr hfield
    rw [h.lookup field.1 hkept, Option.map_eq_some_iff] at hlookup
    obtain ⟨item, hleft, heq⟩ := hlookup
    rw [← heq]
    exact hitem field.1 item hkept hleft
  rw [flattenEntries_eq, List.map_flatMap, List.nodup_flatMap]
  refine ⟨hfield, ?_⟩
  have hapart := List.pairwise_map.mp h.plain.nodup
  refine List.Pairwise.imp_of_mem ?_ hapart
  intro field other hf ho hne q hq hq'
  obtain ⟨found, hfound, rfl⟩ := List.mem_map.mp hq
  obtain ⟨found', hfound', heq⟩ := List.mem_map.mp hq'
  have hbelow := below_flattenItem field.2 (joinPath_ne (.inr (h.plain.ne field hf))) found hfound
  have hbelow' := below_flattenItem other.2 (joinPath_ne (.inr (h.plain.ne other ho))) found' hfound'
  rw [heq] at hbelow'
  exact hne (below_unique (h.plain.dot field hf) (h.plain.dot other ho) hbelow hbelow')

theorem nodup_flattenItem (v : Value) : ∀ path : String, path ≠ "" → DistinctKeys v →
    DotFree ignored path v → ((flattenItem path (kept ignored path v)).map Prod.fst).Nodup := by
  induction v using Value.induction with
  | object entries ih =>
    intro path hpath hv hdots
    rw [DistinctKeys, Sound, soundEntries_iff] at hv
    rw [DotFree] at hdots
    obtain ⟨fields, hfields⟩ := exists_keptFields ignored hv.1 hdots
    rw [hfields.kept]
    rcases flattenItem_cases path (.object fields) with hsingle | ⟨fields', heq, -, hentries⟩
    · rw [hsingle]
      exact List.nodup_singleton _
    · obtain rfl := Value.object.inj heq
      rw [hentries]
      exact nodup_flattenEntries hfields fun key item hkept hleft => by
        have hin := (lookup_of_mem hv.1).mp hleft
        have hdot := (dotFreeEntries_iff.mp hdots _ hin).resolve_left (by simp [hkept])
        exact ih _ hin (joinPath path key) (joinPath_ne (.inl hpath)) (hv.2 _ hin) hdot.2.2
  | _ => exact fun path _ _ _ => List.nodup_singleton _

/-- **Two records have no differences if and only if they agree.** -/
theorem fieldDifferences_kept_iff {entries others : List (String × Value)}
    (hv : DistinctKeys (.object entries)) (hw : DistinctKeys (.object others))
    (hdots : DotFree ignored "" (.object entries)) (hdots' : DotFree ignored "" (.object others))
    (hclash : ¬Clash library ignored "" (.object entries) (.object others)) :
    fieldDifferences library (kept ignored "" (.object entries)) (kept ignored "" (.object others))
        tolerances = .ok [] ↔
      Agree library ignored tolerances false "" (.object entries) (.object others) := by
  rw [DistinctKeys, Sound, soundEntries_iff] at hv hw
  rw [DotFree] at hdots hdots'
  obtain ⟨left, hl⟩ := exists_keptFields ignored hv.1 hdots
  obtain ⟨right, hr⟩ := exists_keptFields ignored hw.1 hdots'
  have hkey : ∀ {key : String} {item : Value} {fields : List (String × Value)},
      isIgnored ignored (joinPath "" key) = false → (key, item) ∈ fields →
      DotFreeEntries ignored "" fields → key ≠ "" ∧ DotFree ignored (joinPath "" key) item := by
    intro key item fields hkept hin hfields
    have hdot := (dotFreeEntries_iff.mp hfields _ hin).resolve_left (by simp [hkept])
    exact ⟨hdot.1, hdot.2.2⟩
  have hleft : ((flattenEntries "" left).map Prod.fst).Nodup :=
    nodup_flattenEntries hl fun key item hkept hitem => by
      have hin := (lookup_of_mem hv.1).mp hitem
      obtain ⟨hne, hdot⟩ := hkey hkept hin hdots
      exact nodup_flattenItem item _ (joinPath_ne (.inr hne)) (hv.2 _ hin) hdot
  have hright : ((flattenEntries "" right).map Prod.fst).Nodup :=
    nodup_flattenEntries hr fun key item hkept hitem => by
      have hin := (lookup_of_mem hw.1).mp hitem
      obtain ⟨hne, hdot⟩ := hkey hkept hin hdots'
      exact nodup_flattenItem item _ (joinPath_ne (.inr hne)) (hw.2 _ hin) hdot
  rw [fieldDifferences_nil_iff, hl.kept, hr.kept, flatten, flatten, Sanitization.assigned_nodup hleft,
    Sanitization.assigned_nodup hright]
  refine sameFields_object_iff hl hr fun key item other hkept hitem hother => ?_
  have hin := (lookup_of_mem hv.1).mp hitem
  have hin' := (lookup_of_mem hw.1).mp hother
  obtain ⟨hne, hdot⟩ := hkey hkept hin hdots
  exact sameFields_iff item _ other (joinPath_ne (.inr hne)) (hv.2 _ hin) (hw.2 _ hin') hdot
    (hkey hkept hin' hdots').2 fun h => hclash (.object hkept hitem hother h)

end Same

end CommerceCollector.Parity
