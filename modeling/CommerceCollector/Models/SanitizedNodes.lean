import Mathlib.Data.List.Nodup
import CommerceCollector.Models.NormalURL

/-!
# The nodes that a second pass takes

What is written for a value takes as many nodes as the value, if the keys that are written are apart
and read as the keys do, so that a second pass runs out of nodes where the first did: an entry under
the name of a credential takes none, the marker of entries that are left out because of their number
is not reached, and the marker of those that are left out for want of nodes stands where there are
none.
-/

namespace CommerceCollector.Sanitization

open JsonText

section Conditions

variable (python : Python) (limits : Limits)

/-! ## Nodes -/

mutual

/-- The nodes that may still be taken behind a value. -/
def nodesLeft (remaining depth : ℕ) (proxyContext : Bool) (value : Value) : ℕ :=
  if remaining = 0 then 0
  else
    match value with
    | .object entries =>
      if limits.maxDepth ≤ depth then remaining - 1
      else entriesLeft (remaining - 1) depth proxyContext 0 entries
    | .array items =>
      if limits.maxDepth ≤ depth then remaining - 1
      else itemsLeft (remaining - 1) depth proxyContext 0 items
    | .string _ => remaining - 1
    | .number _ => remaining - 1
    | .bool _ => remaining - 1
    | .null => remaining - 1

/-- The nodes that may still be taken behind the items of a list from an index on. -/
def itemsLeft (remaining depth : ℕ) (proxyContext : Bool) (index : ℕ) : List Value → ℕ
  | [] => remaining
  | item :: items =>
    if limits.maxEntries ≤ index ∨ remaining = 0 then remaining
    else itemsLeft (nodesLeft remaining (depth + 1) proxyContext item) depth proxyContext (index + 1)
      items

/-- The nodes that may still be taken behind the entries of a `dict` from an index on. -/
def entriesLeft (remaining depth : ℕ) (proxyContext : Bool) (index : ℕ) :
    List (String × Value) → ℕ
  | [] => remaining
  | (key, item) :: entries =>
    if limits.maxEntries ≤ index ∨ remaining = 0 then remaining
    else
      let normalizedKey := FileCache.normalizeKey python key
      if isCredentialKey proxyContext normalizedKey = true then
        entriesLeft remaining depth proxyContext (index + 1) entries
      else
        entriesLeft (nodesLeft remaining (depth + 1) (proxyContext || namesProxy normalizedKey) item)
          depth proxyContext (index + 1) entries

end

/-! ## Keys -/

/-- A key within the limit. -/
def boundedKey (key : String) : String := boundedString key limits.maxString

/-- The key that is written names a credential or a proxy where the key does. -/
def SameReading (proxyContext : Bool) (key : String) : Prop :=
  isCredentialKey proxyContext (FileCache.normalizeKey python (boundedKey limits key)) =
      isCredentialKey proxyContext (FileCache.normalizeKey python key) ∧
    (proxyContext || namesProxy (FileCache.normalizeKey python (boundedKey limits key))) =
      (proxyContext || namesProxy (FileCache.normalizeKey python key))

mutual

/-- The keys that are written are apart and read as the keys do, and the marker of entries for which
there are no nodes takes the place of no other entry. -/
def Readable (remaining depth : ℕ) (proxyContext : Bool) (value : Value) : Prop :=
  match value with
  | .object entries =>
    remaining = 0 ∨ limits.maxDepth ≤ depth ∨
      (((entries.take limits.maxEntries).map fun entry => boundedKey limits entry.1).Nodup ∧
        ReadableEntries (remaining - 1) depth proxyContext 0 false entries)
  | .array items =>
    remaining = 0 ∨ limits.maxDepth ≤ depth ∨
      ReadableItems (remaining - 1) depth proxyContext 0 items
  | .string _ => True
  | .number _ => True
  | .bool _ => True
  | .null => True

/-- The items of a list from an index on. -/
def ReadableItems (remaining depth : ℕ) (proxyContext : Bool) (index : ℕ) : List Value → Prop
  | [] => True
  | item :: items =>
    limits.maxEntries ≤ index ∨ remaining = 0 ∨
      (Readable remaining (depth + 1) proxyContext item ∧
        ReadableItems (nodesLeft python limits remaining (depth + 1) proxyContext item) depth
          proxyContext (index + 1) items)

/-- The entries of a `dict` from an index on; `seen`, if the key of the marker is among those
before. -/
def ReadableEntries (remaining depth : ℕ) (proxyContext : Bool) (index : ℕ) (seen : Bool) :
    List (String × Value) → Prop
  | [] => True
  | (key, item) :: entries =>
    let normalizedKey := FileCache.normalizeKey python key
    let seenAfter := seen || boundedKey limits key == truncationKey
    if limits.maxEntries ≤ index then True
    else if remaining = 0 then seen = false
    else SameReading python limits proxyContext key ∧
      if isCredentialKey proxyContext normalizedKey = true then
        ReadableEntries remaining depth proxyContext (index + 1) seenAfter entries
      else
        Readable remaining (depth + 1) (proxyContext || namesProxy normalizedKey) item ∧
          ReadableEntries (nodesLeft python limits remaining (depth + 1)
            (proxyContext || namesProxy normalizedKey) item) depth proxyContext (index + 1) seenAfter
            entries

end

/-! ## What stays as it is -/

mutual

/-- No `dict` that is written is left without more than one of its entries, unless the key of the
marker is among those that are written, and every string that is written stays as it is. -/
def Steady (remaining depth : ℕ) (proxyContext : Bool) (value : Value) : Prop :=
  match value with
  | .object entries =>
    remaining = 0 ∨ limits.maxDepth ≤ depth ∨
      SteadyEntries (remaining - 1) depth proxyContext 0 false entries
  | .array items =>
    remaining = 0 ∨ limits.maxDepth ≤ depth ∨
      SteadyItems (remaining - 1) depth proxyContext 0 items
  | .string s => remaining = 0 ∨ SteadyString python limits s
  | .number _ => True
  | .bool _ => True
  | .null => True

/-- The items of a list from an index on. -/
def SteadyItems (remaining depth : ℕ) (proxyContext : Bool) (index : ℕ) : List Value → Prop
  | [] => True
  | item :: items =>
    limits.maxEntries ≤ index ∨ remaining = 0 ∨
      (Steady remaining (depth + 1) proxyContext item ∧
        SteadyItems (nodesLeft python limits remaining (depth + 1) proxyContext item) depth
          proxyContext (index + 1) items)

/-- The entries of a `dict` from an index on; `seen`, if the key of the marker is among those
before. -/
def SteadyEntries (remaining depth : ℕ) (proxyContext : Bool) (index : ℕ) (seen : Bool) :
    List (String × Value) → Prop
  | [] => True
  | (key, item) :: entries =>
    let normalizedKey := FileCache.normalizeKey python key
    let seenAfter := seen || boundedKey limits key == truncationKey
    if limits.maxEntries ≤ index then seen = true ∨ entries = []
    else if remaining = 0 then entries = []
    else if isCredentialKey proxyContext normalizedKey = true then
      SteadyEntries remaining depth proxyContext (index + 1) seenAfter entries
    else
      Steady remaining (depth + 1) (proxyContext || namesProxy normalizedKey) item ∧
        SteadyEntries (nodesLeft python limits remaining (depth + 1)
          (proxyContext || namesProxy normalizedKey) item) depth proxyContext (index + 1) seenAfter
          entries

end

-- The equations are derived once, for the proofs below.
attribute [local simp] nodesLeft itemsLeft entriesLeft Readable ReadableItems ReadableEntries Steady
  SteadyItems SteadyEntries

end Conditions

variable {python : Python} {limits : Limits}

section Left

variable {remaining depth index : ℕ} {proxyContext : Bool} {key : String} {item : Value}

@[simp] theorem nodesLeft_zero (v : Value) : nodesLeft python limits 0 depth proxyContext v = 0 := by
  rw [nodesLeft.eq_def, if_pos rfl]

@[simp] theorem nodesLeft_null :
    nodesLeft python limits remaining depth proxyContext .null = remaining - 1 := by
  rw [nodesLeft]
  split <;> omega

@[simp] theorem nodesLeft_bool (b : Bool) :
    nodesLeft python limits remaining depth proxyContext (.bool b) = remaining - 1 := by
  rw [nodesLeft]
  split <;> omega

@[simp] theorem nodesLeft_number (n : Number) :
    nodesLeft python limits remaining depth proxyContext (.number n) = remaining - 1 := by
  rw [nodesLeft]
  split <;> omega

@[simp] theorem nodesLeft_string (s : String) :
    nodesLeft python limits remaining depth proxyContext (.string s) = remaining - 1 := by
  rw [nodesLeft]
  split <;> omega

theorem nodesLeft_array (hnodes : remaining ≠ 0) (hdepth : ¬limits.maxDepth ≤ depth)
    (items : List Value) : nodesLeft python limits remaining depth proxyContext (.array items) =
      itemsLeft python limits (remaining - 1) depth proxyContext 0 items := by
  rw [nodesLeft, if_neg hnodes]
  exact if_neg hdepth

theorem nodesLeft_object (hnodes : remaining ≠ 0) (hdepth : ¬limits.maxDepth ≤ depth)
    (entries : List (String × Value)) :
    nodesLeft python limits remaining depth proxyContext (.object entries) =
      entriesLeft python limits (remaining - 1) depth proxyContext 0 entries := by
  rw [nodesLeft, if_neg hnodes]
  exact if_neg hdepth

theorem nodesLeft_deep (hdepth : limits.maxDepth ≤ depth) (v : Value) :
    nodesLeft python limits remaining depth proxyContext v = remaining - 1 := by
  cases v with
  | array items => rw [nodesLeft, if_pos hdepth]; split <;> omega
  | object entries => rw [nodesLeft, if_pos hdepth]; split <;> omega
  | _ => simp

theorem itemsLeft_stop (h : limits.maxEntries ≤ index ∨ remaining = 0) (items : List Value) :
    itemsLeft python limits remaining depth proxyContext index items = remaining := by
  cases items with
  | nil => rw [itemsLeft]
  | cons item items => rw [itemsLeft, if_pos h]

theorem itemsLeft_cons (h : ¬limits.maxEntries ≤ index) (hnodes : remaining ≠ 0)
    (items : List Value) :
    itemsLeft python limits remaining depth proxyContext index (item :: items) =
      itemsLeft python limits (nodesLeft python limits remaining (depth + 1) proxyContext item) depth
        proxyContext (index + 1) items := by
  rw [itemsLeft, if_neg (not_or.mpr ⟨h, hnodes⟩)]

theorem entriesLeft_stop (h : limits.maxEntries ≤ index ∨ remaining = 0)
    (entries : List (String × Value)) :
    entriesLeft python limits remaining depth proxyContext index entries = remaining := by
  cases entries with
  | nil => rw [entriesLeft]
  | cons entry entries => rw [entriesLeft, if_pos h]

theorem entriesLeft_credential (h : ¬limits.maxEntries ≤ index) (hnodes : remaining ≠ 0)
    (hcredential : isCredentialKey proxyContext (FileCache.normalizeKey python key) = true)
    (entries : List (String × Value)) :
    entriesLeft python limits remaining depth proxyContext index ((key, item) :: entries) =
      entriesLeft python limits remaining depth proxyContext (index + 1) entries := by
  rw [entriesLeft, if_neg (not_or.mpr ⟨h, hnodes⟩)]
  exact if_pos hcredential

theorem entriesLeft_item (h : ¬limits.maxEntries ≤ index) (hnodes : remaining ≠ 0)
    (hcredential : ¬isCredentialKey proxyContext (FileCache.normalizeKey python key) = true)
    (entries : List (String × Value)) :
    entriesLeft python limits remaining depth proxyContext index ((key, item) :: entries) =
      entriesLeft python limits (nodesLeft python limits remaining (depth + 1)
        (proxyContext || namesProxy (FileCache.normalizeKey python key)) item) depth proxyContext
        (index + 1) entries := by
  rw [entriesLeft, if_neg (not_or.mpr ⟨h, hnodes⟩)]
  exact if_neg hcredential

end Left

mutual

theorem sanitize_left : ∀ (v : Value) (remaining depth : ℕ) (proxyContext : Bool),
    (sanitize python limits remaining depth proxyContext v).2 =
      nodesLeft python limits remaining depth proxyContext v
  | .null, remaining, depth, proxyContext => by
    rw [sanitize, nodesLeft]
    split <;> rfl
  | .bool b, remaining, depth, proxyContext => by
    rw [sanitize, nodesLeft]
    split <;> rfl
  | .number n, remaining, depth, proxyContext => by
    rw [sanitize, nodesLeft]
    split <;> rfl
  | .string s, remaining, depth, proxyContext => by
    rw [sanitize, nodesLeft]
    split <;> rfl
  | .array items, remaining, depth, proxyContext => by
    rw [sanitize, nodesLeft]
    split
    · rfl
    · dsimp only
      split
      · rfl
      · exact sanitizeItems_left items (remaining - 1) depth proxyContext 0
  | .object entries, remaining, depth, proxyContext => by
    rw [sanitize, nodesLeft]
    split
    · rfl
    · dsimp only
      split
      · rfl
      · exact sanitizeEntries_left entries (remaining - 1) depth proxyContext 0

theorem sanitizeItems_left : ∀ (items : List Value) (remaining depth : ℕ) (proxyContext : Bool)
    (index : ℕ), (sanitizeItems python limits remaining depth proxyContext index items).2 =
      itemsLeft python limits remaining depth proxyContext index items
  | [], _, _, _, _ => rfl
  | item :: items, remaining, depth, proxyContext, index => by
    rw [sanitizeItems, itemsLeft]
    by_cases hindex : limits.maxEntries ≤ index
    · rw [if_pos hindex, if_pos (.inl hindex)]
    · by_cases hnodes : remaining = 0
      · rw [if_neg hindex, if_pos hnodes, if_pos (.inr hnodes)]
      · rw [if_neg hindex, if_neg hnodes, if_neg (not_or.mpr ⟨hindex, hnodes⟩)]
        dsimp only
        rw [sanitizeItems_left items, sanitize_left item]

/-- The nodes that are left behind the entries of a `dict`. -/
theorem sanitizeEntries_left : ∀ (entries : List (String × Value)) (remaining depth : ℕ)
    (proxyContext : Bool) (index : ℕ),
    (sanitizeEntries python limits remaining depth proxyContext index entries).2 =
      entriesLeft python limits remaining depth proxyContext index entries
  | [], _, _, _, _ => rfl
  | (key, item) :: entries, remaining, depth, proxyContext, index => by
    rw [sanitizeEntries, entriesLeft]
    by_cases hindex : limits.maxEntries ≤ index
    · rw [if_pos hindex, if_pos (.inl hindex)]
    · by_cases hnodes : remaining = 0
      · rw [if_neg hindex, if_pos hnodes, if_pos (.inr hnodes)]
      · rw [if_neg hindex, if_neg hnodes, if_neg (not_or.mpr ⟨hindex, hnodes⟩)]
        dsimp only
        split
        · exact sanitizeEntries_left entries remaining depth proxyContext (index + 1)
        · dsimp only
          rw [sanitizeEntries_left entries, sanitize_left item]

end

/-! ## Entries and their marker -/

/-- The marker behind the entries that are written; `seen`, if its key is among those before. -/
def tailMarker (limits : Limits) (seen : Bool) (total : ℕ) (entries : List (String × Value)) :
    List (String × Value) :=
  if limits.maxEntries < total ∧ seen = false ∧ truncationKey ∉ entries.map Prod.fst then
    [(truncationKey, count (total - limits.maxEntries))]
  else []

/-- The entries that are written from an index on, and the marker behind them. -/
def closedEntries (python : Python) (limits : Limits) (remaining depth : ℕ) (proxyContext : Bool)
    (index : ℕ) (seen : Bool) (entries : List (String × Value)) : List (String × Value) :=
  let written := (sanitizeEntries python limits remaining depth proxyContext index entries).1
  written ++ tailMarker limits seen (index + entries.length) written

theorem boundedKey_idem (key : String) :
    boundedKey limits (boundedKey limits key) = boundedKey limits key :=
  boundedString_eq (length_boundedString key limits.maxString)

theorem put_new {entries : List (String × Value)} {key : String} (h : key ∉ entries.map Prod.fst)
    (value : Value) : put entries key value = entries ++ [(key, value)] := if_neg h

/-- Assignments to different keys are the entries of the `dict`. -/
theorem assigned_nodup {writes : List (String × Value)} (h : (writes.map Prod.fst).Nodup) :
    assigned writes = writes := by
  have hfold : ∀ entries : List (String × Value), ((entries ++ writes).map Prod.fst).Nodup →
      writes.foldl (fun entries write => put entries write.1 write.2) entries = entries ++ writes := by
    clear h
    induction writes with
    | nil => exact fun entries _ => (List.append_nil entries).symm
    | cons write writes ih =>
      intro entries hnodup
      have hnew : write.1 ∉ entries.map Prod.fst := by
        rw [List.map_append, List.map_cons] at hnodup
        exact fun hmem => (List.disjoint_of_nodup_append hnodup) hmem List.mem_cons_self
      have happend : entries ++ write :: writes = (entries ++ [write]) ++ writes := by simp
      rw [List.foldl_cons, put_new hnew, happend]
      exact ih _ (happend ▸ hnodup)
  simpa [assigned] using hfold [] (by simpa using h)

theorem closeEntries_eq (total : ℕ) (entries : List (String × Value)) :
    closeEntries limits total entries = entries ++ tailMarker limits false total entries := by
  by_cases h : limits.maxEntries < total ∧ truncationKey ∉ entries.map Prod.fst
  · rw [closeEntries, if_pos h, put_new h.2, tailMarker, if_pos ⟨h.1, rfl, h.2⟩]
  · rw [closeEntries, if_neg h, tailMarker, if_neg fun hmarker => h ⟨hmarker.1, hmarker.2.2⟩,
      List.append_nil]

theorem tailMarker_cons (seen : Bool) (total : ℕ) (key : String) (value : Value)
    (entries : List (String × Value)) : tailMarker limits seen total ((key, value) :: entries) =
      tailMarker limits (seen || key == truncationKey) total entries := by
  have hiff : (limits.maxEntries < total ∧ seen = false ∧
        truncationKey ∉ ((key, value) :: entries).map Prod.fst) ↔
      (limits.maxEntries < total ∧ (seen || key == truncationKey) = false ∧
        truncationKey ∉ entries.map Prod.fst) := by
    rw [List.map_cons, List.mem_cons, not_or, Bool.or_eq_false_iff, beq_eq_false_iff_ne, and_assoc,
      ne_comm]
  rw [tailMarker, tailMarker, if_congr hiff rfl rfl]

section Closed

variable {remaining depth index : ℕ} {proxyContext seen : Bool} {key : String} {item : Value}
  {entries : List (String × Value)}

theorem sanitizeEntries_over (h : limits.maxEntries ≤ index) (entries : List (String × Value)) :
    (sanitizeEntries python limits remaining depth proxyContext index entries).1 = [] := by
  cases entries with
  | nil => rw [sanitizeEntries]
  | cons entry entries => rw [sanitizeEntries, if_pos h]

theorem sanitizeEntries_none (hindex : ¬limits.maxEntries ≤ index) :
    (sanitizeEntries python limits 0 depth proxyContext index ((key, item) :: entries)).1 =
      [(truncationKey, count (entries.length + 1))] := by
  rw [sanitizeEntries, if_neg hindex, if_pos rfl]

theorem sanitizeEntries_credential (hindex : ¬limits.maxEntries ≤ index) (hnodes : remaining ≠ 0)
    (hcredential : isCredentialKey proxyContext (FileCache.normalizeKey python key) = true) :
    (sanitizeEntries python limits remaining depth proxyContext index ((key, item) :: entries)).1 =
      (boundedKey limits key, .string (boundedString redacted limits.maxString)) ::
        (sanitizeEntries python limits remaining depth proxyContext (index + 1) entries).1 := by
  rw [sanitizeEntries, if_neg hindex, if_neg hnodes]
  dsimp only
  rw [if_pos hcredential, boundedKey]

theorem sanitizeEntries_item (hindex : ¬limits.maxEntries ≤ index) (hnodes : remaining ≠ 0)
    (hcredential : ¬isCredentialKey proxyContext (FileCache.normalizeKey python key) = true) :
    (sanitizeEntries python limits remaining depth proxyContext index ((key, item) :: entries)).1 =
      (boundedKey limits key, (sanitize python limits remaining (depth + 1)
        (proxyContext || namesProxy (FileCache.normalizeKey python key)) item).1) ::
        (sanitizeEntries python limits (nodesLeft python limits remaining (depth + 1)
          (proxyContext || namesProxy (FileCache.normalizeKey python key)) item) depth proxyContext
          (index + 1) entries).1 := by
  rw [sanitizeEntries, if_neg hindex, if_neg hnodes]
  dsimp only
  rw [if_neg hcredential, ← sanitize_left, boundedKey]

theorem closedEntries_nil (h : index ≤ limits.maxEntries) :
    closedEntries python limits remaining depth proxyContext index seen [] = [] := by
  rw [closedEntries, sanitizeEntries, tailMarker, if_neg (by simp; omega)]
  rfl

theorem closedEntries_over (h : index = limits.maxEntries) :
    closedEntries python limits remaining depth proxyContext index seen ((key, item) :: entries) =
      if seen = true then [] else [(truncationKey, count (entries.length + 1))] := by
  rw [closedEntries, sanitizeEntries_over h.ge, tailMarker]
  cases seen with
  | true => simp
  | false => simp [h]

theorem closedEntries_none (hindex : ¬limits.maxEntries ≤ index) :
    closedEntries python limits 0 depth proxyContext index seen ((key, item) :: entries) =
      [(truncationKey, count (entries.length + 1))] := by
  rw [closedEntries, sanitizeEntries_none hindex, tailMarker, if_neg (by simp)]
  rfl

theorem closedEntries_credential (hindex : ¬limits.maxEntries ≤ index) (hnodes : remaining ≠ 0)
    (hcredential : isCredentialKey proxyContext (FileCache.normalizeKey python key) = true) :
    closedEntries python limits remaining depth proxyContext index seen ((key, item) :: entries) =
      (boundedKey limits key, .string (boundedString redacted limits.maxString)) ::
        closedEntries python limits remaining depth proxyContext (index + 1)
          (seen || boundedKey limits key == truncationKey) entries := by
  have hlength : index + ((key, item) :: entries).length = index + 1 + entries.length := by
    rw [List.length_cons]
    omega
  rw [closedEntries, hlength, sanitizeEntries_credential hindex hnodes hcredential, tailMarker_cons]
  rfl

theorem closedEntries_item (hindex : ¬limits.maxEntries ≤ index) (hnodes : remaining ≠ 0)
    (hcredential : ¬isCredentialKey proxyContext (FileCache.normalizeKey python key) = true) :
    closedEntries python limits remaining depth proxyContext index seen ((key, item) :: entries) =
      (boundedKey limits key, (sanitize python limits remaining (depth + 1)
        (proxyContext || namesProxy (FileCache.normalizeKey python key)) item).1) ::
        closedEntries python limits (nodesLeft python limits remaining (depth + 1)
          (proxyContext || namesProxy (FileCache.normalizeKey python key)) item) depth proxyContext
          (index + 1) (seen || boundedKey limits key == truncationKey) entries := by
  have hlength : index + ((key, item) :: entries).length = index + 1 + entries.length := by
    rw [List.length_cons]
    omega
  rw [closedEntries, hlength, sanitizeEntries_item hindex hnodes hcredential, tailMarker_cons]
  rfl

end Closed

/-- The keys that are written are keys within the limit, but for that of the marker. -/
theorem mem_keys {entries : List (String × Value)} {remaining depth index : ℕ}
    {proxyContext seen : Bool}
    (h : ReadableEntries python limits remaining depth proxyContext index seen entries) :
    ∀ key ∈ (sanitizeEntries python limits remaining depth proxyContext index entries).1.map Prod.fst,
      key ∈ (entries.take (limits.maxEntries - index)).map (fun entry => boundedKey limits entry.1) ∨
        (key = truncationKey ∧ seen = false) := by
  induction entries generalizing remaining index seen with
  | nil => exact fun _ hkey => absurd hkey List.not_mem_nil
  | cons entry entries ih =>
    obtain ⟨name, item⟩ := entry
    intro key hkey
    by_cases hindex : limits.maxEntries ≤ index
    · rw [sanitizeEntries_over hindex] at hkey
      exact absurd hkey List.not_mem_nil
    · rw [ReadableEntries, if_neg hindex] at h
      obtain ⟨room, hroom⟩ : ∃ room, limits.maxEntries - index = room + 1 :=
        ⟨limits.maxEntries - index - 1, by omega⟩
      have hnext : limits.maxEntries - (index + 1) = room := by omega
      rw [hroom, List.take_succ_cons, List.map_cons, List.mem_cons]
      by_cases hnodes : remaining = 0
      · rw [if_pos hnodes] at h
        rw [hnodes, sanitizeEntries_none hindex] at hkey
        exact .inr ⟨List.mem_singleton.mp hkey, h⟩
      · rw [if_neg hnodes] at h
        have hrest : ∀ {remaining' : ℕ},
            ReadableEntries python limits remaining' depth proxyContext (index + 1)
              (seen || boundedKey limits name == truncationKey) entries →
            key ∈ boundedKey limits name :: (sanitizeEntries python limits remaining' depth
              proxyContext (index + 1) entries).1.map Prod.fst →
            (key = boundedKey limits name ∨
              key ∈ (entries.take room).map fun entry => boundedKey limits entry.1) ∨
              (key = truncationKey ∧ seen = false) := by
          intro remaining' hreadable hmem
          rcases List.mem_cons.mp hmem with hhere | hmem
          · exact .inl (.inl hhere)
          · rcases ih hreadable key hmem with htaken | ⟨hmarker, hseen⟩
            · exact .inl (.inr (hnext ▸ htaken))
            · exact .inr ⟨hmarker, (Bool.or_eq_false_iff.mp hseen).1⟩
        by_cases hcredential : isCredentialKey proxyContext (FileCache.normalizeKey python name) = true
        · rw [if_pos hcredential] at h
          rw [sanitizeEntries_credential hindex hnodes hcredential, List.map_cons] at hkey
          exact hrest h.2 hkey
        · rw [if_neg hcredential] at h
          rw [sanitizeEntries_item hindex hnodes hcredential, List.map_cons] at hkey
          exact hrest h.2.2 hkey

/-- **The keys that are written are apart.** -/
theorem keys_nodup {entries : List (String × Value)} {remaining depth index : ℕ}
    {proxyContext seen : Bool}
    (h : ReadableEntries python limits remaining depth proxyContext index seen entries)
    (hnodup : ((entries.take (limits.maxEntries - index)).map
      fun entry => boundedKey limits entry.1).Nodup) :
    ((sanitizeEntries python limits remaining depth proxyContext index entries).1.map
      Prod.fst).Nodup := by
  induction entries generalizing remaining index seen with
  | nil => exact List.nodup_nil
  | cons entry entries ih =>
    obtain ⟨name, item⟩ := entry
    by_cases hindex : limits.maxEntries ≤ index
    · rw [sanitizeEntries_over hindex]
      exact List.nodup_nil
    · rw [ReadableEntries, if_neg hindex] at h
      obtain ⟨room, hroom⟩ : ∃ room, limits.maxEntries - index = room + 1 :=
        ⟨limits.maxEntries - index - 1, by omega⟩
      have hnext : limits.maxEntries - (index + 1) = room := by omega
      rw [hroom, List.take_succ_cons, List.map_cons, List.nodup_cons] at hnodup
      by_cases hnodes : remaining = 0
      · rw [hnodes, sanitizeEntries_none hindex]
        exact List.nodup_singleton _
      · rw [if_neg hnodes] at h
        have hcons : ∀ {remaining' : ℕ},
            ReadableEntries python limits remaining' depth proxyContext (index + 1)
              (seen || boundedKey limits name == truncationKey) entries →
            (boundedKey limits name :: (sanitizeEntries python limits remaining' depth proxyContext
              (index + 1) entries).1.map Prod.fst).Nodup := by
          intro remaining' hreadable
          refine List.nodup_cons.mpr ⟨fun hmem => ?_, ih hreadable (hnext ▸ hnodup.2)⟩
          rcases mem_keys hreadable _ hmem with htaken | ⟨hmarker, hseen⟩
          · rw [hnext] at htaken
            exact hnodup.1 htaken
          · rw [hmarker, beq_self_eq_true, Bool.or_true] at hseen
            exact absurd hseen (by decide)
        by_cases hcredential : isCredentialKey proxyContext (FileCache.normalizeKey python name) = true
        · rw [if_pos hcredential] at h
          rw [sanitizeEntries_credential hindex hnodes hcredential, List.map_cons]
          exact hcons h.2
        · rw [if_neg hcredential] at h
          rw [sanitizeEntries_item hindex hnodes hcredential, List.map_cons]
          exact hcons h.2.2

/-! ## The second pass -/

theorem sanitizeString_marker (python : Python) (limits : Limits) :
    sanitizeString python limits (boundedString truncated limits.maxString) =
      boundedString truncated limits.maxString :=
  sanitizeString_cut (by decide)

theorem closeItems_eq (limits : Limits) (total : ℕ) (items : List Value) :
    ∃ tail, closeItems limits total items = items ++ tail ∧
      (tail = [] ∨ (limits.maxEntries < total ∧ items.getLast?.any isTruncated = false)) := by
  by_cases h : limits.maxEntries < total ∧ items.getLast?.any isTruncated = false
  · exact ⟨_, if_pos h, .inr h⟩
  · exact ⟨[], (if_neg h).trans (List.append_nil items).symm, .inl rfl⟩

theorem closeItems_full_iff {items written : List Value} (hlength : items.length = limits.maxEntries)
    (hlast : items.getLast?.any isTruncated = false) (hwritten : written.length ≤ limits.maxEntries) :
    closeItems limits (items.length + 1) written = items ++ [.string truncated] ↔
      written = items := by
  constructor
  · intro heq
    rw [closeItems] at heq
    split at heq
    · exact List.append_cancel_right heq
    · rw [heq, List.length_append, List.length_singleton] at hwritten
      omega
  · rintro rfl
    exact if_pos ⟨by omega, hlast⟩

/-- No marker is behind the items that follow one, if none is behind all. -/
theorem getLast?_tail {item : Value} {items : List Value}
    (h : (item :: items).getLast?.any isTruncated = false) :
    items.getLast?.any isTruncated = false := by
  cases items with
  | nil => rfl
  | cons next rest => rwa [List.getLast?_cons_cons] at h

/-- Items are left out because of their number only where the marker is missing. -/
theorem items_full {items : List Value} {remaining depth index : ℕ} {proxyContext : Bool}
    (hindex : index ≤ limits.maxEntries) (hmore : limits.maxEntries < index + items.length)
    (hlast : (sanitizeItems python limits remaining depth proxyContext index
      items).1.getLast?.any isTruncated = false) :
    index + (sanitizeItems python limits remaining depth proxyContext index items).1.length =
      limits.maxEntries := by
  induction items generalizing remaining index with
  | nil =>
    rw [List.length_nil] at hmore
    omega
  | cons item items ih =>
    rw [sanitizeItems] at hlast ⊢
    by_cases hover : limits.maxEntries ≤ index
    · rw [if_pos hover, List.length_nil]
      omega
    · rw [if_neg hover] at hlast ⊢
      by_cases hnodes : remaining = 0
      · rw [if_pos hnodes] at hlast
        exact absurd hlast Bool.true_eq_false.mp
      · rw [if_neg hnodes] at hlast ⊢
        dsimp only at hlast ⊢
        rw [List.length_cons] at hmore ⊢
        have hnext : index + 1 ≤ limits.maxEntries := Nat.lt_of_not_le hover
        have hrest := ih hnext (by omega)
          (getLast?_tail hlast)
        omega

mutual

/-- **What is written takes as many nodes as the value.** -/
theorem nodesLeft_again : ∀ (v : Value) (remaining depth : ℕ) (proxyContext : Bool),
    Readable python limits remaining depth proxyContext v →
    nodesLeft python limits remaining depth proxyContext
        (sanitize python limits remaining depth proxyContext v).1 =
      nodesLeft python limits remaining depth proxyContext v
  | .null, remaining, depth, proxyContext, _ => by
    rw [sanitize]
    split <;> simp [marker]
  | .bool b, remaining, depth, proxyContext, _ => by
    rw [sanitize]
    split <;> simp [marker]
  | .number n, remaining, depth, proxyContext, _ => by
    rw [sanitize]
    split
    · simp [marker]
    · dsimp only
      split <;> simp
  | .string s, remaining, depth, proxyContext, _ => by
    rw [sanitize]
    split <;> simp [marker]
  | .array items, remaining, depth, proxyContext, h => by
    rw [sanitize]
    by_cases hnodes : remaining = 0
    · rw [hnodes, nodesLeft_zero, nodesLeft_zero]
    · rw [if_neg hnodes]
      dsimp only
      by_cases hdepth : limits.maxDepth ≤ depth
      · rw [nodesLeft_deep hdepth, nodesLeft_deep hdepth]
      · rw [Readable] at h
        have hitems := (h.resolve_left hnodes).resolve_left hdepth
        obtain ⟨tail, hclose, htail⟩ := closeItems_eq limits items.length
          (sanitizeItems python limits (remaining - 1) depth proxyContext 0 items).1
        rw [if_neg hdepth, hclose, nodesLeft_array hnodes hdepth, nodesLeft_array hnodes hdepth]
        refine itemsLeft_again items (remaining - 1) depth proxyContext 0 tail hitems ?_
        exact htail.imp_right fun hfull => items_full (Nat.zero_le _)
          (by rw [Nat.zero_add]; exact hfull.1) hfull.2
  | .object entries, remaining, depth, proxyContext, h => by
    rw [sanitize]
    by_cases hnodes : remaining = 0
    · rw [hnodes, nodesLeft_zero, nodesLeft_zero]
    · rw [if_neg hnodes]
      dsimp only
      by_cases hdepth : limits.maxDepth ≤ depth
      · rw [nodesLeft_deep hdepth, nodesLeft_deep hdepth]
      · rw [Readable] at h
        obtain ⟨hnodup, hentries⟩ := (h.resolve_left hnodes).resolve_left hdepth
        have hclosed := entriesLeft_again entries (remaining - 1) depth proxyContext 0 false
          (Nat.zero_le _) hentries
        rw [if_neg hdepth, assigned_nodup (keys_nodup hentries hnodup), closeEntries_eq,
          nodesLeft_object hnodes hdepth, nodesLeft_object hnodes hdepth]
        rwa [closedEntries, Nat.zero_add] at hclosed

/-- The items of a list, with the marker behind them if their number is the limit. -/
theorem itemsLeft_again : ∀ (items : List Value) (remaining depth : ℕ) (proxyContext : Bool)
    (index : ℕ) (tail : List Value),
    ReadableItems python limits remaining depth proxyContext index items →
    (tail = [] ∨ index + (sanitizeItems python limits remaining depth proxyContext index
      items).1.length = limits.maxEntries) →
    itemsLeft python limits remaining depth proxyContext index
        ((sanitizeItems python limits remaining depth proxyContext index items).1 ++ tail) =
      itemsLeft python limits remaining depth proxyContext index items
  | [], remaining, depth, proxyContext, index, tail, _, htail => by
    rw [sanitizeItems] at htail ⊢
    rcases htail with rfl | hfull
    · rfl
    · have hover : limits.maxEntries ≤ index := by
        rw [List.length_nil] at hfull
        omega
      rw [itemsLeft_stop (.inl hover), itemsLeft_stop (.inl hover)]
  | item :: items, remaining, depth, proxyContext, index, tail, h, htail => by
    by_cases hover : limits.maxEntries ≤ index
    · rw [itemsLeft_stop (.inl hover), itemsLeft_stop (.inl hover)]
    · by_cases hnodes : remaining = 0
      · rw [itemsLeft_stop (.inr hnodes), itemsLeft_stop (.inr hnodes)]
      · rw [sanitizeItems, if_neg hover, if_neg hnodes] at htail ⊢
        rw [ReadableItems] at h
        obtain ⟨hitem, hitems⟩ := (h.resolve_left hover).resolve_left hnodes
        dsimp only at htail ⊢
        rw [List.length_cons, sanitize_left] at htail
        have hfirst := nodesLeft_again item remaining (depth + 1) proxyContext hitem
        have hrest := itemsLeft_again items _ depth proxyContext (index + 1) tail hitems
          (htail.imp_right fun hfull => by omega)
        rw [List.cons_append, itemsLeft_cons hover hnodes, itemsLeft_cons hover hnodes, hfirst,
          sanitize_left, hrest]

/-- The entries of a `dict`, with the marker behind them. -/
theorem entriesLeft_again : ∀ (entries : List (String × Value)) (remaining depth : ℕ)
    (proxyContext : Bool) (index : ℕ) (seen : Bool), index ≤ limits.maxEntries →
    ReadableEntries python limits remaining depth proxyContext index seen entries →
    entriesLeft python limits remaining depth proxyContext index
        (closedEntries python limits remaining depth proxyContext index seen entries) =
      entriesLeft python limits remaining depth proxyContext index entries
  | [], remaining, depth, proxyContext, index, seen, hindex, _ => by
    rw [closedEntries_nil hindex]
  | (key, item) :: entries, remaining, depth, proxyContext, index, seen, hindex, h => by
    by_cases hover : limits.maxEntries ≤ index
    · rw [entriesLeft_stop (.inl hover), entriesLeft_stop (.inl hover)]
    · by_cases hnodes : remaining = 0
      · rw [entriesLeft_stop (.inr hnodes), entriesLeft_stop (.inr hnodes)]
      · rw [ReadableEntries, if_neg hover, if_neg hnodes] at h
        obtain ⟨⟨hreading, hproxy⟩, hentry⟩ := h
        have hnext : index + 1 ≤ limits.maxEntries := Nat.lt_of_not_le hover
        by_cases hcredential : isCredentialKey proxyContext (FileCache.normalizeKey python key) = true
        · rw [if_pos hcredential] at hentry
          have hagain := hreading.trans hcredential
          rw [closedEntries_credential hover hnodes hcredential,
            entriesLeft_credential hover hnodes hagain,
            entriesLeft_credential hover hnodes hcredential]
          exact entriesLeft_again entries remaining depth proxyContext (index + 1) _ hnext hentry
        · rw [if_neg hcredential] at hentry
          have hagain : ¬isCredentialKey proxyContext
              (FileCache.normalizeKey python (boundedKey limits key)) = true := by rwa [hreading]
          have hfirst := nodesLeft_again item remaining (depth + 1) _ hentry.1
          rw [closedEntries_item hover hnodes hcredential, entriesLeft_item hover hnodes hagain,
            entriesLeft_item hover hnodes hcredential, hproxy, hfirst]
          exact entriesLeft_again entries _ depth proxyContext (index + 1) _ hnext hentry.2

end

end CommerceCollector.Sanitization
