import CommerceCollector.Transports.FileCache

/-!
# Sanitisation

`models/sanitization.py`: a JSON value without the credentials that it holds, and within limits on
the depth, on the entries of a container, on the length of a string and on the number of nodes.  The
nodes that may still be taken are passed on from one value to the next; an entry whose key names a
credential is written without being taken.

A `dict` is the list of its entries.  What is written into one is the list of the pairs that are
assigned, in their order; the `dict` is what they leave.
-/

namespace CommerceCollector.Sanitization

open JsonText

/-! ## Limits and texts -/

/-- `JsonSanitizationLimits`. -/
structure Limits where
  maxDepth : ℕ
  maxEntries : ℕ
  maxString : ℕ
  maxNodes : ℕ
  entries_pos : 1 ≤ maxEntries
  string_pos : 1 ≤ maxString
  nodes_pos : 1 ≤ maxNodes

/-- `DEFAULT_JSON_SANITIZATION_LIMITS`. -/
def Limits.default : Limits where
  maxDepth := 16
  maxEntries := 100
  maxString := 2048
  maxNodes := 500
  entries_pos := by decide
  string_pos := by decide
  nodes_pos := by decide

def redacted : String := "[redacted]"

def truncated : String := "[truncated]"

/-- `_TRUNCATION_KEY`. -/
def truncationKey : String := "_truncated"

/-- `_bounded_string`. -/
def boundedString (value : String) (limit : ℕ) : String :=
  if value.length ≤ limit then value
  else if limit ≤ truncated.length then String.ofList (truncated.toList.take limit)
  else String.ofList (value.toList.take (limit - truncated.length) ++ truncated.toList)

/-! ## Keys -/

/-- `_is_credential_key`. -/
def isCredentialKey (proxyContext : Bool) (key : List Char) : Bool :=
  (proxyContext && ["user", "username"].contains (String.ofList key)) || FileCache.isCredentialKey key

/-- `"proxy" in key`. -/
def namesProxy (key : List Char) : Bool := key.tails.any fun rest => "proxy".toList.isPrefixOf rest

/-! ## Values -/

/-- `math.isfinite`. -/
def isFinite (n : Number) : Bool :=
  !(["NaN".toList, "Infinity".toList, "-Infinity".toList].contains n.text)

/-- `sanitized[key] = value`. -/
def put (entries : List (String × Value)) (key : String) (value : Value) : List (String × Value) :=
  if key ∈ entries.map Prod.fst then
    entries.map fun entry => if entry.1 = key then (key, value) else entry
  else entries ++ [(key, value)]

/-- The `dict` that the assignments leave. -/
def assigned (writes : List (String × Value)) : List (String × Value) :=
  writes.foldl (fun entries write => put entries write.1 write.2) []

/-- A number of entries. -/
def count (n : ℕ) : Value := .number (.ofNat n)

/-- The value is the text of the marker. -/
def isTruncated : Value → Bool
  | .string s => s == truncated
  | _ => false

section Sanitize

variable (python : Python) (limits : Limits)

/-- What is made of a string. -/
def sanitizeString (s : String) : String :=
  boundedString (FileCache.sanitizeUrl python s) limits.maxString

/-- The marker that takes the place of a value. -/
def marker : Value := .string (boundedString truncated limits.maxString)

/-- The marker behind the entries, if some were left out and none is there. -/
def closeEntries (total : ℕ) (entries : List (String × Value)) : List (String × Value) :=
  if limits.maxEntries < total ∧ truncationKey ∉ entries.map Prod.fst then
    put entries truncationKey (count (total - limits.maxEntries))
  else entries

/-- The marker behind the items, if some were left out and the last is none. -/
def closeItems (total : ℕ) (items : List Value) : List Value :=
  if limits.maxEntries < total ∧ items.getLast?.any isTruncated = false then
    items ++ [.string truncated]
  else items

mutual

/-- `_sanitize`, and the nodes that may still be taken. -/
def sanitize (remaining depth : ℕ) (proxyContext : Bool) (value : Value) : Value × ℕ :=
  if remaining = 0 then (marker limits, 0)
  else
    match value with
    | .object entries =>
      if limits.maxDepth ≤ depth then (marker limits, remaining - 1)
      else
        let written := sanitizeEntries (remaining - 1) depth proxyContext 0 entries
        (.object (closeEntries limits entries.length (assigned written.1)), written.2)
    | .array items =>
      if limits.maxDepth ≤ depth then (marker limits, remaining - 1)
      else
        let written := sanitizeItems (remaining - 1) depth proxyContext 0 items
        (.array (closeItems limits items.length written.1), written.2)
    | .string s => (.string (sanitizeString python limits s), remaining - 1)
    | .number n => (if isFinite n = true then .number n else .null, remaining - 1)
    | .bool b => (.bool b, remaining - 1)
    | .null => (.null, remaining - 1)

/-- The items of a list from an index on. -/
def sanitizeItems (remaining depth : ℕ) (proxyContext : Bool) (index : ℕ) :
    List Value → List Value × ℕ
  | [] => ([], remaining)
  | item :: items =>
    if limits.maxEntries ≤ index then ([], remaining)
    else if remaining = 0 then ([.string truncated], remaining)
    else
      let first := sanitize remaining (depth + 1) proxyContext item
      let rest := sanitizeItems first.2 depth proxyContext (index + 1) items
      (first.1 :: rest.1, rest.2)

/-- What is assigned for the entries of a `dict` from an index on. -/
def sanitizeEntries (remaining depth : ℕ) (proxyContext : Bool) (index : ℕ) :
    List (String × Value) → List (String × Value) × ℕ
  | [] => ([], remaining)
  | (key, item) :: entries =>
    if limits.maxEntries ≤ index then ([], remaining)
    else if remaining = 0 then ([(truncationKey, count (entries.length + 1))], remaining)
    else
      let normalizedKey := FileCache.normalizeKey python key
      let boundedKey := boundedString key limits.maxString
      if isCredentialKey proxyContext normalizedKey = true then
        let rest := sanitizeEntries remaining depth proxyContext (index + 1) entries
        ((boundedKey, .string (boundedString redacted limits.maxString)) :: rest.1, rest.2)
      else
        let first := sanitize remaining (depth + 1) (proxyContext || namesProxy normalizedKey) item
        let rest := sanitizeEntries first.2 depth proxyContext (index + 1) entries
        ((boundedKey, first.1) :: rest.1, rest.2)

end

/-- `sanitize_json_value`. -/
def sanitizeJsonValue (value : Value) : Value :=
  (sanitize python limits limits.maxNodes 0 false value).1

end Sanitize

/-! ## Lengths -/

theorem length_boundedString (value : String) (limit : ℕ) :
    (boundedString value limit).length ≤ limit := by
  rw [boundedString]
  split
  · assumption
  · split
    · rw [String.length_ofList, List.length_take]
      exact Nat.min_le_left _ _
    · rename_i hlimit
      rw [String.length_ofList, List.length_append, List.length_take]
      have hmarker : truncated.toList.length = truncated.length := String.length_toList
      omega

theorem boundedString_eq {value : String} {limit : ℕ} (h : value.length ≤ limit) :
    boundedString value limit = value :=
  if_pos h

theorem length_put (entries : List (String × Value)) (key : String) (value : Value) :
    (put entries key value).length ≤ entries.length + 1 := by
  rw [put]
  split
  · rw [List.length_map]
    omega
  · rw [List.length_append, List.length_singleton]

theorem length_assigned (writes : List (String × Value)) :
    (assigned writes).length ≤ writes.length := by
  have hfold : ∀ entries : List (String × Value),
      (writes.foldl (fun entries write => put entries write.1 write.2) entries).length ≤
        entries.length + writes.length := by
    induction writes with
    | nil => exact fun entries => le_rfl
    | cons write writes ih =>
      intro entries
      have hput := length_put entries write.1 write.2
      have hrest := ih (put entries write.1 write.2)
      rw [List.foldl_cons, List.length_cons]
      omega
  simpa [assigned] using hfold []

end CommerceCollector.Sanitization
