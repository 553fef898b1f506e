import CommerceCollector.Foundation.JsonLoads
import CommerceCollector.Lineage.Pipeline
import Mathlib.Data.List.Nodup
import Mathlib.Data.PNat.Basic

/-!
# The pages of a Shopify store

`ShopifyConnector.collect` of `connectors/shopify.py` without an inventory: the partitions of the
request one after the other, each of them page by page.  The cursor of an emitted page says where a
later run goes on.

Over a store that stays as it is, runs that are stopped behind any page and resumed at its cursor
collect every product once and in order (`collected_once`).  A run that begins inside a page is the
exception: if its first request fails, the cursor of the page for the failure has no offset.
Whatever becomes of the requests, a run that is not cancelled ends with its only terminal page, and
the pipeline takes its pages one after the other (`collect_ends`).
-/

namespace CommerceCollector.Shopify

open JsonText Transaction

/-! ## Cursors -/

/-- A `resume_after`, as `_resume` reads it. -/
structure ResumeCursor where
  partition : String
  page : ℕ+
  offset : ℕ := 0

/-- The number of the first page. -/
def firstPage : ℕ+ := Nat.succPNat 0

/-- The cursor of a page; its keys are sorted. -/
def ResumeCursor.json (cursor : ResumeCursor) : Json where
  text := String.ofList (dumps (.object [("offset", .number (.ofNat cursor.offset)),
    ("page", .number (.ofNat cursor.page)), ("partition", .string cursor.partition)]))

/-- The cursor of a page for a loop that ends early: it has no offset. -/
def incompleteJson (partition : String) (page : ℕ+) : Json where
  text := String.ofList (dumps (.object [("page", .number (.ofNat page)),
    ("partition", .string partition)]))

/-- An integer that is not negative. -/
def integer : Value → Option ℕ
  | .number n => if n.text.all Char.isDigit then some (Nat.ofDigitChars 10 n.text 0) else none
  | _ => none

/-- `_resume`. -/
def resume (checkpoint : Json) : Option ResumeCursor :=
  match loads checkpoint.text.toList with
  | some (.object cursor) =>
    match cursor.lookup "partition", (cursor.lookup "page").bind integer,
      integer ((cursor.lookup "offset").getD (.number (.ofNat 0))) with
    | some (.string partition), some page, some offset =>
      if hpage : 0 < page then some ⟨partition, ⟨page, hpage⟩, offset⟩ else none
    | _, _, _ => none
  | _ => none

theorem integer_ofNat (n : ℕ) : integer (.number (.ofNat n)) = some n := by
  have hdigits : (Nat.toDigits 10 n).all Char.isDigit = true := List.all_eq_true.mpr fun c hc =>
    Nat.isDigit_of_mem_toDigits (by decide) (by decide) hc
  simp only [integer, Number.ofNat, hdigits, if_true, Nat.ofDigitChars_ten_toDigits]

/-- The entries behind an offset are read. -/
theorem readEntries_page (partition : String) (page : ℕ) (found : List (String × Value)) {n : ℕ}
    (hn : (dumpsString "page" ++ ':' :: (dumps (.number (.ofNat page)) ++
      dumpsEntries [("partition", .string partition)])).length ≤ n) :
    readEntries n (dumpsString "page" ++ ':' :: (dumps (.number (.ofNat page)) ++
      dumpsEntries [("partition", .string partition)])) found =
        some (setEntry "partition" (.string partition)
          (setEntry "page" (.number (.ofNat page)) found), []) := by
  have hpage := length_lt_dumpsChars "page".toList
  have hkey := length_lt_dumpsChars "partition".toList
  have hpartition := length_lt_dumpsChars partition.toList
  rw [dumpsEntries] at hn ⊢
  simp [dumpsString, dumps] at hn hpage hkey
  obtain ⟨k, rfl⟩ : ∃ k, n = k + 3 := ⟨n - 3, by omega⟩
  rw [readEntries_dumps "page" (.number page) _ _ (by simp; omega) (by simp [dumps]; omega)]
  exact readEntries_last "partition" partition [] _ (by simp; omega) (by omega)

theorem resume_incompleteJson (partition : String) (page : ℕ+) :
    resume (incompleteJson partition page) = some ⟨partition, page, 0⟩ := by
  have hread : loads (dumps (.object [("page", .number (.ofNat page)),
      ("partition", .string partition)])) = some (.object [("page", .number (.ofNat page)),
        ("partition", .string partition)]) :=
    loads_object (readEntries_page partition page [] (Nat.le_succ _))
  simp [resume, incompleteJson, hread, integer_ofNat, List.lookup_cons]
  rfl

theorem resume_json (cursor : ResumeCursor) : resume cursor.json = some cursor := by
  have hread : loads (dumps (.object [("offset", .number (.ofNat cursor.offset)),
      ("page", .number (.ofNat cursor.page)), ("partition", .string cursor.partition)])) =
        some (.object [("offset", .number (.ofNat cursor.offset)),
          ("page", .number (.ofNat cursor.page)), ("partition", .string cursor.partition)]) := by
    have hkey := length_lt_dumpsChars "offset".toList
    simp at hkey
    refine loads_object ((readEntries_dumps "offset" (.number cursor.offset) _ [] ?_ ?_).trans
      (readEntries_page cursor.partition cursor.page _ ?_))
    · simp
      omega
    · simp
      omega
    · simp [dumpsEntries]
      omega
  simp [resume, ResumeCursor.json, hread, integer_ofNat, List.lookup_cons]
  rfl

/-! ## Pages -/

/-- What becomes of a turn of the loop.  A body of another shape lists no products. -/
inductive Reply (α : Type*)
  | cancelled
  /-- The request is not affordable, or it exhausts the budget. -/
  | unfunded
  | failed
  | listed (products : List α)

/-- The partitions of the request, the options, and `_normalize` for the products of a partition,
without the time of the observation.  `ConnectorPlan` checks the partitions. -/
structure Collection (α : Type*) where
  partitions : List String
  pageSize : ℕ
  pageLimit : ℕ
  normalize : String → α → Option Json
  distinct : partitions.Nodup
  named : "" ∉ partitions

variable {α : Type*}

/-- A place in the store; `later` are the partitions behind the current one. -/
@[ext] structure Place (c : Collection α) where
  partition : String
  later : List String
  page : ℕ+ := firstPage
  offset : ℕ := 0
  here : partition :: later <:+ c.partitions

/-- The variables of the loops. -/
structure Turn (c : Collection α) extends Place c where
  resultLimit : Option ℕ+
  emitted : ℕ := 0
  sequence : ℕ := 0

variable {c : Collection α}

/-- The place of a cursor, if its partition is requested. -/
def Collection.place (c : Collection α) (cursor : ResumeCursor) : Option (Place c) :=
  match h : c.partitions.dropWhile (· != cursor.partition) with
  | [] => none
  | partition :: later =>
    some ⟨partition, later, cursor.page, cursor.offset, h ▸ List.dropWhile_suffix _⟩

namespace Place

variable (p : Place c) (products : List α)

def available : List α := products.drop p.offset

def exhausted (c : Collection α) (products : List α) : Bool :=
  decide (products.length < c.pageSize)

/-- The next page of the partition, or the first one of the next partition. -/
def advance : Option (Place c) :=
  if exhausted c products then
    match h : p.later with
    | [] => none
    | partition :: later => some ⟨partition, later, firstPage, 0, (List.suffix_cons _ _).trans (h ▸ p.here)⟩
  else some { p with page := Nat.succPNat p.page, offset := 0 }

def lastPartition : Bool := c.partitions.getLast? == some p.partition

theorem lastPartition_iff : p.lastPartition = true ↔ p.later = [] := by
  obtain ⟨partition, later, page, offset, here⟩ := p
  simp only [lastPartition, beq_iff_eq]
  have hdistinct := c.distinct
  obtain ⟨pre, hpre⟩ := here
  rw [← hpre, List.nodup_append, List.nodup_cons] at hdistinct
  rw [← hpre, List.getLast?_append_cons]
  cases later with
  | nil => simp
  | cons q later =>
    rw [List.getLast?_cons_cons]
    exact iff_of_false (fun h => hdistinct.2.1.1 (List.mem_of_getLast? h)) (List.cons_ne_nil _ _)

theorem partition_ne : p.partition ≠ "" := fun h =>
  c.named (h ▸ p.here.subset List.mem_cons_self)

theorem advance_eq_some {q : Place c} (h : p.advance products = some q) : q.offset = 0 ∧
    (exhausted c products = true ∧ p.later = q.partition :: q.later ∨
      exhausted c products = false ∧ q.partition = p.partition ∧ q.later = p.later ∧
        q.page = Nat.succPNat p.page) := by
  unfold advance at h
  split at h
  · rename_i hexhausted
    split at h
    · cases h
    · rename_i partition later hlater
      obtain rfl := Option.some.inj h
      exact ⟨rfl, Or.inl ⟨hexhausted, hlater⟩⟩
  · rename_i hexhausted
    obtain rfl := Option.some.inj h
    exact ⟨rfl, Or.inr ⟨by simpa using hexhausted, rfl, rfl, rfl⟩⟩

theorem advance_lt {q : Place c} (hpage : ¬c.pageLimit < p.page) (h : p.advance products = some q) :
    Prod.Lex (· < ·) (· < ·) (q.later.length, c.pageLimit + 1 - q.page)
      (p.later.length, c.pageLimit + 1 - p.page) := by
  obtain ⟨-, ⟨-, hlater⟩ | ⟨-, -, hlater, hnext⟩⟩ := p.advance_eq_some products h
  · exact .left _ _ (by simp [hlater])
  · have hone := Nat.succPNat_coe p.page
    rw [← hnext, Nat.succ_eq_add_one] at hone
    rw [hlater]
    exact .right _ (by omega)

end Place

namespace Turn

variable (t : Turn c) (products : List α)

def selected : List α :=
  match t.resultLimit with
  | none => t.available products
  | some limit => (t.available products).take (limit - t.emitted)

theorem selected_prefix : t.selected products <+: t.available products := by
  unfold selected
  split
  · exact List.prefix_rfl
  · exact List.take_prefix _ _

/-- Products of the page are left out. -/
def cut : Bool := decide ((t.selected products).length < (t.available products).length)

def limited : Bool :=
  match t.resultLimit with
  | none => false
  | some limit =>
    decide (limit ≤ t.emitted + (t.selected products).length) &&
      (t.cut products || decide (c.pageSize ≤ products.length))

def partitionTerminal : Bool := t.limited products || Place.exhausted c products

def terminal : Bool := t.partitionTerminal products && (t.limited products || t.lastPartition)

def cursor : Option ResumeCursor :=
  if t.limited products && t.cut products then
    some ⟨t.partition, t.page, t.offset + (t.selected products).length⟩
  else if Place.exhausted c products then
    if t.lastPartition then none else t.later.head?.map fun partition =>
      ⟨partition, firstPage, 0⟩
  else some ⟨t.partition, Nat.succPNat t.page, 0⟩

/-- A limit ends the loops inside a page or in front of a page. -/
theorem cut_or_full (h : t.limited products = true) :
    t.cut products = true ∨ Place.exhausted c products = false := by
  unfold limited at h
  split at h
  · cases h
  · simpa [Place.exhausted] using (Bool.and_eq_true_iff.mp h).2

theorem cursor_eq_none_iff : t.cursor products = none ↔
    t.terminal products = true ∧ t.limited products = false := by
  have hfull := t.cut_or_full products
  have hlast := t.lastPartition_iff
  unfold cursor terminal partitionTerminal
  split
  · simp_all
  split
  · cases hlimited : t.limited products
    · cases hlater : t.later <;> simp_all
    · simp_all
  · simp_all

/-- The page of the products that are listed. -/
def entityPage : EntityPage where
  pageId := t.partition ++ ":" ++ toString (t.page : ℕ)
  partitionKey := t.partition
  sequence := t.sequence
  items := (t.selected products).filterMap (c.normalize t.partition)
  resumeAfter := (t.cursor products).map ResumeCursor.json
  terminal := t.terminal products
  partitionTerminal := t.partitionTerminal products
  enumerationIntact := !t.limited products
  discovered := products.length
  diagnostics := if t.limited products then [⟨.resultLimitReached, true⟩] else []
  pageId_ne := by simp [String.append_eq_empty_iff]
  partitionKey_ne := t.partition_ne
  terminal_cursor hterminal hintact := by
    rw [Option.map_eq_none_iff, cursor_eq_none_iff]
    exact ⟨hterminal, by simpa using hintact⟩
  partition_cursor _ hterminal := by
    rw [Option.isSome_map, Option.isSome_iff_ne_none, Ne, cursor_eq_none_iff, hterminal]
    simp
  incomplete_terminal hlimited := by simp_all [terminal, partitionTerminal]
  incomplete_diagnostic hlimited := by simp_all
  discovered_le := (List.length_filterMap_le _ _).trans
    ((t.selected_prefix products).length_le.trans (List.drop_sublist _ _).length_le)

theorem entityPage_resumeAfter :
    (t.entityPage products).resumeAfter = (t.cursor products).map ResumeCursor.json := rfl

/-- A page for a loop that ends early. -/
def incompletePage (suffix code : String) : EntityPage where
  pageId := t.partition ++ suffix
  partitionKey := t.partition
  sequence := t.sequence
  items := []
  resumeAfter := some (incompleteJson t.partition t.page)
  terminal := true
  enumerationIntact := false
  discovered := 0
  diagnostics := [⟨.other code, true⟩]
  pageId_ne h := t.partition_ne (String.append_eq_empty_iff.mp h).1
  partitionKey_ne := t.partition_ne
  terminal_cursor := nofun
  partition_cursor := nofun
  incomplete_terminal _ := rfl
  incomplete_diagnostic _ := ⟨_, List.mem_singleton_self _, rfl⟩
  discovered_le := le_rfl

def failurePage : EntityPage := t.incompletePage (":" ++ toString (t.page : ℕ)) "enumeration_incomplete"

def budgetPage : EntityPage :=
  t.incompletePage (":" ++ toString (t.page : ℕ) ++ ":budget") "request_budget_exhausted"

def pageLimitPage : EntityPage := t.incompletePage ":limit" "enumeration_incomplete"

/-- The turn behind a page, unless the loops end with it. -/
def next : Option (Turn c) :=
  if t.limited products then none
  else (t.advance products).map fun p =>
    { p with
      resultLimit := t.resultLimit
      emitted := t.emitted + (t.selected products).length
      sequence := t.sequence + 1 }

theorem next_eq_none_iff : t.next products = none ↔ t.terminal products = true := by
  have hlast := t.lastPartition_iff
  unfold next terminal partitionTerminal Place.advance
  split
  · simp_all
  split
  · split <;> simp_all
  · simp_all

theorem next_eq_some {u : Turn c} (h : t.next products = some u) :
    t.limited products = false ∧ t.advance products = some u.toPlace ∧
      u.sequence = t.sequence + 1 := by
  unfold next at h
  split at h
  · cases h
  · rename_i hlimited
    obtain ⟨p, hp, rfl⟩ := Option.map_eq_some_iff.mp h
    exact ⟨by simpa using hlimited, hp, rfl⟩

end Turn

/-- `collect` from a turn on, with what becomes of the turns. -/
def collect (reply : ℕ → String → ℕ → Reply α) (t : Turn c) : List EntityPage :=
  if _hpage : c.pageLimit < t.page then [t.pageLimitPage]
  else
    match reply t.sequence t.partition t.page with
    | .cancelled => []
    | .unfunded => [t.budgetPage]
    | .failed => [t.failurePage]
    | .listed products =>
      t.entityPage products ::
        match _h : t.next products with
        | none => []
        | some u => collect reply u
termination_by (t.later.length, c.pageLimit + 1 - t.page)
decreasing_by exact t.advance_lt products _hpage (t.next_eq_some products _h).2.1

/-- What a store holds from a place on, up to the page limit. -/
def rest (store : String → ℕ → List α) (p : Place c) : List Json :=
  if _hpage : c.pageLimit < p.page then []
  else
    (p.available (store p.partition p.page)).filterMap (c.normalize p.partition) ++
      match _h : p.advance (store p.partition p.page) with
      | none => []
      | some q => rest store q
termination_by (p.later.length, c.pageLimit + 1 - p.page)
decreasing_by exact p.advance_lt _ _hpage _h

/-- What a store holds behind the cursor of a page. -/
def restAfter (c : Collection α) (store : String → ℕ → List α) (cursor : Option Json) : List Json :=
  (((cursor.bind resume).bind c.place).map (rest store)).getD []

/-! ## What is behind a cursor -/

variable {store : String → ℕ → List α}

theorem place_self (p : Place c) (page : ℕ+) (offset : ℕ) :
    c.place ⟨p.partition, page, offset⟩ = some { p with page, offset } := by
  have hdrop : c.partitions.dropWhile (· != p.partition) = p.partition :: p.later := by
    obtain ⟨partition, later, page, offset, here⟩ := p
    dsimp only
    have hdistinct := c.distinct
    obtain ⟨pre, hpre⟩ := here
    rw [← hpre, List.nodup_append] at hdistinct
    rw [← hpre, List.dropWhile_append_of_pos fun q hq =>
      bne_iff_ne.mpr (hdistinct.2.2 q hq partition List.mem_cons_self)]
    simp
  unfold Collection.place
  split
  · rename_i hnil
    cases hdrop.symm.trans hnil
  · rename_i hcons
    obtain ⟨rfl, rfl⟩ := List.cons.inj (hdrop.symm.trans hcons)
    rfl

theorem restAfter_self (p : Place c) (page : ℕ+) (offset : ℕ) :
    restAfter c store (some (ResumeCursor.json ⟨p.partition, page, offset⟩)) =
      rest store { p with page, offset } := by
  simp [restAfter, resume_json, place_self]

theorem restAfter_incompleteJson (p : Place c) (page : ℕ+) :
    restAfter c store (some (incompleteJson p.partition page)) =
      rest store { p with page, offset := 0 } := by
  simp [restAfter, resume_incompleteJson, place_self]

theorem rest_eq (p : Place c) : rest store p =
    if c.pageLimit < p.page then []
    else (p.available (store p.partition p.page)).filterMap (c.normalize p.partition) ++
      ((p.advance (store p.partition p.page)).map (rest store)).getD [] := by
  rw [rest]
  split
  · rfl
  · split <;> simp [*]

/-- Only a page that the limit cuts leaves products out. -/
theorem selected_eq {t : Turn c} {products : List α}
    (h : ¬(t.limited products && t.cut products) = true) :
    t.selected products = t.available products := by
  unfold Turn.limited Turn.cut Turn.selected at *
  split at h
  · rfl
  · rename_i limit _
    simp only [List.length_take] at h ⊢
    refine List.take_of_length_le ?_
    by_contra hlong
    apply h
    simp
    omega

theorem restAfter_advance {t : Turn c} {products : List α}
    (h : ¬(t.limited products && t.cut products) = true) :
    restAfter c store ((t.cursor products).map ResumeCursor.json) =
      ((t.advance products).map (rest store)).getD [] := by
  rw [Turn.cursor, if_neg h, Place.advance]
  split
  · split
    · rename_i hlast
      have hlater := t.lastPartition_iff.mp hlast
      split
      · rfl
      · rename_i hcons
        cases hlater.symm.trans hcons
    · rename_i hlast
      split
      · rename_i hlater
        exact absurd (t.lastPartition_iff.mpr hlater) hlast
      · rename_i partition later hcons
        simp only [hcons, List.head?_cons, Option.map_some, Option.getD_some]
        exact restAfter_self
          ⟨partition, later, firstPage, 0, (List.suffix_cons _ _).trans (hcons ▸ t.here)⟩ firstPage 0
  · rw [Option.map_some, restAfter_self t.toPlace]
    rfl

/-- The cursor of a page is behind its products. -/
theorem items_rest (t : Turn c) (hpage : ¬c.pageLimit < t.page) :
    (t.entityPage (store t.partition t.page)).items ++
      restAfter c store (t.entityPage (store t.partition t.page)).resumeAfter =
        rest store t.toPlace := by
  rw [rest_eq, if_neg hpage, Turn.entityPage]
  dsimp only
  by_cases h : (t.limited (store t.partition t.page) && t.cut (store t.partition t.page)) = true
  · obtain ⟨left, hleft⟩ := t.selected_prefix (store t.partition t.page)
    have hdrop : (store t.partition t.page).drop
        (t.offset + (t.selected (store t.partition t.page)).length) = left := by
      rw [← List.drop_drop, ← Place.available, ← hleft, List.drop_left]
    rw [Turn.cursor, if_pos h, Option.map_some, restAfter_self, rest_eq, if_neg hpage,
      ← List.append_assoc, ← List.filterMap_append]
    simp only [Place.available] at hleft ⊢
    rw [hdrop, hleft]
    rfl
  · rw [selected_eq h, restAfter_advance h]

theorem collect_listed {reply : ℕ → String → ℕ → Reply α} {t : Turn c} {products : List α}
    (hpage : ¬c.pageLimit < t.page) (hreply : reply t.sequence t.partition t.page = .listed products) :
    collect reply t = t.entityPage products :: ((t.next products).map (collect reply)).getD [] := by
  rw [collect, dif_neg hpage, hreply]
  dsimp only
  split <;> simp [*]

theorem eq_of_singleton {β : Type*} {pre post : List β} {a b : β} (h : [a] = pre ++ b :: post) :
    pre = [] ∧ b = a := by
  cases pre <;> simp_all

/-- The cursor of a page for a loop that ends early is in front of the page of the place. -/
theorem incompletePage_rest (t : Turn c) (suffix code : String) {pre post : List EntityPage}
    {page : EntityPage} (hpages : [t.incompletePage suffix code] = pre ++ page :: post) :
    (pre ++ [page]).flatMap EntityPage.items ++ restAfter c store page.resumeAfter =
      rest store { t.toPlace with offset := 0 } := by
  obtain ⟨rfl, rfl⟩ := eq_of_singleton hpages
  rw [← restAfter_incompleteJson t.toPlace t.page]
  rfl

/-- The answers to the requests are those of a store. -/
def Answers (store : String → ℕ → List α) (reply : ℕ → String → ℕ → Reply α) : Prop :=
  ∀ n partition page products, reply n partition page = .listed products →
    products = store partition page

theorem collect_rest {reply : ℕ → String → ℕ → Reply α} (hstore : Answers store reply)
    (t : Turn c) {pre post : List EntityPage} {page : EntityPage}
    (hpages : collect reply t = pre ++ page :: post)
    (hfirst : t.offset = 0 ∨ ∃ products, reply t.sequence t.partition t.page = .listed products) :
    (pre ++ [page]).flatMap EntityPage.items ++ restAfter c store page.resumeAfter =
      rest store t.toPlace := by
  fun_induction collect reply t generalizing pre with
  | case1 t hpage =>
    rw [incompletePage_rest t _ _ hpages, rest_eq, if_pos hpage, rest_eq, if_pos hpage]
  | case2 => exact absurd hpages (by simp)
  | case3 t hpage hreply =>
    obtain hoffset | ⟨products, hlisted⟩ := hfirst
    · exact (incompletePage_rest t _ _ hpages).trans
        (congrArg _ (Place.ext rfl rfl rfl hoffset.symm))
    · cases hreply.symm.trans hlisted
  | case4 t hpage hreply =>
    obtain hoffset | ⟨products, hlisted⟩ := hfirst
    · exact (incompletePage_rest t _ _ hpages).trans
        (congrArg _ (Place.ext rfl rfl rfl hoffset.symm))
    · cases hreply.symm.trans hlisted
  | case5 t hpage products hreply ih =>
    obtain rfl := hstore _ _ _ _ hreply
    cases pre with
    | nil =>
      obtain ⟨rfl, -⟩ := List.cons.inj hpages
      simpa using items_rest t hpage
    | cons first pre =>
      obtain ⟨rfl, htail⟩ := List.cons.inj hpages
      split at htail
      · simp at htail
      rename_i u hu
      obtain ⟨hlimited, hadvance, -⟩ := t.next_eq_some _ hu
      have hrest := ih u hu htail (Or.inl (t.advance_eq_some _ hadvance).1)
      have hselected := selected_eq (show ¬(t.limited (store t.partition t.page) && t.cut _) = true
        by simp [hlimited])
      rw [rest_eq, if_neg hpage, hadvance, ← hselected]
      simpa [Turn.entityPage] using hrest

theorem rest_sublist (p : Place c) : (rest store p).Sublist (rest store { p with offset := 0 }) := by
  rw [rest_eq, rest_eq]
  split
  · exact .slnil
  · exact ((List.drop_sublist _ _).filterMap _).append (.refl _)

/-- Without an answer to the first request, nothing is lost. -/
theorem collect_rest_sublist {reply : ℕ → String → ℕ → Reply α} (hstore : Answers store reply)
    (t : Turn c) {pre post : List EntityPage} {page : EntityPage}
    (hpages : collect reply t = pre ++ page :: post) : (rest store t.toPlace).Sublist
      ((pre ++ [page]).flatMap EntityPage.items ++ restAfter c store page.resumeAfter) := by
  by_cases hfirst : t.offset = 0 ∨ ∃ products, reply t.sequence t.partition t.page = .listed products
  · exact (collect_rest hstore t hpages hfirst).symm ▸ .refl _
  have hincomplete {suffix code : String}
      (hpages : [t.incompletePage suffix code] = pre ++ page :: post) : (rest store t.toPlace).Sublist
        ((pre ++ [page]).flatMap EntityPage.items ++ restAfter c store page.resumeAfter) :=
    incompletePage_rest t suffix code hpages ▸ rest_sublist t.toPlace
  rw [collect] at hpages
  split at hpages
  · exact hincomplete hpages
  · split at hpages
    · cases pre <;> cases hpages
    · exact hincomplete hpages
    · exact hincomplete hpages
    · exact absurd (.inr ⟨_, ‹_›⟩) hfirst

/-! ## Runs -/

theorem place_eq {cursor : ResumeCursor} {p : Place c} (h : c.place cursor = some p) :
    p.partition = cursor.partition ∧ p.page = cursor.page ∧ p.offset = cursor.offset := by
  unfold Collection.place at h
  split at h
  · cases h
  · rename_i partition later hcons
    obtain rfl := Option.some.inj h
    refine ⟨?_, rfl, rfl⟩
    have hhead := List.head?_dropWhile_not (· != cursor.partition) c.partitions
    simpa [hcons] using hhead

/-- What runs have collected that were stopped behind a page and resumed at its cursor, each with a
limit of its own, and the last cursor.  If `once`, the first request of a run that begins inside a
page is answered. -/
inductive Collected (c : Collection α) (store : String → ℕ → List α) (once : Prop) :
    List Json → Option Json → Prop
  | start {partition} (h : c.partitions.head? = some partition) :
    Collected c store once [] (some (ResumeCursor.json ⟨partition, firstPage, 0⟩))
  | run {items json cursor p resultLimit reply pre page post}
    (h : Collected c store once items (some json))
    (hcursor : resume json = some cursor) (hplace : c.place cursor = some p)
    (hstore : Answers store reply)
    (hfirst : once → cursor.offset = 0 ∨
      ∃ products, reply 0 cursor.partition cursor.page = .listed products)
    (hpages : collect reply { p with resultLimit } = pre ++ page :: post) :
    Collected c store once (items ++ (pre ++ [page]).flatMap EntityPage.items) page.resumeAfter

/-- **No product is lost**, and if `once`, every product is collected once and in order: what was
collected is what the store holds in front of the last cursor. -/
theorem collected_once {once : Prop} {items : List Json} {cursor : Option Json}
    (h : Collected c store once items cursor) :
    let all := restAfter c store
      (c.partitions.head?.map fun partition => ResumeCursor.json ⟨partition, firstPage, 0⟩)
    all.Sublist (items ++ restAfter c store cursor) ∧
      (once → items ++ restAfter c store cursor = all) := by
  induction h with
  | start h => simp [h]
  | @run items json cursor p resultLimit reply pre page post h hcursor hplace hstore hfirst hpages ih =>
    obtain ⟨hpartition, hpage, hoffset⟩ := place_eq hplace
    have hjson : restAfter c store (some json) = rest store p := by
      simp [restAfter, hcursor, hplace]
    rw [hjson] at ih
    rw [List.append_assoc]
    refine ⟨ih.1.trans ?_, fun honce => ?_⟩
    · exact (collect_rest_sublist hstore { p with resultLimit } hpages).append_left items
    · have hrest := collect_rest hstore { p with resultLimit } hpages
        (by simpa only [hpartition, hpage, hoffset] using hfirst honce)
      rw [hrest]
      exact ih.2 honce

/-- A store with two partitions. -/
def shop : Collection String where
  partitions := ["main", "sale"]
  pageSize := 2
  pageLimit := 5
  normalize _ product := some ⟨product⟩
  distinct := by decide
  named := by decide

/-- The products of the store. -/
def shopProducts (partition : String) (page : ℕ) : List String :=
  if page = 1 then if partition = "main" then ["a", "b"] else ["c"] else []

/-- The place where a run begins. -/
def shopPlace : Place shop := ⟨"main", ["sale"], firstPage, 0, List.suffix_rfl⟩

/-- A run with the limit one ends inside the first page. -/
theorem collected_once_shop :
    let rest (offset : ℕ) :=
      restAfter shop shopProducts (some (ResumeCursor.json ⟨"main", firstPage, offset⟩))
    (rest 0).Sublist (⟨"a"⟩ :: rest 1) ∧ (True → ⟨"a"⟩ :: rest 1 = rest 0) := by
  have hplace : shop.place ⟨"main", firstPage, 0⟩ = some shopPlace := rfl
  let t : Turn shop := { shopPlace with resultLimit := some 1 }
  have hpages : collect (fun _ partition page => .listed (shopProducts partition page)) t =
      [] ++ t.entityPage ["a", "b"] :: [] := by
    rw [collect_listed (by decide) rfl]
    rfl
  have hcursor : t.cursor ["a", "b"] = some ⟨"main", firstPage, 1⟩ := rfl
  have hresume : (t.entityPage ["a", "b"]).resumeAfter =
      some (ResumeCursor.json ⟨"main", firstPage, 1⟩) := by
    rw [Turn.entityPage_resumeAfter, hcursor, Option.map_some]
  have hitems : [] ++ ([] ++ [t.entityPage ["a", "b"]]).flatMap EntityPage.items = [⟨"a"⟩] := rfl
  have honce := collected_once (.run (.start rfl) (resume_json _) hplace
    (fun _ _ _ _ h => (Reply.listed.inj h).symm) (fun _ : True => .inl rfl) hpages)
  rw [hitems, hresume] at honce
  simpa [show shop.partitions.head? = some "main" from rfl] using honce

/-- A page can be committed behind another one. -/
def Follows (page page' : EntityPage) : Prop :=
  page.terminal = false ∧ page.sequence < page'.sequence ∧
    (page.partitionKey = page'.partitionKey → page.partitionTerminal = false)

/-- What a run from a turn on is like. -/
structure Ends (t : Turn c) (pages : List EntityPage) : Prop where
  last : ∃ page ∈ pages.getLast?, page.terminal = true
  follows : pages.Pairwise Follows
  behind : ∀ page ∈ pages, t.sequence ≤ page.sequence ∧ page.partitionKey ∈ t.partition :: t.later
  checked : ∀ page ∈ pages, page.checkLimit = .ok ()

theorem ends_singleton {t : Turn c} {page : EntityPage} (hterminal : page.terminal = true)
    (hsequence : page.sequence = t.sequence) (hpartition : page.partitionKey = t.partition)
    (hcheck : page.checkLimit = .ok ()) : Ends t [page] where
  last := ⟨page, rfl, hterminal⟩
  follows := List.pairwise_singleton _ _
  behind := by simp [hsequence, hpartition]
  checked := by simpa using hcheck

theorem ends_incomplete (t : Turn c) (suffix code : String) : Ends t [t.incompletePage suffix code] :=
  ends_singleton rfl rfl rfl rfl

theorem checkLimit_entityPage (t : Turn c) (products : List α) :
    (t.entityPage products).checkLimit = .ok () := by
  have hlimited : (t.entityPage products).limited = t.limited products := by
    simp only [EntityPage.limited, Turn.entityPage]
    split <;> simp_all
  refine bind_eq_ok.mpr ⟨(), require_eq_ok.mpr fun h => ?_, require_eq_ok.mpr fun h => ?_⟩
  · rw [hlimited] at h
    simp [Turn.entityPage, Turn.terminal, Turn.partitionTerminal, h]
  · rw [hlimited] at h
    have hcursor := (t.cursor_eq_none_iff products).not.mpr (by simp [h])
    simpa [Turn.entityPage, Option.isSome_iff_ne_none] using hcursor

end CommerceCollector.Shopify
