import CommerceCollector.Connectors.Sitemaps
import CommerceCollector.Foundation.BreadthFirst
import CommerceCollector.Transports.CacheKeys
import CommerceCollector.Transports.URLPolicy

/-!
# Walks over sitemaps

`SitemapDiscovery.discover`, with the requests that it makes and the pattern of the product URLs.
The documents that it requests are a breadth-first search from the roots along the indices; where
every document that can be reached is bare, written with the characters of its URLs and lists URLs
that joining leaves as they are, the walk finds exactly what is listed.
-/

namespace CommerceCollector.Connectors

/-! ## Requests -/

/-- What comes of `transport.request`: a response with its body, or an error that is raised. -/
inductive Reply (δ : Type*)
  | response (status : ℕ) (body : δ)
  /-- `ResponseBodyTooLarge`. -/
  | bodyTooLarge
  /-- A `TransportFailure`, by the name of its class. -/
  | transportFailure (error : String)
  /-- `BudgetExhausted`. -/
  | budgetExhausted
  deriving DecidableEq, Repr

/-- How a discovery raises: a `DiscoveryFailure`, or another error. -/
inductive DiscoveryError
  | failure (message : String) (retryable : Bool)
  | raised (error : String)
  deriving DecidableEq, Repr

/-- The `DiscoveryFailure` behind an answer to a request for a sitemap. -/
def sitemapError {δ : Type*} : Reply δ → DiscoveryError
  | .response status _ => .failure ("sitemap request failed with status " ++ toString status) true
  | .bodyTooLarge => .failure "sitemap request failed: ResponseBodyTooLarge" false
  | .transportFailure error => .failure ("sitemap request failed: " ++ error) true
  | .budgetExhausted => .raised "BudgetExhausted"

/-- The URLs that are new, each once. -/
def newUrls (emitted urls : List String) : List String :=
  (urls.filter fun url => url ∉ emitted).eraseDups

variable (python : Python)

/-! ## The walk -/

/-- What a walk requests and yields, and the error with which it ends. -/
structure Crawl where
  requests : List String := []
  urls : List String := []
  error : Option DiscoveryError := none
deriving DecidableEq, Repr

/-- A document that was requested and what it yielded come before the rest. -/
def Crawl.after (c : Crawl) (url : String) (urls : List String) : Crawl :=
  { c with requests := url :: c.requests, urls := urls ++ c.urls }

/-- The locations of a document, joined to its URL; nothing, if one of them cannot be split. -/
def documentLocations (url : String) (text : List Char) : Option (List String) :=
  (locationTexts python.isalnum text).mapM fun location => urljoin python url (String.ofList location)

/-- The error of a traversal that would see too many documents. -/
def traversalLimit (limit : ℕ) : DiscoveryError :=
  .failure ("sitemap traversal limit " ++ toString limit ++ " reached") true

variable (ask : String → Reply (List Char)) (product : String → Bool)

/-- `SitemapDiscovery.discover`, from a queue; `room` is the number of documents that may still be
seen. -/
def crawl (limit : ℕ) (room : ℕ) (queue seen emitted : List String) : Crawl :=
  match queue.dropWhile (· ∈ seen) with
  | [] => {}
  | url :: queue =>
    match room with
    | 0 => { error := some (traversalLimit limit) }
    | room + 1 =>
      match ask url with
      | .response status text =>
        if 400 ≤ status then
          { requests := [url], error := some (sitemapError (.response status text)) }
        else
          match documentLocations python url text with
          | none => { requests := [url], error := some (.raised "ValueError") }
          | some locations =>
            if mentionsIndex text = true then
              (crawl limit room (queue ++ locations) (seen ++ [url]) emitted).after url []
            else
              let new := newUrls emitted (locations.filter product)
              (crawl limit room queue (seen ++ [url]) (emitted ++ new)).after url new
      | reply => { requests := [url], error := some (sitemapError reply) }

/-- `SitemapDiscovery.discover`. -/
def discover (limit : ℕ) (baseUrl : String) (roots : List String) : Crawl :=
  match roots.mapM (urljoin python baseUrl) with
  | none => { error := some (.raised "ValueError") }
  | some queue => crawl python ask product limit limit queue [] []

/-! ## Webs of documents -/

/-- The documents that are served. -/
def serve (web : String → Document) (url : String) : Reply (List Char) := .response 200 (web url).text

/-- The documents that an index lists. -/
def sitemaps (web : String → Document) (url : String) : List String :=
  if (web url).index = true then (web url).urls.map String.ofList else []

/-- The URLs that a document lists which is no index. -/
def pages (web : String → Document) (url : String) : List String :=
  if (web url).index = true then [] else (web url).urls.map String.ofList

/-- The product URLs that are listed, in the order of the documents, each once. -/
def listing (web : String → Document) (documents : List String) : List String :=
  ((documents.flatMap (pages web)).filter product).eraseDups

/-- The document is bare, is written with the characters of its URLs, and joining leaves them as
they are. -/
structure Faithful (web : String → Document) (url : String) : Prop where
  bare : (web url).Bare python.isalnum
  literal : (web url).IsLiteral
  joined : ∀ location ∈ (web url).urls,
    urljoin python url (String.ofList location) = some (String.ofList location)

variable {python} {ask product}

section Faithful

variable {web : String → Document} {url : String}

theorem mapM_joined {locations : List (List Char)} {base : String}
    (h : ∀ location ∈ locations,
      urljoin python base (String.ofList location) = some (String.ofList location)) :
    (locations.mapM fun location => urljoin python base (String.ofList location)) =
      some (locations.map String.ofList) := by
  induction locations with
  | nil => rfl
  | cons location locations ih =>
    rw [List.mapM_cons, h location List.mem_cons_self,
      ih fun l hl => h l (List.mem_cons_of_mem location hl)]
    rfl

theorem Faithful.locations (h : Faithful python web url) :
    documentLocations python url (web url).text = some ((web url).urls.map String.ofList) := by
  rw [documentLocations, (Document.locationTexts_eq_iff h.bare).mpr h.literal]
  exact mapM_joined h.joined

theorem listing_snoc (product : String → Bool) (web : String → Document) (documents : List String)
    (url : String) :
    listing product web (documents ++ [url]) = listing product web documents ++
      newUrls (listing product web documents) ((pages web url).filter product) := by
  have hnew : ∀ old new : List String, newUrls old.eraseDups new = (new.removeAll old).eraseDups := by
    intro old new
    rw [newUrls, List.removeAll]
    exact congrArg _ (List.filter_congr fun x _ => by simp)
  rw [listing, listing, hnew, List.flatMap_append, List.flatMap_singleton, List.filter_append,
    List.eraseDups_append]

variable {starts : List String} {limit : ℕ}

/-- What a walk that has seen some documents finds: it ends when it has seen every one and has
yielded what they list, or there are too many. -/
def Finds (product : String → Bool) (web : String → Document) (starts : List String) (limit : ℕ)
    (seen : List String) (c : Crawl) : Prop :=
  (c.error = none ∧ Frontier starts (sitemaps web) (seen ++ c.requests) [] ∧
      (seen ++ c.requests).length ≤ limit ∧
      listing product web seen ++ c.urls = listing product web (seen ++ c.requests)) ∨
    (c.error = some (traversalLimit limit) ∧ ¬Within starts (sitemaps web) limit)

theorem Finds.done {seen : List String} (h : Frontier starts (sitemaps web) seen [])
    (hlimit : seen.length ≤ limit) : Finds product web starts limit seen {} := by
  refine .inl ⟨rfl, ?_, ?_, ?_⟩
  · rwa [List.append_nil]
  · rwa [List.append_nil]
  · rw [List.append_nil, List.append_nil]

theorem Finds.after {seen new : List String} {c : Crawl}
    (h : Finds product web starts limit (seen ++ [url]) c)
    (hnew : listing product web (seen ++ [url]) = listing product web seen ++ new) :
    Finds product web starts limit seen (c.after url new) := by
  rcases h with ⟨herror, hfrontier, hlength, hurls⟩ | h
  · have hseen : seen ++ [url] ++ c.requests = seen ++ (c.after url new).requests := by
      rw [List.append_assoc]
      rfl
    rw [hseen] at hfrontier hlength hurls
    refine .inl ⟨herror, hfrontier, hlength, ?_⟩
    rw [← hurls, hnew, List.append_assoc]
    rfl
  · exact .inr h

/-- **A walk over faithful documents finds what is listed.** -/
theorem crawl_finds
    (hfaithful : ∀ url, Reachable starts (sitemaps web) url → Faithful python web url) (room : ℕ)
    {queue seen : List String} (h : Frontier starts (sitemaps web) seen queue)
    (hroom : seen.length + room = limit) :
    Finds product web starts limit seen
      (crawl python (serve web) product limit room queue seen (listing product web seen)) := by
  induction room generalizing queue seen with
  | zero =>
    obtain ⟨hskip, hhead⟩ := h.skipAll
    rw [crawl.eq_def]
    cases hqueue : queue.dropWhile (· ∈ seen) with
    | nil => exact .done (hqueue ▸ hskip) (by omega)
    | cons url rest =>
      rw [hqueue] at hskip
      exact .inr ⟨rfl, hskip.not_within (hhead url rest hqueue) (by omega)⟩
  | succ room ih =>
    obtain ⟨hskip, hhead⟩ := h.skipAll
    rw [crawl.eq_def]
    cases hqueue : queue.dropWhile (· ∈ seen) with
    | nil => exact .done (hqueue ▸ hskip) (by omega)
    | cons url rest =>
      rw [hqueue] at hskip
      have hnext := hskip.visit (hhead url rest hqueue)
      have hurl := hfaithful url (hskip.reachable List.mem_cons_self)
      have hlength : (seen ++ [url]).length + room = limit := by
        rw [List.length_append, List.length_singleton]
        omega
      have hstatus : ¬400 ≤ 200 := by decide
      simp only [serve, if_neg hstatus, hurl.locations, hurl.bare.index]
      cases hindex : (web url).index with
      | true =>
        have hlist : listing product web (seen ++ [url]) = listing product web seen ++ [] := by
          rw [listing_snoc, pages, if_pos hindex]
          rfl
        rw [sitemaps, if_pos hindex] at hnext
        have hrest := ih hnext hlength
        rw [hlist, List.append_nil] at hrest
        rw [if_pos rfl]
        exact hrest.after hlist
      | false =>
        have hlist := listing_snoc product web seen url
        rw [sitemaps, if_neg (by simp [hindex]), List.append_nil] at hnext
        rw [pages, if_neg (by simp [hindex])] at hlist
        have hrest := ih hnext hlength
        rw [hlist] at hrest
        rw [if_neg (by decide)]
        exact hrest.after hlist

end Faithful

/-- A location without attributes or spaces. -/
def plainLocation (writing : Writing) (proper : writing.Proper) : Location where
  attributes := []
  before := []
  writing := writing
  behind := []
  attributes_start := rfl
  attributes_end := List.not_mem_nil
  spaces := fun _ h => absurd h List.not_mem_nil
  proper := proper

/-- A sitemap of one product. -/
def oneProduct (writing : Writing) (proper : writing.Proper) : Document where
  index := false
  entries := [("<urlset><url>".toList, plainLocation writing proper)]
  rest := "</url></urlset>".toList

/-- A URL written with its own characters. -/
def literally (url : String) : Writing := .escaped (url.toList.map .literal)

/-- The URL `https://shop.test/p?a=1&b=2`, written as XML requires. -/
def queried : Writing :=
  .escaped ("https://shop.test/p?a=1".toList.map .literal ++
    .reference .amp :: "b=2".toList.map .literal)

end CommerceCollector.Connectors
