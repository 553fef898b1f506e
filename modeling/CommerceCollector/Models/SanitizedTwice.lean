import CommerceCollector.Models.SanitizedNodes

/-!
# Sanitising twice

Under the same nodes the items of a list are written again as they are, and a `dict` is but for the
number behind the marker: the marker counts as one entry, so that the second pass leaves out one
entry wherever the first left out any.
-/

namespace CommerceCollector.Sanitization

open JsonText

variable {python : Python} {limits : Limits}

/-! ## What the second pass changes -/

theorem sanitize_zero (depth : ℕ) (proxyContext : Bool) (v : Value) :
    sanitize python limits 0 depth proxyContext v = (marker limits, 0) := by
  rw [sanitize.eq_def, if_pos rfl]

theorem sanitize_marker (remaining depth : ℕ) (proxyContext : Bool) :
    (sanitize python limits remaining depth proxyContext (marker limits)).1 = marker limits := by
  rw [marker, sanitize]
  split
  · rfl
  · exact congrArg Value.string (sanitizeString_marker python limits)

theorem sanitize_deep {remaining depth : ℕ} (hnodes : remaining ≠ 0) (hdepth : limits.maxDepth ≤ depth)
    (proxyContext : Bool) :
    (∀ items, (sanitize python limits remaining depth proxyContext (.array items)).1 =
        marker limits) ∧
      ∀ entries, (sanitize python limits remaining depth proxyContext (.object entries)).1 =
        marker limits := by
  refine ⟨fun items => ?_, fun entries => ?_⟩
  · rw [sanitize, if_neg hnodes]
    dsimp only
    rw [if_pos hdepth]
  · rw [sanitize, if_neg hnodes]
    dsimp only
    rw [if_pos hdepth]

theorem sanitize_array {remaining depth : ℕ} (hnodes : remaining ≠ 0)
    (hdepth : ¬limits.maxDepth ≤ depth) (proxyContext : Bool) (items : List Value) :
    (sanitize python limits remaining depth proxyContext (.array items)).1 =
      .array (closeItems limits items.length
        (sanitizeItems python limits (remaining - 1) depth proxyContext 0 items).1) := by
  rw [sanitize, if_neg hnodes]
  dsimp only
  rw [if_neg hdepth]

variable {proxyContext : Bool}

/-- The entries of a `dict` are written with the marker behind them, if their keys are apart. -/
theorem sanitize_object {remaining depth : ℕ} (hnodes : remaining ≠ 0)
    (hdepth : ¬limits.maxDepth ≤ depth) {entries : List (String × Value)}
    (hnodup : ((sanitizeEntries python limits (remaining - 1) depth proxyContext 0 entries).1.map
      Prod.fst).Nodup) :
    (sanitize python limits remaining depth proxyContext (.object entries)).1 =
      .object (closedEntries python limits (remaining - 1) depth proxyContext 0 false entries) := by
  rw [sanitize, if_neg hnodes]
  dsimp only
  rw [if_neg hdepth, assigned_nodup hnodup, closeEntries_eq, closedEntries, Nat.zero_add]

variable {remaining depth index : ℕ}

theorem sanitizeItems_over (h : limits.maxEntries ≤ index) (items : List Value) :
    (sanitizeItems python limits remaining depth proxyContext index items).1 = [] := by
  cases items with
  | nil => rw [sanitizeItems]
  | cons item items => rw [sanitizeItems, if_pos h]

theorem sanitizeItems_cons {item : Value} (hindex : ¬limits.maxEntries ≤ index)
    (hnodes : remaining ≠ 0) (items : List Value) :
    (sanitizeItems python limits remaining depth proxyContext index (item :: items)).1 =
      (sanitize python limits remaining (depth + 1) proxyContext item).1 ::
        (sanitizeItems python limits (nodesLeft python limits remaining (depth + 1) proxyContext item)
          depth proxyContext (index + 1) items).1 := by
  rw [sanitizeItems, if_neg hindex, if_neg hnodes, ← sanitize_left]

theorem length_sanitizeItems {items : List Value} (h : index ≤ limits.maxEntries) :
    index + (sanitizeItems python limits remaining depth proxyContext index items).1.length ≤
      limits.maxEntries := by
  induction items generalizing remaining index with
  | nil =>
    rw [sanitizeItems, List.length_nil]
    exact h
  | cons item items ih =>
    by_cases hover : limits.maxEntries ≤ index
    · rw [sanitizeItems_over hover, List.length_nil]
      exact h
    · by_cases hnodes : remaining = 0
      · rw [sanitizeItems, if_neg hover, if_pos hnodes, List.length_singleton]
        omega
      · rw [sanitizeItems_cons hover hnodes, List.length_cons]
        have hnext : index + 1 ≤ limits.maxEntries := Nat.lt_of_not_le hover
        have hrest : index + 1 + (sanitizeItems python limits (nodesLeft python limits remaining
            (depth + 1) proxyContext item) depth proxyContext (index + 1) items).1.length ≤
              limits.maxEntries := ih hnext
        omega

theorem keys_again {entries : List (String × Value)} {proxyContext seen : Bool}
    (hindex : index ≤ limits.maxEntries)
    (h : ReadableEntries python limits remaining depth proxyContext index seen entries) :
    (sanitizeEntries python limits remaining depth proxyContext index
        (closedEntries python limits remaining depth proxyContext index seen entries)).1.map Prod.fst =
      (sanitizeEntries python limits remaining depth proxyContext index entries).1.map Prod.fst := by
  induction entries generalizing remaining index seen with
  | nil => rw [closedEntries_nil hindex]
  | cons entry entries ih =>
    obtain ⟨key, item⟩ := entry
    by_cases hover : limits.maxEntries ≤ index
    · rw [sanitizeEntries_over hover, sanitizeEntries_over hover]
    · by_cases hnodes : remaining = 0
      · rw [hnodes, closedEntries_none hover, sanitizeEntries_none hover, sanitizeEntries_none hover]
        rfl
      · rw [ReadableEntries, if_neg hover, if_neg hnodes] at h
        obtain ⟨⟨hreading, hproxy⟩, hentry⟩ := h
        have hnext : index + 1 ≤ limits.maxEntries := Nat.lt_of_not_le hover
        by_cases hcredential : isCredentialKey proxyContext (FileCache.normalizeKey python key) = true
        · rw [if_pos hcredential] at hentry
          have hagain := hreading.trans hcredential
          rw [closedEntries_credential hover hnodes hcredential,
            sanitizeEntries_credential hover hnodes hagain,
            sanitizeEntries_credential hover hnodes hcredential, List.map_cons, List.map_cons,
            boundedKey_idem, ih hnext hentry]
        · rw [if_neg hcredential] at hentry
          have hagain : ¬isCredentialKey proxyContext
              (FileCache.normalizeKey python (boundedKey limits key)) = true := by rwa [hreading]
          have hfirst := nodesLeft_again item remaining (depth + 1) _ hentry.1
          rw [closedEntries_item hover hnodes hcredential, sanitizeEntries_item hover hnodes hagain,
            sanitizeEntries_item hover hnodes hcredential, List.map_cons, List.map_cons,
            boundedKey_idem, hproxy, hfirst, ih hnext hentry.2]

theorem count_inj {m n : ℕ} : count m = count n ↔ m = n :=
  ⟨fun h => ofNat_injective (Value.number.inj h), fun h => h ▸ rfl⟩

mutual

/-- **What is written is written again as it is if and only if the value is steady.** -/
theorem sanitize_again_iff (hpython : Regular python) : ∀ (v : Value) (remaining depth : ℕ)
    (proxyContext : Bool), Readable python limits remaining depth proxyContext v →
    ((sanitize python limits remaining depth proxyContext
        (sanitize python limits remaining depth proxyContext v).1).1 =
      (sanitize python limits remaining depth proxyContext v).1 ↔
    Steady python limits remaining depth proxyContext v)
  | .null, remaining, depth, proxyContext, _ => by
    refine iff_of_true ?_ (by rw [Steady]; trivial)
    by_cases hnodes : remaining = 0
    · rw [hnodes, sanitize_zero, sanitize_zero]
    · rw [sanitize, if_neg hnodes]
      dsimp only
      rw [sanitize, if_neg hnodes]
  | .bool b, remaining, depth, proxyContext, _ => by
    refine iff_of_true ?_ (by rw [Steady]; trivial)
    by_cases hnodes : remaining = 0
    · rw [hnodes, sanitize_zero, sanitize_zero]
    · rw [sanitize, if_neg hnodes]
      dsimp only
      rw [sanitize, if_neg hnodes]
  | .number n, remaining, depth, proxyContext, _ => by
    refine iff_of_true ?_ (by rw [Steady]; trivial)
    by_cases hnodes : remaining = 0
    · rw [hnodes, sanitize_zero, sanitize_zero]
    · rw [sanitize, if_neg hnodes]
      dsimp only
      by_cases hfinite : isFinite n = true
      · rw [if_pos hfinite, sanitize, if_neg hnodes]
        exact if_pos hfinite
      · rw [if_neg hfinite, sanitize, if_neg hnodes]
  | .string s, remaining, depth, proxyContext, _ => by
    rw [Steady]
    by_cases hnodes : remaining = 0
    · rw [hnodes, sanitize_zero, sanitize_zero]
      exact iff_of_true rfl (.inl rfl)
    · rw [sanitize, if_neg hnodes]
      dsimp only
      rw [sanitize, if_neg hnodes, or_iff_right hnodes, Value.string.injEq]
      exact sanitizeString_idem_iff hpython s
  | .array items, remaining, depth, proxyContext, h => by
    rw [Steady]
    by_cases hnodes : remaining = 0
    · rw [hnodes, sanitize_zero, sanitize_zero]
      exact iff_of_true rfl (.inl rfl)
    · by_cases hdepth : limits.maxDepth ≤ depth
      · rw [(sanitize_deep hnodes hdepth proxyContext).1, sanitize_marker]
        exact iff_of_true rfl (.inr (.inl hdepth))
      · rw [Readable] at h
        have hitems := (h.resolve_left hnodes).resolve_left hdepth
        rw [or_iff_right hnodes, or_iff_right hdepth, sanitize_array hnodes hdepth,
          sanitize_array hnodes hdepth, Value.array.injEq]
        have hlimit : ∀ items : List Value, (sanitizeItems python limits (remaining - 1) depth
            proxyContext 0 items).1.length ≤ limits.maxEntries := by
          intro items
          rw [← Nat.zero_add (sanitizeItems _ _ _ _ _ _ items).1.length]
          exact length_sanitizeItems (Nat.zero_le _)
        by_cases hclose : limits.maxEntries < items.length ∧ (sanitizeItems python limits (remaining - 1)
            depth proxyContext 0 items).1.getLast?.any isTruncated = false
        · have hfull := items_full (Nat.zero_le _) (by rw [Nat.zero_add]; exact hclose.1) hclose.2
          have hagain := sanitizeItems_again_iff hpython items (remaining - 1) depth proxyContext 0
            [.string truncated] hitems (.inr hfull)
          have hclosed : closeItems limits items.length (sanitizeItems python limits (remaining - 1)
              depth proxyContext 0 items).1 = (sanitizeItems python limits (remaining - 1) depth
                proxyContext 0 items).1 ++ [.string truncated] := if_pos hclose
          rw [hclosed, ← hagain, List.length_append, List.length_singleton]
          exact closeItems_full_iff (by omega) hclose.2 (hlimit _)
        · have hagain := sanitizeItems_again_iff hpython items (remaining - 1) depth proxyContext 0 []
            hitems (.inl rfl)
          have hclosed : closeItems limits items.length (sanitizeItems python limits (remaining - 1)
              depth proxyContext 0 items).1 = (sanitizeItems python limits (remaining - 1) depth
                proxyContext 0 items).1 := if_neg hclose
          rw [List.append_nil] at hagain
          rw [hclosed, ← hagain, closeItems, if_neg fun hboth => absurd (hlimit items)
            (Nat.not_le.mpr hboth.1)]
  | .object entries, remaining, depth, proxyContext, h => by
    rw [Steady]
    by_cases hnodes : remaining = 0
    · rw [hnodes, sanitize_zero, sanitize_zero]
      exact iff_of_true rfl (.inl rfl)
    · by_cases hdepth : limits.maxDepth ≤ depth
      · rw [(sanitize_deep hnodes hdepth proxyContext).2, sanitize_marker]
        exact iff_of_true rfl (.inr (.inl hdepth))
      · rw [Readable] at h
        obtain ⟨hnodup, hentries⟩ := (h.resolve_left hnodes).resolve_left hdepth
        have hkeys := keys_nodup hentries hnodup
        rw [or_iff_right hnodes, or_iff_right hdepth, sanitize_object hnodes hdepth hkeys,
          sanitize_object hnodes hdepth (by rwa [keys_again (Nat.zero_le _) hentries]),
          Value.object.injEq]
        exact sanitizeEntries_again_iff hpython entries (remaining - 1) depth proxyContext 0 false
          (Nat.zero_le _) hentries

theorem sanitizeItems_again_iff (hpython : Regular python) : ∀ (items : List Value)
    (remaining depth : ℕ) (proxyContext : Bool) (index : ℕ) (tail : List Value),
    ReadableItems python limits remaining depth proxyContext index items →
    (tail = [] ∨ index + (sanitizeItems python limits remaining depth proxyContext index
      items).1.length = limits.maxEntries) →
    ((sanitizeItems python limits remaining depth proxyContext index
        ((sanitizeItems python limits remaining depth proxyContext index items).1 ++ tail)).1 =
      (sanitizeItems python limits remaining depth proxyContext index items).1 ↔
    SteadyItems python limits remaining depth proxyContext index items)
  | [], remaining, depth, proxyContext, index, tail, _, htail => by
    rw [sanitizeItems] at htail
    rw [SteadyItems]
    refine iff_of_true ?_ trivial
    rcases htail with rfl | hfull
    · rfl
    · have hover : limits.maxEntries ≤ index := by
        rw [List.length_nil] at hfull
        omega
      rw [sanitizeItems_over hover, sanitizeItems_over hover]
  | item :: items, remaining, depth, proxyContext, index, tail, h, htail => by
    rw [SteadyItems]
    by_cases hover : limits.maxEntries ≤ index
    · rw [sanitizeItems_over hover, sanitizeItems_over hover]
      exact iff_of_true rfl (.inl hover)
    · by_cases hnodes : remaining = 0
      · refine iff_of_true ?_ (.inr (.inl hnodes))
        rw [hnodes, sanitizeItems, if_neg hover, if_pos rfl, List.cons_append, sanitizeItems,
          if_neg hover, if_pos rfl]
      · rw [ReadableItems] at h
        obtain ⟨hitem, hitems⟩ := (h.resolve_left hover).resolve_left hnodes
        rw [sanitizeItems_cons hover hnodes, List.length_cons] at htail
        rw [or_iff_right hover, or_iff_right hnodes, sanitizeItems_cons hover hnodes,
          List.cons_append, sanitizeItems_cons hover hnodes, List.cons.injEq,
          nodesLeft_again item remaining (depth + 1) proxyContext hitem]
        exact and_congr (sanitize_again_iff hpython item remaining (depth + 1) proxyContext hitem)
          (sanitizeItems_again_iff hpython items _ depth proxyContext (index + 1) tail hitems
            (htail.imp_right fun hfull => by omega))

/-- The entries of a `dict`, with the marker behind them. -/
theorem sanitizeEntries_again_iff (hpython : Regular python) : ∀ (entries : List (String × Value))
    (remaining depth : ℕ) (proxyContext : Bool) (index : ℕ) (seen : Bool),
    index ≤ limits.maxEntries →
    ReadableEntries python limits remaining depth proxyContext index seen entries →
    (closedEntries python limits remaining depth proxyContext index seen
        (closedEntries python limits remaining depth proxyContext index seen entries) =
      closedEntries python limits remaining depth proxyContext index seen entries ↔
    SteadyEntries python limits remaining depth proxyContext index seen entries)
  | [], remaining, depth, proxyContext, index, seen, hindex, _ => by
    rw [SteadyEntries, closedEntries_nil hindex, closedEntries_nil hindex]
    exact iff_of_true rfl trivial
  | (key, item) :: entries, remaining, depth, proxyContext, index, seen, hindex, h => by
    rw [SteadyEntries]
    by_cases hover : limits.maxEntries ≤ index
    · have hfull := Nat.le_antisymm hindex hover
      rw [if_pos hover, closedEntries_over hfull]
      cases seen with
      | true =>
        rw [if_pos rfl, closedEntries_nil hindex]
        exact iff_of_true rfl (.inl rfl)
      | false =>
        rw [if_neg Bool.false_ne_true, closedEntries_over hfull, if_neg Bool.false_ne_true,
          or_iff_right Bool.false_ne_true, List.cons.injEq, Prod.mk.injEq, count_inj,
          List.length_nil, ← List.length_eq_zero_iff]
        simp
    · rw [if_neg hover]
      by_cases hnodes : remaining = 0
      · rw [if_pos hnodes, hnodes, closedEntries_none hover, closedEntries_none hover,
          List.cons.injEq, Prod.mk.injEq, count_inj, List.length_nil, ← List.length_eq_zero_iff]
        simp
      · rw [ReadableEntries, if_neg hover, if_neg hnodes] at h
        obtain ⟨⟨hreading, hproxy⟩, hentry⟩ := h
        have hnext : index + 1 ≤ limits.maxEntries := Nat.lt_of_not_le hover
        rw [if_neg hnodes]
        by_cases hcredential : isCredentialKey proxyContext (FileCache.normalizeKey python key) = true
        · rw [if_pos hcredential] at hentry ⊢
          have hagain := hreading.trans hcredential
          rw [closedEntries_credential hover hnodes hcredential,
            closedEntries_credential hover hnodes hagain, boundedKey_idem, List.cons.injEq]
          rw [← sanitizeEntries_again_iff hpython entries remaining depth proxyContext (index + 1) _
            hnext hentry]
          exact and_iff_right rfl
        · rw [if_neg hcredential] at hentry ⊢
          have hagain : ¬isCredentialKey proxyContext
              (FileCache.normalizeKey python (boundedKey limits key)) = true := by rwa [hreading]
          have hfirst := nodesLeft_again item remaining (depth + 1) _ hentry.1
          rw [closedEntries_item hover hnodes hcredential, closedEntries_item hover hnodes hagain,
            boundedKey_idem, hproxy, hfirst, List.cons.injEq, Prod.mk.injEq]
          refine and_congr ((and_iff_right rfl).trans ?_) ?_
          · exact sanitize_again_iff hpython item remaining (depth + 1) _ hentry.1
          · exact sanitizeEntries_again_iff hpython entries _ depth proxyContext (index + 1) _ hnext
              hentry.2

end

end CommerceCollector.Sanitization
