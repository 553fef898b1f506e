import CommerceCollector.Foundation.RoundRobin
import CommerceCollector.Proxy.StaticPool

/-!
# Rounds of a static pool

`_select_weighted` of `proxy/static.py`, called again and again for the same candidates, is a smooth
weighted round-robin over their routes.
-/

namespace CommerceCollector.StaticProxyPool

/-! ## Scores -/

/-- The score of a route for some candidates. -/
def score (s : StaticProxyPool) (candidates : List StaticRoute) (route : StaticRoute) : ℤ :=
  let signature := candidates.map StaticRoute.key
  (((s.routingScores.lookup signature).getD (signature.map fun key => (key, 0))).lookup route.key).getD 0

/-- The pool after some selections. -/
def rounds (s : StaticProxyPool) (first : StaticRoute) (rest : List StaticRoute) : ℕ → StaticProxyPool
  | 0 => s
  | n + 1 => ((rounds s first rest n).selectWeighted first rest).1

/-- The route that a selection takes. -/
def pick (s : StaticProxyPool) (first : StaticRoute) (rest : List StaticRoute) (n : ℕ) : StaticRoute :=
  ((s.rounds first rest n).selectWeighted first rest).2

/-! ## One selection -/

theorem best_spec (scored : StaticRoute × ℤ) (rest : List (StaticRoute × ℤ)) :
    best scored rest ∈ scored :: rest ∧ ∀ entry ∈ scored :: rest, entry.2 ≤ (best scored rest).2 := by
  induction rest generalizing scored with
  | nil => exact ⟨List.mem_singleton.mpr rfl, fun entry h => by rw [List.mem_singleton.mp h]; rfl⟩
  | cons next rest ih =>
    rw [best]
    split_ifs with hlt
    · obtain ⟨hmem, hbest⟩ := ih next
      refine ⟨List.mem_cons_of_mem _ hmem, List.forall_mem_cons.mpr ⟨?_, hbest⟩⟩
      exact hlt.le.trans (hbest next List.mem_cons_self)
    · obtain ⟨hmem, hbest⟩ := ih scored
      obtain ⟨hscored, hrest⟩ := List.forall_mem_cons.mp hbest
      refine ⟨List.mem_cons.mpr ((List.mem_cons.mp hmem).imp_right (List.mem_cons_of_mem _)), ?_⟩
      exact List.forall_mem_cons.mpr ⟨hscored, List.forall_mem_cons.mpr
        ⟨(not_lt.mp hlt).trans hscored, hrest⟩⟩

theorem lookup_map_key {candidates : List StaticRoute} (hkeys : (candidates.map StaticRoute.key).Nodup)
    (f : StaticRoute → ℤ) {route : StaticRoute} (hroute : route ∈ candidates) :
    (candidates.map fun r => (r.key, f r)).lookup route.key = some (f route) := by
  induction candidates with
  | nil => exact absurd hroute List.not_mem_nil
  | cons candidate candidates ih =>
    rw [List.map_cons, List.nodup_cons] at hkeys
    rw [List.map_cons, List.lookup_cons]
    rcases List.mem_cons.mp hroute with rfl | hroute
    · rw [beq_self_eq_true]
    · have hne : route.key ≠ candidate.key := fun h => hkeys.1 (h ▸ List.mem_map_of_mem hroute)
      rw [beq_eq_false_iff_ne.mpr hne]
      exact ih hkeys.2 hroute

variable {first : StaticRoute} {rest : List StaticRoute}

theorem selectWeighted_congr {s s' : StaticProxyPool}
    (h : ∀ route ∈ first :: rest, s.score (first :: rest) route = s'.score (first :: rest) route) :
    (s.selectWeighted first rest).2 = (s'.selectWeighted first rest).2 := by
  obtain ⟨hfirst, hrest⟩ := List.forall_mem_cons.mp h
  have hscored : rest.map (fun route => (route, s.score (first :: rest) route + (route.weight : ℕ))) =
      rest.map fun route => (route, s'.score (first :: rest) route + (route.weight : ℕ)) :=
    List.map_congr_left fun route hroute => by rw [hrest route hroute]
  change (best (first, s.score (first :: rest) first + (first.weight : ℕ)) (rest.map _)).1 =
    (best (first, s'.score (first :: rest) first + (first.weight : ℕ)) (rest.map _)).1
  rw [hfirst]
  exact congrArg (fun scored => (best _ scored).1) hscored

/-- **A selection is one of smooth weighted round-robin.** -/
theorem selectWeighted_selects (s : StaticProxyPool)
    (hkeys : ((first :: rest).map StaticRoute.key).Nodup) :
    RoundRobin.Selects (first :: rest).toFinset (fun route => (route.weight : ℕ))
      (s.score (first :: rest)) (s.selectWeighted first rest).2
      ((s.selectWeighted first rest).1.score (first :: rest)) := by
  obtain ⟨hmem, hbest⟩ := best_spec (first, s.score (first :: rest) first + (first.weight : ℕ))
    (rest.map fun route => (route, s.score (first :: rest) route + (route.weight : ℕ)))
  rw [← List.map_cons (f := fun route => (route, s.score (first :: rest) route + (route.weight : ℕ)))]
    at hmem hbest
  obtain ⟨selected, hselected, heq⟩ := List.mem_map.mp hmem
  rw [← heq] at hbest
  have hpick : (s.selectWeighted first rest).2 = selected := congrArg Prod.fst heq.symm
  have htotal : RoundRobin.total (first :: rest).toFinset (fun route => (route.weight : ℕ)) =
      ((first :: rest).map fun route => (route.weight : ℕ)).sum :=
    List.sum_toFinset _ hkeys.of_map
  rw [hpick]
  refine ⟨List.mem_toFinset.mpr hselected, fun j hj => ?_, fun j hj => ?_⟩
  · exact hbest _ (List.mem_map_of_mem (List.mem_toFinset.mp hj))
  · have hj := List.mem_toFinset.mp hj
    have hlookup : (s.selectWeighted first rest).1.score (first :: rest) j =
        if j.key = selected.key then s.score (first :: rest) j + (j.weight : ℕ) -
          ((((first :: rest).map fun route => (route.weight : ℕ)).sum : ℕ) : ℤ)
        else s.score (first :: rest) j + (j.weight : ℕ) := by
      rw [← hpick]
      unfold score selectWeighted
      dsimp only
      rw [List.lookup_cons_self, Option.getD_some, List.map_map]
      exact (congrArg (Option.getD · 0) (lookup_map_key hkeys _ hj)).trans rfl
    rw [hlookup, htotal]
    by_cases hsame : j = selected
    · rw [if_pos (congrArg _ hsame), if_pos hsame]
    · rw [if_neg fun h => hsame (List.inj_on_of_nodup_map hkeys hj hselected h), if_neg hsame, sub_zero]

/-! ## Rounds -/

/-- **Smooth weighted round-robin is exact**: from scores of zero, the scores always sum to zero;
any selections in a row, as many as the weights sum to, take each route as often as its weight says;
and after each multiple of that number all scores are zero. -/
theorem select_weighted_exact (s : StaticProxyPool) (first : StaticRoute) (rest : List StaticRoute)
    (hkeys : ((first :: rest).map StaticRoute.key).Nodup)
    (hzero : ∀ route ∈ first :: rest, s.score (first :: rest) route = 0) :
    let weights := ((first :: rest).map fun route => (route.weight : ℕ)).sum
    (∀ n, ((first :: rest).map ((s.rounds first rest n).score (first :: rest))).sum = 0) ∧
    (∀ t, ∀ route ∈ first :: rest,
      ((List.range weights).map fun i => s.pick first rest (t + i)).count route = route.weight) ∧
    ∀ m, ∀ route ∈ first :: rest, (s.rounds first rest (m * weights)).score (first :: rest) route = 0 := by
  intro weights
  have hnodup : (first :: rest).Nodup := hkeys.of_map
  have htotal : RoundRobin.total (first :: rest).toFinset (fun route => (route.weight : ℕ)) = weights :=
    List.sum_toFinset _ hnodup
  have hrun : ∀ n, RoundRobin.Selects (first :: rest).toFinset (fun route => (route.weight : ℕ))
      ((s.rounds first rest n).score (first :: rest)) (s.pick first rest n)
      ((s.rounds first rest (n + 1)).score (first :: rest)) := fun n => selectWeighted_selects _ hkeys
  have hchoice : ∀ m n, (∀ route ∈ (first :: rest).toFinset,
      (s.rounds first rest m).score (first :: rest) route =
        (s.rounds first rest n).score (first :: rest) route) →
      s.pick first rest m = s.pick first rest n := fun m n h =>
    selectWeighted_congr fun route hroute => h route (List.mem_toFinset.mpr hroute)
  have hweight : ∀ route ∈ (first :: rest).toFinset, 0 < (route.weight : ℕ) := fun route _ => route.weight.pos
  have hstart : ∀ route ∈ (first :: rest).toFinset,
      (s.rounds first rest 0).score (first :: rest) route = 0 := fun route hroute =>
    hzero route (List.mem_toFinset.mp hroute)
  refine ⟨fun n => ?_, fun t route hroute => ?_, fun m route hroute => ?_⟩
  · rw [← List.sum_toFinset _ hnodup]
    exact RoundRobin.run_sum hrun (Finset.sum_eq_zero hstart) n
  · have hwindow := RoundRobin.exact_window hrun hchoice hweight hstart t route
      (List.mem_toFinset.mpr hroute)
    rwa [htotal] at hwindow
  · have hscore := RoundRobin.zero_of_dvd hrun hchoice hweight hstart m route
      (List.mem_toFinset.mpr hroute)
    rwa [htotal] at hscore

/-- A route of a provider. -/
def routeOf (provider : String) (weight : ℕ+) : StaticRoute :=
  { endpoint := { provider := provider, endpointId := "1", kind := .residential }, weight := weight }

/-- In any five selections in a row a route of weight 3 beside one of weight 2 is taken three
times. -/
theorem select_weighted_exact_two : ((List.range 5).map fun i =>
    pick { routes := [routeOf "a" 3, routeOf "b" 2] } (routeOf "a" 3) [routeOf "b" 2] (7 + i)).count
      (routeOf "a" 3) = 3 :=
  (select_weighted_exact { routes := [routeOf "a" 3, routeOf "b" 2] } (routeOf "a" 3) [routeOf "b" 2]
    (by decide) (by decide)).2.1 7 (routeOf "a" 3) List.mem_cons_self

end CommerceCollector.StaticProxyPool
