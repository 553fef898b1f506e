import CommerceCollector.Proxy.LeaseOwnership

/-!
# Runs of the routed transport

The invariant holds after every run.  What the shared state leaves open is owed by a suspended task:
a route that is not checked in, a lease that is out and not in use, and, once `aclose` has begun and
as long as none gives up waiting, a lease in use.
-/

namespace CommerceCollector

open Relational Tasks

namespace RoutedTransport

variable {waits fresh : Prop} {s s' : RoutedTransport} {t : RoutedTask} {next : Option RoutedTask}

/-! ## What is left open -/

/-- A step hands what it leaves open to the task that is left. -/
def Hands (m : RoutedTransport → ℕ) (w : RoutedTask → ℕ) (s : RoutedTransport) (t : RoutedTask)
    (s' : RoutedTransport) (next : Option RoutedTask) : Prop :=
  m s' ≤ (next.map w).getD 0 ∨ m s' + w t ≤ m s + (next.map w).getD 0

theorem Hands.trans {m : RoutedTransport → ℕ} {w : RoutedTask → ℕ} {s₁ : RoutedTransport}
    {t₁ : RoutedTask} (h₁ : Hands m w s t s₁ (some t₁)) (h₂ : Hands m w s₁ t₁ s' next) :
    Hands m w s t s' next := by
  unfold Hands at *
  simp only [Option.map_some, Option.getD_some] at h₁
  omega

theorem Hands.of_le {m : RoutedTransport → ℕ} {w : RoutedTask → ℕ} (hm : m s' ≤ m s)
    (hw : w t ≤ (next.map w).getD 0) : Hands m w s t s' next :=
  Or.inr (Nat.add_le_add hm hw)

/-- The route is checked out. -/
def routeOpen (id : ℕ) (s : RoutedTransport) : ℕ :=
  (s.attempts.any fun a => a.route.id == id && a.checkedIn == 0).toNat

/-- The task has the route. -/
def hasRoute (id : ℕ) (t : RoutedTask) : ℕ := (t.route?.any fun route => route.id == id).toNat

/-- The lease is out and not in use. -/
def leaseOpen (lease : ℕ) (s : RoutedTransport) : ℕ :=
  (decide (lease < s.leases) && !decide (lease ∈ s.replaced ++ s.released) &&
    decide (s.lease ≠ some lease)).toNat

/-- The task has the lease in its hands. -/
def hasLease (lease : ℕ) (t : RoutedTask) : ℕ := (decide (t.lease? = some lease)).toNat

/-- The transport is closed and not empty. -/
def closeOpen (s : RoutedTransport) : ℕ := (s.closed && (s.lease.isSome || s.transitioning)).toNat

/-- The task is an `aclose` under way. -/
def isClose (t : RoutedTask) : ℕ := t.closes.toNat

theorem hasRoute_of_none {t : RoutedTask} (id : ℕ) (h : t.route? = none) : hasRoute id t = 0 := by
  simp [hasRoute, h]

theorem hasLease_of_none {t : RoutedTask} (lease : ℕ) (h : t.lease? = none) :
    hasLease lease t = 0 := by
  simp [hasLease, h]

theorem of_route {t : RoutedTask} {route : CheckedOutRoute} (h : t.route? = some route) :
    t.lease? = none ∧ t.closes = false := by
  cases t <;> first | exact ⟨rfl, rfl⟩ | cases h

theorem leaseOpen_eq_one {lease : ℕ} : leaseOpen lease s = 1 ↔ s.Out lease ∧ s.lease ≠ some lease := by
  simp [leaseOpen, Out]

theorem leaseOpen_le {lease : ℕ}
    (h : s'.Out lease → s'.lease ≠ some lease → s.Out lease ∧ s.lease ≠ some lease) :
    leaseOpen lease s' ≤ leaseOpen lease s := by
  refine Bool.toNat_le_toNat (Bool.le_iff_imp.mpr fun hopen => ?_)
  obtain ⟨hout, huse⟩ := leaseOpen_eq_one.mp (congrArg Bool.toNat hopen)
  have hold : leaseOpen lease s = 1 := leaseOpen_eq_one.mpr (h hout huse)
  exact Bool.toNat_eq_one.mp hold

theorem routeOpen_le {id : ℕ}
    (h : ∀ a' ∈ s'.attempts, a'.route.id = id → a'.checkedIn = 0 →
      ∃ a ∈ s.attempts, a.route.id = id ∧ a.checkedIn = 0) :
    routeOpen id s' ≤ routeOpen id s := by
  refine Bool.toNat_le_toNat (Bool.le_iff_imp.mpr fun hopen => ?_)
  obtain ⟨a', ha', heq⟩ := List.any_eq_true.mp hopen
  simp only [Bool.and_eq_true, beq_iff_eq] at heq
  obtain ⟨a, ha, hid, hin⟩ := h a' ha' heq.1 heq.2
  exact List.any_eq_true.mpr ⟨a, ha, by simp [hid, hin]⟩

/-- **A route that is checked out is handed on until it is checked in.** -/
theorem RouteStep.hands_route (h : RouteStep waits fresh s t s' next) (id : ℕ) :
    Hands (routeOpen id) (hasRoute id) s t s' next := by
  have hnone : ∀ {s s' : RoutedTransport} {t : RoutedTask} {next : Option RoutedTask},
      s'.attempts = s.attempts → t.route? = none → Hands (routeOpen id) (hasRoute id) s t s' next := by
    intro s s' t next hattempts hroute
    refine .of_le (by simp [routeOpen, hattempts]) ?_
    rw [hasRoute_of_none id hroute]
    exact Nat.zero_le _
  have hsame : ∀ {s s' : RoutedTransport} {t t' : RoutedTask},
      routeOpen id s' ≤ routeOpen id s → t'.route? = t.route? →
      Hands (routeOpen id) (hasRoute id) s t s' (some t') := by
    intro s s' t t' hopen hroute
    refine .of_le hopen ?_
    simp [hasRoute, hroute]
  induction h with
  | idle hidle hnext => exact hnone rfl hidle.1
  | wait | giveUp _ | closeEmpty _ _ | closeLease _ _ _ => exact hnone rfl rfl
  | pass hroute hroute' _ => exact hsame le_rfl (hroute'.trans hroute.symm)
  | @record s t t' route f hroute hroute' hkeep hkept _ =>
    refine hsame (routeOpen_le fun a' ha' hid hin => ?_) (hroute'.trans hroute.symm)
    obtain ⟨a, ha, rfl⟩ := mem_update.mp ha'
    split at hid
    · exact ⟨a, ha, hkeep a ▸ hid, (hkept a).symm.trans (by simp_all)⟩
    · exact ⟨a, ha, hid, by simp_all⟩
  | @checkIn s t next route hroute _ hnext =>
    by_cases hid : route.id = id
    · have hzero : routeOpen id (s.checkIn route) = 0 := by
        unfold routeOpen RoutedTransport.checkIn RoutedTransport.record update
        simp only [List.any_map, Bool.toNat_eq_zero, List.any_eq_false, Function.comp_apply]
        intro a _
        split <;> simp_all
      exact Or.inl (hzero.trans_le (Nat.zero_le _))
    · have hother : hasRoute id t = 0 := by simp [hasRoute, hroute, hid]
      refine .of_le (routeOpen_le fun a' ha' hid' hin => ?_) (hother.trans_le (Nat.zero_le _))
      obtain ⟨a, ha, rfl⟩ := mem_update.mp ha'
      split at hin
      · exact absurd hin (Nat.succ_ne_zero _)
      · exact ⟨a, ha, by simp_all, hin⟩
  | @checkOut s t t' lease hidle _ _ _ _ hroute _ =>
    by_cases hid : s.attempts.length = id
    · refine Or.inl ?_
      have hone : hasRoute id t' = 1 := by simp [hasRoute, hroute, nextRoute, hid]
      simp only [Option.map_some, Option.getD_some, hone]
      exact Bool.toNat_le _
    · refine .of_le (routeOpen_le fun a ha hid' hin => ?_)
        ((hasRoute_of_none id hidle.1).trans_le (Nat.zero_le _))
      rcases List.mem_append.mp ha with hold | hnew
      · exact ⟨a, hold, hid', hin⟩
      · rw [List.mem_singleton.mp hnew] at hid'
        exact absurd hid' hid
  | acquire hidle _ _ _ _ | replaceRoute hidle _ _ _ _ _ | close hidle => exact hnone rfl hidle.1
  | request _ _ _ _ => exact hsame le_rfl rfl
  | release hlease _ _ _ _ _ => exact hnone rfl (route_of_transits (transits_of_lease hlease))
  | rotate | replaced | install | unbuilt => exact hnone rfl rfl
  | leave hmine _ => exact hnone rfl (route_of_transits hmine)
  | trans _ _ ih₁ ih₂ => exact ih₁.trans ih₂

/-- **A lease that is out and not in use is handed on until it is given back.** -/
theorem RouteStep.hands_lease (h : RouteStep waits fresh s t s' next) (hs : s.Sound)
    (ht : s.Relies t) (lease : ℕ) : Hands (leaseOpen lease) (hasLease lease) s t s' next := by
  have hnone : ∀ {s s' : RoutedTransport} {t : RoutedTask} {next : Option RoutedTask},
      leaseOpen lease s' ≤ leaseOpen lease s → t.lease? = none →
      Hands (leaseOpen lease) (hasLease lease) s t s' next := by
    intro s s' t next hopen hlease
    refine .of_le hopen ?_
    rw [hasLease_of_none lease hlease]
    exact Nat.zero_le _
  -- A lease that is given back was in the hands of the task, and it is not in use.
  have hback : ∀ {s s' : RoutedTransport} {t : RoutedTask} {next : Option RoutedTask} {l : ℕ},
      s.Sound → s.Relies t → t.lease? = some l → ¬s'.Out l →
      (∀ l', s'.Out l' → s'.lease ≠ some l' → s.Out l' ∧ s.lease ≠ some l') →
      Hands (leaseOpen lease) (hasLease lease) s t s' next := by
    intro s s' t next l hs ht hl hnot hother
    by_cases heq : l = lease
    · subst heq
      have hzero : leaseOpen l s' = 0 := by
        by_contra hne
        have hle : leaseOpen l s' ≤ 1 := Bool.toNat_le _
        exact hnot (leaseOpen_eq_one.mp (by omega)).1
      exact Or.inl (hzero.trans_le (Nat.zero_le _))
    · refine .of_le (leaseOpen_le (hother lease)) ?_
      have hmine : hasLease lease t = 0 := by simp [hasLease, hl, heq]
      exact hmine.trans_le (Nat.zero_le _)
  induction h with
  | idle hidle _ => exact hnone le_rfl hidle.2.2.1
  | wait | giveUp _ | closeEmpty _ _ => exact hnone le_rfl rfl
  | pass hroute _ _ => exact hnone le_rfl (of_route hroute).1
  | record hroute _ _ _ _ => exact hnone le_rfl (of_route hroute).1
  | checkIn hroute _ _ => exact hnone le_rfl (of_route hroute).1
  | checkOut hidle _ _ _ _ _ _ => exact hnone le_rfl hidle.2.2.1
  | acquire hidle _ _ hlease _ =>
    exact hnone (leaseOpen_le fun hout _ => ⟨hout, by simp [hlease]⟩) hidle.2.2.1
  | @replaceRoute s t user old hidle _ _ hlease _ _ =>
    by_cases heq : old = lease
    · refine Or.inl ?_
      have hone : hasLease lease (.closingOld user old (s.rotationOf old)) = 1 := by
        simp [hasLease, RoutedTask.lease?, heq]
      simp only [Option.map_some, Option.getD_some, hone]
      exact Bool.toNat_le _
    · exact hnone (leaseOpen_le fun hout _ => ⟨hout, by simp [hlease, heq]⟩) hidle.2.2.1
  | request _ _ _ _ => exact .of_le le_rfl le_rfl
  | close hidle => exact hnone le_rfl hidle.2.2.1
  | @closeLease s old _ _ hlease =>
    by_cases heq : old = lease
    · refine Or.inl ?_
      have hone : hasLease lease (.closingProxy old) = 1 := by
        simp [hasLease, RoutedTask.lease?, heq]
      simp only [Option.map_some, Option.getD_some, hone]
      exact Bool.toNat_le _
    · exact hnone (leaseOpen_le fun hout _ => ⟨hout, by simp [hlease, heq]⟩) rfl
  | @release s t t' l hl _ _ _ _ _ =>
    have hfree := hs.between (ht.transits (transits_of_lease hl))
    refine hback hs ht hl (fun h => h.2 (List.mem_append_right _ (List.mem_cons_self ..)))
      fun l' hout _ => ⟨⟨hout.1, fun h => hout.2 ?_⟩, by simp [hfree]⟩
    exact (List.perm_middle).mem_iff.mpr (List.mem_cons_of_mem _ h)
  | rotate => exact .of_le le_rfl le_rfl
  | @replaced s user l =>
    have hfree := hs.between (ht.transits rfl)
    exact hback hs ht rfl (fun h => h.2 (List.mem_cons_self ..))
      fun l' hout _ => ⟨⟨hout.1, fun h => hout.2 (List.mem_cons_of_mem _ h)⟩, by simp [hfree]⟩
  | @install s user =>
    have hfree := hs.between (ht.transits rfl)
    refine hnone (leaseOpen_le fun hout huse => ⟨⟨?_, hout.2⟩, by simp [hfree]⟩) rfl
    have hne : lease ≠ s.leases := fun h => huse (by rw [h]; rfl)
    have hlt : lease < s.leases + 1 := hout.1
    omega
  | @unbuilt s user error =>
    have hfree := hs.between (ht.transits rfl)
    refine hnone (leaseOpen_le fun hout _ => ⟨⟨?_, fun h => hout.2 ?_⟩, by simp [hfree]⟩) rfl
    · have hne : lease ≠ s.leases := by
        rintro rfl
        exact hout.2 (List.mem_append_right _ (List.mem_cons_self ..))
      have hlt : lease < s.leases + 1 := hout.1
      omega
    · exact (List.perm_middle).mem_iff.mpr (List.mem_cons_of_mem _ h)
  | leave _ hlease => exact hnone le_rfl hlease
  | trans h₁ h₂ ih₁ ih₂ =>
    have hkept := h₁.kept hs ht
    exact (ih₁ hs ht).trans (ih₂ hkept.sound (hkept.own _ rfl))

/-- **A lease in use is handed on to `aclose`,** as long as none gives up waiting. -/
theorem RouteStep.hands_close (h : RouteStep waits fresh s t s' next) (hwaits : waits)
    (hs : s.Sound) (ht : s.Relies t) : Hands closeOpen isClose s t s' next := by
  have hzero : ∀ {s s' : RoutedTransport} {t : RoutedTask} {next : Option RoutedTask},
      s'.closed = false ∨ s'.lease = none ∧ s'.transitioning = false →
      Hands closeOpen isClose s t s' next := by
    rintro s s' t next (hopen | ⟨hlease, htransitioning⟩)
    · exact Or.inl (by simp [closeOpen, hopen])
    · exact Or.inl (by simp [closeOpen, hlease, htransitioning])
  have hsame : ∀ {s s' : RoutedTransport} {t : RoutedTask} {next : Option RoutedTask},
      s'.closed = s.closed → (s'.lease.isSome = true ∨ s'.transitioning = true →
        s.lease.isSome = true ∨ s.transitioning = true) → t.closes = false →
      Hands closeOpen isClose s t s' next := by
    intro s s' t next hclosed hopen hcloses
    refine .of_le (Bool.toNat_le_toNat (Bool.le_iff_imp.mpr fun h => ?_))
      (by simp [isClose, hcloses])
    simp only [Bool.and_eq_true, Bool.or_eq_true] at h ⊢
    exact ⟨hclosed ▸ h.1, hopen h.2⟩
  have hnext : ∀ {s s' : RoutedTransport} {t t' : RoutedTask}, t'.closes = true →
      Hands closeOpen isClose s t s' (some t') := by
    intro s s' t t' hcloses
    refine Or.inl ?_
    simp only [Option.map_some, Option.getD_some, isClose, hcloses]
    exact Bool.toNat_le _
  induction h with
  | idle hidle _ => exact hsame rfl id hidle.2.2.2
  | wait => exact hnext rfl
  | giveUp h => exact absurd hwaits h
  | pass hroute _ _ => exact hsame rfl id (of_route hroute).2
  | record hroute _ _ _ _ => exact hsame rfl id (of_route hroute).2
  | checkIn hroute _ _ => exact hsame rfl id (of_route hroute).2
  | checkOut hidle _ _ _ _ _ _ => exact hsame rfl id hidle.2.2.2
  | acquire _ hclosed _ _ _ => exact hzero (Or.inl hclosed)
  | replaceRoute _ hclosed _ _ _ _ => exact hzero (Or.inl hclosed)
  | request _ hclosed _ _ => exact hzero (Or.inl hclosed)
  | close _ => exact hnext rfl
  | closeEmpty htransitioning hlease => exact hzero (Or.inr ⟨hlease, htransitioning⟩)
  | closeLease _ _ _ => exact hnext rfl
  | @release s t t' l hl htransits _ _ _ hcloses =>
    cases hc : t.closes with
    | true => exact hnext (hcloses.trans hc)
    | false => exact hsame rfl id hc
  | rotate => exact hsame rfl id rfl
  | replaced => exact hsame rfl id rfl
  | @install s user => exact hsame rfl (fun _ => Or.inr (ht.transits rfl)) rfl
  | unbuilt => exact hsame rfl id rfl
  | @leave s t hmine _ => exact hzero (Or.inr ⟨hs.between (ht.transits hmine), rfl⟩)
  | trans h₁ h₂ ih₁ ih₂ =>
    have hkept := h₁.kept hs ht
    exact (ih₁ hs ht).trans (ih₂ hkept.sound (hkept.own _ rfl))

end RoutedTransport

/-! ## Runs -/

open RoutedTransport

variable (config : RoutingConfig) (turns : List (Turn RoutedCall RoutedReply))

theorem respects_routed (C : RoutedTransport → RoutedTask → RoutedReply → Prop) :
    (routedProgram config).Respects Sound Relies Apart (fun _ => True) C where
  symm _ _ h := h.symm
  start s _ _ _ := .of_idle s ⟨rfl, rfl, rfl, rfl⟩
  apart _ u := .of_idle u ⟨rfl, rfl, rfl, rfl⟩
  shared s t reply _ hs ht := ((run_step config s t reply).kept hs ht).sound
  own s t reply _ hs ht := ((run_step config s t reply).kept hs ht).own
  other s t reply _ hs ht := ((run_step config s t reply).kept hs ht).other

theorem sound_start : Sound {} where
  keyed := rfl
  counted := rfl
  inUse := nofun
  settled := nofun
  owned := nofun
  between := nofun
  back := List.nodup_nil
  known := nofun
  rotated := nofun
  once := List.nodup_nil

theorem free_routed :
    Program.Free Sound Relies Apart (routedAfter config turns) :=
  (respects_routed config fun _ _ _ => True).after (Program.Free.of_shared sound_start)
    (fun _ _ => trivial)
    (Program.along_trivial _ _ _)

end CommerceCollector
