import CommerceCollector.Proxy.RouteSteps

/-!
# Who owns the lease, and what becomes of an attempt

`Sound` is the invariant of the routed transport, `Relies` what a suspended task relies on, and
`Apart` what keeps two tasks apart: at most one is in the middle of the transition, and no two have
the same route.  Every step of `RouteStep` keeps the three.
-/

namespace CommerceCollector

open Relational Tasks

namespace RoutedTransport

/-- The lease was returned by the pool and was not given back. -/
def Out (s : RoutedTransport) (lease : ℕ) : Prop :=
  lease < s.leases ∧ lease ∉ s.replaced ++ s.released

/-- **The invariant of the transport.** -/
structure Sound (s : RoutedTransport) : Prop where
  keyed : s.attempts.map (fun a => a.route.id) = List.range s.attempts.length
  counted : s.active = (s.attempts.countP (fun a => a.checkedIn == 0) : ℤ)
  inUse : ∀ a ∈ s.attempts, a.checkedIn = 0 →
    s.lease = some a.route.lease ∧ a.route.generation = s.generation
  settled : ∀ a ∈ s.attempts, a.checkedIn ≠ 0 → a.checkedIn = 1 ∧ a.Accounted
  owned : ∀ lease, s.lease = some lease → s.Out lease
  between : s.transitioning = true → s.lease = none
  back : (s.replaced ++ s.released).Nodup
  known : ∀ lease ∈ s.replaced ++ s.released, lease < s.leases
  rotated : ∀ r ∈ s.rotations, r.generation ≤ s.generation ∧
    (r.generation = s.generation → s.lease = none)
  once : (s.rotations.map fun r => r.generation).Nodup

/-- **What a suspended task relies on.** -/
structure Relies (s : RoutedTransport) (t : RoutedTask) : Prop where
  route : ∀ route, t.route? = some route →
    ∃ a ∈ s.attempts, a.route = route ∧ a.checkedIn = 0 ∧ t.Stage a
  transits : t.transits = true → s.transitioning = true
  lease : ∀ lease, t.lease? = some lease → s.Out lease
  rotation : ∀ r, t.rotation? = some r →
    r.generation = s.generation ∧ ∀ r' ∈ s.rotations, r'.generation < s.generation

/-- **What keeps two tasks apart.** -/
structure Apart (t u : RoutedTask) : Prop where
  transits : t.transits = true → u.transits = false
  route : ∀ route route', t.route? = some route → u.route? = some route' → route.id ≠ route'.id

/-! ## Tasks -/

variable {t : RoutedTask} {lease : ℕ}

theorem transits_of_lease (h : t.lease? = some lease) : t.transits = true := by
  cases t <;> first | rfl | cases h

theorem transits_of_rotation {r : PoolRotation} (h : t.rotation? = some r) : t.transits = true := by
  cases t <;> first | rfl | cases h

theorem route_of_transits (h : t.transits = true) : t.route? = none := by
  cases t <;> first | rfl | cases h

theorem Relies.of_route {s : RoutedTransport} (ht : t.transits = false)
    (h : ∀ route, t.route? = some route →
      ∃ a ∈ s.attempts, a.route = route ∧ a.checkedIn = 0 ∧ t.Stage a) : s.Relies t where
  route := h
  transits htrue := absurd (ht.symm.trans htrue) Bool.false_ne_true
  lease _ hlease := absurd (ht.symm.trans (transits_of_lease hlease)) Bool.false_ne_true
  rotation _ hr := absurd (ht.symm.trans (transits_of_rotation hr)) Bool.false_ne_true

theorem Relies.of_idle (s : RoutedTransport) (h : t.Idle) : s.Relies t :=
  Relies.of_route h.2.1 fun _ hroute => absurd (h.1.symm.trans hroute) (by simp)

theorem Apart.symm {t u : RoutedTask} (h : Apart t u) : Apart u t where
  transits hu := by
    rw [← Bool.not_eq_true]
    intro ht
    rw [h.transits ht] at hu
    exact Bool.false_ne_true hu
  route route route' hroute hroute' heq := h.route route' route hroute' hroute heq.symm

theorem Apart.of_le {t t' u : RoutedTask} (h : Apart u t)
    (htransits : t'.transits = true → t.transits = true)
    (hroute : ∀ route, t'.route? = some route → t.route? = some route) : Apart u t' where
  transits hu := by
    rw [← Bool.not_eq_true]
    intro ht'
    exact Bool.false_ne_true ((h.transits hu).symm.trans (htransits ht'))
  route route route' hroute' ht' := h.route route route' hroute' (hroute route' ht')

theorem Apart.of_idle (u : RoutedTask) (h : t.Idle) : Apart u t where
  transits _ := h.2.1
  route _ _ _ hroute := absurd (h.1.symm.trans hroute) (by simp)

theorem Apart.of_transits {t u : RoutedTask} (ht : t.route? = none) (hu : u.transits = false) :
    Apart u t where
  transits htrue := absurd (hu.symm.trans htrue) Bool.false_ne_true
  route _ _ _ hroute := absurd (ht.symm.trans hroute) (by simp)

theorem Relies.not_transits {s : RoutedTransport} (h : s.Relies t)
    (hs : s.transitioning = false) : t.transits = false := by
  rw [← Bool.not_eq_true]
  intro ht
  exact Bool.false_ne_true (hs.symm.trans (h.transits ht))

/-! ## The state -/

variable {a : ProxyAttempt} {f : ProxyAttempt → ProxyAttempt}

namespace Sound

variable {s : RoutedTransport}

section

variable (hs : s.Sound)

include hs

theorem nodup : Keyed (fun a : ProxyAttempt => a.route.id) s.attempts := by
  unfold Keyed
  rw [hs.keyed]
  exact List.nodup_range

theorem id_lt (ha : a ∈ s.attempts) : a.route.id < s.attempts.length := by
  have hmem : a.route.id ∈ s.attempts.map fun a => a.route.id := List.mem_map_of_mem ha
  rw [hs.keyed] at hmem
  exact List.mem_range.mp hmem

theorem allIn (hactive : s.active = 0) :
    ∀ a ∈ s.attempts, a.checkedIn ≠ 0 := by
  intro a ha hin
  have hcount : s.attempts.countP (fun a => a.checkedIn == 0) = 0 := by
    have hcounted := hs.counted
    omega
  exact List.countP_eq_zero.mp hcount a ha (by simp [hin])

theorem allIn_of_none (hlease : s.lease = none) :
    ∀ a ∈ s.attempts, a.checkedIn ≠ 0 := by
  intro a ha hin
  have huse := (hs.inUse a ha hin).1
  rw [hlease] at huse
  exact absurd huse (by simp)

theorem detached (hactive : s.active = 0) (s' : RoutedTransport)
    (hattempts : s'.attempts = s.attempts) (hsame : s'.active = s.active)
    (hlease : s'.lease = none) (hreplaced : s'.replaced = s.replaced)
    (hreleased : s'.released = s.released) (hleases : s'.leases = s.leases)
    (hrotations : s'.rotations = s.rotations) (hgeneration : s'.generation = s.generation) :
    s'.Sound where
  keyed := by rw [hattempts]; exact hs.keyed
  counted := by rw [hattempts, hsame]; exact hs.counted
  inUse a ha hin := absurd hin (hs.allIn hactive a (hattempts ▸ ha))
  settled a ha := hs.settled a (hattempts ▸ ha)
  owned lease h := absurd (hlease.symm.trans h) (by simp)
  between _ := hlease
  back := by rw [hreplaced, hreleased]; exact hs.back
  known lease h := by
    rw [hreplaced, hreleased] at h
    rw [hleases]
    exact hs.known lease h
  rotated r hr := by
    rw [hrotations] at hr
    rw [hgeneration]
    exact ⟨(hs.rotated r hr).1, fun _ => hlease⟩
  once := by rw [hrotations]; exact hs.once

theorem release (hnone : s.lease = none) (hout : s.Out lease) :
    (s.release lease).Sound :=
  { hs with
    owned := fun lease' h => absurd (hnone.symm.trans h) (by simp)
    back := List.nodup_middle.mpr (List.nodup_cons.mpr ⟨hout.2, hs.back⟩)
    known := fun lease' h => by
      rcases List.mem_cons.mp ((List.perm_middle).mem_iff.mp h) with rfl | h
      · exact hout.1
      · exact hs.known lease' h }

theorem replace (hnone : s.lease = none) (hout : s.Out lease) :
    (s.replace lease).Sound :=
  { hs with
    owned := fun lease' h => absurd (hnone.symm.trans h) (by simp)
    back := List.nodup_cons.mpr ⟨hout.2, hs.back⟩
    known := fun lease' h => by
      rcases List.mem_cons.mp h with rfl | h
      · exact hout.1
      · exact hs.known lease' h }

theorem out_leased : s.leased.Out s.leases :=
  ⟨Nat.lt_succ_self _, fun h => Nat.lt_irrefl _ (hs.known _ h)⟩

theorem leased (hnone : s.lease = none) : s.leased.Sound :=
  { hs with
    owned := fun lease' h => absurd (hnone.symm.trans h) (by simp)
    known := fun lease h => Nat.lt_succ_of_lt (hs.known lease h) }

theorem installed (hnone : s.lease = none) : s.installed.Sound :=
  { hs with
    inUse := fun a ha hin => absurd hin (hs.allIn_of_none hnone a ha)
    owned := fun lease h => Option.some.inj h ▸ hs.out_leased
    between := fun h => absurd h Bool.false_ne_true
    known := fun lease h => Nat.lt_succ_of_lt (hs.known lease h)
    rotated := fun r hr => by
      have hle : r.generation ≤ s.generation := (hs.rotated r hr).1
      exact ⟨Nat.le_succ_of_le hle, fun h => absurd h (by simp only [RoutedTransport.installed]; omega)⟩ }

/-- The pool's `rotate` is called for a generation that was not rotated yet. -/
theorem rotate (hnone : s.lease = none) {r : PoolRotation}
    (hr : r.generation = s.generation) (hfresh : ∀ r' ∈ s.rotations, r'.generation < s.generation) :
    (s.rotate r).Sound :=
  { hs with
    rotated := fun r' hr' => by
      rcases List.mem_append.mp hr' with hold | hnew
      · exact hs.rotated r' hold
      · rw [List.mem_singleton.mp hnew]
        exact ⟨hr.le, fun _ => hnone⟩
    once := by
      unfold RoutedTransport.rotate
      rw [List.map_append, List.nodup_append]
      refine ⟨hs.once, List.nodup_singleton _, fun g hg g' hg' heq => ?_⟩
      obtain ⟨r', hr', rfl⟩ := List.mem_map.mp hg
      rw [List.map_singleton, List.mem_singleton, hr] at hg'
      have hlt := hfresh r' hr'
      omega }

theorem checkOut (hlease : s.lease = some lease) : (s.checkOut lease).Sound :=
  { hs with
    keyed := by
      unfold RoutedTransport.checkOut
      simp only [List.map_append, hs.keyed, List.length_append, List.length_singleton,
        List.range_succ, List.map_cons, List.map_nil]
      rfl
    counted := by
      unfold RoutedTransport.checkOut
      simp only [List.countP_append, List.countP_singleton, hs.counted]
      simp
    inUse := fun a ha hin => by
      rcases List.mem_append.mp ha with hold | hnew
      · exact hs.inUse a hold hin
      · rw [List.mem_singleton.mp hnew]
        exact ⟨hlease, rfl⟩
    settled := fun a ha hin => by
      rcases List.mem_append.mp ha with hold | hnew
      · exact hs.settled a hold hin
      · rw [List.mem_singleton.mp hnew] at hin
        exact absurd rfl hin }

theorem record (ha : a ∈ s.attempts) (hin : a.checkedIn = 0)
    (hroute : ∀ a, (f a).route = a.route)
    (hkept : ∀ a, (f a).checkedIn = a.checkedIn) : (s.record a.route f).Sound := by
  have hmem : ∀ a' ∈ (s.record a.route f).attempts,
      (a' ∈ s.attempts ∧ a'.route.id ≠ a.route.id) ∨ a' = f a := by
    intro a' ha'
    obtain ⟨b, hb, rfl⟩ := mem_update.mp ha'
    split
    · rename_i hid
      rw [hs.nodup.eq_of_mem hb ha (beq_iff_eq.mp hid)]
      exact Or.inr rfl
    · rename_i hid
      exact Or.inl ⟨hb, fun h => hid (beq_iff_eq.mpr h)⟩
  refine { hs with keyed := ?_, counted := ?_, inUse := ?_, settled := ?_ }
  · unfold RoutedTransport.record
    simp only [update, List.length_map]
    exact (map_update (fun b => by rw [hroute]) s.attempts).trans hs.keyed
  · have hcount : (s.record a.route f).attempts.countP (fun b => b.checkedIn == 0) =
        s.attempts.countP fun b => b.checkedIn == 0 := by
      rw [countP_eq_total, countP_eq_total]
      exact total_update_eq fun b _ _ => by simp [share, hkept]
    rw [hcount]
    exact hs.counted
  · intro a' ha' hin'
    rcases hmem a' ha' with ⟨hold, -⟩ | rfl
    · exact hs.inUse a' hold hin'
    · rw [hroute]
      exact hs.inUse a ha hin
  · intro a' ha' hin'
    rcases hmem a' ha' with ⟨hold, -⟩ | rfl
    · exact hs.settled a' hold hin'
    · exact absurd ((hkept a).trans hin) hin'

theorem checkIn (ha : a ∈ s.attempts) (hin : a.checkedIn = 0)
    (haccounted : a.Accounted) : (s.checkIn a.route).Sound := by
  have hmem : ∀ a' ∈ (s.checkIn a.route).attempts, (a' ∈ s.attempts ∧ a'.route.id ≠ a.route.id) ∨
      a' = { a with checkedIn := 1 } := by
    intro a' ha'
    obtain ⟨b, hb, rfl⟩ := mem_update.mp ha'
    split
    · rename_i hid
      rw [hs.nodup.eq_of_mem hb ha (beq_iff_eq.mp hid), hin]
      exact Or.inr rfl
    · rename_i hid
      exact Or.inl ⟨hb, fun h => hid (beq_iff_eq.mpr h)⟩
  refine { hs with keyed := ?_, counted := ?_, inUse := ?_, settled := ?_ }
  · unfold RoutedTransport.checkIn RoutedTransport.record
    simp only [update, List.length_map]
    have hids := map_update (p := fun b : ProxyAttempt => b.route.id == a.route.id)
      (f := fun b => { b with checkedIn := b.checkedIn + 1 }) (g := fun b => b.route.id)
      (fun _ => rfl) s.attempts
    exact hids.trans hs.keyed
  · have hcount := total_update_key hs.nodup ha (q := fun b => b.route.id == a.route.id) (by simp)
      (fun b hb => beq_iff_eq.mp hb) (fun b => b.checkedIn == 0) (fun _ => 1)
      fun b => { b with checkedIn := b.checkedIn + 1 }
    rw [← countP_eq_total, ← countP_eq_total] at hcount
    simp only [share, hin, beq_self_eq_true, ↓reduceIte, zero_add, Nat.reduceBEq,
      Bool.false_eq_true, add_zero] at hcount
    have hcounted := hs.counted
    unfold RoutedTransport.checkIn RoutedTransport.record
    dsimp only
    omega
  · intro a' ha' hin'
    rcases hmem a' ha' with ⟨hold, -⟩ | rfl
    · exact hs.inUse a' hold hin'
    · exact absurd hin' (by simp)
  · intro a' ha' hin'
    rcases hmem a' ha' with ⟨hold, -⟩ | rfl
    · exact hs.settled a' hold hin'
    · exact ⟨rfl, haccounted⟩

end

end Sound

/-! ## The attempts of other tasks -/

theorem mem_record {s : RoutedTransport} {route : CheckedOutRoute} (ha : a ∈ s.attempts)
    (hid : a.route.id ≠ route.id) : a ∈ (s.record route f).attempts :=
  mem_update_of_neg ha (by simp [hid])

theorem mem_record_self {s : RoutedTransport}
    (ha : a ∈ s.attempts) : f a ∈ (s.record a.route f).attempts :=
  mem_update_of_pos ha (by simp)

/-- What a task relies on lies in the accounts of the leases and in the record of its route. -/
theorem Relies.of_same {s s' : RoutedTransport} (h : s.Relies t)
    (hroute : ∀ a ∈ s.attempts, t.route? = some a.route → a ∈ s'.attempts)
    (htransitioning : s'.transitioning = s.transitioning) (hleases : s'.leases = s.leases)
    (hreplaced : s'.replaced = s.replaced) (hreleased : s'.released = s.released)
    (hrotations : s'.rotations = s.rotations) (hgeneration : s'.generation = s.generation) :
    s'.Relies t where
  route route hr := by
    obtain ⟨a, ha, rfl, hin, hstage⟩ := h.route route hr
    exact ⟨a, hroute a ha hr, rfl, hin, hstage⟩
  transits ht := by rw [htransitioning]; exact h.transits ht
  lease lease hl := by
    unfold Out
    rw [hleases, hreplaced, hreleased]
    exact h.lease lease hl
  rotation r hr := by
    rw [hrotations, hgeneration]
    exact h.rotation r hr

/-! ## The steps -/

/-- What a step keeps: the invariant, what the task that is left relies on, and what every other
task relies on. -/
structure Kept (I : RoutedTransport → Prop) (J : RoutedTransport → RoutedTask → Prop)
    (s : RoutedTransport) (t : RoutedTask) (s' : RoutedTransport) (next : Option RoutedTask) :
    Prop where
  sound : I s'
  own : ∀ t' ∈ next, J s' t'
  other : ∀ u, J s u → Apart u t → J s' u ∧ ∀ t' ∈ next, Apart u t'

theorem Kept.trans {I : RoutedTransport → Prop} {J : RoutedTransport → RoutedTask → Prop}
    {s s₁ s' : RoutedTransport} {t t₁ : RoutedTask} {next : Option RoutedTask}
    (h₁ : Kept I J s t s₁ (some t₁)) (h₂ : Kept I J s₁ t₁ s' next) : Kept I J s t s' next where
  sound := h₂.sound
  own := h₂.own
  other u hu hK := by
    obtain ⟨hu₁, hK₁⟩ := h₁.other u hu hK
    exact h₂.other u hu₁ (hK₁ t₁ rfl)

variable {waits fresh : Prop}

/-- **Every step keeps the invariant.** -/
theorem RouteStep.kept {s s' : RoutedTransport} {next : Option RoutedTask}
    (h : RouteStep waits fresh s t s' next) (hs : s.Sound) (ht : s.Relies t) :
    Kept Sound Relies s t s' next := by
  induction h with
  | idle hidle hnext =>
    exact ⟨hs, fun t' ht' => .of_idle _ (hnext t' ht'),
      fun u hu _ => ⟨hu, fun t' ht' => .of_idle u (hnext t' ht')⟩⟩
  | wait => exact ⟨hs, fun t' ht' => Option.some.inj ht' ▸ ht,
      fun u hu hK => ⟨hu, fun t' ht' => Option.some.inj ht' ▸ hK⟩⟩
  | giveUp _ => exact ⟨hs, by simp, fun u hu _ => ⟨hu, by simp⟩⟩
  | @pass s t t' route hroute hroute' hstage =>
    have hbusy : t'.transits = false := by
      rw [← Bool.not_eq_true]
      intro h
      rw [route_of_transits h] at hroute'
      exact absurd hroute' (by simp)
    refine ⟨hs, fun t₁ ht₁ => ?_, fun u hu hK => ⟨hu, fun t₁ ht₁ => ?_⟩⟩
    · obtain rfl := Option.some.inj ht₁
      refine .of_route hbusy fun r hr => ?_
      rw [hroute', ← hroute] at hr
      obtain ⟨a, ha, heq, hin, hst⟩ := ht.route r hr
      exact ⟨a, ha, heq, hin, hstage a hst⟩
    · obtain rfl := Option.some.inj ht₁
      refine hK.of_le (fun h => absurd (hbusy.symm.trans h) Bool.false_ne_true) fun r hr => ?_
      rw [hroute, ← hroute', hr]
  | @record s t t' route f hroute hroute' hkeep hkept hstage =>
    obtain ⟨a, ha, rfl, hin, hst⟩ := ht.route route hroute
    have hbusy : t'.transits = false := by
      rw [← Bool.not_eq_true]
      intro h
      rw [route_of_transits h] at hroute'
      exact absurd hroute' (by simp)
    refine ⟨hs.record ha hin hkeep hkept, fun t₁ ht₁ => ?_, fun u hu hK => ⟨?_, fun t₁ ht₁ => ?_⟩⟩
    · obtain rfl := Option.some.inj ht₁
      refine .of_route hbusy fun r hr => ⟨f a, mem_record_self ha, ?_, (hkept a).trans hin,
        hstage a hst⟩
      rw [hkeep]
      exact Option.some.inj (hroute'.symm.trans hr)
    · exact hu.of_same (fun b hb hub => mem_record hb (hK.route _ _ hub hroute)) rfl rfl rfl rfl rfl
        rfl
    · obtain rfl := Option.some.inj ht₁
      refine hK.of_le (fun h => absurd (hbusy.symm.trans h) Bool.false_ne_true) fun r hr => ?_
      rw [hroute, ← hroute', hr]
  | @checkIn s t next route hroute hstage hnext =>
    obtain ⟨a, ha, rfl, hin, hst⟩ := ht.route route hroute
    exact ⟨hs.checkIn ha hin (hstage a hst), fun t' ht' => .of_idle _ (hnext t' ht'),
      fun u hu hK => ⟨hu.of_same (fun b hb hub => mem_record hb (hK.route _ _ hub hroute)) rfl rfl
        rfl rfl rfl rfl, fun t' ht' => .of_idle u (hnext t' ht')⟩⟩
  | @checkOut s t t' lease hidle hclosed htransitioning hlease hpending hroute hstage =>
    have hbusy : t'.transits = false := by
      rw [← Bool.not_eq_true]
      intro h
      rw [route_of_transits h] at hroute
      exact absurd hroute (by simp)
    have hold : ∀ a ∈ s.attempts, a ∈ (s.checkOut lease).attempts :=
      fun a ha => List.mem_append_left _ ha
    refine ⟨hs.checkOut hlease, fun t₁ ht₁ => ?_, fun u hu hK =>
      ⟨hu.of_same (fun a ha _ => hold a ha) rfl rfl rfl rfl rfl rfl, fun t₁ ht₁ => ?_⟩⟩
    · obtain rfl := Option.some.inj ht₁
      refine .of_route hbusy fun r hr => ?_
      obtain rfl := Option.some.inj (hroute.symm.trans hr)
      exact ⟨_, List.mem_append_right _ (List.mem_singleton_self _), rfl, rfl, hstage⟩
    · obtain rfl := Option.some.inj ht₁
      refine ⟨fun _ => hbusy, fun r r' hr hr' => ?_⟩
      obtain ⟨a, ha, rfl, -, -⟩ := hu.route r hr
      obtain rfl := Option.some.inj (hroute.symm.trans hr')
      exact Nat.ne_of_lt (hs.id_lt ha)
  | @acquire s t user hidle hclosed htransitioning hlease hactive =>
    have hothers : ∀ u, s.Relies u → u.transits = false := fun u hu => hu.not_transits htransitioning
    refine ⟨hs.detached hactive _ rfl rfl rfl rfl rfl rfl rfl rfl, fun t₁ ht₁ => ?_,
      fun u hu hK => ⟨.of_route (hothers u hu) hu.route, fun t₁ ht₁ => ?_⟩⟩
    · obtain rfl := Option.some.inj ht₁
      exact ⟨nofun, fun _ => rfl, nofun, nofun⟩
    · obtain rfl := Option.some.inj ht₁
      exact .of_transits rfl (hothers u hu)
  | @replaceRoute s t user lease hidle hclosed htransitioning hlease hpending hactive =>
    have hothers : ∀ u, s.Relies u → u.transits = false := fun u hu => hu.not_transits htransitioning
    refine ⟨hs.detached hactive _ rfl rfl rfl rfl rfl rfl rfl rfl, fun t₁ ht₁ => ?_,
      fun u hu hK => ⟨.of_route (hothers u hu) hu.route, fun t₁ ht₁ => ?_⟩⟩
    · obtain rfl := Option.some.inj ht₁
      refine ⟨nofun, fun _ => rfl, fun l hl => ?_, fun r hr => ?_⟩
      · obtain rfl := Option.some.inj hl
        exact hs.owned lease hlease
      · obtain rfl := Option.some.inj hr
        refine ⟨rfl, fun r' hr' => lt_of_le_of_ne (hs.rotated r' hr').1 fun heq => ?_⟩
        have hnone := (hs.rotated r' hr').2 heq
        rw [hlease] at hnone
        exact absurd hnone (by simp)
    · obtain rfl := Option.some.inj ht₁
      exact .of_transits rfl (hothers u hu)
  | request _ _ _ _ =>
    exact ⟨{ hs with },
      fun t' ht' => Option.some.inj ht' ▸ ht.of_same (fun _ h _ => h) rfl rfl rfl rfl rfl rfl,
      fun u hu hK => ⟨hu.of_same (fun _ h _ => h) rfl rfl rfl rfl rfl rfl,
        fun t' ht' => Option.some.inj ht' ▸ hK⟩⟩
  | close hidle =>
    refine ⟨{ hs with }, fun t' ht' => ?_, fun u hu hK =>
      ⟨hu.of_same (fun _ h _ => h) rfl rfl rfl rfl rfl rfl, fun t' ht' => ?_⟩⟩
    · obtain rfl := Option.some.inj ht'
      exact .of_route rfl nofun
    · obtain rfl := Option.some.inj ht'
      exact hK.of_le nofun nofun
  | closeEmpty _ _ => exact ⟨hs, by simp, fun u hu _ => ⟨hu, by simp⟩⟩
  | @closeLease s lease htransitioning hactive hlease =>
    have hothers : ∀ u, s.Relies u → u.transits = false := fun u hu => hu.not_transits htransitioning
    refine ⟨hs.detached hactive _ rfl rfl rfl rfl rfl rfl rfl rfl, fun t₁ ht₁ => ?_,
      fun u hu hK => ⟨.of_route (hothers u hu) hu.route, fun t₁ ht₁ => ?_⟩⟩
    · obtain rfl := Option.some.inj ht₁
      refine ⟨nofun, fun _ => rfl, fun l hl => ?_, nofun⟩
      obtain rfl := Option.some.inj hl
      exact hs.owned lease hlease
    · obtain rfl := Option.some.inj ht₁
      exact .of_transits rfl (hothers u hu)
  | @release s t t' lease hlease htransits hnone hroute hrotation hcloses =>
    have hmine := transits_of_lease hlease
    refine ⟨hs.release (hs.between (ht.transits hmine)) (ht.lease lease hlease), fun t₁ ht₁ => ?_,
      fun u hu hK => ⟨.of_route (hK.symm.transits hmine) hu.route, fun t₁ ht₁ => ?_⟩⟩
    · obtain rfl := Option.some.inj ht₁
      exact ⟨by simp [hroute], fun _ => ht.transits hmine, by simp [hnone], by simp [hrotation]⟩
    · obtain rfl := Option.some.inj ht₁
      exact .of_transits hroute (hK.symm.transits hmine)
  | @rotate s user lease rotation =>
    obtain ⟨hgeneration, hfresh⟩ := ht.rotation rotation rfl
    refine ⟨hs.rotate (hs.between (ht.transits rfl)) hgeneration hfresh, fun t₁ ht₁ => ?_,
      fun u hu hK => ⟨.of_route (hK.symm.transits rfl) hu.route, fun t₁ ht₁ => ?_⟩⟩
    · obtain rfl := Option.some.inj ht₁
      exact ⟨nofun, fun _ => ht.transits rfl, fun l hl => ht.lease l hl, nofun⟩
    · obtain rfl := Option.some.inj ht₁
      exact .of_transits rfl (hK.symm.transits rfl)
  | @replaced s user lease =>
    refine ⟨hs.replace (hs.between (ht.transits rfl)) (ht.lease lease rfl), fun t₁ ht₁ => ?_,
      fun u hu hK => ⟨.of_route (hK.symm.transits rfl) hu.route, fun t₁ ht₁ => ?_⟩⟩
    · obtain rfl := Option.some.inj ht₁
      exact ⟨nofun, fun _ => ht.transits rfl, nofun, nofun⟩
    · obtain rfl := Option.some.inj ht₁
      exact .of_transits rfl (hK.symm.transits rfl)
  | @install s user =>
    refine ⟨hs.installed (hs.between (ht.transits rfl)), fun t₁ ht₁ => ?_,
      fun u hu hK => ⟨.of_route (hK.symm.transits rfl) hu.route, fun t₁ ht₁ => ?_⟩⟩
    · obtain rfl := Option.some.inj ht₁
      exact .of_idle _ ⟨rfl, rfl, rfl, rfl⟩
    · obtain rfl := Option.some.inj ht₁
      exact .of_idle u ⟨rfl, rfl, rfl, rfl⟩
  | @unbuilt s user error =>
    have hnone := hs.between (ht.transits rfl)
    refine ⟨(hs.leased hnone).release hnone hs.out_leased, fun t₁ ht₁ => ?_,
      fun u hu hK => ⟨.of_route (hK.symm.transits rfl) hu.route, fun t₁ ht₁ => ?_⟩⟩
    · obtain rfl := Option.some.inj ht₁
      exact ⟨nofun, fun _ => ht.transits rfl, nofun, nofun⟩
    · obtain rfl := Option.some.inj ht₁
      exact .of_transits rfl (hK.symm.transits rfl)
  | @leave s t hmine hlease =>
    have hleft : s.leave.Sound := { hs with between := fun h => absurd h Bool.false_ne_true }
    exact ⟨hleft, by simp,
      fun u hu hK => ⟨.of_route (hK.symm.transits hmine) hu.route, by simp⟩⟩
  | trans h₁ h₂ ih₁ ih₂ =>
    have hfirst := ih₁ hs ht
    exact hfirst.trans (ih₂ hfirst.sound (hfirst.own _ rfl))

end RoutedTransport

end CommerceCollector
