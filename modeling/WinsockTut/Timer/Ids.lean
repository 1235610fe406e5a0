import Mathlib.Data.List.DropRight
import WinsockTut.Timer.Guarantees
import WinsockTut.Timer.Pending

/-!
# Timer ids

`next_id_` only grows, until it overflows.  From then on, the timers that have been created before
have greater ids than the new ones: `UpdateTimer`, which takes them for timers that its own
callbacks have created, comes back to the head of its loop without end, and when `next_id_` comes
round to the id of a pending timer, `AddTimer` returns this id again.  `ids_sound` says that
nothing of this happens as long as no timer is pending across an overflow.
-/

namespace WinsockTut

namespace TimerSched

open Runs Word Function

variable {s t u : TimerSched} {c d : Config} {e : Event} {es : List Event} {a : Addr} {id i j : ℤ}

/-- The ids of the pending timers. -/
def pendingIds (s : TimerSched) : List ℤ := s.heap.filterMap fun a => (s.mem a).map TimerEntry.id

/-- The ids that `AddTimer` has returned, in order. -/
def addedIds (log : List Obs) : List ℤ := log.filterMap fun
  | .added id _ _ => some id
  | _ => none

/-- The ids that `AddTimer` has returned since `next_id_` last overflowed. -/
def sinceOverflow (log : List Obs) : List ℤ :=
  (addedIds log).rtakeWhile fun id => id ≠ 2147483647

/-- If the step is a call of `AddTimer`, no pending timer has the id it returns; if it is a call of
`UpdateTimer`, all pending timers have ids below `next_id_`. -/
structure IdsSound (c : Config) (e : Event) : Prop where
  fresh : ∀ a tick millsec event t id, e = .addTimer a tick millsec event →
    c.sched.addTimer a tick millsec event = some (t, id) → id ∉ c.sched.pendingIds
  below : ∀ tick, e = .updateTimer tick → ∀ id ∈ c.sched.pendingIds, id < c.sched.nextId

/-- The test `entry->id > last_id` never holds for the id of a timer that was pending when the pass
began. -/
def NeverSkipsOld (es : List Event) : Prop :=
  ∀ fs tick gs c d now lastId, fs ++ .updateTimer tick :: gs <+: es → runs fs = some c →
    (∀ g ∈ gs, ∀ tick, g ≠ .updateTimer tick) → run step c (.updateTimer tick :: gs) = some d →
    d.ctl = .loop now lastId → ∀ id ∈ c.sched.pendingIds, ¬ id > lastId

/-- If the step is a call of `AddTimer` or `UpdateTimer`, all pending timers have been created since
`next_id_` last overflowed. -/
def NoneStale (c : Config) (e : Event) : Prop :=
  (e.creates = true ∨ ∃ tick, e = .updateTimer tick) →
    ∀ id ∈ c.sched.pendingIds, id ∈ sinceOverflow c.log

/-! ### What the operations do to the ids -/

/-- No entry comes to the heap, and none changes its id. -/
structure KeepsIds (s t : TimerSched) : Prop where
  nextId : t.nextId = s.nextId
  heap : t.heap ⊆ s.heap
  mem : ∀ a y, t.mem a = some y → ∃ x, s.mem a = some x ∧ x.id = y.id

theorem KeepsTimers.keepsIds (h : KeepsTimers s t) : KeepsIds s t where
  nextId := h.nextId
  heap := h.heap
  mem a y hy := by
    have hnew : t.timerAt a = some ⟨y.id, y.expire, y.sink⟩ := by
      rw [TimerSched.timerAt, hy, Option.map_some]
    have hold := h.timerAt a _ hnew
    obtain ⟨x, hx, hxy⟩ := Option.map_eq_some_iff.mp hold
    exact ⟨x, hx, congrArg Timer.id hxy⟩

/-- **`AddTimer` returns `next_id_`**, and no entry but the new one, with this id, comes to the
heap. -/
theorem addTimer_ids {tick : ℕ} {millsec : ℤ} {event : Option Sink}
    (h : s.addTimer a tick millsec event = some (t, id)) :
    id = s.nextId ∧ t.nextId = wrap32 (s.nextId + 1) ∧
      ∀ b y, t.mem b = some y → y.id = s.nextId ∨ ∃ x, s.mem b = some x ∧ x.id = y.id := by
  unfold addTimer at h
  split at h
  · cases h
  · obtain ⟨u, hu, h⟩ := Option.bind_eq_some_iff.mp h
    obtain ⟨x, hx, h⟩ := Option.bind_eq_some_iff.mp h
    obtain ⟨rfl, rfl⟩ := Prod.mk.inj (Option.some.inj h)
    have hkeeps := (keepsTimers_siftupLoop _ hu).keepsIds
    have hnew : ∀ b y, u.mem b = some y →
        (b = a ∧ y.id = s.nextId) ∨ b ≠ a ∧ ∃ x, s.mem b = some x ∧ x.id = y.id := by
      intro b y hy
      obtain ⟨z, hz, hzy⟩ := hkeeps.mem b y hy
      by_cases hb : b = a
      · subst hb
        obtain rfl := Option.some.inj ((update_self b _ s.mem).symm.trans hz)
        exact Or.inl ⟨rfl, hzy.symm⟩
      · exact Or.inr ⟨hb, z, (update_of_ne hb _ s.mem).symm.trans hz, hzy⟩
    refine ⟨?_, hkeeps.nextId, fun b y hy => ?_⟩
    · rcases hnew a x hx with ⟨-, hid⟩ | ⟨hne, -⟩
      · exact hid
      · exact absurd rfl hne
    · rcases hnew b y hy with ⟨-, hid⟩ | ⟨-, hold⟩
      · exact Or.inl hid
      · exact Or.inr hold

/-! ### What a step does to the ids -/

/-- **Only `AddTimer` makes ids.** -/
theorem ids_of_step (hstep : step c e = some d) :
    (∃ a tick millsec event t id, e = .addTimer a tick millsec event ∧
      c.sched.addTimer a tick millsec event = some (t, id) ∧ d.sched = t ∧
      addedIds d.log = addedIds c.log ++ [id]) ∨
    (e.creates = false ∧ KeepsIds c.sched d.sched ∧ addedIds d.log = addedIds c.log) := by
  cases taken_of_step hstep with
  | added _ hadd => exact Or.inl ⟨_, _, _, _, _, _, rfl, hadd, rfl, by simp [addedIds]⟩
  | cancelled _ hcancel =>
    exact Or.inr ⟨rfl, (keepsTimers_cancelTimer hcancel).keepsIds, by simp [addedIds]⟩
  | entered => exact Or.inr ⟨rfl, (KeepsTimers.refl _).keepsIds, rfl⟩
  | left _ hround => exact Or.inr ⟨rfl, (updateRound_top hround).1.keepsIds, rfl⟩
  | skipped _ hround => exact Or.inr ⟨rfl, (updateRound_top hround).1.keepsIds, rfl⟩
  | fired _ hround => exact Or.inr ⟨rfl, (updateRound_top hround).1.keepsIds, by simp [addedIds]⟩
  | dropped _ hround _ hdelete =>
    have hkeeps := (updateRound_top hround).1.trans (keepsTimers_delete hdelete)
    exact Or.inr ⟨rfl, hkeeps.keepsIds, by simp [addedIds]⟩
  | returned _ hdelete => exact Or.inr ⟨rfl, (keepsTimers_delete hdelete).keepsIds, rfl⟩

/-! ### Since the last overflow -/

/-- The ids returned since `next_id_` last overflowed are below it. -/
structure IdInv (c : Config) : Prop where
  lower : -2147483648 ≤ c.sched.nextId
  upper : c.sched.nextId ≤ 2147483647
  below : ∀ id ∈ sinceOverflow c.log, id < c.sched.nextId

theorem idInv_init : IdInv Config.init where
  lower := by simp [Config.init, init]
  upper := by simp [Config.init, init]
  below _ hid := absurd hid List.not_mem_nil

theorem IdInv.step (h : IdInv c) (hstep : TimerSched.step c e = some d) : IdInv d := by
  rcases ids_of_step hstep with ⟨a, tick, millsec, event, t, id, -, hadd, rfl, hids⟩ |
      ⟨-, hkeeps, hids⟩
  · obtain ⟨rfl, hnext, -⟩ := addTimer_ids hadd
    by_cases hmax : c.sched.nextId = 2147483647
    · -- `next_id_` overflows
      have hnone : sinceOverflow d.log = [] := by
        rw [sinceOverflow, hids, List.rtakeWhile_concat_neg _ _ _ (by simp [hmax])]
      have hlow : d.sched.nextId = -2147483648 := by
        rw [hnext, hmax]
        rfl
      exact ⟨hlow.ge, by omega, fun id hid => absurd (hnone ▸ hid) List.not_mem_nil⟩
    · have hlt := lt_of_le_of_ne h.upper hmax
      have hsucc : d.sched.nextId = c.sched.nextId + 1 := by
        have := h.lower
        rw [hnext, wrap32_of_range (by omega) (by omega)]
      have := h.lower
      refine ⟨by omega, by omega, fun id hid => ?_⟩
      rw [sinceOverflow, hids, List.rtakeWhile_concat_pos _ _ _ (by simpa using hmax),
        List.mem_append, List.mem_singleton] at hid
      rcases hid with hid | rfl
      · have := h.below id hid
        omega
      · omega
  · have hnext := hkeeps.nextId
    refine ⟨hnext ▸ h.lower, hnext ▸ h.upper, fun id hid => ?_⟩
    rw [hnext]
    refine h.below id ?_
    rwa [sinceOverflow, hids] at hid

/-- The local variable `last_id` of the pass that control is in. -/
def Control.lastId? : Control → Option ℤ
  | .idle => none
  | .loop _ lastId => some lastId
  | .callback _ lastId _ => some lastId

/-- A pass keeps its `last_id`. -/
theorem lastId_of_step (hstep : step c e = some d) (he : ∀ tick, e ≠ .updateTimer tick) {l : ℤ}
    (hl : d.ctl.lastId? = some l) : c.ctl.lastId? = some l := by
  cases taken_of_step hstep with
  | added => exact hl
  | cancelled => exact hl
  | entered => exact absurd rfl (he _)
  | left => cases hl
  | skipped => exact hl
  | fired hctl => exact hctl ▸ hl
  | dropped => exact hl
  | returned hctl => exact hctl ▸ hl

/-- The `last_id` of a pass is the `next_id_` it began with. -/
theorem lastId_of_pass {tick : ℕ} {gs : List Event} {l : ℤ}
    (hrun : run step c (.updateTimer tick :: gs) = some d)
    (hgs : ∀ g ∈ gs, ∀ tick, g ≠ .updateTimer tick) (hl : d.ctl.lastId? = some l) :
    l = c.sched.nextId := by
  rw [run_cons, Option.bind_eq_some_iff] at hrun
  obtain ⟨b, hb, hrun⟩ := hrun
  have hstart : ∀ l, b.ctl.lastId? = some l → l = c.sched.nextId := by
    cases taken_of_step hb with
    | entered => exact fun l hl => (Option.some.inj hl).symm
  refine run_induction (P := fun _ t => ∀ l, t.ctl.lastId? = some l → l = c.sched.nextId) hstart
    (fun hs g t u hp _ ih hstep l hl => ?_) hrun l hl
  have hmem : g ∈ gs := hp.subset (List.mem_append_right hs (List.mem_singleton_self g))
  exact ih l (lastId_of_step hstep (hgs g hmem) hl)

/-- **The timer ids are sound** in every run in which no timer is pending across an overflow of
`next_id_` when `AddTimer` or `UpdateTimer` is called. -/
theorem ids_sound (hnone : EachStep step Config.init es fun _ => NoneStale) :
    (EachStep step Config.init es fun _ => IdsSound) ∧ NeverSkipsOld es := by
  have hinv : ∀ fs t, runs fs = some t → IdInv t := fun fs t ht =>
    run_induction (P := fun _ t => IdInv t) idInv_init
      (fun _ _ _ _ _ _ ih hstep => ih.step hstep) ht
  have hbelow : ∀ fs e t, fs ++ [e] <+: es → runs fs = some t →
      (e.creates = true ∨ ∃ tick, e = .updateTimer tick) →
      ∀ id ∈ t.sched.pendingIds, id < t.sched.nextId := fun fs e t hp ht he id hid =>
    (hinv fs t ht).below id (hnone fs e t hp ht he id hid)
  refine ⟨fun fs e t hp ht => ⟨?_, fun tick he => hbelow fs e t hp ht (Or.inr ⟨tick, he⟩)⟩, ?_⟩
  · rintro a tick millsec event u id rfl hadd hid
    obtain ⟨rfl, -⟩ := addTimer_ids hadd
    exact lt_irrefl _ (hbelow fs _ t hp ht (Or.inl rfl) _ hid)
  · intro fs tick gs c d now lastId hp hc hgs hd hctl id hid
    obtain rfl : lastId = c.sched.nextId := lastId_of_pass hd hgs (by rw [hctl]; rfl)
    have hp' : fs ++ [.updateTimer tick] <+: es :=
      (List.prefix_append_right_inj fs).mpr (List.prefix_append [_] gs) |>.trans hp
    exact not_lt.mpr (hbelow fs _ c hp' hc (Or.inr ⟨tick, rfl⟩) id hid).le

/-! ### Runs with few timers -/

/-- `next_id_` counts the timers, and every entry has an id that `AddTimer` has returned. -/
structure CountInv (es : List Event) (c : Config) : Prop where
  nextId : c.sched.nextId = 100 + created es
  below : ∀ id ∈ addedIds c.log, id < c.sched.nextId
  added : ∀ a x, c.sched.mem a = some x → x.id ∈ addedIds c.log

theorem CountInv.step (h : CountInv es c) (hfew : FewTimers (es ++ [e]))
    (hstep : TimerSched.step c e = some d) : CountInv (es ++ [e]) d := by
  rw [FewTimers, created_append] at hfew
  rcases ids_of_step hstep with ⟨a, tick, millsec, event, t, id, rfl, hadd, rfl, hids⟩ |
      ⟨he, hkeeps, hids⟩
  · obtain ⟨rfl, hnext, hmem⟩ := addTimer_ids hadd
    have hone : created [.addTimer a tick millsec event] = 1 := rfl
    have hid := h.nextId
    have hsucc : d.sched.nextId = c.sched.nextId + 1 := by
      rw [hnext, wrap32_of_range (by omega) (by omega)]
    refine ⟨?_, fun id hid => ?_, fun b y hy => ?_⟩
    · rw [hsucc, created_append]
      omega
    · rw [hids, List.mem_append, List.mem_singleton] at hid
      rcases hid with hid | rfl
      · have := h.below id hid
        omega
      · omega
    · rw [hids, List.mem_append, List.mem_singleton]
      rcases hmem b y hy with hy | ⟨x, hx, hxy⟩
      · exact Or.inr hy
      · exact Or.inl (hxy ▸ h.added b x hx)
  · have hzero : created [e] = 0 := by simp [created, he]
    refine ⟨?_, ?_, fun b y hy => ?_⟩
    · rw [hkeeps.nextId, created_append, hzero, h.nextId, Nat.add_zero]
    · rw [hids, hkeeps.nextId]
      exact h.below
    · obtain ⟨x, hx, hxy⟩ := hkeeps.mem b y hy
      rw [hids, ← hxy]
      exact h.added b x hx

/-- The invariant of the runs with fewer timers than there are ids. -/
theorem countInv_of_few (hfew : FewTimers es) (hrun : runs es = some c) : CountInv es c := by
  refine run_induction (P := CountInv) ⟨rfl, fun _ hid => absurd hid List.not_mem_nil,
    fun _ _ hx => by cases hx⟩ (fun fs e t u hp _ ih hstep => ?_) hrun
  exact ih.step (hfew.of_prefix hp) hstep

/-- With fewer timers than there are ids, `next_id_` does not overflow. -/
theorem noneStale_of_few (hfew : FewTimers es) :
    EachStep step Config.init es fun _ => NoneStale := by
  intro fs e t hp ht _ id hid
  have hfs : fs <+: es := (List.prefix_append fs [e]).trans hp
  have hinv : CountInv fs t := countInv_of_few (hfew.of_prefix hfs) ht
  have hlast : fs.countP Event.creates < 2147483648 - 100 := hfew.of_prefix hfs
  have hnext := hinv.nextId
  have hsame : sinceOverflow t.log = addedIds t.log := by
    refine List.rtakeWhile_eq_self_iff.mpr fun i hi => decide_eq_true fun hmax => ?_
    have := hinv.below i hi
    rw [created] at hnext
    omega
  obtain ⟨a, -, hmap⟩ := List.mem_filterMap.mp hid
  obtain ⟨x, hx, rfl⟩ := Option.map_eq_some_iff.mp hmap
  exact hsame ▸ hinv.added a x hx

/-! ### A timer pending across the overflow -/

/-- A timer is created that stays, and then `n` timers, each of which is cancelled. -/
def churn : ℕ → List Event
  | 0 => [.addTimer 0 5 1000 none]
  | n + 1 => churn n ++ [.addTimer 1 5 2000 none, .cancelTimer (101 + n)]

/-- The state when the first `n` of these timers are gone. -/
structure Churned (n : ℕ) (c : Config) : Prop where
  ctl : c.ctl = .idle
  nextId : c.sched.nextId = wrap32 (101 + n)
  heap : c.sched.heap = [0]
  mem : c.sched.mem = update (fun _ => none) 0 (some ⟨0, 100, 1005, none⟩)

/-- One timer more comes and goes. -/
theorem Churned.next {n : ℕ} (h : Churned n c) (hn : n < 2147483547) :
    ∃ d, run step c [.addTimer 1 5 2000 none, .cancelTimer (101 + n)] = some d ∧
      Churned (n + 1) d := by
  obtain ⟨⟨nextId, heap, ref, mem⟩, ctl, log⟩ := c
  obtain ⟨hctl, hid, hheap, hmem⟩ := h
  obtain rfl : ctl = .idle := hctl
  obtain rfl : heap = [0] := hheap
  obtain rfl : mem = update (fun _ => none) 0 (some ⟨0, 100, 1005, none⟩) := hmem
  obtain rfl : nextId = (101 + n : ℤ) := hid.trans (wrap32_of_range (by omega) (by omega))
  -- the second slot of the heap is taken and given back
  let mem : Addr → Option TimerEntry := update (fun _ => none) 0 (some ⟨0, 100, 1005, none⟩)
  let s : TimerSched := ⟨101 + n, [0], ref, mem⟩
  let t : TimerSched := ⟨wrap32 (101 + n + 1), [0, 1], update ref (101 + n) (some 1),
    update mem 1 (some ⟨1, 101 + n, 2005, none⟩)⟩
  let u : TimerSched := ⟨wrap32 (101 + n + 1), [0], update ref (101 + n) (some 1), mem⟩
  have hadd : s.addTimer 1 5 2000 none = some (t, (101 + n : ℤ)) := by
    simp [addTimer, siftup, siftupLoop, heapItemLess, item, slot, size, wrap32, wrap64, s, t, mem]
  have hcancel : t.cancelTimer (101 + n) = some u := by
    simp [cancelTimer, size, wrap32, popBack, delete, t, u, mem]
  let c₁ : Config := ⟨t, .idle, log ++ [.added (101 + n) none 2005]⟩
  let c₂ : Config := ⟨u, .idle, c₁.log ++ [.cancel (101 + n) (!(t.carrying (101 + n)).isEmpty)]⟩
  have hfirst : step ⟨s, .idle, log⟩ (.addTimer 1 5 2000 none) = some c₁ := by
    simp only [step, hadd]
    rfl
  have hsecond : step c₁ (.cancelTimer (101 + n)) = some c₂ := by
    simp only [step, hcancel, c₁]
    rfl
  have hnext : wrap32 (101 + n + 1) = wrap32 (101 + ((n + 1 : ℕ) : ℤ)) := by
    congr 1
  refine ⟨c₂, Option.bind_eq_some_iff.mpr ⟨c₁, hfirst, ?_⟩, rfl, hnext, rfl, rfl⟩
  exact Option.bind_eq_some_iff.mpr ⟨c₂, hsecond, rfl⟩

/-- Any number of timers may come and go while the first one is pending. -/
theorem exists_churned {n : ℕ} (hn : n ≤ 2147483547) :
    ∃ c, runs (churn n) = some c ∧ Churned n c := by
  induction n with
  | zero =>
    refine ⟨⟨⟨101, [0], update (fun _ => none) 100 (some 0),
      update (fun _ => none) 0 (some ⟨0, 100, 1005, none⟩)⟩, .idle,
      [.added 100 none 1005]⟩, ?_, rfl, rfl, rfl, rfl⟩
    have hadd : init.addTimer 0 5 1000 none =
        some (⟨101, [0], update (fun _ => none) 100 (some 0),
          update (fun _ => none) 0 (some ⟨0, 100, 1005, none⟩)⟩, 100) := by
      simp [init, addTimer, siftup, siftupLoop, size, wrap32, wrap64]
    rw [runs, churn, run_cons]
    refine Option.bind_eq_some_iff.mpr ⟨_, ?_, rfl⟩
    simp only [step, Config.init, hadd]
    rfl
  | succ n ih =>
    obtain ⟨c, hc, hchurned⟩ := ih (by omega)
    obtain ⟨d, hd, hnext⟩ := hchurned.next (by omega)
    exact ⟨d, run_trans hc hd, hnext⟩

/-- When `next_id_` has overflowed, the first timer, which is still pending, has an id above it. -/
theorem idsSound_overflow : ∃ c, runs (churn 2147483547) = some c ∧ c.ctl = .idle ∧
    c.sched.nextId = -2147483648 ∧ 100 ∈ c.sched.pendingIds ∧
    ¬ EachStep step Config.init (churn 2147483547 ++ [.updateTimer 5]) fun _ => IdsSound := by
  obtain ⟨c, hc, hchurned⟩ := exists_churned le_rfl
  have hnext : c.sched.nextId = -2147483648 := hchurned.nextId
  have hpending : 100 ∈ c.sched.pendingIds := by
    simp [pendingIds, hchurned.heap, hchurned.mem]
  refine ⟨c, hc, hchurned.ctl, hnext, hpending, fun hall => ?_⟩
  have hlt := (hall _ _ c List.prefix_rfl hc).below 5 rfl 100 hpending
  omega

instance (c : Config) (e : Event) : Decidable (NoneStale c e) :=
  match e with
  | .addTimer _ _ _ _ =>
    decidable_of_iff (∀ id ∈ c.sched.pendingIds, id ∈ sinceOverflow c.log)
      ⟨fun h _ => h, fun h => h (Or.inl rfl)⟩
  | .updateTimer tick =>
    decidable_of_iff (∀ id ∈ c.sched.pendingIds, id ∈ sinceOverflow c.log)
      ⟨fun h _ => h, fun h => h (Or.inr ⟨tick, rfl⟩)⟩
  | .cancelTimer _ | .round | .timeoutReturn => isTrue fun h => by
      rcases h with h | ⟨_, h⟩ <;> cases h

/-- The callback of a timer creates another one. -/
def renew : List Event :=
  [.addTimer 0 5 0 (some 1), .updateTimer 5, .round, .addTimer 1 5 0 none, .timeoutReturn, .round]

theorem ids_sound_renew : (runs renew).isSome = true ∧
    (EachStep step Config.init renew fun _ => IdsSound) ∧ NeverSkipsOld renew :=
  ⟨by decide +kernel, ids_sound (eachStep_iff_checkSteps.mpr (by decide +kernel))⟩

end TimerSched

end WinsockTut
