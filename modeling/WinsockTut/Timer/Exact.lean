import Mathlib
import WinsockTut.Foundation.Agenda
import WinsockTut.Timer.Fresh

/-!
# A pass is exact

As long as the callbacks create timers with positive delays only, a pass of `UpdateTimer` works off
the agenda of the timers that were pending when it began, up to the clock reading `now`: it takes
exactly the timers that are due and are not cancelled before their turn, in the order of their
expiry times, and leaves all others.  The pass has to go on for this in a heap into which callbacks
insert, and from the middle of which they remove; the account of `Agenda.WorkedOff` follows it.
-/

namespace WinsockTut

namespace TimerSched

open Agenda Runs Word Function

variable {c d t u : Config} {e : Event} {es gs hs : List Event} {l : List Obs} {tick : ℕ}
  {now lastId : ℤ} {x : Timer} {added dropped : Multiset Timer} {taken : List Timer}

/-- Timers are created with positive delays. -/
def PositiveDelay : Event → Prop
  | .addTimer _ _ millsec _ => 0 < millsec
  | _ => True

/-- `GetTickCount64` has not decreased since it read `tick`, and the number of milliseconds since
the start of the system, together with a delay, is a signed 64-bit integer. -/
def ClockFrom (tick : ℕ) : Event → Prop
  | .addTimer _ tick' millsec _ => tick ≤ tick' ∧ tick' + millsec < 9223372036854775808
  | _ => True

/-- A timer with a positive delay is not due for a pass that has read the clock before. -/
theorem lt_expire {tick' : ℕ} {millsec : ℤ} (hpos : 0 < millsec) (hle : tick ≤ tick')
    (hmax : tick' + millsec < 9223372036854775808) : wrap64 tick < wrap64 (tick' + millsec) := by
  unfold wrap64
  omega

/-- The account of a pass: what its log says about the agenda of pending timers. -/
structure Worked (c : Config) (tick : ℕ) (t : Config) (l : List Obs)
    (added dropped : Multiset Timer) (taken : List Timer) : Prop where
  log : t.log = c.log ++ l
  work : WorkedOff Timer.expire (wrap64 tick) c.sched.pending added dropped taken t.sched.pending
  popped : poppedIds l = taken.map Timer.id
  cancelled : ∀ id, .cancel id true ∈ l ↔ ∃ x ∈ dropped, x.id = id
  adds : ∀ x, x ∈ added ↔ .added x.id x.sink x.expire ∈ l
  /-- Ids are not given out twice. -/
  ids : ((c.sched.pending + added).map Timer.id).Nodup
  below : ∀ x ∈ c.sched.pending + added, x.id < t.sched.nextId
  /-- When the pass has ended, no timer is due. -/
  done : t.ctl = .idle → ∀ x ∈ t.sched.pending, wrap64 tick < x.expire

theorem Worked.begin (hinv : Inv c) (tick : ℕ) : Worked c tick (c.enter tick) [] 0 0 [] where
  log := (List.append_nil _).symm
  work := .begin _ _ _
  popped := rfl
  cancelled id := by simp
  adds x := by simp
  ids := by simpa using hinv.pending_ids.1
  below x hx := hinv.pending_ids.2 x (by simpa using hx)
  done hidle := nomatch hidle

/-- A due timer was pending when the pass began. -/
theorem Worked.mem_start (h : Worked c tick t l added dropped taken) (hx : x ∈ t.sched.pending)
    (hdue : x.expire ≤ wrap64 tick) : x ∈ c.sched.pending := by
  have hmem : x ∈ c.sched.pending + added := by
    rw [h.work.account]
    exact Multiset.mem_add.mpr (Or.inr hx)
  refine (Multiset.mem_add.mp hmem).resolve_right fun hadd => ?_
  exact absurd (h.work.late x hadd) hdue.not_gt

/-- A callback creates a timer. -/
theorem Worked.add (h : Worked c tick t l added dropped taken) (hne : t.ctl ≠ .idle)
    (hid : x.id = t.sched.nextId) (hlate : wrap64 tick < x.expire) (hctl : u.ctl = t.ctl)
    (hnext : u.sched.nextId = t.sched.nextId + 1)
    (hlog : u.log = t.log ++ [.added x.id x.sink x.expire])
    (hp : u.sched.pending = x ::ₘ t.sched.pending) :
    Worked c tick u (l ++ [.added x.id x.sink x.expire]) (x ::ₘ added) dropped taken where
  log := by rw [hlog, h.log, List.append_assoc]
  work := by
    rw [hp]
    exact h.work.add hlate
  popped := by simpa [poppedIds] using h.popped
  cancelled id := by simpa using h.cancelled id
  adds y := by
    rw [Multiset.mem_cons, h.adds y, List.mem_append, List.mem_singleton, or_comm]
    refine or_congr Iff.rfl ⟨fun hy => by rw [hy], fun hy => ?_⟩
    obtain ⟨hyid, hysink, hyexp⟩ := Obs.added.inj hy
    cases x
    cases y
    simp_all
  ids := by
    rw [Multiset.add_cons, Multiset.map_cons, Multiset.nodup_cons]
    refine ⟨fun hmem => ?_, h.ids⟩
    obtain ⟨y, hy, hyid⟩ := Multiset.mem_map.mp hmem
    have := h.below y hy
    omega
  below y hy := by
    rw [Multiset.add_cons, Multiset.mem_cons] at hy
    rcases hy with rfl | hy
    · omega
    · have := h.below y hy
      omega
  done hidle := absurd (hctl ▸ hidle) hne

/-- A callback cancels a pending timer. -/
theorem Worked.drop (h : Worked c tick t l added dropped taken) (hne : t.ctl ≠ .idle)
    (hctl : u.ctl = t.ctl) (hnext : u.sched.nextId = t.sched.nextId)
    (hlog : u.log = t.log ++ [.cancel x.id true])
    (hp : t.sched.pending = x ::ₘ u.sched.pending) :
    Worked c tick u (l ++ [.cancel x.id true]) added (x ::ₘ dropped) taken where
  log := by rw [hlog, h.log, List.append_assoc]
  work := h.work.drop hp
  popped := by simpa [poppedIds] using h.popped
  cancelled id := by
    rw [List.mem_append, h.cancelled id, List.mem_singleton]
    simp only [Multiset.mem_cons, or_and_right, exists_or, exists_eq_left, Obs.cancel.injEq,
      and_true]
    rw [or_comm, eq_comm]
  adds y := by simpa using h.adds y
  ids := h.ids
  below y hy := hnext ▸ h.below y hy
  done hidle := absurd (hctl ▸ hidle) hne

/-- A round takes the timer that expires first. -/
theorem Worked.take (h : Worked c tick t l added dropped taken)
    (hu : u.ctl ≠ .idle) (hnext : u.sched.nextId = t.sched.nextId)
    (hdue : x.expire ≤ wrap64 tick) (hmin : ∀ y ∈ u.sched.pending, x.expire ≤ y.expire)
    (hlog : u.log = t.log ++ .popped x.id now :: (x.sink.map (Obs.timeout x.id)).toList)
    (hp : t.sched.pending = x ::ₘ u.sched.pending) :
    ∃ l', Worked c tick u l' added dropped (taken ++ [x]) := by
  refine ⟨l ++ .popped x.id now :: (x.sink.map (Obs.timeout x.id)).toList, ?_, ?_, ?_, ?_, ?_,
    h.ids, fun y hy => hnext ▸ h.below y hy, fun hidle => absurd hidle hu⟩
  · rw [hlog, h.log, List.append_assoc]
  · exact h.work.take hp hdue hmin
  · rw [poppedIds_append, poppedIds_pop, h.popped, List.map_append]
    rfl
  · intro id
    rw [← h.cancelled id]
    cases x.sink <;> simp
  · intro y
    rw [h.adds y]
    cases x.sink <;> simp

/-- An event that changes nothing about the timers. -/
theorem Worked.keep (h : Worked c tick t l added dropped taken) {l' : List Obs}
    (hlog : u.log = t.log ++ l') (hquiet : l' = [] ∨ ∃ id, l' = [.cancel id false])
    (hnext : u.sched.nextId = t.sched.nextId) (hp : u.sched.pending = t.sched.pending)
    (hdone : u.ctl = .idle → ∀ x ∈ u.sched.pending, wrap64 tick < x.expire) :
    Worked c tick u (l ++ l') added dropped taken where
  log := by rw [hlog, h.log, List.append_assoc]
  work := hp ▸ h.work
  popped := by
    rcases hquiet with rfl | ⟨id, rfl⟩
    · simpa using h.popped
    · simpa [poppedIds] using h.popped
  cancelled id := by
    rcases hquiet with rfl | ⟨i, rfl⟩
    · simpa using h.cancelled id
    · simpa using h.cancelled id
  adds y := by
    rcases hquiet with rfl | ⟨i, rfl⟩
    · simpa using h.adds y
    · simpa using h.adds y
  ids := h.ids
  below y hy := hnext ▸ h.below y hy
  done := hdone

/-- The account after an event. -/
theorem Worked.step (h : Worked c tick t l added dropped taken)
    (hin : t.ctl.Within (wrap64 tick) c.sched.nextId) (hbelow : ∀ y ∈ c.sched.pending,
      y.id < c.sched.nextId) (hpos : PositiveDelay e) (hclock : ClockFrom tick e)
    (hturn : Turn t e u) :
    ∃ l' added' dropped' taken', Worked c tick u l' added' dropped' taken' := by
  have hne : t.ctl ≠ .idle := by
    intro hidle
    rw [hidle] at hin
    exact hin
  cases hturn with
  | @added a tick' millsec sink _ hctl hnext hlog hp =>
    have hlate := lt_expire hpos hclock.1 hclock.2
    exact ⟨_, _, _, _, h.add (x := ⟨t.sched.nextId, _, sink⟩) hne rfl hlate hctl hnext hlog hp⟩
  | missed hctl hsched hlog =>
    exact ⟨_, _, _, _, h.keep hlog (Or.inr ⟨_, rfl⟩) (by rw [hsched]) (by rw [hsched])
      fun hidle => absurd (hctl ▸ hidle) hne⟩
  | cancelled hctl hnext hlog hp => exact ⟨_, _, _, _, h.drop hne hctl hnext hlog hp⟩
  | entered hctl => exact absurd hctl hne
  | left hctl hlate =>
    rw [hctl] at hin
    exact ⟨_, _, _, _, h.keep (List.append_nil _).symm (Or.inl rfl) rfl rfl
      fun _ x hx => hin.1 ▸ hlate x hx⟩
  | spun hctl htop hdue hid =>
    -- a due timer is an old one, and those have ids below `last_id`
    rw [hctl] at hin
    have hold := hbelow _ (h.mem_start (mem_pending_of_top htop) (hin.1 ▸ hdue))
    exact absurd hid (hin.2 ▸ hold.not_gt)
  | popped hctl hd hnext htop hdue hid hmin hp hlog =>
    have hu : u.ctl ≠ .idle := by
      intro hidle
      rw [hidle] at hd
      exact hd
    rw [hctl] at hin
    obtain ⟨l', hl'⟩ := h.take hu hnext (hin.1 ▸ hdue) hmin hlog hp
    exact ⟨_, _, _, _, hl'⟩
  | returned hctl hd hnext hlog hp =>
    have hlog' : u.log = t.log ++ [] := by rw [hlog, List.append_nil]
    refine ⟨_, _, _, _, h.keep hlog' (Or.inl rfl) hnext hp fun hidle => ?_⟩
    rw [hd] at hidle
    cases hidle

/-! ### The whole pass -/

/-- What was dropped is what was cancelled. -/
theorem Worked.mem_dropped_iff (h : Worked c tick t l added dropped taken)
    (hx : x ∈ c.sched.pending + added) : x ∈ dropped ↔ .cancel x.id true ∈ l := by
  rw [h.cancelled]
  constructor
  · intro hmem
    exact ⟨x, hmem, rfl⟩
  · rintro ⟨y, hy, hyx⟩
    have hy' : y ∈ c.sched.pending + added := by
      rw [h.work.account]
      exact Multiset.mem_add.mpr (Or.inl (Multiset.mem_add.mpr (Or.inr hy)))
    exact Multiset.inj_on_of_nodup_map h.ids y hy' x hx hyx ▸ hy

section

variable (hsafe : EachStep step Config.init (es ++ .updateTimer tick :: gs) fun _ => Safe)
  (hfew : FewTimers (es ++ .updateTimer tick :: gs)) (hrun : runs es = some c)
  (hpos : ∀ g ∈ gs, PositiveDelay g) (hclock : ∀ g ∈ gs, ClockFrom tick g)

include hsafe hfew hrun hpos hclock

/-- The account of a pass with positive delays. -/
theorem Pass.worked (hpass : Pass c tick gs d) :
    ∃ l added dropped taken, Worked c tick d l added dropped taken := by
  have hinv : Inv c := (inv_of_safe (hsafe.of_prefix (List.prefix_append _ _))
    (hfew.of_prefix (List.prefix_append _ _)) hrun).1
  refine hpass.turn_induction hsafe hfew hrun
    (P := fun _ t => ∃ l added dropped taken, Worked c tick t l added dropped taken)
    ⟨_, _, _, _, .begin hinv tick⟩ fun hs e t u hp ht hin ⟨_, _, _, _, h⟩ hturn => ?_
  have he : e ∈ gs := hp.subset (List.mem_append_right hs (List.mem_singleton_self e))
  exact h.step hin hinv.pending_ids.2 (hpos e he) (hclock e he) hturn

/-- No timer created in the pass is due when it comes to the top of the heap. -/
theorem Pass.topOld (hpass : Pass c tick gs d) :
    EachStep step (c.enter tick) gs fun _ => TopOld := by
  rintro hs e t hp ht rfl now lastId x hctl htop hdue
  have hhs : hs <+: gs := (List.prefix_append hs [_]).trans hp
  have hpass' : Pass c tick hs t := hpass.of_prefix hhs ht
  have hcall : es ++ .updateTimer tick :: hs <+: es ++ .updateTimer tick :: gs := isPrefix_call hhs
  obtain ⟨_, _, _, _, h⟩ := hpass'.worked (hsafe.of_prefix hcall) (hfew.of_prefix hcall) hrun
    (fun g hg => hpos g (hhs.subset hg)) fun g hg => hclock g (hhs.subset hg)
  have hinv : Inv c := (inv_of_safe (hsafe.of_prefix (List.prefix_append _ _))
    (hfew.of_prefix (List.prefix_append _ _)) hrun).1
  have hin := hpass'.within.resolve_left (hpass.inside hs _ t hp ht)
  rw [hctl] at hin
  have hstart := h.mem_start (mem_pending_of_top htop) (hin.1 ▸ hdue)
  exact hin.2 ▸ hinv.pending_ids.2 x hstart

/-- **A pass is exact and ordered.**  It ends after at most one round more than there were pending
timers; by then it has taken exactly the timers that were pending at its beginning, were due and
have not been cancelled, each once and in the order of their expiry times; and pending are the
others that have not been cancelled, with those that callbacks have created and not cancelled. -/
theorem updateTimer_exact (hpass : Pass c tick gs d) :
    rounds gs ≤ Multiset.card c.sched.pending + 1 ∧
    (∀ e, e = .round ∨ e = .timeoutReturn → Enabled d e → ∃ u, step d e = some u) ∧
    (d.ctl = .idle → ∃ taken : List Timer,
      poppedIds (c.since d) = taken.map Timer.id ∧ taken.Nodup ∧
      taken.Pairwise (fun x y => x.expire ≤ y.expire) ∧
      (∀ x, x ∈ taken ↔ x ∈ c.sched.pending ∧ x.expire ≤ wrap64 tick ∧
        .cancel x.id true ∉ c.since d) ∧
      d.sched.pending.Nodup ∧
      ∀ x, x ∈ d.sched.pending ↔
        (x ∈ c.sched.pending ∧ x ∉ taken ∧ .cancel x.id true ∉ c.since d) ∨
        (.added x.id x.sink x.expire ∈ c.since d ∧ .cancel x.id true ∉ c.since d)) := by
  obtain ⟨l, hcount⟩ := hpass.countdown hsafe hfew hrun
    (hpass.topOld hsafe hfew hrun hpos hclock)
  have hleft := hcount.old
  have hended := hcount.ended
  refine ⟨by omega, fun e he hen => hpass.exists_step hsafe hfew hrun he hen, fun hidle => ?_⟩
  obtain ⟨l, added, dropped, taken, h⟩ := hpass.worked hsafe hfew hrun hpos hclock
  have hnd : (c.sched.pending + added).Nodup := h.ids.of_map _
  have hmem : ∀ {x}, x ∈ c.sched.pending → x ∈ c.sched.pending + added := fun hx =>
    Multiset.mem_add.mpr (Or.inl hx)
  have hmem' : ∀ {x}, x ∈ added → x ∈ c.sched.pending + added := fun hx =>
    Multiset.mem_add.mpr (Or.inr hx)
  rw [Config.since_eq h.log]
  refine ⟨taken, h.popped, h.work.nodup_taken hnd, h.work.sorted, fun x => ?_, ?_, fun x => ?_⟩
  · rw [h.work.mem_taken_iff hnd (h.done hidle)]
    exact and_congr_right fun hx => and_congr_right fun _ =>
      not_congr (h.mem_dropped_iff (hmem hx))
  · rw [h.work.account, Multiset.nodup_add] at hnd
    exact hnd.2.1
  · rw [h.work.mem_rest_iff hnd, ← h.adds x]
    refine or_congr (and_congr_right fun hx => and_congr_right fun _ => ?_)
      (and_congr_right fun hx => ?_)
    · exact not_congr (h.mem_dropped_iff (hmem hx))
    · exact not_congr (h.mem_dropped_iff (hmem' hx))

end

/-- Four timers, of which three are due at 30. -/
def agendaRun : List Event :=
  [.addTimer 0 5 20 (some 7), .addTimer 1 5 10 (some 8), .addTimer 2 5 12 none,
    .addTimer 3 5 500 none]

/-- The callback of the first of them creates a timer and cancels the last one. -/
def agendaPass : List Event :=
  [.round, .addTimer 4 30 1 none, .cancelTimer 100, .timeoutReturn, .round, .round]

theorem updateTimer_exact_agenda : ∃ c d, runs agendaRun = some c ∧ Pass c 30 agendaPass d ∧
    d.ctl = .idle ∧ poppedIds (c.since d) = [101, 102] ∧ ∃ taken : List Timer,
      poppedIds (c.since d) = taken.map Timer.id ∧
      taken.Pairwise (fun x y => x.expire ≤ y.expire) := by
  have hpasses : (runs agendaRun).map (fun c => passes c 30 agendaPass) = some true := by
    decide +kernel
  have hends : ((runs agendaRun).bind fun c => (run step (c.enter 30) agendaPass).map fun d =>
      (d.ctl, poppedIds (c.since d))) = some (.idle, [101, 102]) := by
    decide +kernel
  obtain ⟨c, hc, hpasses⟩ := Option.map_eq_some_iff.mp hpasses
  obtain ⟨d, hpass⟩ := exists_pass hpasses
  rw [hc, Option.bind_some, hpass.run, Option.map_some, Option.some.injEq] at hends
  obtain ⟨hctl, hpopped⟩ := Prod.mk.inj hends
  have hsafe : EachStep step Config.init (agendaRun ++ .updateTimer 30 :: agendaPass)
      fun _ => Safe := eachStep_iff_checkSteps.mpr (by decide +kernel)
  obtain ⟨taken, htaken, -, hsorted, -⟩ := (updateTimer_exact hsafe (by decide) hc
    (by simp [agendaPass, PositiveDelay]) (by simp [agendaPass, ClockFrom]) hpass).2.2 hctl
  exact ⟨c, d, hc, hpass, hctl, hpopped, taken, htaken, hsorted⟩

end TimerSched

end WinsockTut
