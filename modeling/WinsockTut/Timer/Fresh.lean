import Mathlib.Data.Multiset.Count
import WinsockTut.Timer.Pass

/-!
# Timers that are created during a pass

`UpdateTimer` does not want to process the timers that its callbacks create, and compares their ids
with the `next_id_` that it has read at the beginning.  The test `entry->id > last_id` misses the
first of them, whose id is equal: if it is due, it fires in the same pass.  For the others, the
`continue` leaves the timer at the top of the heap, and if it is due the loop comes back to it
without end (`run_eq_of_skipped`).  The pass ends, and processes only timers that were pending when
it began, if no such timer is due when it comes to the top.
-/

namespace WinsockTut

namespace TimerSched

open BinHeap Runs Word Function

variable {c d t u : Config} {e : Event} {es gs hs : List Event} {l : List Obs} {tick : ℕ}
  {now lastId : ℤ} {x : Timer}

/-- If the event is a round of the loop, the timer at the top of the heap satisfies `P`, together
with the local variables `now` and `last_id`. -/
def AtTop (P : ℤ → ℤ → Timer → Prop) (c : Config) (e : Event) : Prop :=
  e = .round → ∀ now lastId x, c.ctl = .loop now lastId → c.sched.top = some x → P now lastId x

/-- No round of the loop finds a timer at the top of the heap that is due and was created during
this pass. -/
def TopOld : Config → Event → Prop := AtTop fun now lastId x => x.expire ≤ now → x.id < lastId

/-- No round of the loop finds the first timer that was created during this pass at the top of the
heap, due and with a sink. -/
def TopNotFirst : Config → Event → Prop :=
  AtTop fun now lastId x => x.expire ≤ now → x.id = lastId → x.sink = none

instance {P : ℤ → ℤ → Timer → Prop} [∀ now lastId x, Decidable (P now lastId x)] (c : Config)
    (e : Event) : Decidable (AtTop P c e) :=
  match e with
  | .round =>
    match hctl : c.ctl, htop : c.sched.top with
    | .loop now lastId, some x => decidable_of_iff (P now lastId x)
        ⟨fun h _ _ _ _ hl hx => by
          obtain ⟨rfl, rfl⟩ := Control.loop.inj (hctl.symm.trans hl)
          obtain rfl := Option.some.inj (htop.symm.trans hx)
          exact h, fun h => h rfl _ _ _ hctl htop⟩
    | .loop _ _, none => isTrue fun _ _ _ _ _ hx => by simp [htop] at hx
    | .idle, _ => isTrue fun _ _ _ _ hl => by simp [hctl] at hl
    | .callback _ _ _, _ => isTrue fun _ _ _ _ hl => by simp [hctl] at hl
  | .addTimer _ _ _ _ | .cancelTimer _ | .updateTimer _ | .timeoutReturn =>
    isTrue fun he => nomatch he

instance (c : Config) (e : Event) : Decidable (TopOld c e) :=
  inferInstanceAs (Decidable (AtTop _ c e))

instance (c : Config) (e : Event) : Decidable (TopNotFirst c e) :=
  inferInstanceAs (Decidable (AtTop _ c e))

/-! ### The pass ends -/

@[simp] theorem poppedIds_append (l l' : List Obs) :
    poppedIds (l ++ l') = poppedIds l ++ poppedIds l' := by
  simp [poppedIds]

@[simp] theorem timeoutIds_append (l l' : List Obs) :
    timeoutIds (l ++ l') = timeoutIds l ++ timeoutIds l' := by
  simp [timeoutIds]

@[simp] theorem addedIds_append (l l' : List Obs) :
    addedIds (l ++ l') = addedIds l ++ addedIds l' := by
  simp [addedIds]

/-- The log of a timer that is taken off the heap. -/
theorem poppedIds_pop (id now : ℤ) (sink : Option Sink) :
    poppedIds (.popped id now :: (sink.map (Obs.timeout id)).toList) = [id] := by
  cases sink <;> rfl

theorem timeoutIds_pop (id now : ℤ) (sink : Option Sink) :
    timeoutIds (.popped id now :: (sink.map (Obs.timeout id)).toList) =
      (sink.map fun _ => id).toList := by
  cases sink <;> rfl

/-- The number of rounds of the loop. -/
def rounds (hs : List Event) : ℕ := hs.count .round

theorem rounds_append_round (hs : List Event) : rounds (hs ++ [.round]) = rounds hs + 1 := by
  simp [rounds]

theorem rounds_append_of_ne (he : e ≠ .round) : rounds (hs ++ [e]) = rounds hs := by
  rw [rounds, List.count_append, List.count_singleton]
  simp [he, rounds]

/-- The number of the timers pending in `t` whose ids had been given out in `c`. -/
def oldPending (c t : Config) : ℕ := t.sched.pending.countP fun x => x.id < c.sched.nextId

/-- The count of the timers that were pending when the pass began and still are: it falls with every
timer that is taken, and never grows. -/
structure Countdown (c : Config) (hs : List Event) (t : Config) (l : List Obs) : Prop where
  log : t.log = c.log ++ l
  nextId : c.sched.nextId ≤ t.sched.nextId
  timeouts : (timeoutIds l).length ≤ (poppedIds l).length
  old : (poppedIds l).length + oldPending c t ≤ Multiset.card c.sched.pending
  /-- Every round but the last takes a timer. -/
  ended : rounds hs ≤ (poppedIds l).length + 1
  inside : t.ctl ≠ .idle → rounds hs ≤ (poppedIds l).length

theorem Countdown.begin (c : Config) (tick : ℕ) : Countdown c [] (c.enter tick) [] where
  log := (List.append_nil _).symm
  nextId := le_rfl
  timeouts := le_rfl
  old := (Nat.zero_add _).trans_le (Multiset.countP_le_card _ c.sched.pending)
  ended := Nat.zero_le _
  inside _ := Nat.zero_le _

/-- An event of a callback keeps the count. -/
theorem Countdown.keep (h : Countdown c hs t l) {l' : List Obs} (he : e ≠ .round)
    (hin : t.ctl ≠ .idle) (hlog : u.log = t.log ++ l') (hnext : t.sched.nextId ≤ u.sched.nextId)
    (hpops : poppedIds l' = []) (htimeouts : timeoutIds l' = [])
    (hold : oldPending c u ≤ oldPending c t) : Countdown c (hs ++ [e]) u (l ++ l') := by
  have hpops' : poppedIds (l ++ l') = poppedIds l := by
    rw [poppedIds_append, hpops, List.append_nil]
  have hinside : rounds (hs ++ [e]) ≤ (poppedIds l).length := by
    rw [rounds_append_of_ne he]
    exact h.inside hin
  refine ⟨?_, h.nextId.trans hnext, ?_, ?_, ?_, fun _ => ?_⟩
  · rw [hlog, h.log, List.append_assoc]
  · rw [timeoutIds_append, htimeouts, List.append_nil, hpops']
    exact h.timeouts
  · rw [hpops']
    exact (Nat.add_le_add_left hold _).trans h.old
  · rw [hpops']
    exact hinside.trans (Nat.le_succ _)
  · rwa [hpops']

/-- A round that takes an old timer lowers the count. -/
theorem Countdown.take (h : Countdown c hs t l) (hin : t.ctl ≠ .idle)
    (hx : x.id < c.sched.nextId) (hnext : u.sched.nextId = t.sched.nextId)
    (hp : t.sched.pending = x ::ₘ u.sched.pending)
    (hlog : u.log = t.log ++ .popped x.id now :: (x.sink.map (Obs.timeout x.id)).toList) :
    ∃ l', Countdown c (hs ++ [.round]) u l' := by
  refine ⟨l ++ .popped x.id now :: (x.sink.map (Obs.timeout x.id)).toList, ?_⟩
  have hpops : (poppedIds (l ++ .popped x.id now ::
      (x.sink.map (Obs.timeout x.id)).toList)).length = (poppedIds l).length + 1 := by
    rw [poppedIds_append, poppedIds_pop, List.length_append, List.length_singleton]
  have htimeouts : ((x.sink.map fun _ => x.id).toList).length ≤ 1 := by
    cases x.sink with
    | none => exact Nat.zero_le 1
    | some k => exact le_rfl
  have hfewer : oldPending c t = oldPending c u + 1 := by
    have hcons := Multiset.countP_cons_of_pos (p := fun x : Timer => x.id < c.sched.nextId)
      u.sched.pending hx
    rw [oldPending, hp, hcons]
    rfl
  have hinside := h.inside hin
  have hbefore := h.timeouts
  have hold := h.old
  refine ⟨?_, hnext ▸ h.nextId, ?_, ?_, ?_, fun _ => ?_⟩
  · rw [hlog, h.log, List.append_assoc]
  · rw [hpops, timeoutIds_append, timeoutIds_pop, List.length_append]
    omega
  · omega
  · rw [hpops, rounds_append_round]
    omega
  · rw [hpops, rounds_append_round]
    omega

/-- The count after an event, if no timer created in this pass comes up. -/
theorem Countdown.step (h : Countdown c hs t l) (hin : t.ctl.Within now c.sched.nextId)
    (hold : TopOld t e) (hturn : Turn t e u) : ∃ l', Countdown c (hs ++ [e]) u l' := by
  have hne : t.ctl ≠ .idle := by
    intro hidle
    rw [hidle] at hin
    exact hin
  cases hturn with
  | added hctl hnext hlog hp =>
    refine ⟨_, h.keep (fun he => nomatch he) hne hlog (by omega) rfl rfl ?_⟩
    -- the id of the new timer is not below the `next_id_` of the beginning
    have hnew : ¬ t.sched.nextId < c.sched.nextId := not_lt.mpr h.nextId
    rw [oldPending, hp, Multiset.countP_cons_of_neg (p := fun x : Timer => x.id < c.sched.nextId)
      _ hnew]
    exact le_rfl
  | missed hctl hsched hlog =>
    exact ⟨_, h.keep (fun he => nomatch he) hne hlog (by rw [hsched]) rfl rfl
      (by rw [oldPending, hsched, oldPending])⟩
  | cancelled hctl hnext hlog hp =>
    refine ⟨_, h.keep (fun he => nomatch he) hne hlog hnext.ge rfl rfl ?_⟩
    rw [oldPending, oldPending, hp]
    exact Multiset.countP_le_of_le _ (Multiset.le_cons_self _ _)
  | entered hctl => exact absurd hctl hne
  | left hctl hlate =>
    have hinside := h.inside hne
    refine ⟨l, h.log, h.nextId, h.timeouts, h.old, ?_, fun hidle => absurd rfl hidle⟩
    rw [rounds_append_round]
    omega
  | @spun _ lastId x hctl htop hdue hid =>
    have := hold rfl _ _ x hctl htop hdue
    omega
  | @popped n lastId x _ hctl hd hnext htop hdue hid hmin hp hlog =>
    have hlast : lastId = c.sched.nextId := by
      rw [hctl] at hin
      exact hin.2
    exact h.take hne (hlast ▸ hold rfl _ _ x hctl htop hdue) hnext hp hlog
  | returned hctl hd hnext hlog hp =>
    have hlog' : u.log = t.log ++ [] := by rw [hlog, List.append_nil]
    exact ⟨_, h.keep (fun he => nomatch he) hne hlog' hnext.ge rfl rfl
      (by rw [oldPending, hp, oldPending])⟩

section

variable (hsafe : EachStep step Config.init (es ++ .updateTimer tick :: gs) fun _ => Safe)
  (hfew : FewTimers (es ++ .updateTimer tick :: gs)) (hrun : runs es = some c)

include hsafe hfew hrun

/-- The count along a pass in which no timer created by it comes up. -/
theorem Pass.countdown (hpass : Pass c tick gs d)
    (hold : EachStep step (c.enter tick) gs fun _ => TopOld) : ∃ l, Countdown c gs d l :=
  hpass.turn_induction hsafe hfew hrun (P := fun hs t => ∃ l, Countdown c hs t l)
    ⟨[], .begin c tick⟩
    fun hs e t _ hp ht hin ⟨_, hl⟩ hturn => hl.step hin (hold hs e t hp ht) hturn

/-- **`UpdateTimer` ends**, after at most as many callbacks as there were pending timers, if no
timer that was created during the pass comes to the top of the heap while it is due.  The loop takes
at most one round more, and none of them runs into undefined behaviour. -/
theorem updateTimer_ends (hpass : Pass c tick gs d)
    (hold : EachStep step (c.enter tick) gs fun _ => TopOld) :
    (timeoutIds (c.since d)).length ≤ Multiset.card c.sched.pending ∧
      rounds gs ≤ Multiset.card c.sched.pending + 1 ∧
      ∀ e, e = .round ∨ e = .timeoutReturn → Enabled d e → ∃ u, step d e = some u := by
  obtain ⟨l, hcount⟩ := hpass.countdown hsafe hfew hrun hold
  have hleft := hcount.old
  have htimeouts := hcount.timeouts
  have hended := hcount.ended
  refine ⟨?_, by omega, fun e he hen => hpass.exists_step hsafe hfew hrun he hen⟩
  rw [Config.since_eq hcount.log]
  omega

end

/-- **The loop spins.**  Once a due timer with an id above `last_id` is at the top of the heap,
nothing else than the same round can ever happen, and it changes nothing. -/
theorem run_eq_of_skipped {fs : List Event} (hctl : d.ctl = .loop now lastId)
    (htop : d.sched.top = some x) (hdue : x.expire ≤ now) (hid : lastId < x.id)
    (hrun : run step d fs = some u) : u = d := by
  refine run_induction (P := fun _ u => u = d) rfl (fun _ e t u _ _ ht hstep => ?_) hrun
  subst ht
  -- a round of the loop finds the timer, and skips it
  have hskip : ∀ n l s r, t.ctl = .loop n l → t.sched.updateRound n l = some (s, r) →
      r = .skip ∧ s = t.sched := by
    intro n l s r hl hround
    obtain ⟨rfl, rfl⟩ := Control.loop.inj (hctl.symm.trans hl)
    rcases updateRound_of_due htop hdue hround with ⟨-, hr, hs⟩ | ⟨hle, -⟩
    · exact ⟨hr, hs⟩
    · omega
  cases taken_of_step hstep with
  | added hcall => simp [hctl, Control.canCall] at hcall
  | cancelled hcall => simp [hctl, Control.canCall] at hcall
  | entered hidle => simp [hctl] at hidle
  | returned hback => simp [hctl] at hback
  | left hl hround => cases (hskip _ _ _ _ hl hround).1
  | skipped hl hround => rw [(hskip _ _ _ _ hl hround).2]
  | fired hl hround => cases (hskip _ _ _ _ hl hround).1
  | dropped hl hround => cases (hskip _ _ _ _ hl hround).1

/-! ### The first timer that is created -/

/-- The timer at the top of the heap is due, and a round with this `last_id` takes it and calls its
sink. -/
structure Firing (c : Config) (lastId : ℤ) (x : Timer) : Prop where
  loop : ∃ now, c.ctl = .loop now lastId ∧ x.expire ≤ now
  top : c.sched.top = some x
  id : x.id ≤ lastId
  sink : x.sink ≠ none

/-- **What a step writes to the log**, about the timers that are created and those that fire. -/
theorem log_of_step (hstep : step c e = some d) :
    ∃ l, d.log = c.log ++ l ∧ (∀ id ∈ addedIds l, id = c.sched.nextId) ∧
      ∀ id ∈ timeoutIds l, e = .round ∧ ∃ lastId x, Firing c lastId x ∧ x.id = id := by
  have hquiet : ∀ l, d.log = c.log ++ l → addedIds l = [] → timeoutIds l = [] →
      ∃ l, d.log = c.log ++ l ∧ (∀ id ∈ addedIds l, id = c.sched.nextId) ∧
        ∀ id ∈ timeoutIds l, e = .round ∧ ∃ lastId x, Firing c lastId x ∧ x.id = id :=
    fun l hl hadds htimeouts => ⟨l, hl, by simp [hadds], by simp [htimeouts]⟩
  cases taken_of_step hstep with
  | added _ hadd =>
    refine ⟨_, rfl, fun id hid => ?_, fun id hid => absurd hid List.not_mem_nil⟩
    rw [List.mem_singleton.mp hid]
    exact (addTimer_ids hadd).1
  | cancelled => exact hquiet _ rfl rfl rfl
  | entered => exact hquiet [] (List.append_nil _).symm rfl rfl
  | left => exact hquiet [] (List.append_nil _).symm rfl rfl
  | skipped => exact hquiet [] (List.append_nil _).symm rfl rfl
  | dropped => exact hquiet _ rfl rfl rfl
  | returned => exact hquiet [] (List.append_nil _).symm rfl rfl
  | @fired now lastId s a y k hctl hround hsink =>
    refine ⟨_, rfl, fun id hid => absurd hid List.not_mem_nil, fun id hid => ?_⟩
    obtain ⟨-, ⟨hr, -⟩ | ⟨hr, -⟩ | ⟨b, z, hr, htop, hdue, hle⟩⟩ := updateRound_top hround
    · cases hr
    · cases hr
    · obtain ⟨rfl, rfl⟩ := Round.popped.inj hr
      refine ⟨rfl, lastId, _, ⟨⟨now, hctl, hdue⟩, htop, hle, ?_⟩, (List.mem_singleton.mp hid).symm⟩
      simp [hsink]

/-- Such a round calls the sink. -/
theorem Firing.timeout (h : Firing c lastId x) (hstep : step c .round = some d) :
    ∃ l, d.log = c.log ++ l ∧ x.id ∈ timeoutIds l := by
  obtain ⟨⟨now, hctl, hdue⟩, htop, hid, hsink⟩ := h
  have hpop : ∀ n l s r, c.ctl = .loop n l → c.sched.updateRound n l = some (s, r) →
      ∃ a e, r = .popped a e ∧ x = ⟨e.id, e.expire, e.sink⟩ := by
    intro n l s r hl hround
    obtain ⟨rfl, rfl⟩ := Control.loop.inj (hctl.symm.trans hl)
    rcases updateRound_of_due htop hdue hround with ⟨hlt, -⟩ | ⟨-, hpop⟩
    · omega
    · exact hpop
  cases taken_of_step hstep with
  | left hl hround =>
    obtain ⟨_, _, hr, -⟩ := hpop _ _ _ _ hl hround
    cases hr
  | skipped hl hround =>
    obtain ⟨_, _, hr, -⟩ := hpop _ _ _ _ hl hround
    cases hr
  | fired hl hround hk =>
    obtain ⟨_, _, hr, rfl⟩ := hpop _ _ _ _ hl hround
    obtain ⟨rfl, rfl⟩ := Round.popped.inj hr
    exact ⟨_, rfl, List.mem_singleton_self _⟩
  | dropped hl hround hk =>
    obtain ⟨_, _, hr, rfl⟩ := hpop _ _ _ _ hl hround
    obtain ⟨rfl, rfl⟩ := Round.popped.inj hr
    exact absurd hk hsink

/-- The log only grows. -/
theorem log_prefix_of_run (hrun : run step c es = some d) : c.log <+: d.log := by
  refine run_induction (P := fun _ d => c.log <+: d.log) List.prefix_rfl
    (fun _ e t u _ _ ht hstep => ?_) hrun
  obtain ⟨l, hl, -⟩ := log_of_step hstep
  exact ht.trans ⟨l, hl.symm⟩

/-- The ids given out during a pass are not below the `next_id_` of its beginning. -/
theorem Pass.nextId_le (hpass : Pass c tick gs d)
    (hfew : FewTimers (es ++ .updateTimer tick :: gs)) (hrun : runs es = some c) :
    c.sched.nextId ≤ d.sched.nextId := by
  have hc := (countInv_of_few (hfew.of_prefix (List.prefix_append _ _)) hrun).nextId
  have hd := (countInv_of_few hfew (hpass.run_init hrun)).nextId
  rw [created_append] at hd
  omega

/-- A timer at the top of the heap whose id was not given out before the pass was created during
it. -/
theorem Pass.mem_addedIds (hpass : Pass c tick gs d)
    (hfew : FewTimers (es ++ .updateTimer tick :: gs)) (hrun : runs es = some c)
    (htop : d.sched.top = some x) (hid : c.sched.nextId ≤ x.id) : x.id ∈ addedIds (c.since d) := by
  have hbefore := countInv_of_few (hfew.of_prefix (List.prefix_append _ _)) hrun
  obtain ⟨a, -, hx⟩ := Option.bind_eq_some_iff.mp htop
  obtain ⟨y, hy, rfl⟩ := Option.map_eq_some_iff.mp hx
  have hadded := (countInv_of_few hfew (hpass.run_init hrun)).added a y hy
  obtain ⟨l, hl⟩ := log_prefix_of_run hpass.run_call
  rw [Config.since_eq hl.symm]
  rw [← hl, addedIds_append, List.mem_append] at hadded
  refine hadded.resolve_left fun hold => ?_
  have := hbefore.below _ hold
  exact absurd hid (not_le.mpr this)

/-- The first timer that is created during a pass has the id `last_id`. -/
theorem not_topNotFirst (hin : t.ctl.Within now lastId) (h : ¬ TopNotFirst t e) :
    e = .round ∧ ∃ x, Firing t lastId x ∧ x.id = lastId := by
  simp only [TopNotFirst, AtTop, not_forall] at h
  obtain ⟨he, n, l, x, hctl, htop, hdue, hid, hsink⟩ := h
  rw [hctl] at hin
  obtain ⟨rfl, rfl⟩ := hin
  exact ⟨he, x, ⟨⟨n, hctl, hdue⟩, htop, hid.le, hsink⟩, hid⟩

section

variable (hfew : FewTimers (es ++ .updateTimer tick :: gs)) (hrun : runs es = some c)

include hfew hrun

/-- As long as the first timer created in the pass does not come up, only ids below `last_id`
fire. -/
theorem Pass.timeouts_below (hpass : Pass c tick gs d)
    (hfirst : EachStep step (c.enter tick) gs fun _ => TopNotFirst) :
    ∃ l, d.log = c.log ++ l ∧ (∀ id ∈ addedIds l, c.sched.nextId ≤ id) ∧
      ∀ id ∈ timeoutIds l, id < c.sched.nextId := by
  refine hpass.induction (P := fun _ t => ∃ l, t.log = c.log ++ l ∧
    (∀ id ∈ addedIds l, c.sched.nextId ≤ id) ∧ ∀ id ∈ timeoutIds l, id < c.sched.nextId)
    ⟨[], (List.append_nil _).symm, by simp [addedIds], by simp [timeoutIds]⟩
    fun hs e t u hp hpass' hin ⟨l, hl, hadds, htimeouts⟩ hstep => ?_
  obtain ⟨l', hl', hadds', htimeouts'⟩ := log_of_step hstep
  refine ⟨l ++ l', by rw [hl', hl, List.append_assoc], fun id hid => ?_, fun id hid => ?_⟩
  · rw [addedIds_append, List.mem_append] at hid
    rcases hid with hid | hid
    · exact hadds id hid
    · rw [hadds' id hid]
      exact hpass'.nextId_le (hfew.of_prefix (isPrefix_call ((List.prefix_append hs [e]).trans hp)))
        hrun
  · rw [timeoutIds_append, List.mem_append] at hid
    rcases hid with hid | hid
    · exact htimeouts id hid
    · obtain ⟨rfl, l, x, ⟨⟨now, hctl, hdue⟩, htop, hle, hsink⟩, rfl⟩ := htimeouts' id hid
      have hlast : l = c.sched.nextId := by
        rw [hctl] at hin
        exact hin.2
      refine lt_of_le_of_ne (hlast ▸ hle) fun heq => hsink ?_
      exact hfirst hs _ t hp hpass'.run rfl now l x hctl htop hdue (heq.trans hlast.symm)

/-- If the first timer created in the pass comes up, it fires. -/
theorem Pass.exists_fired (hpass : Pass c tick gs d) {hs : List Event} (hp : hs ++ [e] <+: gs)
    (ht : Runs.run step (c.enter tick) hs = some t) (hfirst : ¬ TopNotFirst t e) :
    ∃ id ∈ addedIds (c.since d), id ∈ timeoutIds (c.since d) := by
  obtain ⟨t', u, ht', hstep, hu⟩ := exists_step_of_prefix hp hpass.run
  obtain rfl : t = t' := Option.some.inj (ht.symm.trans ht')
  have hhs : hs <+: gs := (List.prefix_append hs [e]).trans hp
  have hpass' : Pass c tick hs t := hpass.of_prefix hhs ht
  obtain ⟨rfl, x, hfiring, hid⟩ :=
    not_topNotFirst (hpass'.within.resolve_left (hpass.inside hs e t hp ht)) hfirst
  -- the timer was created in this pass, and the round calls its sink
  have hadded := hpass'.mem_addedIds (hfew.of_prefix (isPrefix_call hhs)) hrun hfiring.top hid.ge
  obtain ⟨l, hl, htimeout⟩ := hfiring.timeout hstep
  obtain ⟨l₁, hl₁⟩ := log_prefix_of_run hpass'.run_call
  obtain ⟨gs', rfl⟩ := hp
  have hrest : Runs.run step u gs' = some d := by
    have hrun' := hpass.run
    rwa [run_append, hu, Option.bind_some] at hrun'
  obtain ⟨l₂, hl₂⟩ := log_prefix_of_run hrest
  have hlog : d.log = c.log ++ (l₁ ++ l ++ l₂) := by
    rw [← hl₂, hl, ← hl₁, List.append_assoc, List.append_assoc, List.append_assoc]
  rw [Config.since_eq hl₁.symm] at hadded
  rw [Config.since_eq hlog]
  exact ⟨x.id, by simp [hadded], by simp [htimeout]⟩

/-- **The timers created by callbacks do not fire in the same pass, exactly if** no round finds the
first of them at the top of the heap, due and with a sink. -/
theorem created_not_fired_iff (hpass : Pass c tick gs d) :
    (∀ id ∈ addedIds (c.since d), id ∉ timeoutIds (c.since d)) ↔
      EachStep step (c.enter tick) gs fun _ => TopNotFirst := by
  constructor
  · intro hdisjoint hs e t hp ht
    by_contra hfirst
    obtain ⟨id, hadd, htimeout⟩ := hpass.exists_fired hfew hrun hp ht hfirst
    exact hdisjoint id hadd htimeout
  · intro hfirst
    obtain ⟨l, hlog, hadds, htimeouts⟩ := hpass.timeouts_below hfew hrun hfirst
    rw [Config.since_eq hlog]
    exact fun id hadd htimeout => absurd (hadds id hadd) (htimeouts id htimeout).not_ge

end

/-- A timer that is due at once. -/
def chainRun : List Event := [.addTimer 0 5 0 (some 7)]

/-- The callback of this timer creates two more that are due at once. -/
def chainPass : List Event :=
  [.round, .addTimer 1 5 0 (some 8), .addTimer 2 5 0 (some 9), .timeoutReturn, .round,
    .timeoutReturn]

/-- **The first of them fires in the same pass, and the second stops the loop for good**: it is at
the top of the heap, it is due, and nothing but the same round can happen any more. -/
theorem updateTimer_spins : ∃ c d, runs chainRun = some c ∧ Pass c 5 chainPass d ∧
    FewTimers (chainRun ++ .updateTimer 5 :: chainPass) ∧
    CancelledOnce (chainRun ++ .updateTimer 5 :: chainPass) ∧
    Multiset.card c.sched.pending = 1 ∧ timeoutIds (c.since d) = [100, 101] ∧
    d.ctl = .loop 5 101 ∧ ∀ fs u, run step d fs = some u → u = d := by
  have hfacts : (runs chainRun).map (fun c => (passes c 5 chainPass,
      Multiset.card c.sched.pending)) = some (true, 1) := by
    decide +kernel
  have hends : ((runs chainRun).bind fun c => (run step (c.enter 5) chainPass).map fun d =>
      (timeoutIds (c.since d), d.ctl, d.sched.top)) =
      some ([100, 101], .loop 5 101, some ⟨102, 5, some 9⟩) := by
    decide +kernel
  obtain ⟨c, hc, hpair⟩ := Option.map_eq_some_iff.mp hfacts
  obtain ⟨hpasses, hcard⟩ := Prod.mk.inj hpair
  obtain ⟨d, hpass⟩ := exists_pass hpasses
  rw [hc, Option.bind_some, hpass.run, Option.map_some, Option.some.injEq] at hends
  simp only [Prod.mk.injEq] at hends
  obtain ⟨htimeouts, hctl, htop⟩ := hends
  exact ⟨c, d, hc, hpass, by decide, by decide, hcard, htimeouts, hctl, fun fs u hu =>
    run_eq_of_skipped hctl htop (by decide) (by decide) hu⟩

/-- A pass in which a callback creates a timer that is due later. -/
def laterPass : List Event := [.round, .addTimer 1 5 10 (some 8), .timeoutReturn, .round]

theorem updateTimer_ends_laterPass : ∃ c d, runs chainRun = some c ∧ Pass c 5 laterPass d ∧
    (timeoutIds (c.since d)).length ≤ Multiset.card c.sched.pending := by
  have hfacts : (runs chainRun).map (fun c => (passes c 5 laterPass,
      checkSteps step (fun t e => decide (TopOld t e)) (c.enter 5) laterPass)) =
      some (true, true) := by
    decide +kernel
  obtain ⟨c, hc, hpair⟩ := Option.map_eq_some_iff.mp hfacts
  obtain ⟨hpasses, hold⟩ := Prod.mk.inj hpair
  obtain ⟨d, hpass⟩ := exists_pass hpasses
  have hsafe : EachStep step Config.init (chainRun ++ .updateTimer 5 :: laterPass)
      fun _ => Safe := eachStep_iff_checkSteps.mpr (by decide +kernel)
  exact ⟨c, d, hc, hpass,
    (updateTimer_ends hsafe (by decide) hc hpass (eachStep_iff_checkSteps.mpr hold)).1⟩

/-- **A timer that is created in a pass fires in it.** -/
theorem created_fires : ∃ c d, runs chainRun = some c ∧ Pass c 5 chainPass d ∧
    FewTimers (chainRun ++ .updateTimer 5 :: chainPass) ∧
    101 ∈ addedIds (c.since d) ∧ 101 ∈ timeoutIds (c.since d) := by
  have hfacts : (runs chainRun).map (fun c => (passes c 5 chainPass,
      (run step (c.enter 5) chainPass).map fun d =>
        (addedIds (c.since d), timeoutIds (c.since d)))) =
      some (true, some ([101, 102], [100, 101])) := by
    decide +kernel
  obtain ⟨c, hc, hpair⟩ := Option.map_eq_some_iff.mp hfacts
  obtain ⟨hpasses, hend⟩ := Prod.mk.inj hpair
  obtain ⟨d, hpass⟩ := exists_pass hpasses
  rw [hpass.run, Option.map_some, Option.some.injEq] at hend
  obtain ⟨hadds, htimeouts⟩ := Prod.mk.inj hend
  exact ⟨c, d, hc, hpass, by decide, by simp [hadds], by simp [htimeouts]⟩

theorem created_not_fired_laterPass : ∃ c d, runs chainRun = some c ∧ Pass c 5 laterPass d ∧
    ∀ id ∈ addedIds (c.since d), id ∉ timeoutIds (c.since d) := by
  have hfacts : (runs chainRun).map (fun c => (passes c 5 laterPass,
      checkSteps step (fun t e => decide (TopNotFirst t e)) (c.enter 5) laterPass)) =
      some (true, true) := by
    decide +kernel
  obtain ⟨c, hc, hpair⟩ := Option.map_eq_some_iff.mp hfacts
  obtain ⟨hpasses, hfirst⟩ := Prod.mk.inj hpair
  obtain ⟨d, hpass⟩ := exists_pass hpasses
  exact ⟨c, d, hc, hpass,
    (created_not_fired_iff (by decide) hc hpass).mpr (eachStep_iff_checkSteps.mpr hfirst)⟩

end TimerSched

end WinsockTut
