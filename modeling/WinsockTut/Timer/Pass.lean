import WinsockTut.Timer.Ids

/-!
# A pass of `UpdateTimer`

A pass begins with the call of `UpdateTimer` and consists of rounds of its loop and of what the
callbacks do in between.  `Turn` says what an event of a run does to the pending timers and, for a
round, why it does it; `Pass.induction` is the induction rule for passes that start in a reachable
state.

Passing an id to `CancelTimer` again, after its timer was cancelled while pending, goes through the
dangling pointer that is left in `ref_`; only the runs without such a call (`Safe` at every step)
have a defined behaviour.
-/

namespace WinsockTut

namespace TimerSched

open BinHeap Runs Word Function

variable {s t : TimerSched} {c d u : Config} {e : Event} {es gs : List Event} {tick : ℕ}
  {now lastId : ℤ} {x : Timer}

/-- The state at the head of the loop when `UpdateTimer` has read the clock as `tick`. -/
def Config.enter (c : Config) (tick : ℕ) : Config :=
  { c with ctl := .loop (wrap64 tick) c.sched.nextId }

/-- Control is in a pass with these local variables. -/
def Control.Within (now lastId : ℤ) : Control → Prop
  | .idle => False
  | .loop n l => n = now ∧ l = lastId
  | .callback n l _ => n = now ∧ l = lastId

/-- The events `gs` lead from the call of `UpdateTimer` in `c` to `d`, and the pass has not ended
before them.  It has ended in `d` if control is with the caller there. -/
structure Pass (c : Config) (tick : ℕ) (gs : List Event) (d : Config) : Prop where
  idle : c.ctl = .idle
  run : run step (c.enter tick) gs = some d
  inside : EachStep step (c.enter tick) gs fun _ t _ => t.ctl ≠ .idle

/-- What the log of `d` says about the time since `c`. -/
def Config.since (c d : Config) : List Obs := d.log.drop c.log.length

/-- The ids of the timers that were taken off the heap, in order. -/
def poppedIds (log : List Obs) : List ℤ := log.filterMap fun
  | .popped id _ => some id
  | _ => none

/-- The ids of the timers whose `OnTimeout` was called, in order. -/
def timeoutIds (log : List Obs) : List ℤ := log.filterMap fun
  | .timeout id _ => some id
  | _ => none

theorem Config.since_eq {l : List Obs} (h : d.log = c.log ++ l) : c.since d = l := by
  rw [Config.since, h, List.drop_left]

/-! ### Runs that go through no dangling pointer -/

instance (c : Config) (e : Event) : Decidable (Safe c e) :=
  match e with
  | .cancelTimer id => decidable_of_iff (cancelsOf id c.log = 0)
      ⟨fun h _ hid => Event.cancelTimer.inj hid ▸ h, fun h => h id rfl⟩
  | .addTimer _ _ _ _ | .updateTimer _ | .round | .timeoutReturn =>
    isTrue fun _ hid => nomatch hid

/-- The invariant of the runs in which no timer is cancelled again. -/
theorem inv_of_safe (hsafe : EachStep step Config.init es fun _ => Safe) (hfew : FewTimers es)
    (hrun : runs es = some c) : Inv c ∧ createdIn c.log = created es := by
  refine run_induction (P := fun es c => Inv c ∧ createdIn c.log = created es) ⟨inv_init, rfl⟩
    (fun fs e t u hp ht ih hstep => ?_) hrun
  obtain ⟨hinv, hcreated⟩ := ih
  have hfew' : createdIn t.log + created [e] < 2147483648 - 100 := by
    rw [hcreated, ← created_append]
    exact hfew.of_prefix hp
  have heff := hinv.effect hfew' (hsafe fs e t hp ht) hstep
  obtain ⟨l, hlog, hl, -⟩ := heff.log
  refine ⟨hinv.step hfew' heff, ?_⟩
  rw [hlog, createdIn_append, hl, hcreated, created_append]

/-- No two pending timers have the same id, and all ids are below `next_id_`. -/
theorem Inv.pending_ids (h : Inv c) :
    (c.sched.pending.map Timer.id).Nodup ∧ ∀ x ∈ c.sched.pending, x.id < c.sched.nextId := by
  have hcount : ∀ l : List Addr, ∀ id,
      ((l.filterMap c.sched.timerAt).map Timer.id).count id =
        (l.filter (c.sched.carries id)).length := by
    intro l id
    induction l with
    | nil => rfl
    | cons a l ih =>
      cases hx : c.sched.mem a with
      | none => simp [timerAt, carries, payload, hx, ih]
      | some e =>
        by_cases hid : e.id = id
        · simp [timerAt, carries, payload, hx, ih, hid]
        · simp [timerAt, carries, payload, hx, ih, hid]
  constructor
  · refine Multiset.coe_nodup.mpr (List.nodup_iff_count_le_one.mpr fun id => ?_)
    rw [hcount]
    change (c.sched.carrying id).length ≤ 1
    rcases h.standing id with ⟨-, hc, -⟩ | ⟨a, -, -, -, hc, -⟩ | ⟨-, -, -, -, hc, -⟩ |
        ⟨-, -, -, hc, -⟩
    all_goals simp [hc]
  · intro x hx
    obtain ⟨a, ha, hx⟩ := mem_pending.mp hx
    obtain ⟨id, expire, sink, hp, hadd, -⟩ := h.pending_of_mem ha
    obtain rfl := Option.some.inj (hx.symm.trans (timerAt_of_payload hp))
    by_contra hge
    have := h.fresh id (not_lt.mp hge)
    simp [hadd] at this

/-! ### What an event does to the pending timers -/

/-- What an event does to the pending timers, the log and the position of control. -/
inductive Turn (c : Config) : Event → Config → Prop
  | added {a : Addr} {tick : ℕ} {millsec : ℤ} {sink : Option Sink} {d : Config}
      (hctl : d.ctl = c.ctl) (hnext : d.sched.nextId = c.sched.nextId + 1)
      (hlog : d.log = c.log ++ [.added c.sched.nextId sink (wrap64 (tick + millsec))])
      (hp : d.sched.pending =
        ⟨c.sched.nextId, wrap64 (tick + millsec), sink⟩ ::ₘ c.sched.pending) :
      Turn c (.addTimer a tick millsec sink) d
  | missed {id : ℤ} {d : Config} (hctl : d.ctl = c.ctl) (hsched : d.sched = c.sched)
      (hlog : d.log = c.log ++ [.cancel id false]) : Turn c (.cancelTimer id) d
  | cancelled {x : Timer} {d : Config} (hctl : d.ctl = c.ctl)
      (hnext : d.sched.nextId = c.sched.nextId) (hlog : d.log = c.log ++ [.cancel x.id true])
      (hp : c.sched.pending = x ::ₘ d.sched.pending) : Turn c (.cancelTimer x.id) d
  | entered {tick : ℕ} (hctl : c.ctl = .idle) : Turn c (.updateTimer tick) (c.enter tick)
  | left {now lastId : ℤ} (hctl : c.ctl = .loop now lastId)
      (hlate : ∀ x ∈ c.sched.pending, now < x.expire) : Turn c .round { c with ctl := .idle }
  | spun {now lastId : ℤ} {x : Timer} (hctl : c.ctl = .loop now lastId)
      (htop : c.sched.top = some x) (hdue : x.expire ≤ now) (hid : lastId < x.id) :
      Turn c .round c
  | popped {now lastId : ℤ} {x : Timer} {d : Config} (hctl : c.ctl = .loop now lastId)
      (hd : d.ctl.Within now lastId) (hnext : d.sched.nextId = c.sched.nextId)
      (htop : c.sched.top = some x) (hdue : x.expire ≤ now) (hid : x.id ≤ lastId)
      (hmin : ∀ y ∈ d.sched.pending, x.expire ≤ y.expire)
      (hp : c.sched.pending = x ::ₘ d.sched.pending)
      (hlog : d.log = c.log ++ .popped x.id now :: (x.sink.map (Obs.timeout x.id)).toList) :
      Turn c .round d
  | returned {now lastId : ℤ} {a : Addr} {d : Config} (hctl : c.ctl = .callback now lastId a)
      (hd : d.ctl = .loop now lastId) (hnext : d.sched.nextId = c.sched.nextId)
      (hlog : d.log = c.log) (hp : d.sched.pending = c.sched.pending) : Turn c .timeoutReturn d

/-- A round that takes the timer `x` off the heap. -/
theorem Inv.popped_turn (h : Inv c) (hctl : c.ctl = .loop now lastId)
    (hmax : c.sched.heap.length ≤ 2147483647) {s : TimerSched} {a : Addr} {e : TimerEntry}
    (hround : c.sched.updateRound now lastId = some (s, .popped a e)) {d : Config}
    (hd : d.ctl.Within now lastId) (hsched : d.sched.nextId = s.nextId)
    (hpending : a ∉ s.heap → d.sched.pending = s.pending)
    (hlog : d.log = c.log ++ .popped e.id now :: (e.sink.map (Obs.timeout e.id)).toList) :
    Turn c .round d := by
  obtain ⟨-, ⟨hr, -⟩ | ⟨hr, -⟩ | ⟨a', e', hr, htop, hdue, hid⟩⟩ := updateRound_top hround
  · cases hr
  · cases hr
  · obtain ⟨rfl, rfl⟩ := Round.popped.inj hr
    rcases updateRound_cases h.heap hmax now lastId with ⟨-, hdone⟩ |
        ⟨b, y, hb, hy, ⟨-, hdone⟩ | ⟨-, -, hskip⟩ |
          ⟨-, -, v, y', hpop, hrem, -, -, -⟩⟩
    · simp [hround] at hdone
    · simp [hround] at hdone
    · simp [hround] at hskip
    · obtain ⟨rfl, hpair⟩ := Prod.mk.inj (Option.some.inj (hround.symm.trans hpop))
      obtain ⟨rfl, rfl⟩ := Round.popped.inj hpair
      have hhead : c.sched.heap.head? = some a := by rw [List.head?_eq_getElem?, hb]
      have hx : c.sched.timerAt a = some ⟨e.id, e.expire, e.sink⟩ := by
        rwa [top, hhead, Option.bind_some] at htop
      have hp : c.sched.pending = ⟨e.id, e.expire, e.sink⟩ ::ₘ d.sched.pending := by
        rw [hpending (hrem.not_mem h.heap)]
        exact hrem.pending h.heap hx
      refine .popped hctl hd (hsched.trans hrem.nextId) htop hdue hid (fun z hz => ?_) hp hlog
      exact h.heap.top_le htop z (hp ▸ Multiset.mem_cons_of_mem hz)

/-- A round of the loop. -/
theorem Inv.round_turn (h : Inv c) (hmax : c.sched.heap.length ≤ 2147483647)
    (hstep : TimerSched.step c .round = some d) : Turn c .round d := by
  cases taken_of_step hstep with
  | left hctl hround =>
    obtain ⟨-, ⟨-, rfl, hlate⟩ | ⟨hr, -⟩ | ⟨_, _, hr, -⟩⟩ := updateRound_top hround
    · refine .left hctl fun x hx => ?_
      cases htop : c.sched.top with
      | none =>
        rw [h.heap.pending_eq_zero htop] at hx
        exact absurd hx (Multiset.notMem_zero x)
      | some y => exact (hlate y htop).trans_le (h.heap.top_le htop x hx)
    · cases hr
    · cases hr
  | skipped hctl hround =>
    obtain ⟨-, ⟨hr, -⟩ | ⟨-, rfl, x, htop, hdue, hid⟩ | ⟨_, _, hr, -⟩⟩ := updateRound_top hround
    · cases hr
    · exact .spun hctl htop hdue hid
    · cases hr
  | fired hctl hround hsink =>
    exact h.popped_turn hctl hmax hround ⟨rfl, rfl⟩ rfl (fun _ => rfl) (by rw [hsink]; rfl)
  | dropped hctl hround hsink hdelete =>
    refine h.popped_turn hctl hmax hround ?_ (keepsTimers_delete hdelete).nextId
      (pending_delete hdelete) (by rw [hsink]; rfl)
    rw [hctl]
    exact ⟨rfl, rfl⟩

/-- **The step lemma, in terms of the pending timers.** -/
theorem Inv.turn (h : Inv c) (hfew : createdIn c.log + created [e] < 2147483648 - 100)
    (hsafe : Safe c e) (hstep : TimerSched.step c e = some d) : Turn c e d := by
  have hmax : c.sched.heap.length ≤ 2147483647 := h.size.trans (by omega)
  cases e with
  | addTimer a tick millsec event =>
    cases h.effect hfew hsafe hstep with
    | added hcall hfree hins =>
      have hone : created [.addTimer a tick millsec event] = 1 := rfl
      have hid := h.nextId
      have ha : a ∉ c.sched.heap := by
        intro hm
        obtain ⟨x, hx⟩ := h.heap.distinct.live a hm
        simp [hfree] at hx
      refine .added rfl ?_ rfl (hins.pending ha)
      rw [hins.nextId, wrap32_of_range (by omega) (by omega)]
  | cancelTimer id =>
    cases h.effect hfew hsafe hstep with
    | missed => exact .missed rfl rfl rfl
    | @cancelled _ a t ha hid hc hrem =>
      obtain ⟨i, expire, sink, hp, -, hc', -⟩ := h.pending_of_mem ha
      obtain rfl : i = id := by
        have hmem : a ∈ c.sched.carrying id := by simp [hc]
        have := (mem_carrying.mp hmem).2
        rwa [carries_of_payload hp, decide_eq_true_eq] at this
      exact .cancelled (x := ⟨i, expire, sink⟩) rfl hrem.nextId rfl
        (hrem.pending h.heap (timerAt_of_payload hp))
  | updateTimer tick =>
    cases taken_of_step hstep with
    | entered hctl => exact .entered hctl
  | round => exact h.round_turn hmax hstep
  | timeoutReturn =>
    cases taken_of_step hstep with
    | returned hctl hdelete =>
      obtain ⟨ha, -⟩ := h.firing _ _ _ hctl
      exact .returned hctl rfl (keepsTimers_delete hdelete).nextId rfl (pending_delete hdelete ha)

/-! ### Induction along a pass -/

/-- A part of a pass, from its beginning on. -/
theorem Pass.of_prefix (h : Pass c tick gs d) {hs : List Event} (hp : hs <+: gs)
    (ht : Runs.run step (c.enter tick) hs = some u) : Pass c tick hs u :=
  ⟨h.idle, ht, h.inside.of_prefix hp⟩

/-- The test of a pass. -/
def passes (c : Config) (tick : ℕ) (gs : List Event) : Bool :=
  decide (c.ctl = .idle) && (Runs.run step (c.enter tick) gs).isSome &&
    checkSteps step (fun t _ => decide (t.ctl ≠ .idle)) (c.enter tick) gs

theorem exists_pass (h : passes c tick gs = true) : ∃ d, Pass c tick gs d := by
  simp only [passes, Bool.and_eq_true, decide_eq_true_eq] at h
  obtain ⟨⟨hidle, hsome⟩, hcheck⟩ := h
  obtain ⟨d, hd⟩ := Option.isSome_iff_exists.mp hsome
  exact ⟨d, hidle, hd, eachStep_iff_checkSteps.mpr hcheck⟩

/-- The call of `UpdateTimer` comes before the pass. -/
theorem Pass.run_call (h : Pass c tick gs d) :
    Runs.run step c (.updateTimer tick :: gs) = some d := by
  rw [Runs.run_cons, step, h.idle]
  exact h.run

theorem isPrefix_call {hs : List Event} (hp : hs <+: gs) :
    es ++ .updateTimer tick :: hs <+: es ++ .updateTimer tick :: gs := by
  obtain ⟨l, rfl⟩ := hp
  exact ⟨l, by simp⟩

theorem Pass.run_init (h : Pass c tick gs d) (hrun : runs es = some c) :
    runs (es ++ .updateTimer tick :: gs) = some d :=
  run_trans hrun h.run_call

/-- The local variables stay the same until the pass ends. -/
theorem within_of_step (hstep : step c e = some d) (hc : c.ctl.Within now lastId) :
    d.ctl = .idle ∨ d.ctl.Within now lastId := by
  cases taken_of_step hstep with
  | added => exact Or.inr hc
  | cancelled => exact Or.inr hc
  | entered hctl =>
    rw [hctl] at hc
    exact hc.elim
  | left => exact Or.inl rfl
  | skipped => exact Or.inr hc
  | fired hctl =>
    rw [hctl] at hc
    exact Or.inr hc
  | dropped => exact Or.inr hc
  | returned hctl =>
    rw [hctl] at hc
    exact Or.inr hc

theorem Pass.within (h : Pass c tick gs d) :
    d.ctl = .idle ∨ d.ctl.Within (wrap64 tick) c.sched.nextId := by
  refine run_induction (P := fun _ t => t.ctl = .idle ∨ t.ctl.Within (wrap64 tick) c.sched.nextId)
    (Or.inr ⟨rfl, rfl⟩) (fun hs e t u hp ht ih hs' => ?_) h.run
  exact within_of_step hs' (ih.resolve_left (h.inside hs e t hp ht))

/-- **Induction along a pass**, for facts that need no invariant. -/
theorem Pass.induction (h : Pass c tick gs d) {P : List Event → Config → Prop}
    (h0 : P [] (c.enter tick))
    (hstep : ∀ hs e t u, hs ++ [e] <+: gs → Pass c tick hs t →
      t.ctl.Within (wrap64 tick) c.sched.nextId → P hs t → step t e = some u → P (hs ++ [e]) u) :
    P gs d := by
  refine run_induction h0 (fun hs e t u hp ht ih hs' => ?_) h.run
  have hpass : Pass c tick hs t := h.of_prefix ((List.prefix_append hs [e]).trans hp) ht
  exact hstep hs e t u hp hpass (hpass.within.resolve_left (h.inside hs e t hp ht)) ih hs'

section

variable (hsafe : EachStep step Config.init (es ++ .updateTimer tick :: gs) fun _ => Safe)
  (hfew : FewTimers (es ++ .updateTimer tick :: gs)) (hrun : runs es = some c)

include hsafe hfew hrun

/-- The invariant holds throughout a pass that begins in a reachable state. -/
theorem Pass.inv (h : Pass c tick gs d) :
    Inv d ∧ createdIn d.log = created (es ++ .updateTimer tick :: gs) :=
  inv_of_safe hsafe hfew (h.run_init hrun)

/-- **Induction along a pass**, by the turns of the events. -/
theorem Pass.turn_induction (h : Pass c tick gs d) {P : List Event → Config → Prop}
    (h0 : P [] (c.enter tick))
    (hstep : ∀ hs e t u, hs ++ [e] <+: gs → Runs.run step (c.enter tick) hs = some t →
      t.ctl.Within (wrap64 tick) c.sched.nextId → P hs t → Turn t e u → P (hs ++ [e]) u) :
    P gs d := by
  refine h.induction h0 fun hs e t u hp hpass hin hP hs' => ?_
  have hp' : (es ++ .updateTimer tick :: hs) ++ [e] <+: es ++ .updateTimer tick :: gs := by
    have hcall : es ++ .updateTimer tick :: (hs ++ [e]) <+: es ++ .updateTimer tick :: gs :=
      isPrefix_call hp
    rwa [← List.cons_append, ← List.append_assoc] at hcall
  have hbefore : es ++ .updateTimer tick :: hs <+: es ++ .updateTimer tick :: gs :=
    (List.prefix_append _ [e]).trans hp'
  obtain ⟨hinv, hcreated⟩ := hpass.inv (hsafe.of_prefix hbefore) (hfew.of_prefix hbefore) hrun
  have hfew' : createdIn t.log + created [e] < 2147483648 - 100 := by
    rw [hcreated, ← created_append]
    exact hfew.of_prefix hp'
  exact hstep hs e t u hp hpass.run hin hP
    (hinv.turn hfew' (hsafe _ e t hp' (hpass.run_init hrun)) hs')

/-- In a pass, a round of the loop and the return from a callback never run into undefined
behaviour. -/
theorem Pass.exists_step (h : Pass c tick gs d) (he : e = .round ∨ e = .timeoutReturn)
    (hen : Enabled d e) : ∃ u, step d e = some u := by
  obtain ⟨hinv, hcreated⟩ := h.inv hsafe hfew hrun
  have hnone : created [e] = 0 ∧ Safe d e := by
    rcases he with rfl | rfl
    · exact ⟨rfl, fun _ hid => nomatch hid⟩
    · exact ⟨rfl, fun _ hid => nomatch hid⟩
  have hfew' : createdIn d.log + created [e] < 2147483648 - 100 := by
    rw [hcreated, hnone.1]
    exact hfew
  obtain ⟨u, hu, -⟩ := hinv.exists_effect hfew' hnone.2 hen
  exact ⟨u, hu⟩

end

end TimerSched

end WinsockTut
