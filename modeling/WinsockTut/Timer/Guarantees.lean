import WinsockTut.Timer.Invariant

/-!
# What the timer scheduler guarantees

`CancelTimer` deletes the entry of a timer and leaves the id in `ref_`, unlike `UpdateTimer`, which
erases it.  So the map is exact precisely in the runs that cancel no pending timer
(`refExact_iff`), and a second `CancelTimer` of the same id goes through a dangling pointer.  In the
runs that cancel every id at most once this is harmless: the heap is well formed in every state
(`heapInvariant_of_runs`), and every timer is accounted for (`timer_accounts`).
-/

namespace WinsockTut

namespace TimerSched

open Runs Word Function

variable {c d : Config} {e : Event} {es fs : List Event} {id : ℤ}

/-! ### From the events of a run to its log -/

theorem created_append (es fs : List Event) : created (es ++ fs) = created es + created fs := by
  simp [created]

/-- Prefixes of a run create no more timers. -/
theorem FewTimers.of_prefix (h : FewTimers es) (hp : fs <+: es) : FewTimers fs := by
  obtain ⟨gs, rfl⟩ := hp
  unfold FewTimers at h ⊢
  rw [created_append] at h
  omega

/-- Prefixes of a run cancel no id twice either. -/
theorem CancelledOnce.of_prefix (h : CancelledOnce es) (hp : fs <+: es) : CancelledOnce fs := by
  obtain ⟨gs, rfl⟩ := hp
  unfold CancelledOnce at h ⊢
  rw [List.filterMap_append] at h
  exact (List.nodup_append.mp h).1

/-- The invariant, with what the log says about the events performed. -/
structure Ledger (es : List Event) (c : Config) : Prop where
  inv : Inv c
  created : createdIn c.log = created es
  cancels : ∀ id, cancelsOf id c.log ≤ (es.filterMap Event.cancelled?).count id

/-- The part of the log a step writes. -/
theorem Effect.log (h : Effect c e d) : ∃ l, d.log = c.log ++ l ∧ createdIn l = created [e] ∧
    ∀ id, cancelsOf id l ≤ ([e].filterMap Event.cancelled?).count id := by
  cases h with
  | added => exact ⟨_, rfl, rfl, by simp⟩
  | missed => exact ⟨_, rfl, rfl, by simp⟩
  | @cancelled i =>
    refine ⟨_, rfl, rfl, fun id => ?_⟩
    by_cases hi : i = id
    · simp [hi, Event.cancelled?]
    · simp [hi]
  | entered => exact ⟨[], (List.append_nil _).symm, rfl, by simp⟩
  | left => exact ⟨[], (List.append_nil _).symm, rfl, by simp⟩
  | spun => exact ⟨[], (List.append_nil _).symm, rfl, by simp⟩
  | dropped => exact ⟨_, rfl, rfl, by simp⟩
  | fired => exact ⟨_, rfl, rfl, by simp⟩
  | returned => exact ⟨[], (List.append_nil _).symm, rfl, by simp⟩

theorem Ledger.step (h : Ledger es c) (hfew : FewTimers (es ++ [e])) (hsafe : Safe c e)
    (hstep : step c e = some d) : Ledger (es ++ [e]) d := by
  have hfew' : createdIn c.log + TimerSched.created [e] < 2147483648 - 100 := by
    rw [h.created, ← created_append]
    exact hfew
  have heff := h.inv.effect hfew' hsafe hstep
  obtain ⟨l, hlog, hcreated, hcancels⟩ := heff.log
  refine ⟨h.inv.step hfew' heff, ?_, fun id => ?_⟩
  · rw [hlog, createdIn_append, h.created, hcreated, created_append]
  · rw [hlog, cancelsOf_append, List.filterMap_append, List.count_append]
    exact Nat.add_le_add (h.cancels id) (hcancels id)

/-- If no id is cancelled twice, a cancelled id has not been cancelled before. -/
theorem Ledger.safe (h : Ledger es c) (honce : CancelledOnce (es ++ [e])) : Safe c e := by
  rintro id rfl
  have hcount := List.nodup_iff_count_le_one.mp honce id
  have hlog := h.cancels id
  rw [List.filterMap_append, List.count_append] at hcount
  simp only [List.filterMap_cons, List.filterMap_nil, Event.cancelled?, List.count_singleton_self]
    at hcount
  omega

/-- The ledger of a run that cancels no id twice. -/
theorem ledger_of_runs (honce : CancelledOnce es) (hfew : FewTimers es) (hrun : runs es = some c) :
    Ledger es c := by
  refine run_induction (P := Ledger) ⟨inv_init, rfl, fun _ => Nat.zero_le _⟩ ?_ hrun
  intro fs e t u hp _ hledger hstep
  exact hledger.step (hfew.of_prefix hp) (hledger.safe (honce.of_prefix hp)) hstep

/-! ### Exactness of the map -/

/-- `ref_` holds exactly the ids of the entries in `heap_`, each with the one entry carrying it. -/
structure RefExact (s : TimerSched) : Prop where
  keys : ∀ id, (s.ref id).isSome = true ↔ ∃ a ∈ s.heap, s.carries id a = true
  maps : ∀ id a, s.ref id = some a → s.carrying id = [a]

/-- `CancelTimer` of an id that is not pending changes neither `heap_` nor `ref_`. -/
def CancelKeeps (s : TimerSched) : Prop :=
  ∀ id, s.carrying id = [] → ∃ t, s.cancelTimer id = some t ∧ t.heap = s.heap ∧ t.ref = s.ref

/-- The step does not cancel a pending timer. -/
def NoPendingCancel (c : Config) (e : Event) : Prop :=
  ∀ id, e = .cancelTimer id → c.sched.carrying id = []

theorem carrying_eq_nil {s : TimerSched} :
    s.carrying id = [] ↔ ¬ ∃ a ∈ s.heap, s.carries id a = true := by
  simp [carrying]

/-- With an exact map, `CancelTimer` does not find an id that is not pending. -/
theorem RefExact.cancelKeeps {s : TimerSched} (h : s.RefExact) : s.CancelKeeps := by
  intro id hc
  have hnone : s.ref id = none := by
    rw [carrying_eq_nil, ← h.keys] at hc
    simpa using hc
  exact ⟨s, by simp [cancelTimer, hnone], rfl, rfl⟩

/-- As long as nothing was cancelled, the map is exact. -/
theorem Inv.refExact (h : Inv c) (hzero : ∀ id, cancelsOf id c.log = 0) : c.sched.RefExact := by
  refine ⟨fun id => ?_, fun id a hid => ?_⟩
  · rw [← not_iff_not, ← carrying_eq_nil]
    rcases h.standing id with ⟨-, hc, hr, -⟩ | ⟨a, _, _, -, hc, -, hr, -⟩ |
        ⟨_, _, _, -, hc, hr, -⟩ | ⟨_, _, -, -, -, -, hx⟩
    · simp [hc, hr]
    · simp [hc, hr]
    · simp [hc, hr]
    · simp [hzero id] at hx
  · rcases h.standing id with ⟨-, -, hr, -⟩ | ⟨b, _, _, -, hc, -, hr, -⟩ |
        ⟨_, _, _, -, -, hr, -⟩ | ⟨_, _, -, -, -, -, hx⟩
    · simp [hr] at hid
    · obtain rfl : b = a := Option.some.inj (hr.symm.trans hid)
      exact hc
    · simp [hr] at hid
    · simp [hzero id] at hx

/-- **The map is exact in every state of a run if and only if the run cancels no pending timer.** -/
theorem refExact_iff (hfew : FewTimers es) (hrun : runs es = some c) :
    Throughout step Config.init es (fun _ d => d.sched.RefExact ∧ d.sched.CancelKeeps) ↔
      EachStep step Config.init es (fun _ d e => NoPendingCancel d e) := by
  refine throughout_iff_eachStep
    (P := fun fs d => Ledger fs d ∧ ∀ id, cancelsOf id d.log = 0)
    ⟨⟨inv_init, rfl, fun _ => Nat.zero_le _⟩, fun _ => rfl⟩ ?_ ?_ ?_ hrun
  · rintro fs d - - ⟨hledger, hzero⟩
    have := hledger.inv.refExact hzero
    exact ⟨this, this.cancelKeeps⟩
  · rintro fs e d d' hp - ⟨hledger, hzero⟩ hno hstep
    have hsafe : Safe d e := fun id _ => hzero id
    refine ⟨hledger.step (hfew.of_prefix hp) hsafe hstep, fun id => ?_⟩
    have hfew' : createdIn d.log + created [e] < 2147483648 - 100 := by
      rw [hledger.created, ← created_append]
      exact hfew.of_prefix hp
    have heff := hledger.inv.effect hfew' hsafe hstep
    cases heff with
    | cancelled ha hid hc => simp [hno _ rfl] at hc
    | _ => simp [hzero id]
  · rintro fs e d d' hp - ⟨hledger, hzero⟩ hno hstep ⟨hexact, -⟩
    -- the step cancels a pending timer: its id stays in the map
    simp only [NoPendingCancel, not_forall] at hno
    obtain ⟨id, rfl, hc⟩ := hno
    have hsafe : Safe d (.cancelTimer id) := fun id _ => hzero id
    have hfew' : createdIn d.log + created [.cancelTimer id] < 2147483648 - 100 := by
      rw [hledger.created, ← created_append]
      exact hfew.of_prefix hp
    have heff := hledger.inv.effect hfew' hsafe hstep
    cases heff with
    | missed hid hc' => exact hc hc'
    | @cancelled _ a t ha hid hc' hrem href hfree =>
      have hmap := hexact.maps id a (href ▸ hid)
      have ha' : a ∈ t.heap := (mem_carrying.mp (by simp [hmap] : a ∈ t.carrying id)).1
      exact hrem.not_mem hledger.inv.heap ha'

instance (d : Config) (e : Event) : Decidable (NoPendingCancel d e) :=
  decidable_of_iff (∀ id ∈ e.cancelled?, d.sched.carrying id = []) <| by
    cases e <;> simp [NoPendingCancel, Event.cancelled?]

/-- Two timers are added, an id is cancelled that no timer has, a pass of `UpdateTimer` fires the
timer that is due, and then its id is cancelled. -/
def firedThenCancelled : List Event :=
  [.addTimer 0 5 20 none, .cancelTimer 7, .addTimer 1 5 10 (some 7), .updateTimer 15, .round,
    .timeoutReturn, .round, .cancelTimer 101]

theorem refExact_firedThenCancelled :
    (runs firedThenCancelled).map (fun d => (timeoutsOf 101 d.log).length) = some 1 ∧
    Throughout step Config.init firedThenCancelled
      (fun _ d => d.sched.RefExact ∧ d.sched.CancelKeeps) := by
  have hfired : (runs firedThenCancelled).map (fun d => (timeoutsOf 101 d.log).length) =
      some 1 := by decide +kernel
  obtain ⟨c, hc, -⟩ := Option.map_eq_some_iff.mp hfired
  exact ⟨hfired, (refExact_iff (by decide +kernel) hc).mpr
    (eachStep_iff_checkSteps.mpr (by decide +kernel))⟩

/-- `CancelTimer` leaves the id in the map.  Once the address is in use again, another
`CancelTimer` of the same id removes the timer that lives there. -/
theorem cancelTimer_leaves_ref :
    (∃ c, runs [.addTimer 0 5 20 none, .cancelTimer 100] = some c ∧ ¬ c.sched.RefExact) ∧
    ∃ c, runs [.addTimer 0 5 20 none, .cancelTimer 100, .addTimer 0 5 20 none] = some c ∧
      c.sched.heap = [0] ∧ c.sched.carrying 100 = [] ∧
      (c.sched.cancelTimer 100).map TimerSched.heap = some [] ∧ ¬ c.sched.CancelKeeps := by
  constructor
  · have hfacts : (runs [.addTimer 0 5 20 none, .cancelTimer 100]).map
        (fun c => (c.sched.heap, c.sched.ref 100)) = some ([], some 0) := by decide +kernel
    obtain ⟨c, hc, hpair⟩ := Option.map_eq_some_iff.mp hfacts
    obtain ⟨hheap, href⟩ := Prod.mk.inj hpair
    refine ⟨c, hc, fun hexact => ?_⟩
    simpa [carrying, hheap] using hexact.maps 100 0 href
  · have hfacts : (runs [.addTimer 0 5 20 none, .cancelTimer 100, .addTimer 0 5 20 none]).map
        (fun c => (c.sched.heap, c.sched.carrying 100,
          (c.sched.cancelTimer 100).map TimerSched.heap)) = some ([0], [], some []) := by
      decide +kernel
    obtain ⟨c, hc, htriple⟩ := Option.map_eq_some_iff.mp hfacts
    simp only [Prod.mk.injEq] at htriple
    obtain ⟨hheap, hcarry, hcancel⟩ := htriple
    refine ⟨c, hc, hheap, hcarry, hcancel, fun hkeeps => ?_⟩
    obtain ⟨t, ht, hsame, -⟩ := hkeeps 100 hcarry
    simp [ht, hsame, hheap] at hcancel

/-! ### The heap -/

/-- **The heap is well formed in every reachable state**, as long as no id is cancelled twice, and
every event that is enabled there can be performed: no operation runs into undefined behaviour. -/
theorem heapInvariant_of_runs (honce : CancelledOnce es) (hfew : FewTimers es)
    (hrun : runs es = some c) :
    c.sched.HeapInvariant ∧
      ∀ e, CancelledOnce (es ++ [e]) → FewTimers (es ++ [e]) → Enabled c e →
        ∃ d, step c e = some d := by
  have hledger := ledger_of_runs honce hfew hrun
  refine ⟨hledger.inv.heap, fun e honce' hfew' hen => ?_⟩
  have hfew'' : createdIn c.log + created [e] < 2147483648 - 100 := by
    rw [hledger.created, ← created_append]
    exact hfew'
  obtain ⟨d, hd, -⟩ := hledger.inv.exists_effect hfew'' (hledger.safe honce') hen
  exact ⟨d, hd⟩

/-- A run in which the second timer fires while the first is cancelled by its callback. -/
def sampleRun : List Event :=
  [.addTimer 0 5 20 (some 7), .addTimer 1 5 10 (some 8), .addTimer 2 5 30 none, .updateTimer 15,
    .round, .cancelTimer 100, .timeoutReturn]

theorem heapInvariant_sampleRun : ∃ c, runs sampleRun = some c ∧ c.sched.HeapInvariant := by
  obtain ⟨c, hc⟩ : ∃ c, runs sampleRun = some c := Option.isSome_iff_exists.mp (by decide +kernel)
  exact ⟨c, hc, (heapInvariant_of_runs (by decide +kernel) (by decide +kernel) hc).1⟩

/-! ### The account of every timer -/

/-- Exactly one entry of the heap carries the id, with the original sink and expiry time. -/
def IsPending (c : Config) (id : ℤ) (sink : Option Sink) (expire : ℤ) : Prop :=
  ∃ a, c.sched.carrying id = [a] ∧ c.sched.payload a = some (id, expire, sink)

/-- The timer was popped once, in a pass whose clock reading was not before its expiry time, and
`OnTimeout` was called once unless the sink is null. -/
def IsFired (c : Config) (id : ℤ) (sink : Option Sink) (expire : ℤ) : Prop :=
  ∃ now, popsOf id c.log = [now] ∧ expire ≤ now ∧ timeoutsOf id c.log = sink.toList

/-- `CancelTimer` was called for the timer while it was pending, and `OnTimeout` was not called. -/
def IsCancelled (c : Config) (id : ℤ) : Prop :=
  .cancel id true ∈ c.log ∧ timeoutsOf id c.log = []

/-- The timer is in exactly one of the three classes. -/
def InOneClass (c : Config) (id : ℤ) (sink : Option Sink) (expire : ℤ) : Prop :=
  (IsPending c id sink expire ∧ ¬ IsFired c id sink expire ∧ ¬ IsCancelled c id) ∨
  (¬ IsPending c id sink expire ∧ IsFired c id sink expire ∧ ¬ IsCancelled c id) ∨
  (¬ IsPending c id sink expire ∧ ¬ IsFired c id sink expire ∧ IsCancelled c id)

theorem cancelsOf_pos {log : List Obs} : 0 < cancelsOf id log ↔ .cancel id true ∈ log :=
  List.count_pos_iff

theorem mem_addsOf {log : List Obs} {sink : Option Sink} {expire : ℤ} :
    (sink, expire) ∈ addsOf id log ↔ .added id sink expire ∈ log := by
  refine List.mem_filterMap.trans ⟨?_, fun h => ⟨_, h, by simp⟩⟩
  rintro ⟨o, ho, hsome⟩
  cases o with
  | added i k x =>
    by_cases hi : i = id
    · obtain ⟨rfl, rfl⟩ : k = sink ∧ x = expire := by simpa [hi] using hsome
      exact hi ▸ ho
    · simp [hi] at hsome
  | _ => simp at hsome

/-- The account of a timer that was created puts it in exactly one class. -/
theorem Standing.classes (h : Standing c id) {sink : Option Sink} {expire : ℤ}
    (hadd : .added id sink expire ∈ c.log) :
    addsOf id c.log = [(sink, expire)] ∧ InOneClass c id sink expire := by
  rw [← mem_addsOf] at hadd
  have hnc : cancelsOf id c.log = 0 → ¬ IsCancelled c id := fun hx hcan => by
    have := cancelsOf_pos.mpr hcan.1
    omega
  have hnf : popsOf id c.log = [] → ¬ IsFired c id sink expire := by
    rintro hp ⟨now, hpop, -⟩
    simp [hp] at hpop
  have hnp : c.sched.carrying id = [] → ¬ IsPending c id sink expire := by
    rintro hc ⟨a, ha, -⟩
    simp [hc] at ha
  rcases h with ⟨ha, -⟩ | ⟨a, k, x, ha, hc, hpay, -, hp, -, hx⟩ |
      ⟨now, k, x, ha, hc, -, hp, hdue, ht, hx⟩ | ⟨k, x, ha, hc, hp, ht, hx⟩
  · simp [ha] at hadd
  all_goals
    obtain ⟨rfl, rfl⟩ : sink = k ∧ expire = x := by simpa [ha] using hadd
    refine ⟨ha, ?_⟩
  · exact Or.inl ⟨⟨a, hc, hpay⟩, hnf hp, hnc hx⟩
  · exact Or.inr (Or.inl ⟨hnp hc, ⟨now, hp, hdue, ht⟩, hnc hx⟩)
  · exact Or.inr (Or.inr ⟨hnp hc, hnf hp, cancelsOf_pos.mp (by omega), ht⟩)

/-- The log only grows. -/
theorem log_prefix_of_runs (honce : CancelledOnce (es ++ fs)) (hfew : FewTimers (es ++ fs))
    (hc : runs es = some c) (hd : run step c fs = some d) : c.log <+: d.log := by
  refine run_induction (P := fun _ u => c.log <+: u.log) List.prefix_rfl ?_ hd
  intro gs e t u hp ht hlog hstep
  have hp' : es ++ gs ++ [e] <+: es ++ fs := by
    rw [List.append_assoc]
    exact List.prefix_append_right_inj es |>.mpr hp
  have honce' := honce.of_prefix hp'
  have hfew' := hfew.of_prefix hp'
  have hrun : runs (es ++ gs) = some t := run_trans hc ht
  have hledger := ledger_of_runs (honce'.of_prefix (List.prefix_append _ _))
    (hfew'.of_prefix (List.prefix_append _ _)) hrun
  rw [FewTimers, created_append, ← hledger.created] at hfew'
  obtain ⟨l, hl, -⟩ := (hledger.inv.effect hfew' (hledger.safe honce') hstep).log
  exact hlog.trans ⟨l, hl.symm⟩

/-- A cancelled timer stays silent. -/
theorem IsCancelled.silent (h : IsCancelled c id) (hlog : c.log <+: d.log) (hd : Standing d id) :
    timeoutsOf id d.log = [] := by
  have hpos : 0 < cancelsOf id d.log := cancelsOf_pos.mpr (hlog.subset h.1)
  rcases hd with ⟨-, -, -, -, ht, -⟩ | ⟨_, _, _, -, -, -, -, -, ht, -⟩ |
      ⟨_, _, _, -, -, -, -, -, -, hx⟩ | ⟨_, _, -, -, -, ht, -⟩
  · exact ht
  · exact ht
  · omega
  · exact ht

/-- Cancelling a pending timer removes exactly its entry. -/
theorem Inv.cancel_pending (h : Inv c)
    (hfew : createdIn c.log + created [.cancelTimer id] < 2147483648 - 100)
    (hsafe : Safe c (.cancelTimer id)) {a : Addr} (hc : c.sched.carrying id = [a])
    (hstep : TimerSched.step c (.cancelTimer id) = some d) :
    c.sched.heap.Perm (a :: d.sched.heap) ∧
      ∀ b ∈ d.sched.heap, d.sched.payload b = c.sched.payload b := by
  have heff := h.effect hfew hsafe hstep
  cases heff with
  | missed hid hc' => simp [hc'] at hc
  | @cancelled _ b t ha hid hc' hrem href hfree =>
    obtain rfl : b = a := by simpa [hc'] using hc
    exact ⟨hrem.perm, fun x hx => hrem.payload x fun hxb => hrem.not_mem h.heap (hxb ▸ hx)⟩

/-- **No timer is lost, duplicated, early or resurrected.**  In the runs that cancel no id twice,
every timer that was created is in exactly one of the classes pending, fired and cancelled; a
cancelled timer stays silent in all continuations; and `CancelTimer` of a pending id takes
exactly that entry off the heap. -/
theorem timer_accounts (honce : CancelledOnce es) (hfew : FewTimers es)
    (hrun : runs es = some c) :
    (∀ id sink expire, .added id sink expire ∈ c.log →
      addsOf id c.log = [(sink, expire)] ∧ InOneClass c id sink expire) ∧
    (∀ fs d id, CancelledOnce (es ++ fs) → FewTimers (es ++ fs) → run step c fs = some d →
      IsCancelled c id → timeoutsOf id d.log = []) ∧
    (∀ id a, CancelledOnce (es ++ [.cancelTimer id]) → c.sched.carrying id = [a] →
      c.ctl.canCall = true → ∃ d, step c (.cancelTimer id) = some d ∧
        c.sched.heap.Perm (a :: d.sched.heap) ∧
        ∀ b ∈ d.sched.heap, d.sched.payload b = c.sched.payload b) := by
  have hledger := ledger_of_runs honce hfew hrun
  refine ⟨fun id sink expire hadd => (hledger.inv.standing id).classes hadd, ?_, ?_⟩
  · intro fs d id honce' hfew' hd hcan
    have hrun' : runs (es ++ fs) = some d := run_trans hrun hd
    exact hcan.silent (log_prefix_of_runs honce' hfew' hrun hd)
      ((ledger_of_runs honce' hfew' hrun').inv.standing id)
  · intro id a honce' hc hcall
    have hfew' : createdIn c.log + created [.cancelTimer id] < 2147483648 - 100 := by
      rw [hledger.created]
      exact hfew
    have hsafe := hledger.safe honce'
    obtain ⟨d, hd, -⟩ := hledger.inv.exists_effect hfew' hsafe hcall
    exact ⟨d, hd, hledger.inv.cancel_pending hfew' hsafe hc hd⟩

theorem timer_accounts_sampleRun :
    ∃ c, runs sampleRun = some c ∧ InOneClass c 101 (some 8) 15 := by
  have hmem : (runs sampleRun).map (fun c => decide (.added 101 (some 8) 15 ∈ c.log)) =
      some true := by decide +kernel
  obtain ⟨c, hc, hadd⟩ := Option.map_eq_some_iff.mp hmem
  exact ⟨c, hc, ((timer_accounts (by decide +kernel) (by decide +kernel) hc).1 101 (some 8) 15
    (of_decide_eq_true hadd)).2⟩

end TimerSched

end WinsockTut
