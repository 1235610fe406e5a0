import WinsockTut.Timer.Machine

/-!
# The accounting of timers

`Effect` says once what a step of the scheduler can do, and `Inv` accounts for every timer id: it
is unissued, pending, fired or cancelled, and each of these fixes what the heap, the map and the
log hold for it.  The invariant is kept as long as no cancelled id is passed to `CancelTimer`
again.
-/

namespace WinsockTut

namespace TimerSched

open Runs Word Function

variable {s t : TimerSched} {c d : Config} {e : Event} {es : List Event} {a b : Addr}
  {id i expire now lastId : ℤ} {sink : Option Sink}

/-! ### Entries that carry an id -/

theorem carries_of_payload (h : s.payload a = some (i, expire, sink)) :
    s.carries id a = decide (i = id) := by
  simp [carries, h, beq_eq_decide]

theorem mem_carrying : a ∈ s.carrying id ↔ a ∈ s.heap ∧ s.carries id a = true := List.mem_filter

/-- An entry of the heap carries its own id. -/
theorem mem_carrying_of_payload (ha : a ∈ s.heap) (h : s.payload a = some (i, expire, sink)) :
    a ∈ s.carrying i :=
  mem_carrying.mpr ⟨ha, by simp [carries_of_payload h]⟩

/-- Entries with equal payloads carry the same ids. -/
theorem carrying_congr {h : List Addr} (hpay : ∀ c ∈ h, t.payload c = s.payload c) :
    h.filter (t.carries id) = h.filter (s.carries id) :=
  List.filter_congr fun c hc => by rw [carries, carries, hpay c hc]

/-- Adding a timer adds its entry to those that carry its id. -/
theorem Inserted.carrying (h : Inserted a (i, expire, sink) s t) (ha : a ∉ s.heap) (id : ℤ) :
    (t.carrying id).Perm (if i = id then a :: s.carrying id else s.carrying id) := by
  have hperm := h.perm.filter (t.carries id)
  rw [List.filter_cons, carries_of_payload h.new,
    carrying_congr fun c hc => h.payload c fun hca => ha (hca ▸ hc)] at hperm
  simp only [decide_eq_true_eq] at hperm
  exact hperm

/-- Taking a timer out takes its entry from those that carry its id. -/
theorem Removed.carrying (h : Removed a s t) (hs : s.HeapInvariant)
    (hp : s.payload a = some (i, expire, sink)) (id : ℤ) :
    (s.carrying id).Perm (if i = id then a :: t.carrying id else t.carrying id) := by
  have hperm := h.perm.filter (s.carries id)
  rw [List.filter_cons, carries_of_payload hp, ← carrying_congr fun c hc =>
    h.payload c fun hca => h.not_mem hs (hca ▸ hc)] at hperm
  simp only [decide_eq_true_eq] at hperm
  exact hperm

/-! ### The accounts -/

/-- The account of the timer id `id`. -/
inductive Standing (c : Config) (id : ℤ) : Prop
  /-- `AddTimer` has not returned it. -/
  | unissued (adds : addsOf id c.log = []) (carrying : c.sched.carrying id = [])
      (ref : c.sched.ref id = none) (pops : popsOf id c.log = [])
      (timeouts : timeoutsOf id c.log = []) (cancels : cancelsOf id c.log = 0)
  /-- One entry of the heap carries it. -/
  | pending (a : Addr) (sink : Option Sink) (expire : ℤ)
      (adds : addsOf id c.log = [(sink, expire)]) (carrying : c.sched.carrying id = [a])
      (payload : c.sched.payload a = some (id, expire, sink))
      (ref : c.sched.ref id = some a) (pops : popsOf id c.log = [])
      (timeouts : timeoutsOf id c.log = []) (cancels : cancelsOf id c.log = 0)
  /-- It was taken off the heap in a pass that had read the clock as `now`. -/
  | fired (now : ℤ) (sink : Option Sink) (expire : ℤ)
      (adds : addsOf id c.log = [(sink, expire)]) (carrying : c.sched.carrying id = [])
      (ref : c.sched.ref id = none) (pops : popsOf id c.log = [now]) (due : expire ≤ now)
      (timeouts : timeoutsOf id c.log = sink.toList) (cancels : cancelsOf id c.log = 0)
  /-- It was cancelled while pending.  The map may still hold it. -/
  | cancelled (sink : Option Sink) (expire : ℤ)
      (adds : addsOf id c.log = [(sink, expire)]) (carrying : c.sched.carrying id = [])
      (pops : popsOf id c.log = []) (timeouts : timeoutsOf id c.log = [])
      (cancels : cancelsOf id c.log = 1)

/-- A step from `c` to `d` that does not concern the timer id `id`. -/
structure Untouched (id : ℤ) (c d : Config) : Prop where
  adds : addsOf id d.log = addsOf id c.log
  carrying : (d.sched.carrying id).Perm (c.sched.carrying id)
  payload : ∀ a ∈ c.sched.carrying id, d.sched.payload a = c.sched.payload a
  ref : d.sched.ref id = c.sched.ref id
  pops : popsOf id d.log = popsOf id c.log
  timeouts : timeoutsOf id d.log = timeoutsOf id c.log
  cancels : cancelsOf id d.log = cancelsOf id c.log

theorem Standing.untouched (h : Standing c id) (hu : Untouched id c d) : Standing d id := by
  have hcarry := hu.carrying
  rcases h with ⟨ha, hc, hr, hp, ht, hx⟩ | ⟨a, sink, expire, ha, hc, hpay, hr, hp, ht, hx⟩ |
      ⟨now, sink, expire, ha, hc, hr, hp, hdue, ht, hx⟩ | ⟨sink, expire, ha, hc, hp, ht, hx⟩
  · rw [hc, List.perm_nil] at hcarry
    exact .unissued (hu.adds.trans ha) hcarry (hu.ref.trans hr) (hu.pops.trans hp)
      (hu.timeouts.trans ht) (hu.cancels.trans hx)
  · have hpay' := (hu.payload a (by simp [hc])).trans hpay
    rw [hc, List.perm_singleton] at hcarry
    exact .pending a sink expire (hu.adds.trans ha) hcarry hpay' (hu.ref.trans hr)
      (hu.pops.trans hp) (hu.timeouts.trans ht) (hu.cancels.trans hx)
  · rw [hc, List.perm_nil] at hcarry
    exact .fired now sink expire (hu.adds.trans ha) hcarry (hu.ref.trans hr) (hu.pops.trans hp)
      hdue (hu.timeouts.trans ht) (hu.cancels.trans hx)
  · rw [hc, List.perm_nil] at hcarry
    exact .cancelled sink expire (hu.adds.trans ha) hcarry (hu.pops.trans hp)
      (hu.timeouts.trans ht) (hu.cancels.trans hx)

/-- The invariant of the scheduler. -/
structure Inv (c : Config) : Prop where
  heap : c.sched.HeapInvariant
  nextId : c.sched.nextId = 100 + createdIn c.log
  /-- There are no more entries than timers were created. -/
  size : c.sched.heap.length ≤ createdIn c.log
  /-- The entry whose callback is running is off the heap, and not yet deleted. -/
  firing : ∀ now lastId a, c.ctl = .callback now lastId a →
    a ∉ c.sched.heap ∧ (c.sched.mem a).isSome = true
  /-- Ids that are still to come have not been returned. -/
  fresh : ∀ id, c.sched.nextId ≤ id → addsOf id c.log = []
  standing : ∀ id, Standing c id

theorem inv_init : Inv Config.init where
  heap := heapInvariant_init
  nextId := rfl
  size := le_rfl
  firing := fun _ _ _ h => nomatch h
  fresh := fun _ _ => rfl
  standing := fun _ => .unissued rfl rfl rfl rfl rfl rfl

/-- An entry of the heap belongs to a pending timer. -/
theorem Inv.pending_of_mem (h : Inv c) (ha : a ∈ c.sched.heap) :
    ∃ id expire sink, c.sched.payload a = some (id, expire, sink) ∧
      addsOf id c.log = [(sink, expire)] ∧ c.sched.carrying id = [a] ∧
      c.sched.ref id = some a ∧ popsOf id c.log = [] ∧ timeoutsOf id c.log = [] ∧
      cancelsOf id c.log = 0 := by
  obtain ⟨e, he⟩ := h.heap.distinct.live a ha
  have hpay : c.sched.payload a = some (e.id, e.expire, e.sink) := by simp [payload, he]
  have hmem := mem_carrying_of_payload ha hpay
  rcases h.standing e.id with ⟨-, hc, -⟩ | ⟨b, sink, expire, hadd, hc, hb, hr, hp, ht, hx⟩ |
      ⟨-, -, -, -, hc, -⟩ | ⟨-, -, -, hc, -⟩
  · simp [hc] at hmem
  · rw [hc, List.mem_singleton] at hmem
    subst hmem
    exact ⟨e.id, expire, sink, hb, hadd, hc, hr, hp, ht, hx⟩
  · simp [hc] at hmem
  · simp [hc] at hmem

/-! ### What a step does -/

/-- The event `e` is one that can happen in `c`: a public function is called while control is
outside the scheduler, `new` returns a free address, and the other events happen where control
stands. -/
def Enabled (c : Config) : Event → Prop
  | .addTimer a _ _ _ => c.ctl.canCall = true ∧ c.sched.mem a = none
  | .cancelTimer _ => c.ctl.canCall = true
  | .updateTimer _ => c.ctl = .idle
  | .round => ∃ now lastId, c.ctl = .loop now lastId
  | .timeoutReturn => ∃ now lastId a, c.ctl = .callback now lastId a

/-- The event does not cancel a timer that was cancelled before. -/
def Safe (c : Config) (e : Event) : Prop := ∀ id, e = .cancelTimer id → cancelsOf id c.log = 0

/-- What a step of the scheduler can do. -/
inductive Effect (c : Config) : Event → Config → Prop
  | added {a : Addr} {tick : ℕ} {millsec : ℤ} {sink : Option Sink} {t : TimerSched}
      (hcall : c.ctl.canCall = true) (hfree : c.sched.mem a = none)
      (h : Inserted a (c.sched.nextId, wrap64 (tick + millsec), sink) c.sched t) :
      Effect c (.addTimer a tick millsec sink)
        { c with sched := t
                 log := c.log ++ [.added c.sched.nextId sink (wrap64 (tick + millsec))] }
  | missed {id : ℤ} (hid : c.sched.ref id = none) (hc : c.sched.carrying id = []) :
      Effect c (.cancelTimer id) { c with log := c.log ++ [.cancel id false] }
  | cancelled {id : ℤ} {a : Addr} {t : TimerSched} (ha : a ∈ c.sched.heap)
      (hid : c.sched.ref id = some a) (hc : c.sched.carrying id = [a]) (h : Removed a c.sched t)
      (href : t.ref = c.sched.ref) (hfree : t.mem a = none) :
      Effect c (.cancelTimer id) { c with sched := t, log := c.log ++ [.cancel id true] }
  | entered {tick : ℕ} :
      Effect c (.updateTimer tick) { c with ctl := .loop (wrap64 tick) c.sched.nextId }
  | left : Effect c .round { c with ctl := .idle }
  | spun : Effect c .round c
  | dropped {now lastId id expire : ℤ} {a : Addr} {t : TimerSched}
      (hctl : c.ctl = .loop now lastId) (ha : a ∈ c.sched.heap)
      (hp : c.sched.payload a = some (id, expire, none)) (hdue : expire ≤ now)
      (h : Removed a c.sched t) (href : t.ref = update c.sched.ref id none) :
      Effect c .round { c with sched := t, log := c.log ++ [.popped id now] }
  | fired {now lastId id expire : ℤ} {a : Addr} {k : Sink} {t : TimerSched}
      (hctl : c.ctl = .loop now lastId) (ha : a ∈ c.sched.heap)
      (hp : c.sched.payload a = some (id, expire, some k)) (hdue : expire ≤ now)
      (h : Removed a c.sched t) (href : t.ref = update c.sched.ref id none)
      (hlive : (t.mem a).isSome = true) :
      Effect c .round ⟨t, .callback now lastId a, c.log ++ [.popped id now, .timeout id k]⟩
  | returned {now lastId : ℤ} {a : Addr} (hctl : c.ctl = .callback now lastId a) :
      Effect c .timeoutReturn
        { c with sched := { c.sched with mem := update c.sched.mem a none }
                 ctl := .loop now lastId }

/-- Every step that is taken was enabled. -/
theorem enabled_of_step (h : step c e = some d) : Enabled c e := by
  cases taken_of_step h with
  | added hcall hadd =>
    refine ⟨hcall, ?_⟩
    by_contra hne
    obtain ⟨x, hx⟩ := Option.ne_none_iff_exists'.mp hne
    simp [addTimer, hx] at hadd
  | cancelled hcall => exact hcall
  | entered hctl => exact hctl
  | left hctl => exact ⟨_, _, hctl⟩
  | skipped hctl => exact ⟨_, _, hctl⟩
  | fired hctl => exact ⟨_, _, hctl⟩
  | dropped hctl => exact ⟨_, _, hctl⟩
  | returned hctl => exact ⟨_, _, _, hctl⟩

/-- **The step lemma.**  In a state with the invariant every enabled event can happen, unless it
cancels a timer again. -/
theorem Inv.exists_effect (h : Inv c) (hfew : createdIn c.log + created [e] < 2147483648 - 100)
    (hsafe : Safe c e) (hen : Enabled c e) : ∃ d, step c e = some d ∧ Effect c e d := by
  have hmax : c.sched.heap.length ≤ 2147483647 := h.size.trans (by omega)
  cases e with
  | addTimer a tick millsec event =>
    obtain ⟨hcall, hfree⟩ := hen
    have hone : created [.addTimer a tick millsec event] = 1 := rfl
    have hlt : c.sched.heap.length < 2147483647 := h.size.trans_lt (by omega)
    obtain ⟨t, hadd, hins⟩ := addTimer_spec h.heap hlt hfree tick millsec event
    exact ⟨_, by simp [step, hcall, hadd], .added hcall hfree hins⟩
  | cancelTimer id =>
    have hcall : c.ctl.canCall = true := hen
    have hzero : cancelsOf id c.log = 0 := hsafe id rfl
    have hmiss : ∀ hr : c.sched.ref id = none, c.sched.carrying id = [] →
        ∃ d, step c (.cancelTimer id) = some d ∧ Effect c (.cancelTimer id) d := fun hr hc =>
      ⟨_, by simp [step, hcall, cancelTimer, hr, hc], .missed hr hc⟩
    rcases h.standing id with ⟨-, hc, hr, -⟩ | ⟨a, sink, expire, -, hc, -, hr, -⟩ |
        ⟨-, -, -, -, hc, hr, -⟩ | ⟨-, -, -, -, -, -, hx⟩
    · exact hmiss hr hc
    · have ha : a ∈ c.sched.heap := (mem_carrying.mp (by simp [hc] : a ∈ c.sched.carrying id)).1
      obtain ⟨t, hcancel, hrem, href, hfree⟩ := cancelTimer_spec h.heap hmax hr ha
      exact ⟨_, by simp [step, hcall, hcancel, hc], .cancelled ha hr hc hrem href hfree⟩
    · exact hmiss hr hc
    · omega
  | updateTimer tick =>
    have hctl : c.ctl = .idle := hen
    exact ⟨_, by simp [step, hctl], .entered⟩
  | round =>
    obtain ⟨now, lastId, hctl⟩ := hen
    rcases updateRound_cases h.heap hmax now lastId with ⟨-, hdone⟩ |
        ⟨a, x, ha, hx, ⟨-, hdone⟩ | ⟨-, -, hskip⟩ |
          ⟨hdue, -, t, x', hpop, hrem, href, hx', hid, hexp, hsink⟩⟩
    · exact ⟨_, by simp [step, hctl, hdone], .left⟩
    · exact ⟨_, by simp [step, hctl, hdone], .left⟩
    · refine ⟨c, ?_, .spun⟩
      simp only [step, hctl, hskip, Option.bind_eq_bind, Option.bind_some, Option.pure_def]
      rw [← hctl]
    · have ha : a ∈ c.sched.heap := List.mem_of_getElem? ha
      cases hk : x.sink with
      | none =>
        have hp : c.sched.payload a = some (x.id, x.expire, none) := by simp [payload, hx, hk]
        refine ⟨_, ?_, .dropped hctl ha hp hdue (hrem.delete h.heap ha) href⟩
        simp [step, hctl, hpop, hsink, hk, TimerSched.delete, hx', hid]
      | some k =>
        have hp : c.sched.payload a = some (x.id, x.expire, some k) := by simp [payload, hx, hk]
        refine ⟨_, ?_, .fired hctl ha hp hdue hrem href (by simp [hx'])⟩
        simp [step, hctl, hpop, hsink, hk, hid]
  | timeoutReturn =>
    obtain ⟨now, lastId, a, hctl⟩ := hen
    obtain ⟨x, hx⟩ := Option.isSome_iff_exists.mp (h.firing now lastId a hctl).2
    exact ⟨_, by simp [step, hctl, TimerSched.delete, hx], .returned hctl⟩

/-- The effect of a step that is taken. -/
theorem Inv.effect (h : Inv c) (hfew : createdIn c.log + created [e] < 2147483648 - 100)
    (hsafe : Safe c e) (hstep : step c e = some d) : Effect c e d := by
  obtain ⟨d', hd', heff⟩ := h.exists_effect hfew hsafe (enabled_of_step hstep)
  obtain rfl : d = d' := Option.some.inj (hstep.symm.trans hd')
  exact heff

/-! ### The invariant is kept -/

/-- The entry whose callback is running stays off the heap and alive while a timer is added. -/
theorem Inv.firing_added (h : Inv c) (hfree : c.sched.mem a = none)
    (hins : Inserted a (id, expire, sink) c.sched t) (hctl : c.ctl = .callback now lastId b) :
    b ∉ t.heap ∧ (t.mem b).isSome = true := by
  obtain ⟨hb, hlive⟩ := h.firing now lastId b hctl
  have hba : b ≠ a := by
    rintro rfl
    simp [hfree] at hlive
  refine ⟨fun hm => ?_, by rwa [hins.off b hba hb]⟩
  rcases List.mem_cons.mp (hins.perm.mem_iff.mp hm) with hm | hm
  · exact hba hm
  · exact hb hm

/-- A new timer gets an id that was not in use, and becomes pending. -/
theorem Inv.added (h : Inv c) (hfew : createdIn c.log + 1 < 2147483648 - 100)
    (hfree : c.sched.mem a = none) (hins : Inserted a (c.sched.nextId, expire, sink) c.sched t) :
    Inv { c with sched := t, log := c.log ++ [.added c.sched.nextId sink expire] } where
  heap := hins.inv
  nextId := by
    have hn := h.nextId
    rw [hins.nextId, wrap32_of_range (by omega) (by omega), hn]
    simp
    omega
  size := by
    have := h.size
    simp [hins.perm.length_eq, this]
  firing now lastId b hctl := h.firing_added hfree hins hctl
  fresh id hid := by
    have hn := h.nextId
    rw [hins.nextId, wrap32_of_range (by omega) (by omega)] at hid
    simp [h.fresh id (by omega), show c.sched.nextId ≠ id by omega]
  standing id := by
    have ha : a ∉ c.sched.heap := by
      intro hm
      obtain ⟨x, hx⟩ := h.heap.distinct.live a hm
      simp [hfree] at hx
    have hcarry := hins.carrying ha id
    by_cases hid : c.sched.nextId = id
    · have hnew := h.fresh id hid.le
      rw [if_pos hid] at hcarry
      rcases h.standing id with ⟨hadd, hc, -, hp, ht, hx⟩ | ⟨_, _, _, hadd, -⟩ |
          ⟨_, _, _, hadd, -⟩ | ⟨_, _, hadd, -⟩
      · rw [hc, List.perm_singleton] at hcarry
        refine .pending a sink expire (by simp [hadd, hid]) hcarry (hid ▸ hins.new) ?_
          (by simp [hp]) (by simp [ht]) (by simp [hx])
        simp [hins.ref, hid]
      all_goals simp [hadd] at hnew
    · rw [if_neg hid] at hcarry
      refine (h.standing id).untouched ⟨by simp [hid], hcarry, fun b hb => ?_, ?_, by simp,
        by simp, by simp⟩
      · exact hins.payload b fun hba => ha (hba ▸ (mem_carrying.mp hb).1)
      · rw [hins.ref, update_of_ne (Ne.symm hid)]

/-- A timer other than the one whose entry is taken out is not concerned. -/
theorem Inv.untouched_of_removed (h : Inv c) (hp : c.sched.payload a = some (i, expire, sink))
    (hrem : Removed a c.sched t) (hid : id ≠ i) {ctl : Control} {log : List Obs}
    (href : t.ref id = c.sched.ref id) (hadd : addsOf id log = addsOf id c.log)
    (hpop : popsOf id log = popsOf id c.log) (htime : timeoutsOf id log = timeoutsOf id c.log)
    (hcan : cancelsOf id log = cancelsOf id c.log) : Untouched id c ⟨t, ctl, log⟩ where
  adds := hadd
  carrying := by
    have := hrem.carrying h.heap hp id
    rw [if_neg (Ne.symm hid)] at this
    exact this.symm
  payload b hb := hrem.payload b <| by
    rintro rfl
    have := (mem_carrying.mp hb).2
    rw [carries_of_payload hp, decide_eq_true_eq] at this
    exact hid this.symm
  ref := href
  pops := hpop
  timeouts := htime
  cancels := hcan

/-- Nothing carries the id of an entry that has been taken out. -/
theorem Inv.carrying_of_removed (h : Inv c) (hp : c.sched.payload a = some (id, expire, sink))
    (hc : c.sched.carrying id = [a]) (hrem : Removed a c.sched t) : t.carrying id = [] := by
  have hcarry := hrem.carrying h.heap hp id
  rw [if_pos rfl, hc] at hcarry
  rw [List.perm_comm, List.perm_singleton] at hcarry
  exact (List.cons.inj hcarry).2

/-- The invariant after an entry has been taken out, from the account of its timer. -/
theorem Inv.removed (h : Inv c)
    (hp : c.sched.payload a = some (i, expire, sink)) (hrem : Removed a c.sched t)
    {ctl : Control} {log : List Obs} (href : ∀ id ≠ i, t.ref id = c.sched.ref id)
    (hadd : ∀ id, addsOf id log = addsOf id c.log) (hcreated : createdIn log = createdIn c.log)
    (hpop : ∀ id ≠ i, popsOf id log = popsOf id c.log)
    (htime : ∀ id ≠ i, timeoutsOf id log = timeoutsOf id c.log)
    (hcan : ∀ id ≠ i, cancelsOf id log = cancelsOf id c.log)
    (hfiring : ∀ now lastId b, ctl = .callback now lastId b →
      b ∉ t.heap ∧ (t.mem b).isSome = true)
    (hi : Standing ⟨t, ctl, log⟩ i) : Inv ⟨t, ctl, log⟩ where
  heap := hrem.inv
  nextId := by rw [hrem.nextId, h.nextId, hcreated]
  size := by
    have hlen := hrem.perm.length_eq
    have := h.size
    rw [List.length_cons] at hlen
    change t.heap.length ≤ createdIn log
    omega
  firing := hfiring
  fresh id hid := by
    rw [hadd]
    exact h.fresh id (hrem.nextId ▸ hid)
  standing id := by
    by_cases hid : id = i
    · exact hid ▸ hi
    · exact (h.standing id).untouched (h.untouched_of_removed hp hrem hid (href id hid)
        (hadd id) (hpop id hid) (htime id hid) (hcan id hid))

/-- **The invariant is kept** by every step that does not cancel a timer again. -/
theorem Inv.step (h : Inv c) (hfew : createdIn c.log + created [e] < 2147483648 - 100)
    (heff : Effect c e d) : Inv d := by
  cases heff with
  | @added a tick millsec sink t _ hfree hins =>
    have hone : created [.addTimer a tick millsec sink] = 1 := rfl
    exact h.added (hone ▸ hfew) hfree hins
  | missed hid hc =>
    refine ⟨h.heap, by simp [h.nextId], by simpa using h.size, h.firing,
      fun id hid => by simpa using h.fresh id hid, fun id => ?_⟩
    exact (h.standing id).untouched ⟨by simp, .refl _, fun _ _ => rfl, rfl, by simp, by simp,
      by simp⟩
  | @cancelled id a t ha hid hc hrem href hfree =>
    obtain ⟨i, expire, sink, hp, hadd, hc', -, hpop, htime, hcan⟩ := h.pending_of_mem ha
    obtain rfl : i = id := by
      have hmem : a ∈ c.sched.carrying id := by simp [hc]
      have := (mem_carrying.mp hmem).2
      rwa [carries_of_payload hp, decide_eq_true_eq] at this
    refine h.removed hp hrem (fun id _ => by rw [href]) (by simp) (by simp) (by simp) (by simp)
      (fun id hne => by simp [Ne.symm hne]) (fun now lastId b hctl => ?_) ?_
    · obtain ⟨hb, hlive⟩ := h.firing now lastId b hctl
      refine ⟨fun hm => hb (hrem.perm.mem_iff.mpr (List.mem_cons_of_mem a hm)), ?_⟩
      rwa [hrem.off b hb]
    · exact .cancelled sink expire (by simp [hadd]) (h.carrying_of_removed hp hc hrem)
        (by simp [hpop]) (by simp [htime]) (by simp [hcan])
  | entered | left =>
    exact ⟨h.heap, h.nextId, h.size, fun _ _ _ hctl => by simp at hctl, h.fresh,
      fun id => (h.standing id).untouched ⟨rfl, .refl _, fun _ _ => rfl, rfl, rfl, rfl, rfl⟩⟩
  | spun => exact h
  | @dropped now lastId id expire a t hctl ha hp hdue hrem href =>
    obtain ⟨i, x, sink, hp', hadd, hc, -, hpop, htime, hcan⟩ := h.pending_of_mem ha
    obtain ⟨rfl, rfl, rfl⟩ : id = i ∧ expire = x ∧ none = sink := by simpa [hp] using hp'
    refine h.removed hp hrem (fun id hne => by rw [href, update_of_ne hne]) (by simp) (by simp)
      (fun id hne => by simp [Ne.symm hne]) (by simp) (by simp)
      (fun _ _ _ hctl' => by simp [hctl] at hctl') ?_
    exact .fired now none expire (by simp [hadd]) (h.carrying_of_removed hp hc hrem)
      (by simp [href]) (by simp [hpop]) hdue (by simp [htime]) (by simp [hcan])
  | @fired now lastId id expire a k t hctl ha hp hdue hrem href hlive =>
    obtain ⟨i, x, sink, hp', hadd, hc, -, hpop, htime, hcan⟩ := h.pending_of_mem ha
    obtain ⟨rfl, rfl, rfl⟩ : id = i ∧ expire = x ∧ some k = sink := by simpa [hp] using hp'
    refine h.removed hp hrem (fun id hne => by rw [href, update_of_ne hne]) (by simp) (by simp)
      (fun id hne => by simp [Ne.symm hne]) (fun id hne => by simp [Ne.symm hne]) (by simp)
      (fun _ _ b hb => ?_) ?_
    · obtain ⟨-, -, rfl⟩ := Control.callback.inj hb
      exact ⟨hrem.not_mem h.heap, hlive⟩
    · exact .fired now (some k) expire (by simp [hadd]) (h.carrying_of_removed hp hc hrem)
        (by simp [href]) (by simp [hpop]) hdue (by simp [htime]) (by simp [hcan])
  | @returned now lastId a hctl =>
    obtain ⟨ha, -⟩ := h.firing now lastId a hctl
    have hpay : ∀ b ∈ c.sched.heap, TimerSched.payload
        { c.sched with mem := update c.sched.mem a none } b = c.sched.payload b := by
      intro b hb
      have hba : b ≠ a := fun hba => ha (hba ▸ hb)
      simp [TimerSched.payload, hba]
    refine ⟨h.heap.update_off ha none, h.nextId, h.size, fun _ _ _ hctl => by simp at hctl, h.fresh,
      fun id => (h.standing id).untouched ⟨rfl, ?_, fun b hb => ?_, rfl, rfl, rfl, rfl⟩⟩
    · exact .of_eq (carrying_congr hpay)
    · exact hpay b (mem_carrying.mp hb).1

end TimerSched

end WinsockTut
