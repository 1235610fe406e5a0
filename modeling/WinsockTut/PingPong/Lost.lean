import WinsockTut.PingPong.Safety

/-!
# What the server loses

The server only learns of operations that succeed.  A context in use is silent if no packet is to
come for it and no call that is still to be made concerns it.  `silent_iff_lost` says that these
are the contexts of operations that could not be started, or have failed: after one failure the
acceptor never accepts again, a session is never closed, and the context of a write is never freed.
`onWritten_cancels` says that the server itself provokes such failures: the report of a write
cancels the read of its session.
-/

namespace WinsockTut

namespace PingPong

open Runs Word Function

variable {c c' t : Config} {i j : CtxId} {s s' : SessionId} {o o' : Session} {es : List Event}
  {closing : Option SessionId} {a : Answer}

/-- The call will use the context, or leave it for good. -/
def Task.Concerns (c : Config) (i : CtxId) : Task → Prop
  | .startAccept | .accepted _ => c.server.ctx = some i
  | .onAccept j | .onRead _ j | .onWritten _ j => j = i
  | .startRead s | .write s | .close s => ∃ o, c.session s = some o ∧ 0 < o.id ∧ o.recvCtx = i
  | .closeSession _ | .destroy _ _ => False

/-- The context is in use, but nothing will ever be heard of it. -/
def Config.Silent (c : Config) (i : CtxId) : Prop :=
  c.InUse i ∧ c.io.view.out i = 0 ∧ ∀ t ∈ c.todo, ¬ t.Concerns c i

/-- In this step, the operation on the context is not started, or its failure is noticed by
nobody. -/
def Lost (i : CtxId) (c : Config) (e : Event) : Prop :=
  match e, c.todo with
  | .exec a, .startAccept :: _ =>
    c.server.ctx = some i ∧ c.io.starts i (.accept a.socket a.outcome) = 0
  | .exec _, .onAccept j :: _ => j = i ∧ ∃ x, c.io.service.ctxs.get i = some x ∧ x.getStatusCode ≠ 0
  | .exec a, .accepted _ :: _ => c.server.ctx = some i ∧ a.associated = false
  | .exec a, .startRead s :: _ =>
    ∃ o, c.session s = some o ∧ o.recvCtx = i ∧ c.io.starts i (.read a.outcome) = 0
  | .exec _, .onRead _ j :: _ =>
    j = i ∧ ∃ x, c.io.service.ctxs.get i = some x ∧ x.getStatusCode = errorIoPending
  | .exec a, .write s :: _ => i = c.io.view.size ∧ ∃ o, c.session s = some o ∧
    CompletionPortService.startedBy (decide (o.fd ∈ c.io.service.port)) a.outcome = 0
  | .dequeued, _ => ∃ p queue, c.io.queue = p :: queue ∧ p.ctx = i ∧ p.ok = false
  | _, _ => False

theorem Shows.silent_iff {out : CtxId → ℕ} {used : CtxId → Prop} (h : Shows c'.io out used)
    (i : CtxId) : c'.Silent i ↔ used i ∧ out i = 0 ∧ ∀ t ∈ c'.todo, ¬ t.Concerns c' i := by
  rw [Config.Silent, h.out]
  exact and_congr_left fun _ => h.used i

/-- A context that has just been allocated was not in use. -/
theorem not_inUse_size : ¬ c.InUse c.io.view.size := by
  rintro ⟨y, hy, -⟩
  exact absurd (CompletionPortService.lt_size_of_face hy) (lt_irrefl _)

/-- The context that an open session reads with. -/
theorem Config.Reads.concerns (hs : c.Reads s o) (i : CtxId) :
    (∃ o, c.session s = some o ∧ 0 < o.id ∧ o.recvCtx = i) ↔ o.recvCtx = i := by
  constructor
  · rintro ⟨o', hs', -, hi⟩
    rwa [← Option.some.inj (hs.get.symm.trans hs')] at hi
  · intro hi
    exact ⟨o, hs.get, hs.isOpen, hi⟩

/-- A closed session does not read any more. -/
theorem Config.Closed.not_concerns {sid : ℤ} (hs : c.Closed sid s) (i : CtxId) :
    ¬ ∃ o, c.session s = some o ∧ 0 < o.id ∧ o.recvCtx = i := by
  rintro ⟨o, ho, hpos, -⟩
  obtain ⟨o', ho', hdead⟩ := hs.dead
  rw [Option.some.inj (ho.symm.trans ho'), hdead] at hpos
  exact lt_irrefl 0 hpos

/-- A step that is not about the contexts, and after which the calls that are still to be made
concern the same contexts as before. -/
theorem silent_iff_of_same (hio : Shows c'.io c.io.view.out c.InUse) (i : CtxId)
    (htodo : (∀ t ∈ c'.todo, ¬ t.Concerns c' i) ↔ ∀ t ∈ c.todo, ¬ t.Concerns c i) :
    c'.Silent i ↔ c.Silent i := by
  rw [hio.silent_iff, htodo]
  rfl

/-- **What a step makes silent.** -/
theorem silent_of_effect (h : Inv closing c) {e : Event} (heffect : Effect c e c') (i : CtxId) :
    c'.Silent i ↔ c.Silent i ∨ Lost i c e := by
  cases heffect with
  | started htodo hctx hio =>
    rw [hio.silent_iff]
    simp only [Config.Silent, Lost, htodo, List.mem_singleton, forall_eq, Task.Concerns,
      Option.some.injEq, or_false, List.not_mem_nil, false_imp_iff, implies_true, and_true]
    by_cases hi : i = c.io.view.size
    · subst hi
      simp [not_inUse_size]
    · simp [hi, Ne.symm hi]
  | @acceptStarted a j io htodo hj hio =>
    rw [hio.silent_iff]
    simp only [Config.Silent, Lost, htodo, List.mem_singleton, forall_eq, Task.Concerns, hj.1,
      Option.some.injEq, List.not_mem_nil, false_imp_iff, implies_true, and_true]
    by_cases hi : i = j
    · subst hi
      simp [h.accounts.acceptor i hj.1]
    · simp [hi, Ne.symm hi]
  | @acceptFailed a j x io htodo hj hx hstatus hio =>
    rw [hio.silent_iff]
    simp only [Config.Silent, Lost, htodo, List.mem_singleton, forall_eq, Task.Concerns,
      List.not_mem_nil, false_imp_iff, implies_true, and_true]
    by_cases hi : i = j
    · subst hi
      simp [h.accounts.acceptor i hj.1, hj.2, hx, hstatus]
    · simp [Ne.symm hi]
  | @acceptDone a j x io newfd htodo hj hx hstatus hio =>
    rw [hio.silent_iff]
    simp only [Config.Silent, Lost, htodo, List.mem_singleton, forall_eq, Task.Concerns, hj.1,
      Option.some.injEq]
    by_cases hi : i = j
    · subst hi
      simp [hx, hstatus]
    · simp [Ne.symm hi]
  | @connectionRefused a j io newfd htodo hj ha hio =>
    rw [hio.silent_iff]
    simp only [Config.Silent, Lost, htodo, List.mem_singleton, forall_eq, Task.Concerns, hj.1,
      Option.some.injEq, List.not_mem_nil, false_imp_iff, implies_true, and_true, ha]
    by_cases hi : i = j
    · subst hi
      simp [h.accounts.acceptor i hj.1, hj.2]
    · simp [Ne.symm hi]
  | @sessionCreated a j io newfd htodo hj ha hio =>
    rw [hio.silent_iff]
    have hpos : 0 < c.server.counter := by
      rw [h.accounts.counter]
      omega
    simp only [Config.Silent, Lost, htodo, List.mem_cons, List.not_mem_nil, or_false,
      forall_eq_or_imp, forall_eq, Task.Concerns, hj.1, Option.some.injEq, ha]
    by_cases hi : i = c.io.view.size
    · subst hi
      simp [not_inUse_size, Config.session, hpos]
    · simp [hi, Ne.symm hi, Config.session]
  | @readStarted a s o rest io htodo hs hrest hio =>
    rw [hio.silent_iff]
    have hsame : (∀ t ∈ rest, ¬ Task.Concerns { c with
        io := io, handlers := c.handlers ++ [.onRead s o.recvCtx], todo := rest } i t) ↔
        ∀ t ∈ rest, ¬ Task.Concerns c i t := by
      rcases hrest with rfl | ⟨j, rfl, hj⟩ <;> simp [Task.Concerns]
    have hfirst : Task.Concerns c i (.startRead s) ↔ o.recvCtx = i := hs.concerns i
    rw [hsame]
    simp only [Config.Silent, Lost, htodo, List.forall_mem_cons, hfirst]
    by_cases hi : i = o.recvCtx
    · subst hi
      have hother : ∀ t ∈ rest, ¬ Task.Concerns c o.recvCtx t := by
        rcases hrest with rfl | ⟨j, rfl, hj⟩
        · simp
        · simpa [Task.Concerns] using (h.accounts.owned s o hs.get).2
      simpa [(h.accounts.opened s o hs.get hs.isOpen).1, hs.get] using fun _ => hother
    · simp [hi, Ne.symm hi, hs.get]
  | @readIgnored a s o x htodo hs hx hstatus =>
    have huse := (h.accounts.opened s o hs.get hs.isOpen).1
    simp only [Config.Silent, Lost, htodo, List.mem_singleton, forall_eq, Task.Concerns,
      List.not_mem_nil, false_imp_iff, implies_true, and_true]
    change (c.InUse i ∧ c.io.view.out i = 0) ↔ _
    by_cases hi : i = o.recvCtx
    · subst hi
      simp [huse, hs.out, hx, hstatus]
    · simp [Ne.symm hi]
  | @readDone a s o x todo htodo hs hx hstatus hnext =>
    have hno : ¬ Lost i c (.exec a) := by
      simp only [Lost, htodo]
      rintro ⟨rfl, x', hx', hstatus'⟩
      rw [Option.some.inj (hx.symm.trans hx')] at hstatus
      exact hstatus hstatus'
    rw [or_iff_left hno]
    refine silent_iff_of_same (c := c) (by exact ⟨rfl, fun j => Iff.rfl⟩) i ?_
    simp only [htodo, List.mem_singleton, forall_eq, Task.Concerns]
    rcases hnext with rfl | rfl <;> simp [(hs.of_todo _).concerns]
  | @writeStarted a s o io htodo hs hio =>
    rw [hio.silent_iff]
    have hsize := h.accounts.recvCtx_ne_size hs.get
    have hthen : Task.Concerns { c with
        io := io, handlers := c.handlers ++ [.onWritten s c.io.view.size]
        todo := [.startRead s] } i (.startRead s) ↔ o.recvCtx = i := hs.concerns i
    simp only [Config.Silent, Lost, htodo, List.mem_cons, List.not_mem_nil, or_false,
      forall_eq_or_imp, forall_eq, hthen]
    simp only [Task.Concerns, hs.concerns, and_self]
    by_cases hi : i = c.io.view.size
    · subst hi
      simp [not_inUse_size, hsize, hs.get]
    · simp [hi]
  | @writeDone a s j o io htodo hs hio hlog =>
    rw [hio.silent_iff]
    simp only [Config.Silent, Lost, htodo, List.mem_singleton, forall_eq, Task.Concerns,
      List.not_mem_nil, false_imp_iff, implies_true, and_true, or_false]
    tauto
  | @closed a s o io htodo hs hio hlog =>
    rw [hio.silent_iff]
    simp only [Config.Silent, Lost, htodo, List.mem_singleton, forall_eq, Task.Concerns,
      hs.concerns, not_false_eq_true, and_true, or_false]
    tauto
  | @sessionFound a sid s htodo hs =>
    rw [or_iff_left (by simp [Lost, htodo])]
    refine silent_iff_of_same (c := c) (by exact ⟨rfl, fun j => Iff.rfl⟩) i ?_
    have hno := (hs.of_todo [.close s, .destroy sid s]).not_concerns i
    simp [htodo, Task.Concerns, hno]
  | @closedAgain a sid s htodo hs =>
    rw [or_iff_left (by simp [Lost, htodo])]
    refine silent_iff_of_same (c := c) (by exact ⟨rfl, fun j => Iff.rfl⟩) i ?_
    have hno := hs.not_concerns i
    simp [htodo, Task.Concerns, hno]
  | @destroyed a sid s htodo hs =>
    rw [or_iff_left (by simp [Lost, htodo])]
    refine silent_iff_of_same (c := c) (by exact ⟨rfl, fun j => Iff.rfl⟩) i ?_
    simp [htodo, Task.Concerns]
  | completed hio =>
    rw [or_iff_left (by simp [Lost])]
    exact silent_iff_of_same hio i Iff.rfl
  | quieted htodo hio =>
    rw [or_iff_left (by simp [Lost])]
    exact silent_iff_of_same hio i Iff.rfl
  | @delivered p queue hd io htodo hqueue hok hb hio =>
    have hno : ¬ Lost i c .dequeued := by
      rintro ⟨q, queue', hq, -, hqok⟩
      obtain ⟨rfl, -⟩ := List.cons.inj (hqueue.symm.trans hq)
      simp [hok] at hqok
    have hpos := out_pos_of_queue hqueue
    have hconcerns : ∀ c' : Config, Task.Concerns c' i hd.task ↔ p.ctx = i := by
      intro c'
      have hfit := h.accounts.fits p.ctx hd hb
      cases hd with
      | onAccept j => exact hfit.1 ▸ Iff.rfl
      | onRead s j => exact hfit.1 ▸ Iff.rfl
      | onWritten s j => exact hfit.1 ▸ Iff.rfl
    rw [hio.silent_iff, or_iff_left hno]
    simp only [Config.Silent, htodo, List.mem_singleton, forall_eq, hconcerns, List.not_mem_nil,
      false_imp_iff, implies_true, and_true]
    by_cases hi : i = p.ctx
    · subst hi
      simp [Nat.ne_of_gt hpos]
    · simp [hi, Ne.symm hi]
  | @failed p queue io htodo hqueue hok hio =>
    have hpos := out_pos_of_queue hqueue
    have hlost : Lost i c .dequeued ↔ i = p.ctx := by
      constructor
      · rintro ⟨q, queue', hq, rfl, -⟩
        rw [(List.cons.inj (hqueue.symm.trans hq)).1]
      · rintro rfl
        exact ⟨p, queue, hqueue, rfl, hok⟩
    rw [hio.silent_iff, hlost]
    simp only [Config.Silent, htodo, List.not_mem_nil, false_imp_iff, implies_true, and_true]
    by_cases hi : i = p.ctx
    · subst hi
      have halone := h.accounts.alone p.ctx
      simp [h.accounts.inUse_of_out hpos, Nat.sub_eq_zero_of_le halone]
    · simp [hi]
  | returned htodo hio =>
    rw [or_iff_left (by simp [Lost])]
    exact silent_iff_of_same hio i Iff.rfl

/-- **Silence is forever, and comes from failures only.**  A context in use is silent exactly if its
operation could not be started, or has failed, in some step of the run, as long as fewer sessions
have been created than `counter_` can count: a session whose id is not positive is not closed. -/
theorem silent_iff_lost (hrun : runs es = some c)
    (hfew : Throughout step Config.init es fun _ => Config.Few) (i : CtxId) :
    c.Silent i ↔ ∃ fs e gs t, es = fs ++ e :: gs ∧ runs fs = some t ∧ Lost i t e := by
  have hsince : c.Silent i ↔ Since step Config.init es (Lost i) fun _ => False := by
    refine run_induction
      (P := fun es c => c.Silent i ↔ Since step Config.init es (Lost i) fun _ => False)
      (iff_of_false ?_ not_since_nil) (fun fs e t u hp ht ih hstep => ?_) hrun
    · rintro ⟨⟨y, hy, -⟩, -⟩
      exact absurd (CompletionPortService.lt_size_of_face hy) (Nat.not_lt_zero i)
    · have hfault : t.fault = false := by
        by_contra hne
        simp [step, hne] at hstep
      have hfs : fs <+: es := (List.prefix_append fs [e]).trans hp
      obtain ⟨closing, h⟩ := inv_of_runs ht (fun gs v hg => hfew gs v (hg.trans hfs)) hfault
      obtain ⟨heffect, -⟩ := spec_of_step h (hfew fs t hfs ht) hstep
      rw [silent_of_effect h heffect i, ih, since_append_singleton ht, not_false_eq_true,
        and_true]
  rw [hsince]
  constructor
  · rintro ⟨fs, e, gs, t, hes, ht, hlost, -⟩
    exact ⟨fs, e, gs, t, hes, ht, hlost⟩
  · rintro ⟨fs, e, gs, t, hes, ht, hlost⟩
    exact ⟨fs, e, gs, t, hes, ht, hlost, fun _ _ => id⟩

/-- A failed read silences its session. -/
def readFails : List Event :=
  [.start 5 true, pending 7, .complete 0 0 0] ++ runOnce ++
    [pending 0, pending 0, pending 0, pending 8, .callbackReturn, .complete 0 64 0] ++ runOnce

theorem silent_readFails : ∃ c, runs readFails = some c ∧
    c.session 0 = some ⟨2001, 7, 1⟩ ∧ c.Silent 1 := by
  have hstate : (runs readFails).map (fun c => c.session 0) = some (some ⟨2001, 7, 1⟩) := by
    decide +kernel
  obtain ⟨c, hrun, hs⟩ := Option.map_eq_some_iff.mp hstate
  refine ⟨c, hrun, hs,
    (silent_iff_lost hrun (throughout_of_checkStates (by decide +kernel)) 1).mpr ?_⟩
  have hbefore : (runs readFails.dropLast).map (fun c => c.io.queue) =
      some [⟨1, .read, false⟩] := by decide +kernel
  obtain ⟨t, ht, hqueue⟩ := Option.map_eq_some_iff.mp hbefore
  exact ⟨readFails.dropLast, .dequeued, [], t, by decide, ht, _, _, hqueue, rfl, rfl⟩

/-! ### The server cancels its own reads -/

/-- **The report of a write cancels the read.**  `OnWritten` frees the context of the write with
`FLAG_LAZY_DELETE`, which includes `FLAG_CANCEL_IO`: it cancels everything that is in flight on the
socket of its session, and every read of the session is in flight on that socket.  This
too holds as long as `counter_` has not overflowed and no deleted session has been used. -/
theorem onWritten_cancels (hrun : runs es = some c)
    (hfew : Throughout step Config.init es fun _ => Config.Few) (hfault : c.fault = false)
    (htodo : c.todo = [.onWritten s i]) (a : Answer) :
    ∃ o c', c.session s = some o ∧ step c (.exec a) = some c' ∧
      c'.io.log = c.io.log ++ [.called (.cancelIoEx o.fd)] ∧
      ∀ op ∈ c.io.inflight, op.1.ctx = o.recvCtx → op.1.fd = o.fd := by
  obtain ⟨closing, h⟩ := inv_of_runs hrun hfew hfault
  obtain ⟨c', hexec, heffect, -⟩ := onWritten_spec h htodo a
  have hstep : step c (.exec a) = some c' := (step_exec hfault htodo a).trans hexec
  cases heffect with
  | @writeDone _ s' j o io htodo' hs hio hlog =>
    obtain ⟨rfl, rfl⟩ : s = s' ∧ i = j := by simpa using htodo.symm.trans htodo'
    refine ⟨o, _, hs, hstep, hlog, fun op hop hctx => ?_⟩
    have hrest : closing = none := by
      have hpoint := h.point
      rw [htodo] at hpoint
      cases hpoint
      rfl
    have hopen : 0 < o.id := (h.accounts.ids s o hs).2 (hrest ▸ nofun)
    obtain ⟨huse, -⟩ := h.accounts.opened s o hs hopen
    obtain ⟨es', hio'⟩ := h.accounts.driven.reached
    obtain ⟨-, hown⟩ := CompletionPortService.ownSockets_of_runs hio' op hop
    rw [hctx] at hown
    obtain ⟨y, hy, -⟩ := (id huse : c.InUse o.recvCtx)
    obtain ⟨x, hx, rfl⟩ := exists_get hy
    exact (hown.resolve_left (h.accounts.not_freed huse) x hx).symm.trans
      ((h.accounts.own s o hs hopen).1 _ hy)
  | _ => simp_all

/-- The write of the echo is reported while the next read is in flight. -/
def writeReported : List Event := echoed ++ [.complete 1 0 10] ++ runOnce

theorem onWritten_cancels_writeReported : ∃ c c', runs writeReported = some c ∧
    step c (pending 0) = some c' ∧ c'.io.log = c.io.log ++ [.called (.cancelIoEx 7)] ∧
    ((⟨1, .read, 7⟩, true) : Operation × Bool) ∈ c.io.inflight := by
  have hstate : (runs writeReported).map
      (fun c => (c.fault, c.todo, c.session 0, c.io.inflight)) =
      some (false, [.onWritten 0 2], some ⟨2001, 7, 1⟩,
        [(⟨0, .accept, 5⟩, true), (⟨1, .read, 7⟩, true)]) := by decide +kernel
  obtain ⟨c, hrun, hc⟩ := Option.map_eq_some_iff.mp hstate
  simp only [Prod.mk.injEq] at hc
  obtain ⟨hfault, htodo, hs, hinflight⟩ := hc
  obtain ⟨o, c', ho, hstep, hlog, -⟩ := onWritten_cancels hrun
    (throughout_of_checkStates (by decide +kernel)) hfault htodo ⟨true, 0, .pending⟩
  obtain rfl := Option.some.inj (hs.symm.trans ho)
  exact ⟨c, c', hrun, hstep, hlog, by simp [hinflight]⟩

end PingPong

end WinsockTut
