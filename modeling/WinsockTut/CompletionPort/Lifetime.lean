import WinsockTut.CompletionPort.Freed

/-!
# The lifetime of the contexts

`Run` reads `pContext->cb` of each packet of a successful operation it dequeues, and
`pContext->flags` behind the callback.  The context is gone by then if the callback has freed it
without `FLAG_LAZY_DELETE`, or if `Run` has deleted it lazily behind an earlier callback, though an
operation on it was outstanding that the callback had started.  In the runs without such steps, and
with no early free by the owner, `Run` uses live contexts only (`accessesLive_of_runs`).
-/

namespace WinsockTut

namespace CompletionPortService

open Runs

variable {c c' : Config} {e : Event} {es : List Event} {p : Packet} {ctx : CtxId}

/-- The context has been allocated and not been deleted. -/
def Config.Live (c : Config) (ctx : CtxId) : Prop := (c.service.ctxs.get ctx).isSome = true

/-- `Run` uses live contexts only: that of a packet it dequeues, unless the operation has failed,
and that of a callback that returns. -/
def AccessesLive (c : Config) (e : Event) : Prop :=
  (e = .dequeued → ∀ p queue, c.queue = p :: queue → p.ok = true → c.Live p.ctx) ∧
  (e = .callbackReturn → ∀ d, c.ctl = .callback d → c.Live d.packet.ctx)

/-- The contexts that have been deleted, in order. -/
def deletedIn (log : List Obs) : List CtxId := log.filterMap fun
  | .deleted ctx => some ctx
  | _ => none

/-- No deleted context has been used, and none has been deleted twice. -/
def NoneDeletedTwice (c : Config) : Prop := c.ctl ≠ .undefined ∧ (deletedIn c.log).Nodup

/-- If the step starts an operation, none is outstanding on the context, nor waits a completion of
it in the port. -/
def StartsAlone (c : Config) (e : Event) : Prop := ∀ ctx call, e = .async ctx call → ¬ c.Busy ctx

/-- The step does not free the context whose callback is running, unless with
`FLAG_LAZY_DELETE`. -/
def FreesOthers (c : Config) (e : Event) : Prop :=
  ∀ d, c.ctl = .callback d → e = .free d.packet.ctx → c.lazy d.packet.ctx = true

/-- An operation on the context that reports to the port is in flight, or the completion of one
that has succeeded waits in the port. -/
def Config.Awaited (c : Config) (ctx : CtxId) : Prop :=
  (∃ op ∈ c.inflight, op.2 = true ∧ op.1.ctx = ctx) ∨ ∃ p ∈ c.queue, p.ok = true ∧ p.ctx = ctx

/-- The context that `Run` deletes lazily in the step, if it does. -/
def Config.deletes (c : Config) (e : Event) : Option CtxId :=
  match e, c.ctl, c.queue with
  | .callbackReturn, .callback d, _ => if c.lazy d.packet.ctx then some d.packet.ctx else none
  | .dequeued, .dequeuing, p :: _ =>
    if p.ok ∧ c.lazy p.ctx ∧ (c.service.ctxs.get p.ctx).any (fun x => x.cb.isNone) then some p.ctx
    else none
  | _, _, _ => none

/-- `Run` does not delete a context lazily while a completion of it is still to come, other than
the one that is being dequeued. -/
def DeletesLast (c : Config) (e : Event) : Prop :=
  ∀ ctx ∈ c.deletes e,
    ¬ Config.Awaited (if e = .dequeued then { c with queue := c.queue.tail } else c) ctx

/-- Whatever a completion will be dispatched to is live. -/
structure LiveInv (c : Config) : Prop where
  inflight : ∀ op ∈ c.inflight, op.2 = true → c.Live op.1.ctx
  queue : ∀ p ∈ c.queue, p.ok = true → c.Live p.ctx
  callback : ∀ d, c.ctl = .callback d → c.Live d.packet.ctx
  defined : c.ctl ≠ .undefined

theorem liveInv_init : LiveInv Config.init where
  inflight := fun _ hop => absurd hop List.not_mem_nil
  queue := fun _ hp => absurd hp List.not_mem_nil
  callback := fun _ h => nomatch h
  defined := fun h => nomatch h

theorem lazy_of_get {x : OverlapContext} (hx : c.service.ctxs.get ctx = some x) :
    c.lazy ctx = x.lazy := by
  simp [Config.lazy, hx]

/-- A context is awaited only while it is live. -/
theorem LiveInv.live_of_awaited (h : LiveInv c) (ha : c.Awaited ctx) : c.Live ctx := by
  rcases ha with ⟨op, hop, hport, rfl⟩ | ⟨p, hp, hok, rfl⟩
  · exact h.inflight op hop hport
  · exact h.queue p hp hok

/-- A step that makes no completion await a context, and deletes none that is awaited. -/
theorem LiveInv.of_awaited (h : LiveInv c) (hctl : c'.ctl ≠ .undefined)
    (hcall : ∀ d, c'.ctl = .callback d → c'.Live d.packet.ctx)
    (hsub : ∀ ctx, c'.Awaited ctx → c.Awaited ctx)
    (hlive : ∀ ctx, c'.Awaited ctx → c.Live ctx → c'.Live ctx) : LiveInv c' where
  inflight op hop hport := by
    have ha : c'.Awaited op.1.ctx := Or.inl ⟨op, hop, hport, rfl⟩
    exact hlive _ ha (h.live_of_awaited (hsub _ ha))
  queue p hp hok := by
    have ha : c'.Awaited p.ctx := Or.inr ⟨p, hp, hok, rfl⟩
    exact hlive _ ha (h.live_of_awaited (hsub _ ha))
  callback := hcall
  defined := hctl

/-- Behind the callback, the context of the packet is live, and is not awaited if it is deleted. -/
theorem LiveInv.finish (h : LiveInv c) (d : Delivery) (hd : c.Live d.packet.ctx)
    (hlast : c.lazy d.packet.ctx = true → ¬ c.Awaited d.packet.ctx) : LiveInv (c.finish d) := by
  rcases c.finish_cases d with ⟨hnone, -⟩ | ⟨x, hx, ⟨hlazy, heq⟩ | ⟨-, heq⟩⟩
  · simp [Config.Live, hnone] at hd
  · rw [heq]
    have hno := hlast ((lazy_of_get hx).trans hlazy)
    refine h.of_awaited (by rintro ⟨⟩) (by rintro _ ⟨⟩) (fun _ ha => ha) ?_
    intro ctx ha hctx
    have hne : d.packet.ctx ≠ ctx := fun hne => hno (hne ▸ ha)
    rw [Config.Live, Config.leave, CompletionPortService.delete, Contexts.get_delete_ne hne]
    exact hctx
  · rw [heq]
    exact h.of_awaited (by rintro ⟨⟩) (by rintro _ ⟨⟩) (fun _ ha => ha) fun _ _ hctx => hctx

/-! ### The steps -/

/-- Changing a context deletes none. -/
theorem live_of_update {f : OverlapContext → OverlapContext} {i : CtxId}
    (hctxs : c'.service.ctxs = c.service.ctxs.update ctx f) (hi : c.Live i) : c'.Live i := by
  rw [Config.Live, hctxs, Contexts.isSome_get_update]
  exact hi

theorem Config.post_service (c : Config) (op : Operation × Bool) (ok : Bool) :
    (c.post op ok).service = c.service := by
  unfold post
  split <;> rfl

/-- A completion is posted for the context of its operation. -/
theorem mem_post_queue {op : Operation × Bool} {ok : Bool} (h : p ∈ (c.post op ok).queue) :
    p ∈ c.queue ∨ (p.ctx = op.1.ctx ∧ op.2 = true) := by
  unfold Config.post at h
  split at h
  · next hport =>
    rcases List.mem_append.mp h with h | h
    · exact Or.inl h
    · exact Or.inr ⟨congrArg Packet.ctx (List.mem_singleton.mp h), hport⟩
  · exact Or.inl h

theorem Config.post_inflight (c : Config) (op : Operation × Bool) (ok : Bool) :
    (c.post op ok).inflight = c.inflight := by
  unfold post
  split <;> rfl

/-- The contexts after a call that starts an operation. -/
theorem Config.issue_ctxs (c : Config) (ctx : CtxId) (kind : OpKind) (fd : Socket) (r : Issue) :
    (c.issue ctx kind fd r).service.ctxs = c.service.ctxs.update ctx fun _ => r.ctx := by
  unfold issue
  cases r.outcome with
  | done bytes => exact congrArg CompletionPortService.ctxs (post_service _ _ _)
  | pending => rfl
  | failed err => rfl

/-- It adds an operation, or the completion of one, on its own context only. -/
theorem issue_adds {kind : OpKind} {fd : Socket} {r : Issue} :
    (∀ op ∈ (c.issue ctx kind fd r).inflight, op ∈ c.inflight ∨ op.1.ctx = ctx) ∧
      ∀ p ∈ (c.issue ctx kind fd r).queue, p ∈ c.queue ∨ p.ctx = ctx := by
  unfold Config.issue
  cases r.outcome with
  | done bytes =>
    simp only [Config.post_inflight]
    exact ⟨fun op hop => Or.inl hop, fun p hp => (mem_post_queue hp).imp_right And.left⟩
  | pending =>
    refine ⟨fun op hop => ?_, fun p hp => Or.inl hp⟩
    rcases List.mem_append.mp hop with hop | hop
    · exact Or.inl hop
    · exact Or.inr (congrArg (fun op => op.1.ctx) (List.mem_singleton.mp hop))
  | failed err => exact ⟨fun op hop => Or.inl hop, fun p hp => Or.inl hp⟩

theorem Config.complete_ctxs (c : Config) (k : ℕ) (op : Operation × Bool) (status bytes : ℕ) :
    (c.complete k op status bytes).service.ctxs = c.service.ctxs.update op.1.ctx fun x =>
      { x with internal := status, internalHigh := bytes } :=
  congrArg CompletionPortService.ctxs (post_service _ _ _)

/-- What is outstanding on a context is awaited or not, but the context is in use. -/
theorem Config.Awaited.busy (h : c.Awaited ctx) : c.Busy ctx :=
  h.imp (fun ⟨op, hop, _, heq⟩ => ⟨op, hop, heq⟩) fun ⟨p, hp, _, heq⟩ => ⟨p, hp, heq⟩

/-- A step in which the queue, the operations in flight and the callback stay as they are. -/
theorem LiveInv.of_live (h : LiveInv c) (hinflight : c'.inflight = c.inflight)
    (hqueue : c'.queue = c.queue) (hdef : c'.ctl ≠ .undefined)
    (hctl : ∀ d, c'.ctl = .callback d → c.ctl = .callback d)
    (hlive : ∀ i, c.Awaited i ∨ (∃ d, c.ctl = .callback d ∧ d.packet.ctx = i) → c.Live i →
      c'.Live i) : LiveInv c' where
  inflight op hop hport := by
    rw [hinflight] at hop
    exact hlive _ (Or.inl (Or.inl ⟨op, hop, hport, rfl⟩)) (h.inflight op hop hport)
  queue p hp hok := by
    rw [hqueue] at hp
    exact hlive _ (Or.inl (Or.inr ⟨p, hp, hok, rfl⟩)) (h.queue p hp hok)
  callback d hd := hlive _ (Or.inr ⟨d, hctl d hd, rfl⟩) (h.callback d (hctl d hd))
  defined := hdef

/-- A context that is needed is freed lazily, so it stays. -/
theorem LiveInv.free (h : LiveInv c) {s : CompletionPortService} {calls : List SocketCall}
    (hfree : FreesOnceAndLazily c (.free ctx)) (hothers : FreesOthers c (.free ctx))
    (hfreed : c.service.freeOverlapCtx ctx = some (s, calls))
    (hservice : c'.service = s) (hinflight : c'.inflight = c.inflight) (hqueue : c'.queue = c.queue)
    (hctl : c'.ctl = c.ctl) : LiveInv c' := by
  obtain ⟨-, hget, x, hx, -, hlazy⟩ := freeOverlapCtx_spec hfreed
  refine h.of_live hinflight hqueue (hctl ▸ h.defined) (fun d hd => hctl.symm.trans hd) ?_
  intro i hneed hi
  rw [Config.Live, hservice]
  by_cases hi' : i = ctx
  · subst hi'
    have hl : c.lazy i = true := by
      rcases hneed with ha | ⟨d, hd, rfl⟩
      · exact (hfree i rfl).2 ha.busy
      · exact hothers d hd rfl
    exact hlazy ((lazy_of_get hx).symm.trans hl)
  · rw [hget i hi']
    exact hi

/-- An operation is started on a live context. -/
theorem LiveInv.issue (h : LiveInv c) {kind : OpKind} {fd : Socket} {r : Issue}
    (hctx : c.Live ctx) : LiveInv (c.issue ctx kind fd r) := by
  have hlive : ∀ i, c.Live i → (c.issue ctx kind fd r).Live i := fun i hi =>
    live_of_update (Config.issue_ctxs c ctx kind fd r) hi
  refine ⟨fun op hop hport => ?_, fun p hp hok => ?_, fun d hd => ?_, ?_⟩
  · rcases issue_adds.1 op hop with hold | rfl
    · exact hlive _ (h.inflight op hold hport)
    · exact hlive _ hctx
  · rcases issue_adds.2 p hp with hold | rfl
    · exact hlive _ (h.queue p hold hok)
    · exact hlive _ hctx
  · rw [Config.issue_ctl] at hd
    exact hlive _ (h.callback d hd)
  · rw [Config.issue_ctl]
    exact h.defined

/-- The completion of an operation is posted for the context of the operation. -/
theorem LiveInv.complete (h : LiveInv c) {k status bytes : ℕ} {op : Operation × Bool}
    (hop : c.inflight[k]? = some op) : LiveInv (c.complete k op status bytes) := by
  have hlive : ∀ i, c.Live i → (c.complete k op status bytes).Live i := fun i hi =>
    live_of_update (Config.complete_ctxs c k op status bytes) hi
  refine ⟨fun op' hop' hport => ?_, fun p hp hok => ?_, fun d hd => ?_, ?_⟩
  · rw [Config.complete, Config.post_inflight] at hop'
    exact hlive _ (h.inflight op' (List.mem_of_mem_eraseIdx hop') hport)
  · rcases mem_post_queue hp with hold | ⟨hctx, hport⟩
    · exact hlive _ (h.queue p hold hok)
    · exact hctx ▸ hlive _ (h.inflight op (List.mem_of_getElem? hop) hport)
  · rw [Config.complete_ctl] at hd
    exact hlive _ (h.callback d hd)
  · rw [Config.complete_ctl]
    exact h.defined

/-- A packet is dequeued, and its context is live unless the operation has failed. -/
theorem LiveInv.dequeue (h : LiveInv c) {queue : List Packet} (hctl : c.ctl = .dequeuing)
    (hqueue : c.queue = p :: queue) (hlast : DeletesLast c .dequeued) :
    LiveInv (Config.handle { c with queue := queue } p) := by
  have hq : LiveInv { c with queue := queue } :=
    ⟨h.inflight, fun q hq => h.queue q (hqueue ▸ List.mem_cons_of_mem p hq), h.callback, h.defined⟩
  have hp : p.ok = true → c.Live p.ctx := h.queue p (hqueue ▸ List.mem_cons_self)
  rcases Config.handle_cases { c with queue := queue } p with ⟨-, heq⟩ | ⟨hok, hnone, -⟩ |
      ⟨x, hok, hx, ⟨-, heq⟩ | ⟨hcb, heq⟩⟩
  · rw [heq]
    exact hq.of_live rfl rfl (fun hd => nomatch hd) (fun _ hd => nomatch hd) fun _ _ hi => hi
  · have hlive := hp hok
    rw [Config.Live, show c.service.ctxs.get p.ctx = none from hnone] at hlive
    simp at hlive
  · rw [heq]
    refine ⟨hq.inflight, hq.queue, fun d hd => ?_, fun hd => nomatch hd⟩
    obtain rfl := Control.callback.inj hd
    exact hp hok
  · rw [heq]
    refine hq.finish _ (hp hok) fun hlazy => ?_
    have hdel : c.deletes .dequeued = some p.ctx := by
      have hlazy' : c.lazy p.ctx = true := hlazy
      have hx' : c.service.ctxs.get p.ctx = some x := hx
      simp [Config.deletes, hctl, hqueue, hok, hlazy', hx', hcb]
    have hno := hlast p.ctx hdel
    simp only [if_true, hqueue, List.tail_cons] at hno
    exact hno

/-- **Preservation.** -/
theorem LiveInv.step (h : LiveInv c) (hfree : FreesOnceAndLazily c e) (hothers : FreesOthers c e)
    (hlast : DeletesLast c e) (hstep : CompletionPortService.step c e = some c') : LiveInv c' := by
  cases effect_of_step hstep with
  | alloced hcall halloc =>
    obtain ⟨-, hget, -⟩ := allocOverlapCtx_spec halloc
    refine h.of_live rfl rfl h.defined (fun _ hd => hd) fun i _ hi => ?_
    obtain ⟨x, hx⟩ := Option.isSome_iff_exists.mp hi
    rw [Config.Live, hget i (Contexts.lt_length_of_get hx)]
    exact hi
  | freed hcall hfreed => exact h.free hfree hothers hfreed rfl rfl rfl rfl
  | assigned hcall hx =>
    exact h.of_live rfl rfl h.defined (fun _ hd => hd) fun i _ hi => live_of_update rfl hi
  | issued hcall hx => exact h.issue (by simp [Config.Live, hx])
  | closed hcall => exact h.of_live rfl rfl h.defined (fun _ hd => hd) fun _ _ hi => hi
  | completed hop hstatus => exact h.complete hop
  | @ticked e timers htimers =>
    rcases c.ctl.afterTimer_eq e with hsame | ⟨-, hn⟩
    · refine h.of_live rfl rfl (fun hd => h.defined (hsame.symm.trans hd))
        (fun d hd => hsame.symm.trans hd) fun _ _ hi => hi
    · exact h.of_live rfl rfl (fun hd => nomatch hn.symm.trans hd)
        (fun d hd => nomatch hn.symm.trans hd) fun _ _ hi => hi
  | ran hctl =>
    exact h.of_live rfl rfl (fun hd => nomatch hd) (fun _ hd => nomatch hd) fun _ _ hi => hi
  | updated hctl htimers =>
    exact h.of_live rfl rfl (fun hd => nomatch hd) (fun _ hd => nomatch hd) fun _ _ hi => hi
  | notDequeued hctl =>
    exact h.of_live rfl rfl (fun hd => nomatch hd) (fun _ hd => nomatch hd) fun _ _ hi => hi
  | dequeued hctl hqueue => exact h.dequeue hctl hqueue hlast
  | @resumed d hctl =>
    refine h.finish d (h.callback d hctl) fun hlazy => ?_
    have hdel : c.deletes .callbackReturn = some d.packet.ctx := by
      simp [Config.deletes, hctl, hlazy]
    simpa using hlast d.packet.ctx hdel

/-! ### Deletions -/

@[simp] theorem deletedIn_append (log l : List Obs) :
    deletedIn (log ++ l) = deletedIn log ++ deletedIn l := by
  simp [deletedIn]

@[simp] theorem deletedIn_called (log : List SocketCall) : deletedIn (log.map .called) = [] := by
  simp [deletedIn]

/-- The context has been deleted. -/
def Config.Gone (c : Config) (ctx : CtxId) : Prop :=
  ctx < c.service.ctxs.length ∧ c.service.ctxs.get ctx = none

/-- A step that deletes the contexts `l`. -/
structure Deletes (l : List CtxId) (c c' : Config) : Prop where
  log : deletedIn c'.log = deletedIn c.log ++ l
  nodup : l.Nodup
  fresh : ∀ i ∈ l, ¬ c.Gone i
  gone : ∀ i ∈ l, c'.Gone i
  stays : ∀ i, c.Gone i → c'.Gone i

/-- A step that deletes nothing. -/
theorem Deletes.nothing (hlog : deletedIn c'.log = deletedIn c.log)
    (hstays : ∀ i, c.Gone i → c'.Gone i) : Deletes [] c c' where
  log := by rw [hlog, List.append_nil]
  nodup := List.nodup_nil
  fresh := fun _ hi => absurd hi List.not_mem_nil
  gone := fun _ hi => absurd hi List.not_mem_nil
  stays := hstays

/-- A step that deletes one context, and touches no other. -/
theorem Deletes.one (hlog : deletedIn c'.log = deletedIn c.log ++ [ctx]) (hfresh : ¬ c.Gone ctx)
    (hgone : c'.Gone ctx) (hstays : ∀ i ≠ ctx, c.Gone i → c'.Gone i) : Deletes [ctx] c c' where
  log := hlog
  nodup := List.nodup_singleton ctx
  fresh i hi := List.mem_singleton.mp hi ▸ hfresh
  gone i hi := List.mem_singleton.mp hi ▸ hgone
  stays i hi := by
    by_cases hne : i = ctx
    · exact hne ▸ hgone
    · exact hstays i hne hi

/-- Changing a context brings none back. -/
theorem gone_of_update {f : OverlapContext → OverlapContext} {i : CtxId}
    (hctxs : c'.service.ctxs = c.service.ctxs.update ctx f) (hi : c.Gone i) : c'.Gone i := by
  obtain ⟨hlen, hnone⟩ := hi
  refine ⟨by rw [hctxs, Contexts.length_update]; exact hlen, ?_⟩
  rw [hctxs, ← Option.isNone_iff_eq_none, ← Option.not_isSome, Contexts.isSome_get_update, hnone]
  rfl

/-- Behind the callback, `Run` deletes the context of the packet or none. -/
theorem deletes_finish (c : Config) (d : Delivery) : ∃ l, Deletes l c (c.finish d) := by
  rcases c.finish_cases d with ⟨-, heq⟩ | ⟨x, hx, ⟨-, heq⟩ | ⟨-, heq⟩⟩
  · refine ⟨[], heq ▸ .nothing ?_ fun _ hi => hi⟩
    simp [deletedIn]
  · refine ⟨[d.packet.ctx], heq ▸ .one ?_ (fun hgone => ?_) ⟨?_, ?_⟩ fun i hi hgone => ⟨?_, ?_⟩⟩
    · simp [Config.leave, deletedIn]
    · simp [Config.Gone, hx] at hgone
    · exact (Contexts.length_delete _ _).symm ▸ Contexts.lt_length_of_get hx
    · exact Contexts.get_delete_self _ _
    · exact (Contexts.length_delete _ _).symm ▸ hgone.1
    · exact (Contexts.get_delete_ne (Ne.symm hi) _).trans hgone.2
  · refine ⟨[], heq ▸ .nothing ?_ fun _ hi => hi⟩
    simp [Config.leave, deletedIn]

/-- **A step deletes at most one context, which was live.** -/
theorem exists_deletes (hstep : step c e = some c') : ∃ l, Deletes l c c' := by
  cases effect_of_step hstep with
  | @alloced fd flags associated s ctx hcall halloc =>
    obtain ⟨hlen, hget, hnull⟩ := allocOverlapCtx_spec halloc
    have hstays : ∀ i, c.Gone i → i < s.ctxs.length ∧ s.ctxs.get i = none := by
      rintro i ⟨hi, hnone⟩
      exact ⟨hlen.symm ▸ Nat.lt_succ_of_lt hi, (hget i hi).trans hnone⟩
    cases ctx with
    | some i =>
      exact ⟨[], .nothing (by simp) hstays⟩
    | none =>
      refine ⟨[c.service.ctxs.length], .one ?_ (fun hgone => ?_) ⟨?_, hnull rfl⟩ fun i _ =>
        hstays i⟩
      · simp [deletedIn]
      · exact absurd hgone.1 (lt_irrefl _)
      · change c.service.ctxs.length < s.ctxs.length
        omega
  | @freed ctx s calls hcall hfreed =>
    obtain ⟨hlen, hget, x, hx, hdel, -⟩ := freeOverlapCtx_spec hfreed
    have hnot : ¬ c.Gone ctx := fun hgone => by simp [Config.Gone, hx] at hgone
    have hstays : ∀ i ≠ ctx, c.Gone i → i < s.ctxs.length ∧ s.ctxs.get i = none := by
      rintro i hi ⟨hlt, hnone⟩
      exact ⟨hlen.symm ▸ hlt, (hget i hi).trans hnone⟩
    cases hlazy : x.lazy with
    | true =>
      have hobs : c.deletedBy ctx = [] := by simp [Config.deletedBy, lazy_of_get hx, hlazy]
      refine ⟨[], .nothing (by simp [hobs]) fun i hi => hstays i (fun hne => hnot (hne ▸ hi)) hi⟩
    | false =>
      have hobs : c.deletedBy ctx = [.deleted ctx] := by
        simp [Config.deletedBy, lazy_of_get hx, hlazy]
      refine ⟨[ctx], .one ?_ hnot ⟨?_, hdel hlazy⟩ hstays⟩
      · simp [hobs, deletedIn]
      · exact hlen.symm ▸ Contexts.lt_length_of_get hx
  | assigned => exact ⟨[], .nothing rfl fun _ hi => gone_of_update rfl hi⟩
  | issued =>
    exact ⟨[], .nothing (by simp) fun _ hi => gone_of_update (Config.issue_ctxs _ _ _ _ _) hi⟩
  | closed => exact ⟨[], .nothing (by simp [deletedIn]) fun _ hi => hi⟩
  | completed =>
    exact ⟨[], .nothing (by simp) fun _ hi => gone_of_update (Config.complete_ctxs _ _ _ _ _) hi⟩
  | ticked => exact ⟨[], .nothing rfl fun _ hi => hi⟩
  | ran => exact ⟨[], .nothing rfl fun _ hi => hi⟩
  | updated => exact ⟨[], .nothing rfl fun _ hi => hi⟩
  | notDequeued => exact ⟨[], .nothing (by simp [Config.leave, deletedIn]) fun _ hi => hi⟩
  | @dequeued p queue hctl hqueue =>
    rcases Config.handle_cases { c with queue := queue } p with ⟨-, heq⟩ | ⟨-, -, heq⟩ |
        ⟨x, -, -, ⟨-, heq⟩ | ⟨-, heq⟩⟩
    · exact ⟨[], heq ▸ .nothing (by simp [Config.leave, deletedIn]) fun _ hi => hi⟩
    · exact ⟨[], heq ▸ .nothing (by simp [deletedIn]) fun _ hi => hi⟩
    · exact ⟨[], heq ▸ .nothing (by simp [deletedIn]) fun _ hi => hi⟩
    · obtain ⟨l, hl⟩ := deletes_finish { c with queue := queue }
        (Config.delivery { c with queue := queue } p)
      exact ⟨l, heq ▸ ⟨hl.log, hl.nodup, hl.fresh, hl.gone, hl.stays⟩⟩
  | resumed => exact deletes_finish c _

/-- **No context is deleted twice**, in any run: what has been deleted stays so. -/
theorem nodup_deletedIn (hrun : runs es = some c) : (deletedIn c.log).Nodup := by
  suffices h : (deletedIn c.log).Nodup ∧ ∀ i ∈ deletedIn c.log, c.Gone i from h.1
  refine run_induction (P := fun _ c => (deletedIn c.log).Nodup ∧
    ∀ i ∈ deletedIn c.log, c.Gone i) (by simp [Config.init, deletedIn]) ?_ hrun
  rintro fs e t u - - ⟨hnodup, hgone⟩ hstep
  obtain ⟨l, hl⟩ := exists_deletes hstep
  rw [hl.log]
  refine ⟨List.nodup_append.mpr ⟨hnodup, hl.nodup, ?_⟩, fun i hi => ?_⟩
  · rintro i hi j hj rfl
    exact hl.fresh i hj (hgone i hi)
  · rcases List.mem_append.mp hi with hi | hi
    · exact hl.stays i (hgone i hi)
    · exact hl.gone i hi

/-! ### Whole runs -/

/-- **`Run` uses live contexts only, and no context is deleted twice**, in the runs in which no
context is freed without `FLAG_LAZY_DELETE` while it is in use or its callback runs, and `Run`
deletes no context lazily while a completion of it is still to come. -/
theorem accessesLive_of_runs (hfree : EachStep step Config.init es fun _ => FreesOnceAndLazily)
    (hothers : EachStep step Config.init es fun _ => FreesOthers)
    (hlast : EachStep step Config.init es fun _ => DeletesLast) :
    Throughout step Config.init es (fun _ c => NoneDeletedTwice c) ∧
      EachStep step Config.init es fun _ => AccessesLive := by
  have hinv : Throughout step Config.init es (fun _ c => LiveInv c) := by
    refine throughout_of_eachStep (C := fun _ c e => FreesOnceAndLazily c e ∧ FreesOthers c e ∧
      DeletesLast c e) liveInv_init ?_ fun fs e t hp ht =>
        ⟨hfree fs e t hp ht, hothers fs e t hp ht, hlast fs e t hp ht⟩
    intro fs e t u _ _ ih hC hstep
    exact ih.step hC.1 hC.2.1 hC.2.2 hstep
  refine ⟨fun fs t hp ht => ⟨(hinv fs t hp ht).defined, nodup_deletedIn ht⟩,
    fun fs e t hp ht => ?_⟩
  have h := hinv fs t ((List.prefix_append fs [e]).trans hp) ht
  refine ⟨fun _ p queue hqueue hok => ?_, fun _ d hctl => h.callback d hctl⟩
  exact h.queue p (hqueue ▸ List.mem_cons_self) hok

instance (c : Config) (ctx : CtxId) : Decidable (c.Awaited ctx) :=
  inferInstanceAs (Decidable (_ ∨ _))

instance (c : Config) (e : Event) : Decidable (DeletesLast c e) :=
  inferInstanceAs (Decidable (∀ ctx ∈ c.deletes e, _))

instance (c : Config) (e : Event) : Decidable (FreesOthers c e) :=
  match hctl : c.ctl with
  | .callback d =>
    decidable_of_iff (e = .free d.packet.ctx → c.lazy d.packet.ctx = true) <| by
      simp [FreesOthers, hctl]
  | .idle | .update | .updating | .dequeuing | .undefined =>
    isTrue fun _ h => nomatch hctl.symm.trans h

instance (c : Config) : (e : Event) → Decidable (StartsAlone c e)
  | .async ctx call => decidable_of_iff (¬ c.Busy ctx) <| by simp [StartsAlone]
  | .alloc _ _ _ | .free _ | .assign _ _ _ _ | .closeSocket _ | .complete _ _ _ | .timer _ | .run
  | .updated | .dequeued | .notDequeued _ | .callbackReturn => isTrue fun _ _ h => nomatch h

/-- A connection is made, and its callback is called. -/
def connected : List Event :=
  [.alloc 5 flagAssociate true, .assign 0 0 0 (some 7), .async 0 (.connect 0 .pending),
    .complete 0 0 0, .run, .timer (.updateTimer 0), .timer .round, .updated, .dequeued]

/-- The callback frees its own context: at once, or lazily behind the start of another
operation. -/
def freeInCallback (again : Bool) : List Event :=
  connected ++ (if again then [.async 0 (.read .pending), .assign 0 flagLazyDelete 0 (some 7)]
    else []) ++ [.free 0, .callbackReturn]

/-- The read that the callback has started completes. -/
def readCompletes : List Event :=
  [.complete 0 0 10, .run, .timer (.updateTimer 0), .timer .round, .updated, .dequeued]

/-- In both cases `Run` uses a deleted context: it reads the flags behind the callback, or finds the
context deleted when the read has completed. -/
theorem freeInCallback_undefined :
    (EachStep step Config.init (freeInCallback false) (fun _ => FreesOnceAndLazily) ∧
      EachStep step Config.init (freeInCallback false) (fun _ => StartsAlone) ∧
      ∃ c, runs (freeInCallback false) = some c ∧ c.ctl = .undefined ∧ ¬ NoneDeletedTwice c) ∧
    (EachStep step Config.init (freeInCallback true ++ readCompletes)
        (fun _ => FreesOnceAndLazily) ∧
      EachStep step Config.init (freeInCallback true ++ readCompletes) (fun _ => StartsAlone) ∧
      ∃ c, runs (freeInCallback true ++ readCompletes) = some c ∧ c.ctl = .undefined ∧
        ¬ NoneDeletedTwice c) := by
  have hundefined : ∀ es, (runs es).map Config.ctl = some .undefined →
      ∃ c, runs es = some c ∧ c.ctl = .undefined ∧ ¬ NoneDeletedTwice c := by
    intro es hes
    obtain ⟨c, hc, hctl⟩ := Option.map_eq_some_iff.mp hes
    exact ⟨c, hc, hctl, fun h => h.1 hctl⟩
  exact ⟨⟨eachStep_iff_checkSteps.mpr (by decide +kernel),
      eachStep_iff_checkSteps.mpr (by decide +kernel), hundefined _ (by decide +kernel)⟩,
    eachStep_iff_checkSteps.mpr (by decide +kernel),
    eachStep_iff_checkSteps.mpr (by decide +kernel), hundefined _ (by decide +kernel)⟩

/-- The callback frees its context lazily, and starts nothing. -/
def lazyFree : List Event :=
  connected ++ [.assign 0 flagLazyDelete 0 (some 7), .free 0, .callbackReturn]

theorem accessesLive_lazyFree : (runs lazyFree).map (fun c => deletedIn c.log) = some [0] ∧
    Throughout step Config.init lazyFree (fun _ c => NoneDeletedTwice c) ∧
    EachStep step Config.init lazyFree fun _ => AccessesLive :=
  ⟨by decide +kernel, accessesLive_of_runs (eachStep_iff_checkSteps.mpr (by decide +kernel))
    (eachStep_iff_checkSteps.mpr (by decide +kernel))
    (eachStep_iff_checkSteps.mpr (by decide +kernel))⟩

end CompletionPortService

end WinsockTut
