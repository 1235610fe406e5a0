import WinsockTut.Overlapped.Machine

/-!
# Callbacks and completions

`Run` dispatches a context whenever its event object is set, and never resets the object.  Only the
next operation does that, so a callback that neither starts one nor frees its context is called
again by the next `Run`, without any completion.  The proof accounts for each context: while the
last thing that happened to it is an operation, a callback that `WSAGetOverlappedResult` lets pass
is covered by a completion.
-/

namespace WinsockTut

namespace OverlappedIOService

open Runs

variable {c c' : Config} {e : Event} {es : List Event} {i ctx : CtxId} {l : List Obs}

/-! ### The account of a context -/

/-- The callback of the context was called. -/
def Obs.invokes (ctx : CtxId) : Obs → Bool
  | .invoked i _ => decide (i = ctx)
  | _ => false

/-- An operation on the context completed. -/
def Obs.completes (ctx : CtxId) : Obs → Bool
  | .completed i _ _ => decide (i = ctx)
  | _ => false

/-- The number of times the callback of a context has been called. -/
def invocations (ctx : CtxId) (log : List Obs) : ℕ := log.countP (Obs.invokes ctx)

/-- The number of operations on a context that have completed. -/
def completions (ctx : CtxId) (log : List Obs) : ℕ := log.countP (Obs.completes ctx)

/-- The context an observation is about. -/
def Obs.ctx? : Obs → Option CtxId
  | .called _ => none
  | .issued i _ => some i
  | .completed i _ _ => some i
  | .wiped i => some i
  | .invoked i _ => some i
  | .returned _ => none

/-- What has become of the operations on a context since its callback was last called. -/
inductive Progress
  /-- None has been started or has completed, or the status of the pending one is lost. -/
  | nothing
  /-- One has been started. -/
  | started
  /-- One has completed. -/
  | completed
  deriving DecidableEq, Repr

/-- The progress of a context after an observation. -/
def Obs.progress (ctx : CtxId) (p : Progress) : Obs → Progress
  | .issued i _ => if i = ctx ∧ p = .nothing then .started else p
  | .completed i _ _ => if i = ctx then .completed else p
  | .wiped i => if i = ctx ∧ p = .started then .nothing else p
  | .invoked i _ => if i = ctx then .nothing else p
  | .called _ => p
  | .returned _ => p

/-- The progress of a context. -/
def progress (ctx : CtxId) (log : List Obs) : Progress := log.foldl (Obs.progress ctx) .nothing

theorem invocations_append (ctx : CtxId) (log l : List Obs) :
    invocations ctx (log ++ l) = invocations ctx log + invocations ctx l :=
  List.countP_append

theorem completions_append (ctx : CtxId) (log l : List Obs) :
    completions ctx (log ++ l) = completions ctx log + completions ctx l :=
  List.countP_append

theorem progress_append (ctx : CtxId) (log l : List Obs) :
    progress ctx (log ++ l) = l.foldl (Obs.progress ctx) (progress ctx log) :=
  List.foldl_append

/-- What happens to other contexts does not change the account. -/
theorem account_of_foreign (log : List Obs) (hl : ∀ o ∈ l, o.ctx? ≠ some i) :
    invocations i (log ++ l) = invocations i log ∧
      completions i (log ++ l) = completions i log ∧
      progress i (log ++ l) = progress i log := by
  induction l generalizing log with
  | nil => simp
  | cons o l ih =>
    obtain ⟨hinv, hcomp, hprogress⟩ := ih (log ++ [o])
      fun o' ho' => hl o' (List.mem_cons_of_mem o ho')
    rw [List.append_assoc, List.singleton_append] at hinv hcomp hprogress
    have ho := hl o List.mem_cons_self
    rw [hinv, hcomp, hprogress, invocations_append, completions_append, progress_append]
    cases o <;>
      simp_all [invocations, completions, Obs.invokes, Obs.completes, Obs.progress, Obs.ctx?]

/-- No callback of the context was called without a completion. -/
def AtMostOncePerCompletion (c : Config) : Prop :=
  ∀ ctx, invocations ctx c.log ≤ completions ctx c.log

/-- If the step dispatches a context that has a callback, then since the last call of the callback
an operation on the context has completed, or one has been started whose status is not lost. -/
def DispatchDue (c : Config) (e : Event) : Prop :=
  e = .gotResult → ∀ ctx x, c.ctl = .getting ctx → c.service.ctxs.get ctx = some x →
    x.cb.isSome = true → progress ctx c.log ≠ .nothing

/-- The account of one context: it is never overdrawn, an operation that has completed covers one
more call of the callback, and one that has only been started is pending. -/
structure Covered (c : Config) (i : CtxId) : Prop where
  bound : invocations i c.log ≤ completions i c.log
  completed : progress i c.log = .completed → invocations i c.log < completions i c.log
  started : progress i c.log = .started →
    ∀ x, c.service.ctxs.get i = some x → x.internal = statusPending
  known : progress i c.log = .started → i < c.service.ctxs.length

/-- The accounts of all contexts. -/
def Accounts (c : Config) : Prop := ∀ i, Covered c i

theorem accounts_init : Accounts Config.init :=
  fun _ => ⟨le_rfl, (nomatch ·), (nomatch ·), (nomatch ·)⟩

/-- A step that neither completes an operation on a context nor calls its callback. -/
theorem Covered.of_counts_eq (h : Covered c i) (hinv : invocations i c'.log = invocations i c.log)
    (hcomp : completions i c'.log = completions i c.log)
    (hcompleted : progress i c'.log = .completed → progress i c.log = .completed)
    (hstarted : progress i c'.log = .started → i < c'.service.ctxs.length ∧
      ∀ x, c'.service.ctxs.get i = some x → x.internal = statusPending) : Covered c' i where
  bound := hinv ▸ hcomp ▸ h.bound
  completed := fun hp => hinv ▸ hcomp ▸ h.completed (hcompleted hp)
  started := fun hp => (hstarted hp).2
  known := fun hp => (hstarted hp).1

/-- **The frame rule.**  A step that logs nothing about a context leaves its account covered, if an
operation that was pending stays pending. -/
theorem Covered.frame (h : Covered c i) (hlog : c'.log = c.log ++ l)
    (hl : ∀ o ∈ l, o.ctx? ≠ some i)
    (hctx : i < c.service.ctxs.length → ∀ x', c'.service.ctxs.get i = some x' →
      ∃ x, c.service.ctxs.get i = some x ∧
        (x.internal = statusPending → x'.internal = statusPending))
    (hlen : c.service.ctxs.length ≤ c'.service.ctxs.length) : Covered c' i := by
  obtain ⟨hinv, hcomp, hprogress⟩ := account_of_foreign c.log hl
  rw [← hlog] at hinv hcomp hprogress
  refine h.of_counts_eq hinv hcomp (fun hp => hprogress ▸ hp) fun hp => ?_
  rw [hprogress] at hp
  refine ⟨(h.known hp).trans_le hlen, fun x' hx' => ?_⟩
  obtain ⟨x, hx, hpending⟩ := hctx (h.known hp) x' hx'
  exact hpending (h.started hp x hx)

/-- An operation is started, and is pending. -/
theorem Covered.issue {kind : OpKind} (h : Covered c i) (hlog : c'.log = c.log ++ [.issued i kind])
    (hlen : i < c'.service.ctxs.length)
    (hpending : ∀ x, c'.service.ctxs.get i = some x → x.internal = statusPending) :
    Covered c' i := by
  refine h.of_counts_eq ?_ ?_ (fun hp => ?_) fun _ => ⟨hlen, hpending⟩
  · rw [hlog, invocations_append]
    simp [invocations, Obs.invokes]
  · rw [hlog, completions_append]
    simp [completions, Obs.completes]
  · rw [hlog, progress_append, List.foldl_cons, List.foldl_nil, Obs.progress] at hp
    split at hp
    · cases hp
    · exact hp

/-- The status of a pending operation is lost. -/
theorem Covered.wipe (h : Covered c i) (hlog : c'.log = c.log ++ [.wiped i]) : Covered c' i := by
  have hprogress : progress i c'.log = if progress i c.log = .started then .nothing
      else progress i c.log := by
    rw [hlog, progress_append]
    simp [Obs.progress]
  refine h.of_counts_eq ?_ ?_ (fun hp => ?_) fun hp => ?_
  · rw [hlog, invocations_append]
    simp [invocations, Obs.invokes]
  · rw [hlog, completions_append]
    simp [completions, Obs.completes]
  · rw [hprogress] at hp
    split at hp
    · cases hp
    · exact hp
  · rw [hprogress] at hp
    split at hp
    · cases hp
    · contradiction

/-- A completion covers another call of the callback. -/
theorem Covered.complete (h : Covered c i) (hlog : c'.log = c.log ++ l)
    (hinv : invocations i l = 0) (hcomp : 0 < completions i l)
    (hp : progress i c'.log = .completed) : Covered c' i := by
  have hlt : invocations i c'.log < completions i c'.log := by
    rw [hlog, invocations_append, completions_append, hinv]
    exact Nat.add_lt_add_of_le_of_lt h.bound hcomp
  exact ⟨hlt.le, fun _ => hlt, fun h => by simp [hp] at h, fun h => by simp [hp] at h⟩

/-- A step that writes no status, and logs nothing about any context. -/
theorem Accounts.quiet (h : Accounts c) (hlog : c'.log = c.log ++ l)
    (hl : ∀ o ∈ l, o.ctx? = none)
    (hctx : ∀ i < c.service.ctxs.length, ∀ x', c'.service.ctxs.get i = some x' →
      ∃ x, c.service.ctxs.get i = some x ∧ x.internal = x'.internal)
    (hlen : c.service.ctxs.length ≤ c'.service.ctxs.length) :
    Accounts c' := by
  refine fun i => (h i).frame hlog (fun o ho => by simp [hl o ho]) (fun hi x' hx' => ?_) hlen
  obtain ⟨x, hx, hsame⟩ := hctx i hi x' hx'
  exact ⟨x, hx, fun hpending => hsame ▸ hpending⟩

/-- A step that leaves the contexts alone. -/
theorem Accounts.of_ctxs_eq (h : Accounts c) (hlog : c'.log = c.log ++ l)
    (hl : ∀ o ∈ l, o.ctx? = none) (hctxs : c'.service.ctxs = c.service.ctxs) : Accounts c' :=
  h.quiet hlog hl (fun _ _ x' hx' => ⟨x', hctxs ▸ hx', rfl⟩) (hctxs ▸ le_rfl)

/-! ### One step -/

theorem Accounts.leave (h : Accounts c) (value : ℤ) : Accounts (c.leave value) :=
  h.of_ctxs_eq (l := [.returned value]) rfl (by simp [Obs.ctx?]) rfl

/-- The owner allocates a context: nothing has happened to it yet. -/
theorem Accounts.alloc (h : Accounts c) (fd : Socket) (flags : BitVec 32)
    (hEvent : Option Handle) : Accounts (c.alloc fd flags hEvent) := by
  have hctxs : (c.alloc fd flags hEvent).service.ctxs = c.service.ctxs ∨
      ∃ x, (c.alloc fd flags hEvent).service.ctxs = c.service.ctxs ++ [some x] := by
    simp only [Config.alloc, allocOverlapCtx]
    split
    · exact Or.inl rfl
    · cases hEvent with
      | none => exact Or.inl rfl
      | some h => exact Or.inr ⟨_, rfl⟩
  rcases hctxs with hctxs | ⟨x, hctxs⟩
  · exact h.of_ctxs_eq (List.append_nil _).symm (by simp) hctxs
  · refine h.quiet (List.append_nil _).symm (by simp) (fun i hi x' hx' => ?_) (by simp [hctxs])
    rw [hctxs, Contexts.get_append_of_lt hi] at hx'
    exact ⟨x', hx', rfl⟩

/-- The owner frees a context. -/
theorem Accounts.free (h : Accounts c) {s : OverlappedIOService} {hEvent : Handle}
    (hfree : c.service.freeOverlapCtx ctx = some (s, hEvent)) (opened signaled : List Handle) :
    Accounts { c with service := s, opened := opened, signaled := signaled } := by
  obtain ⟨x, -, hs⟩ := Option.bind_eq_some_iff.mp hfree
  obtain ⟨rfl, -⟩ := Prod.mk.inj (Option.some.inj hs)
  refine h.quiet (List.append_nil _).symm (by simp) (fun i _ x' hx' => ?_) (by simp [erase])
  by_cases hi : ctx = i
  · subst hi
    simp at hx'
  · rw [Contexts.get_delete_ne hi] at hx'
    exact ⟨x', by simpa [erase, Contexts.get_update_ne hi] using hx', rfl⟩

/-- The owner writes other members than the status. -/
theorem Accounts.modify (h : Accounts c) {f : OverlapContext → OverlapContext}
    (hf : ∀ x, (f x).internal = x.internal) : Accounts (c.modify ctx f) := by
  refine h.quiet (List.append_nil _).symm (by simp) (fun i _ x' hx' => ?_)
    (by simp [Config.modify])
  by_cases hi : ctx = i
  · subst hi
    simp only [Config.modify, Contexts.get_update_self, Option.map_eq_some_iff] at hx'
    obtain ⟨x, hx, rfl⟩ := hx'
    exact ⟨x, hx, (hf x).symm⟩
  · rw [Config.modify, Contexts.get_update_ne hi] at hx'
    exact ⟨x', hx', rfl⟩

/-- An operation completes. -/
theorem Accounts.complete (h : Accounts c) (k : ℕ) (op : Operation) (status bytes : ℕ) :
    Accounts (c.complete k op status bytes) := by
  have hlog : (c.complete k op status bytes).log = c.log ++ [.completed op.ctx op.kind status] :=
    rfl
  intro i
  by_cases hi : op.ctx = i
  · subst hi
    refine (h op.ctx).complete hlog (by simp [invocations, Obs.invokes])
      (by simp [completions, Obs.completes]) ?_
    rw [hlog, progress_append]
    simp [Obs.progress]
  · refine (h i).frame hlog (by simpa [Obs.ctx?] using hi) (fun _ x' hx' => ⟨x', ?_, id⟩)
      (by simp [Config.complete, Config.modify])
    simpa [Config.complete, Config.modify, Contexts.get_update_ne hi] using hx'

/-- What starting an operation does to the contexts and to the log. -/
theorem issue_frame (c : Config) (ctx : CtxId) (kind : OpKind) (x : OverlapContext) (r : Issue) :
    (c.issue ctx kind x r).service.ctxs = c.service.ctxs.update ctx (fun _ => r.ctx) ∧
    ∃ l, (c.issue ctx kind x r).log = c.log ++ r.calls.map .called ++ l ∧
      (∀ o ∈ l, o.ctx? = some ctx) ∧
      match r.outcome with
      | .done _ => l = [.issued ctx kind, .completed ctx kind 0]
      | .pending => l = [.issued ctx kind]
      | .failed _ =>
        l = if x.internal = statusPending ∧ r.ctx.internal ≠ statusPending then [.wiped ctx]
          else [] := by
  unfold Config.issue
  cases r.outcome with
  | done bytes => exact ⟨rfl, _, rfl, by simp [Obs.ctx?], rfl⟩
  | pending => exact ⟨rfl, _, rfl, by simp [Obs.ctx?], rfl⟩
  | failed err =>
    refine ⟨rfl, _, rfl, fun o ho => ?_, rfl⟩
    split at ho
    · rw [List.mem_singleton.mp ho]
      rfl
    · cases ho

/-- The owner starts an operation.  If it is pending, `WSAGetOverlappedResult` waits for it. -/
theorem Accounts.issue (h : Accounts c) {x : OverlapContext}
    (hx : c.service.ctxs.get ctx = some x) (call : AsyncCall) :
    Accounts (c.issue ctx call.kind x (OverlappedIOService.issue x call)) := by
  generalize hr : OverlappedIOService.issue x call = r
  obtain ⟨hctxs, l, hlog, habout, hl⟩ := issue_frame c ctx call.kind x r
  have hlen : (c.issue ctx call.kind x r).service.ctxs.length = c.service.ctxs.length := by
    rw [hctxs, Contexts.length_update]
  have hcalls (i : CtxId) : Covered { c with log := c.log ++ r.calls.map .called } i :=
    (h i).frame rfl (by simp [Obs.ctx?]) (fun _ x' hx' => ⟨x', hx', id⟩) le_rfl
  intro i
  by_cases hi : ctx = i
  · subst hi
    have hx' : (c.issue ctx call.kind x r).service.ctxs.get ctx = some r.ctx := by
      simp [hctxs, hx]
    cases houtcome : r.outcome with
    | done bytes =>
      rw [houtcome] at hl
      subst hl
      refine (hcalls ctx).complete hlog (by simp [invocations, Obs.invokes])
        (by simp [completions, Obs.completes]) ?_
      rw [hlog, progress_append]
      simp [Obs.progress]
    | pending =>
      rw [houtcome] at hl
      subst hl
      refine (hcalls ctx).issue hlog (hlen ▸ Contexts.lt_length_of_get hx) fun y hy => ?_
      obtain rfl := Option.some.inj (hx'.symm.trans hy)
      rw [← hr] at houtcome ⊢
      exact internal_of_pending houtcome
    | failed err =>
      rw [houtcome] at hl
      by_cases hwiped : x.internal = statusPending ∧ r.ctx.internal ≠ statusPending
      · simp only [if_pos hwiped] at hl
        exact (hcalls ctx).wipe (hl ▸ hlog)
      · simp only [if_neg hwiped] at hl
        refine (hcalls ctx).frame hlog (by simp [hl])
          (fun _ y hy => ⟨x, hx, fun hpending => ?_⟩) hlen.ge
        obtain rfl := Option.some.inj (hx'.symm.trans hy)
        exact not_not.mp fun hdone => hwiped ⟨hpending, hdone⟩
  · refine (hcalls i).frame hlog (fun o ho => by simpa [habout o ho] using hi)
      (fun _ x' hx' => ⟨x', ?_, id⟩) hlen.ge
    rwa [hctxs, Contexts.get_update_ne hi] at hx'

/-- `Run` calls the callback of a context: the call is covered if it is due. -/
theorem Accounts.dispatch (h : Accounts c) {x : OverlapContext}
    (hx : c.service.ctxs.get ctx = some x) (hdone : x.internal ≠ statusPending)
    (hdue : x.cb.isSome = true → progress ctx c.log ≠ .nothing) :
    Accounts (c.dispatch ctx x) := by
  unfold Config.dispatch
  split
  · next hcb =>
    intro i
    by_cases hi : ctx = i
    · subst hi
      have hcompleted : progress ctx c.log = .completed := by
        cases hp : progress ctx c.log with
        | nothing => exact absurd hp (hdue hcb)
        | started => exact absurd ((h ctx).started hp x hx) hdone
        | completed => rfl
      have hlt := (h ctx).completed hcompleted
      have hnothing : progress ctx (c.log ++ [.invoked ctx x]) = .nothing := by
        rw [progress_append]
        simp [Obs.progress]
      refine ⟨?_, fun hp => ?_, fun hp => ?_, fun hp => ?_⟩
      · rw [invocations_append, completions_append]
        simpa [invocations, completions, Obs.invokes, Obs.completes, Nat.add_one_le_iff] using hlt
      · exact nomatch hnothing.symm.trans hp
      · exact nomatch hnothing.symm.trans hp
      · exact nomatch hnothing.symm.trans hp
    · exact (h i).frame (l := [.invoked ctx x]) rfl (by simpa [Obs.ctx?] using hi)
        (fun _ x' hx' => ⟨x', hx', id⟩) le_rfl
  · exact h.leave 0

/-- **One step** that dispatches no context that is not due keeps the accounts covered. -/
theorem Accounts.step (h : Accounts c) (hdue : DispatchDue c e) (hstep : step c e = some c') :
    Accounts c' := by
  have hquiet {c' : Config} (hlog : c'.log = c.log) (hctxs : c'.service.ctxs = c.service.ctxs) :
      Accounts c' :=
    h.of_ctxs_eq (l := []) (hlog.trans (List.append_nil _).symm) (by simp) hctxs
  cases effect_of_step hstep with
  | alloced => exact h.alloc _ _ _
  | freed hcall hfree => exact h.free hfree _ _
  | assigned => exact h.modify fun _ => rfl
  | issued hcall hx => exact h.issue hx _
  | completed => exact h.complete _ _ _ _
  | ticked => exact hquiet rfl rfl
  | ran => exact hquiet rfl rfl
  | notSignaled => exact hquiet rfl rfl
  | signaled => exact hquiet rfl rfl
  | updated hctl htimers hnext =>
    rcases afterUpdate_cases hnext with ⟨value, rfl⟩ | ⟨hEvent, ctx, -, -, rfl⟩
    · exact h.leave value
    · exact hquiet rfl rfl
  | lost => exact hquiet rfl rfl
  | gotResult hctl hx hdone => exact h.dispatch hx hdone (hdue rfl _ _ hctl hx)
  | resumed => exact h.leave 0

/-! ### Whole runs -/

/-- **The callback of a context is called at most once for each completion** in every run that
dispatches no context a second time for the same operation. -/
theorem atMostOncePerCompletion
    (hdue : EachStep step Config.init es (fun _ c e => DispatchDue c e)) :
    Throughout step Config.init es (fun _ c => AtMostOncePerCompletion c) := by
  have haccounts : Throughout step Config.init es (fun _ c => Accounts c) :=
    throughout_of_eachStep accounts_init (fun _ _ _ _ _ _ h hc hstep => h.step hc hstep) hdue
  exact fun fs t hp ht ctx => (haccounts fs t hp ht ctx).bound

/-- A read completes, and `Run` is about to dispatch its context. -/
def readCompletes : List Event :=
  [.alloc 5 0 (some 1), .assign 0 0 0 (some 7), .async 0 (.read .pending), .complete 0 0 12,
    .run [1], .signaled 0, .timer (.updateTimer 0), .timer .round, .updated]

/-- It does, and the next call of `Run` is about to dispatch the context again; in between, the
events `es` happen. -/
def runAgain (es : List Event) : List Event :=
  readCompletes ++ [.gotResult] ++
    (es ++ [.run [1], .signaled 0, .timer (.updateTimer 0), .timer .round, .updated])

/-- If the callback starts the next read, it is called again when that has completed. -/
theorem atMostOncePerCompletion_readAgain :
    Throughout step Config.init
      (runAgain [.async 0 (.read .pending), .callbackReturn, .complete 0 0 8] ++ [.gotResult])
      (fun _ c => AtMostOncePerCompletion c) := by
  refine atMostOncePerCompletion (eachStep_append_singleton.mpr ⟨eachStep_append_of_forall
    (eachStep_append_singleton.mpr ⟨eachStep_of_forall fun e he _ _ hde => ?_, ?_⟩)
    fun e he _ _ hde => ?_, ?_⟩)
  · simp [hde, readCompletes] at he
  · rintro t ht - ctx x hctl - -
    have hfacts : (runs readCompletes).map (fun c => (c.ctl, progress 0 c.log)) =
        some (.getting 0, .completed) := by decide +kernel
    rw [show runs _ = some t from ht, Option.map_some, hctl] at hfacts
    obtain ⟨rfl, hp⟩ : ctx = 0 ∧ progress 0 t.log = .completed := by simpa using hfacts
    simp [hp]
  · simp [hde] at he
  · rintro t ht - ctx x hctl - -
    have hfacts : (runs (runAgain [.async 0 (.read .pending), .callbackReturn,
        .complete 0 0 8])).map (fun c => (c.ctl, progress 0 c.log)) =
        some (.getting 0, .completed) := by decide +kernel
    rw [show runs _ = some t from ht, Option.map_some, hctl] at hfacts
    obtain ⟨rfl, hp⟩ : ctx = 0 ∧ progress 0 t.log = .completed := by simpa using hfacts
    simp [hp]

/-- If the callback does nothing, it is called twice for one completion. -/
theorem callback_twice :
    ∃ c, runs (runAgain [.callbackReturn] ++ [.gotResult]) = some c ∧ completions 0 c.log = 1 ∧
      invocations 0 c.log = 2 ∧ ¬ AtMostOncePerCompletion c := by
  have hfacts : (runs (runAgain [.callbackReturn] ++ [.gotResult])).map
      (fun c => (completions 0 c.log, invocations 0 c.log)) = some (1, 2) := by decide +kernel
  obtain ⟨c, hc, hcounts⟩ := Option.map_eq_some_iff.mp hfacts
  obtain ⟨hcompletions, hinvocations⟩ := Prod.mk.inj hcounts
  refine ⟨c, hc, hcompletions, hinvocations, fun hall => ?_⟩
  have hle := hall 0
  rw [hcompletions, hinvocations] at hle
  exact absurd hle (by decide)

end OverlappedIOService

end WinsockTut
