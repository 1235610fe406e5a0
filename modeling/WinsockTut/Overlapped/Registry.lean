import WinsockTut.Overlapped.Machine

/-!
# The registry of the contexts

`Run` waits for a snapshot of the handles in `fds_`, and looks the context up again behind
`UpdateTimer`, whose callbacks may have freed it and allocated others, under the same handle or
another one.  `Registry` ties `fds_` to the contexts that have been allocated and not been freed.
It holds in every reachable state, so that the context that `Run` dispatches has not been freed
(`registry_of_runs`).
-/

namespace WinsockTut

namespace OverlappedIOService

open Runs

variable {c c' : Config} {e : Event} {es : List Event} {i ctx : CtxId} {h : Handle}

/-- The handle of the event object of a context, if it has not been deleted. -/
def Config.handleOf (c : Config) (i : CtxId) : Option Handle :=
  (c.service.ctxs.get i).map OverlapContext.hEvent

/-- `fds_` has exactly the contexts that have been allocated and not been freed, each under its own
handle; `Run` goes on with one of them only. -/
structure Registry (es : List Event) (c : Config) : Prop where
  registered : ∀ h i, (h, i) ∈ c.service.fds ↔ c.handleOf i = some h
  outstanding : ∀ i, (c.handleOf i).isSome ↔ i < c.service.ctxs.length ∧ .free i ∉ es
  freed : ∀ i, .free i ∈ es → i < c.service.ctxs.length
  nodup : (c.service.fds.map Prod.fst).Nodup
  size : c.service.fds.length ≤ wsaMaximumWaitEvents
  opened : ∀ h ∈ c.service.fds.map Prod.fst, h ∈ c.opened
  getting : ∀ i, c.ctl = .getting i → (c.handleOf i).isSome
  defined : c.ctl ≠ .undefined

/-- If `Run` makes a callback in the step, its context has been allocated, has not been freed, and
is registered under its handle. -/
def CallsOutstanding (es : List Event) (c : Config) (e : Event) : Prop :=
  ∀ c' i x, step c e = some c' → c'.log = c.log ++ [.invoked i x] →
    c.service.ctxs.get i = some x ∧ i < c.service.ctxs.length ∧ .free i ∉ es ∧
      (x.hEvent, i) ∈ c.service.fds

theorem registry_init : Registry [] Config.init where
  registered h i := by simp [Config.init, init, Config.handleOf, Contexts.get]
  outstanding i := by simp [Config.init, init, Config.handleOf, Contexts.get]
  freed _ hi := absurd hi List.not_mem_nil
  nodup := List.nodup_nil
  size := Nat.zero_le _
  opened _ hh := absurd hh List.not_mem_nil
  getting _ hctl := nomatch hctl
  defined := fun hctl => nomatch hctl

/-! ### What the steps do to the registry -/

/-- The step leaves the registry and the handles of the contexts alone. -/
structure Keeps (c c' : Config) : Prop where
  fds : c'.service.fds = c.service.fds
  opened : c'.opened = c.opened
  length : c'.service.ctxs.length = c.service.ctxs.length
  handleOf : ∀ i, c'.handleOf i = c.handleOf i

/-- A change of a context that leaves its handle alone. -/
theorem handleOf_modify {f : OverlapContext → OverlapContext}
    (hf : ∀ x, c.service.ctxs.get ctx = some x → (f x).hEvent = x.hEvent) (i : CtxId) :
    (c.modify ctx f).handleOf i = c.handleOf i := by
  unfold Config.handleOf Config.modify
  by_cases hi : ctx = i
  · subst hi
    rw [Contexts.get_update_self]
    cases hx : c.service.ctxs.get ctx with
    | none => rfl
    | some x => exact congrArg some (hf x hx)
  · rw [Contexts.get_update_ne hi]

/-- Starting an operation leaves the handle of its context alone. -/
theorem issue_hEvent (x : OverlapContext) (call : AsyncCall) :
    (issue x call).ctx.hEvent = x.hEvent := by
  have hleft : ∀ (y : OverlapContext) outcome, (y.leftBy outcome).hEvent = y.hEvent := by
    intro y outcome
    cases outcome <;> rfl
  cases call with
  | connect r outcome =>
    simp only [issue, asyncConnect, startConnect]
    split
    · rfl
    · exact hleft x.clearStatus outcome
  | accept fd outcome =>
    simp only [issue, asyncAccept, startAccept]
    split
    · rfl
    · exact hleft { x.clearStatus with udata := fd } outcome
  | read outcome => exact hleft x.clearStatus outcome
  | write outcome => exact hleft x.clearStatus outcome

/-- What starting an operation does, apart from the log. -/
theorem issue_service (c : Config) (ctx : CtxId) (kind : OpKind) (x : OverlapContext) (r : Issue) :
    (c.issue ctx kind x r).service = (c.modify ctx fun _ => r.ctx).service ∧
      (c.issue ctx kind x r).opened = c.opened ∧ (c.issue ctx kind x r).ctl = c.ctl := by
  unfold Config.issue
  cases r.outcome <;> exact ⟨rfl, rfl, rfl⟩

theorem Keeps.issue {x : OverlapContext} (hx : c.service.ctxs.get ctx = some x)
    (call : AsyncCall) :
    Keeps c (c.issue ctx call.kind x (OverlappedIOService.issue x call)) := by
  obtain ⟨hservice, hopened, -⟩ :=
    issue_service c ctx call.kind x (OverlappedIOService.issue x call)
  refine ⟨by rw [hservice]; rfl, hopened, ?_, fun i => ?_⟩
  · rw [hservice]
    exact Contexts.length_update _ _ _
  · rw [Config.handleOf, hservice]
    refine handleOf_modify (fun y hy => ?_) i
    obtain rfl := Option.some.inj (hx.symm.trans hy)
    exact issue_hEvent x call

/-- **Only `AllocOverlapCtx` and `FreeOverlapCtx` change the registry.** -/
theorem registry_of_step (hstep : step c e = some c') :
    (∃ fd flags hEvent, e = .alloc fd flags hEvent ∧ c.FreshHandle hEvent ∧
      c' = c.alloc fd flags hEvent) ∨
    (∃ ctx s hEvent, e = .free ctx ∧ c.service.freeOverlapCtx ctx = some (s, hEvent) ∧
      c'.service = s ∧ c'.opened = c.opened.erase hEvent ∧ c'.ctl = c.ctl) ∨
    (∀ ctx, e ≠ .free ctx) ∧ Keeps c c' := by
  cases effect_of_step hstep with
  | alloced hcall hfresh => exact Or.inl ⟨_, _, _, rfl, hfresh, rfl⟩
  | freed hcall hfree => exact Or.inr (Or.inl ⟨_, _, _, rfl, hfree, rfl, rfl, rfl⟩)
  | assigned hcall hx =>
    refine Or.inr (Or.inr ⟨by simp, rfl, rfl, Contexts.length_update _ _ _, ?_⟩)
    exact handleOf_modify fun _ _ => rfl
  | issued hcall hx => exact Or.inr (Or.inr ⟨by simp, Keeps.issue hx _⟩)
  | completed hop hstatus =>
    refine Or.inr (Or.inr ⟨by simp, rfl, rfl, Contexts.length_update _ _ _, ?_⟩)
    exact handleOf_modify fun _ _ => rfl
  | updated hctl htimers hnext =>
    refine Or.inr (Or.inr ⟨by simp, ?_⟩)
    rcases afterUpdate_cases hnext with ⟨value, rfl⟩ | ⟨hEvent, ctx, -, -, rfl⟩
    · exact ⟨rfl, rfl, rfl, fun _ => rfl⟩
    · exact ⟨rfl, rfl, rfl, fun _ => rfl⟩
  | gotResult hctl hx hdone =>
    refine Or.inr (Or.inr ⟨by simp, ?_⟩)
    unfold Config.dispatch
    split
    · exact ⟨rfl, rfl, rfl, fun _ => rfl⟩
    · exact ⟨rfl, rfl, rfl, fun _ => rfl⟩
  | _ => exact Or.inr (Or.inr ⟨by simp, rfl, rfl, rfl, fun _ => rfl⟩)

/-! ### Preservation -/

theorem Config.handleOf_eq_some : c.handleOf i = some h ↔
    ∃ x, c.service.ctxs.get i = some x ∧ x.hEvent = h := Option.map_eq_some_iff

/-- Two contexts with the same handle are the same. -/
theorem Registry.handle_injective {j : CtxId} (hr : Registry es c) (hi : c.handleOf i = some h)
    (hj : c.handleOf j = some h) : i = j := by
  have hmem := (hr.registered h i).mpr hi
  have hmem' := (hr.registered h j).mpr hj
  exact (Prod.mk.inj (List.inj_on_of_nodup_map hr.nodup hmem hmem' rfl)).2

/-- The timers move control only into `UpdateTimer`. -/
theorem Control.afterTimer_eq (ctl : Control) (e : TimerSched.Event) :
    ctl.afterTimer e = ctl ∨ ∃ nready, ctl.afterTimer e = .updating nready := by
  cases ctl with
  | update nready =>
    cases he : entersUpdate e with
    | true => exact Or.inr ⟨nready, by simp [afterTimer, he]⟩
    | false => exact Or.inl (by simp [afterTimer, he])
  | _ => exact Or.inl rfl

/-- **What the steps do to control**: it comes to `WSAGetOverlappedResult` with the context that
`fds_` has for a handle, and is lost only if that context is gone. -/
theorem ctl_of_step (hstep : step c e = some c') : c'.ctl = c.ctl ∨
    (∃ h i, (h, i) ∈ c.service.fds ∧ c'.ctl = .getting i) ∨
    (∃ i, c.ctl = .getting i ∧ c.service.ctxs.get i = none) ∨
    (∀ i, c'.ctl ≠ .getting i) ∧ c'.ctl ≠ .undefined := by
  cases effect_of_step hstep with
  | alloced => exact Or.inl rfl
  | freed => exact Or.inl rfl
  | assigned => exact Or.inl rfl
  | issued => exact Or.inl (issue_service _ _ _ _ _).2.2
  | completed => exact Or.inl rfl
  | @ticked x timers =>
    rcases c.ctl.afterTimer_eq x with hsame | ⟨nready, hctl⟩
    · exact Or.inl hsame
    · exact Or.inr (Or.inr (Or.inr ⟨by simp [hctl], by simp [hctl]⟩))
  | @ran order hidle horder =>
    refine Or.inr (Or.inr (Or.inr ?_))
    by_cases hempty : order = []
    · simp [hempty]
    · simp [hempty]
  | notSignaled => exact Or.inr (Or.inr (Or.inr ⟨by simp, by simp⟩))
  | signaled => exact Or.inr (Or.inr (Or.inr ⟨by simp, by simp⟩))
  | updated _ _ hnext =>
    rcases afterUpdate_cases hnext with ⟨value, rfl⟩ | ⟨hEvent, ctx, -, hfind, rfl⟩
    · exact Or.inr (Or.inr (Or.inr ⟨by simp [Config.leave], by simp [Config.leave]⟩))
    · obtain ⟨⟨h, i⟩, hentry, rfl⟩ := Option.map_eq_some_iff.mp hfind
      exact Or.inr (Or.inl ⟨h, i, List.mem_of_find?_eq_some hentry, rfl⟩)
  | lost hctl hx => exact Or.inr (Or.inr (Or.inl ⟨_, hctl, hx⟩))
  | @gotResult ctx x hctl hx hdone =>
    refine Or.inr (Or.inr (Or.inr ?_))
    by_cases hcb : x.cb.isSome
    · simp [Config.dispatch, hcb]
    · simp [Config.dispatch, hcb, Config.leave]
  | resumed => exact Or.inr (Or.inr (Or.inr ⟨by simp [Config.leave], by simp [Config.leave]⟩))

/-- User code has no control in front of `WSAGetOverlappedResult`. -/
theorem not_canCall_of_getting (hctl : c.ctl = .getting i) : ¬ c.canCall = true := by
  simp [Config.canCall, hctl, Control.stage, Stage.canCall]

/-- A step that leaves the registry alone. -/
theorem Registry.keep (hr : Registry es c) (hk : Keeps c c') (he : ∀ ctx, e ≠ .free ctx)
    (hgetting : ∀ i, c'.ctl = .getting i → (c'.handleOf i).isSome)
    (hdefined : c'.ctl ≠ .undefined) : Registry (es ++ [e]) c' where
  registered h i := by rw [hk.fds, hk.handleOf, hr.registered]
  outstanding i := by
    rw [hk.handleOf, hk.length, hr.outstanding, List.mem_append, List.mem_singleton]
    simp [Ne.symm (he i)]
  freed i hi := by
    rw [hk.length]
    rcases List.mem_append.mp hi with hi | hi
    · exact hr.freed i hi
    · exact absurd (List.mem_singleton.mp hi).symm (he i)
  nodup := hk.fds ▸ hr.nodup
  size := hk.fds ▸ hr.size
  opened h hh := hk.opened ▸ hr.opened h (hk.fds ▸ hh)
  getting := hgetting
  defined := hdefined

/-- What `AllocOverlapCtx` does: nothing, or it adds a context with the handle of the new event
object. -/
theorem alloc_cases (c : Config) (fd : Socket) (flags : BitVec 32) (hEvent : Option Handle) :
    c.alloc fd flags hEvent = c ∨ ∃ x, hEvent = some x ∧
      c.service.fds.length < wsaMaximumWaitEvents ∧
      (c.alloc fd flags hEvent).service.fds =
        c.service.fds.filter (fun entry => entry.1 ≠ x) ++ [(x, c.service.ctxs.length)] ∧
      (c.alloc fd flags hEvent).service.ctxs =
        c.service.ctxs ++ [some { OverlapContext.new fd with hEvent := x }] ∧
      (c.alloc fd flags hEvent).opened = x :: c.opened ∧
      (c.alloc fd flags hEvent).ctl = c.ctl := by
  by_cases hfull : c.service.fds.length ≥ wsaMaximumWaitEvents
  · exact Or.inl (by simp [Config.alloc, allocOverlapCtx, hfull])
  · cases hEvent with
    | none => exact Or.inl (by simp [Config.alloc, allocOverlapCtx])
    | some x =>
      refine Or.inr ⟨x, rfl, not_le.mp hfull, ?_⟩
      simp [Config.alloc, allocOverlapCtx, hfull, insert, erase]

/-- The handles of the contexts when another one has been allocated. -/
theorem handleOf_append {x : OverlapContext}
    (hctxs : c'.service.ctxs = c.service.ctxs ++ [some x]) (i : CtxId) :
    c'.handleOf i = if i = c.service.ctxs.length then some x.hEvent else c.handleOf i := by
  rw [Config.handleOf, Config.handleOf, hctxs, Contexts.get, Contexts.get]
  rcases lt_trichotomy i c.service.ctxs.length with hlt | rfl | hgt
  · rw [List.getElem?_append_left hlt, if_neg hlt.ne]
  · simp
  · rw [List.getElem?_eq_none (by rw [List.length_append, List.length_singleton]; exact hgt),
      List.getElem?_eq_none hgt.le, if_neg hgt.ne']

/-- A new context gets a handle that no context has. -/
theorem Registry.alloc (hr : Registry es c) {fd : Socket} {flags : BitVec 32}
    {hEvent : Option Handle} (hfresh : c.FreshHandle hEvent)
    (hgetting : ∀ i, c.ctl ≠ .getting i) :
    Registry (es ++ [.alloc fd flags hEvent]) (c.alloc fd flags hEvent) := by
  rcases alloc_cases c fd flags hEvent with hsame | ⟨x, rfl, hsize, hfds, hctxs, hopened, hctl⟩
  · rw [hsame]
    exact hr.keep ⟨rfl, rfl, rfl, fun _ => rfl⟩ (by simp) hr.getting hr.defined
  · have hnew : x ∉ c.service.fds.map Prod.fst := fun hx => (hfresh x rfl).2 (hr.opened x hx)
    have herase : c.service.fds.filter (fun entry => entry.1 ≠ x) = c.service.fds := by
      refine List.filter_eq_self.mpr fun entry hentry => decide_eq_true fun hx => ?_
      exact hnew (hx ▸ List.mem_map_of_mem hentry)
    rw [herase] at hfds
    have hnone : c.handleOf c.service.ctxs.length = none := by
      simp [Config.handleOf, Contexts.get]
    refine ⟨fun h i => ?_, fun i => ?_, fun i hi => ?_, ?_, ?_, fun h hh => ?_,
      fun i hi => absurd (hctl ▸ hi) (hgetting i), hctl ▸ hr.defined⟩
    · rw [hfds, List.mem_append, hr.registered, List.mem_singleton, Prod.mk.injEq,
        handleOf_append hctxs]
      by_cases hi : i = c.service.ctxs.length
      · subst hi
        simp [hnone, eq_comm]
      · simp [hi]
    · rw [handleOf_append hctxs, hctxs, List.length_append, List.length_singleton,
        List.mem_append, List.mem_singleton]
      by_cases hi : i = c.service.ctxs.length
      · subst hi
        simpa using fun hfree => lt_irrefl _ (hr.freed _ hfree)
      · rw [if_neg hi, hr.outstanding]
        have hlt : i < c.service.ctxs.length + 1 ↔ i < c.service.ctxs.length :=
          Nat.lt_succ_iff_lt_or_eq.trans (or_iff_left hi)
        rw [hlt]
        simp
    · rw [hctxs, List.length_append]
      have := hr.freed i (by simpa using hi)
      omega
    · rw [hfds, List.map_append, List.map_singleton, ← List.concat_eq_append]
      exact hr.nodup.concat hnew
    · rw [hfds, List.length_append, List.length_singleton]
      omega
    · rw [hopened]
      rw [hfds, List.map_append, List.mem_append] at hh
      rcases hh with hh | hh
      · exact List.mem_cons_of_mem x (hr.opened h hh)
      · exact List.mem_singleton.mp hh ▸ List.mem_cons_self

/-- A freed context takes its handle out of the map. -/
theorem Registry.free (hr : Registry es c) {s : OverlappedIOService} {hEvent : Handle}
    (hfree : c.service.freeOverlapCtx ctx = some (s, hEvent)) (hs : c'.service = s)
    (hopened : c'.opened = c.opened.erase hEvent) (hctl : c'.ctl = c.ctl)
    (hgetting : ∀ i, c.ctl ≠ .getting i) : Registry (es ++ [.free ctx]) c' := by
  obtain ⟨x, hx, hpair⟩ := Option.bind_eq_some_iff.mp hfree
  obtain ⟨hservice, rfl⟩ := Prod.mk.inj (Option.some.inj hpair)
  have hfds : c'.service.fds = c.service.fds.filter fun entry => entry.1 ≠ x.hEvent := by
    rw [hs, ← hservice]
    rfl
  have hlength : c'.service.ctxs.length = c.service.ctxs.length := by
    rw [hs, ← hservice]
    simp [erase]
  have hself : c.handleOf ctx = some x.hEvent := Config.handleOf_eq_some.mpr ⟨x, hx, rfl⟩
  have hhandle : ∀ i, c'.handleOf i = if i = ctx then none else c.handleOf i := by
    intro i
    rw [Config.handleOf, hs, ← hservice]
    by_cases hi : i = ctx
    · subst hi
      simp
    · rw [Contexts.get_delete_ne (Ne.symm hi), if_neg hi, Config.handleOf]
      exact congrArg _ (Contexts.get_update_ne (Ne.symm hi) _ _)
  have hsub : ∀ h ∈ c'.service.fds.map Prod.fst,
      h ∈ c.service.fds.map Prod.fst ∧ h ≠ x.hEvent := by
    intro h hh
    obtain ⟨entry, hentry, rfl⟩ := List.mem_map.mp (hfds ▸ hh)
    obtain ⟨hentry, hne⟩ := List.mem_filter.mp hentry
    exact ⟨List.mem_map_of_mem hentry, of_decide_eq_true hne⟩
  refine ⟨fun h i => ?_, fun i => ?_, fun i hi => ?_, ?_, ?_, fun h hh => ?_,
    fun i hi => absurd (hctl ▸ hi) (hgetting i), hctl ▸ hr.defined⟩
  · rw [hfds, List.mem_filter, decide_eq_true_eq, hr.registered, hhandle]
    by_cases hi : i = ctx
    · subst hi
      simp [hself, eq_comm]
    · rw [if_neg hi]
      refine and_iff_left_of_imp fun hih heq => hi ?_
      exact hr.handle_injective hih (hself.trans (congrArg some heq.symm))
  · rw [hhandle, hlength, List.mem_append, List.mem_singleton, Event.free.injEq]
    by_cases hi : i = ctx
    · simp [hi]
    · rw [if_neg hi, hr.outstanding]
      simp [hi]
  · rw [hlength]
    rcases List.mem_append.mp hi with hi | hi
    · exact hr.freed i hi
    · obtain rfl := Event.free.inj (List.mem_singleton.mp hi)
      exact Contexts.lt_length_of_get hx
  · rw [hfds]
    exact hr.nodup.sublist ((List.filter_sublist).map Prod.fst)
  · rw [hfds]
    exact (List.length_filter_le _ _).trans hr.size
  · obtain ⟨hold, hne⟩ := hsub h hh
    rw [hopened]
    exact (List.mem_erase_of_ne hne).mpr (hr.opened h hold)

/-- **Preservation.** -/
theorem Registry.step (hr : Registry es c) (hstep : OverlappedIOService.step c e = some c') :
    Registry (es ++ [e]) c' := by
  have hdefined : c'.ctl = .undefined → False := fun hundef => by
    rcases ctl_of_step hstep with hsame | ⟨h, i, -, hgetting⟩ | ⟨i, hgetting, hnone⟩ | ⟨-, hne⟩
    · exact hr.defined (hsame.symm.trans hundef)
    · cases hgetting.symm.trans hundef
    · have hsome := hr.getting i hgetting
      simp [Config.handleOf, hnone] at hsome
    · exact hne hundef
  have hcall : c.canCall = true → ∀ i, c.ctl ≠ .getting i := fun hcall i hctl =>
    not_canCall_of_getting hctl hcall
  rcases registry_of_step hstep with ⟨fd, flags, hEvent, rfl, hfresh, rfl⟩ |
      ⟨ctx, s, hEvent, rfl, hfree, hs, hopened, hctl⟩ | ⟨he, hk⟩
  · simp only [OverlappedIOService.step, Option.ite_none_right_eq_some] at hstep
    exact hr.alloc hfresh (hcall hstep.1.1)
  · simp only [OverlappedIOService.step, Option.ite_none_right_eq_some] at hstep
    exact hr.free hfree hs hopened hctl (hcall hstep.1)
  · refine hr.keep hk he (fun i hgetting => ?_) hdefined
    rw [hk.handleOf]
    rcases ctl_of_step hstep with hsame | ⟨h, j, hmem, hgetting'⟩ | ⟨j, hj, hnone⟩ | ⟨hne, -⟩
    · exact hr.getting i (hsame.symm.trans hgetting)
    · obtain rfl := Control.getting.inj (hgetting'.symm.trans hgetting)
      rw [(hr.registered h j).mp hmem]
      rfl
    · have hsome := hr.getting j hj
      simp [Config.handleOf, hnone] at hsome
    · exact absurd hgetting (hne i)

/-- `Run` calls the callback of the context it went on with. -/
theorem invoked_of_step (hstep : step c e = some c') : ∃ l, c'.log = c.log ++ l ∧
    ∀ i x, .invoked i x ∈ l → c.ctl = .getting i ∧ c.service.ctxs.get i = some x := by
  have hleave : ∀ value, ∃ l, (c.leave value).log = c.log ++ l ∧
      ∀ i x, .invoked i x ∈ l → c.ctl = .getting i ∧ c.service.ctxs.get i = some x :=
    fun value => ⟨[.returned value], rfl, by simp⟩
  cases effect_of_step hstep with
  | @issued ctx call x hcall hx =>
    unfold Config.issue
    cases (OverlappedIOService.issue x call).outcome with
    | done bytes => exact ⟨_, List.append_assoc _ _ _, by simp⟩
    | pending => exact ⟨_, List.append_assoc _ _ _, by simp⟩
    | failed err =>
      refine ⟨_, List.append_assoc _ _ _, fun i y hy => ?_⟩
      rcases List.mem_append.mp hy with hy | hy
      · simp at hy
      · split at hy <;> simp at hy
  | @completed k status bytes op hop hstatus =>
    exact ⟨[.completed op.ctx op.kind status], rfl, by simp⟩
  | updated hctl htimers hnext =>
    rcases afterUpdate_cases hnext with ⟨value, rfl⟩ | ⟨hEvent, ctx, -, -, rfl⟩
    · exact hleave value
    · exact ⟨[], (List.append_nil _).symm, by simp⟩
  | @gotResult ctx x hctl hx hdone =>
    unfold Config.dispatch
    split
    · refine ⟨[.invoked ctx x], rfl, fun i y hy => ?_⟩
      obtain ⟨rfl, rfl⟩ := Obs.invoked.inj (List.mem_singleton.mp hy)
      exact ⟨hctl, hx⟩
    · exact hleave 0
  | resumed hctl => exact hleave 0
  | _ => exact ⟨[], (List.append_nil _).symm, by simp⟩

/-- The context whose callback `Run` calls is registered. -/
theorem Registry.calls (hr : Registry es c) : CallsOutstanding es c e := by
  intro c' i x hstep hlog
  obtain ⟨l, hl, hinvoked⟩ := invoked_of_step hstep
  obtain rfl : l = [.invoked i x] := List.append_cancel_left (hl.symm.trans hlog)
  obtain ⟨-, hx⟩ := hinvoked i x (List.mem_singleton_self _)
  have hhandle : c.handleOf i = some x.hEvent := Config.handleOf_eq_some.mpr ⟨x, hx, rfl⟩
  obtain ⟨hlt, hfree⟩ := (hr.outstanding i).mp (by rw [hhandle]; rfl)
  exact ⟨hx, hlt, hfree, (hr.registered _ i).mpr hhandle⟩

/-- **The registry of every reachable state**: `fds_` has exactly the contexts that have been
allocated and not been freed, and `Run` calls the callbacks of such contexts only. -/
theorem registry_of_runs (es : List Event) : Throughout step Config.init es Registry ∧
    EachStep step Config.init es CallsOutstanding := by
  have hinv : Throughout step Config.init es Registry := fun fs t _ ht =>
    run_induction registry_init (fun _ _ _ _ _ _ hr hstep => hr.step hstep) ht
  exact ⟨hinv, fun fs e t hp ht => (hinv fs t ((List.prefix_append fs [e]).trans hp) ht).calls⟩

end OverlappedIOService

end WinsockTut
