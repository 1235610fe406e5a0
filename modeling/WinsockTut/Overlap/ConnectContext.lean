import WinsockTut.CompletionPort.Machine
import WinsockTut.Overlapped.Machine

/-!
# The connect context of a socket

A socket that `ConnectEx` has connected needs `UpdateConnectCtx` before other socket calls work on
it.  Both services call it in `AsyncConnect` if `ConnectEx` succeeds at once; neither calls it when
a pending `ConnectEx` has completed.  `ConnectAccount` is a history of a run: it records for which
sockets the call is due, and which callbacks came too early.
-/

namespace WinsockTut

open Runs

/-- What has become of the sockets that were connected in a run. -/
structure ConnectAccount where
  /-- The contexts on which `ConnectEx` has succeeded, with the sockets for which
  `UpdateConnectCtx` is due. -/
  due : List (CtxId × Socket)
  /-- The contexts whose connect callback has run with the status code 0 while it was due. -/
  early : List CtxId
  deriving DecidableEq, Repr

/-- What matters to the account. -/
inductive ConnectMark
  /-- `UpdateConnectCtx` was applied to a socket. -/
  | updated (fd : Socket)
  /-- The connect callback of a context was called with the status code 0. -/
  | callback (ctx : CtxId)
  deriving DecidableEq, Repr

namespace ConnectAccount

/-- Nothing is due, and nothing came too early. -/
def settled : ConnectAccount := ⟨[], []⟩

/-- `ConnectEx` has succeeded. -/
def connected (m : ConnectAccount) (done : List (CtxId × Socket)) : ConnectAccount :=
  { m with due := done ++ m.due }

/-- The account after a mark. -/
def mark (m : ConnectAccount) : ConnectMark → ConnectAccount
  | .updated fd => { m with due := m.due.filter fun entry => entry.2 ≠ fd }
  | .callback ctx =>
    if m.due.any fun entry => entry.1 = ctx then { m with early := ctx :: m.early } else m

/-- The account after a step in which `ConnectEx` has succeeded on some contexts. -/
def after (m : ConnectAccount) (connects : List (CtxId × Socket)) (marks : List ConnectMark) :
    ConnectAccount :=
  marks.foldl mark (m.connected connects)

/-- As long as nothing is due, a callback is not too early. -/
theorem foldl_mark_settled (marks : List ConnectMark) : marks.foldl mark settled = settled := by
  induction marks with
  | nil => rfl
  | cons x marks ih =>
    have hx : settled.mark x = settled := by cases x <;> rfl
    rw [List.foldl_cons, hx, ih]

/-- A step that connects nothing leaves the account settled. -/
theorem after_nil (marks : List ConnectMark) : settled.after [] marks = settled :=
  foldl_mark_settled marks

/-- So does a connection that is updated at once. -/
theorem after_updated (ctx : CtxId) (fd : Socket) (marks : List ConnectMark) :
    settled.after [(ctx, fd)] (.updated fd :: marks) = settled := by
  have hupdated : (settled.connected [(ctx, fd)]).mark (.updated fd) = settled := by
    simp [settled, connected, mark]
  rw [after, List.foldl_cons, hupdated, foldl_mark_settled]

end ConnectAccount

section

variable {σ ε : Type*} {step : σ → ε → Option σ} {s : σ} {es : List ε} {C : σ → ε → Prop}
  {account : σ → ε → σ → ConnectAccount → ConnectAccount}

/-- No connect callback has run before `UpdateConnectCtx`, according to the account of the run. -/
def UpdatedFirst (step : σ → ε → Option σ)
    (account : σ → ε → σ → ConnectAccount → ConnectAccount) (s : σ) (es : List ε) : Prop :=
  ∃ m, history step account s .settled es = some m ∧ m.early = []

/-- If the account stays settled, no callback comes too early. -/
theorem updatedFirst_of_settled (hstep : ∀ c e c', C c e → step c e = some c' →
    account c e c' .settled = .settled) (h : EachStep step s es fun _ => C) :
    Throughout step s es fun fs _ => UpdatedFirst step account s fs := by
  refine throughout_history (P := fun _ m => m = .settled) rfl ?_ ?_ h
  · rintro c m e c' rfl hok hs
    exact hstep c e c' hok hs
  · rintro c m rfl
    rfl

end

/-- `ConnectEx` is called and succeeds at once. -/
def AsyncCall.connectsAtOnce : AsyncCall → Bool
  | .connect r (.done _) => decide (r = 0)
  | _ => false

theorem AsyncCall.eq_of_connectsAtOnce {call : AsyncCall} (h : call.connectsAtOnce = true) :
    ∃ bytes, call = .connect 0 (.done bytes) := by
  cases call with
  | connect r outcome =>
    cases outcome with
    | done bytes =>
      obtain rfl : r = 0 := of_decide_eq_true h
      exact ⟨bytes, rfl⟩
    | pending => cases h
    | failed err => cases h
  | accept fd outcome => cases h
  | read outcome => cases h
  | write outcome => cases h

/-! ### `CompletionPortService` -/

namespace CompletionPortService

variable {c c' : Config} {e : Event} {es : List Event}

/-- The contexts on which `ConnectEx` succeeds in a step, with their sockets. -/
def Config.connects (c : Config) : Event → List (CtxId × Socket)
  | .async ctx call =>
    if call.connectsAtOnce then (c.service.ctxs.get ctx).toList.map fun x => (ctx, x.fd) else []
  | .complete k status _ =>
    (c.inflight[k]?).toList.filterMap fun op =>
      if op.1.kind = .connect ∧ status = 0 then some (op.1.ctx, op.1.fd) else none
  | _ => []

/-- What an observation means to the account. -/
def Obs.connectMark : Obs → Option ConnectMark
  | .called (.updateConnectCtx fd) => some (.updated fd)
  | .invoked p x _ => if p.kind = .connect ∧ x.internal = 0 then some (.callback p.ctx) else none
  | _ => none

/-- The account after a step. -/
def account (c : Config) (e : Event) (c' : Config) (m : ConnectAccount) : ConnectAccount :=
  m.after (c.connects e) ((c'.log.drop c.log.length).filterMap Obs.connectMark)

/-- No `ConnectEx` that was pending succeeds in the step. -/
def NoLateConnect (c : Config) (e : Event) : Prop :=
  ∀ k status bytes, e = .complete k status bytes →
    ∀ op, c.inflight[k]? = some op → op.1.kind = .connect → status ≠ 0

theorem account_of_connects_nil (h : c.connects e = []) :
    account c e c' .settled = .settled := by
  rw [account, h]
  exact ConnectAccount.after_nil _

/-- A step that completes no `ConnectEx` late leaves the account settled. -/
theorem account_settled (hok : NoLateConnect c e) (h : step c e = some c') :
    account c e c' .settled = .settled := by
  cases effect_of_step h with
  | @issued ctx call x hcall hx =>
    cases hdone : call.connectsAtOnce with
    | false => exact account_of_connects_nil (by simp [Config.connects, hdone])
    | true =>
      obtain ⟨bytes, rfl⟩ := AsyncCall.eq_of_connectsAtOnce hdone
      have hconnects : c.connects (.async ctx (.connect 0 (.done bytes))) = [(ctx, x.fd)] := by
        simp [Config.connects, hdone, hx]
      rw [account, hconnects, Config.issue_log, List.drop_left]
      exact ConnectAccount.after_updated ctx x.fd _
  | @completed k status bytes op hop hstatus =>
    refine account_of_connects_nil ?_
    have hlate : ¬ (op.1.kind = .connect ∧ status = 0) :=
      fun hconnect => hok k status bytes rfl op hop hconnect.1 hconnect.2
    simp [Config.connects, hop, hlate]
  | _ => exact account_of_connects_nil rfl

end CompletionPortService

/-! ### `OverlappedIOService` -/

namespace OverlappedIOService

variable {c c' : Config} {e : Event} {es : List Event}

/-- The contexts on which `ConnectEx` succeeds in a step, with their sockets. -/
def Config.connects (c : Config) : Event → List (CtxId × Socket)
  | .async ctx call =>
    if call.connectsAtOnce then (c.service.ctxs.get ctx).toList.map fun x => (ctx, x.fd) else []
  | .complete k status _ =>
    (c.inflight[k]?).toList.filterMap fun op =>
      if op.kind = .connect ∧ status = 0 then some (op.ctx, op.fd) else none
  | _ => []

/-- The last operation on a context that has completed. -/
def lastCompleted (ctx : CtxId) (log : List Obs) : Option OpKind :=
  log.reverse.findSome? fun
    | .completed i kind _ => if i = ctx then some kind else none
    | _ => none

/-- What an observation behind a log means to the account. -/
def Obs.connectMark (log : List Obs) : Obs → Option ConnectMark
  | .called (.updateConnectCtx fd) => some (.updated fd)
  | .invoked ctx x =>
    if lastCompleted ctx log = some .connect ∧ x.internal = 0 then some (.callback ctx) else none
  | _ => none

/-- The account after a step. -/
def account (c : Config) (e : Event) (c' : Config) (m : ConnectAccount) : ConnectAccount :=
  m.after (c.connects e) ((c'.log.drop c.log.length).filterMap (Obs.connectMark c.log))

/-- No `ConnectEx` that was pending succeeds in the step. -/
def NoLateConnect (c : Config) (e : Event) : Prop :=
  ∀ k status bytes, e = .complete k status bytes →
    ∀ op, c.inflight[k]? = some op → op.kind = .connect → status ≠ 0

theorem account_of_connects_nil (h : c.connects e = []) :
    account c e c' .settled = .settled := by
  rw [account, h]
  exact ConnectAccount.after_nil _

/-- A step that completes no `ConnectEx` late leaves the account settled. -/
theorem account_settled (hok : NoLateConnect c e) (h : step c e = some c') :
    account c e c' .settled = .settled := by
  cases effect_of_step h with
  | @issued ctx call x hcall hx =>
    cases hdone : call.connectsAtOnce with
    | false => exact account_of_connects_nil (by simp [Config.connects, hdone])
    | true =>
      obtain ⟨bytes, rfl⟩ := AsyncCall.eq_of_connectsAtOnce hdone
      have hconnects : c.connects (.async ctx (.connect 0 (.done bytes))) = [(ctx, x.fd)] := by
        simp [Config.connects, hdone, hx]
      have hlog : (c.issue ctx (AsyncCall.connect 0 (.done bytes)).kind x
          (OverlappedIOService.issue x (.connect 0 (.done bytes)))).log =
          c.log ++ ([.called (.updateConnectCtx x.fd)] ++
            [.issued ctx .connect, .completed ctx .connect 0]) := by
        rw [← List.append_assoc]
        rfl
      rw [account, hconnects, hlog, List.drop_left]
      exact ConnectAccount.after_updated ctx x.fd _
  | @completed k status bytes op hop hstatus =>
    refine account_of_connects_nil ?_
    have hlate : ¬ (op.kind = .connect ∧ status = 0) :=
      fun hconnect => hok k status bytes rfl op hop hconnect.1 hconnect.2
    simp [Config.connects, hop, hlate]
  | _ => exact account_of_connects_nil rfl

end OverlappedIOService

/-! ### Both services -/

/-- **`UpdateConnectCtx` comes before the connect callback**, in both services, in the runs in which
no pending `ConnectEx` succeeds.  `Run` does not apply it to a socket whose connection was
pending. -/
theorem updateConnectCtx_first {es : List CompletionPortService.Event}
    {es' : List OverlappedIOService.Event}
    (h : EachStep CompletionPortService.step .init es fun _ => CompletionPortService.NoLateConnect)
    (h' : EachStep OverlappedIOService.step .init es' fun _ =>
      OverlappedIOService.NoLateConnect) :
    (Throughout CompletionPortService.step .init es fun fs _ =>
      UpdatedFirst CompletionPortService.step CompletionPortService.account .init fs) ∧
    (Throughout OverlappedIOService.step .init es' fun fs _ =>
      UpdatedFirst OverlappedIOService.step OverlappedIOService.account .init fs) :=
  ⟨updatedFirst_of_settled (fun _ _ _ => CompletionPortService.account_settled) h,
    updatedFirst_of_settled (fun _ _ _ => OverlappedIOService.account_settled) h'⟩

/-- A connection with the given outcome of `ConnectEx`, and the call of `Run` that dispatches it. -/
def CompletionPortService.connectThatEnds (outcome : Outcome) (es : List Event) : List Event :=
  [.alloc 5 flagAssociate true, .assign 0 0 0 (some 7), .async 0 (.connect 0 outcome)] ++ es ++
    [.run, .timer (.updateTimer 0), .timer .round, .updated, .dequeued]

/-- The same with event objects. -/
def OverlappedIOService.connectThatEnds (outcome : Outcome) (es : List Event) : List Event :=
  [.alloc 5 0 (some 1), .assign 0 0 0 (some 7), .async 0 (.connect 0 outcome)] ++ es ++
    [.run [1], .signaled 0, .timer (.updateTimer 0), .timer .round, .updated, .gotResult]

/-- A pending connection succeeds: in both services the callback runs with the status code 0, and
`UpdateConnectCtx` has not been called. -/
theorem connect_pending_early :
    history CompletionPortService.step CompletionPortService.account .init .settled
      (CompletionPortService.connectThatEnds .pending [.complete 0 0 0]) =
        some ⟨[(0, 5)], [0]⟩ ∧
    history OverlappedIOService.step OverlappedIOService.account .init .settled
      (OverlappedIOService.connectThatEnds .pending [.complete 0 0 0]) =
        some ⟨[(0, 5)], [0]⟩ ∧
    ¬ UpdatedFirst CompletionPortService.step CompletionPortService.account .init
      (CompletionPortService.connectThatEnds .pending [.complete 0 0 0]) ∧
    ¬ UpdatedFirst OverlappedIOService.step OverlappedIOService.account .init
      (OverlappedIOService.connectThatEnds .pending [.complete 0 0 0]) := by
  have hport : history CompletionPortService.step CompletionPortService.account .init .settled
      (CompletionPortService.connectThatEnds .pending [.complete 0 0 0]) =
        some ⟨[(0, 5)], [0]⟩ := by decide +kernel
  have hevent : history OverlappedIOService.step OverlappedIOService.account .init .settled
      (OverlappedIOService.connectThatEnds .pending [.complete 0 0 0]) =
        some ⟨[(0, 5)], [0]⟩ := by decide +kernel
  refine ⟨hport, hevent, ?_, ?_⟩
  · rintro ⟨m, hm, hearly⟩
    obtain rfl := Option.some.inj (hport.symm.trans hm)
    cases hearly
  · rintro ⟨m, hm, hearly⟩
    obtain rfl := Option.some.inj (hevent.symm.trans hm)
    cases hearly

/-- A connection that succeeds at once. -/
theorem updateConnectCtx_first_atOnce :
    (Throughout CompletionPortService.step .init
      (CompletionPortService.connectThatEnds (.done 0) []) fun fs _ =>
        UpdatedFirst CompletionPortService.step CompletionPortService.account .init fs) ∧
    (Throughout OverlappedIOService.step .init
      (OverlappedIOService.connectThatEnds (.done 0) []) fun fs _ =>
        UpdatedFirst OverlappedIOService.step OverlappedIOService.account .init fs) := by
  refine updateConnectCtx_first (eachStep_of_forall fun e he _ _ k status bytes hcomplete => ?_)
    (eachStep_of_forall fun e he _ _ k status bytes hcomplete => ?_)
  · simp [hcomplete, CompletionPortService.connectThatEnds] at he
  · simp [hcomplete, OverlappedIOService.connectThatEnds] at he

end WinsockTut
