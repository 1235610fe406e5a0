import WinsockTut.CompletionPort.Lifetime

/-!
# What the owner of the contexts relies on

The owner of the contexts knows their flags, callbacks and sockets, which of them it has freed, and
how many packets are still to come for each: `View` is that much of the service.  Every call of the
interface is shown to be possible on a live context, and to change the view in one place only; a
completion does not change it at all, and the progress of `Run` as little.  A program that drives
the service is verified with these rules, and never looks into the service itself.
-/

namespace WinsockTut

namespace CompletionPortService

open Runs Function

/-- The members of a context that its owner relies on. -/
structure Face where
  flags : BitVec 32
  cb : Option Callback
  fd : Socket
  deriving DecidableEq, Repr

/-- The context is to be deleted lazily. -/
def Face.lazy (y : Face) : Bool := hasBits y.flags flagLazyDelete

/-- The face of a context. -/
def face (x : OverlapContext) : Face := ⟨x.flags, x.cb, x.fd⟩

/-- The number of packets that are still to come for a context: those that wait in the port, and
those of the operations in flight that report to it. -/
def Config.outstanding (c : Config) (ctx : CtxId) : ℕ :=
  c.inflight.countP (fun op => op.1.ctx = ctx ∧ op.2 = true) + c.queue.countP fun p => p.ctx = ctx

/-- The service as its owner sees it. -/
@[ext] structure View where
  /-- The contexts that have not been deleted. -/
  face : CtxId → Option Face
  /-- The number of packets that are still to come for a context. -/
  out : CtxId → ℕ
  /-- The contexts that were passed to `FreeOverlapCtx`. -/
  freed : List CtxId
  /-- The number of contexts that were allocated. -/
  size : ℕ
  /-- The position of control in `Run`. -/
  ctl : Control

/-- The view of a configuration. -/
def Config.view (c : Config) : View where
  face i := (c.service.ctxs.get i).map CompletionPortService.face
  out := c.outstanding
  freed := c.freed
  size := c.service.ctxs.length
  ctl := c.ctl

variable {c c' : Config} {e : Event} {ctx i : CtxId} {x : OverlapContext} {y : Face}

/-! ### Reading the view -/

@[simp] theorem view_freed (c : Config) : c.view.freed = c.freed := rfl
theorem view_size (c : Config) : c.view.size = c.service.ctxs.length := rfl
@[simp] theorem view_ctl (c : Config) : c.view.ctl = c.ctl := rfl

theorem live_iff_face : c.Live i ↔ ∃ y, c.view.face i = some y := by
  rw [Config.Live, ← Option.isSome_map (f := face), Option.isSome_iff_exists]
  rfl

theorem exists_face_of_lazy (h : c.lazy i = true) :
    ∃ y, c.view.face i = some y ∧ y.lazy = true := by
  cases hx : c.service.ctxs.get i with
  | none => simp [Config.lazy, hx] at h
  | some x => exact ⟨face x, by simp [Config.view, hx], (lazy_of_get hx).symm.trans h⟩

/-- Contexts that have not been allocated have no face. -/
theorem face_eq_none (h : c.view.size ≤ i) : c.view.face i = none := by
  have hget : c.service.ctxs.get i = none := by
    by_contra hne
    obtain ⟨x, hx⟩ := Option.ne_none_iff_exists'.mp hne
    exact absurd (Contexts.lt_length_of_get hx) (not_lt.mpr h)
  simp [Config.view, hget]

theorem lt_size_of_face (h : c.view.face i = some y) : i < c.view.size := by
  by_contra hge
  rw [face_eq_none (not_lt.mp hge)] at h
  cases h

/-- A packet is still to come for a context that is awaited. -/
theorem Config.Awaited.pos (h : c.Awaited i) : 0 < c.outstanding i := by
  rcases h with ⟨op, hop, hport, rfl⟩ | ⟨p, hp, -, rfl⟩
  · exact Nat.add_pos_left (List.countP_pos_iff.mpr ⟨op, hop, by simp [hport]⟩) _
  · exact Nat.add_pos_right _ (List.countP_pos_iff.mpr ⟨p, hp, by simp⟩)

/-- The face of every context after one of them has been changed. -/
theorem face_update {h : Contexts} {f : OverlapContext → OverlapContext} :
    (fun i => ((h.update ctx f).get i).map face) =
      update (fun i => (h.get i).map face) ctx ((h.get ctx).map fun x => face (f x)) := by
  funext i
  by_cases hi : i = ctx
  · subst hi
    rw [update_self, Contexts.get_update_self, Option.map_map]
    rfl
  · rw [update_of_ne hi, Contexts.get_update_ne (Ne.symm hi)]

/-- A change that leaves the face of the context alone leaves all faces alone. -/
theorem face_update_of_eq {h : Contexts} {f : OverlapContext → OverlapContext}
    (hf : ∀ x, h.get ctx = some x → face (f x) = face x) :
    (fun i => ((h.update ctx f).get i).map face) = fun i => (h.get i).map face := by
  rw [face_update]
  refine update_eq_self_iff.mpr ?_
  cases hx : h.get ctx with
  | none => rfl
  | some x => exact congrArg some (hf x hx)

/-- The face of every context after one of them has been deleted. -/
theorem face_delete {h : Contexts} :
    (fun i => ((h.delete ctx).get i).map face) = update (fun i => (h.get i).map face) ctx none := by
  funext i
  by_cases hi : i = ctx
  · subst hi
    rw [update_self, Contexts.get_delete_self]
    rfl
  · rw [update_of_ne hi, Contexts.get_delete_ne (Ne.symm hi)]

/-! ### The packets that are still to come -/

/-- The packets that a call which ends so leads to, if the socket reports to the port or not. -/
def startedBy (reports : Bool) : Outcome → ℕ
  | .pending | .done _ => if reports then 1 else 0
  | .failed _ => 0

/-- The packets that a call which starts an operation on the context leads to. -/
def Config.starts (c : Config) (ctx : CtxId) (call : AsyncCall) : ℕ :=
  (c.service.ctxs.get ctx).elim 0 fun x =>
    startedBy (decide (x.fd ∈ c.service.port)) (CompletionPortService.issue x call).outcome

/-- The owner's members are not written by the calls that start an operation. -/
theorem face_issue (x : OverlapContext) (call : AsyncCall) : face (issue x call).ctx = face x := by
  cases call with
  | connect r outcome =>
    simp only [issue, asyncConnect, startConnect]
    split
    · rfl
    · cases outcome <;> rfl
  | accept fd outcome =>
    simp only [issue, asyncAccept, startAccept]
    split
    · rfl
    · cases outcome <;> rfl
  | read outcome => cases outcome <;> rfl
  | write outcome => cases outcome <;> rfl

/-- A call leads to at most one packet. -/
theorem starts_le_one (c : Config) (ctx : CtxId) (call : AsyncCall) : c.starts ctx call ≤ 1 := by
  have hle : ∀ reports outcome, startedBy reports outcome ≤ 1 := by
    intro reports outcome
    cases outcome <;> cases reports <;> simp [startedBy]
  unfold Config.starts
  cases c.service.ctxs.get ctx with
  | none => exact Nat.zero_le 1
  | some x => exact hle _ _

/-- How a call ends does not depend on the context. -/
theorem issue_outcome (x y : OverlapContext) (call : AsyncCall) :
    (issue x call).outcome = (issue y call).outcome := by
  cases call with
  | connect r outcome =>
    simp only [issue, asyncConnect, startConnect]
    split <;> rfl
  | accept fd outcome =>
    simp only [issue, asyncAccept, startAccept]
    split <;> rfl
  | read outcome => rfl
  | write outcome => rfl

/-- Taking one element out of a list. -/
theorem countP_eraseIdx {α : Type*} (q : α → Bool) {l : List α} {k : ℕ} {a : α}
    (h : l[k]? = some a) : l.countP q = (l.eraseIdx k).countP q + if q a then 1 else 0 := by
  induction l generalizing k with
  | nil => simp at h
  | cons b l ih =>
    cases k with
    | zero =>
      obtain rfl : b = a := by simpa using h
      rw [List.countP_cons, List.eraseIdx_cons_zero]
    | succ k =>
      rw [List.countP_cons, List.eraseIdx_cons_succ, List.countP_cons, ih (by simpa using h)]
      omega

/-- An operation that reports posts its packet. -/
theorem outstanding_post (c : Config) (op : Operation × Bool) (ok : Bool) (i : CtxId) :
    (c.post op ok).outstanding i =
      c.outstanding i + if op.1.ctx = i ∧ op.2 = true then 1 else 0 := by
  unfold Config.post Config.outstanding
  cases op.2 with
  | true => simp [List.countP_append, List.countP_singleton, Nat.add_assoc]
  | false => simp

theorem Config.post_freed (c : Config) (op : Operation × Bool) (ok : Bool) :
    (c.post op ok).freed = c.freed := by
  unfold post
  split <;> rfl

theorem Config.issue_freed (c : Config) (ctx : CtxId) (kind : OpKind) (fd : Socket) (r : Issue) :
    (c.issue ctx kind fd r).freed = c.freed := by
  unfold issue
  cases r.outcome with
  | done bytes => exact post_freed _ _ _
  | pending => rfl
  | failed err => rfl

/-- The packets that are still to come after a call that starts an operation. -/
theorem outstanding_issue (c : Config) (ctx : CtxId) (kind : OpKind) (fd : Socket) (r : Issue)
    (i : CtxId) : (c.issue ctx kind fd r).outstanding i = c.outstanding i +
      if ctx = i then startedBy (decide (fd ∈ c.service.port)) r.outcome else 0 := by
  unfold Config.issue
  cases r.outcome with
  | done bytes =>
    simp only [outstanding_post]
    by_cases hfd : fd ∈ c.service.port <;> by_cases hi : ctx = i <;>
      simp [Config.outstanding, startedBy, hfd, hi]
  | pending =>
    by_cases hfd : fd ∈ c.service.port <;> by_cases hi : ctx = i <;>
      simp [Config.outstanding, startedBy, List.countP_append, hfd, hi, Nat.add_right_comm]
  | failed err => simp [Config.outstanding, startedBy]

/-! ### The calls of the interface -/

section

variable (hcall : c.canCall = true)

include hcall

/-- `AllocOverlapCtx` returns a new context, without flags and without a callback. -/
theorem view_alloc (fd : Socket) (flags : BitVec 32) {associated : Bool}
    (hok : hasBits flags flagAssociate = true → associated = true) :
    ∃ c', step c (.alloc fd flags associated) = some c' ∧
      c.service.allocOverlapCtx fd flags associated = some (c'.service, some c.view.size) ∧
      c'.view = { c.view with
        face := update c.view.face c.view.size (some ⟨0, none, fd⟩), size := c.view.size + 1 } ∧
      (hasBits flags flagAssociate = false → ∀ outcome, c'.starts c.view.size (.write outcome) =
        startedBy (decide (fd ∈ c.service.port)) outcome) := by
  have halloc : ∃ s, c.service.allocOverlapCtx fd flags associated =
      some (s, some c.service.ctxs.length) ∧
      s.ctxs = c.service.ctxs ++ [some (OverlapContext.new fd)] ∧
      (hasBits flags flagAssociate = false → s.port = c.service.port) := by
    unfold allocOverlapCtx
    cases hflag : hasBits flags flagAssociate with
    | true => exact ⟨⟨_, fd :: c.service.port⟩, by rw [if_pos rfl, if_pos (hok hflag)], rfl, nofun⟩
    | false =>
      exact ⟨⟨_, c.service.port⟩, by rw [if_neg Bool.false_ne_true], rfl, fun _ => rfl⟩
  obtain ⟨s, hs, hctxs, hport⟩ := halloc
  have hnew : s.ctxs.get c.service.ctxs.length = some (OverlapContext.new fd) := by
    simp [hctxs, Contexts.get]
  refine ⟨_, by simp only [step, hcall, if_true, hs]; rfl, hs, ?_, fun hflag outcome => ?_⟩
  · refine View.ext (funext fun i => ?_) rfl rfl ?_ rfl
    · change (s.ctxs.get i).map face = update c.view.face c.view.size (some ⟨0, none, fd⟩) i
      rw [hctxs]
      by_cases hi : i = c.service.ctxs.length
      · subst hi
        simp [Contexts.get, view_size, face, OverlapContext.new]
      · rw [update_of_ne (by exact hi)]
        rcases lt_or_gt_of_ne hi with hlt | hgt
        · rw [Contexts.get_append_of_lt hlt]
          rfl
        · rw [face_eq_none (le_of_lt hgt)]
          have hlen : (c.service.ctxs ++ [some (OverlapContext.new fd)]).length ≤ i := by
            rw [List.length_append]
            exact Nat.succ_le_of_lt hgt
          rw [Contexts.get, List.getElem?_eq_none hlen]
          rfl
    · simp [Config.view, hctxs]
  · simp only [Config.starts, view_size, hnew, Option.elim_some, hport hflag]
    rfl

/-- `AllocOverlapCtx` returns `NULL` if `CreateIoCompletionPort` fails. -/
theorem view_alloc_failed (fd : Socket) {flags : BitVec 32}
    (hflag : hasBits flags flagAssociate = true) :
    ∃ c', step c (.alloc fd flags false) = some c' ∧
      c.service.allocOverlapCtx fd flags false = some (c'.service, none) ∧
      c'.view = { c.view with size := c.view.size + 1 } := by
  obtain ⟨s, hs⟩ : ∃ s, c.service.allocOverlapCtx fd flags false = some (s, none) := by
    have hnew : Contexts.get (c.service.ctxs ++ [some (OverlapContext.new fd)])
        c.service.ctxs.length = some (OverlapContext.new fd) := by simp [Contexts.get]
    simp [allocOverlapCtx, hflag, freeOverlapCtx, hnew]
  obtain ⟨hlen, hget, hnull⟩ := allocOverlapCtx_spec hs
  refine ⟨_, by simp only [step, hcall, if_true, hs]; rfl, hs, ?_⟩
  refine View.ext (funext fun i => ?_) rfl rfl hlen rfl
  change (s.ctxs.get i).map face = c.view.face i
  rcases lt_trichotomy i c.service.ctxs.length with hlt | rfl | hgt
  · rw [hget i hlt]
    rfl
  · rw [hnull rfl]
    exact (face_eq_none le_rfl).symm
  · rw [face_eq_none (le_of_lt hgt)]
    have hnone : s.ctxs[i]? = none := List.getElem?_eq_none (hlen ▸ Nat.succ_le_of_lt hgt)
    simp [Contexts.get, hnone]

/-- The owner writes the members of a context. -/
theorem view_assign (hx : c.service.ctxs.get ctx = some x) (flags : BitVec 32) (udata : ℤ)
    (cb : Option Callback) : ∃ c', step c (.assign ctx flags udata cb) = some c' ∧
      c'.view = { c.view with face := update c.view.face ctx (some ⟨flags, cb, x.fd⟩) } ∧
      c'.service.ctxs.get ctx = some { x with flags := flags, udata := udata, cb := cb } ∧
      c'.log = c.log ∧ ∀ call, c'.starts ctx call = c.starts ctx call := by
  have hsize := Contexts.length_update c.service.ctxs ctx fun x =>
    { x with flags := flags, udata := udata, cb := cb }
  have hget := Contexts.get_update_self c.service.ctxs ctx fun x =>
    { x with flags := flags, udata := udata, cb := cb }
  rw [hx, Option.map_some] at hget
  refine ⟨_, by simp only [step, hcall, if_true, hx]; rfl, ?_, ?_, ?_, fun call => ?_⟩
  · refine View.ext (face_update.trans ?_) rfl rfl hsize rfl
    rw [hx]
    rfl
  · exact hget
  · rfl
  · simp only [Config.starts, hx, Option.elim_some]
    rw [hget, Option.elim_some, issue_outcome _ x call]

/-- `FreeOverlapCtx` leaves a context to `Run` if it has `FLAG_LAZY_DELETE`. -/
theorem view_free (hx : c.service.ctxs.get ctx = some x) (hlazy : x.lazy = true) :
    ∃ c', step c (.free ctx) = some c' ∧
      c'.view = { c.view with
        face := update c.view.face ctx (some ⟨x.flags, x.cb, invalidSocket⟩)
        freed := ctx :: c.freed } ∧
      c'.log = c.log ++
        if hasBits x.flags flagCancelIo then [.called (.cancelIoEx x.fd)] else [] := by
  let s : CompletionPortService := { c.service with
    ctxs := c.service.ctxs.update ctx fun x => { x with fd := invalidSocket } }
  have hfree : c.service.freeOverlapCtx ctx =
      some (s, if hasBits x.flags flagCancelIo then [.cancelIoEx x.fd] else []) := by
    simp only [freeOverlapCtx, hx, Option.bind_eq_bind, Option.bind_some, hlazy, if_true]
    rfl
  have hface : (fun i => (s.ctxs.get i).map face) =
      update c.view.face ctx (some ⟨x.flags, x.cb, invalidSocket⟩) := by
    refine face_update.trans ?_
    rw [hx]
    rfl
  have hsize : s.ctxs.length = c.service.ctxs.length := Contexts.length_update _ _ _
  refine ⟨_, by simp only [step, hcall, if_true, hfree]; rfl, ?_, ?_⟩
  · exact View.ext hface rfl rfl hsize rfl
  · have hdel : c.deletedBy ctx = [] := by simp [Config.deletedBy, lazy_of_get hx, hlazy]
    simp only [hdel, List.append_nil]
    split <;> rfl

/-- A socket is closed. -/
theorem view_closeSocket (fd : Socket) :
    ∃ c', step c (.closeSocket fd) = some c' ∧ c'.view = c.view ∧
      c'.log = c.log ++ [.called (.closesocket fd)] := by
  refine ⟨_, by simp only [step, hcall, if_true]; rfl, ?_, rfl⟩
  exact View.ext rfl rfl rfl rfl rfl

/-- A call that starts an operation adds to what is outstanding on its own context. -/
theorem view_async (hx : c.service.ctxs.get ctx = some x) (call : AsyncCall) :
    ∃ c', step c (.async ctx call) = some c' ∧
      c'.view = { c.view with
        out := update c.view.out ctx (c.view.out ctx + c.starts ctx call) } := by
  refine ⟨_, by simp only [step, hcall, if_true, hx]; rfl, ?_⟩
  have hstarts : c.starts ctx call =
      startedBy (decide (x.fd ∈ c.service.port)) (issue x call).outcome := by
    rw [Config.starts, hx, Option.elim_some]
  rw [hstarts]
  let r := issue x call
  have hctxs := Config.issue_ctxs c ctx call.kind x.fd r
  refine View.ext ?_ (funext fun i => ?_) ?_ ?_ ?_
  · change (fun i => ((c.issue ctx call.kind x.fd r).service.ctxs.get i).map face) = c.view.face
    rw [hctxs]
    refine face_update_of_eq fun y hy => ?_
    obtain rfl := Option.some.inj (hx.symm.trans hy)
    exact face_issue x call
  · refine (outstanding_issue c ctx call.kind x.fd r i).trans ?_
    by_cases hi : i = ctx
    · subst hi
      simp [Config.view, r]
    · simp [Config.view, hi, Ne.symm hi]
  · exact Config.issue_freed c ctx call.kind x.fd r
  · change (c.issue ctx call.kind x.fd r).service.ctxs.length = c.service.ctxs.length
    rw [hctxs, Contexts.length_update]
  · exact Config.issue_ctl c ctx call.kind x.fd r

end

/-! ### The system, and the progress of `Run` -/

/-- A completion is not seen until its packet is dequeued. -/
theorem view_complete {k status bytes : ℕ} (hstep : step c (.complete k status bytes) = some c') :
    c'.view = c.view := by
  cases effect_of_step hstep with
  | @completed _ _ _ op hop hstatus =>
    refine View.ext ?_ (funext fun i => ?_) ?_ ?_ ?_
    · change (fun i => ((c.complete k op status bytes).service.ctxs.get i).map face) = c.view.face
      rw [Config.complete_ctxs]
      exact face_update_of_eq fun _ _ => rfl
    · change (c.complete k op status bytes).outstanding i = c.outstanding i
      unfold Config.complete
      rw [outstanding_post, Config.outstanding, Config.outstanding, countP_eraseIdx _ hop]
      simp only [decide_eq_true_eq]
      omega
    · exact Config.post_freed _ _ _
    · change (c.complete k op status bytes).service.ctxs.length = c.service.ctxs.length
      rw [Config.complete_ctxs, Contexts.length_update]
    · exact Config.complete_ctl _ _ _ _ _

/-- The events of `Run` other than those about a packet. -/
def Event.quiet : Event → Bool
  | .timer (.updateTimer _) | .timer .round | .timer .timeoutReturn => true
  | .run | .updated | .notDequeued _ => true
  | _ => false

/-- They only move control, and they do not call callbacks of contexts. -/
theorem view_quiet (he : e.quiet = true) (hstep : step c e = some c') :
    c'.view = { c.view with ctl := c'.ctl } ∧ c'.ctl ≠ .undefined ∧ ∀ d, c'.ctl ≠ .callback d := by
  cases effect_of_step hstep with
  | @ticked e timers htimers =>
    refine ⟨View.ext rfl rfl rfl rfl rfl, ?_⟩
    -- the timers take these steps in `UpdateTimer`, or enter it
    have hstage : c.ctl.stage = .entering ∨ c.ctl.stage = .updating := by
      cases e with
      | updateTimer tick =>
        simp only [timerStep, Option.ite_none_right_eq_some] at htimers
        exact Or.inl htimers.1
      | round =>
        simp only [timerStep, Option.ite_none_right_eq_some] at htimers
        exact Or.inr htimers.1
      | timeoutReturn =>
        simp only [timerStep, Option.ite_none_right_eq_some] at htimers
        exact Or.inr htimers.1
      | addTimer a tick millsec event => simp [Event.quiet] at he
      | cancelTimer id => simp [Event.quiet] at he
    change c.ctl.afterTimer e ≠ .undefined ∧ ∀ d, c.ctl.afterTimer e ≠ .callback d
    rcases c.ctl.afterTimer_eq e with hsame | ⟨-, hupdating⟩
    · rw [hsame]
      cases hctl : c.ctl <;> simp [hctl, Control.stage] at hstage ⊢
    · simp [hupdating]
  | ran => exact ⟨View.ext rfl rfl rfl rfl rfl, by simp, by simp⟩
  | updated => exact ⟨View.ext rfl rfl rfl rfl rfl, by simp, by simp⟩
  | notDequeued =>
    exact ⟨View.ext rfl rfl rfl rfl rfl, by simp [Config.leave], by simp [Config.leave]⟩
  | _ => simp [Event.quiet] at he

/-- The packets that are still to come when one has been taken off the queue. -/
theorem outstanding_tail {p : Packet} {queue : List Packet} (hqueue : c.queue = p :: queue) :
    Config.outstanding { c with queue := queue } =
      update c.outstanding p.ctx (c.outstanding p.ctx - 1) := by
  funext i
  by_cases hi : i = p.ctx
  · subst hi
    simp [Config.outstanding, hqueue, ← Nat.add_assoc]
  · simp [Config.outstanding, hqueue, hi, Ne.symm hi]

/-- `Run` dequeues a packet, and calls the callback of its context, unless the operation has
failed. -/
theorem view_dequeued {p : Packet} {queue : List Packet}
    (hqueue : c.queue = p :: queue) (hface : c.view.face p.ctx = some y) (hcb : y.cb ≠ none)
    (hstep : step c .dequeued = some c') :
    c'.view = { c.view with
        out := update c.view.out p.ctx (c.view.out p.ctx - 1), ctl := c'.ctl } ∧
      c'.ctl = if p.ok then
        .callback { Config.delivery { c with queue := queue } p with invoked := 1 } else .idle := by
  cases effect_of_step hstep with
  | @dequeued q queue' hctl hqueue' =>
    obtain ⟨rfl, rfl⟩ := List.cons.inj (hqueue.symm.trans hqueue')
    obtain ⟨x, hx, hxf⟩ := Option.map_eq_some_iff.mp hface
    have hcb' : x.cb ≠ none := fun hnone => hcb (by rw [← hxf]; exact hnone)
    have hout := outstanding_tail hqueue
    rcases Config.handle_cases { c with queue := queue } p with ⟨hok, heq⟩ | ⟨-, hnone, -⟩ |
        ⟨y, hok, hy, ⟨-, heq⟩ | ⟨hnocb, -⟩⟩
    · rw [heq, hok]
      exact ⟨View.ext rfl hout rfl rfl rfl, rfl⟩
    · exact absurd (hx.symm.trans hnone) (by simp)
    · rw [heq, hok]
      exact ⟨View.ext rfl hout rfl rfl rfl, rfl⟩
    · obtain rfl := Option.some.inj (hx.symm.trans hy)
      exact absurd hnocb hcb'

/-- Behind the callback, `Run` deletes the context if it is to be deleted lazily. -/
theorem view_callbackReturn {d : Delivery}
    (hctl : c.ctl = .callback d) (hface : c.view.face d.packet.ctx = some y)
    (hstep : step c .callbackReturn = some c') :
    c'.view = { c.view with
      face := if y.lazy then update c.view.face d.packet.ctx none else c.view.face
      ctl := .idle } := by
  cases effect_of_step hstep with
  | resumed hctl' =>
    obtain rfl := Control.callback.inj (hctl.symm.trans hctl')
    obtain ⟨x, hx, rfl⟩ := Option.map_eq_some_iff.mp hface
    rcases c.finish_cases d with ⟨hnone, -⟩ | ⟨x', hx', ⟨hlazy, heq⟩ | ⟨hlazy, heq⟩⟩
    · exact absurd (hx.symm.trans hnone) (by simp)
    · obtain rfl := Option.some.inj (hx.symm.trans hx')
      rw [heq, if_pos (show (face x).lazy = true from hlazy)]
      exact View.ext face_delete rfl rfl (Contexts.length_delete _ _) rfl
    · obtain rfl := Option.some.inj (hx.symm.trans hx')
      have hlazy' : (face x).lazy = false := hlazy
      rw [heq, if_neg (by simp [hlazy'])]
      exact View.ext rfl rfl rfl rfl rfl

/-! ### The lifetime of the contexts -/

/-- The service has been driven so far without a use of a deleted context to come. -/
structure Driven (c : Config) : Prop where
  live : LiveInv c
  reached : ∃ es, runs es = some c

theorem driven_init : Driven Config.init := ⟨liveInv_init, [], rfl⟩

/-- No context has been deleted twice. -/
theorem Driven.nodup (h : Driven c) : (deletedIn c.log).Nodup := by
  obtain ⟨es, hrun⟩ := h.reached
  exact nodup_deletedIn hrun

theorem Driven.of_live (h : Driven c) (hlive : LiveInv c') (hstep : step c e = some c') :
    Driven c' := by
  obtain ⟨es, hrun⟩ := h.reached
  exact ⟨hlive, es ++ [e], run_trans hrun (by simp [hstep])⟩

/-- The events that neither free nor delete a context. -/
def Event.keeps : Event → Bool
  | .free _ | .dequeued | .callbackReturn => false
  | _ => true

/-- The other events leave everything live that was. -/
theorem driven_of_keeps (h : Driven c) (he : e.keeps = true) (hstep : step c e = some c') :
    Driven c' := by
  have hdeletes : c.deletes e = none := by
    cases e <;> first | rfl | simp [Event.keeps] at he
  refine h.of_live (h.live.step (fun ctx hctx => ?_) (fun d _ hctx => ?_) (fun ctx hctx => ?_)
    hstep) hstep
  · subst hctx
    simp [Event.keeps] at he
  · subst hctx
    simp [Event.keeps] at he
  · simp [hdeletes] at hctx

/-- A context that has not been freed before may be freed with `FLAG_LAZY_DELETE` at any time. -/
theorem driven_of_free (h : Driven c) (hfreed : ctx ∉ c.freed) (hlazy : c.lazy ctx = true)
    (hstep : step c (.free ctx) = some c') : Driven c' := by
  refine h.of_live (h.live.step (fun i hi => ?_) (fun d _ hi => ?_) (fun i hi => ?_) hstep) hstep
  · obtain rfl := Event.free.inj hi
    exact ⟨hfreed, fun _ => hlazy⟩
  · exact Event.free.inj hi ▸ hlazy
  · simp [Config.deletes] at hi

/-- `Run` deletes lazily what is to be deleted lazily. -/
theorem lazy_of_deletes (hi : i ∈ c.deletes e) : c.lazy i = true := by
  unfold Config.deletes at hi
  split at hi
  · split at hi
    · next hlazy =>
      obtain rfl := Option.some.inj hi
      exact hlazy
    · cases hi
  · split at hi
    · next hdue =>
      obtain rfl := Option.some.inj hi
      exact hdue.2.1
    · cases hi
  · cases hi

/-- `Run` may delete a context if nothing is outstanding on it. -/
theorem driven_of_deletes (h : Driven c) (he : e = .dequeued ∨ e = .callbackReturn)
    (hdel : ∀ i ∈ c.deletes e, c.outstanding i = 0) (hstep : step c e = some c') : Driven c' := by
  refine h.of_live (h.live.step ?_ ?_ (fun i hi hawaited => ?_) hstep) hstep
  · rintro ctx rfl
    simp at he
  · rintro d - rfl
    simp at he
  · have hzero := hdel i hi
    have hpos := hawaited.pos
    split at hpos
    · have htail : c.queue.tail.countP (fun p => p.ctx = i) ≤ c.queue.countP fun p => p.ctx = i :=
        (List.tail_sublist c.queue).countP_le
      simp only [Config.outstanding] at hzero hpos
      omega
    · omega

/-! ### The sockets of the operations in flight -/

/-- The operations in flight are on the sockets of their contexts, unless these have been freed. -/
def Config.OwnSockets (c : Config) : Prop :=
  ∀ op ∈ c.inflight, op.1.ctx < c.view.size ∧
    (op.1.ctx ∈ c.freed ∨ ∀ x, c.service.ctxs.get op.1.ctx = some x → x.fd = op.1.fd)

/-- The socket of a context is not changed before it is freed. -/
theorem Config.OwnSockets.of_fd (h : c.OwnSockets) (hinflight : c'.inflight ⊆ c.inflight)
    (hsize : c.view.size ≤ c'.view.size) (hfreed : ∀ i ∈ c.freed, i ∈ c'.freed)
    (hfd : ∀ i < c.view.size, ∀ x', c'.service.ctxs.get i = some x' → i ∈ c'.freed ∨
      ∃ x, c.service.ctxs.get i = some x ∧ x.fd = x'.fd) : c'.OwnSockets := by
  intro op hop
  obtain ⟨hlt, hown⟩ := h op (hinflight hop)
  refine ⟨hlt.trans_le hsize, ?_⟩
  by_cases hmem : op.1.ctx ∈ c'.freed
  · exact Or.inl hmem
  · refine Or.inr fun x' hx' => ?_
    obtain ⟨x, hx, hfd⟩ := (hfd _ hlt x' hx').resolve_left hmem
    rcases hown with hfreed' | hown
    · exact absurd (hfreed _ hfreed') hmem
    · exact hfd.symm.trans (hown x hx)

/-- A change of a context that leaves its socket alone. -/
theorem Config.OwnSockets.of_update (h : c.OwnSockets) (ctx : CtxId)
    (hinflight : c'.inflight ⊆ c.inflight) (hfreed : c'.freed = c.freed)
    {f : OverlapContext → OverlapContext}
    (hctxs : c'.service.ctxs = c.service.ctxs.update ctx f)
    (hf : ∀ x, c.service.ctxs.get ctx = some x → (f x).fd = x.fd) : c'.OwnSockets := by
  refine h.of_fd hinflight ?_ (fun i hi => hfreed ▸ hi) fun i _ x' hx' => Or.inr ?_
  · rw [view_size, view_size, hctxs, Contexts.length_update]
  · rw [hctxs] at hx'
    by_cases hi : i = ctx
    · subst hi
      rw [Contexts.get_update_self] at hx'
      obtain ⟨x, hx, rfl⟩ := Option.map_eq_some_iff.mp hx'
      exact ⟨x, hx, (hf x hx).symm⟩
    · rw [Contexts.get_update_ne (Ne.symm hi)] at hx'
      exact ⟨x', hx', rfl⟩

/-- `Run` does not change the socket of a context. -/
theorem Config.OwnSockets.finish (h : c.OwnSockets) (d : Delivery) : (c.finish d).OwnSockets := by
  rcases c.finish_cases d with ⟨-, heq⟩ | ⟨x, -, ⟨-, heq⟩ | ⟨-, heq⟩⟩ <;> rw [heq]
  · exact h
  · refine h.of_fd (List.Subset.refl _) (Nat.le_of_eq (Contexts.length_delete _ _).symm)
      (fun _ => id) fun i _ x' hx' => Or.inr ⟨x', ?_, rfl⟩
    change (c.service.ctxs.delete d.packet.ctx).get i = some x' at hx'
    by_cases hi : i = d.packet.ctx
    · rw [hi, Contexts.get_delete_self] at hx'
      cases hx'
    · rwa [Contexts.get_delete_ne (Ne.symm hi)] at hx'
  · exact h

/-- A call adds at most its own operation, on the socket of its context. -/
theorem Config.OwnSockets.issue (h : c.OwnSockets) {x : OverlapContext}
    (hx : c.service.ctxs.get ctx = some x) (call : AsyncCall) :
    (c.issue ctx call.kind x.fd (CompletionPortService.issue x call)).OwnSockets := by
  have hctxs := Config.issue_ctxs c ctx call.kind x.fd (CompletionPortService.issue x call)
  have hfd : (CompletionPortService.issue x call).ctx.fd = x.fd :=
    congrArg Face.fd (face_issue x call)
  have hold : Config.OwnSockets
      { c with service := { c.service with ctxs := c.service.ctxs.update ctx fun _ =>
        (CompletionPortService.issue x call).ctx } } := by
    refine h.of_update ctx (List.Subset.refl _) rfl rfl fun y hy => ?_
    rw [← Option.some.inj (hx.symm.trans hy), hfd]
  unfold Config.issue
  cases (CompletionPortService.issue x call).outcome with
  | failed err => exact hold
  | done bytes =>
    intro op hop
    rw [Config.post_inflight] at hop
    rw [view_size, Config.post_service, Config.post_freed]
    exact hold op hop
  | pending =>
    intro op hop
    rcases List.mem_append.mp hop with hop | hop
    · exact hold op hop
    · obtain rfl := List.mem_singleton.mp hop
      refine ⟨?_, Or.inr fun y hy => ?_⟩
      · exact lt_of_lt_of_eq (Contexts.lt_length_of_get hx) (Contexts.length_update _ _ _).symm
      · change (c.service.ctxs.update ctx _).get ctx = some y at hy
        rw [Contexts.get_update_self, hx] at hy
        rw [← Option.some.inj hy]
        exact hfd

theorem ownSockets_of_step (h : c.OwnSockets) (hstep : step c e = some c') : c'.OwnSockets := by
  cases effect_of_step hstep with
  | alloced hcall halloc =>
    obtain ⟨hlen, hget, -⟩ := allocOverlapCtx_spec halloc
    exact h.of_fd (List.Subset.refl _) (le_of_le_of_eq (Nat.le_succ _) hlen.symm) (fun _ => id)
      fun i hi x' hx' => Or.inr ⟨x', (hget i hi).symm.trans hx', rfl⟩
  | @freed ctx s calls hcall hfree =>
    obtain ⟨hlen, hget, -⟩ := freeOverlapCtx_spec hfree
    refine h.of_fd (List.Subset.refl _) (Nat.le_of_eq hlen.symm)
      (fun i hi => List.mem_cons_of_mem _ hi) fun i _ x' hx' => ?_
    by_cases hi : i = ctx
    · exact Or.inl (hi ▸ List.mem_cons_self)
    · exact Or.inr ⟨x', (hget i hi).symm.trans hx', rfl⟩
  | assigned hcall hx => exact h.of_update _ (List.Subset.refl _) rfl rfl fun _ _ => rfl
  | issued hcall hx => exact h.issue hx _
  | @completed k status bytes op hop hstatus =>
    refine h.of_update op.1.ctx (fun op' hop' => ?_) (Config.post_freed _ _ _)
      (Config.complete_ctxs _ _ _ _ _) fun _ _ => rfl
    rw [Config.complete, Config.post_inflight] at hop'
    exact List.mem_of_mem_eraseIdx hop'
  | dequeued hctl hqueue =>
    rename_i p queue
    rcases Config.handle_cases { c with queue := queue } p with ⟨-, heq⟩ | ⟨-, -, heq⟩ |
        ⟨x, -, -, ⟨-, heq⟩ | ⟨-, heq⟩⟩ <;> rw [heq]
    · exact h
    · exact h
    · exact h
    · exact Config.OwnSockets.finish (c := { c with queue := queue }) h _
  | resumed hctl => exact h.finish _
  | _ => exact h

/-- **The operations in flight are on the sockets of their contexts.** -/
theorem ownSockets_of_runs {es : List Event} (hrun : runs es = some c) : c.OwnSockets :=
  run_induction (P := fun _ c => c.OwnSockets) (fun _ hop => absurd hop List.not_mem_nil)
    (fun _ _ _ _ _ _ h hstep => ownSockets_of_step h hstep) hrun

end CompletionPortService

end WinsockTut
