import WinsockTut.AsyncEvent.Signalled
import WinsockTut.Echo.Table

/-!
# The echo server on the poller based on `WSAEventSelect`

`HandleEvents` reports all events of a record through the same entry.  When a connection ends in one
of these callbacks, it is deleted, and its entry is retired but keeps its sink.
`sound_iff_endsLast` says when this goes wrong: when the record has an event that is still to be
reported.
-/

namespace WinsockTut

namespace EchoOnAsyncEvent

open EchoServer Runs AsyncEventPoller FirstMatch

/-- The poller, and the server. -/
structure Config where
  io : AsyncEventPoller.Config
  server : EchoServer

/-- One step of a run. -/
inductive Event
  /-- `EchoServer::Start`; `CreateTCPAcceptor` returns `fd`, and `WSACreateEvent` `hEvent`. -/
  | start (fd : Socket) (hEvent : Option Handle)
  /-- A step of `Poll` between callbacks. -/
  | poller (e : AsyncEventPoller.Event)
  /-- The callback of a socket is run, and returns. -/
  | callback (a : Answer) (hEvent : Option Handle)

/-- The steps of `Poll` between callbacks.  Nobody sets a timer. -/
def between : AsyncEventPoller.Event → Bool
  | .poll | .waitFailed | .waitTimeout | .signaled _ | .updated | .enumFailed
  | .enumerated _ => true
  | .timer (.updateTimer _) | .timer .round => true
  | _ => false

/-- A call; only `AddFd` creates an event object. -/
def callEvent (hEvent : Option Handle) (k : Call) : AsyncEventPoller.Event :=
  match k with
  | .addFd _ _ => .call k hEvent
  | _ => .call k none

/-- What a call does to the poller. -/
def perform (hEvent : Option Handle) (p : AsyncEventPoller) (k : Call) : AsyncEventPoller :=
  match k with
  | .addFd _ _ => (p.call hEvent k).1
  | _ => (p.call none k).1

/-- `AddFd` refuses a socket. -/
def refuses (hEvent : Option Handle) (p : AsyncEventPoller) (fd : Socket) (sink : Sink) : Bool :=
  decide ((p.addFd fd sink hEvent).2 < 0)

/-- The callback that was made last. -/
def lastCall (log : List Obs) : Option (FdEntry × NetworkEvent) :=
  match log.getLast? with
  | some (.called x n _) => some (x, n)
  | _ => none

/-- The function of the callback control is in. -/
def body (c : Config) (a : Answer) (hEvent : Option Handle) : Option (EchoServer × List Call) := do
  let (x, n) ← lastCall c.io.log
  let sink ← x.sink
  c.server.respond (refuses hEvent c.io.poller a.accepted (connSink c.server.conns.length)) a sink
    n.direction

/-- One step of the machine; `none` if the event cannot happen in this state, or the code has no
defined behaviour. -/
def step (c : Config) : Event → Option Config
  | .start fd hEvent =>
    match c.io.ctl with
    | .idle => do
      let (server, calls) ← c.server.act (.start fd)
      let io ← run AsyncEventPoller.step c.io (calls.map (callEvent hEvent))
      return ⟨io, server⟩
    | _ => none
  | .poller e =>
    if between e then do
      let io ← AsyncEventPoller.step c.io e
      return { c with io := io }
    else
      none
  | .callback a hEvent =>
    match c.io.ctl with
    | .callback _ _ => do
      let (server, calls) ← body c a hEvent
      let io ← run AsyncEventPoller.step c.io (calls.map (callEvent hEvent) ++ [.callbackReturn])
      return ⟨io, server⟩
    | _ => none

/-- The state after the constructors. -/
def Config.init : Config := ⟨AsyncEventPoller.Config.init, EchoServer.init⟩

/-- The configuration reached by a run from the constructors on. -/
abbrev runs (es : List Event) : Option Config := run step Config.init es

/-- The callback `Poll` is in has a defined behaviour, whatever the system answers. -/
def Config.Sound (c : Config) : Prop :=
  ∀ h rest, c.io.ctl = .callback h rest → ∀ a hEvent, c.server.MayAccept a.accepted →
    FreshHandle c.io hEvent → (step c (.callback a hEvent)).isSome = true

/-- The step is not a callback in which a connection ends while an event of its record has not been
reported. -/
def EndsLast (c : Config) (e : Event) : Prop :=
  ∀ a hEvent, e = .callback a hEvent → ∀ h rest, c.io.ctl = .callback h rest →
    ∀ x n sink, lastCall c.io.log = some (x, n) → x.sink = some sink →
      c.server.ends a sink n.direction = true →
        ∀ m ∈ rest, hasBits h.record.lNetworkEvents m.bit = false

variable {p : AsyncEventPoller} {c c' : Config} {io io' : AsyncEventPoller.Config} {e : Event}
  {es : List Event} {a : Answer} {h : Handling} {rest : List NetworkEvent} {fd : Socket}
  {sink : Sink} {calls : List Call} {s' : EchoServer} {hEvent : Option Handle}

/-! ### The table -/

/-- The table of the poller. -/
def table : Table FdEntry where
  sock x := x.fd
  sink x := x.sink
  retire := retire
  sock_retire _ := rfl

/-- **The calls do to the table what they should.** -/
theorem kept (hEvent : Option Handle) :
    table.Kept (perform hEvent) AsyncEventPoller.fds (refuses hEvent) where
  adds p fd sink := by
    by_cases hfull : p.fds.length ≥ wsaMaximumWaitEvents
    · have hsame : (perform hEvent p (.addFd fd sink)).fds = p.fds := by
        simp [perform, AsyncEventPoller.call, addFd, hfull]
      rw [hsame]
      exact .refused (by simp [refuses, addFd, hfull])
    · cases hEvent with
      | none =>
        have hsame : (perform none p (.addFd fd sink)).fds = p.fds := by
          simp [perform, AsyncEventPoller.call, addFd, hfull]
        rw [hsame]
        exact .refused (by simp [refuses, addFd, hfull])
      | some x =>
        have hadded : (perform (some x) p (.addFd fd sink)).fds =
            p.fds ++ [{ AsyncEntry.new fd sink with hEvent := x }] := by
          simp [perform, AsyncEventPoller.call, addFd, hfull]
        rw [hadded]
        exact .added (by simp [refuses, addFd, hfull]) rfl rfl
  others p k refused hadd := by
    have hsame : ∀ fd f, (∀ x, table.view (f x) = table.view x) →
        (p.updateEntry fd f).fds.map table.view = p.fds.map table.view := by
      intro fd f hf
      rw [updateEntry_fds]
      exact map_modifyFirst_of_same hf
    cases k with
    | addFd fd sink => exact absurd rfl (hadd fd sink)
    | removeFd fd =>
      have hretired : (perform hEvent p (.removeFd fd)).fds = _ := updateEntry_fds p fd retire
      rw [hretired]
      exact .removed
    | setPollIn fd => exact .kept rfl (hsame fd _ fun _ => rfl)
    | resetPollIn fd => exact .kept rfl (hsame fd _ fun _ => rfl)
    | setPollOut fd => exact .kept rfl (hsame fd _ fun _ => rfl)
    | resetPollOut fd => exact .kept rfl (hsame fd _ fun _ => rfl)

/-! ### The calls of the server -/

theorem callEvent_eq (hEvent : Option Handle) (k : Call) :
    ∃ x, callEvent hEvent k = .call k x ∧ (∀ p, perform hEvent p k = (p.call x k).1) ∧
      (x = none ∨ x = hEvent ∧ ∃ fd sink, k = .addFd fd sink) := by
  cases k with
  | addFd fd sink => exact ⟨hEvent, rfl, fun _ => rfl, Or.inr ⟨rfl, fd, sink, rfl⟩⟩
  | _ => exact ⟨none, rfl, fun _ => rfl, Or.inl rfl⟩

theorem stage_afterCall {ctl : Control} (huser : ctl.stage = .user) (k : Call) :
    (ctl.afterCall k).stage = .user := by
  cases ctl with
  | callback h rest => rfl
  | _ => exact huser

/-- What the calls of a function do. -/
theorem of_run_calls
    (hrun : run AsyncEventPoller.step io (calls.map (callEvent hEvent)) = some io') :
    io'.poller = calls.foldl (perform hEvent) io.poller ∧
      io'.ctl = calls.foldl Control.afterCall io.ctl := by
  induction calls generalizing io with
  | nil =>
    obtain rfl := Option.some.inj hrun
    exact ⟨rfl, rfl⟩
  | cons k calls ih =>
    rw [List.map_cons, run_cons, Option.bind_eq_some_iff] at hrun
    obtain ⟨io₁, hstep, hrun⟩ := hrun
    obtain ⟨x, hx, hperform, -⟩ := callEvent_eq hEvent k
    rw [hx] at hstep
    cases effect_of_step hstep with
    | called =>
      obtain ⟨hpoller, hctl⟩ := ih hrun
      rw [List.foldl_cons, List.foldl_cons, hperform]
      exact ⟨hpoller, hctl⟩
    | waited _ hcall => cases hcall

/-- User code has control, so the calls are performed. -/
theorem exists_run_calls (huser : io.ctl.stage = .user) (hfresh : FreshHandle io hEvent)
    (htail : ∀ fd sink, .addFd fd sink ∉ calls.tail) :
    ∃ io', run AsyncEventPoller.step io (calls.map (callEvent hEvent)) = some io' := by
  induction calls generalizing io hEvent with
  | nil => exact ⟨io, rfl⟩
  | cons k calls ih =>
    obtain ⟨x, hx, -, hnew⟩ := callEvent_eq hEvent k
    have hcan : io.ctl.stage.canCall io.timers.ctl = true := by
      rw [huser]
      rfl
    have hok : FreshHandle io x := by
      rcases hnew with rfl | ⟨rfl, -⟩
      · exact nofun
      · exact hfresh
    -- the calls behind the first one create no event object
    have hmap : calls.map (callEvent hEvent) = calls.map (callEvent none) := by
      refine List.map_congr_left fun k' hk' => ?_
      cases k' with
      | addFd fd sink => exact absurd hk' (htail fd sink)
      | _ => rfl
    rw [List.map_cons, run_cons, hx, AsyncEventPoller.step, if_pos ⟨hcan, fun _ => hok⟩,
      Option.bind_some, hmap]
    exact ih (stage_afterCall huser k) nofun fun fd sink hmem =>
      htail fd sink (List.mem_of_mem_tail hmem)

/-- Calls do not lead into `Poll`. -/
theorem idle_calls (calls : List Call) : calls.foldl Control.afterCall .idle = .idle := by
  induction calls with
  | nil => rfl
  | cons k calls ih => exact ih

/-- Calls leave the record of a callback alone. -/
theorem callback_calls (h : Handling) (rest : List NetworkEvent) (calls : List Call) :
    ∃ h', calls.foldl Control.afterCall (.callback h rest) = .callback h' rest ∧ h'.k = h.k ∧
      h'.record = h.record := by
  induction calls generalizing h with
  | nil => exact ⟨h, rfl, rfl, rfl⟩
  | cons k calls ih =>
    obtain ⟨h', hctl, hk, hrecord⟩ :=
      ih { h with removed := h.removed || decide (k = .removeFd h.fd) }
    exact ⟨h', hctl, hk, hrecord⟩

theorem exists_handle {x : FdEntry} (hx : io.poller.fds[h.k]? = some x)
    (ns : List NetworkEvent) : ∃ io', handle io h ns = some io' := by
  obtain ⟨err, hfst⟩ := handleEvents_fst h.record h.k ns io.poller
  unfold handle
  generalize handleEvents h.record h.k ns io.poller = pair at hfst
  obtain ⟨p, next⟩ := pair
  obtain rfl : p = { io.poller with lastErr := err } := hfst
  cases next with
  | none => exact ⟨_, rfl⟩
  | some next => exact ⟨_, by simp [hx]; rfl⟩

/-! ### The invariant -/

/-- The poller has had a run that registers sockets only. -/
structure PollerInv (io : AsyncEventPoller.Config) : Prop where
  handles : HandleInv io
  signals : ∃ es, SignalInv es io

theorem PollerInv.run (h : PollerInv io) (es : List AsyncEventPoller.Event)
    (hok : ∀ e ∈ es, AddsSocket e) (hrun : Runs.run AsyncEventPoller.step io es = some io') :
    PollerInv io' := by
  refine run_induction (P := fun _ => PollerInv) h (fun fs e t u hp _ ih hstep => ?_) hrun
  obtain ⟨gs, hsignals⟩ := ih.signals
  have he : e ∈ es := hp.subset (List.mem_append_right fs (List.mem_singleton_self e))
  exact ⟨ih.handles.step (hok e he) hstep, gs ++ [e], hsignals.step hstep⟩

theorem addsSocket_callEvent {k : Call} (hvalid : k.socket ≠ invalidSocket) :
    AddsSocket (callEvent hEvent k) := by
  intro fd sink x he
  cases k with
  | addFd fd' sink' =>
    obtain ⟨hk, -⟩ := AsyncEventPoller.Event.call.inj he
    obtain ⟨rfl, -⟩ := Call.addFd.inj hk
    exact hvalid
  | _ =>
    obtain ⟨hk, -⟩ := AsyncEventPoller.Event.call.inj he
    cases hk

theorem addsSocket_return : AddsSocket .callbackReturn := by
  intro fd sink x he
  cases he

/-- The callback control is in goes to a registered sink. -/
def Here (io : AsyncEventPoller.Config) : Prop :=
  ∀ h rest, io.ctl = .callback h rest → ∃ x n sink, lastCall io.log = some (x, n) ∧
    io.poller.fds[h.k]? = some x ∧ x.fd ≠ invalidSocket ∧ x.sink = some sink

/-- The server and its poller agree on who is called. -/
structure HostInv (c : Config) : Prop where
  accounts : Accounts c.server
  agrees : Agrees c.server (table.live c.io.poller.fds)
  sinks : table.SinksSet c.io.poller.fds
  poller : PollerInv c.io
  here : Here c.io

/-- Control is in a callback of a connection that has been deleted. -/
def Dangling (c : Config) : Prop :=
  ∃ h rest, c.io.ctl = .callback h rest ∧ ∀ a hEvent, body c a hEvent = none

theorem hostInv_init : HostInv Config.init where
  accounts := accounts_init
  agrees := agrees_init
  sinks _ hx := absurd hx List.not_mem_nil
  poller := ⟨handleInv_init, [], signalInv_init⟩
  here _ _ hctl := nomatch hctl

/-- A step of the poller that leaves the table as it is. -/
theorem HostInv.of_poller (h : HostInv c) (hpoller : PollerInv io)
    (hfds : io.poller.fds = c.io.poller.fds) (hhere : Here io) : HostInv { c with io := io } where
  accounts := h.accounts
  agrees := hfds ▸ h.agrees
  sinks := hfds ▸ h.sinks
  poller := hpoller
  here := hhere

/-- The timers do not lead into a callback. -/
theorem callback_of_afterTimer {ctl : Control} {e : TimerSched.Event}
    (hctl : ctl.afterTimer e = .callback h rest) : ctl = .callback h rest := by
  cases ctl with
  | update n => cases he : entersUpdate e <;> simp [Control.afterTimer, he] at hctl
  | _ => exact hctl

/-- `HandleEvents` goes on with an entry that has not been retired, or returns. -/
theorem here_of_handle {ns : List NetworkEvent} {x : FdEntry} (hx : io.poller.fds[h.k]? = some x)
    (hfd : x.fd ≠ invalidSocket) (hsink : x.sink = some sink) (hnext : handle io h ns = some io') :
    io'.poller.fds = io.poller.fds ∧ Here io' := by
  obtain ⟨err, ⟨-, rfl⟩ | ⟨n, rest, -, rfl⟩⟩ := handle_cases hx hnext
  · exact ⟨rfl, nofun⟩
  · refine ⟨rfl, fun h' rest' hctl => ?_⟩
    obtain ⟨rfl, -⟩ := Control.callback.inj hctl
    exact ⟨x, n, sink, by simp [lastCall], hx, hfd, hsink⟩

/-- The entry of a socket that has not been retired has a sink. -/
theorem HostInv.exists_sink (h : HostInv c) {x : FdEntry} (hx : x ∈ c.io.poller.fds)
    (hfd : x.fd ≠ invalidSocket) : ∃ sink, x.sink = some sink :=
  Option.ne_none_iff_exists'.mp fun hnone => hfd (h.sinks x hx hnone)

theorem HostInv.pollerStep (h : HostInv c) {e : AsyncEventPoller.Event} (he : between e = true)
    (hstep : AsyncEventPoller.step c.io e = some io) : HostInv { c with io := io } := by
  have hpoller : PollerInv io := by
    refine h.poller.run [e] (fun e' he' => ?_) (by simp [hstep])
    obtain rfl := List.mem_singleton.mp he'
    cases e' with
    | call => cases he
    | _ => exact nofun
  cases effect_of_step hstep with
  | called => cases he
  | ticked =>
    exact h.of_poller hpoller rfl fun h' rest hctl =>
      h.here h' rest (callback_of_afterTimer hctl)
  | polled =>
    refine h.of_poller hpoller rfl fun h' rest hctl => ?_
    by_cases hne : c.io.poller.collectEvents.events ≠ []
    · simp [hne] at hctl
    · simp [hne] at hctl
  | waited => exact h.of_poller hpoller rfl nofun
  | updated hctl hnext =>
    rcases afterUpdate_cases hnext with ⟨-, rfl⟩ | ⟨-, ⟨-, rfl⟩ |
        ⟨x, -, -, ⟨-, rfl⟩ | ⟨k, -, rfl⟩⟩⟩
    · have hlive : table.live c.io.poller.removeRetired.fds = table.live c.io.poller.fds := by
        unfold removeRetired
        split
        · exact Table.live_filter
        · rfl
      refine ⟨h.accounts, hlive ▸ h.agrees, fun x hx hnone => h.sinks x ?_ hnone, hpoller, nofun⟩
      change x ∈ c.io.poller.removeRetired.fds at hx
      unfold removeRetired at hx
      split at hx
      · exact List.mem_of_mem_filter hx
      · exact hx
    · exact h.of_poller hpoller rfl nofun
    · exact h.of_poller hpoller rfl nofun
    · exact h.of_poller hpoller rfl nofun
  | failed => exact h.of_poller hpoller rfl nofun
  | @enumerated k record x io hctl hx hnext =>
    obtain ⟨gs, hsignals⟩ := h.poller.signals
    -- the record is that of a live entry
    obtain ⟨-, -, y, -, -, hy, hfd, -⟩ := hsignals.dispatchesOwner h.poller.handles k hctl
    obtain rfl := Option.some.inj (hx.symm.trans hy)
    obtain ⟨sink, hsink⟩ := h.exists_sink (List.mem_of_getElem? hx) hfd
    obtain ⟨hfds, hhere⟩ := here_of_handle (h := ⟨k, x.fd, record, false⟩) hx hfd hsink hnext
    exact h.of_poller hpoller hfds hhere
  | resumed => cases he

theorem HostInv.start (h : HostInv c) (hstep : step c (.start fd hEvent) = some c') :
    HostInv c' := by
  cases hctl : c.io.ctl with
  | idle =>
    simp only [step, hctl, Option.bind_eq_bind, Option.bind_eq_some_iff] at hstep
    obtain ⟨⟨s', calls⟩, hact, io, hrun, hc'⟩ := hstep
    obtain rfl := Option.some.inj hc'
    obtain ⟨hpoller, hidle⟩ := of_run_calls hrun
    have heff := h.accounts.effect hact
    have hperf := (kept hEvent).performs (p := c.io.poller) heff.tail fun fd' sink hmem => by
      rcases heff.adds hmem with ⟨he, rfl⟩ | ⟨refused, a, he, -⟩
      · obtain rfl := EchoServer.Event.start.inj he
        rfl
      · cases he
    rw [← hpoller] at hperf
    refine ⟨h.accounts.step heff, ?_, hperf.sinksSet h.sinks, h.poller.run _ (fun e he => ?_) hrun,
      fun h' rest hc => ?_⟩
    · change Agrees s' (table.live io.poller.fds)
      rw [hperf.live heff.valid h.sinks]
      exact h.agrees.step h.accounts heff fun _ _ he => nomatch he
    · obtain ⟨k, hk, rfl⟩ := List.mem_map.mp he
      exact addsSocket_callEvent (heff.valid k hk)
    · rw [hctl, idle_calls] at hidle
      cases hidle.symm.trans hc
  | _ => simp [step, hctl] at hstep

/-! ### The callbacks -/

theorem body_eq {x : FdEntry} {n : NetworkEvent} (hlast : lastCall c.io.log = some (x, n))
    (hsink : x.sink = some sink) (a : Answer) (hEvent : Option Handle) : body c a hEvent =
      c.server.respond (refuses hEvent c.io.poller a.accepted (connSink c.server.conns.length)) a
        sink n.direction := by
  simp [body, hlast, hsink]

/-- A callback returns after the calls of its function. -/
theorem of_step_callback (hctl : c.io.ctl = .callback h rest)
    (hstep : step c (.callback a hEvent) = some c') :
    ∃ calls io, body c a hEvent = some (c'.server, calls) ∧
      run AsyncEventPoller.step c.io (calls.map (callEvent hEvent)) = some io ∧
      AsyncEventPoller.step io .callbackReturn = some c'.io := by
  simp only [step, hctl, Option.bind_eq_bind, Option.bind_eq_some_iff] at hstep
  obtain ⟨⟨s', calls⟩, hbody, io', hrun, hc'⟩ := hstep
  obtain rfl := Option.some.inj hc'
  obtain ⟨io, hcalls, hreturn⟩ := exists_of_run_append_singleton hrun
  exact ⟨calls, io, hbody, hcalls, hreturn⟩

/-- What a callback leaves before `HandleEvents` goes on. -/
theorem HostInv.answered (hc : HostInv c) {x : FdEntry} {n : NetworkEvent} {i : ℕ}
    (hlast : lastCall c.io.log = some (x, n)) (hx : c.io.poller.fds[i]? = some x)
    (hfd : x.fd ≠ invalidSocket) (hsink : x.sink = some sink)
    (hbody : body c a hEvent = some (s', calls))
    (hrun : run AsyncEventPoller.step c.io (calls.map (callEvent hEvent)) = some io) :
    Accounts s' ∧ Agrees s' (table.live io.poller.fds) ∧ table.SinksSet io.poller.fds ∧
      PollerInv io ∧ Settled table c.server s' a sink n.direction x io.poller.fds[i]? := by
  have hresp := (body_eq hlast hsink a hEvent).symm.trans hbody
  have hr : (x.fd, sink) ∈ table.live c.io.poller.fds :=
    Table.mem_live.mpr ⟨hfd, x, List.mem_of_getElem? hx, Prod.ext rfl hsink⟩
  have hresponded := hc.agrees.responded hc.accounts hr hresp
  have hperf := (kept hEvent).performs (p := c.io.poller) hresponded.tail fun fd' sink' hmem => by
    obtain ⟨rfl, rfl⟩ := hresponded.adds fd' sink' hmem
    rfl
  rw [← (of_run_calls hrun).1] at hperf
  obtain ⟨haccounts, hagrees, hsinks, hsettled⟩ :=
    hc.agrees.answered hc.accounts hc.sinks hx (Prod.ext rfl hsink) hfd hresp hperf
  refine ⟨haccounts, hagrees, hsinks, hc.poller.run _ (fun e he => ?_) hrun, hsettled⟩
  obtain ⟨k, hk, rfl⟩ := List.mem_map.mp he
  exact addsSocket_callEvent (hresponded.valid k hk)

/-- **What a callback does.**  It keeps the invariant, or leads into a callback of a deleted
connection. -/
theorem HostInv.callback (hc : HostInv c) (hctl : c.io.ctl = .callback h rest)
    (hstep : step c (.callback a hEvent) = some c') :
    HostInv c' ∧ EndsLast c (.callback a hEvent) ∨
      Dangling c' ∧ ¬ EndsLast c (.callback a hEvent) := by
  obtain ⟨x, n, sink, hlast, hx, hfd, hsink⟩ := hc.here h rest hctl
  obtain ⟨calls, io, hbody, hrun, hreturn⟩ := of_step_callback hctl hstep
  obtain ⟨haccounts, hagrees, hsinks, hpoller, hsettled⟩ :=
    hc.answered hlast hx hfd hsink hbody hrun
  -- what the condition is about
  have hlate : EndsLast c (.callback a hEvent) ↔ (c.server.ends a sink n.direction = true →
      ∀ m ∈ rest, hasBits h.record.lNetworkEvents m.bit = false) := by
    constructor
    · intro hends
      exact hends a hEvent rfl h rest hctl x n sink hlast hsink
    · intro hends a' hEvent' he h' rest' hctl' x' n' sink' hlast' hsink' htrue
      obtain ⟨rfl, -⟩ := Event.callback.inj he
      obtain ⟨rfl, rfl⟩ := Control.callback.inj (hctl.symm.trans hctl')
      obtain ⟨rfl, rfl⟩ := Prod.mk.inj (Option.some.inj (hlast.symm.trans hlast'))
      obtain rfl := Option.some.inj (hsink.symm.trans hsink')
      exact hends htrue
  obtain ⟨h', hctl', hk, hrecord⟩ := callback_calls h rest calls
  have hnow : io.ctl = .callback h' rest := by
    rw [(of_run_calls hrun).2, hctl, hctl']
  have hnext : handle io h' rest = some c'.io := by
    simpa [AsyncEventPoller.step, hnow] using hreturn
  have hpoller' : PollerInv c'.io :=
    hpoller.run [.callbackReturn] (fun e he => List.mem_singleton.mp he ▸ addsSocket_return)
      (by simp [hreturn])
  rw [← hk] at hsettled
  rw [hlate]
  rcases hsettled with ⟨hstays, y, hy, hview⟩ | ⟨hends, hy, hgone⟩
  · obtain ⟨hsock, hsink'⟩ := Prod.mk.inj hview
    have hyfd : y.fd ≠ invalidSocket := fun heq => hfd (hsock.symm.trans heq)
    obtain ⟨hfds, hhere⟩ := here_of_handle hy hyfd (hsink'.trans hsink) hnext
    refine Or.inl ⟨⟨haccounts, hfds ▸ hagrees, hfds ▸ hsinks, hpoller', hhere⟩, fun hends => ?_⟩
    cases hstays.symm.trans hends
  · obtain ⟨err, ⟨hnone, hc'⟩ | ⟨m, rest', hsome, hc'⟩⟩ := handle_cases hy hnext
    · refine Or.inl ⟨⟨haccounts, ?_, ?_, hpoller', ?_⟩, fun _ => ?_⟩
      · rw [hc']
        exact hagrees
      · rw [hc']
        exact hsinks
      · rw [hc']
        intro h'' rest'' hctl''
        cases hctl''
      · rw [← hrecord]
        exact nextEvent_eq_none.mp hnone
    · refine Or.inr ⟨⟨h', rest', by rw [hc'], fun a' hEvent' => ?_⟩, fun hall => ?_⟩
      · have hlast' : lastCall c'.io.log = some (retire x, m) := by
          rw [hc']
          simp [lastCall, table]
        rw [body_eq hlast' hsink]
        exact hgone _ a' _
      · rw [← hrecord] at hall
        rw [nextEvent_eq_none.mpr (hall hends)] at hsome
        cases hsome

/-! ### Runs -/

theorem HostInv.sound (hc : HostInv c) : c.Sound := by
  intro h rest hctl a hEvent hmay hfresh
  obtain ⟨x, n, sink, hlast, hx, hfd, hsink⟩ := hc.here h rest hctl
  have hr : (x.fd, sink) ∈ table.live c.io.poller.fds :=
    Table.mem_live.mpr ⟨hfd, x, List.mem_of_getElem? hx, Prod.ext rfl hsink⟩
  have hdefined := hc.agrees.respond_defined hc.accounts hr hmay
    (refuses hEvent c.io.poller a.accepted (connSink c.server.conns.length)) n.direction
  obtain ⟨⟨s', calls⟩, hresp⟩ := Option.isSome_iff_exists.mp hdefined
  have hresponded := hc.agrees.responded hc.accounts hr hresp
  have hbody := (body_eq hlast hsink a hEvent).trans hresp
  have huser : c.io.ctl.stage = .user := by
    rw [hctl]
    rfl
  obtain ⟨io, hrun⟩ := exists_run_calls huser hfresh hresponded.tail
  obtain ⟨-, -, -, -, hsettled⟩ := hc.answered hlast hx hfd hsink hbody hrun
  obtain ⟨h', hctl', hk, -⟩ := callback_calls h rest calls
  have hnow : io.ctl = .callback h' rest := by
    rw [(of_run_calls hrun).2, hctl, hctl']
  obtain ⟨y, hy⟩ : ∃ y, io.poller.fds[h'.k]? = some y := by
    rw [hk]
    rcases hsettled with ⟨-, y, hy, -⟩ | ⟨-, hy, -⟩
    · exact ⟨y, hy⟩
    · exact ⟨_, hy⟩
  obtain ⟨io', hnext⟩ := exists_handle hy rest
  have hreturn : AsyncEventPoller.step io .callbackReturn = some io' := by
    simpa [AsyncEventPoller.step, hnow] using hnext
  have hall : run AsyncEventPoller.step c.io (calls.map (callEvent hEvent) ++ [.callbackReturn]) =
      some io' := by
    rw [run_append_singleton, hrun, Option.bind_some, hreturn]
  simp [step, hctl, hbody, hall]

/-- A callback of a deleted connection has no defined behaviour. -/
theorem Dangling.not_sound (hc : Dangling c) : ¬ c.Sound := by
  obtain ⟨h, rest, hctl, hnone⟩ := hc
  intro hsound
  have hdefined := hsound h rest hctl ⟨invalidSocket, 0, 0⟩ none (Or.inl rfl) nofun
  simp [step, hctl, hnone] at hdefined

/-- **What a step does**: it keeps the invariant, or leads into a callback of a deleted
connection. -/
theorem HostInv.step (hc : HostInv c) (hstep : EchoOnAsyncEvent.step c e = some c') :
    HostInv c' ∧ EndsLast c e ∨ Dangling c' ∧ ¬ EndsLast c e := by
  cases e with
  | start fd hEvent => exact Or.inl ⟨hc.start hstep, fun _ _ he => nomatch he⟩
  | poller e =>
    simp only [EchoOnAsyncEvent.step, Option.ite_none_right_eq_some, Option.bind_eq_bind,
      Option.bind_eq_some_iff] at hstep
    obtain ⟨he, io, hio, hc'⟩ := hstep
    obtain rfl := Option.some.inj hc'
    exact Or.inl ⟨hc.pollerStep he hio, fun _ _ he => nomatch he⟩
  | callback a hEvent =>
    cases hctl : c.io.ctl with
    | callback h rest => exact hc.callback hctl hstep
    | _ => simp [EchoOnAsyncEvent.step, hctl] at hstep

/-- **The echo server on the poller based on `WSAEventSelect`** never uses a deleted connection,
exactly if no connection ends in a callback while its record has an event that is still to be
reported.  If one does, that event is reported through the sink of the deleted connection: this is
`Dangling`, the second case of `HostInv.callback`. -/
theorem sound_iff_endsLast (hrun : runs es = some c) :
    Throughout step Config.init es (fun _ => Config.Sound) ↔
      EachStep step Config.init es fun _ => EndsLast := by
  refine throughout_iff_eachStep (P := fun _ => HostInv) hostInv_init (fun _ _ _ _ h => h.sound)
    (fun fs e t u _ _ h hlast hstep => ?_) (fun fs e t u _ _ h hleft hstep => ?_) hrun
  · rcases h.step hstep with ⟨hinv, -⟩ | ⟨-, hleft⟩
    · exact hinv
    · exact absurd hlast hleft
  · rcases h.step hstep with ⟨-, hlast⟩ | ⟨hdangling, -⟩
    · exact absurd hlast hleft
    · exact hdangling.not_sound

/-- A record with these events. -/
def recordOf (l : BitVec 32) : NetworkEvents := ⟨l, fun _ => 0⟩

/-- A connection is accepted, and is closed when it is readable for the first time; but its record
also says that it is writable. -/
def endsEarly : List Event :=
  [.start 3 (some 1), .poller .poll, .poller (.signaled 0), .poller (.timer (.updateTimer 0)),
    .poller (.timer .round), .poller .updated, .poller (.enumerated (recordOf fdAccept)),
    .callback ⟨7, 0, 0⟩ (some 2), .poller .poll, .poller (.signaled 1),
    .poller (.timer (.updateTimer 0)), .poller (.timer .round), .poller .updated,
    .poller (.enumerated (recordOf (fdRead ||| fdWrite))), .callback ⟨invalidSocket, -1, 0⟩ none]

/-- Control is in a callback. -/
def inCallback : Control → Bool
  | .callback _ _ => true
  | _ => false

theorem sound_endsEarly : ∃ c, runs endsEarly = some c ∧ c.server.conns = [none] ∧
    ¬ EachStep step Config.init endsEarly fun _ => EndsLast := by
  have hstate : (runs endsEarly).map (fun c => (c.server.conns, inCallback c.io.ctl,
      (step c (.callback ⟨invalidSocket, 0, 0⟩ none)).isSome)) = some ([none], true, false) := by
    decide +kernel
  obtain ⟨c, hc, hfacts⟩ := Option.map_eq_some_iff.mp hstate
  simp only [Prod.mk.injEq] at hfacts
  obtain ⟨hconns, hin, hundefined⟩ := hfacts
  refine ⟨c, hc, hconns, fun hlast => ?_⟩
  have hsound := (sound_iff_endsLast hc).mpr hlast endsEarly c List.prefix_rfl hc
  cases hctl : c.io.ctl with
  | callback h rest =>
    have hdefined := hsound h rest hctl ⟨invalidSocket, 0, 0⟩ none (Or.inl rfl) nofun
    rw [hundefined] at hdefined
    cases hdefined
  | _ => simp [inCallback, hctl] at hin

end EchoOnAsyncEvent

end WinsockTut
