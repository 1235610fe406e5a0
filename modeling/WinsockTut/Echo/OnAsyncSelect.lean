import WinsockTut.AsyncSelect.Ends
import WinsockTut.AsyncSelect.Readiness
import WinsockTut.Echo.Table

/-!
# The echo server on the poller based on `WSAAsyncSelect`

`HandleEvent` looks for the socket of each message, so a message for a connection that has ended
does not find an entry, or finds the one of a new connection.  `sound_of_runs` says that the echo
server can be driven by this poller: no callback ever goes to a deleted connection.
-/

namespace WinsockTut

namespace EchoOnAsyncSelect

open EchoServer Runs AsyncSelectPoller FirstMatch

/-- The poller, and the server. -/
structure Config where
  io : AsyncSelectPoller.Config
  server : EchoServer

/-- One step of a run. -/
inductive Event
  /-- `EchoServer::Start`; `CreateTCPAcceptor` returns `fd`. -/
  | start (fd : Socket)
  /-- A step of `Poll` between callbacks, or a message is posted. -/
  | poller (e : AsyncSelectPoller.Event)
  /-- The callback of a socket is run, and returns. -/
  | callback (a : Answer)
  deriving DecidableEq, Repr

/-- The steps of `Poll` between callbacks, and messages for sockets.  Nobody sets a timer. -/
def between : AsyncSelectPoller.Event → Bool
  | .post (.socket fd _ _) => decide (fd ≠ invalidSocket)
  | .post .other | .poll | .peek | .finish => true
  | .timer (.updateTimer _) | .timer .round => true
  | _ => false

/-- `AddFd` refuses a socket. -/
def refuses (p : AsyncSelectPoller) (fd : Socket) (sink : Sink) : Bool :=
  decide ((p.addFd fd sink).2 < 0)

/-- The callback that was made last. -/
def lastCall (log : List Obs) : Option (AsyncEntry × Direction) :=
  match log.getLast? with
  | some (.called x d) => some (x, d)
  | _ => none

/-- The function of the callback control is in. -/
def body (c : Config) (a : Answer) : Option (EchoServer × List Call) := do
  let (x, d) ← lastCall c.io.log
  let sink ← x.sink
  c.server.respond (refuses c.io.poller a.accepted (connSink c.server.conns.length)) a sink d

/-- One step of the machine; `none` if the event cannot happen in this state, or the code has no
defined behaviour. -/
def step (c : Config) : Event → Option Config
  | .start fd =>
    if c.io.ctl = .idle then do
      let (server, calls) ← c.server.act (.start fd)
      let io ← run AsyncSelectPoller.step c.io (calls.map .call)
      return ⟨io, server⟩
    else
      none
  | .poller e =>
    if between e then do
      let io ← AsyncSelectPoller.step c.io e
      return { c with io := io }
    else
      none
  | .callback a =>
    match c.io.ctl with
    | .callback _ => do
      let (server, calls) ← body c a
      let io ← run AsyncSelectPoller.step c.io (calls.map .call ++ [.callbackReturn])
      return ⟨io, server⟩
    | _ => none

/-- The state after the constructors. -/
def Config.init : Config := ⟨AsyncSelectPoller.Config.init, EchoServer.init⟩

/-- The configuration reached by a run from the constructors on. -/
abbrev runs (es : List Event) : Option Config := run step Config.init es

/-- The callback `Poll` is in has a defined behaviour, whatever the system answers. -/
def Config.Sound (c : Config) : Prop :=
  ∀ count, c.io.ctl = .callback count → ∀ a, c.server.MayAccept a.accepted →
    (step c (.callback a)).isSome = true

variable {p : AsyncSelectPoller} {c c' : Config} {e : Event} {es : List Event} {a : Answer}
  {d : Direction} {count : ℕ} {fd : Socket} {sink : Sink} {calls : List Call} {s' : EchoServer}

/-! ### The table -/

/-- The table of the poller. -/
def table : Table AsyncEntry where
  sock := AsyncEntry.fd
  sink := AsyncEntry.sink
  retire := retire
  sock_retire _ := rfl

/-- **The calls do to the table what they should.** -/
theorem kept : table.Kept (fun p k => (p.call k).1) AsyncSelectPoller.fds refuses where
  adds p fd sink := by
    by_cases hfull : p.fds.length ≥ fdSetSize
    · have hsame : (p.call (.addFd fd sink)).1.fds = p.fds := by
        simp [AsyncSelectPoller.call, addFd, hfull]
      rw [hsame]
      exact .refused (by simp [refuses, addFd, hfull])
    · have hadded : (p.call (.addFd fd sink)).1.fds = p.fds ++ [AsyncEntry.new fd sink] := by
        simp [AsyncSelectPoller.call, addFd, hfull]
      rw [hadded]
      exact .added (by simp [refuses, addFd, hfull]) rfl rfl
  others p k refused hadd := by
    have hsame : ∀ fd f, (∀ x, table.view (f x) = table.view x) →
        (p.updateEntry fd f).fds.map table.view = p.fds.map table.view := by
      intro fd f hf
      rw [updateEntry_fds]
      exact map_modifyFirst_of_same hf
    cases k with
    | addFd fd sink => exact absurd rfl (hadd fd sink)
    | removeFd fd =>
      have hretired : (p.call (.removeFd fd)).1.fds = _ := updateEntry_fds p fd retire
      rw [hretired]
      exact .removed
    | setPollIn fd => exact .kept rfl (hsame fd _ fun _ => rfl)
    | resetPollIn fd => exact .kept rfl (hsame fd _ fun _ => rfl)
    | setPollOut fd => exact .kept rfl (hsame fd _ fun _ => rfl)
    | resetPollOut fd => exact .kept rfl (hsame fd _ fun _ => rfl)

/-- The timers do not lead into a callback. -/
theorem callback_of_afterTimer {ctl : Control} {e : TimerSched.Event}
    (h : ctl.afterTimer e = .callback count) : ctl = .callback count := by
  cases ctl with
  | update n => cases he : entersUpdate e <;> simp [Control.afterTimer, he] at h
  | _ => exact h

/-- User code has control, so the calls of the server are performed one after the other. -/
theorem run_calls {io : AsyncSelectPoller.Config} (huser : io.ctl.stage = .user)
    (calls : List Call) : ∃ ops, run AsyncSelectPoller.step io (calls.map .call) =
      some { io with poller := calls.foldl (fun p k => (p.call k).1) io.poller, ops := ops } := by
  induction calls generalizing io with
  | nil => exact ⟨io.ops, rfl⟩
  | cons k calls ih =>
    have hcan : io.ctl.stage.canCall io.timers.ctl = true := by
      rw [huser]
      rfl
    rw [List.map_cons, run_cons, AsyncSelectPoller.step, if_pos hcan, Option.bind_some]
    exact ih huser

/-! ### The invariant -/

/-- The callback control is in goes to a registered sink. -/
def Here (io : AsyncSelectPoller.Config) : Prop :=
  ∀ count, io.ctl = .callback count → ∃ x d sink, lastCall io.log = some (x, d) ∧
    x ∈ io.poller.fds ∧ x.fd ≠ invalidSocket ∧ x.sink = some sink

/-- The server and its poller agree on who is called. -/
structure HostInv (c : Config) : Prop where
  accounts : Accounts c.server
  agrees : Agrees c.server (table.live c.io.poller.fds)
  sinks : table.SinksSet c.io.poller.fds
  queue : ∀ fd ev ec, .socket fd ev ec ∈ c.io.queue → fd ≠ invalidSocket
  here : Here c.io

theorem hostInv_init : HostInv Config.init where
  accounts := accounts_init
  agrees := agrees_init
  sinks _ hx := absurd hx List.not_mem_nil
  queue _ _ _ hm := absurd hm List.not_mem_nil
  here _ hctl := nomatch hctl

/-- A step of the poller that leaves the table as it is. -/
theorem HostInv.of_poller (h : HostInv c) {io : AsyncSelectPoller.Config}
    (hfds : io.poller.fds = c.io.poller.fds)
    (hqueue : ∀ fd ev ec, .socket fd ev ec ∈ io.queue → fd ≠ invalidSocket)
    (hhere : Here io) : HostInv { c with io := io } where
  accounts := h.accounts
  agrees := hfds ▸ h.agrees
  sinks := hfds ▸ h.sinks
  queue := hqueue
  here := hhere

theorem HostInv.poller (h : HostInv c) {e : AsyncSelectPoller.Event} (he : between e = true)
    {io : AsyncSelectPoller.Config} (hstep : AsyncSelectPoller.step c.io e = some io) :
    HostInv { c with io := io } := by
  cases effect_of_step hstep with
  | called => cases he
  | @ticked e timers =>
    refine h.of_poller rfl h.queue fun count hctl => h.here count ?_
    exact callback_of_afterTimer hctl
  | @posted m =>
    refine h.of_poller rfl (fun fd ev ec hmem => ?_) h.here
    rcases List.mem_append.mp hmem with hmem | hmem
    · exact h.queue fd ev ec hmem
    · obtain rfl := List.mem_singleton.mp hmem
      simpa [between] using he
  | polled hctl => exact h.of_poller rfl h.queue nofun
  | drained hctl hqueue => exact h.of_poller rfl h.queue nofun
  | @skipped count queue hctl hqueue =>
    refine h.of_poller rfl (fun fd ev ec hmem => ?_) h.here
    exact h.queue fd ev ec (hqueue ▸ List.mem_cons_of_mem _ hmem)
  | @ignored count fd ev ec queue hctl hqueue =>
    refine h.of_poller rfl (fun fd ev ec hmem => ?_) nofun
    exact h.queue fd ev ec (hqueue ▸ List.mem_cons_of_mem _ hmem)
  | @handled count fd ev ec queue x d hctl hqueue hsome =>
    refine h.of_poller rfl (fun fd ev ec hmem => ?_) fun count' _ => ?_
    · exact h.queue fd ev ec (hqueue ▸ List.mem_cons_of_mem _ hmem)
    · obtain ⟨i, hfind, hx, -⟩ := of_handleEvent hsome
      obtain ⟨hlt, hsock, -⟩ := List.findIdx?_eq_some_iff_getElem.mp hfind
      obtain ⟨-, rfl⟩ := List.getElem?_eq_some_iff.mp hx
      have hmem : c.io.poller.fds[i] ∈ c.io.poller.fds := List.getElem_mem hlt
      have hfd : c.io.poller.fds[i].fd ≠ invalidSocket := by
        rw [of_decide_eq_true hsock]
        exact h.queue fd ev ec (hqueue ▸ List.mem_cons_self)
      obtain ⟨sink, hsink⟩ : ∃ sink, c.io.poller.fds[i].sink = some sink :=
        Option.ne_none_iff_exists'.mp fun hnone => hfd (h.sinks _ hmem hnone)
      exact ⟨_, d, sink, by simp [lastCall], hmem, hfd, hsink⟩
  | resumed hctl => cases he
  | finished hctl =>
    have hfds := (removeRetired_eq c.io.poller).1
    have hlive : table.live c.io.poller.removeRetired.fds = table.live c.io.poller.fds := by
      rw [hfds]
      split
      · exact Table.live_filter
      · rfl
    refine ⟨h.accounts, hlive ▸ h.agrees, fun x hx hnone => h.sinks x ?_ hnone, h.queue, nofun⟩
    change x ∈ c.io.poller.removeRetired.fds at hx
    rw [hfds] at hx
    split at hx
    · exact List.mem_of_mem_filter hx
    · exact hx

theorem HostInv.start (h : HostInv c) (hstep : step c (.start fd) = some c') : HostInv c' := by
  simp only [step, Option.ite_none_right_eq_some, Option.bind_eq_bind,
    Option.bind_eq_some_iff] at hstep
  obtain ⟨hctl, ⟨s', calls⟩, hact, io, hrun, hc'⟩ := hstep
  obtain rfl := Option.some.inj hc'
  have hstage : c.io.ctl.stage = .user := by
    rw [hctl]
    rfl
  obtain ⟨ops, hcalls⟩ := run_calls hstage calls
  obtain rfl := Option.some.inj (hcalls.symm.trans hrun)
  have heff := h.accounts.effect hact
  have hperf := kept.performs (p := c.io.poller) heff.tail fun fd' sink hmem => by
    rcases heff.adds hmem with ⟨he, rfl⟩ | ⟨refused, a, he, -⟩
    · obtain rfl := EchoServer.Event.start.inj he
      rfl
    · cases he
  refine ⟨h.accounts.step heff, ?_, hperf.sinksSet h.sinks, h.queue, fun count hc => ?_⟩
  · rw [hperf.live heff.valid h.sinks]
    exact h.agrees.step h.accounts heff fun _ _ he => nomatch he
  · cases hctl.symm.trans hc

/-! ### The callbacks -/

/-- A callback returns after the calls of its function. -/
theorem step_callback (hctl : c.io.ctl = .callback count) (hbody : body c a = some (s', calls)) :
    ∃ ops, step c (.callback a) =
      some ⟨{ c.io with poller := calls.foldl (fun p k => (p.call k).1) c.io.poller
                        ctl := .polling (count + 1), ops := ops }, s'⟩ := by
  have hstage : c.io.ctl.stage = .user := by
    rw [hctl]
    rfl
  obtain ⟨ops, hcalls⟩ := run_calls hstage calls
  refine ⟨ops, ?_⟩
  have hreturn : run AsyncSelectPoller.step c.io (calls.map .call ++ [.callbackReturn]) =
      some { c.io with poller := calls.foldl (fun p k => (p.call k).1) c.io.poller
                       ctl := .polling (count + 1), ops := ops } := by
    rw [run_append_singleton, hcalls, Option.bind_some, AsyncSelectPoller.step]
    simp only [hctl]
  simp only [step, hctl, hbody, Option.bind_eq_bind, Option.bind_some, hreturn]
  rfl

/-- **What a callback does.** -/
theorem HostInv.callback (h : HostInv c) (hctl : c.io.ctl = .callback count)
    (hbody : body c a = some (s', calls)) (hstep : step c (.callback a) = some c') :
    HostInv c' := by
  obtain ⟨x, d, sink, hlast, hmem, hfd, hsink⟩ := h.here count hctl
  obtain ⟨ops, hstep'⟩ := step_callback hctl hbody
  obtain rfl := Option.some.inj (hstep'.symm.trans hstep)
  have hresp : c.server.respond (refuses c.io.poller a.accepted (connSink c.server.conns.length)) a
      sink d = some (s', calls) := by
    simpa [body, hlast, hsink] using hbody
  have hr : (x.fd, sink) ∈ table.live c.io.poller.fds :=
    Table.mem_live.mpr ⟨hfd, x, hmem, Prod.ext rfl hsink⟩
  have hresponded := h.agrees.responded h.accounts hr hresp
  have hperf := kept.performs (p := c.io.poller) hresponded.tail fun fd' sink' hmem => by
    obtain ⟨rfl, rfl⟩ := hresponded.adds fd' sink' hmem
    rfl
  obtain ⟨i, hi⟩ := List.mem_iff_getElem?.mp hmem
  obtain ⟨haccounts, hagrees, hsinks, -⟩ :=
    h.agrees.answered h.accounts h.sinks hi (Prod.ext rfl hsink) hfd hresp hperf
  exact ⟨haccounts, hagrees, hsinks, h.queue, nofun⟩

/-! ### Runs -/

theorem HostInv.sound (h : HostInv c) : c.Sound := by
  intro count hctl a hmay
  obtain ⟨x, d, sink, hlast, hmem, hfd, hsink⟩ := h.here count hctl
  have hr : (x.fd, sink) ∈ table.live c.io.poller.fds :=
    Table.mem_live.mpr ⟨hfd, x, hmem, Prod.ext rfl hsink⟩
  have hdefined := h.agrees.respond_defined h.accounts hr hmay
    (refuses c.io.poller a.accepted (connSink c.server.conns.length)) d
  obtain ⟨⟨s', calls⟩, hresp⟩ := Option.isSome_iff_exists.mp hdefined
  have hbody : body c a = some (s', calls) := by
    simpa [body, hlast, hsink] using hresp
  obtain ⟨ops, hstep⟩ := step_callback hctl hbody
  rw [hstep]
  rfl

theorem HostInv.step (h : HostInv c) (hstep : EchoOnAsyncSelect.step c e = some c') :
    HostInv c' := by
  cases e with
  | start fd => exact h.start hstep
  | poller e =>
    simp only [EchoOnAsyncSelect.step, Option.ite_none_right_eq_some, Option.bind_eq_bind,
      Option.bind_eq_some_iff] at hstep
    obtain ⟨he, io, hio, hc'⟩ := hstep
    obtain rfl := Option.some.inj hc'
    exact h.poller he hio
  | callback a =>
    cases hctl : c.io.ctl with
    | callback count =>
      have hdefined := hstep
      simp only [EchoOnAsyncSelect.step, hctl, Option.bind_eq_bind,
        Option.bind_eq_some_iff] at hdefined
      obtain ⟨⟨s', calls⟩, hbody, -⟩ := hdefined
      exact h.callback hctl hbody hstep
    | _ => simp [EchoOnAsyncSelect.step, hctl] at hstep

/-- **The echo server on the poller based on `WSAAsyncSelect`** never uses a deleted connection, in
any run: every callback has a defined behaviour. -/
theorem sound_of_runs (hrun : runs es = some c) : c.Sound :=
  (run_induction (P := fun _ => HostInv) hostInv_init (fun _ _ _ _ _ _ h hstep => h.step hstep)
    hrun).sound

/-- A connection ends with messages in the queue, and the first of them is for a new connection with
the same value of the socket. -/
def reusedSocket : List Event :=
  [.start 3, .poller (.post (.socket 3 fdAccept 0)), .poller .poll, .poller .peek,
    .callback ⟨7, 0, 0⟩, .poller (.post (.socket 7 fdRead 0)),
    .poller (.post (.socket 3 fdAccept 0)), .poller (.post (.socket 7 fdClose 0)),
    .poller .peek, .callback ⟨invalidSocket, -1, 0⟩, .poller .peek, .callback ⟨7, 0, 0⟩,
    .poller .peek]

theorem sound_reusedSocket : ∃ c, runs reusedSocket = some c ∧ c.io.ctl = .callback 3 ∧
    c.server.conns = [none, some ⟨7, 0⟩] ∧ c.Sound := by
  have hstate : (runs reusedSocket).map (fun c => (c.io.ctl, c.server.conns)) =
      some (.callback 3, [none, some ⟨7, 0⟩]) := by decide +kernel
  obtain ⟨c, hc, hfacts⟩ := Option.map_eq_some_iff.mp hstate
  obtain ⟨hctl, hconns⟩ := Prod.mk.inj hfacts
  exact ⟨c, hc, hctl, hconns, sound_of_runs hc⟩

end EchoOnAsyncSelect

end WinsockTut
