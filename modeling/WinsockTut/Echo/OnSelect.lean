import WinsockTut.Echo.Table
import WinsockTut.Select.Retirement

/-!
# The echo server on the select poller

The echo server is driven by `SelectPoller`: a callback of the machine of the poller runs a function
of the server, whose calls go back to the poller.  A connection that ends removes its socket, and
with it the entry that `Poll` is working on.  `sound_iff_endsLate` says when this goes wrong: when
the callback was made for an exceptional condition, and the socket was reported writable or readable
as well.  All sockets of connections are polled for writing all the time.
-/

namespace WinsockTut

namespace EchoOnSelect

open EchoServer Runs SelectPoller

/-- The poller, and the server. -/
structure Config where
  io : SelectPoller.Config
  server : EchoServer

/-- One step of a run. -/
inductive Event
  /-- `EchoServer::Start`; `CreateTCPAcceptor` returns `fd`. -/
  | start (fd : Socket)
  /-- A step of `Poll` between callbacks. -/
  | poller (e : SelectPoller.Event)
  /-- The callback of a socket is run, and returns. -/
  | callback (a : Answer)
  deriving DecidableEq, Repr

/-- The steps of `Poll` between callbacks.  Nobody sets a timer. -/
def between : SelectPoller.Event → Bool
  | .poll | .selectFails | .selectReturns _ | .finish => true
  | .timer (.updateTimer _) | .timer .round => true
  | _ => false

/-- `AddFd` refuses a socket. -/
def refuses (p : SelectPoller) (fd : Socket) (sink : Sink) : Bool :=
  decide ((p.addFd fd sink).2 < 0)

/-- The function that is called behind a test. -/
def direction : Site → Direction
  | .except | .read => .read
  | .write => .write

/-- The function of the callback at `d`. -/
def body (c : Config) (d : Dispatch) (a : Answer) : Option (EchoServer × List Call) := do
  let x ← c.io.poller.fds[d.i]?
  let sink ← x.sink
  c.server.respond (refuses c.io.poller a.accepted (connSink c.server.conns.length)) a sink
    (direction d.site)

/-- One step of the machine; `none` if the event cannot happen in this state, or the code has no
defined behaviour. -/
def step (c : Config) : Event → Option Config
  | .start fd =>
    if c.io.ctl = .idle then do
      let (server, calls) ← c.server.act (.start fd)
      let io ← run SelectPoller.step c.io (calls.map .call)
      return ⟨io, server⟩
    else
      none
  | .poller e =>
    if between e then do
      let io ← SelectPoller.step c.io e
      return { c with io := io }
    else
      none
  | .callback a =>
    match c.io.ctl with
    | .callback d _ _ => do
      let (server, calls) ← body c d a
      let io ← run SelectPoller.step c.io (calls.map .call ++ [.callbackReturn])
      return ⟨io, server⟩
    | _ => none

/-- The state after the constructors. -/
def Config.init : Config := ⟨SelectPoller.Config.init, EchoServer.init⟩

/-- The configuration reached by a run from the constructors on. -/
abbrev runs (es : List Event) : Option Config := run step Config.init es

/-- `Poll` has not called through a null pointer, and the callback it is in has a defined behaviour,
whatever the system answers. -/
structure Config.Sound (c : Config) : Prop where
  alive : c.io.ctl ≠ .crashed
  defined : ∀ d ready count, c.io.ctl = .callback d ready count → ∀ a,
    c.server.MayAccept a.accepted → (step c (.callback a)).isSome = true

/-- The step is not a callback for an exceptional condition in which a connection ends whose socket
was reported writable or readable as well. -/
def EndsLate (c : Config) (e : Event) : Prop :=
  ∀ a, e = .callback a → ∀ d ready count, c.io.ctl = .callback d ready count → d.site = .except →
    ∀ x sink, c.io.poller.fds[d.i]? = some x → x.sink = some sink →
      c.server.ends a sink .read = true → d.fd ∉ ready.wrset ∧ d.fd ∉ ready.rdset

variable {p : SelectPoller} {c c' : Config} {e : Event} {es : List Event} {a : Answer}
  {d : Dispatch} {ready : Ready} {count : ℕ} {fd : Socket} {sink : Sink}
  {calls : List Call} {s' : EchoServer}

/-! ### The table -/

/-- The table of the select poller. -/
def table : Table FdEntry where
  sock := FdEntry.fd
  sink := FdEntry.sink
  retire _ := ⟨invalidSocket, none⟩
  sock_retire _ := rfl

/-- **The calls do to the table what they should.** -/
theorem kept : table.Kept SelectPoller.call SelectPoller.fds refuses where
  adds p fd sink := by
    by_cases hfull : p.fds.length ≥ fdSetSize
    · have hsame : (p.call (.addFd fd sink)).fds = p.fds := by
        simp [SelectPoller.call, addFd, hfull]
      rw [hsame]
      exact .refused (by simp [refuses, addFd, hfull])
    · have hadded : (p.call (.addFd fd sink)).fds = p.fds ++ [⟨fd, some sink⟩] := by
        simp [SelectPoller.call, addFd, hfull]
      rw [hadded]
      exact .added (by simp [refuses, addFd, hfull]) rfl rfl
  others p k refused hadd := by
    cases k with
    | addFd fd sink => exact absurd rfl (hadd fd sink)
    | removeFd fd =>
      have hretired : (p.call (.removeFd fd)).fds = _ := retireFirst_eq fd p.fds
      rw [hretired]
      exact .removed
    | _ => exact .kept rfl rfl

theorem live_removeRetired : table.live p.removeRetired.fds = table.live p.fds := by
  unfold removeRetired
  split
  · exact Table.live_filter
  · rfl

/-- User code has control, so the calls of the server are performed one after the other. -/
theorem run_calls {io : SelectPoller.Config} (huser : io.ctl.stage = .user) (calls : List Call) :
    run SelectPoller.step io (calls.map .call) =
      some { io with poller := calls.foldl SelectPoller.call io.poller } := by
  induction calls generalizing io with
  | nil => rfl
  | cons k calls ih =>
    have hcan : io.ctl.stage.canCall io.timers.ctl = true := by
      rw [huser]
      rfl
    rw [List.map_cons, run_cons, SelectPoller.step, if_pos hcan, Option.bind_some]
    exact ih huser

/-! ### The loop of `Poll` -/

/-- The callback control is in goes to a registered sink. -/
def Here (io : SelectPoller.Config) : Prop :=
  ∀ d ready count, io.ctl = .callback d ready count →
    d.fd ≠ invalidSocket ∧ ∃ sink, io.poller.fds[d.i]? = some ⟨d.fd, some sink⟩

/-- The loop goes on with an entry that has not been retired, or ends. -/
theorem exists_dispatch (io : SelectPoller.Config) (ready : Ready) (count : ℕ)
    (next : Option Dispatch) (hsinks : io.poller.SinksSet)
    (hnext : ∀ d, next = some d → d.fd ≠ invalidSocket ∧
      ∃ x, io.poller.fds[d.i]? = some x ∧ x.fd = d.fd) :
    ∃ io', dispatch io ready count next = some io' ∧ io'.poller = io.poller ∧
      io'.ctl ≠ .crashed ∧ Here io' := by
  cases next with
  | none => exact ⟨_, rfl, rfl, nofun, nofun⟩
  | some d =>
    obtain ⟨hfd, ⟨fd, sink⟩, hx, rfl⟩ := hnext d rfl
    cases sink with
    | none => exact absurd (hsinks _ (List.mem_of_getElem? hx) rfl) hfd
    | some sink =>
      refine ⟨{ io with ctl := .callback d ready count
                        log := io.log ++ [.called ⟨d.fd, some sink⟩ d.site] }, ?_, rfl, nofun, ?_⟩
      · simp [dispatch, hx]
      · intro d' ready' count' hctl
        obtain ⟨rfl, -, -⟩ := Control.callback.inj hctl
        exact ⟨hfd, sink, hx⟩

/-- The loop goes on behind a callback whose entry is still there. -/
theorem exists_resume (io : SelectPoller.Config) (ready : Ready) (count : ℕ)
    (hsinks : io.poller.SinksSet) (hfd : d.fd ≠ invalidSocket)
    (hx : ∃ x, io.poller.fds[d.i]? = some x ∧ x.fd = d.fd) :
    ∃ io', dispatch io ready count (io.poller.resume ready d) = some io' ∧
      io'.poller = io.poller ∧ io'.ctl ≠ .crashed ∧ Here io' := by
  refine exists_dispatch io ready count _ hsinks fun d' hd' => ?_
  rcases resume_some hd' with ⟨-, hi, hfd'⟩ | ⟨-, hlater⟩
  · rw [hi, hfd']
    exact ⟨hfd, hx⟩
  · exact hlater

/-- The loop goes on behind a callback whose entry has been retired, or crashes. -/
theorem exists_resume_retired (io : SelectPoller.Config) (ready : Ready) (count : ℕ)
    (hsinks : io.poller.SinksSet) (hfd : d.fd ≠ invalidSocket)
    (hx : io.poller.fds[d.i]? = some ⟨invalidSocket, none⟩) :
    ∃ io', dispatch io ready count (io.poller.resume ready d) = some io' ∧
      ((∃ s ∈ d.site.later, d.fd ∈ ready.at s) ∧ io'.ctl = .crashed ∨
        (∀ s ∈ d.site.later, d.fd ∉ ready.at s) ∧ io'.poller = io.poller ∧
          io'.ctl ≠ .crashed ∧ Here io') := by
  cases hnext : nextSite ready d.fd d.site.later with
  | some s =>
    obtain ⟨-, hlater, hready⟩ := nextSite_some hnext
    have hresume : io.poller.resume ready d = some { d with site := s } := by
      simp [resume, hnext]
    refine ⟨{ io with ctl := .crashed
                      log := io.log ++ [.called ⟨invalidSocket, none⟩ s] }, ?_, ?_⟩
    · simp [hresume, dispatch, hx]
    · exact Or.inl ⟨⟨s, hlater, hready⟩, rfl⟩
  | none =>
    obtain ⟨io', hio', hgood⟩ := exists_dispatch io ready count (io.poller.resume ready d) hsinks
      fun d' hd' => by
        rcases resume_some hd' with ⟨hs, -, -⟩ | ⟨-, hlater⟩
        · rw [hnext] at hs
          cases hs
        · exact hlater
    exact ⟨io', hio', Or.inr ⟨nextSite_none hfd hnext, hgood⟩⟩

/-! ### The invariant -/

/-- The server and its poller agree on who is called. -/
structure HostInv (c : Config) : Prop where
  accounts : Accounts c.server
  agrees : Agrees c.server (table.live c.io.poller.fds)
  sinks : c.io.poller.SinksSet
  alive : c.io.ctl ≠ .crashed
  here : Here c.io

theorem hostInv_init : HostInv Config.init where
  accounts := accounts_init
  agrees := agrees_init
  sinks _ hx := absurd hx List.not_mem_nil
  alive := nofun
  here _ _ _ hctl := nomatch hctl

/-- A step of the poller that leaves the sinks as they are. -/
theorem HostInv.of_poller (h : HostInv c) {io : SelectPoller.Config}
    (hlive : table.live io.poller.fds = table.live c.io.poller.fds) (hsinks : io.poller.SinksSet)
    (halive : io.ctl ≠ .crashed) (hhere : Here io) : HostInv { c with io := io } where
  accounts := h.accounts
  agrees := hlive ▸ h.agrees
  sinks := hsinks
  alive := halive
  here := hhere

theorem HostInv.poller (h : HostInv c) {e : SelectPoller.Event} (he : between e = true)
    {io : SelectPoller.Config} (hstep : SelectPoller.step c.io e = some io) :
    HostInv { c with io := io } := by
  cases effect_of_step hstep with
  | called => cases he
  | @ticked e timers =>
    rcases c.io.ctl.afterTimer_eq e with heq | ⟨n, heq⟩
    · refine h.of_poller rfl h.sinks (fun hctl => h.alive (heq ▸ hctl)) fun d ready count hctl => ?_
      exact h.here d ready count (heq ▸ hctl)
    · refine h.of_poller rfl h.sinks (fun hctl => ?_) fun d ready count hctl => ?_
      · cases heq.symm.trans hctl
      · cases heq.symm.trans hctl
  | selecting hctl => exact h.of_poller rfl h.sinks nofun nofun
  | slept hctl => exact h.of_poller rfl h.sinks nofun nofun
  | failed hctl => exact h.of_poller rfl h.sinks nofun nofun
  | @selected sets ready io hctl hw hd =>
    obtain ⟨io', hio', hsame, halive, hhere⟩ := exists_dispatch c.io ready 0
      (c.io.poller.start ready) h.sinks fun d hd => start_some hd
    obtain rfl := Option.some.inj (hd.symm.trans hio')
    exact h.of_poller (by rw [hsame]) (hsame ▸ h.sinks) halive hhere
  | resumed hctl => cases he
  | finished hctl => exact h.of_poller live_removeRetired h.sinks.removeRetired nofun nofun

theorem HostInv.start (h : HostInv c) (hstep : step c (.start fd) = some c') : HostInv c' := by
  simp only [step, Option.ite_none_right_eq_some, Option.bind_eq_bind,
    Option.bind_eq_some_iff] at hstep
  obtain ⟨hctl, ⟨s', calls⟩, hact, io, hrun, hc'⟩ := hstep
  obtain rfl := Option.some.inj hc'
  have hstage : c.io.ctl.stage = .user := by
    rw [hctl]
    rfl
  obtain rfl := Option.some.inj ((run_calls hstage calls).symm.trans hrun)
  have heff := h.accounts.effect hact
  have hperf := kept.performs (p := c.io.poller) heff.tail fun fd' sink hmem => by
    rcases heff.adds hmem with ⟨he, rfl⟩ | ⟨refused, a, he, -⟩
    · obtain rfl := EchoServer.Event.start.inj he
      rfl
    · cases he
  refine ⟨h.accounts.step heff, ?_, hperf.sinksSet h.sinks, h.alive, fun d ready count hc => ?_⟩
  · rw [hperf.live heff.valid h.sinks]
    exact h.agrees.step h.accounts heff fun _ _ he => nomatch he
  · cases hctl.symm.trans hc

/-! ### The callbacks -/

theorem body_eq (hx : c.io.poller.fds[d.i]? = some ⟨d.fd, some sink⟩) (a : Answer) : body c d a =
    c.server.respond (refuses c.io.poller a.accepted (connSink c.server.conns.length)) a sink
      (direction d.site) := by
  simp [body, hx]

/-- A callback returns after the calls of its function. -/
theorem step_callback (hctl : c.io.ctl = .callback d ready count)
    (hbody : body c d a = some (s', calls)) : step c (.callback a) =
      (dispatch { c.io with poller := calls.foldl SelectPoller.call c.io.poller } ready (count + 1)
        ((calls.foldl SelectPoller.call c.io.poller).resume ready d)).map fun io => ⟨io, s'⟩ := by
  have hstage : c.io.ctl.stage = .user := by
    rw [hctl]
    rfl
  have hrun : run SelectPoller.step c.io (calls.map .call ++ [.callbackReturn]) =
      dispatch { c.io with poller := calls.foldl SelectPoller.call c.io.poller } ready (count + 1)
        ((calls.foldl SelectPoller.call c.io.poller).resume ready d) := by
    rw [run_append_singleton, run_calls hstage, Option.bind_some, SelectPoller.step]
    simp only [hctl]
  simp only [step, hctl, hbody, Option.bind_eq_bind, Option.bind_some, hrun]
  exact Option.map_eq_bind.symm

/-- What a callback leaves: the server and the poller in agreement, and the entry of the callback
retired if the connection has ended. -/
theorem HostInv.answered (h : HostInv c) (hfd : d.fd ≠ invalidSocket)
    (hx : c.io.poller.fds[d.i]? = some ⟨d.fd, some sink⟩) (hbody : body c d a = some (s', calls)) :
    Accounts s' ∧ Agrees s' (table.live (calls.foldl SelectPoller.call c.io.poller).fds) ∧
      (calls.foldl SelectPoller.call c.io.poller).SinksSet ∧
      Settled table c.server s' a sink (direction d.site) ⟨d.fd, some sink⟩
        (calls.foldl SelectPoller.call c.io.poller).fds[d.i]? := by
  have hresp := (body_eq hx a).symm.trans hbody
  have hr : (d.fd, sink) ∈ table.live c.io.poller.fds :=
    Table.mem_live.mpr ⟨hfd, _, List.mem_of_getElem? hx, rfl⟩
  have hresponded := h.agrees.responded h.accounts hr hresp
  have hperf := kept.performs (p := c.io.poller) hresponded.tail fun fd' sink' hmem => by
    obtain ⟨rfl, rfl⟩ := hresponded.adds fd' sink' hmem
    rfl
  exact h.agrees.answered h.accounts h.sinks hx rfl hfd hresp hperf

/-- **What a callback does.**  It keeps the invariant, or `Poll` crashes behind it. -/
theorem HostInv.callback (h : HostInv c) (hctl : c.io.ctl = .callback d ready count)
    (hbody : body c d a = some (s', calls)) :
    ∃ c', step c (.callback a) = some c' ∧ (HostInv c' ∧ EndsLate c (.callback a) ∨
      c'.io.ctl = .crashed ∧ ¬ EndsLate c (.callback a)) := by
  obtain ⟨hfd, sink, hx⟩ := h.here d ready count hctl
  obtain ⟨haccounts, hagrees, hsinks, hsettled⟩ := h.answered hfd hx hbody
  -- what the condition is about
  have hlate : EndsLate c (.callback a) ↔ (d.site = .except →
      c.server.ends a sink .read = true → d.fd ∉ ready.wrset ∧ d.fd ∉ ready.rdset) := by
    constructor
    · intro hlate hsite hends
      exact hlate a rfl d ready count hctl hsite _ sink hx rfl hends
    · intro hlate a' ha d' ready' count' hctl' hsite x sink' hx' hsink' hends
      obtain rfl := Event.callback.inj ha
      obtain ⟨rfl, rfl, rfl⟩ := Control.callback.inj (hctl.symm.trans hctl')
      obtain rfl := Option.some.inj (hx.symm.trans hx')
      obtain rfl := Option.some.inj hsink'
      exact hlate hsite hends
  rw [step_callback hctl hbody, hlate]
  rcases hsettled with ⟨hstays, x, hkept, hview⟩ | ⟨hends, hretired, -⟩
  · obtain ⟨io', hio', hsame, halive, hhere⟩ := exists_resume
      { c.io with poller := calls.foldl SelectPoller.call c.io.poller } ready (count + 1) hsinks
      hfd ⟨x, hkept, congrArg Prod.fst hview⟩
    refine ⟨⟨io', s'⟩, by rw [hio', Option.map_some], Or.inl ⟨?_, fun hsite hends => ?_⟩⟩
    · exact ⟨haccounts, hsame ▸ hagrees, hsame ▸ hsinks, halive, hhere⟩
    · rw [hsite] at hstays
      cases hstays.symm.trans hends
  · obtain ⟨io', hio', hcase⟩ := exists_resume_retired
      { c.io with poller := calls.foldl SelectPoller.call c.io.poller } ready (count + 1) hsinks
      hfd hretired
    refine ⟨⟨io', s'⟩, by rw [hio', Option.map_some], ?_⟩
    rcases hcase with ⟨⟨site, hlater, hready⟩, hcrashed⟩ | ⟨hfail, hsame, halive, hhere⟩
    · refine Or.inr ⟨hcrashed, fun hlate => ?_⟩
      cases hd : d.site with
      | write =>
        rw [hd] at hends
        cases sink <;> cases hends
      | read =>
        rw [hd] at hlater
        cases hlater
      | except =>
        rw [hd] at hends hlater
        obtain ⟨hwrite, hread⟩ := hlate hd hends
        cases site with
        | except => simp [Site.later] at hlater
        | write => exact hwrite hready
        | read => exact hread hready
    · refine Or.inl ⟨⟨haccounts, hsame ▸ hagrees, hsame ▸ hsinks, halive, hhere⟩, ?_⟩
      intro hsite _
      rw [hsite] at hfail
      exact ⟨hfail .write (by simp [Site.later]), hfail .read (by simp [Site.later])⟩

/-! ### Runs -/

theorem HostInv.sound (h : HostInv c) : c.Sound where
  alive := h.alive
  defined d ready count hctl a hmay := by
    obtain ⟨hfd, sink, hx⟩ := h.here d ready count hctl
    have hr : (d.fd, sink) ∈ table.live c.io.poller.fds :=
      Table.mem_live.mpr ⟨hfd, _, List.mem_of_getElem? hx, rfl⟩
    have hdefined := h.agrees.respond_defined h.accounts hr hmay
      (refuses c.io.poller a.accepted (connSink c.server.conns.length)) (direction d.site)
    rw [← body_eq hx a] at hdefined
    obtain ⟨⟨s', calls⟩, hbody⟩ := Option.isSome_iff_exists.mp hdefined
    obtain ⟨c', hstep, -⟩ := h.callback hctl hbody
    rw [hstep]
    rfl

/-- A callback is made of its function and of what follows in `Poll`. -/
theorem exists_body (hstep : step c (.callback a) = some c') :
    ∃ d ready count s' calls, c.io.ctl = .callback d ready count ∧
      body c d a = some (s', calls) := by
  cases hctl : c.io.ctl with
  | callback d ready count =>
    simp only [step, hctl, Option.bind_eq_bind, Option.bind_eq_some_iff] at hstep
    obtain ⟨⟨s', calls⟩, hbody, -⟩ := hstep
    exact ⟨d, ready, count, s', calls, rfl, hbody⟩
  | _ => simp [step, hctl] at hstep

/-- **What a step does**: it keeps the invariant, or leads to a crash. -/
theorem HostInv.step (h : HostInv c) (hstep : EchoOnSelect.step c e = some c') :
    HostInv c' ∧ EndsLate c e ∨ c'.io.ctl = .crashed ∧ ¬ EndsLate c e := by
  cases e with
  | start fd => exact Or.inl ⟨h.start hstep, fun _ he => nomatch he⟩
  | poller e =>
    simp only [EchoOnSelect.step, Option.ite_none_right_eq_some, Option.bind_eq_bind,
      Option.bind_eq_some_iff] at hstep
    obtain ⟨he, io, hio, hc'⟩ := hstep
    obtain rfl := Option.some.inj hc'
    exact Or.inl ⟨h.poller he hio, fun _ he => nomatch he⟩
  | callback a =>
    obtain ⟨d, ready, count, s', calls, hctl, hbody⟩ := exists_body hstep
    obtain ⟨c'', hstep', hcase⟩ := h.callback hctl hbody
    obtain rfl := Option.some.inj (hstep.symm.trans hstep')
    exact hcase

/-- **The echo server on the select poller** never uses a deleted connection and never makes `Poll`
crash, exactly if no connection ends in a callback for an exceptional condition while its socket was
reported writable or readable too. -/
theorem sound_iff_endsLate (hrun : runs es = some c) :
    Throughout step Config.init es (fun _ => Config.Sound) ↔
      EachStep step Config.init es fun _ => EndsLate := by
  refine throughout_iff_eachStep (P := fun _ => HostInv) hostInv_init (fun _ _ _ _ h => h.sound)
    (fun fs e t u _ _ h hlate hstep => ?_) (fun fs e t u _ _ h hearly hstep => ?_) hrun
  · rcases h.step hstep with ⟨hinv, -⟩ | ⟨-, hearly⟩
    · exact hinv
    · exact absurd hlate hearly
  · rcases h.step hstep with ⟨-, hlate⟩ | ⟨hcrashed, -⟩
    · exact absurd hlate hearly
    · exact fun hsound => hsound.alive hcrashed

/-- A connection is accepted, sends urgent data, and is closed when reading fails; but its socket is
writable as well. -/
def urgentEnd : List Event :=
  [.start 3, .poller .poll, .poller (.selectReturns ⟨[3], [], []⟩), .callback ⟨7, 0, 0⟩,
    .poller (.timer (.updateTimer 0)), .poller (.timer .round), .poller .finish,
    .poller .poll, .poller (.selectReturns ⟨[], [7], [7]⟩), .callback ⟨invalidSocket, -1, 0⟩]

theorem sound_urgentEnd : ∃ c, runs urgentEnd = some c ∧ c.io.ctl = .crashed ∧
    ¬ EachStep step Config.init urgentEnd fun _ => EndsLate := by
  have hcrash : (runs urgentEnd).map (fun c => c.io.ctl) = some .crashed := by decide +kernel
  obtain ⟨c, hc, hctl⟩ := Option.map_eq_some_iff.mp hcrash
  refine ⟨c, hc, hctl, fun hlate => ?_⟩
  exact ((sound_iff_endsLate hc).mpr hlate urgentEnd c List.prefix_rfl hc).alive hctl

end EchoOnSelect

end WinsockTut
