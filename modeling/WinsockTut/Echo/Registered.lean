import WinsockTut.Echo.OnAsyncEvent
import WinsockTut.Echo.OnAsyncSelect
import WinsockTut.Echo.OnSelect
import WinsockTut.Echo.Sockets

/-!
# The echo server and its pollers together

A run of the echo server on one of the pollers is a run of the server and a run of the poller, so
what is known about each of them by itself holds of the two together.  `Registered` says how they
fit: as long as no deleted connection is called, the sinks in the table of the poller are the server
and the connections of `connections_`, and nobody is called for any other socket.
-/

namespace WinsockTut

namespace EchoServer

open Runs

variable {s s' : EchoServer} {l : List (Socket × Sink)} {a : Answer} {fd : Socket} {sink : Sink}
  {refused : Bool} {d : Direction} {calls : List Call}

/-- What is registered, with a server in the state `s`. -/
structure Registered (s : EchoServer) (l : List (Socket × Sink)) : Prop where
  once : (l.map Prod.fst).Nodup
  server : ∀ fd, (fd, serverSink) ∈ l → fd = s.acceptor ∧ fd ≠ invalidSocket
  conn : ∀ fd k, (fd, connSink k) ∈ l ↔ s.connections fd = some k
  /-- An open socket is the acceptor, or its connection is registered, or nobody serves it. -/
  opened : ∀ fd ∈ s.opened, fd = s.acceptor ∨
    (∃ k, Serves s k fd ∧ (fd, connSink k) ∈ l) ∨ Stranded s fd

/-- The agreement of the server and its poller, read off the registered sinks. -/
theorem Agrees.registered (h : Agrees s l) (hs : Accounts s) : Registered s l where
  once := h.nodup
  server fd hr := by
    rcases h.sinks _ hr with ⟨hfd, hne, -⟩ | ⟨k, -, hk⟩
    · exact ⟨hfd, fun heq => hne (hfd.symm.trans heq)⟩
    · cases hk
  conn fd k := by
    refine ⟨fun hr => ?_, h.mapped fd k⟩
    rcases h.sinks _ hr with ⟨-, -, hk⟩ | ⟨k', hk', hk⟩
    · cases hk
    · obtain rfl := Nat.succ.inj hk
      exact hk'
  opened fd hfd := by
    by_cases hacceptor : fd = s.acceptor
    · exact Or.inl hacceptor
    · refine Or.inr ?_
      by_cases hserved : ∃ k x, s.conn k = some x ∧ x.fd = fd
      · obtain ⟨k, x, hx, rfl⟩ := hserved
        have hk := hs.mapped_of_open hx fun heq => hs.valid (heq ▸ hfd)
        exact Or.inl ⟨k, ⟨hk, x, hx, rfl⟩, h.mapped x.fd k hk⟩
      · exact Or.inr ⟨hfd, hacceptor, fun k x hx heq => hserved ⟨k, x, hx, heq⟩⟩

/-- A callback is a step of the server, or leaves it alone. -/
theorem exists_run_of_respond (h : s.respond refused a sink d = some (s', calls)) :
    ∃ fs, run step s fs = some s' := by
  cases d with
  | read =>
    have hstep : step s (called refused a sink) = some s' := by
      rw [step, show s.act (called refused a sink) = some (s', calls) from h, Option.map_some]
    exact ⟨[called refused a sink], by rw [run_cons, hstep, Option.bind_some, run_nil]⟩
  | write =>
    cases sink with
    | zero =>
      obtain ⟨rfl, -⟩ := Prod.mk.inj (Option.some.inj h)
      exact ⟨[], rfl⟩
    | succ k =>
      obtain ⟨x, -, hx⟩ := Option.map_eq_some_iff.mp h
      obtain ⟨rfl, -⟩ := Prod.mk.inj hx
      exact ⟨[], rfl⟩

/-- `Start` is a step of the server. -/
theorem exists_run_of_start (h : s.act (.start fd) = some (s', calls)) :
    ∃ fs, run step s fs = some s' := by
  have hstep : step s (.start fd) = some s' := by
    rw [step, h, Option.map_some]
  exact ⟨[.start fd], by rw [run_cons, hstep, Option.bind_some, run_nil]⟩

end EchoServer

open Runs EchoServer

/-- What a machine that joins the server to a poller has to do with them. -/
def Joins {σ ε τ ζ : Type*} (step : σ → ε → Option σ) (server : σ → EchoServer)
    (pollerStep : τ → ζ → Option τ) (io : σ → τ) : Prop :=
  ∀ c e d, step c e = some d → (∃ fs, run EchoServer.step (server c) fs = some (server d)) ∧
    ∃ gs, run pollerStep (io c) gs = some (io d)

/-- A run of a poller with the server is a run of each of them. -/
theorem Joins.runs {σ ε τ ζ : Type*} {step : σ → ε → Option σ} {server : σ → EchoServer}
    {pollerStep : τ → ζ → Option τ} {io : σ → τ} {c d : σ} {es : List ε}
    (h : Joins step server pollerStep io) (hrun : run step c es = some d) :
    (∃ fs, run EchoServer.step (server c) fs = some (server d)) ∧
      ∃ gs, run pollerStep (io c) gs = some (io d) :=
  ⟨exists_run_of_steps (fun c e d hstep => (h c e d hstep).1) hrun,
    exists_run_of_steps (fun c e d hstep => (h c e d hstep).2) hrun⟩

/-! ### The select poller -/

namespace EchoOnSelect

theorem joins : Joins step Config.server SelectPoller.step Config.io := by
  intro c e d hstep
  cases e with
  | start fd =>
    simp only [step, Option.ite_none_right_eq_some, Option.bind_eq_bind,
      Option.bind_eq_some_iff] at hstep
    obtain ⟨-, ⟨server, calls⟩, hact, io, hio, hd⟩ := hstep
    obtain rfl := Option.some.inj hd
    exact ⟨exists_run_of_start hact, _, hio⟩
  | poller e =>
    simp only [step, Option.ite_none_right_eq_some, Option.bind_eq_bind,
      Option.bind_eq_some_iff] at hstep
    obtain ⟨-, io, hio, hd⟩ := hstep
    obtain rfl := Option.some.inj hd
    exact ⟨⟨[], rfl⟩, [e], by rw [run_cons, hio, Option.bind_some, run_nil]⟩
  | callback a =>
    cases hctl : c.io.ctl with
    | callback site ready count =>
      simp only [step, hctl, Option.bind_eq_bind, Option.bind_eq_some_iff] at hstep
      obtain ⟨⟨server, calls⟩, hbody, io, hio, hd⟩ := hstep
      obtain rfl := Option.some.inj hd
      simp only [body, Option.bind_eq_bind, Option.bind_eq_some_iff] at hbody
      obtain ⟨x, -, sink, -, hresp⟩ := hbody
      exact ⟨exists_run_of_respond hresp, _, hio⟩
    | _ => simp [step, hctl] at hstep

theorem hostInv_of_runs {c : Config} {es : List Event} (hrun : runs es = some c)
    (hlate : EachStep step Config.init es fun _ => EndsLate) : HostInv c := by
  refine throughout_of_eachStep (P := fun _ => HostInv) hostInv_init
    (fun fs e t u _ _ h hlate hstep => ?_) hlate es c List.prefix_rfl hrun
  rcases h.step hstep with ⟨hinv, -⟩ | ⟨-, hearly⟩
  · exact hinv
  · exact absurd hlate hearly

end EchoOnSelect

/-! ### The poller based on `WSAAsyncSelect` -/

namespace EchoOnAsyncSelect

theorem joins : Joins step Config.server AsyncSelectPoller.step Config.io := by
  intro c e d hstep
  cases e with
  | start fd =>
    simp only [step, Option.ite_none_right_eq_some, Option.bind_eq_bind,
      Option.bind_eq_some_iff] at hstep
    obtain ⟨-, ⟨server, calls⟩, hact, io, hio, hd⟩ := hstep
    obtain rfl := Option.some.inj hd
    exact ⟨exists_run_of_start hact, _, hio⟩
  | poller e =>
    simp only [step, Option.ite_none_right_eq_some, Option.bind_eq_bind,
      Option.bind_eq_some_iff] at hstep
    obtain ⟨-, io, hio, hd⟩ := hstep
    obtain rfl := Option.some.inj hd
    exact ⟨⟨[], rfl⟩, [e], by rw [run_cons, hio, Option.bind_some, run_nil]⟩
  | callback a =>
    cases hctl : c.io.ctl with
    | callback count =>
      simp only [step, hctl, Option.bind_eq_bind, Option.bind_eq_some_iff] at hstep
      obtain ⟨⟨server, calls⟩, hbody, io, hio, hd⟩ := hstep
      obtain rfl := Option.some.inj hd
      simp only [body, Option.bind_eq_bind, Option.bind_eq_some_iff] at hbody
      obtain ⟨⟨x, d'⟩, -, sink, -, hresp⟩ := hbody
      exact ⟨exists_run_of_respond hresp, _, hio⟩
    | _ => simp [step, hctl] at hstep

end EchoOnAsyncSelect

/-! ### The poller based on `WSAEventSelect` -/

namespace EchoOnAsyncEvent

theorem joins : Joins step Config.server AsyncEventPoller.step Config.io := by
  intro c e d hstep
  cases e with
  | start fd hEvent =>
    cases hctl : c.io.ctl with
    | idle =>
      simp only [step, hctl, Option.bind_eq_bind, Option.bind_eq_some_iff] at hstep
      obtain ⟨⟨server, calls⟩, hact, io, hio, hd⟩ := hstep
      obtain rfl := Option.some.inj hd
      exact ⟨exists_run_of_start hact, _, hio⟩
    | _ => simp [step, hctl] at hstep
  | poller e =>
    simp only [step, Option.ite_none_right_eq_some, Option.bind_eq_bind,
      Option.bind_eq_some_iff] at hstep
    obtain ⟨-, io, hio, hd⟩ := hstep
    obtain rfl := Option.some.inj hd
    exact ⟨⟨[], rfl⟩, [e], by rw [run_cons, hio, Option.bind_some, run_nil]⟩
  | callback a hEvent =>
    cases hctl : c.io.ctl with
    | callback h rest =>
      simp only [step, hctl, Option.bind_eq_bind, Option.bind_eq_some_iff] at hstep
      obtain ⟨⟨server, calls⟩, hbody, io, hio, hd⟩ := hstep
      obtain rfl := Option.some.inj hd
      simp only [body, Option.bind_eq_bind, Option.bind_eq_some_iff] at hbody
      obtain ⟨⟨x, n⟩, -, sink, -, hresp⟩ := hbody
      exact ⟨exists_run_of_respond hresp, _, hio⟩
    | _ => simp [step, hctl] at hstep

theorem hostInv_of_runs {c : Config} {es : List Event} (hrun : runs es = some c)
    (hlast : EachStep step Config.init es fun _ => EndsLast) : HostInv c := by
  refine throughout_of_eachStep (P := fun _ => HostInv) hostInv_init
    (fun fs e t u _ _ h hlast hstep => ?_) hlast es c List.prefix_rfl hrun
  rcases h.step hstep with ⟨hinv, -⟩ | ⟨-, hleft⟩
  · exact hinv
  · exact absurd hlast hleft

end EchoOnAsyncEvent

/-! ### All of them -/

/-- **The echo server and the pollers.**  A run of the server on a poller is a run of the server and
a run of the poller; and as long as no deleted connection is called, the sinks that are registered
are the server and the connections of `connections_`, under their own sockets. -/
theorem registered_of_runs :
    (∀ es c, EchoOnSelect.runs es = some c →
      (∃ fs, EchoServer.runs fs = some c.server) ∧ (∃ gs, SelectPoller.runs gs = some c.io) ∧
      (EachStep EchoOnSelect.step EchoOnSelect.Config.init es (fun _ => EchoOnSelect.EndsLate) →
        Registered c.server (EchoOnSelect.table.live c.io.poller.fds))) ∧
    (∀ es c, EchoOnAsyncSelect.runs es = some c →
      (∃ fs, EchoServer.runs fs = some c.server) ∧ (∃ gs, AsyncSelectPoller.runs gs = some c.io) ∧
      Registered c.server (EchoOnAsyncSelect.table.live c.io.poller.fds)) ∧
    (∀ es c, EchoOnAsyncEvent.runs es = some c →
      (∃ fs, EchoServer.runs fs = some c.server) ∧ (∃ gs, AsyncEventPoller.runs gs = some c.io) ∧
      (EachStep EchoOnAsyncEvent.step EchoOnAsyncEvent.Config.init es
          (fun _ => EchoOnAsyncEvent.EndsLast) →
        Registered c.server (EchoOnAsyncEvent.table.live c.io.poller.fds))) := by
  refine ⟨fun es c hrun => ?_, fun es c hrun => ?_, fun es c hrun => ?_⟩
  · obtain ⟨hserver, hio⟩ := EchoOnSelect.joins.runs hrun
    refine ⟨hserver, hio, fun hlate => ?_⟩
    have h := EchoOnSelect.hostInv_of_runs hrun hlate
    exact h.agrees.registered h.accounts
  · obtain ⟨hserver, hio⟩ := EchoOnAsyncSelect.joins.runs hrun
    have h := run_induction (P := fun _ => EchoOnAsyncSelect.HostInv)
      EchoOnAsyncSelect.hostInv_init (fun _ _ _ _ _ _ h hstep => h.step hstep) hrun
    exact ⟨hserver, hio, h.agrees.registered h.accounts⟩
  · obtain ⟨hserver, hio⟩ := EchoOnAsyncEvent.joins.runs hrun
    refine ⟨hserver, hio, fun hlast => ?_⟩
    have h := EchoOnAsyncEvent.hostInv_of_runs hrun hlast
    exact h.agrees.registered h.accounts

/-- Two connections are accepted, and the first one is closed. -/
def firstClosed : List EchoOnAsyncSelect.Event :=
  [.start 3, .poller (.post (.socket 3 fdAccept 0)), .poller (.post (.socket 3 fdAccept 0)),
    .poller (.post (.socket 7 fdClose 0)), .poller .poll, .poller .peek, .callback ⟨7, 0, 0⟩,
    .poller .peek, .callback ⟨9, 0, 0⟩, .poller .peek, .callback ⟨invalidSocket, -1, 0⟩]

theorem registered_firstClosed : ∃ c, EchoOnAsyncSelect.runs firstClosed = some c ∧
    c.server.connections 9 = some 1 ∧
    (9, connSink 1) ∈ EchoOnAsyncSelect.table.live c.io.poller.fds := by
  have hstate : (EchoOnAsyncSelect.runs firstClosed).map (fun c => c.server.connections 9) =
      some (some 1) := by decide +kernel
  obtain ⟨c, hc, hconn⟩ := Option.map_eq_some_iff.mp hstate
  obtain ⟨-, -, hregistered⟩ := registered_of_runs.2.1 firstClosed c hc
  exact ⟨c, hc, hconn, (hregistered.conn 9 1).mpr hconn⟩

end WinsockTut
