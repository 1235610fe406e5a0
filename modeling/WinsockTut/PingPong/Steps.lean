import WinsockTut.PingPong.Tasks

/-!
# The steps of the server

`Point` says what holds in front of each call that is still to be made, and `Inv` adds it to the
accounts.  `Effect` says what each step of the machine does.  Every call can be executed in a state
with the invariant, with one of these effects, and leaves the invariant.
-/

namespace WinsockTut

namespace PingPong

open Runs Word Function
open CompletionPortService (Driven View Face Obs Packet)

/-! ### The invariant -/

/-- The acceptor waits to be armed. -/
def Config.Accepts (c : Config) (i : CtxId) : Prop :=
  c.server.ctx = some i ∧ c.io.view.out i = 0

/-- The session is open, and is not reading. -/
structure Config.Reads (c : Config) (s : SessionId) (o : Session) : Prop where
  get : c.session s = some o
  isOpen : 0 < o.id
  out : c.io.view.out o.recvCtx = 0

/-- The session is closed, and is still in the table. -/
structure Config.Closed (c : Config) (sid : ℤ) (s : SessionId) : Prop where
  listed : c.server.sessions sid = some s
  only : ∀ sid', c.server.sessions sid' = some s → sid' = sid
  dead : ∃ o, c.session s = some o ∧ o.id = 0

/-- What holds in front of the calls that are still to be made. -/
inductive Point (c : Config) : Option SessionId → List Task → Prop
  | rest : Point c none []
  | startAccept {i} (hi : c.Accepts i) : Point c none [.startAccept]
  | onAccept {i} (hi : c.Accepts i) : Point c none [.onAccept i]
  | accepted {i newfd} (hi : c.Accepts i) : Point c none [.accepted newfd]
  | created {i s o} (hi : c.Accepts i) (hs : c.Reads s o) :
      Point c none [.startRead s, .startAccept]
  | onRead {s o} (hs : c.Reads s o) : Point c none [.onRead s o.recvCtx]
  | echo {s o} (hs : c.Reads s o) : Point c none [.write s, .startRead s]
  | startRead {s o} (hs : c.Reads s o) : Point c none [.startRead s]
  | onWritten {s i o} (hi : c.InUse i) (hout : c.io.view.out i = 0) (hs : c.session s = some o)
      (hb : c.bound i = some (.onWritten s i)) : Point c none [.onWritten s i]
  | close {s o} (hs : c.Reads s o) : Point c none [.close s]
  | closeSession {sid s} (hs : c.Closed sid s) : Point c (some s) [.closeSession sid]
  | closeAgain {sid s} (hs : c.Closed sid s) : Point c (some s) [.close s, .destroy sid s]
  | destroy {sid s} (hs : c.Closed sid s) : Point c (some s) [.destroy sid s]

/-- The invariant of the machine, while the session `closing` is being closed. -/
structure Inv (closing : Option SessionId) (c : Config) : Prop where
  accounts : Accounts closing c
  point : Point c closing c.todo
  user : c.todo ≠ [] → c.io.ctl.stage = .user

/-! ### What a step does -/

/-- What each step does to the contexts, the sessions and the calls that are still to be made. -/
inductive Effect (c : Config) : Event → Config → Prop
  | started {fd associated io} (htodo : c.todo = []) (hctx : c.server.ctx = none)
      (hio : Shows io c.io.view.out fun j => c.InUse j ∨ j = c.io.view.size) :
      Effect c (.start fd associated) { c with
        io := io, server := { c.server with ctx := some c.io.view.size }, todo := [.startAccept] }
  | acceptStarted {a i io} (htodo : c.todo = [.startAccept]) (hi : c.Accepts i)
      (hio : Shows io
        (update c.io.view.out i (c.io.starts i (.accept a.socket a.outcome))) c.InUse) :
      Effect c (.exec a)
        { c with io := io, handlers := c.handlers ++ [.onAccept i], todo := [] }
  | acceptFailed {a i x io} (htodo : c.todo = [.onAccept i]) (hi : c.Accepts i)
      (hx : c.io.service.ctxs.get i = some x) (hstatus : x.getStatusCode ≠ 0)
      (hio : Shows io c.io.view.out c.InUse) : Effect c (.exec a) { c with io := io, todo := [] }
  | acceptDone {a i x io} (newfd : Socket) (htodo : c.todo = [.onAccept i]) (hi : c.Accepts i)
      (hx : c.io.service.ctxs.get i = some x) (hstatus : x.getStatusCode = 0)
      (hio : Shows io c.io.view.out c.InUse) :
      Effect c (.exec a) { c with io := io, todo := [.accepted newfd] }
  | connectionRefused {a i io newfd} (htodo : c.todo = [.accepted newfd]) (hi : c.Accepts i)
      (ha : a.associated = false) (hio : Shows io c.io.view.out c.InUse) :
      Effect c (.exec a) { c with io := io, todo := [] }
  | sessionCreated {a i io newfd} (htodo : c.todo = [.accepted newfd]) (hi : c.Accepts i)
      (ha : a.associated = true)
      (hio : Shows io c.io.view.out fun j => c.InUse j ∨ j = c.io.view.size) :
      Effect c (.exec a) { c with
        io := io
        server := { c.server with
          counter := wrap32 (c.server.counter + 1)
          sessions := update c.server.sessions c.server.counter (some c.objs.length) }
        objs := c.objs ++
          [some { id := c.server.counter, fd := newfd, recvCtx := c.io.view.size }]
        todo := [.startRead c.objs.length, .startAccept] }
  | readStarted {a s o rest io} (htodo : c.todo = .startRead s :: rest) (hs : c.Reads s o)
      (hrest : rest = [] ∨ ∃ i, rest = [.startAccept] ∧ c.Accepts i)
      (hio : Shows io
        (update c.io.view.out o.recvCtx (c.io.starts o.recvCtx (.read a.outcome))) c.InUse) :
      Effect c (.exec a)
        { c with io := io, handlers := c.handlers ++ [.onRead s o.recvCtx], todo := rest }
  | readIgnored {a s o x} (htodo : c.todo = [.onRead s o.recvCtx]) (hs : c.Reads s o)
      (hx : c.io.service.ctxs.get o.recvCtx = some x) (hstatus : x.getStatusCode = errorIoPending) :
      Effect c (.exec a) { c with todo := [] }
  | readDone {a s o x todo} (htodo : c.todo = [.onRead s o.recvCtx]) (hs : c.Reads s o)
      (hx : c.io.service.ctxs.get o.recvCtx = some x) (hstatus : x.getStatusCode ≠ errorIoPending)
      (hnext : todo = [.close s] ∨ todo = [.write s, .startRead s]) :
      Effect c (.exec a) { c with todo := todo }
  | writeStarted {a s o io} (htodo : c.todo = [.write s, .startRead s]) (hs : c.Reads s o)
      (hio : Shows io
        (update c.io.view.out c.io.view.size
          (CompletionPortService.startedBy (decide (o.fd ∈ c.io.service.port)) a.outcome))
        fun j => c.InUse j ∨ j = c.io.view.size) :
      Effect c (.exec a) { c with
        io := io, handlers := c.handlers ++ [.onWritten s c.io.view.size], todo := [.startRead s] }
  | writeDone {a s i o io} (htodo : c.todo = [.onWritten s i]) (hs : c.session s = some o)
      (hio : Shows io c.io.view.out fun j => c.InUse j ∧ j ≠ i)
      (hlog : io.log = c.io.log ++ [.called (.cancelIoEx o.fd)]) :
      Effect c (.exec a) { c with io := io, todo := [] }
  | closed {a s o io} (htodo : c.todo = [.close s]) (hs : c.Reads s o)
      (hio : Shows io c.io.view.out fun j => c.InUse j ∧ j ≠ o.recvCtx)
      (hlog : io.log =
        c.io.log ++ [.called (.closesocket o.fd)] ++ [.called (.cancelIoEx o.fd)]) :
      Effect c (.exec a) { c with
        io := io, objs := c.objs.set s (some { o with fd := invalidSocket, id := 0 })
        todo := [.closeSession o.id] }
  | sessionFound {a sid s} (htodo : c.todo = [.closeSession sid]) (hs : c.Closed sid s) :
      Effect c (.exec a) { c with todo := [.close s, .destroy sid s] }
  | closedAgain {a sid s} (htodo : c.todo = [.close s, .destroy sid s]) (hs : c.Closed sid s) :
      Effect c (.exec a) { c with todo := [.destroy sid s] }
  | destroyed {a sid s} (htodo : c.todo = [.destroy sid s]) (hs : c.Closed sid s) :
      Effect c (.exec a) { c with
        server := { c.server with sessions := update c.server.sessions sid none }
        objs := c.objs.set s none, todo := [] }
  | completed {k status bytes io} (hio : Shows io c.io.view.out c.InUse) :
      Effect c (.complete k status bytes) { c with io := io }
  | quieted {e io} (htodo : c.todo = []) (hio : Shows io c.io.view.out c.InUse) :
      Effect c (.quiet e) { c with io := io }
  | delivered {p queue hd io} (htodo : c.todo = []) (hqueue : c.io.queue = p :: queue)
      (hok : p.ok = true) (hb : c.bound p.ctx = some hd)
      (hio : Shows io (update c.io.view.out p.ctx (c.io.view.out p.ctx - 1)) c.InUse) :
      Effect c .dequeued { c with
        io := io, todo := [hd.task], fault := hd.session?.any fun s => (c.session s).isNone }
  | failed {p queue io} (htodo : c.todo = []) (hqueue : c.io.queue = p :: queue)
      (hok : p.ok = false)
      (hio : Shows io (update c.io.view.out p.ctx (c.io.view.out p.ctx - 1)) c.InUse) :
      Effect c .dequeued { c with io := io }
  | returned {io} (htodo : c.todo = []) (hio : Shows io c.io.view.out c.InUse) :
      Effect c .callbackReturn { c with io := io }

/-- A call can be executed; it has one of the effects, and leaves the invariant. -/
def Progress (c : Config) (e : Event) (r : Option Config) : Prop :=
  ∃ c', r = some c' ∧ Effect c e c' ∧ ∃ closing', Inv closing' c'

/-! ### The functions -/

theorem Config.Reads.of_todo {c : Config} {s : SessionId} {o : Session} (h : c.Reads s o)
    (todo : List Task) : Config.Reads { c with todo := todo } s o :=
  ⟨h.get, h.isOpen, h.out⟩

theorem Config.Closed.of_todo {c : Config} {s : SessionId} {sid : ℤ} (h : c.Closed sid s)
    (todo : List Task) : Config.Closed { c with todo := todo } sid s :=
  ⟨h.listed, h.only, h.dead⟩

section

variable {c : Config} {i : CtxId} {s : SessionId} {closing : Option SessionId} {sid : ℤ}
  {newfd : Socket} (h : Inv closing c)

include h

/-- The accounts in front of a call. -/
theorem Inv.calling (todo : List Task) : Accounts closing { c with todo := todo } :=
  h.accounts.of_todo todo c.fault

theorem startAccept_spec (htodo : c.todo = [.startAccept]) (a : Answer) :
    Progress c (.exec a) (startAccept { c with todo := [] } a) := by
  have huser := h.user (by simp [htodo])
  have hpoint := h.point
  rw [htodo] at hpoint
  cases hpoint with
  | @startAccept i hi =>
    obtain ⟨io, harm, hmoved, hacc⟩ := arm_spec (h.calling []) huser (.onAccept i)
      (h.accounts.acceptor i hi.1) hi.2 ⟨rfl, hi.1⟩ nofun nofun (.accept a.socket a.outcome)
    refine ⟨_, ?_, .acceptStarted htodo hi hmoved.toShows, none, hacc, .rest, nofun⟩
    simpa [startAccept, hi.1] using harm

theorem onAccept_spec (htodo : c.todo = [.onAccept i]) (a : Answer) :
    Progress c (.exec a) (onAccept { c with todo := [] } i) := by
  have huser := h.user (by simp [htodo])
  have hpoint := h.point
  rw [htodo] at hpoint
  cases hpoint with
  | onAccept hi =>
    obtain ⟨y, hy, -⟩ := h.accounts.acceptor i hi.1
    obtain ⟨x, hx, -⟩ := exists_get hy
    obtain ⟨io, hassign, hmoved, hacc⟩ := assign_spec (h.calling []) huser hx 0
    by_cases hstatus : x.getStatusCode = 0
    · refine ⟨_, ?_, .acceptDone x.udata.toNat htodo hi hx hstatus hmoved.toShows, none,
        hacc.of_todo _ _, .accepted (i := i) ⟨hi.1, ?_⟩, fun _ => hmoved.ctl ▸ huser⟩
      · simp only [onAccept, hx, Option.bind_eq_bind, Option.bind_some, hassign, hstatus]
        rfl
      · rw [← hi.2]
        exact congrFun hmoved.out i
    · obtain ⟨io', hclose, hview, -, hmoved', hacc'⟩ :=
        closeSocket_spec hacc (by exact hmoved.ctl ▸ huser) x.udata.toNat
      have hshows : Shows io' c.io.view.out c.InUse :=
        ⟨hview ▸ hmoved.out, hview ▸ hmoved.used⟩
      refine ⟨_, ?_, .acceptFailed htodo hi hx hstatus hshows, none, hacc', .rest, nofun⟩
      simp only [onAccept, hx, Option.bind_eq_bind, Option.bind_some, hassign, ne_eq, hstatus,
        not_false_eq_true, if_true]
      exact hclose

theorem accepted_spec (hfew : c.objs.length < 2147481646) (htodo : c.todo = [.accepted newfd])
    (a : Answer) : Progress c (.exec a) (accepted { c with todo := [] } newfd a) := by
  have huser := h.user (by simp [htodo])
  have hpoint := h.point
  rw [htodo] at hpoint
  cases hpoint with
  | @accepted i _ hi =>
    cases ha : a.associated with
    | false =>
      obtain ⟨io, halloc, hmoved, hacc⟩ := alloc_failed_spec (h.calling []) huser newfd
      obtain ⟨io', hclose, hview, -, -, hacc'⟩ :=
        closeSocket_spec hacc (by exact hmoved.ctl ▸ huser) newfd
      have hshows : Shows io' c.io.view.out c.InUse :=
        ⟨hview ▸ hmoved.out, hview ▸ hmoved.used⟩
      refine ⟨_, ?_, .connectionRefused htodo hi ha hshows, none, hacc', .rest, nofun⟩
      simp only [accepted, ha, halloc, Option.bind_eq_bind, Option.bind_some]
      exact hclose
    | true =>
      obtain ⟨io, halloc, hface, hmoved, -, hacc⟩ :=
        alloc_spec (h.calling []) huser newfd flagAssociate true (fun _ => rfl)
      have hcounter : wrap32 (c.server.counter + 1) = c.server.counter + 1 := by
        have := h.accounts.counter
        unfold wrap32
        omega
      have hsize : i ≠ c.io.view.size := by
        intro heq
        exact h.accounts.ctx_ne_size (heq ▸ hi.1)
      have hacc' := (hacc.of_created (y := ⟨0, none, newfd⟩) hface rfl (hasBits_zero _)
        h.accounts.ctx_ne_size (fun s o hs => h.accounts.recvCtx_ne_size hs) hcounter).of_todo
        [.startRead c.objs.length, .startAccept] c.fault
      have hpos : 0 < c.server.counter := by
        rw [h.accounts.counter]
        omega
      refine ⟨_, ?_, .sessionCreated htodo hi ha hmoved.toShows, none, hacc', .created (i := i)
        (o := ⟨c.server.counter, newfd, c.io.view.size⟩) ⟨hi.1, ?_⟩ ⟨?_, hpos, ?_⟩,
        fun _ => hmoved.ctl ▸ huser⟩
      · simp only [accepted, ha, halloc, Option.bind_eq_bind, Option.bind_some]
        rfl
      · rw [← hi.2]
        exact congrFun hmoved.out i
      · simp [Config.session]
      · rw [← h.accounts.out_size]
        exact congrFun hmoved.out _

theorem startRead_spec {rest : List Task} (htodo : c.todo = .startRead s :: rest) (a : Answer) :
    Progress c (.exec a) (startRead { c with todo := rest } s a) := by
  have huser := h.user (by simp [htodo])
  have hpoint := h.point
  rw [htodo] at hpoint
  have hclosing : closing = none := by cases hpoint <;> rfl
  subst hclosing
  obtain ⟨o, hs, hrest⟩ : ∃ o, c.Reads s o ∧
      (rest = [] ∨ ∃ i, rest = [.startAccept] ∧ c.Accepts i) := by
    cases hpoint with
    | created hi hs => exact ⟨_, hs, Or.inr ⟨_, rfl, hi⟩⟩
    | startRead hs => exact ⟨_, hs, Or.inl rfl⟩
  obtain ⟨huse, -⟩ := h.accounts.opened s o hs.get hs.isOpen
  have hfit : c.Fits o.recvCtx (.onRead s o.recvCtx) := by
    refine ⟨rfl, session_lt hs.get, fun o' hs' => ?_⟩
    rw [Option.some.inj (hs.get.symm.trans hs')]
  obtain ⟨io, harm, hmoved, hacc⟩ := arm_spec (h.calling rest) huser (.onRead s o.recvCtx) huse
    hs.out hfit (fun s' hs' => ⟨o, by rw [← (Handler.onRead.inj hs').1]; exact hs.get, hs.isOpen⟩)
    nofun (.read a.outcome)
  refine ⟨_, ?_, .readStarted htodo hs hrest hmoved.toShows, none, hacc, ?_,
    fun _ => hmoved.ctl ▸ huser⟩
  · rw [startRead, Config.withSession,
      show Config.session { c with todo := rest } s = _ from hs.get]
    exact harm
  · rcases hrest with rfl | ⟨i, rfl, hi⟩
    · exact .rest
    · have hne : i ≠ o.recvCtx := by
        rintro rfl
        exact (h.accounts.owned s o hs.get).2 hi.1
      refine .startAccept (i := i) ⟨hi.1, ?_⟩
      rw [hmoved.out, update_of_ne hne, hi.2]

theorem onRead_spec (htodo : c.todo = [.onRead s i]) (a : Answer) :
    Progress c (.exec a) (onRead { c with todo := [] } s i) := by
  have huser := h.user (by simp [htodo])
  have hpoint := h.point
  rw [htodo] at hpoint
  cases hpoint with
  | @onRead _ o hs =>
    obtain ⟨⟨y, hy⟩, -⟩ := h.accounts.owned s o hs.get
    obtain ⟨x, hx, -⟩ := exists_get hy
    have hdone : ∀ todo, todo = [.close s] ∨ todo = [.write s, .startRead s] →
        x.getStatusCode ≠ errorIoPending →
        Progress c (.exec a) (some { c with todo := todo }) := by
      intro todo htodo' hstatus
      refine ⟨_, rfl, .readDone htodo hs hx hstatus htodo', none, h.calling todo, ?_,
        fun _ => huser⟩
      rcases htodo' with rfl | rfl
      · exact .close (hs.of_todo _)
      · exact .echo (hs.of_todo _)
    simp only [onRead, hx, Option.bind_eq_bind, Option.bind_some]
    split
    · split
      · exact hdone _ (Or.inl rfl) ‹_›
      · next hstatus =>
        exact ⟨_, rfl, .readIgnored htodo hs hx (not_not.mp hstatus), none, h.calling [], .rest,
          nofun⟩
    · next hstatus =>
      have hne : x.getStatusCode ≠ errorIoPending := by
        rw [not_not.mp hstatus]
        decide
      split
      · exact hdone _ (Or.inr rfl) hne
      · exact hdone _ (Or.inl rfl) hne

theorem write_spec (htodo : c.todo = [.write s, .startRead s]) (a : Answer) :
    Progress c (.exec a) (write { c with todo := [.startRead s] } s a) := by
  have huser := h.user (by simp [htodo])
  have hpoint := h.point
  rw [htodo] at hpoint
  cases hpoint with
  | @echo _ o hs =>
    obtain ⟨io, halloc, hface, hmoved, hstarts, hacc⟩ :=
      alloc_spec (h.calling [.startRead s]) huser o.fd 0 a.associated
        (fun hflag => absurd hflag (by decide))
    have hne := h.accounts.recvCtx_ne_size hs.get
    have hout : io.view.out c.io.view.size = 0 := by
      rw [hmoved.out]
      exact h.accounts.out_size
    have hown : ∀ s' j o' z, Handler.onWritten s c.io.view.size = .onWritten s' j →
        c.session s' = some o' → 0 < o'.id → io.view.face c.io.view.size = some z →
        z.fd = o'.fd := by
      intro s' j o' z hd hs' ho' hz
      obtain rfl := Option.some.inj (hface.symm.trans hz)
      obtain ⟨rfl, -⟩ := Handler.onWritten.inj hd
      rw [Option.some.inj (hs.get.symm.trans hs')]
    obtain ⟨io', harm, hmoved', hacc'⟩ := arm_spec hacc (by exact hmoved.ctl ▸ huser)
      (.onWritten s c.io.view.size) ⟨_, hface, hasBits_zero _⟩ hout
      ⟨rfl, session_lt hs.get, h.accounts.ctx_ne_size, fun s' o' hs' =>
        h.accounts.recvCtx_ne_size hs'⟩ nofun hown (.write a.outcome)
    have hshows : Shows io' (update c.io.view.out c.io.view.size
        (CompletionPortService.startedBy (decide (o.fd ∈ c.io.service.port)) a.outcome))
        fun j => c.InUse j ∨ j = c.io.view.size := by
      refine ⟨?_, fun j => (hmoved'.used j).trans (hmoved.used j)⟩
      rw [hmoved'.out, hstarts (hasBits_zero _), hmoved.out]
    refine ⟨_, ?_, .writeStarted htodo hs hshows, none, hacc', .startRead (o := o)
      ⟨hs.get, hs.isOpen, ?_⟩, fun _ => hmoved'.ctl ▸ hmoved.ctl ▸ huser⟩
    · rw [write, Config.withSession,
        show Config.session { c with todo := [.startRead s] } s = _ from hs.get]
      simp only [halloc, Option.bind_eq_bind, Option.bind_some]
      exact harm
    · rw [hshows.out, update_of_ne hne, hs.out]

theorem onWritten_spec (htodo : c.todo = [.onWritten s i]) (a : Answer) :
    Progress c (.exec a) (onWritten { c with todo := [] } s i) := by
  have huser := h.user (by simp [htodo])
  have hpoint := h.point
  rw [htodo] at hpoint
  cases hpoint with
  | @onWritten _ _ o hi hout hs hb =>
    obtain ⟨-, -, hctx, hrecv⟩ := h.accounts.fits i _ hb
    obtain ⟨io, z, hrelease, hz, hlazy, hmoved, hlog, hacc⟩ := release_spec (h.calling []) huser hi
      hout hctx fun s' o' hs' _ => hrecv s' o' hs'
    have hopen : 0 < o.id := (h.accounts.ids s o hs).2 nofun
    rw [(h.accounts.own s o hs hopen).2 i i z hb hz hlazy] at hlog
    refine ⟨_, ?_, .writeDone htodo hs hmoved.toShows hlog, none, hacc, .rest, nofun⟩
    rw [onWritten, Config.withSession, show Config.session { c with todo := [] } s = _ from hs]
    exact hrelease

theorem close_spec (htodo : c.todo = [.close s]) (a : Answer) :
    Progress c (.exec a) (close { c with todo := [] } s) := by
  have huser := h.user (by simp [htodo])
  have hpoint := h.point
  rw [htodo] at hpoint
  cases hpoint with
  | @close _ o hs =>
    obtain ⟨huse, hlisted⟩ := h.accounts.opened s o hs.get hs.isOpen
    obtain ⟨io, hclose, hview, hlog, hmoved, hacc⟩ := closeSocket_spec (h.calling []) huser o.fd
    have hout : io.view.out o.recvCtx = 0 := by
      rw [hmoved.out]
      exact hs.out
    have hacc' := hacc.of_closed hs.get hout
    have hsess : ∀ s' o', Config.session { c with
        objs := c.objs.set s (some { o with fd := invalidSocket, id := 0 }) } s' = some o' →
        0 < o'.id → o'.recvCtx ≠ o.recvCtx := by
      intro s' o' hs' ho' heq
      have hne : s' ≠ s := by
        rintro rfl
        rw [session_set_self hs.get] at hs'
        rw [← Option.some.inj hs'] at ho'
        exact lt_irrefl _ ho'
      rw [session_set_of_ne hne] at hs'
      exact hne (h.accounts.apart s' s o' o hs' hs.get heq)
    obtain ⟨io', z, hrelease, hz, -, hmoved', hlog', hacc''⟩ := release_spec hacc'
      (by exact hmoved.ctl ▸ huser) ((hmoved.used _).mpr huse) hout
      (h.accounts.owned s o hs.get).2 hsess
    have hfd : z.fd = o.fd := by
      refine (h.accounts.own s o hs.get hs.isOpen).1 z ?_
      rw [← hview]
      exact hz
    rw [hfd, hlog] at hlog'
    have hshows : Shows io' c.io.view.out fun j => c.InUse j ∧ j ≠ o.recvCtx := by
      refine ⟨hmoved'.out.trans hmoved.out, fun j => (hmoved'.used j).trans ?_⟩
      exact and_congr_left fun _ => hmoved.used j
    refine ⟨_, ?_, .closed htodo hs hshows hlog', some s, hacc''.of_todo _ _,
      .closeSession ⟨hlisted, ?_, ?_⟩, fun _ => hmoved'.ctl ▸ hmoved.ctl ▸ huser⟩
    · rw [close, Config.withSession, show Config.session { c with todo := [] } s = _ from hs.get]
      simp only [if_pos (show o.id > 0 from hs.isOpen), hclose, Option.bind_eq_bind,
        Option.bind_some, hrelease]
      rfl
    · intro sid' hsid'
      obtain ⟨-, o', hs', hid⟩ := h.accounts.table sid' s hsid'
      rw [Option.some.inj (hs.get.symm.trans hs')]
      exact (hid nofun).symm
    · exact ⟨_, session_set_self hs.get _, rfl⟩

theorem closeSession_spec (htodo : c.todo = [.closeSession sid]) (a : Answer) :
    Progress c (.exec a) (closeSession { c with todo := [] } sid) := by
  have huser := h.user (by simp [htodo])
  have hpoint := h.point
  rw [htodo] at hpoint
  cases hpoint with
  | @closeSession _ s hs =>
    refine ⟨_, ?_, .sessionFound htodo hs, some s, h.calling _, .closeAgain (hs.of_todo _),
      fun _ => huser⟩
    simp [closeSession, hs.listed]

theorem closeAgain_spec {todo : List Task} (htodo : c.todo = .close s :: .destroy sid s' :: todo)
    (a : Answer) : Progress c (.exec a) (close { c with todo := .destroy sid s' :: todo } s) := by
  have huser := h.user (by simp [htodo])
  have hpoint := h.point
  rw [htodo] at hpoint
  cases hpoint with
  | closeAgain hs =>
    obtain ⟨o, ho, hdead⟩ := hs.dead
    refine ⟨_, ?_, .closedAgain htodo hs, some s, h.calling _, .destroy (hs.of_todo _),
      fun _ => huser⟩
    rw [close, Config.withSession,
      show Config.session { c with todo := [.destroy sid s] } s = _ from ho]
    exact if_neg (by rw [hdead]; exact lt_irrefl 0)

theorem destroy_spec (htodo : c.todo = [.destroy sid s]) (a : Answer) :
    Progress c (.exec a) (destroy { c with todo := [] } sid s) := by
  have hpoint := h.point
  rw [htodo] at hpoint
  cases hpoint with
  | destroy hs =>
    obtain ⟨o, ho, hdead⟩ := hs.dead
    refine ⟨_, ?_, .destroyed htodo hs, none,
      (h.accounts.of_destroyed ho hdead hs.listed hs.only).of_todo [] c.fault, .rest, nofun⟩
    rw [destroy, Config.withSession, show Config.session { c with todo := [] } s = _ from ho]

/-- **The calls succeed**, whatever the system answers. -/
theorem exec_spec (hfew : c.objs.length < 2147481646) {t : Task} {rest : List Task}
    (htodo : c.todo = t :: rest) (a : Answer) :
    Progress c (.exec a) (exec { c with todo := rest } a t) := by
  have hpoint := h.point
  rw [htodo] at hpoint
  cases hpoint with
  | startAccept _ => exact startAccept_spec h htodo a
  | onAccept _ => exact onAccept_spec h htodo a
  | accepted _ => exact accepted_spec h hfew htodo a
  | created _ _ => exact startRead_spec h htodo a
  | onRead _ => exact onRead_spec h htodo a
  | echo _ => exact write_spec h htodo a
  | startRead _ => exact startRead_spec h htodo a
  | onWritten _ _ _ _ => exact onWritten_spec h htodo a
  | close _ => exact close_spec h htodo a
  | closeSession _ => exact closeSession_spec h htodo a
  | closeAgain _ => exact closeAgain_spec h htodo a
  | destroy _ => exact destroy_spec h htodo a

end

/-! ### The other steps -/

section

variable {c c' : Config} {closing : Option SessionId} {io : CompletionPortService.Config}
  {fd : Socket} {associated : Bool} {k status bytes : ℕ} {e : CompletionPortService.Event}

/-- What holds in front of the calls depends on the service through its view only. -/
theorem Point.of_view {todo : List Task} (h : Point c closing todo)
    (hview : io.view = c.io.view) : Point { c with io := io } closing todo := by
  have haccepts : ∀ i, c.Accepts i → Config.Accepts { c with io := io } i := fun i hi =>
    ⟨hi.1, hview ▸ hi.2⟩
  have hreads : ∀ s o, c.Reads s o → Config.Reads { c with io := io } s o := fun s o hs =>
    ⟨hs.get, hs.isOpen, hview ▸ hs.out⟩
  have hclosed : ∀ sid s, c.Closed sid s → Config.Closed { c with io := io } sid s :=
    fun sid s hs => ⟨hs.listed, hs.only, hs.dead⟩
  cases h with
  | rest => exact .rest
  | startAccept hi => exact .startAccept (haccepts _ hi)
  | onAccept hi => exact .onAccept (haccepts _ hi)
  | accepted hi => exact .accepted (haccepts _ hi)
  | created hi hs => exact .created (haccepts _ hi) (hreads _ _ hs)
  | onRead hs => exact .onRead (o := _) (hreads _ _ hs)
  | echo hs => exact .echo (hreads _ _ hs)
  | startRead hs => exact .startRead (hreads _ _ hs)
  | onWritten hi hout hs hb =>
    refine .onWritten ?_ (hview ▸ hout) hs ?_
    · simpa only [Config.InUse, hview] using hi
    · simpa only [Config.bound, hview] using hb
  | close hs => exact .close (hreads _ _ hs)
  | closeSession hs => exact .closeSession (hclosed _ _ hs)
  | closeAgain hs => exact .closeAgain (hclosed _ _ hs)
  | destroy hs => exact .destroy (hclosed _ _ hs)

/-- A packet that waits in the port is still to come. -/
theorem out_pos_of_queue {p : Packet} {queue : List Packet} (hqueue : c.io.queue = p :: queue) :
    0 < c.io.view.out p.ctx :=
  Nat.add_pos_right _ (by rw [hqueue, List.countP_cons_of_pos (by simp)]; omega)

/-- Nothing is being closed between two callbacks. -/
theorem Inv.at_rest (h : Inv closing c) (htodo : c.todo = []) : Inv none c := by
  have hpoint := h.point
  rw [htodo] at hpoint
  cases hpoint with
  | rest => exact h

theorem inv_of_rest (h : Accounts none c) (htodo : c.todo = []) : Inv none c where
  accounts := h
  point := htodo ▸ .rest
  user hne := absurd htodo hne

variable (h : Inv closing c)

include h

/-- `Server::Start`. -/
theorem spec_of_start (htodo : c.todo = []) (hctl : c.io.ctl = .idle) (hctx : c.server.ctx = none)
    (hstep : (do
      let (c, ctx) ← c.alloc fd flagAssociate associated
      let ctx ← ctx
      return { c with server := { c.server with ctx := some ctx }, todo := [.startAccept] }) =
        some c') : Effect c (.start fd associated) c' ∧ Inv none c' := by
  have hacc := (h.at_rest htodo).accounts
  have huser : c.io.ctl.stage = .user := by rw [hctl]; rfl
  cases associated with
  | false =>
    obtain ⟨io, halloc, -, -⟩ := alloc_failed_spec hacc huser fd
    simp [halloc] at hstep
  | true =>
    obtain ⟨io, halloc, hface, hmoved, -, hacc'⟩ :=
      alloc_spec hacc huser fd flagAssociate true fun _ => rfl
    obtain rfl : { c with
        io := io, server := { c.server with ctx := some c.io.view.size }, todo := [.startAccept] } =
        c' := by simpa [halloc] using hstep
    refine ⟨.started htodo hctx hmoved.toShows, ?_, ?_, fun _ => hmoved.ctl ▸ huser⟩
    · exact (hacc'.of_started hctx hface rfl (hasBits_zero _) fun s o hs =>
        hacc.recvCtx_ne_size hs).of_todo _ _
    · refine .startAccept ⟨rfl, ?_⟩
      rw [← hacc.out_size]
      exact congrFun hmoved.out _

/-- An operation completes. -/
theorem spec_of_complete (hstep : c.perform [.complete k status bytes] = some c') :
    Effect c (.complete k status bytes) c' ∧ Inv closing c' := by
  simp only [Config.perform, run_cons, run_nil, Option.bind_eq_bind, Option.bind_eq_some_iff,
    Option.pure_def, Option.some.injEq] at hstep
  obtain ⟨io, ⟨io', hio, rfl⟩, rfl⟩ := hstep
  have hview := CompletionPortService.view_complete hio
  obtain ⟨hmoved, hacc⟩ := same_spec h.accounts rfl hio hview
  exact ⟨.completed hmoved.toShows, hacc, h.point.of_view hview, fun hne =>
    hmoved.ctl ▸ h.user hne⟩

/-- `Run` goes on to wait for a packet, or returns without one. -/
theorem spec_of_quiet (htodo : c.todo = []) (he : e.quiet = true)
    (hstep : c.perform [e] = some c') : Effect c (.quiet e) c' ∧ Inv none c' := by
  simp only [Config.perform, run_cons, run_nil, Option.bind_eq_bind, Option.bind_eq_some_iff,
    Option.pure_def, Option.some.injEq] at hstep
  obtain ⟨io, ⟨io', hio, rfl⟩, rfl⟩ := hstep
  obtain ⟨hview, -, -⟩ := CompletionPortService.view_quiet he hio
  have hkeeps : e.keeps = true := by
    cases e <;> first | rfl | simp [CompletionPortService.Event.quiet] at he
  have hdriven := CompletionPortService.driven_of_keeps h.accounts.driven hkeeps hio
  refine ⟨.quieted htodo ⟨by rw [hview], fun j => by rw [hview]; rfl⟩, inv_of_rest ?_ htodo⟩
  exact (h.at_rest htodo).accounts.of_out hdriven c.io.view.out _ hview fun _ => le_rfl

/-- A context is lazily deleted when nothing is outstanding on it any more. -/
theorem Inv.driven_of_run (he : e = .dequeued ∨ e = .callbackReturn)
    (hio : CompletionPortService.step c.io e = some io) : Driven io := by
  refine CompletionPortService.driven_of_deletes h.accounts.driven he (fun i hi => ?_) hio
  obtain ⟨y, hy, hlazy⟩ :=
    CompletionPortService.exists_face_of_lazy (CompletionPortService.lazy_of_deletes hi)
  exact h.accounts.idle i y hy hlazy

/-- `Run` dequeues a packet, and calls the callback of its context, unless the operation has
failed. -/
theorem spec_of_dequeued (htodo : c.todo = [])
    (hstep : (do let c ← c.perform [.dequeued]; c.enter) = some c') :
    Effect c .dequeued c' ∧ (c'.fault = false → Inv none c') := by
  simp only [Config.perform, run_cons, run_nil, Option.bind_eq_bind, Option.bind_eq_some_iff,
    Option.pure_def, Option.some.injEq] at hstep
  obtain ⟨_, ⟨io, ⟨io', hio, rfl⟩, rfl⟩, hstep⟩ := hstep
  have hinv := h.at_rest htodo
  obtain ⟨p, queue, hqueue⟩ : ∃ p queue, c.io.queue = p :: queue := by
    cases CompletionPortService.effect_of_step hio with
    | dequeued _ hqueue => exact ⟨_, _, hqueue⟩
  have hpos := out_pos_of_queue hqueue
  obtain ⟨hd, hb, hreads⟩ := hinv.accounts.busy p.ctx hpos
  obtain ⟨y, hy, cb, hcb, hh⟩ := face_of_bound hb
  obtain ⟨hview, hctl⟩ := CompletionPortService.view_dequeued hqueue hy
    (fun hnone => by rw [hnone] at hcb; cases hcb) hio
  have hzero : c.io.view.out p.ctx - 1 = 0 := by
    have := hinv.accounts.alone p.ctx
    omega
  have hacc := hinv.accounts.of_out (h.driven_of_run (Or.inl rfl) hio) _ _ hview fun i => by
    by_cases hi : i = p.ctx
    · rw [hi, update_self]
      exact Nat.sub_le _ _
    · rw [update_of_ne hi]
  have hshows : Shows io' (update c.io.view.out p.ctx (c.io.view.out p.ctx - 1)) c.InUse :=
    ⟨by rw [hview], fun j => by rw [hview]; rfl⟩
  have hout : io'.view.out p.ctx = 0 := by
    rw [hshows.out, update_self, hzero]
  cases hok : p.ok with
  | false =>
    rw [hok] at hctl
    simp only [Config.enter, hctl, Bool.false_eq_true, if_false] at hstep
    obtain rfl := Option.some.inj hstep
    exact ⟨.failed htodo hqueue hok hshows, fun _ => inv_of_rest hacc htodo⟩
  | true =>
    rw [hok] at hctl
    have hbound : Config.bound { c with io := io' } p.ctx = some hd := by
      simpa only [Config.bound, hview] using hb
    simp only [Config.enter, hctl, if_true] at hstep
    change (do let h ← Config.bound { c with io := io' } p.ctx; _) = some c' at hstep
    rw [hbound, Option.bind_eq_bind, Option.bind_some] at hstep
    obtain rfl := Option.some.inj hstep
    refine ⟨.delivered htodo hqueue hok hb hshows, fun hfault => ?_⟩
    refine ⟨hacc.of_todo _ _, ?_, fun _ => by simp [hctl, CompletionPortService.Control.stage]⟩
    have hfit := hinv.accounts.fits p.ctx hd hb
    cases hd with
    | onAccept j =>
      obtain ⟨rfl, hctx⟩ := hfit
      exact .onAccept ⟨hctx, hout⟩
    | onRead s j =>
      obtain ⟨rfl, -, hrecv⟩ := hfit
      obtain ⟨o, hs, ho⟩ := hreads s rfl
      have hctx := hrecv o hs
      rw [← hctx] at hout ⊢
      exact .onRead ⟨hs, ho, hout⟩
    | onWritten s j =>
      obtain ⟨rfl, -⟩ := hfit
      simp only [Handler.session?, Option.any_some, Option.isNone_eq_false_iff] at hfault
      obtain ⟨o, hs⟩ := Option.isSome_iff_exists.mp hfault
      exact .onWritten ((hshows.used _).mpr (hinv.accounts.inUse_of_out hpos)) hout hs hbound

/-- The callback returns. -/
theorem spec_of_callbackReturn (htodo : c.todo = [])
    (hstep : c.perform [.callbackReturn] = some c') :
    Effect c .callbackReturn c' ∧ Inv none c' := by
  simp only [Config.perform, run_cons, run_nil, Option.bind_eq_bind, Option.bind_eq_some_iff,
    Option.pure_def, Option.some.injEq] at hstep
  obtain ⟨io, ⟨io', hio, rfl⟩, rfl⟩ := hstep
  have hinv := h.at_rest htodo
  obtain ⟨d, hctl⟩ : ∃ d, c.io.ctl = .callback d := by
    cases CompletionPortService.effect_of_step hio with
    | resumed hctl => exact ⟨_, hctl⟩
  obtain ⟨y, hy⟩ :=
    CompletionPortService.live_iff_face.mp (hinv.accounts.driven.live.callback d hctl)
  have hview := CompletionPortService.view_callbackReturn hctl hy hio
  have hdriven := h.driven_of_run (Or.inr rfl) hio
  cases hlazy : y.lazy with
  | false =>
    rw [hlazy] at hview
    simp only [Bool.false_eq_true, if_false] at hview
    refine ⟨.returned htodo ⟨by rw [hview], fun j => by rw [hview]; rfl⟩, inv_of_rest ?_ htodo⟩
    exact hinv.accounts.of_out hdriven c.io.view.out _ hview fun _ => le_rfl
  | true =>
    rw [hlazy] at hview
    simp only [if_true] at hview
    refine ⟨.returned htodo ⟨by rw [hview], fun j => ?_⟩,
      inv_of_rest (hinv.accounts.of_deleted hdriven hy hlazy hview) htodo⟩
    rw [hview]
    change (∃ z, update c.io.view.face d.packet.ctx none j = some z ∧ z.lazy = false) ↔ _
    by_cases hj : j = d.packet.ctx
    · subst hj
      rw [update_self]
      refine iff_of_false (by simp) ?_
      rintro ⟨z, hz, hzlazy⟩
      rw [Option.some.inj (hz.symm.trans hy), hlazy] at hzlazy
      cases hzlazy
    · rw [update_of_ne hj]
      rfl

omit h in
theorem step_exec (hfault : c.fault = false) {t : Task} {rest : List Task}
    (htodo : c.todo = t :: rest) (a : Answer) :
    step c (.exec a) = exec { c with todo := rest } a t := by
  rw [step, if_neg (by simp [hfault])]
  simp only [htodo]

/-- **The step lemma.**  A step has one of the effects, and leaves the invariant unless there is a
fault. -/
theorem spec_of_step (hfew : c.objs.length < 2147481646) {e : Event}
    (hstep : step c e = some c') :
    Effect c e c' ∧ (c'.fault = false → ∃ closing', Inv closing' c') := by
  unfold step at hstep
  split at hstep
  · cases hstep
  · split at hstep
    · next htodo =>
      obtain ⟨c'', hexec, heffect, hinv⟩ := exec_spec h hfew htodo _
      obtain rfl := Option.some.inj (hexec.symm.trans hstep)
      exact ⟨heffect, fun _ => hinv⟩
    · obtain ⟨heffect, hinv⟩ := spec_of_complete h hstep
      exact ⟨heffect, fun _ => ⟨_, hinv⟩⟩
    · next htodo =>
      split at hstep
      · next hcond =>
        obtain ⟨heffect, hinv⟩ := spec_of_start h htodo hcond.1 hcond.2 hstep
        exact ⟨heffect, fun _ => ⟨_, hinv⟩⟩
      · cases hstep
    · next htodo =>
      split at hstep
      · next hquiet =>
        obtain ⟨heffect, hinv⟩ := spec_of_quiet h htodo hquiet hstep
        exact ⟨heffect, fun _ => ⟨_, hinv⟩⟩
      · cases hstep
    · next htodo =>
      obtain ⟨heffect, hinv⟩ := spec_of_dequeued h htodo hstep
      exact ⟨heffect, fun hfault => ⟨_, hinv hfault⟩⟩
    · next htodo =>
      obtain ⟨heffect, hinv⟩ := spec_of_callbackReturn h htodo hstep
      exact ⟨heffect, fun _ => ⟨_, hinv⟩⟩
    · cases hstep

end

end PingPong

end WinsockTut
