import WinsockTut.Async.Entry
import WinsockTut.Echo.Accounts

/-!
# Who calls the echo server

A poller calls the sinks that are registered with it, and `respond` is what they do.  `enroll` is
what the calls of the server do to the registered sinks, and `Agrees` says that the server and its
open connections are the only ones.  So a callback that goes to a registered sink is defined
(`Agrees.respond_defined`), and leaves the server and its poller in agreement (`Agrees.responded`).
Each of the pollers has to make its callbacks to registered sinks; how far it does is said in the
modules about the machines.
-/

namespace WinsockTut

/-- The socket of a call. -/
def Call.socket : Call → Socket
  | .addFd fd _ => fd
  | .removeFd fd => fd
  | .setPollIn fd => fd
  | .resetPollIn fd => fd
  | .setPollOut fd => fd
  | .resetPollOut fd => fd

/-- The call changes an interest of a socket. -/
def Call.interest : Call → Bool
  | .addFd _ _ => false
  | .removeFd _ => false
  | .setPollIn _ => true
  | .resetPollIn _ => true
  | .setPollOut _ => true
  | .resetPollOut _ => true

namespace EchoServer

open Function

variable {s s' : EchoServer} {e : Event} {calls : List Call} {a : Answer} {fd fd' : Socket}
  {k : ConnId} {x : EchoConn} {sink : Sink} {refused : Bool} {l : List (Socket × Sink)}
  {r : Socket × Sink} {d : Direction}

/-- What a call does to the registered sinks. -/
def enroll (refused : Bool) (l : List (Socket × Sink)) : Call → List (Socket × Sink)
  | .addFd fd sink => if refused then l else l ++ [(fd, sink)]
  | .removeFd fd => l.eraseP fun r => r.1 = fd
  | .setPollIn _ | .resetPollIn _ | .setPollOut _ | .resetPollOut _ => l

/-- The event at the server when `OnReadable` of a sink is called. -/
def called (refused : Bool) (a : Answer) : Sink → Event
  | 0 => .accept refused a
  | k + 1 => .read k a

/-- `OnWritable` of a sink, which does nothing; but its object must not have been deleted. -/
def onWritable (s : EchoServer) : Sink → Option (EchoServer × List Call)
  | 0 => some (s, [])
  | k + 1 => (s.conn k).map fun _ => (s, [])

/-- The callback of a sink; `refused` says whether the poller refuses the socket that is added. -/
def respond (s : EchoServer) (refused : Bool) (a : Answer) (sink : Sink) :
    Direction → Option (EchoServer × List Call)
  | .read => s.act (called refused a sink)
  | .write => s.onWritable sink

/-- In its callback, the connection closes its socket and deletes itself. -/
def ends (s : EchoServer) (a : Answer) : Sink → Direction → Bool
  | k + 1, .read => (s.conn k).any fun x => x.fd ≠ invalidSocket ∧ HangsUp x.recvCount a
  | _, _ => false

/-- The calls are about sockets. -/
theorem Effect.valid (heff : Effect s e s' calls) : ∀ k ∈ calls, k.socket ≠ invalidSocket := by
  cases heff with
  | started hnone hfresh => simpa [Call.socket] using hfresh.1
  | idle => exact fun _ hk => absurd hk List.not_mem_nil
  | refused hfresh => simpa [Call.socket] using hfresh.1
  | accepted hfresh => simpa [Call.socket] using hfresh.1
  | quiet => exact fun _ hk => absurd hk List.not_mem_nil
  | echoed => exact fun _ hk => absurd hk List.not_mem_nil
  | closed hx hfd => simpa [Call.socket] using hfd

/-- At most one socket is added, in the first call. -/
theorem Effect.tail (heff : Effect s e s' calls) (fd : Socket) (sink : Sink) :
    .addFd fd sink ∉ calls.tail := by
  cases heff <;> simp

/-- The registered sinks are the server, and the connections of its table. -/
structure Agrees (s : EchoServer) (l : List (Socket × Sink)) : Prop where
  nodup : (l.map Prod.fst).Nodup
  sinks : ∀ r ∈ l, (r.1 = s.acceptor ∧ s.acceptor ≠ invalidSocket ∧ r.2 = serverSink) ∨
    ∃ k, s.connections r.1 = some k ∧ r.2 = connSink k
  mapped : ∀ fd k, s.connections fd = some k → (fd, connSink k) ∈ l

theorem agrees_init : Agrees init [] where
  nodup := List.nodup_nil
  sinks _ hr := absurd hr List.not_mem_nil
  mapped _ _ hk := nomatch hk

/-- A registered socket is open. -/
theorem Agrees.mem_opened (h : Agrees s l) (hs : Accounts s) (hr : r ∈ l) : r.1 ∈ s.opened := by
  rcases h.sinks r hr with ⟨hfd, hne, -⟩ | ⟨k, hk, -⟩
  · exact hfd ▸ hs.acceptor hne
  · exact (hs.mapped r.1 k hk).1

/-- **A callback to a registered sink is defined.** -/
theorem Agrees.exists_effect (h : Agrees s l) (hs : Accounts s) (hr : (fd, sink) ∈ l)
    (hmay : s.MayAccept a.accepted) (refused : Bool) :
    ∃ s' calls, s.act (called refused a sink) = some (s', calls) ∧
      Effect s (called refused a sink) s' calls := by
  rcases h.sinks _ hr with ⟨-, hne, rfl⟩ | ⟨k, hk, rfl⟩
  · refine hs.exists_effect nofun (fun refused' a' he => ?_) nofun
    obtain ⟨rfl, rfl⟩ := Event.accept.inj he
    exact ⟨hne, hmay⟩
  · refine hs.exists_effect nofun nofun fun k' a' he => ?_
    obtain ⟨rfl, rfl⟩ := Event.read.inj he
    obtain ⟨-, -, x, hx, -⟩ := hs.mapped fd k hk
    simp [hx]

/-- A socket that is registered once is gone when it is removed. -/
theorem mem_eraseP_of_nodup (hnd : (l.map Prod.fst).Nodup) :
    r ∈ l.eraseP (fun r => r.1 = fd) ↔ r ∈ l ∧ r.1 ≠ fd := by
  induction l with
  | nil => simp
  | cons q l ih =>
    rw [List.map_cons, List.nodup_cons] at hnd
    by_cases hq : q.1 = fd
    · rw [List.eraseP_cons_of_pos (by simpa using hq)]
      constructor
      · intro hr
        refine ⟨List.mem_cons_of_mem q hr, fun hfd => hnd.1 ?_⟩
        exact hq.trans hfd.symm ▸ List.mem_map_of_mem hr
      · rintro ⟨hr, hne⟩
        exact (List.mem_cons.mp hr).resolve_left fun heq => hne (heq ▸ hq)
    · rw [List.eraseP_cons_of_neg (by simpa using hq), List.mem_cons, ih hnd.2, List.mem_cons,
        or_and_right]
      refine or_congr_left ⟨fun heq => ⟨heq, heq ▸ hq⟩, And.left⟩

/-- A new socket is registered. -/
theorem Agrees.add (h : Agrees s l) (hs : Accounts s) (hfresh : s.Fresh fd) (sink : Sink) :
    ((l ++ [(fd, sink)]).map Prod.fst).Nodup := by
  rw [List.map_append, List.map_singleton]
  refine List.nodup_append.mpr ⟨h.nodup, List.nodup_singleton fd, fun fd' hfd' q hq => ?_⟩
  obtain rfl := List.mem_singleton.mp hq
  rintro rfl
  obtain ⟨r, hr, rfl⟩ := List.mem_map.mp hfd'
  exact hfresh.2 (h.mem_opened hs hr)

/-- **The agreement is kept** by the calls that the server makes. -/
theorem Agrees.step (h : Agrees s l) (hs : Accounts s) (heff : Effect s e s' calls)
    (hrefused : ∀ refused' a, e = .accept refused' a → refused' = refused) :
    Agrees s' (calls.foldl (enroll refused) l) := by
  cases heff with
  | @started fd hnone hfresh =>
    have hold : ∀ r ∈ l, ∃ k, s.connections r.1 = some k ∧ r.2 = connSink k := fun r hr =>
      (h.sinks r hr).resolve_left fun hacceptor => hacceptor.2.1 hnone
    have hadded : Agrees { s with acceptor := fd, opened := fd :: s.opened }
        (l ++ [(fd, serverSink)]) := by
      refine ⟨h.add hs hfresh serverSink, fun r hr => ?_, fun fd' k hk => ?_⟩
      · rcases List.mem_append.mp hr with hr | hr
        · exact Or.inr (hold r hr)
        · obtain rfl := List.mem_singleton.mp hr
          exact Or.inl ⟨rfl, hfresh.1, rfl⟩
      · exact List.mem_append_left _ (h.mapped fd' k hk)
    cases refused with
    | true => exact ⟨h.nodup, fun r hr => Or.inr (hold r hr), h.mapped⟩
    | false => exact hadded
  | idle => exact h
  | @refused a hfresh =>
    obtain rfl := hrefused true a rfl
    exact ⟨h.nodup, h.sinks, h.mapped⟩
  | @accepted a hfresh =>
    obtain rfl := hrefused false a rfl
    have hnone := hs.not_mapped hfresh.2
    refine ⟨h.add hs hfresh (connSink s.conns.length), fun r hr => ?_, fun fd' k hk => ?_⟩
    · rcases List.mem_append.mp hr with hr | hr
      · rcases h.sinks r hr with hacceptor | ⟨k, hk, hsink⟩
        · exact Or.inl hacceptor
        · have hne : r.1 ≠ a.accepted := by
            intro heq
            rw [heq, hnone] at hk
            cases hk
          exact Or.inr ⟨k, (update_of_ne hne _ _).trans hk, hsink⟩
      · obtain rfl := List.mem_singleton.mp hr
        exact Or.inr ⟨s.conns.length, update_self _ _ _, rfl⟩
    · by_cases hfd : fd' = a.accepted
      · subst hfd
        have hk : some s.conns.length = some k :=
        (update_self a.accepted (some s.conns.length) s.connections).symm.trans hk
        obtain rfl := Option.some.inj hk
        exact List.mem_append_right l (List.mem_singleton_self _)
      · have hk : s.connections fd' = some k := (update_of_ne hfd _ _).symm.trans hk
        exact List.mem_append_left _ (h.mapped fd' k hk)
  | quiet => exact h
  | echoed => exact ⟨h.nodup, h.sinks, h.mapped⟩
  | @closed k a x hx hfd hmapped hend =>
    have hacceptor := (hs.mem_opened hx hfd).2
    refine ⟨h.nodup.sublist (List.eraseP_sublist.map Prod.fst), fun r hr => ?_,
      fun fd' k' hk' => ?_⟩
    · obtain ⟨hr, hne⟩ := (mem_eraseP_of_nodup h.nodup).mp hr
      rcases h.sinks r hr with hr | ⟨k', hk', hsink⟩
      · exact Or.inl hr
      · exact Or.inr ⟨k', (update_of_ne hne _ _).trans hk', hsink⟩
    · have hne : fd' ≠ x.fd := by
        rintro rfl
        cases (update_self _ _ _).symm.trans hk'
      have hk' : s.connections fd' = some k' := (update_of_ne hne _ _).symm.trans hk'
      exact (mem_eraseP_of_nodup h.nodup).mpr ⟨h.mapped fd' k' hk', hne⟩

/-- The function that is called to read removes the socket of its own connection, if that ends, and
no other. -/
theorem Agrees.removes (h : Agrees s l) (hs : Accounts s) (hr : (fd, sink) ∈ l)
    (heff : Effect s (called refused a sink) s' calls) :
    (s.ends a sink .read = true ∧ calls = [.removeFd fd] ∧
        ∃ k, sink = connSink k ∧ s'.conn k = none) ∨
      (s.ends a sink .read = false ∧ ∀ fd', .removeFd fd' ∉ calls) := by
  rcases h.sinks _ hr with ⟨-, -, rfl⟩ | ⟨k, hk, rfl⟩
  · refine Or.inr ⟨rfl, fun fd' hmem => ?_⟩
    generalize he : called refused a serverSink = e at heff
    cases heff with
    | started => cases he
    | idle => exact absurd hmem List.not_mem_nil
    | refused => simp at hmem
    | accepted => simp at hmem
    | quiet => cases he
    | echoed => cases he
    | closed => cases he
  · generalize he : called refused a (connSink k) = e at heff
    cases heff with
    | started => cases he
    | idle => cases he
    | refused => cases he
    | accepted => cases he
    | @quiet k' a' x hx hclosed =>
      obtain ⟨rfl, rfl⟩ := Event.read.inj he
      exact Or.inr ⟨by simp [ends, connSink, hx, hclosed], fun _ => List.not_mem_nil⟩
    | @echoed k' a' x hx hfd hstay =>
      obtain ⟨rfl, rfl⟩ := Event.read.inj he
      exact Or.inr ⟨by simp [ends, connSink, hx, hstay], fun _ => List.not_mem_nil⟩
    | @closed k' a' x hx hfd hmapped hend =>
      obtain ⟨rfl, rfl⟩ := Event.read.inj he
      obtain rfl := hs.apart fd x.fd k hk hmapped
      refine Or.inl ⟨by simp [ends, connSink, hx, hfd, hend], rfl, k, rfl, ?_⟩
      exact (conn_set (lt_of_conn hx) none k).trans (if_pos rfl)

/-! ### Callbacks -/

/-- **A callback of a registered sink is defined.** -/
theorem Agrees.respond_defined (h : Agrees s l) (hs : Accounts s) (hr : (fd, sink) ∈ l)
    (hmay : s.MayAccept a.accepted) (refused : Bool) (d : Direction) :
    (s.respond refused a sink d).isSome = true := by
  cases d with
  | read =>
    obtain ⟨s', calls, hact, -⟩ := h.exists_effect hs hr hmay refused
    exact Option.isSome_iff_exists.mpr ⟨_, hact⟩
  | write =>
    rcases h.sinks _ hr with ⟨-, -, rfl⟩ | ⟨k, hk, rfl⟩
    · rfl
    · obtain ⟨-, -, x, hx, -⟩ := hs.mapped fd k hk
      simp [respond, onWritable, connSink, hx]

/-- What is known after a callback of the sink of `fd`. -/
structure Responded (s : EchoServer) (refused : Bool) (a : Answer) (fd : Socket) (sink : Sink)
    (d : Direction) (l : List (Socket × Sink)) (s' : EchoServer) (calls : List Call) : Prop where
  accounts : Accounts s'
  agrees : Agrees s' (calls.foldl (enroll refused) l)
  valid : ∀ k ∈ calls, k.socket ≠ invalidSocket
  /-- At most one socket is added, in the first call. -/
  tail : ∀ fd' sink', .addFd fd' sink' ∉ calls.tail
  adds : ∀ fd' sink', .addFd fd' sink' ∈ calls → fd' = a.accepted ∧ sink' = connSink s.conns.length
  removes : (s.ends a sink d = true ∧ calls = [.removeFd fd] ∧
      ∀ refused' a' d', s'.respond refused' a' sink d' = none) ∨
    (s.ends a sink d = false ∧ ∀ fd', .removeFd fd' ∉ calls)

/-- **What a callback of a registered sink does.** -/
theorem Agrees.responded (h : Agrees s l) (hs : Accounts s) (hr : (fd, sink) ∈ l)
    (hresp : s.respond refused a sink d = some (s', calls)) :
    Responded s refused a fd sink d l s' calls := by
  cases d with
  | write =>
    have hsame : s' = s ∧ calls = [] := by
      cases sink with
      | zero =>
        obtain ⟨hs', hcalls⟩ := Prod.mk.inj (Option.some.inj hresp)
        exact ⟨hs'.symm, hcalls.symm⟩
      | succ k =>
        obtain ⟨x, -, hx⟩ := Option.map_eq_some_iff.mp hresp
        obtain ⟨hs', hcalls⟩ := Prod.mk.inj hx
        exact ⟨hs'.symm, hcalls.symm⟩
    obtain ⟨rfl, rfl⟩ := hsame
    have hstays : s'.ends a sink .write = false := by
      cases sink <;> rfl
    exact ⟨hs, h, fun _ hk => absurd hk List.not_mem_nil, fun _ _ => List.not_mem_nil,
      fun _ _ hk => absurd hk List.not_mem_nil, Or.inr ⟨hstays, fun _ => List.not_mem_nil⟩⟩
  | read =>
    have heff : Effect s (called refused a sink) s' calls := hs.effect hresp
    refine ⟨hs.step heff, h.step hs heff fun refused' a' he => ?_, heff.valid, heff.tail,
      fun fd' sink' hmem => ?_, ?_⟩
    · cases sink with
      | zero => exact (Event.accept.inj he).1.symm
      | succ k => cases he
    · rcases heff.adds hmem with ⟨he, -⟩ | ⟨refused', a', he, rfl, rfl⟩
      · cases sink <;> cases he
      · cases sink with
        | zero =>
          obtain ⟨-, rfl⟩ := Event.accept.inj he
          exact ⟨rfl, rfl⟩
        | succ k => cases he
    · rcases h.removes hs hr heff with ⟨hends, hcalls, k, rfl, hk⟩ | hstays
      · refine Or.inl ⟨hends, hcalls, fun refused' a' d' => ?_⟩
        cases d' with
        | read => simp [respond, called, connSink, act, startRead, hk]
        | write => simp [respond, onWritable, connSink, hk]
      · exact Or.inr hstays

end EchoServer

end WinsockTut
