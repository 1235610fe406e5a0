import WinsockTut.Echo.Accounts

/-!
# The sockets of the echo server

A connection that is closed before it is entered in the table is not found there, so its socket
stays open, and it stays in the table itself.  `sockets_of_runs` says that these sockets, and the
ones that the poller refused, are all that is ever lost, and that they are lost for good.
`cleanup_iff` says when `Cleanup` deletes nothing twice.
-/

namespace WinsockTut

namespace EchoServer

open Runs Function

variable {s s' t u : EchoServer} {e : Event} {es : List Event} {calls : List Call} {a : Answer}
  {fd fd' : Socket} {k k' : ConnId} {x : EchoConn} {refused : Bool}

/-! ### The sockets that are lost -/

/-- The connection `k` serves the socket. -/
def Serves (s : EchoServer) (k : ConnId) (fd : Socket) : Prop :=
  s.connections fd = some k ∧ ∃ x, s.conn k = some x ∧ x.fd = fd

/-- The socket is open, but no connection knows it. -/
def Stranded (s : EchoServer) (fd : Socket) : Prop :=
  fd ∈ s.opened ∧ fd ≠ s.acceptor ∧ ∀ k x, s.conn k = some x → x.fd ≠ fd

/-- In this step, the socket is accepted, and is refused by the poller or read to its end at
once. -/
def Strands (fd : Socket) : Event → Prop
  | .accept refused a => a.accepted = fd ∧ fd ≠ invalidSocket ∧ (refused = true ∨ HangsUp 0 a)
  | _ => False

/-- No open connection has a new socket. -/
theorem Accounts.conn_ne (h : Accounts s) (hfresh : s.Fresh fd) (hx : s.conn k = some x) :
    x.fd ≠ fd := by
  rintro rfl
  exact hfresh.2 (h.mem_opened hx hfresh.1).1

/-- The lost sockets after a socket has been accepted. -/
theorem Accounts.stranded_created (h : Accounts s) (hfresh : s.Fresh fd) (y : Option EchoConn)
    (hy : ∀ x ∈ y, x.fd = fd ∨ x.fd = invalidSocket) {table : Socket → Option ConnId} :
    Stranded { s with conns := s.conns ++ [y], opened := fd :: s.opened
                      connections := table } fd' ↔
      Stranded s fd' ∨ fd' = fd ∧ ∀ x ∈ y, x.fd ≠ fd := by
  have hconn : ∀ k, conn { s with conns := s.conns ++ [y], opened := fd :: s.opened
                                  connections := table } k =
      if k = s.conns.length then y else s.conn k := conn_append y
  have hconns : (∀ k x, conn { s with conns := s.conns ++ [y], opened := fd :: s.opened
                                      connections := table } k = some x → x.fd ≠ fd') ↔
      (∀ x ∈ y, x.fd ≠ fd') ∧ ∀ k x, s.conn k = some x → x.fd ≠ fd' := by
    constructor
    · intro hall
      refine ⟨fun x hx => hall s.conns.length x ((hconn _).trans ((if_pos rfl).trans hx)), ?_⟩
      intro k x hx
      exact hall k x ((hconn k).trans ((if_neg (lt_of_conn hx).ne).trans hx))
    · rintro ⟨hnew, hall⟩ k x hx
      have hx := (hconn k).symm.trans hx
      split at hx
      · exact hnew x hx
      · exact hall k x hx
  unfold Stranded
  rw [hconns, List.mem_cons]
  constructor
  · rintro ⟨rfl | hopen, hne, hnew, hall⟩
    · exact Or.inr ⟨rfl, hnew⟩
    · exact Or.inl ⟨hopen, hne, hall⟩
  · rintro (⟨hopen, hne, hall⟩ | ⟨rfl, hnew⟩)
    · refine ⟨Or.inr hopen, hne, fun x hx heq => ?_, hall⟩
      rcases hy x hx with hfd | hfd
      · exact hfresh.2 (hfd ▸ heq ▸ hopen)
      · exact h.valid (hfd ▸ heq ▸ hopen)
    · exact ⟨Or.inl rfl, h.ne_acceptor hfresh, hnew, fun k x hx => h.conn_ne hfresh hx⟩

/-- **What is lost in a step.** -/
theorem Accounts.stranded_step (h : Accounts s) (heff : Effect s e s' calls) (fd : Socket) :
    Stranded s' fd ↔ Stranded s fd ∨ Strands fd e := by
  cases heff with
  | @started fd' hnone hfresh =>
    change Stranded _ fd ↔ Stranded s fd ∨ False
    rw [or_false]
    constructor
    · rintro ⟨hopen, hne, hall⟩
      have hopen := (List.mem_cons.mp hopen).resolve_left hne
      exact ⟨hopen, fun heq => h.valid (hnone ▸ heq ▸ hopen), hall⟩
    · rintro ⟨hopen, hne, hall⟩
      have hnew : fd ≠ fd' := fun heq => hfresh.2 (heq ▸ hopen)
      exact ⟨List.mem_cons_of_mem fd' hopen, hnew, hall⟩
  | @idle refused a hnone =>
    refine (or_iff_left ?_).symm
    rintro ⟨rfl, hne, -⟩
    exact hne hnone
  | @refused a hfresh =>
    rw [h.stranded_created hfresh none (fun x hx => nomatch hx)]
    refine or_congr_right ⟨?_, ?_⟩
    · rintro ⟨rfl, -⟩
      exact ⟨rfl, hfresh.1, Or.inl rfl⟩
    · rintro ⟨rfl, -, -⟩
      exact ⟨rfl, fun x hx => nomatch hx⟩
  | @accepted a hfresh =>
    rw [h.stranded_created hfresh (some _) fun x hx => ?_]
    · refine or_congr_right ⟨?_, ?_⟩
      · rintro ⟨rfl, hnew⟩
        refine ⟨rfl, hfresh.1, Or.inr ?_⟩
        by_contra hstay
        exact hnew _ rfl (if_neg hstay)
      · rintro ⟨rfl, -, hlost⟩
        refine ⟨rfl, fun x hx => ?_⟩
        obtain rfl := Option.some.inj hx
        have hend : HangsUp 0 a := hlost.resolve_left Bool.false_ne_true
        change (if HangsUp 0 a then invalidSocket else a.accepted) ≠ a.accepted
        rw [if_pos hend]
        exact hfresh.1.symm
    · obtain rfl := Option.some.inj hx
      by_cases hend : HangsUp 0 a
      · exact Or.inr (if_pos hend)
      · exact Or.inl (if_neg hend)
  | quiet => exact (or_false _).symm.to_iff
  | @echoed k a x hx hfd hstay =>
    have hconn := conn_setConn hx { x with recvCount := counted x.recvCount a }
    change Stranded _ fd ↔ Stranded s fd ∨ False
    rw [or_false]
    refine and_congr_right fun _ => and_congr_right fun _ => ⟨fun hall k' y hy => ?_,
      fun hall k' y hy => ?_⟩
    · by_cases hkk : k' = k
      · obtain rfl := Option.some.inj ((hkk ▸ hy).symm.trans hx)
        exact hall k { y with recvCount := counted y.recvCount a } ((hconn k).trans (if_pos rfl))
      · exact hall k' y ((hconn k').trans ((if_neg hkk).trans hy))
    · have hy := (hconn k').symm.trans hy
      split at hy
      · obtain rfl := Option.some.inj hy
        exact hall k x hx
      · exact hall k' y hy
  | @closed k a x hx hfd hmapped hend =>
    have hconn := fun k' => conn_set (lt_of_conn hx) none k'
    change Stranded _ fd ↔ Stranded s fd ∨ False
    rw [or_false]
    by_cases hsame : fd = x.fd
    · subst hsame
      refine iff_of_false (fun hs => ?_) fun hs => hs.2.2 k x hx rfl
      exact h.opened.not_mem_erase hs.1
    · refine and_congr (List.mem_erase_of_ne hsame) (and_congr_right fun _ =>
        ⟨fun hall k' y hy => ?_, fun hall k' y hy => ?_⟩)
      · by_cases hkk : k' = k
        · obtain rfl := Option.some.inj ((hkk ▸ hy).symm.trans hx)
          exact Ne.symm hsame
        · exact hall k' y ((hconn k').trans ((if_neg hkk).trans hy))
      · have hy := (hconn k').symm.trans hy
        split at hy
        · cases hy
        · exact hall k' y hy

/-- The lost sockets of a run are those that some step of it has lost. -/
theorem stranded_of_runs (hrun : runs es = some s) (fd : Socket) :
    Stranded s fd ↔ ∃ e ∈ es, Strands fd e := by
  refine run_induction (P := fun es s => Stranded s fd ↔ ∃ e ∈ es, Strands fd e)
    (iff_of_false (fun h => absurd h.1 List.not_mem_nil) (by simp))
    (fun fs e t u _ ht ih hstep => ?_) hrun
  have h := accounts_of_runs ht
  obtain ⟨calls, heff⟩ := h.effect_of_step hstep
  rw [h.stranded_step heff fd, ih]
  simp only [List.mem_append, List.mem_singleton, or_and_right, exists_or, exists_eq_left]

/-- **The open sockets.**  In every run of the server, an open socket is the acceptor, is served by
one connection, or was refused by the poller or read to its end when it was accepted; and it is only
one of these.  The connections in the free store are those in the table, and an open connection has
received fewer than five messages. -/
theorem sockets_of_runs (hrun : runs es = some s) :
    s.opened.Nodup ∧
      (∀ fd, fd ∈ s.opened ↔ (fd = s.acceptor ∧ fd ≠ invalidSocket) ∨ (∃ k, s.Serves k fd) ∨
        ∃ e ∈ es, Strands fd e) ∧
      (∀ k fd, s.Serves k fd → fd ≠ s.acceptor ∧ ∀ k', s.Serves k' fd → k' = k) ∧
      (∀ fd, ∀ e ∈ es, Strands fd e → fd ≠ s.acceptor ∧ ∀ k, ¬ s.Serves k fd) ∧
      (∀ k, (s.conn k).isSome = true ↔ ∃ fd, s.connections fd = some k) ∧
      ∀ k x, s.conn k = some x → x.fd ≠ invalidSocket →
        0 ≤ x.recvCount ∧ x.recvCount < maxRecvCount := by
  have h := accounts_of_runs hrun
  have hopen : ∀ k fd, s.Serves k fd → fd ∈ s.opened ∧ fd ≠ s.acceptor := fun k fd hs =>
    ⟨(h.mapped fd k hs.1).1, (h.mapped fd k hs.1).2.1⟩
  refine ⟨h.opened, fun fd => ⟨fun hmem => ?_, ?_⟩, fun k fd hs => ⟨(hopen k fd hs).2, ?_⟩,
    fun fd e he hlost => ?_, fun k => ⟨fun hk => ?_, ?_⟩, h.count⟩
  · by_cases hacceptor : fd = s.acceptor
    · exact Or.inl ⟨hacceptor, fun heq => h.valid (heq ▸ hmem)⟩
    · refine Or.inr (or_iff_not_imp_left.mpr fun hnone => (stranded_of_runs hrun fd).mp ?_)
      refine ⟨hmem, hacceptor, fun k x hx hfd => hnone ⟨k, ?_, x, hx, hfd⟩⟩
      have hvalid : x.fd ≠ invalidSocket := fun heq => h.valid (heq ▸ hfd ▸ hmem)
      exact hfd ▸ h.mapped_of_open hx hvalid
  · rintro (⟨rfl, hne⟩ | ⟨k, hs⟩ | hlost)
    · exact h.acceptor hne
    · exact (hopen k fd hs).1
    · exact ((stranded_of_runs hrun fd).mpr hlost).1
  · intro k' hs'
    exact Option.some.inj (hs'.1.symm.trans hs.1)
  · obtain ⟨-, hne, hall⟩ := (stranded_of_runs hrun fd).mpr ⟨e, he, hlost⟩
    refine ⟨hne, ?_⟩
    rintro k ⟨-, x, hx, hfd⟩
    exact hall k x hx hfd
  · obtain ⟨x, hx⟩ := Option.isSome_iff_exists.mp hk
    exact h.owned k x hx
  · rintro ⟨fd, hk⟩
    obtain ⟨-, -, x, hx, -⟩ := h.mapped fd k hk
    simp [hx]

/-- Two connections are accepted.  The first one is read to its end at once; the second one echoes a
message. -/
def endsAtOnce : List Event :=
  [.start 5, .accept false ⟨7, -1, 0⟩, .accept false ⟨8, 0, 0⟩, .read 1 ⟨0, 10, 10⟩]

theorem sockets_endsAtOnce : ∃ s, runs endsAtOnce = some s ∧ s.opened = [8, 7, 5] ∧
    s.connections 7 = some 0 ∧ s.conn 0 = some ⟨invalidSocket, 0⟩ ∧ ∀ k, ¬ s.Serves k 7 := by
  have hstate : (runs endsAtOnce).map (fun s => (s.opened, s.connections 7, s.conn 0)) =
      some ([8, 7, 5], some 0, some ⟨invalidSocket, 0⟩) := by decide +kernel
  obtain ⟨s, hs, hfacts⟩ := Option.map_eq_some_iff.mp hstate
  simp only [Prod.mk.injEq] at hfacts
  obtain ⟨hopened, htable, hconn⟩ := hfacts
  have hlost : Strands 7 (.accept false ⟨7, -1, 0⟩) :=
    ⟨rfl, by decide, Or.inr (Or.inl (by decide))⟩
  obtain ⟨-, -, -, hserves, -⟩ := sockets_of_runs hs
  exact ⟨s, hs, hopened, htable, hconn, (hserves 7 _ (by decide) hlost).2⟩

/-! ### The destructor -/

theorem isSome_bind_some {α β : Type*} (o : Option α) (f : α → β) :
    (o.bind fun x => some (f x)).isSome = o.isSome := by
  cases o <;> rfl

/-- The loop of `Cleanup` is defined exactly if all connections it comes by are closed. -/
theorem cleanupLoop_isSome {ks : List ConnId} (hnd : ks.Nodup)
    (hks : ∀ k ∈ ks, ∃ x, s.conn k = some x ∧
      (x.fd ≠ invalidSocket → s.connections x.fd = some k)) :
    (s.cleanupLoop ks).isSome = true ↔ ∀ k ∈ ks, ∀ x, s.conn k = some x → x.fd = invalidSocket := by
  induction ks generalizing s with
  | nil => simp [cleanupLoop]
  | cons k ks ih =>
    obtain ⟨hk, hnd⟩ := List.nodup_cons.mp hnd
    obtain ⟨x, hx, hmapped⟩ := hks k List.mem_cons_self
    by_cases hfd : x.fd = invalidSocket
    · let t : EchoServer := { s with conns := s.conns.set k none }
      have hconn : ∀ k' ∈ ks, t.conn k' = s.conn k' := by
        intro k' hk'
        have hne : k' ≠ k := fun heq => hk (heq ▸ hk')
        exact (conn_set (lt_of_conn hx) none k').trans (if_neg hne)
      have hrest := ih (s := t) hnd fun k' hk' => by
        obtain ⟨y, hy, hmapped'⟩ := hks k' (List.mem_cons_of_mem k hk')
        exact ⟨y, (hconn k' hk').trans hy, hmapped'⟩
      have hloop : (s.cleanupLoop (k :: ks)).isSome = (t.cleanupLoop ks).isSome := by
        simp only [cleanupLoop, close_of_closed hx hfd, deleteConn, hx, Option.bind_eq_bind,
          Option.bind_some]
        exact isSome_bind_some _ _
      rw [hloop, hrest, List.forall_mem_cons]
      constructor
      · intro hall
        refine ⟨fun y hy => ?_, fun k' hk' y hy => hall k' hk' y ((hconn k' hk').trans hy)⟩
        rwa [← Option.some.inj (hx.symm.trans hy)]
      · rintro ⟨-, hall⟩ k' hk' y hy
        exact hall k' hk' y ((hconn k' hk').symm.trans hy)
    · -- the connection deletes itself, and is deleted again
      refine iff_of_false ?_ fun hall => hfd (hall k List.mem_cons_self x hx)
      have hgone : conn { s with conns := s.conns.set k none, opened := s.opened.erase x.fd
                                 connections := update s.connections x.fd none } k = none :=
        (conn_set (lt_of_conn hx) none k).trans (if_pos rfl)
      simp [cleanupLoop, close_of_mapped hx hfd (hmapped hfd), deleteConn, hgone]

/-- **`Cleanup` is defined exactly if no socket is being served**, whatever the order in which it
comes by the connections: it deletes every connection that is open twice. -/
theorem cleanup_iff (hrun : runs es = some s) {order : List ConnId} (hnd : order.Nodup)
    (horder : ∀ k, k ∈ order ↔ ∃ fd, s.connections fd = some k) :
    (s.cleanup order).isSome = true ↔ ∀ k fd, ¬ s.Serves k fd := by
  have h := accounts_of_runs hrun
  have hloop : ∀ t : EchoServer, t.conns = s.conns → t.connections = s.connections →
      ((t.cleanupLoop order).isSome = true ↔ ∀ k fd, ¬ s.Serves k fd) := by
    intro t hconns htable
    have hconn : ∀ k, t.conn k = s.conn k := by
      intro k
      rw [conn, hconns, conn]
    rw [cleanupLoop_isSome hnd fun k hk => ?_]
    · constructor
      · rintro hall k fd ⟨hk, x, hx, rfl⟩
        have hfd := hall k ((horder k).mpr ⟨x.fd, hk⟩) x ((hconn k).trans hx)
        exact h.valid (hfd ▸ (h.mapped x.fd k hk).1)
      · intro hnone k hk x hx
        by_contra hfd
        have hx : s.conn k = some x := (hconn k).symm.trans hx
        exact hnone k x.fd ⟨h.mapped_of_open hx hfd, x, hx, rfl⟩
    · obtain ⟨fd, hfd⟩ := (horder k).mp hk
      obtain ⟨-, -, x, hx, -⟩ := h.mapped fd k hfd
      refine ⟨x, (hconn k).trans hx, fun hopen => ?_⟩
      rw [htable]
      exact h.mapped_of_open hx hopen
  by_cases hacceptor : s.acceptor = invalidSocket
  · simpa [cleanup, hacceptor, isSome_bind_some] using hloop s rfl rfl
  · simpa [cleanup, hacceptor, isSome_bind_some] using
      hloop { s with acceptor := invalidSocket, opened := s.opened.erase s.acceptor } rfl rfl

/-- The server is destroyed while it serves a socket. -/
theorem cleanup_endsAtOnce : ∃ s, runs endsAtOnce = some s ∧ s.Serves 1 8 ∧
    (s.cleanup [0, 1]).isSome = false := by
  have hstate : (runs endsAtOnce).map (fun s => (s.connections 8, s.conns)) =
      some (some 1, [some ⟨invalidSocket, 0⟩, some ⟨8, 1⟩]) := by decide +kernel
  obtain ⟨s, hs, hfacts⟩ := Option.map_eq_some_iff.mp hstate
  obtain ⟨htable, hconns⟩ := Prod.mk.inj hfacts
  have hserves : s.Serves 1 8 := ⟨htable, ⟨8, 1⟩, by simp [conn, hconns], rfl⟩
  have h := accounts_of_runs hs
  have horder : ∀ k, k ∈ [0, 1] ↔ ∃ fd, s.connections fd = some k := by
    intro k
    constructor
    · intro hk
      obtain ⟨x, hx⟩ : ∃ x, s.conn k = some x := by
        rcases List.mem_pair.mp hk with rfl | rfl <;> simp [conn, hconns]
      exact h.owned k x hx
    · rintro ⟨fd, hfd⟩
      obtain ⟨-, -, x, hx, -⟩ := h.mapped fd k hfd
      have hlt := lt_of_conn hx
      rw [hconns] at hlt
      exact List.mem_pair.mpr (Nat.le_one_iff_eq_zero_or_eq_one.mp (Nat.lt_succ_iff.mp hlt))
  refine ⟨s, hs, hserves, ?_⟩
  rw [← Bool.not_eq_true, cleanup_iff hs (by decide) horder]
  exact fun hnone => hnone 1 8 hserves

end EchoServer

end WinsockTut
