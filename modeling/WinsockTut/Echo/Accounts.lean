import WinsockTut.Echo.Server

/-!
# The accounts of the echo server

`Accounts` says how the connections, the table `connections_` and the open sockets belong together,
and `Effect` what each event does in a state with good accounts.  Both are about the server by
itself: they hold whoever calls it, as long as no deleted connection is called.
-/

namespace WinsockTut

namespace EchoServer

open Runs Function

variable {s s' t u : EchoServer} {e : Event} {es : List Event} {calls : List Call} {a : Answer}
  {fd fd' : Socket} {k k' : ConnId} {x : EchoConn} {refused : Bool}

/-- The connection closes itself when it has read and written with these results. -/
def HangsUp (n : ℤ) (a : Answer) : Prop :=
  a.read < 0 ∨ 0 < a.read ∧ (maxRecvCount ≤ n + 1 ∨ a.written < 0)

instance (n : ℤ) (a : Answer) : Decidable (HangsUp n a) := inferInstanceAs (Decidable (_ ∨ _))

/-- The messages a connection has received after it has read. -/
def counted (n : ℤ) (a : Answer) : ℤ := if 0 < a.read then n + 1 else n

/-- The accounts of the server. -/
structure Accounts (s : EchoServer) : Prop where
  opened : s.opened.Nodup
  valid : invalidSocket ∉ s.opened
  acceptor : s.acceptor ≠ invalidSocket → s.acceptor ∈ s.opened
  /-- A connection in the table is open under its socket, or closed. -/
  mapped : ∀ fd k, s.connections fd = some k → fd ∈ s.opened ∧ fd ≠ s.acceptor ∧
    ∃ x, s.conn k = some x ∧ (x.fd = fd ∨ x.fd = invalidSocket)
  apart : ∀ fd fd' k, s.connections fd = some k → s.connections fd' = some k → fd = fd'
  /-- No connection has been forgotten. -/
  owned : ∀ k x, s.conn k = some x → ∃ fd, s.connections fd = some k
  count : ∀ k x, s.conn k = some x → x.fd ≠ invalidSocket →
    0 ≤ x.recvCount ∧ x.recvCount < maxRecvCount

/-- What an event does. -/
inductive Effect (s : EchoServer) : Event → EchoServer → List Call → Prop
  | started {fd : Socket} (hnone : s.acceptor = invalidSocket) (hfresh : s.Fresh fd) :
      Effect s (.start fd) { s with acceptor := fd, opened := fd :: s.opened }
        [.addFd fd serverSink, .setPollIn fd]
  | idle {refused : Bool} {a : Answer} (hnone : a.accepted = invalidSocket) :
      Effect s (.accept refused a) s []
  | refused {a : Answer} (hfresh : s.Fresh a.accepted) :
      Effect s (.accept true a)
        { s with conns := s.conns ++ [none], opened := a.accepted :: s.opened }
        [.addFd a.accepted (connSink s.conns.length)]
  | accepted {a : Answer} (hfresh : s.Fresh a.accepted) :
      Effect s (.accept false a)
        { s with
          conns := s.conns ++
            [some ⟨if HangsUp 0 a then invalidSocket else a.accepted, counted 0 a⟩]
          opened := a.accepted :: s.opened
          connections := update s.connections a.accepted (some s.conns.length) }
        [.addFd a.accepted (connSink s.conns.length), .setPollIn a.accepted,
          .setPollOut a.accepted]
  | quiet {k : ConnId} {a : Answer} {x : EchoConn} (hx : s.conn k = some x)
      (hclosed : x.fd = invalidSocket) : Effect s (.read k a) s []
  | echoed {k : ConnId} {a : Answer} {x : EchoConn} (hx : s.conn k = some x)
      (hfd : x.fd ≠ invalidSocket) (hstay : ¬ HangsUp x.recvCount a) :
      Effect s (.read k a) (s.setConn k { x with recvCount := counted x.recvCount a }) []
  | closed {k : ConnId} {a : Answer} {x : EchoConn} (hx : s.conn k = some x)
      (hfd : x.fd ≠ invalidSocket) (hmapped : s.connections x.fd = some k)
      (hend : HangsUp x.recvCount a) :
      Effect s (.read k a)
        { s with
          conns := s.conns.set k none
          opened := s.opened.erase x.fd
          connections := update s.connections x.fd none } [.removeFd x.fd]

/-- The sockets that are added: the acceptor, and accepted sockets. -/
theorem Effect.adds {sink : Sink} (heff : Effect s e s' calls) (hmem : .addFd fd sink ∈ calls) :
    (e = .start fd ∧ sink = serverSink) ∨
      ∃ refused a, e = .accept refused a ∧ fd = a.accepted ∧ sink = connSink s.conns.length := by
  cases heff with
  | started =>
    obtain ⟨rfl, rfl⟩ : fd = _ ∧ sink = _ := by simpa using hmem
    exact Or.inl ⟨rfl, rfl⟩
  | idle => exact absurd hmem List.not_mem_nil
  | refused =>
    obtain ⟨rfl, rfl⟩ : fd = _ ∧ sink = _ := by simpa using hmem
    exact Or.inr ⟨_, _, rfl, rfl, rfl⟩
  | accepted =>
    obtain ⟨rfl, rfl⟩ : fd = _ ∧ sink = _ := by simpa using hmem
    exact Or.inr ⟨_, _, rfl, rfl, rfl⟩
  | quiet => exact absurd hmem List.not_mem_nil
  | echoed => exact absurd hmem List.not_mem_nil
  | closed => simp at hmem

/-! ### The connections in the free store -/

theorem lt_of_conn (h : s.conn k = some x) : k < s.conns.length := by
  by_contra hge
  simp [conn, List.getElem?_eq_none (not_lt.mp hge)] at h

theorem conn_set (hk : k < s.conns.length) (y : Option EchoConn) (k' : ConnId) :
    (s.conns.set k y)[k']?.join = if k' = k then y else s.conn k' := by
  by_cases h : k' = k
  · simp [h, List.getElem?_set_self hk]
  · rw [List.getElem?_set_ne (Ne.symm h), if_neg h, conn]

theorem conn_append (y : Option EchoConn) (k : ConnId) :
    (s.conns ++ [y])[k]?.join = if k = s.conns.length then y else s.conn k := by
  by_cases h : k = s.conns.length
  · simp [h]
  · rw [if_neg h, conn]
    rcases Nat.lt_or_gt_of_ne h with hlt | hgt
    · rw [List.getElem?_append_left hlt]
    · rw [List.getElem?_eq_none (by simp; omega), List.getElem?_eq_none (by omega)]

/-- A socket that is not open does not belong to a connection. -/
theorem Accounts.not_mapped (h : Accounts s) (hfd : fd ∉ s.opened) : s.connections fd = none := by
  by_contra hne
  obtain ⟨k, hk⟩ := Option.ne_none_iff_exists'.mp hne
  exact hfd (h.mapped fd k hk).1

/-- An open connection is in the table, under its socket. -/
theorem Accounts.mapped_of_open (h : Accounts s) (hx : s.conn k = some x)
    (hfd : x.fd ≠ invalidSocket) : s.connections x.fd = some k := by
  obtain ⟨fd, hk⟩ := h.owned k x hx
  obtain ⟨-, -, y, hy, hyfd⟩ := h.mapped fd k hk
  obtain rfl := Option.some.inj (hx.symm.trans hy)
  rwa [hyfd.resolve_right hfd]

theorem conn_setConn (hx : s.conn k = some x) (y : EchoConn) (k' : ConnId) :
    (s.setConn k y).conn k' = if k' = k then some y else s.conn k' :=
  conn_set (lt_of_conn hx) (some y) k'

theorem setConn_self (hx : s.conn k = some x) : s.setConn k x = s := by
  have hk := lt_of_conn hx
  have hget : s.conns[k] = some x := by
    rw [conn, List.getElem?_eq_getElem hk] at hx
    exact hx
  have hset : s.conns.set k (some x) = s.conns := by
    rw [← hget]
    exact List.set_getElem_self hk
  rw [setConn, hset]

theorem setConn_setConn (y z : EchoConn) : (s.setConn k y).setConn k z = s.setConn k z := by
  simp [setConn, List.set_set]

/-! ### What the functions do -/

/-- Closing a connection that is in the table: it is deleted, and its socket closed. -/
theorem close_of_mapped (hx : s.conn k = some x) (hfd : x.fd ≠ invalidSocket)
    (hmapped : s.connections x.fd = some k) : s.close k =
      some ({ s with conns := s.conns.set k none, opened := s.opened.erase x.fd
                     connections := update s.connections x.fd none }, [.removeFd x.fd]) := by
  have hself : ∀ opened, conn { s with
      conns := s.conns.set k (some { x with fd := invalidSocket }), opened := opened } k =
        some { x with fd := invalidSocket } := by
    intro opened
    exact (conn_set (lt_of_conn hx) _ k).trans (if_pos rfl)
  simp [close, hx, hfd, closeSession, setConn, hmapped, deleteConn, hself, List.set_set]

/-- Closing a connection that is not in the table: nothing happens to its socket. -/
theorem close_of_unmapped (hx : s.conn k = some x) (hfd : x.fd ≠ invalidSocket)
    (hnone : s.connections x.fd = none) :
    s.close k = some (s.setConn k { x with fd := invalidSocket }, []) := by
  simp [close, hx, hfd, closeSession, setConn, hnone]

/-- Closing a connection again. -/
theorem close_of_closed (hx : s.conn k = some x) (hfd : x.fd = invalidSocket) :
    s.close k = some (s, []) := by
  simp [close, hx, hfd]

theorem startRead_of_closed (hx : s.conn k = some x) (hfd : x.fd = invalidSocket) (a : Answer) :
    s.startRead k a = some (s, []) := by
  simp [startRead, hx, readSome, hfd, close_of_closed hx hfd]

/-- An open connection counts the message, and closes itself or not. -/
theorem startRead_of_open (hx : s.conn k = some x) (hfd : x.fd ≠ invalidSocket) (a : Answer) :
    s.startRead k a =
      if HangsUp x.recvCount a then
        (s.setConn k { x with recvCount := counted x.recvCount a }).close k
      else
        some (s.setConn k { x with recvCount := counted x.recvCount a }, []) := by
  simp only [startRead, hx, Option.bind_eq_bind, Option.bind_some, readSome, if_neg hfd]
  rcases lt_trichotomy a.read 0 with hneg | hzero | hpos
  · have hsame : counted x.recvCount a = x.recvCount := if_neg (by omega)
    have hend : HangsUp x.recvCount a := Or.inl hneg
    rw [if_pos hneg, if_pos hend, hsame, setConn_self hx]
  · have hsame : counted x.recvCount a = x.recvCount := if_neg (by omega)
    have hstay : ¬ HangsUp x.recvCount a := by
      unfold HangsUp
      omega
    rw [if_neg (by omega), if_neg (by omega), if_neg hstay, hsame, setConn_self hx]
    rfl
  · have hnext : counted x.recvCount a = x.recvCount + 1 := if_pos hpos
    rw [if_neg (by omega), if_pos hpos, hnext]
    by_cases hcount : x.recvCount + 1 < maxRecvCount
    · by_cases hwritten : a.written < 0
      · have hend : HangsUp x.recvCount a := Or.inr ⟨hpos, Or.inr hwritten⟩
        rw [if_pos hcount, if_pos hwritten, if_pos hend]
      · have hstay : ¬ HangsUp x.recvCount a := by
          unfold HangsUp
          omega
        rw [if_pos hcount, if_neg hwritten, if_neg hstay]
        rfl
    · have hend : HangsUp x.recvCount a := Or.inr ⟨hpos, Or.inl (not_lt.mp hcount)⟩
      rw [if_neg hcount, if_pos hend]

/-- **What an event does.**  Everything that can happen in a state with good accounts is defined,
if the connection that is called has not been deleted. -/
theorem Accounts.exists_effect (h : Accounts s)
    (hstart : ∀ fd, e = .start fd → s.acceptor = invalidSocket ∧ s.Fresh fd)
    (haccept : ∀ refused a, e = .accept refused a →
      s.acceptor ≠ invalidSocket ∧ s.MayAccept a.accepted)
    (hread : ∀ k a, e = .read k a → (s.conn k).isSome = true) :
    ∃ s' calls, s.act e = some (s', calls) ∧ Effect s e s' calls := by
  cases e with
  | start fd =>
    obtain ⟨hnone, hfresh⟩ := hstart fd rfl
    exact ⟨_, _, if_pos ⟨hnone, hfresh⟩, .started hnone hfresh⟩
  | accept refused a =>
    obtain ⟨hacceptor, hmay⟩ := haccept refused a rfl
    have hact : s.act (.accept refused a) = s.onReadable refused a := if_pos ⟨hacceptor, hmay⟩
    rw [hact]
    rcases hmay with hnone | hfresh
    · exact ⟨s, [], by simp [onReadable, hnone], .idle hnone⟩
    · let u : EchoServer :=
        { s with conns := s.conns ++ [some ⟨a.accepted, 0⟩], opened := a.accepted :: s.opened }
      have hu : u.conn s.conns.length = some ⟨a.accepted, 0⟩ := by
        simp [u, conn]
      have hunmapped : u.connections a.accepted = none := h.not_mapped hfresh.2
      have hset : ∀ y, u.setConn s.conns.length y =
          { s with conns := s.conns ++ [some y], opened := a.accepted :: s.opened } := by
        intro y
        simp [u, setConn]
      cases refused with
      | true =>
        refine ⟨_, _, ?_, .refused hfresh⟩
        have hclose := close_of_unmapped hu hfresh.1 hunmapped
        rw [hset] at hclose
        have hdelete : ∀ y, deleteConn { s with conns := s.conns ++ [some y]
                                                opened := a.accepted :: s.opened } s.conns.length =
            some { s with conns := s.conns ++ [none], opened := a.accepted :: s.opened } := by
          intro y
          simp [deleteConn, conn]
        simp only [onReadable, if_neg hfresh.1, if_true, Option.bind_eq_bind]
        rw [show close _ _ = _ from hclose, Option.bind_some, hdelete, Option.bind_some]
        rfl
      | false =>
        refine ⟨_, _, ?_, .accepted hfresh⟩
        have hcount : ∀ y, (u.setConn s.conns.length y).conn s.conns.length = some y := fun y =>
          (conn_setConn hu y _).trans (if_pos rfl)
        simp only [onReadable, if_neg hfresh.1, Option.bind_eq_bind, Bool.false_eq_true, if_false]
        rw [show startRead _ _ a = _ from startRead_of_open hu hfresh.1 a]
        by_cases hend : HangsUp 0 a
        · have hclose := close_of_unmapped (x := ⟨a.accepted, counted 0 a⟩) (hcount _) hfresh.1
            hunmapped
          rw [if_pos hend, hclose, setConn_setConn, hset]
          simp [hend]
        · rw [if_neg hend, hset]
          simp [hend]
  | read k a =>
    obtain ⟨x, hx⟩ := Option.isSome_iff_exists.mp (hread k a rfl)
    by_cases hfd : x.fd = invalidSocket
    · exact ⟨s, [], startRead_of_closed hx hfd a, .quiet hx hfd⟩
    · have hmapped := h.mapped_of_open hx hfd
      by_cases hend : HangsUp x.recvCount a
      · refine ⟨_, _, ?_, .closed hx hfd hmapped hend⟩
        have hnew := (conn_setConn hx { x with recvCount := counted x.recvCount a } k).trans
          (if_pos rfl)
        rw [act, startRead_of_open hx hfd, if_pos hend, close_of_mapped hnew hfd hmapped]
        simp [setConn, List.set_set]
      · exact ⟨_, _, by rw [act, startRead_of_open hx hfd, if_neg hend], .echoed hx hfd hend⟩

/-! ### The accounts are kept -/

theorem accounts_init : Accounts init where
  opened := List.nodup_nil
  valid := List.not_mem_nil
  acceptor hne := absurd rfl hne
  mapped _ _ hk := nomatch hk
  apart _ _ _ hk := nomatch hk
  owned k _ hx := absurd (lt_of_conn hx) (Nat.not_lt_zero k)
  count k _ hx := absurd (lt_of_conn hx) (Nat.not_lt_zero k)

/-- The socket of an open connection is open. -/
theorem Accounts.mem_opened (h : Accounts s) (hx : s.conn k = some x)
    (hfd : x.fd ≠ invalidSocket) : x.fd ∈ s.opened ∧ x.fd ≠ s.acceptor := by
  obtain ⟨hopen, hne, -⟩ := h.mapped x.fd k (h.mapped_of_open hx hfd)
  exact ⟨hopen, hne⟩

/-- A new socket is not the acceptor. -/
theorem Accounts.ne_acceptor (h : Accounts s) (hfresh : s.Fresh fd) : fd ≠ s.acceptor := by
  intro heq
  by_cases hne : s.acceptor = invalidSocket
  · exact hfresh.1 (heq.trans hne)
  · exact hfresh.2 (heq ▸ h.acceptor hne)

/-- Counting a message that does not end the connection. -/
theorem counted_lt {n : ℤ} (h0 : 0 ≤ n) (hn : n < maxRecvCount) (hstay : ¬ HangsUp n a) :
    0 ≤ counted n a ∧ counted n a < maxRecvCount := by
  simp only [HangsUp, not_or, not_and_or, not_lt, not_le] at hstay
  unfold counted
  split
  · omega
  · exact ⟨h0, hn⟩

/-- A connection that has been created and is entered in the table, or is neither. -/
theorem Accounts.created (h : Accounts s) (hfresh : s.Fresh fd) (y : Option EchoConn)
    (hy : ∀ x ∈ y, (x.fd = fd ∨ x.fd = invalidSocket) ∧
      (x.fd ≠ invalidSocket → 0 ≤ x.recvCount ∧ x.recvCount < maxRecvCount)) :
    Accounts { s with
      conns := s.conns ++ [y], opened := fd :: s.opened
      connections := if y.isSome then update s.connections fd (some s.conns.length)
        else s.connections } := by
  let s' : EchoServer := { s with
    conns := s.conns ++ [y], opened := fd :: s.opened
    connections := if y.isSome then update s.connections fd (some s.conns.length)
      else s.connections }
  have hconn : ∀ k, s'.conn k = if k = s.conns.length then y else s.conn k := conn_append y
  have hold : ∀ {k x}, s.conn k = some x → s'.conn k = some x := by
    intro k x hx
    rw [hconn, if_neg (lt_of_conn hx).ne, hx]
  -- what the table says now
  have htable : ∀ fd' k, s'.connections fd' = some k ↔
      (y.isSome = true ∧ fd' = fd ∧ k = s.conns.length) ∨ s.connections fd' = some k := by
    intro fd' k
    have hnone := h.not_mapped hfresh.2
    cases y with
    | none => simp [s']
    | some x =>
      by_cases hfd : fd' = fd
      · subst hfd
        simp [s', hnone, eq_comm]
      · simp [s', hfd]
  change Accounts s'
  refine ⟨List.nodup_cons.mpr ⟨hfresh.2, h.opened⟩, ?_, ?_, ?_, ?_, ?_, ?_⟩
  · intro hmem
    rcases List.mem_cons.mp hmem with heq | hmem
    · exact hfresh.1 heq.symm
    · exact h.valid hmem
  · intro hne
    exact List.mem_cons_of_mem fd (h.acceptor hne)
  · intro fd' k hk
    rcases (htable fd' k).mp hk with ⟨hsome, rfl, rfl⟩ | hk
    · obtain ⟨x, rfl⟩ := Option.isSome_iff_exists.mp hsome
      refine ⟨List.mem_cons_self, h.ne_acceptor hfresh, x, ?_, (hy x rfl).1⟩
      rw [hconn, if_pos rfl]
    · obtain ⟨hopen, hne, x, hx, hfd⟩ := h.mapped fd' k hk
      exact ⟨List.mem_cons_of_mem fd hopen, hne, x, hold hx, hfd⟩
  · intro fd₁ fd₂ k h₁ h₂
    have hlt : ∀ {fd'}, s.connections fd' = some k → k ≠ s.conns.length := by
      intro fd' hk
      obtain ⟨-, -, x, hx, -⟩ := h.mapped fd' k hk
      exact (lt_of_conn hx).ne
    rcases (htable fd₁ k).mp h₁ with ⟨-, rfl, hlen⟩ | h₁
    · rcases (htable fd₂ k).mp h₂ with ⟨-, rfl, -⟩ | h₂
      · rfl
      · exact absurd hlen (hlt h₂)
    · rcases (htable fd₂ k).mp h₂ with ⟨-, -, hlen⟩ | h₂
      · exact absurd hlen (hlt h₁)
      · exact h.apart fd₁ fd₂ k h₁ h₂
  · intro k x hx
    rw [hconn] at hx
    split at hx
    · rename_i hk
      exact ⟨fd, (htable fd k).mpr (Or.inl ⟨by simp [hx], rfl, hk⟩)⟩
    · obtain ⟨fd', hfd'⟩ := h.owned k x hx
      exact ⟨fd', (htable fd' k).mpr (Or.inr hfd')⟩
  · intro k x hx hfd
    rw [hconn] at hx
    split at hx
    · exact (hy x hx).2 hfd
    · exact h.count k x hx hfd

/-- **The accounts are kept.** -/
theorem Accounts.step (h : Accounts s) (heff : Effect s e s' calls) : Accounts s' := by
  cases heff with
  | @started fd hnone hfresh =>
    refine ⟨List.nodup_cons.mpr ⟨hfresh.2, h.opened⟩, ?_, fun _ => List.mem_cons_self, ?_, h.apart,
      h.owned, h.count⟩
    · intro hmem
      rcases List.mem_cons.mp hmem with heq | hmem
      · exact hfresh.1 heq.symm
      · exact h.valid hmem
    · intro fd' k hk
      obtain ⟨hopen, -, hconn⟩ := h.mapped fd' k hk
      have hne : fd' ≠ fd := fun heq => hfresh.2 (heq ▸ hopen)
      exact ⟨List.mem_cons_of_mem fd hopen, hne, hconn⟩
  | idle => exact h
  | @refused a hfresh => exact h.created hfresh none (fun x hx => nomatch hx)
  | @accepted a hfresh =>
    refine h.created hfresh (some _) fun x hx => ?_
    obtain rfl := Option.some.inj hx
    by_cases hend : HangsUp 0 a
    · simp [hend]
    · rw [if_neg hend]
      exact ⟨Or.inl rfl, fun _ => counted_lt le_rfl (by decide) hend⟩
  | quiet => exact h
  | @echoed k a x hx hfd hstay =>
    have hconn := conn_setConn hx { x with recvCount := counted x.recvCount a }
    refine ⟨h.opened, h.valid, h.acceptor, fun fd' k' hk' => ?_, h.apart, fun k' y hy => ?_,
      fun k' y hy hyfd => ?_⟩
    · obtain ⟨hopen, hne, y, hy, hyfd⟩ := h.mapped fd' k' hk'
      refine ⟨hopen, hne, ?_⟩
      rw [hconn]
      split
      · rename_i hk
        obtain rfl := Option.some.inj ((hk ▸ hy).symm.trans hx)
        exact ⟨_, rfl, hyfd⟩
      · exact ⟨y, hy, hyfd⟩
    · rw [hconn] at hy
      split at hy
      · rename_i hk
        exact h.owned k' x (hk ▸ hx)
      · exact h.owned k' y hy
    · rw [hconn] at hy
      split at hy
      · obtain rfl := Option.some.inj hy
        obtain ⟨h0, hlt⟩ := h.count k x hx hfd
        exact counted_lt h0 hlt hstay
      · exact h.count k' y hy hyfd
  | @closed k a x hx hfd hmapped hend =>
    have hconn := fun k' => conn_set (lt_of_conn hx) none k'
    obtain ⟨hopen, hacceptor⟩ := h.mem_opened hx hfd
    have hother : ∀ {fd' k'}, update s.connections x.fd none fd' = some k' →
        fd' ≠ x.fd ∧ k' ≠ k ∧ s.connections fd' = some k' := by
      intro fd' k' hk'
      have hne : fd' ≠ x.fd := by
        rintro rfl
        simp at hk'
      rw [update_of_ne hne] at hk'
      exact ⟨hne, fun hkk => hne (h.apart fd' x.fd k (hkk ▸ hk') hmapped), hk'⟩
    refine ⟨h.opened.erase x.fd, fun hmem => h.valid (List.mem_of_mem_erase hmem), fun hne => ?_,
      fun fd' k' hk' => ?_, fun fd₁ fd₂ k' h₁ h₂ => ?_, fun k' y hy => ?_, fun k' y hy hyfd => ?_⟩
    · exact (List.mem_erase_of_ne hacceptor.symm).mpr (h.acceptor hne)
    · obtain ⟨hne, hkk, hk'⟩ := hother hk'
      obtain ⟨hopen', hne', y, hy, hyfd⟩ := h.mapped fd' k' hk'
      exact ⟨(List.mem_erase_of_ne hne).mpr hopen', hne', y,
        (hconn k').trans ((if_neg hkk).trans hy), hyfd⟩
    · exact h.apart fd₁ fd₂ k' (hother h₁).2.2 (hother h₂).2.2
    · have hy := (hconn k').symm.trans hy
      split at hy
      · cases hy
      · rename_i hkk
        obtain ⟨fd', hfd'⟩ := h.owned k' y hy
        have hne : fd' ≠ x.fd := by
          rintro rfl
          exact hkk (Option.some.inj (hfd'.symm.trans hmapped))
        exact ⟨fd', (update_of_ne hne _ _).trans hfd'⟩
    · have hy := (hconn k').symm.trans hy
      split at hy
      · cases hy
      · exact h.count k' y hy hyfd

/-! ### Runs -/

/-- A step of the server is one of the effects. -/
theorem Accounts.effect (h : Accounts s) (hact : s.act e = some (s', calls)) :
    Effect s e s' calls := by
  obtain ⟨t, calls', hact', heff⟩ := h.exists_effect (e := e)
    (fun fd he => by
      subst he
      simp only [act, Option.ite_none_right_eq_some] at hact
      exact hact.1)
    (fun refused a he => by
      subst he
      simp only [act, Option.ite_none_right_eq_some] at hact
      exact hact.1)
    (fun k a he => by
      subst he
      by_contra hnone
      simp [act, startRead, Option.not_isSome_iff_eq_none.mp hnone] at hact)
  obtain ⟨rfl, rfl⟩ := Prod.mk.inj (Option.some.inj (hact.symm.trans hact'))
  exact heff

theorem Accounts.effect_of_step (h : Accounts s) (hstep : EchoServer.step s e = some s') :
    ∃ calls, Effect s e s' calls := by
  obtain ⟨⟨t, calls⟩, hact, rfl⟩ := Option.map_eq_some_iff.mp hstep
  exact ⟨calls, h.effect hact⟩

theorem accounts_of_runs (hrun : runs es = some s) : Accounts s := by
  refine run_induction (P := fun _ s => Accounts s) accounts_init
    (fun fs e t u _ _ ih hstep => ?_) hrun
  obtain ⟨calls, heff⟩ := ih.effect_of_step hstep
  exact ih.step heff

end EchoServer

end WinsockTut
