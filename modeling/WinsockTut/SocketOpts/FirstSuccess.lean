import Mathlib.Data.List.Count
import WinsockTut.SocketOpts.Addresses

/-!
# The first address that works

`FirstSuccess` says what a function that tries a list of addresses is for: it returns the socket of
the first address that works, has tried no later one, and leaves nothing else open.  Both functions
pass over the addresses that do not work (`Trying`).  `CreateTCPAcceptor` is left only by an
address that works; `CreateTcpConnector` is also left by one that is refused, without freeing the
list.
-/

namespace WinsockTut

namespace SocketOpts

open ForEach

/-- What a call does to the sockets that are open; a call on another socket has no meaning. -/
def Call.effect (opened : List Socket) : Call → Option (List Socket)
  | .socket _ fd => some (if fd = invalidSocket then opened else fd :: opened)
  | .bind fd _ => if fd ∈ opened then some opened else none
  | .ioctlsocket fd _ => if fd ∈ opened then some opened else none
  | .listen fd _ => if fd ∈ opened then some opened else none
  | .connect fd _ => if fd ∈ opened then some opened else none
  | .closesocket fd => if fd ∈ opened then some (opened.erase fd) else none
  | .getaddrinfo _ _ _ => some opened
  | .freeaddrinfo => some opened

/-- The sockets that are open after the calls.  Each call has to be made on an open socket, so none
is closed twice. -/
def openAfter (opened : List Socket) (calls : List Call) : Option (List Socket) :=
  calls.foldlM Call.effect opened

/-- The address for which a socket is opened. -/
def Call.tried : Call → Option AddrInfo
  | .socket info _ => some info
  | _ => none

/-- The list that `getaddrinfo` returns. -/
def candidates : Except ℤ (List Candidate) → List Candidate
  | .ok aiList => aiList
  | .error _ => []

/-- The result of a function that tries the addresses that `getaddrinfo` returns, if `works` tells
which of them work, and `steps` are the calls that make a socket ready. -/
structure FirstSuccess (works : Candidate → Bool) (steps : Candidate → List Call)
    (resolved : Except ℤ (List Candidate)) (r : Opened) : Prop where
  value : r.value = ((candidates resolved).find? works).elim invalidSocket Candidate.socket
  /-- The addresses up to the first that works have been tried. -/
  tried : r.calls.filterMap Call.tried =
    (upTo works (candidates resolved)).map Candidate.info
  ready : ∀ a, (candidates resolved).find? works = some a →
    ∃ calls, r.calls = calls ++ steps a ++ [.freeaddrinfo]
  /-- The socket that is returned is open, and nothing else. -/
  closed : openAfter [] r.calls = some (if r.value = invalidSocket then [] else [r.value])
  freed : r.calls.count .freeaddrinfo = if resolved.isOk then 1 else 0

/-- The calls that make a socket ready for `accept`. -/
def Candidate.acceptorSteps (nonblock : Bool) (a : Candidate) : List Call :=
  [.socket a.info a.socket, .bind a.socket a.info.addr] ++ a.asked nonblock ++
    [.listen a.socket soMaxConn]

/-- The calls that connect a socket. -/
def Candidate.connectorSteps (nonblock : Bool) (a : Candidate) : List Call :=
  [.socket a.info a.socket] ++ a.asked nonblock ++ [.connect a.socket a.info.addr]

variable {nonblock ipv6 : Bool} {a : Candidate} {s : Attempt} {host port : String} {fd : Socket}
  {done rest : List Candidate} {calls : List Call}
  {resolved : Except ℤ (List Candidate)}

/-! ### The calls for one address -/

@[simp] theorem openAfter_nil (opened : List Socket) : openAfter opened [] = some opened := rfl

@[simp] theorem openAfter_cons (opened : List Socket) (call : Call) (calls : List Call) :
    openAfter opened (call :: calls) =
      (call.effect opened).bind fun opened => openAfter opened calls := rfl

@[simp] theorem openAfter_append (opened : List Socket) (calls calls' : List Call) :
    openAfter opened (calls ++ calls') =
      (openAfter opened calls).bind fun opened => openAfter opened calls' :=
  List.foldlM_append

/-- The call uses an open socket. -/
def Call.Uses (fd : Socket) : Call → Prop
  | .bind fd' _ => fd' = fd
  | .ioctlsocket fd' _ => fd' = fd
  | .listen fd' _ => fd' = fd
  | .connect fd' _ => fd' = fd
  | _ => False

theorem Call.Uses.tried {call : Call} (h : call.Uses fd) : call.tried = none := by
  cases call with
  | socket info fd' => exact h.elim
  | _ => rfl

theorem Call.Uses.ne_freeaddrinfo {call : Call} (h : call.Uses fd) : call ≠ .freeaddrinfo := by
  rintro rfl
  exact h

theorem Call.Uses.effect {call : Call} (h : call.Uses fd) : call.effect [fd] = some [fd] := by
  cases call <;> simp_all [Uses, Call.effect]

theorem openAfter_uses (h : ∀ call ∈ calls, call.Uses fd) : openAfter [fd] calls = some [fd] := by
  induction calls with
  | nil => rfl
  | cons call calls ih =>
    have hcall : call.effect [fd] = some [fd] := (h call List.mem_cons_self).effect
    rw [openAfter_cons, hcall]
    exact ih fun call hcall => h call (List.mem_cons_of_mem _ hcall)

/-- The calls for an address, which leave the sockets `opened` open. -/
structure Candidate.Leaves (a : Candidate) (calls : List Call) (opened : List Socket) : Prop where
  tried : calls.filterMap Call.tried = [a.info]
  closed : openAfter [] calls = some opened
  kept : Call.freeaddrinfo ∉ calls

theorem Candidate.leaves_unopened (h : a.socket = invalidSocket) :
    a.Leaves [.socket a.info a.socket] [] where
  tried := rfl
  closed := by simp [Call.effect, h]
  kept := by simp

theorem Candidate.leaves_opened (h : a.socket ≠ invalidSocket)
    (huses : ∀ call ∈ calls, call.Uses a.socket) :
    a.Leaves (.socket a.info a.socket :: calls) [a.socket] where
  tried := by
    have hnone : calls.filterMap Call.tried = [] :=
      List.filterMap_eq_nil_iff.mpr fun call hcall => (huses call hcall).tried
    simp [Call.tried, hnone]
  closed := by
    rw [openAfter_cons, Call.effect, if_neg h]
    exact openAfter_uses huses
  kept hmem := by
    rcases List.mem_cons.mp hmem with hcall | hcall
    · cases hcall
    · exact (huses _ hcall).ne_freeaddrinfo rfl

theorem Candidate.Leaves.close (h : a.Leaves calls [a.socket]) :
    a.Leaves (calls ++ [.closesocket a.socket]) [] where
  tried := by simp [h.tried, Call.tried]
  closed := by simp [h.closed, Call.effect]
  kept := by simp [h.kept]

/-- `nonblock` in both functions. -/
theorem Candidate.asked_eq (a : Candidate) (nonblock : Bool) :
    (if nonblock then setNonblock a.socket true a.ioctlsocket else (0, [])) =
      (if nonblock then a.ioctlsocket else 0, a.asked nonblock) := by
  cases nonblock <;> rfl

theorem Candidate.granted_eq (a : Candidate) (nonblock : Bool) :
    a.granted nonblock = decide ((if nonblock then a.ioctlsocket else 0) ≠ socketError) := by
  cases nonblock <;> rfl

theorem Candidate.uses_asked (a : Candidate) (nonblock : Bool) :
    ∀ call ∈ a.asked nonblock, call.Uses a.socket := by
  cases nonblock <;> simp [asked, Call.Uses]

/-! ### Passing over addresses -/

/-- The addresses `done` have been tried in vain. -/
structure Trying (done : List Candidate) (s : Attempt) : Prop where
  fd : s.fd = invalidSocket
  tried : s.calls.filterMap Call.tried = done.map Candidate.info
  closed : openAfter [] s.calls = some []
  kept : Call.freeaddrinfo ∉ s.calls

theorem Trying.begin (host port : String) (ipv6 : Bool) :
    Trying [] ⟨invalidSocket, [.getaddrinfo host port (hints ipv6)]⟩ where
  fd := rfl
  tried := rfl
  closed := rfl
  kept := by simp

theorem Trying.next (h : Trying done s) (hcalls : a.Leaves calls []) :
    Trying (done ++ [a]) ⟨invalidSocket, s.calls ++ calls⟩ where
  fd := rfl
  tried := by simp [h.tried, hcalls.tried]
  closed := by simp [h.closed, hcalls.closed]
  kept := by simp [h.kept, hcalls.kept]

variable {works : Candidate → Bool} {steps : Candidate → List Call}

/-- No address works. -/
theorem Trying.exhausted (h : Trying done s) (hdone : ∀ a ∈ done, works a = false) :
    FirstSuccess works steps (.ok done) ⟨s.fd, s.calls ++ [.freeaddrinfo]⟩ := by
  have hfind : done.find? works = none := List.find?_eq_none.mpr fun a ha => by simp [hdone a ha]
  constructor
  · simp [candidates, hfind, h.fd]
  · simp [candidates, upTo_of_none hdone, h.tried, Call.tried]
  · intro a ha
    cases hfind.symm.trans ha
  · simp [h.closed, h.fd, Call.effect]
  · simp [List.count_eq_zero_of_not_mem h.kept, Except.isOk, Except.toBool]

/-- An address works. -/
theorem Trying.success (h : Trying done s) (hdone : ∀ a ∈ done, works a = false)
    (ha : works a = true) (hsocket : a.socket ≠ invalidSocket)
    (hsteps : a.Leaves (steps a) [a.socket]) (rest : List Candidate) :
    FirstSuccess works steps (.ok (done ++ a :: rest))
      ⟨a.socket, s.calls ++ steps a ++ [.freeaddrinfo]⟩ := by
  have hfind : (done ++ a :: rest).find? works = some a := find?_split hdone ha rest
  constructor
  · simp [candidates, hfind]
  · simp [candidates, upTo_split hdone ha, h.tried, hsteps.tried, Call.tried]
  · intro b hb
    obtain rfl : a = b := Option.some.inj (hfind.symm.trans hb)
    exact ⟨s.calls, rfl⟩
  · simp [h.closed, hsteps.closed, Call.effect, hsocket]
  · simp [List.count_eq_zero_of_not_mem h.kept, List.count_eq_zero_of_not_mem hsteps.kept,
      Except.isOk, Except.toBool]

/-- `getaddrinfo` fails. -/
theorem firstSuccess_error (host port : String) (ipv6 : Bool) (err : ℤ) :
    FirstSuccess works steps (.error err)
      ⟨invalidSocket, [.getaddrinfo host port (hints ipv6)]⟩ where
  value := rfl
  tried := rfl
  ready _ ha := nomatch ha
  closed := rfl
  freed := rfl

/-! ### `CreateTCPAcceptor` -/

theorem Candidate.uses_acceptorSteps (a : Candidate) (nonblock : Bool) :
    ∀ call ∈ [.bind a.socket a.info.addr] ++ a.asked nonblock ++ [.listen a.socket soMaxConn],
      call.Uses a.socket := by
  intro call hcall
  simp only [List.mem_append, List.mem_singleton] at hcall
  rcases hcall with (rfl | hcall) | rfl
  · rfl
  · exact a.uses_asked nonblock call hcall
  · rfl

/-- `CreateTCPAcceptor` stops at an address that works. -/
theorem acceptorRound_of_accepts (h : a.accepts nonblock = true) (s : Attempt) :
    acceptorRound nonblock s a = .stop ⟨a.socket, s.calls ++ a.acceptorSteps nonblock⟩ ∧
      a.socket ≠ invalidSocket ∧ a.Leaves (a.acceptorSteps nonblock) [a.socket] := by
  simp only [Candidate.accepts, Candidate.granted_eq, Bool.and_eq_true, decide_eq_true_eq] at h
  obtain ⟨⟨⟨hsocket, hbind⟩, hgranted⟩, hlisten⟩ := h
  refine ⟨?_, hsocket, Candidate.leaves_opened hsocket (a.uses_acceptorSteps nonblock)⟩
  simp [acceptorRound, Attempt.made, Candidate.asked_eq, hsocket, hbind, hgranted, hlisten,
    Candidate.acceptorSteps]

/-- It gives up any other. -/
theorem acceptorRound_of_not (h : a.accepts nonblock = false) (s : Attempt) :
    ∃ calls, acceptorRound nonblock s a = .next ⟨invalidSocket, s.calls ++ calls⟩ ∧
      a.Leaves calls [] := by
  have huses := a.uses_acceptorSteps nonblock
  simp only [List.forall_mem_append] at huses
  obtain ⟨⟨hbind, hasked⟩, hlisten⟩ := huses
  by_cases hsocket : a.socket = invalidSocket
  · refine ⟨_, ?_, Candidate.leaves_unopened hsocket⟩
    simp [acceptorRound, Attempt.made, hsocket]
  by_cases hbound : a.bind = socketError
  · refine ⟨_, ?_, (Candidate.leaves_opened hsocket hbind).close⟩
    simp [acceptorRound, Attempt.made, Attempt.close, hsocket, hbound]
  by_cases hgranted : (if nonblock then a.ioctlsocket else 0) = socketError
  · refine ⟨_, ?_, (Candidate.leaves_opened hsocket
      (List.forall_mem_append.mpr ⟨hbind, hasked⟩)).close⟩
    simp [acceptorRound, Attempt.made, Attempt.close, Candidate.asked_eq, hsocket, hbound, hgranted]
  · have hlistened : a.listen = socketError := by
      simpa [Candidate.accepts, Candidate.granted_eq, hsocket, hbound, hgranted] using h
    refine ⟨_, ?_, (Candidate.leaves_opened hsocket (a.uses_acceptorSteps nonblock)).close⟩
    simp [acceptorRound, Attempt.made, Attempt.close, Candidate.asked_eq, hsocket, hbound, hgranted,
      hlistened]

/-- The loop passes over an address that does not work. -/
theorem Trying.acceptorRound (h : Trying done s) (ha : a.accepts nonblock = false) :
    ∃ s', SocketOpts.acceptorRound nonblock s a = .next s' ∧ Trying (done ++ [a]) s' := by
  obtain ⟨calls, hround, hcalls⟩ := acceptorRound_of_not ha s
  exact ⟨_, hround, h.next hcalls⟩

/-- **`CreateTCPAcceptor` returns the first socket that accepts**, for all lists of addresses and
all answers: it tries no address behind that one, leaves no other socket open, and frees the
list. -/
theorem createTCPAcceptor_first (host port : String) (nonblock ipv6 : Bool)
    (resolved : Except ℤ (List Candidate)) :
    FirstSuccess (Candidate.accepts nonblock) (Candidate.acceptorSteps nonblock) resolved
      (createTCPAcceptor host port nonblock ipv6 resolved) := by
  cases resolved with
  | error err => exact firstSuccess_error host port ipv6 err
  | ok aiList =>
    rw [createTCPAcceptor]
    rcases forEach_find _ (Trying.begin host port ipv6)
        (fun _ _ _ ha hs => hs.acceptorRound ha) aiList with
      ⟨hnone, s, hloop, hs⟩ | ⟨done, a, rest, s, rfl, hdone, ha, hs, hloop⟩
    · rw [hloop]
      exact hs.exhausted hnone
    · obtain ⟨hround, hsocket, hsteps⟩ := acceptorRound_of_accepts ha s
      rw [hloop, forEach_cons_of_stop hround]
      exact hs.success hdone ha hsocket hsteps rest

/-! ### `CreateTcpConnector` -/

theorem Candidate.uses_connectorSteps (a : Candidate) (nonblock : Bool) :
    ∀ call ∈ a.asked nonblock ++ [.connect a.socket a.info.addr], call.Uses a.socket := by
  intro call hcall
  rcases List.mem_append.mp hcall with hcall | hcall
  · exact a.uses_asked nonblock call hcall
  · obtain rfl := List.mem_singleton.mp hcall
    rfl

/-- `CreateTcpConnector` stops at an address that works. -/
theorem connectorRound_of_connects (h : a.connects nonblock = true) (s : Attempt) :
    connectorRound nonblock s a = .stop ⟨a.socket, s.calls ++ a.connectorSteps nonblock⟩ ∧
      a.socket ≠ invalidSocket ∧ a.Leaves (a.connectorSteps nonblock) [a.socket] := by
  simp only [Candidate.connects, Candidate.granted_eq, Bool.and_eq_true, Bool.or_eq_true,
    decide_eq_true_eq] at h
  obtain ⟨⟨hsocket, hgranted⟩, hconnect⟩ := h
  refine ⟨?_, hsocket, Candidate.leaves_opened hsocket (a.uses_connectorSteps nonblock)⟩
  by_cases herror : a.connect = socketError
  · have hblock : a.lastError = wsaEWouldBlock := hconnect.resolve_left (not_not.mpr herror)
    simp [connectorRound, Attempt.made, Candidate.asked_eq, hsocket, hgranted, herror, hblock,
      Candidate.connectorSteps]
  · simp [connectorRound, Attempt.made, Candidate.asked_eq, hsocket, hgranted, herror,
      Candidate.connectorSteps]

/-- It returns at an address that refuses the connection. -/
theorem connectorRound_of_refused (h : a.refused nonblock = true) (s : Attempt) :
    connectorRound nonblock s a =
      .leave ⟨0, s.calls ++ a.connectorSteps nonblock ++ [.closesocket a.socket]⟩ ∧
      a.socket ≠ invalidSocket := by
  simp only [Candidate.refused, Candidate.granted_eq, Bool.and_eq_true, decide_eq_true_eq] at h
  obtain ⟨⟨⟨hsocket, hgranted⟩, hconnect⟩, hhard⟩ := h
  refine ⟨?_, hsocket⟩
  simp [connectorRound, Attempt.made, Attempt.close, Candidate.asked_eq, hsocket, hgranted,
    hconnect, hhard, Candidate.connectorSteps]

/-- It gives up any other. -/
theorem connectorRound_of_not (h : a.connects nonblock = false)
    (hrefused : a.refused nonblock = false) (s : Attempt) :
    ∃ calls, connectorRound nonblock s a = .next ⟨invalidSocket, s.calls ++ calls⟩ ∧
      a.Leaves calls [] := by
  by_cases hsocket : a.socket = invalidSocket
  · refine ⟨_, ?_, Candidate.leaves_unopened hsocket⟩
    simp [connectorRound, Attempt.made, hsocket]
  · have hgranted : (if nonblock then a.ioctlsocket else 0) = socketError := by
      by_contra hgranted
      simp only [Candidate.connects, Candidate.granted_eq, hsocket, hgranted, ne_eq,
        not_false_eq_true, decide_true, Bool.and_self, Bool.true_and, Bool.or_eq_false_iff,
        decide_eq_false_iff_not, not_not] at h
      have hhard : a.refused nonblock = true := by
        simp [Candidate.refused, Candidate.granted_eq, hsocket, hgranted, h.1, h.2]
      exact Bool.false_ne_true (hrefused.symm.trans hhard)
    refine ⟨_, ?_, (Candidate.leaves_opened hsocket (a.uses_asked nonblock)).close⟩
    simp [connectorRound, Attempt.made, Attempt.close, Candidate.asked_eq, hsocket, hgranted]

/-- The loop passes over an address that neither works nor is refused. -/
theorem Trying.connectorRound (h : Trying done s)
    (ha : (a.connects nonblock || a.refused nonblock) = false) :
    ∃ s', SocketOpts.connectorRound nonblock s a = .next s' ∧ Trying (done ++ [a]) s' := by
  obtain ⟨hconnects, hrefused⟩ := Bool.or_eq_false_iff.mp ha
  obtain ⟨calls, hround, hcalls⟩ := connectorRound_of_not hconnects hrefused s
  exact ⟨_, hround, h.next hcalls⟩

/-- An address that is refused ends the loop and the function. -/
theorem Trying.refused (h : Trying done s) (ha : a.refused nonblock = true) (rest : List Candidate)
    (f : Attempt → Opened) : Call.freeaddrinfo ∉
      ((forEach (SocketOpts.connectorRound nonblock) s (a :: rest)).andThen f).calls := by
  obtain ⟨hround, hsocket⟩ := connectorRound_of_refused ha s
  have hkept : Call.freeaddrinfo ∉ a.connectorSteps nonblock :=
    (Candidate.leaves_opened hsocket (a.uses_connectorSteps nonblock)).kept
  rw [forEach_cons_of_leave hround]
  simp [RoundEnd.andThen, h.kept, hkept]

/-- How `CreateTcpConnector` ends: as it should, if no address in front of the first that works
refuses the connection; else without freeing the list. -/
theorem createTcpConnector_cases (host port : String) (nonblock ipv6 : Bool)
    (aiList : List Candidate) :
    ((∀ a ∈ aiList.takeWhile fun a => !a.connects nonblock, a.refused nonblock = false) ∧
      FirstSuccess (Candidate.connects nonblock) (Candidate.connectorSteps nonblock) (.ok aiList)
        (createTcpConnector host port nonblock ipv6 (.ok aiList))) ∨
    (∃ a ∈ aiList.takeWhile fun a => !a.connects nonblock, a.refused nonblock = true) ∧
      Call.freeaddrinfo ∉ (createTcpConnector host port nonblock ipv6 (.ok aiList)).calls := by
  rw [createTcpConnector]
  rcases forEach_find (fun a => a.connects nonblock || a.refused nonblock)
      (Trying.begin host port ipv6) (fun _ _ _ ha hs => hs.connectorRound ha) aiList with
    ⟨hnone, s, hloop, hs⟩ | ⟨done, a, rest, s, rfl, hdone, ha, hs, hloop⟩
  · have hall : ∀ a ∈ aiList, a.connects nonblock = false ∧ a.refused nonblock = false :=
      fun a ha => Bool.or_eq_false_iff.mp (hnone a ha)
    refine Or.inl ⟨fun a ha => (hall a (List.takeWhile_subset _ ha)).2, ?_⟩
    rw [hloop]
    exact hs.exhausted fun a ha => (hall a ha).1
  · have hall : ∀ a ∈ done, a.connects nonblock = false ∧ a.refused nonblock = false :=
      fun a ha => Bool.or_eq_false_iff.mp (hdone a ha)
    have hskip : ∀ a ∈ done, a.connects nonblock = false := fun a ha => (hall a ha).1
    rw [takeWhile_split hskip, hloop]
    cases hconnects : a.connects nonblock with
    | true =>
      obtain ⟨hround, hsocket, hsteps⟩ := connectorRound_of_connects hconnects s
      refine Or.inl ⟨?_, ?_⟩
      · rw [List.takeWhile_cons_of_neg (by simp [hconnects]), List.append_nil]
        exact fun b hb => (hall b hb).2
      · rw [forEach_cons_of_stop hround]
        exact hs.success hskip hconnects hsocket hsteps rest
    | false =>
      have hrefused : a.refused nonblock = true := by simpa [hconnects] using ha
      refine Or.inr ⟨⟨a, ?_, hrefused⟩, hs.refused hrefused rest _⟩
      rw [List.takeWhile_cons_of_pos (by simp [hconnects])]
      exact List.mem_append_right _ List.mem_cons_self

/-- **`CreateTcpConnector` returns the first socket that connects, exactly if** no address in front
of it refuses the connection, for all lists of addresses and all answers.  At an address that
refuses it, the function returns the value of `false` and keeps the list. -/
theorem createTcpConnector_first_iff (host port : String) (nonblock ipv6 : Bool)
    (resolved : Except ℤ (List Candidate)) :
    FirstSuccess (Candidate.connects nonblock) (Candidate.connectorSteps nonblock) resolved
      (createTcpConnector host port nonblock ipv6 resolved) ↔
      ∀ a ∈ (candidates resolved).takeWhile fun a => !a.connects nonblock,
        a.refused nonblock = false := by
  cases resolved with
  | error err =>
    exact iff_of_true (firstSuccess_error host port ipv6 err) fun _ ha => nomatch ha
  | ok aiList =>
    rcases createTcpConnector_cases host port nonblock ipv6 aiList with
      ⟨hall, hfirst⟩ | ⟨⟨a, ha, hrefused⟩, hkept⟩
    · exact iff_of_true hfirst hall
    · refine iff_of_false (fun hfirst => ?_) fun hall => ?_
      · have hfreed := hfirst.freed
        rw [List.count_eq_zero_of_not_mem hkept] at hfreed
        cases hfreed
      · exact Bool.false_ne_true ((hall a ha).symm.trans hrefused)

/-- A host with two addresses, of which the first refuses the connection and the second would
accept it. -/
theorem createTcpConnector_refused :
    let refuses : Candidate := ⟨⟨0, afInet, sockStream, ipprotoTcp, [10]⟩, 1, 0, 0, 0, -1, 10061⟩
    let connects : Candidate := ⟨⟨0, afInet, sockStream, ipprotoTcp, [11]⟩, 2, 0, 0, 0, 0, 0⟩
    let r := createTcpConnector "localhost" "8080" true false (.ok [refuses, connects])
    r.value = 0 ∧ r.calls.count .freeaddrinfo = 0 ∧
      ¬ FirstSuccess (Candidate.connects true) (Candidate.connectorSteps true)
        (.ok [refuses, connects]) r := by
  refine ⟨by decide, by decide, fun h => ?_⟩
  exact absurd h.value (by decide)

end SocketOpts

end WinsockTut
