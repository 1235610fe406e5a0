import WinsockTut.Overlap.Operation

/-!
# The service based on a completion port

`CompletionPortService` associates sockets with a completion port and dispatches the packets it
takes from it.  Its state is the contexts it has handed out and the sockets associated with its
port.  A use of a context that has been deleted is undefined behaviour, `none`.
-/

namespace WinsockTut

/-- `CompletionPortService`, with the contexts it has allocated. -/
structure CompletionPortService where
  ctxs : Contexts
  /-- The sockets that are associated with `completion_port_`. -/
  port : List Socket
  deriving DecidableEq, Repr

namespace CompletionPortService

/-- The state after the constructor. -/
def init : CompletionPortService := ⟨[], []⟩

/-- `delete ctx`. -/
def delete (s : CompletionPortService) (ctx : CtxId) : CompletionPortService :=
  { s with ctxs := s.ctxs.delete ctx }

/-- `FreeOverlapCtx`, with the socket calls it makes. -/
def freeOverlapCtx (s : CompletionPortService) (ctx : CtxId) :
    Option (CompletionPortService × List SocketCall) := do
  let x ← s.ctxs.get ctx
  let calls := if hasBits x.flags flagCancelIo then [.cancelIoEx x.fd] else []
  let s' := { s with ctxs := s.ctxs.update ctx fun x => { x with fd := invalidSocket } }
  return (if x.lazy then s' else s'.delete ctx, calls)

/-- `AllocOverlapCtx`; `associated` tells if `CreateIoCompletionPort` succeeds. -/
def allocOverlapCtx (s : CompletionPortService) (fd : Socket) (flags : BitVec 32)
    (associated : Bool) : Option (CompletionPortService × Option CtxId) :=
  let ctx := s.ctxs.length
  let s' := { s with ctxs := s.ctxs ++ [some (OverlapContext.new fd)] }
  if hasBits flags flagAssociate then
    if associated then
      some ({ s' with port := fd :: s'.port }, some ctx)
    else do
      let (s'', _) ← s'.freeOverlapCtx ctx
      return (s'', none)
  else
    some (s', some ctx)

/-- **The effect of `FreeOverlapCtx` on the contexts**: only the one that is freed is touched, and
it is deleted unless it is to be deleted lazily. -/
theorem freeOverlapCtx_spec {s s' : CompletionPortService} {ctx : CtxId} {calls : List SocketCall}
    (h : s.freeOverlapCtx ctx = some (s', calls)) :
    s'.ctxs.length = s.ctxs.length ∧ (∀ i ≠ ctx, s'.ctxs.get i = s.ctxs.get i) ∧
      ∃ x, s.ctxs.get ctx = some x ∧ (x.lazy = false → s'.ctxs.get ctx = none) ∧
        (x.lazy = true → (s'.ctxs.get ctx).isSome = true) := by
  simp only [freeOverlapCtx, Option.bind_eq_bind, Option.bind_eq_some_iff, Option.pure_def,
    Option.some.injEq, Prod.mk.injEq] at h
  obtain ⟨x, hx, rfl, -⟩ := h
  cases hlazy : x.lazy with
  | true =>
    rw [if_pos rfl]
    refine ⟨Contexts.length_update _ _ _, fun i hi => Contexts.get_update_ne (Ne.symm hi) _ _, x,
      hx, by simp [hlazy], fun _ => ?_⟩
    rw [Contexts.isSome_get_update, hx]
    rfl
  | false =>
    rw [if_neg Bool.false_ne_true]
    refine ⟨by simp [delete], fun i hi => ?_, x, hx, fun _ => Contexts.get_delete_self _ _,
      by simp [hlazy]⟩
    rw [delete, Contexts.get_delete_ne (Ne.symm hi), Contexts.get_update_ne (Ne.symm hi)]

/-- **The effect of `AllocOverlapCtx` on the contexts**: there is one more, which is deleted at
once if the function returns `NULL`. -/
theorem allocOverlapCtx_spec {s s' : CompletionPortService} {fd : Socket} {flags : BitVec 32}
    {associated : Bool} {ctx : Option CtxId}
    (h : s.allocOverlapCtx fd flags associated = some (s', ctx)) :
    s'.ctxs.length = s.ctxs.length + 1 ∧ (∀ i < s.ctxs.length, s'.ctxs.get i = s.ctxs.get i) ∧
      (ctx = none → s'.ctxs.get s.ctxs.length = none) := by
  have hlen : (s.ctxs ++ [some (OverlapContext.new fd)]).length = s.ctxs.length + 1 := by simp
  have hget : ∀ i < s.ctxs.length,
      Contexts.get (s.ctxs ++ [some (OverlapContext.new fd)]) i = s.ctxs.get i :=
    fun i hi => Contexts.get_append_of_lt hi _
  unfold allocOverlapCtx at h
  split at h
  · split at h
    · obtain ⟨rfl, rfl⟩ := Prod.mk.inj (Option.some.inj h)
      exact ⟨hlen, hget, fun hnone => nomatch hnone⟩
    · simp only [Option.bind_eq_bind, Option.bind_eq_some_iff, Option.pure_def, Option.some.injEq,
        Prod.mk.injEq, Prod.exists] at h
      obtain ⟨t, calls, hfree, rfl, rfl⟩ := h
      obtain ⟨hlen', hget', x, hx, hdel, -⟩ := freeOverlapCtx_spec hfree
      refine ⟨hlen'.trans hlen, fun i hi => ?_, fun _ => hdel ?_⟩
      · rw [hget' i (Nat.ne_of_lt hi)]
        exact hget i hi
      · -- a new context has no flags
        obtain rfl : OverlapContext.new fd = x := by simpa [Contexts.get] using hx
        exact hasBits_zero flagLazyDelete
  · obtain ⟨rfl, rfl⟩ := Prod.mk.inj (Option.some.inj h)
    exact ⟨hlen, hget, fun hnone => nomatch hnone⟩

/-- `AsyncConnect`. -/
def asyncConnect (x : OverlapContext) (r : ℤ) (outcome : Outcome) : Issue :=
  startConnect x r outcome

/-- `AsyncAccept`. -/
def asyncAccept (x : OverlapContext) (fd : Socket) (outcome : Outcome) : Issue :=
  startAccept x fd outcome

/-- `AsyncRead`. -/
def asyncRead (x : OverlapContext) (outcome : Outcome) : Issue := startTransfer x outcome

/-- `AsyncWrite`. -/
def asyncWrite (x : OverlapContext) (outcome : Outcome) : Issue := startTransfer x outcome

/-- The effect of a call that starts an operation on the context `x`. -/
def issue (x : OverlapContext) : AsyncCall → Issue
  | .connect r outcome => asyncConnect x r outcome
  | .accept fd outcome => asyncAccept x fd outcome
  | .read outcome => asyncRead x outcome
  | .write outcome => asyncWrite x outcome

/-- A closed socket is not associated with anything any more. -/
def closeSockets (s : CompletionPortService) (calls : List SocketCall) : CompletionPortService :=
  { s with port := s.port.filter fun fd => SocketCall.closesocket fd ∉ calls }

end CompletionPortService

end WinsockTut
