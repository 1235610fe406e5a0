import WinsockTut.PingPong.Accounts

/-!
# What the functions of the server do

Each function of the server and of its sessions is shown to succeed, whatever the system answers,
and to keep the accounts.  What it does to the service is said by `Moved`: how many packets are
outstanding on the contexts afterwards, and which contexts are in use.
-/

namespace WinsockTut

namespace PingPong

open Runs Word Function
open CompletionPortService (Driven View Face)

variable {c c' : Config} {i j : CtxId} {s s' : SessionId} {h' : Handler} {o o' : Session}
  {closing : Option SessionId} {y : Face} {a : Answer}

/-- How the contexts stand: `out` packets are outstanding on them, and those that meet `used` are in
use. -/
structure Shows (io : CompletionPortService.Config) (out : CtxId → ℕ) (used : CtxId → Prop) :
    Prop where
  out : io.view.out = out
  used : ∀ j, (∃ y, io.view.face j = some y ∧ y.lazy = false) ↔ used j

/-- What calls of the service have led to; control stands where it stood. -/
structure Moved (c : Config) (io : CompletionPortService.Config) (out : CtxId → ℕ)
    (used : CtxId → Prop) : Prop extends Shows io out used where
  ctl : io.ctl = c.io.ctl

/-! ### The calls of the service -/

section

variable {io : CompletionPortService.Config} {e : CompletionPortService.Event}

theorem perform_single (hstep : CompletionPortService.step c.io e = some io) :
    c.perform [e] = some { c with io := io } := by
  simp [Config.perform, hstep]

theorem exists_get (hy : c.io.view.face i = some y) :
    ∃ x, c.io.service.ctxs.get i = some x ∧ CompletionPortService.face x = y :=
  Option.map_eq_some_iff.mp hy

/-- The contexts in use when one of them has been given another face. -/
theorem used_update (hi : c.InUse i) (hlazy : y.lazy = false) (j : CtxId) :
    (∃ z, update c.io.view.face i (some y) j = some z ∧ z.lazy = false) ↔ c.InUse j := by
  by_cases hj : j = i
  · subst hj
    rw [update_self]
    exact iff_of_true ⟨y, rfl, hlazy⟩ hi
  · rw [update_of_ne hj]
    rfl

section

variable (h : Accounts closing c)

include h

/-- Nothing is outstanding on a context that has not been allocated. -/
theorem Accounts.out_size : c.io.view.out c.io.view.size = 0 := by
  by_contra hne
  obtain ⟨y, hy, -⟩ := h.inUse_of_out (Nat.pos_of_ne_zero hne)
  exact absurd (CompletionPortService.lt_size_of_face hy) (lt_irrefl _)

theorem Accounts.ctx_ne_size : c.server.ctx ≠ some c.io.view.size := by
  intro hctx
  obtain ⟨y, hy, -⟩ := h.acceptor _ hctx
  exact absurd (CompletionPortService.lt_size_of_face hy) (lt_irrefl _)

theorem Accounts.recvCtx_ne_size (hs : c.session s = some o) : o.recvCtx ≠ c.io.view.size := by
  intro hctx
  obtain ⟨⟨y, hy⟩, -⟩ := h.owned s o hs
  exact absurd (hctx ▸ CompletionPortService.lt_size_of_face hy) (lt_irrefl _)

/-- A call that does not show in the view. -/
theorem same_spec (he : e.keeps = true) (hstep : CompletionPortService.step c.io e = some io)
    (hview : io.view = c.io.view) :
    Moved c io c.io.view.out c.InUse ∧ Accounts closing { c with io := io } := by
  refine ⟨⟨⟨by rw [hview], fun j => by rw [hview]; rfl⟩, congrArg (·.ctl) hview⟩, ?_⟩
  exact h.of_out (CompletionPortService.driven_of_keeps h.driven he hstep) c.io.view.out
    c.io.view.ctl hview fun _ => le_rfl

end

variable (h : Accounts closing c) (huser : c.io.ctl.stage = .user)

include h huser

/-- A context is armed. -/
theorem arm_spec (h' : Handler) (hi : c.InUse i) (hout : c.io.view.out i = 0) (hfit : c.Fits i h')
    (hreads : ∀ s, h' = .onRead s i → ∃ o, c.session s = some o ∧ 0 < o.id)
    (hwrites : ∀ s j o z, h' = .onWritten s j → c.session s = some o → 0 < o.id →
      c.io.view.face i = some z → z.fd = o.fd) (call : AsyncCall) :
    ∃ io, (do let c ← c.bind i h'; c.perform [.async i call]) =
        some { c with io := io, handlers := c.handlers ++ [h'] } ∧
      Moved c io (update c.io.view.out i (c.io.starts i call)) c.InUse ∧
      Accounts closing { c with io := io, handlers := c.handlers ++ [h'] } := by
  obtain ⟨z, hz, hlazy⟩ := hi
  obtain ⟨x, hx, rfl⟩ := exists_get hz
  have hcall := canCall_of_user huser
  obtain ⟨io, hassign, hview, hget, -, hstarts⟩ :=
    CompletionPortService.view_assign hcall hx x.flags x.udata (some c.handlers.length)
  have hcall' : io.canCall = true :=
    canCall_of_user (c := { c with io := io }) (by rw [← huser]; exact congrArg (·.ctl.stage) hview)
  obtain ⟨io', hasync, hview'⟩ := CompletionPortService.view_async hcall' hget call
  have hbind : c.bind i h' = some { c with io := io, handlers := c.handlers ++ [h'] } := by
    simp [Config.bind, hx, perform_single hassign]
  rw [hview, hstarts, hout, Nat.zero_add] at hview'
  refine ⟨io', ?_, ⟨⟨by rw [hview'], fun j => ?_⟩, congrArg (·.ctl) hview'⟩, ?_⟩
  · rw [hbind, Option.bind_eq_bind, Option.bind_some]
    exact perform_single hasync
  · rw [hview']
    exact used_update (y := ⟨x.flags, some c.handlers.length, x.fd⟩) ⟨_, hz, hlazy⟩ hlazy j
  · refine h.of_armed (y := ⟨x.flags, some c.handlers.length, x.fd⟩) ?_ rfl hlazy hview' ?_
      ⟨_, hz, hlazy⟩ hfit (fun w hw => ?_) hreads fun s j o hd hs ho =>
        hwrites s j o (CompletionPortService.face x) hd hs ho hz
    · exact CompletionPortService.driven_of_keeps
        (CompletionPortService.driven_of_keeps h.driven rfl hassign) rfl hasync
    · exact CompletionPortService.starts_le_one _ _ _
    · rw [← Option.some.inj (hz.symm.trans hw)]
      rfl

/-- A context is released; `FLAG_LAZY_DELETE` includes `FLAG_CANCEL_IO`. -/
theorem release_spec (hi : c.InUse i) (hout : c.io.view.out i = 0) (hacc : c.server.ctx ≠ some i)
    (hsess : ∀ s o, c.session s = some o → 0 < o.id → o.recvCtx ≠ i) :
    ∃ io z, c.release i = some { c with io := io } ∧ c.io.view.face i = some z ∧ z.lazy = false ∧
      Moved c io c.io.view.out (fun j => c.InUse j ∧ j ≠ i) ∧
      io.log = c.io.log ++ [.called (.cancelIoEx z.fd)] ∧ Accounts closing { c with io := io } := by
  obtain ⟨z, hz, hlazy⟩ := hi
  obtain ⟨x, hx, rfl⟩ := exists_get hz
  have hcall := canCall_of_user huser
  obtain ⟨io, hassign, hview, hget, hlog, -⟩ :=
    CompletionPortService.view_assign hcall hx (x.flags ||| flagLazyDelete) x.udata x.cb
  have hcall' : io.canCall = true :=
    canCall_of_user (c := { c with io := io }) (by rw [← huser]; exact congrArg (·.ctl.stage) hview)
  have hnow : OverlapContext.lazy { x with flags := x.flags ||| flagLazyDelete } = true :=
    hasBits_or_lazy x.flags
  obtain ⟨io', hfree, hview', hlog'⟩ := CompletionPortService.view_free hcall' hget hnow
  have hfreed : io.freed = c.io.freed := congrArg (·.freed) hview
  have hcancel : hasBits (x.flags ||| flagLazyDelete) flagCancelIo = true :=
    hasBits_or_cancel x.flags
  rw [hview, hfreed] at hview'
  simp only [update_idem] at hview'
  refine ⟨io', _, ?_, hz, hlazy, ⟨⟨by rw [hview'], fun j => ?_⟩, congrArg (·.ctl) hview'⟩, ?_, ?_⟩
  · simp [Config.release, hx, Config.perform, hassign, hfree]
  · rw [hview']
    change (∃ y, update c.io.view.face i _ j = some y ∧ y.lazy = false) ↔ _
    by_cases hj : j = i
    · subst hj
      rw [update_self]
      refine iff_of_false ?_ fun hne => hne.2 rfl
      rintro ⟨y, hy, hylazy⟩
      rw [← Option.some.inj hy] at hylazy
      exact Bool.false_ne_true (hylazy.symm.trans hnow)
    · rw [update_of_ne hj]
      exact (and_iff_left hj).symm
  · rw [hlog', hlog, if_pos hcancel]
    rfl
  · refine h.of_released (z := ⟨x.flags ||| flagLazyDelete, x.cb, invalidSocket⟩) ?_ hz rfl hnow
      hview' hout hacc hsess
    refine CompletionPortService.driven_of_free
      (CompletionPortService.driven_of_keeps h.driven rfl hassign) ?_ ?_ hfree
    · rw [hfreed]
      exact h.not_freed ⟨_, hz, hlazy⟩
    · rw [CompletionPortService.lazy_of_get hget]
      exact hnow

/-- A context is allocated. -/
theorem alloc_spec (fd : Socket) (flags : BitVec 32) (associated : Bool)
    (hok : hasBits flags flagAssociate = true → associated = true) :
    ∃ io, c.alloc fd flags associated = some ({ c with io := io }, some c.io.view.size) ∧
      io.view.face c.io.view.size = some ⟨0, none, fd⟩ ∧
      Moved c io c.io.view.out (fun j => c.InUse j ∨ j = c.io.view.size) ∧
      (hasBits flags flagAssociate = false → ∀ outcome,
        io.starts c.io.view.size (.write outcome) =
          CompletionPortService.startedBy (decide (fd ∈ c.io.service.port)) outcome) ∧
      Accounts closing { c with io := io } := by
  obtain ⟨io, hstep, halloc, hview, hstarts⟩ :=
    CompletionPortService.view_alloc (canCall_of_user huser) fd flags hok
  refine ⟨io, ?_, by rw [hview]; exact update_self _ _ _,
    ⟨⟨by rw [hview], fun j => ?_⟩, congrArg (·.ctl) hview⟩, hstarts, ?_⟩
  · simp [Config.alloc, halloc, perform_single hstep]
  · rw [hview]
    change (∃ y, update c.io.view.face c.io.view.size _ j = some y ∧ y.lazy = false) ↔ _
    by_cases hj : j = c.io.view.size
    · rw [hj, update_self]
      exact iff_of_true ⟨_, rfl, hasBits_zero _⟩ (Or.inr rfl)
    · rw [update_of_ne hj]
      exact (or_iff_left hj).symm
  · refine h.of_alloc (CompletionPortService.driven_of_keeps h.driven rfl hstep) ?_ hview
    intro y hy
    obtain rfl := Option.some.inj hy
    exact ⟨rfl, hasBits_zero _⟩

/-- No context is allocated if the socket cannot be associated with the port. -/
theorem alloc_failed_spec (fd : Socket) :
    ∃ io, c.alloc fd flagAssociate false = some ({ c with io := io }, none) ∧
      Moved c io c.io.view.out c.InUse ∧ Accounts closing { c with io := io } := by
  have hflag : hasBits flagAssociate flagAssociate = true := by decide
  obtain ⟨io, hstep, halloc, hview⟩ :=
    CompletionPortService.view_alloc_failed (canCall_of_user huser) fd hflag
  refine ⟨io, ?_, ⟨⟨by rw [hview], fun j => by rw [hview]; rfl⟩, congrArg (·.ctl) hview⟩, ?_⟩
  · simp [Config.alloc, halloc, perform_single hstep]
  · refine h.of_alloc (n := none) (CompletionPortService.driven_of_keeps h.driven rfl hstep) ?_ ?_
    · simp
    · rw [hview, ← CompletionPortService.face_eq_none (c := c.io) le_rfl, update_eq_self]

/-- A socket is closed. -/
theorem closeSocket_spec (fd : Socket) :
    ∃ io, c.perform [.closeSocket fd] = some { c with io := io } ∧ io.view = c.io.view ∧
      io.log = c.io.log ++ [.called (.closesocket fd)] ∧ Moved c io c.io.view.out c.InUse ∧
      Accounts closing { c with io := io } := by
  obtain ⟨io, hstep, hview, hlog⟩ :=
    CompletionPortService.view_closeSocket (canCall_of_user huser) fd
  exact ⟨io, perform_single hstep, hview, hlog, same_spec h rfl hstep hview⟩

/-- The owner writes `udata`. -/
theorem assign_spec {x : OverlapContext} (hx : c.io.service.ctxs.get i = some x) (udata : ℤ) :
    ∃ io, c.perform [.assign i x.flags udata x.cb] = some { c with io := io } ∧
      Moved c io c.io.view.out c.InUse ∧ Accounts closing { c with io := io } := by
  obtain ⟨io, hstep, hview, -, -⟩ :=
    CompletionPortService.view_assign (canCall_of_user huser) hx x.flags udata x.cb
  have hface : c.io.view.face i = some ⟨x.flags, x.cb, x.fd⟩ := by
    rw [show c.io.view.face i = (c.io.service.ctxs.get i).map _ from rfl, hx]
    rfl
  rw [← hface, update_eq_self] at hview
  exact ⟨io, perform_single hstep, same_spec h rfl hstep hview⟩

end

end PingPong

end WinsockTut
