import WinsockTut.PingPong.Server

/-!
# The contexts and the sessions of the server

`Accounts` is the invariant of the server: what the callback of each context is bound to, that at
most one packet is to come for a context and none once it has been freed, and that the table
`sessions_` and the sessions belong together.  Its rules are about the few things the functions of
the server do to the service: they allocate a context, arm it (bind its callback and start an
operation on it), and release it.
-/

namespace WinsockTut

namespace PingPong

open Runs Word Function
open CompletionPortService (Driven View Face)

variable {c c' : Config} {i j : CtxId} {s s' : SessionId} {h h' : Handler} {o o' : Session}
  {closing : Option SessionId} {y : Face}

/-- The context has not been deleted, and is not to be deleted lazily. -/
def Config.InUse (c : Config) (i : CtxId) : Prop :=
  ∃ y, c.io.view.face i = some y ∧ y.lazy = false

/-- The callback belongs to the context: that of the acceptor, that a session reads with, or one
that is neither. -/
def Config.Fits (c : Config) (i : CtxId) : Handler → Prop
  | .onAccept j => j = i ∧ c.server.ctx = some i
  | .onRead s j => j = i ∧ s < c.objs.length ∧ ∀ o, c.session s = some o → o.recvCtx = i
  | .onWritten s j => j = i ∧ s < c.objs.length ∧ c.server.ctx ≠ some i ∧
      ∀ s' o, c.session s' = some o → o.recvCtx ≠ i

/-- The invariant of the server, while the session `closing` is being closed. -/
structure Accounts (closing : Option SessionId) (c : Config) : Prop where
  driven : Driven c.io
  /-- The closures of the contexts have been bound. -/
  known : ∀ i y, c.io.view.face i = some y → ∀ cb ∈ y.cb, cb < c.handlers.length
  alone : ∀ i, c.io.view.out i ≤ 1
  /-- Nothing is outstanding on a context that is to be deleted. -/
  idle : ∀ i y, c.io.view.face i = some y → y.lazy = true →
    c.io.view.out i = 0
  freed : ∀ i ∈ c.io.view.freed, i < c.io.view.size ∧
    ∀ y, c.io.view.face i = some y → y.lazy = true
  fits : ∀ i h, c.bound i = some h → c.Fits i h
  /-- A context with a packet to come has a callback, and a session that reads is open. -/
  busy : ∀ i, 0 < c.io.view.out i → ∃ h, c.bound i = some h ∧
    ∀ s, h = .onRead s i → ∃ o, c.session s = some o ∧ 0 < o.id
  acceptor : ∀ i, c.server.ctx = some i → c.InUse i
  owned : ∀ s o, c.session s = some o →
    (∃ y, c.io.view.face o.recvCtx = some y) ∧ c.server.ctx ≠ some o.recvCtx
  apart : ∀ s s' o o', c.session s = some o → c.session s' = some o' →
    o.recvCtx = o'.recvCtx → s = s'
  opened : ∀ s o, c.session s = some o → 0 < o.id →
    c.InUse o.recvCtx ∧ c.server.sessions o.id = some s
  /-- A session reads from its own socket, and writes to it. -/
  own : ∀ s o, c.session s = some o → 0 < o.id →
    (∀ y, c.io.view.face o.recvCtx = some y → y.fd = o.fd) ∧
      ∀ i j y, c.bound i = some (.onWritten s j) → c.io.view.face i = some y → y.lazy = false →
        y.fd = o.fd
  /-- Only the session that is being closed has lost its id. -/
  ids : ∀ s o, c.session s = some o → o.id < c.server.counter ∧ (closing ≠ some s → 0 < o.id)
  table : ∀ sid s, c.server.sessions sid = some s → sid < c.server.counter ∧
    ∃ o, c.session s = some o ∧ (closing ≠ some s → o.id = sid)
  counter : c.server.counter = 2001 + c.objs.length

/-! ### Reading the state -/

theorem session_lt (hs : c.session s = some o) : s < c.objs.length := by
  by_contra hge
  simp [Config.session, List.getElem?_eq_none (not_lt.mp hge)] at hs

/-- A context with a callback has not been deleted. -/
theorem face_of_bound (hb : c.bound i = some h) :
    ∃ y, c.io.view.face i = some y ∧ ∃ cb ∈ y.cb, c.handlers[cb]? = some h := by
  simp only [Config.bound, Option.bind_eq_some_iff] at hb
  obtain ⟨cb, ⟨y, hy, hcb⟩, hh⟩ := hb
  exact ⟨y, hy, cb, hcb, hh⟩

theorem bound_of_face (hy : c.io.view.face i = some y) :
    c.bound i = y.cb.bind fun cb => c.handlers[cb]? := by
  simp [Config.bound, hy]

/-- A context with a packet to come is in use. -/
theorem Accounts.inUse_of_out (h : Accounts closing c) (ho : 0 < c.io.view.out i) : c.InUse i := by
  obtain ⟨hd, hb, -⟩ := h.busy i ho
  obtain ⟨y, hy, -⟩ := face_of_bound hb
  refine ⟨y, hy, ?_⟩
  cases hlazy : y.lazy with
  | false => rfl
  | true =>
    have hzero := h.idle i y hy hlazy
    omega

/-- A context in use has not been freed. -/
theorem Accounts.not_freed (h : Accounts closing c) (hi : c.InUse i) : i ∉ c.io.freed := by
  obtain ⟨y, hy, hlazy⟩ := hi
  intro hmem
  rw [(h.freed i hmem).2 y hy] at hlazy
  cases hlazy

/-- The user has control, so the service may be called. -/
theorem canCall_of_user (huser : c.io.ctl.stage = .user) : c.io.canCall = true := by
  rw [CompletionPortService.Config.canCall, huser]
  rfl

/-- The calls that are still to be made do not matter. -/
theorem Accounts.of_todo (h : Accounts closing c) (todo : List Task) (fault : Bool) :
    Accounts closing { c with todo := todo, fault := fault } :=
  ⟨h.driven, h.known, h.alone, h.idle, h.freed, h.fits, h.busy, h.acceptor, h.owned, h.apart,
    h.opened, h.own, h.ids, h.table, h.counter⟩

/-! ### The rules -/

section

variable {io : CompletionPortService.Config} {ctl : CompletionPortService.Control}

/-- Operations end, or control moves. -/
theorem Accounts.of_out (h : Accounts closing c) (hdriven : Driven io) (out : CtxId → ℕ)
    (ctl : CompletionPortService.Control)
    (hview : io.view = { c.io.view with out := out, ctl := ctl })
    (hout : ∀ i, out i ≤ c.io.view.out i) : Accounts closing { c with io := io } := by
  have hbound : ∀ i, Config.bound { c with io := io } i = c.bound i := fun i => by
    simp only [Config.bound, hview]
  have hinuse : ∀ i, Config.InUse { c with io := io } i ↔ c.InUse i := fun i => by
    simp only [Config.InUse, hview]
  refine ⟨hdriven, ?_, ?_, ?_, ?_, ?_, ?_, ?_, ?_, h.apart, ?_, ?_, h.ids, h.table, h.counter⟩
  · simpa only [hview] using h.known
  · intro i
    simpa only [hview] using (hout i).trans (h.alone i)
  · intro i y hy hlazy
    have hzero := h.idle i y (by simpa only [hview] using hy) hlazy
    simpa only [hview] using Nat.le_zero.mp (hzero ▸ hout i)
  · simpa only [hview] using h.freed
  · intro i hd hb
    exact h.fits i hd (hbound i ▸ hb)
  · intro i hi
    rw [hbound]
    exact h.busy i (lt_of_lt_of_le (by simpa only [hview] using hi) (hout i))
  · intro i hi
    exact (hinuse i).mpr (h.acceptor i hi)
  · intro s o hs
    simpa only [hview] using h.owned s o hs
  · intro s o hs ho
    exact ⟨(hinuse _).mpr (h.opened s o hs ho).1, (h.opened s o hs ho).2⟩
  · intro s o hs ho
    simpa only [hbound, hview] using h.own s o hs ho

/-- What the callbacks are bound to when one context has got a new closure. -/
theorem Accounts.bound_armed (h : Accounts closing c) (h' : Handler)
    (hcb : y.cb = some c.handlers.length)
    (hface : io.view.face = update c.io.view.face i (some y))
    (j : CtxId) : Config.bound { c with io := io, handlers := c.handlers ++ [h'] } j =
      if j = i then some h' else c.bound j := by
  by_cases hj : j = i
  · subst hj
    simp [Config.bound, hface, hcb]
  · simp only [Config.bound, hface, update_of_ne hj, if_neg hj]
    cases hz : c.io.view.face j with
    | none => rfl
    | some z =>
      cases hzcb : z.cb with
      | none => simp [hzcb]
      | some cb =>
        simp only [hzcb, Option.bind_some]
        exact List.getElem?_append_left (h.known j z hz cb hzcb)

/-- A context is armed: its callback is bound, and an operation is started on it. -/
theorem Accounts.of_armed (h : Accounts closing c) (hdriven : Driven io) {n : ℕ}
    (hcb : y.cb = some c.handlers.length) (hlazy : y.lazy = false)
    (hview : io.view = { c.io.view with
      face := update c.io.view.face i (some y)
      out := update c.io.view.out i n }) (hn : n ≤ 1) (hi : c.InUse i) (hfit : c.Fits i h')
    (hfd : ∀ z, c.io.view.face i = some z → y.fd = z.fd)
    (hreads : ∀ s, h' = .onRead s i → ∃ o, c.session s = some o ∧ 0 < o.id)
    (hwrites : ∀ s j o, h' = .onWritten s j → c.session s = some o → 0 < o.id → y.fd = o.fd) :
    Accounts closing { c with io := io, handlers := c.handlers ++ [h'] } := by
  have hface : io.view.face = update c.io.view.face i (some y) := by rw [hview]
  have hout : io.view.out = update c.io.view.out i n := by rw [hview]
  have hbound := h.bound_armed h' hcb hface
  have hinuse : ∀ j, c.InUse j → Config.InUse
      { c with io := io, handlers := c.handlers ++ [h'] } j := by
    rintro j ⟨z, hz, hzlazy⟩
    by_cases hj : j = i
    · exact ⟨y, by rw [hface, hj, update_self], hlazy⟩
    · exact ⟨z, by rw [hface, update_of_ne hj, hz], hzlazy⟩
  refine ⟨hdriven, ?_, ?_, ?_, ?_, ?_, ?_, fun j hj => hinuse j (h.acceptor j hj), ?_, h.apart, ?_,
    ?_, h.ids, h.table, h.counter⟩
  · intro j z hz cb hzcb
    rw [hface] at hz
    rw [List.length_append, List.length_singleton]
    by_cases hj : j = i
    · obtain rfl : y = z := by simpa [hj] using hz
      obtain rfl : c.handlers.length = cb := Option.some.inj (hcb.symm.trans hzcb)
      exact Nat.lt_succ_self _
    · rw [update_of_ne hj] at hz
      exact Nat.lt_succ_of_lt (h.known j z hz cb hzcb)
  · intro j
    rw [hout]
    by_cases hj : j = i
    · rwa [hj, update_self]
    · rw [update_of_ne hj]
      exact h.alone j
  · intro j z hz hzlazy
    rw [hface] at hz
    rw [hout]
    by_cases hj : j = i
    · obtain rfl : y = z := by simpa [hj] using hz
      rw [hlazy] at hzlazy
      cases hzlazy
    · rw [update_of_ne hj] at hz ⊢
      exact h.idle j z hz hzlazy
  · intro j hj
    have hfreed : j ∈ c.io.view.freed := by simpa only [hview] using hj
    have hne : j ≠ i := fun heq => h.not_freed hi (heq ▸ hfreed)
    refine ⟨by simpa only [hview] using (h.freed j hfreed).1, fun z hz => ?_⟩
    rw [hface, update_of_ne hne] at hz
    exact (h.freed j hfreed).2 z hz
  · intro j hd hb
    rw [hbound] at hb
    split at hb
    · next hj =>
      obtain rfl := Option.some.inj hb
      exact hj ▸ hfit
    · exact h.fits j hd hb
  · intro j hj
    rw [hbound]
    by_cases hji : j = i
    · rw [if_pos hji]
      exact ⟨h', rfl, fun s hs => hreads s (hji ▸ hs)⟩
    · rw [if_neg hji]
      rw [hout, update_of_ne hji] at hj
      exact h.busy j hj
  · intro s o hs
    obtain ⟨⟨z, hz⟩, hacc⟩ := h.owned s o hs
    refine ⟨?_, hacc⟩
    by_cases hj : o.recvCtx = i
    · exact ⟨y, by rw [hface, hj, update_self]⟩
    · exact ⟨z, by rw [hface, update_of_ne hj, hz]⟩
  · intro s o hs ho
    exact ⟨hinuse _ (h.opened s o hs ho).1, (h.opened s o hs ho).2⟩
  · intro s o hs ho
    obtain ⟨hrecv, hwrite⟩ := h.own s o hs ho
    constructor
    · intro z hz
      rw [hface] at hz
      by_cases hj : o.recvCtx = i
      · obtain rfl : y = z := by simpa [hj] using hz
        obtain ⟨w, hw, -⟩ := hi
        exact (hfd w hw).trans (hrecv w (hj ▸ hw))
      · rw [update_of_ne hj] at hz
        exact hrecv z hz
    · intro j k z hb hz hzlazy
      rw [hbound] at hb
      rw [hface] at hz
      by_cases hj : j = i
      · obtain rfl : y = z := by simpa [hj] using hz
        rw [if_pos hj] at hb
        exact hwrites s k o (Option.some.inj hb) hs ho
      · rw [if_neg hj] at hb
        rw [update_of_ne hj] at hz
        exact hwrite j k z hb hz hzlazy

/-- `flags |= FLAG_LAZY_DELETE` sets the flag. -/
theorem hasBits_or_lazy (f : BitVec 32) : hasBits (f ||| flagLazyDelete) flagLazyDelete = true := by
  have habsorb : (f ||| flagLazyDelete) &&& flagLazyDelete = flagLazyDelete := by
    ext k hk
    simpa using Or.inr
  rw [hasBits, habsorb]
  decide

/-- It sets `FLAG_CANCEL_IO` too. -/
theorem hasBits_or_cancel (f : BitVec 32) : hasBits (f ||| flagLazyDelete) flagCancelIo = true := by
  have hbit : IsBit flagCancelIo 1 := by
    unfold IsBit
    decide
  rw [hasBits_or hbit, Bool.or_eq_true]
  exact Or.inr (by decide)

/-- A context is released: it is to be deleted lazily, and freed. -/
theorem Accounts.of_released (h : Accounts closing c) (hdriven : Driven io) {z : Face}
    (hy : c.io.view.face i = some y) (hcb : z.cb = y.cb) (hlazy : z.lazy = true)
    (hview : io.view = { c.io.view with
      face := update c.io.view.face i (some z), freed := i :: c.io.freed })
    (hout : c.io.view.out i = 0) (hacc : c.server.ctx ≠ some i)
    (hsess : ∀ s o, c.session s = some o → 0 < o.id → o.recvCtx ≠ i) :
    Accounts closing { c with io := io } := by
  have hface : io.view.face = update c.io.view.face i (some z) := by rw [hview]
  have hbound : ∀ j, Config.bound { c with io := io } j = c.bound j := by
    intro j
    by_cases hj : j = i
    · simp [Config.bound, hface, hj, hy, hcb]
    · simp [Config.bound, hface, hj]
  have hinuse : ∀ j ≠ i, c.InUse j → Config.InUse { c with io := io } j := by
    rintro j hj ⟨w, hw, hwlazy⟩
    exact ⟨w, by rw [hface, update_of_ne hj, hw], hwlazy⟩
  refine ⟨hdriven, ?_, ?_, ?_, ?_, ?_, ?_, ?_, ?_, h.apart, ?_, ?_, h.ids, h.table, h.counter⟩
  · intro j w hw
    rw [hface] at hw
    by_cases hj : j = i
    · rw [hj, update_self, Option.some.injEq] at hw
      rw [← hw, hcb]
      exact h.known i y hy
    · rw [update_of_ne hj] at hw
      exact h.known j w hw
  · simpa only [hview] using h.alone
  · intro j w hw hwlazy
    rw [hface] at hw
    rw [show io.view.out = c.io.view.out by rw [hview]]
    by_cases hj : j = i
    · rw [hj, hout]
    · rw [update_of_ne hj] at hw
      exact h.idle j w hw hwlazy
  · intro j hj
    rw [hview] at hj
    by_cases hji : j = i
    · refine ⟨hji ▸ by simpa only [hview] using CompletionPortService.lt_size_of_face hy, ?_⟩
      intro w hw
      rw [hface, hji, update_self] at hw
      exact Option.some.inj hw ▸ hlazy
    · have hfreed : j ∈ c.io.view.freed := (List.mem_cons.mp hj).resolve_left hji
      refine ⟨by simpa only [hview] using (h.freed j hfreed).1, fun w hw => ?_⟩
      rw [hface, update_of_ne hji] at hw
      exact (h.freed j hfreed).2 w hw
  · intro j hd hb
    exact h.fits j hd (hbound j ▸ hb)
  · intro j hj
    rw [hbound]
    exact h.busy j (by simpa only [hview] using hj)
  · intro j hj
    exact hinuse j (fun heq => hacc (heq ▸ hj)) (h.acceptor j hj)
  · intro s o hs
    obtain ⟨⟨w, hw⟩, hne⟩ := h.owned s o hs
    refine ⟨?_, hne⟩
    by_cases hj : o.recvCtx = i
    · exact ⟨z, by rw [hface, hj, update_self]⟩
    · exact ⟨w, by rw [hface, update_of_ne hj, hw]⟩
  · intro s o hs ho
    exact ⟨hinuse _ (hsess s o hs ho) (h.opened s o hs ho).1, (h.opened s o hs ho).2⟩
  · intro s o hs ho
    obtain ⟨hrecv, hwrite⟩ := h.own s o hs ho
    constructor
    · intro w hw
      rw [hface, update_of_ne (hsess s o hs ho)] at hw
      exact hrecv w hw
    · intro j k w hb hw hwlazy
      rw [hbound] at hb
      rw [hface] at hw
      by_cases hj : j = i
      · obtain rfl : z = w := by simpa [hj] using hw
        rw [hlazy] at hwlazy
        cases hwlazy
      · rw [update_of_ne hj] at hw
        exact hwrite j k w hb hw hwlazy

/-- A new context is allocated, or the attempt fails. -/
theorem Accounts.of_alloc (h : Accounts closing c) (hdriven : Driven io)
    {n : Option Face} (hnew : ∀ y ∈ n, y.cb = none ∧ y.lazy = false)
    (hview : io.view = { c.io.view with
      face := update c.io.view.face c.io.view.size n, size := c.io.view.size + 1 }) :
    Accounts closing { c with io := io } := by
  have hface : io.view.face = update c.io.view.face c.io.view.size n := by rw [hview]
  have hold : ∀ j z, c.io.view.face j = some z → io.view.face j = some z := by
    intro j z hz
    rw [hface, update_of_ne (Nat.ne_of_lt (CompletionPortService.lt_size_of_face hz)), hz]
  have hsplit : ∀ j z, io.view.face j = some z →
      c.io.view.face j = some z ∨ (z.cb = none ∧ z.lazy = false) := by
    intro j z hz
    rw [hface] at hz
    by_cases hj : j = c.io.view.size
    · rw [hj, update_self] at hz
      exact Or.inr (hnew z hz)
    · rw [update_of_ne hj] at hz
      exact Or.inl hz
  have hbound : ∀ j hd, Config.bound { c with io := io } j = some hd → c.bound j = some hd := by
    intro j hd hb
    obtain ⟨z, hz, cb, hcb, hh⟩ := face_of_bound hb
    rcases hsplit j z hz with hz | ⟨hnone, -⟩
    · rw [bound_of_face hz, Option.bind_eq_some_iff]
      exact ⟨cb, hcb, hh⟩
    · rw [hnone] at hcb
      cases hcb
  refine ⟨hdriven, ?_, ?_, ?_, ?_, ?_, ?_, ?_, ?_, h.apart, ?_, ?_, h.ids, h.table, h.counter⟩
  · intro j z hz cb hcb
    rcases hsplit j z hz with hz | ⟨hnone, -⟩
    · exact h.known j z hz cb hcb
    · rw [hnone] at hcb
      cases hcb
  · simpa only [hview] using h.alone
  · intro j z hz hflag
    rw [show io.view.out = c.io.view.out by rw [hview]]
    rcases hsplit j z hz with hz | ⟨-, hlazy⟩
    · exact h.idle j z hz hflag
    · rw [hlazy] at hflag
      cases hflag
  · intro j hj
    obtain ⟨hsize, hflag⟩ := h.freed j (by simpa only [hview] using hj)
    refine ⟨by rw [hview]; exact Nat.lt_succ_of_lt hsize, fun z hz => ?_⟩
    rw [hface, update_of_ne (Nat.ne_of_lt hsize)] at hz
    exact hflag z hz
  · intro j hd hb
    exact h.fits j hd (hbound j hd hb)
  · intro j hj
    obtain ⟨hd, hb, hreads⟩ := h.busy j (by simpa only [hview] using hj)
    obtain ⟨z, hz, cb, hcb, hh⟩ := face_of_bound hb
    refine ⟨hd, ?_, hreads⟩
    rw [bound_of_face (hold j z hz), Option.bind_eq_some_iff]
    exact ⟨cb, hcb, hh⟩
  · intro j hj
    obtain ⟨z, hz, hflag⟩ := h.acceptor j hj
    exact ⟨z, hold j z hz, hflag⟩
  · intro s o hs
    obtain ⟨⟨z, hz⟩, hne⟩ := h.owned s o hs
    exact ⟨⟨z, hold _ z hz⟩, hne⟩
  · intro s o hs ho
    obtain ⟨⟨z, hz, hflag⟩, htable⟩ := h.opened s o hs ho
    exact ⟨⟨z, hold _ z hz, hflag⟩, htable⟩
  · intro s o hs ho
    obtain ⟨hrecv, hwrite⟩ := h.own s o hs ho
    constructor
    · intro z hz
      obtain ⟨w, hw⟩ := (h.owned s o hs).1
      obtain rfl := Option.some.inj ((hold _ w hw).symm.trans hz)
      exact hrecv w hw
    · intro j k z hb hz hzlazy
      have hb' := hbound j _ hb
      obtain ⟨w, hw, -⟩ := face_of_bound hb'
      obtain rfl := Option.some.inj ((hold _ w hw).symm.trans hz)
      exact hwrite j k w hb' hw hzlazy

/-- A context that was to be deleted lazily is deleted. -/
theorem Accounts.of_deleted (h : Accounts none c) (hdriven : Driven io)
    (hy : c.io.view.face i = some y) (hlazy : y.lazy = true)
    (hview : io.view = { c.io.view with face := update c.io.view.face i none, ctl := ctl }) :
    Accounts none { c with io := io } := by
  have hface : io.view.face = update c.io.view.face i none := by rw [hview]
  have hleft : ∀ j z, io.view.face j = some z → j ≠ i ∧ c.io.view.face j = some z := by
    intro j z hz
    rw [hface] at hz
    have hj : j ≠ i := by
      rintro rfl
      simp at hz
    rw [update_of_ne hj] at hz
    exact ⟨hj, hz⟩
  have hinuse : ∀ j, c.InUse j → j ≠ i ∧ Config.InUse { c with io := io } j := by
    rintro j ⟨z, hz, hzlazy⟩
    have hj : j ≠ i := by
      rintro rfl
      rw [Option.some.inj (hz.symm.trans hy), hlazy] at hzlazy
      cases hzlazy
    exact ⟨hj, z, by rw [hface, update_of_ne hj, hz], hzlazy⟩
  have hbound : ∀ j ≠ i, Config.bound { c with io := io } j = c.bound j := by
    intro j hj
    simp [Config.bound, hface, hj]
  have hsome : ∀ j hd, Config.bound { c with io := io } j = some hd → c.bound j = some hd := by
    intro j hd hb
    obtain ⟨z, hz, -⟩ := face_of_bound hb
    rw [← hbound j (hleft j z hz).1, hb]
  have hopen : ∀ s o, c.session s = some o → 0 < o.id := fun s o hs => (h.ids s o hs).2 nofun
  refine ⟨hdriven, ?_, ?_, ?_, ?_, ?_, ?_, ?_, ?_, h.apart, ?_, ?_, h.ids, h.table, h.counter⟩
  · intro j z hz
    exact h.known j z (hleft j z hz).2
  · simpa only [hview] using h.alone
  · intro j z hz hzlazy
    simpa only [hview] using h.idle j z (hleft j z hz).2 hzlazy
  · intro j hj
    obtain ⟨hlt, hzlazy⟩ := h.freed j (by simpa only [hview] using hj)
    exact ⟨by simpa only [hview] using hlt, fun z hz => hzlazy z (hleft j z hz).2⟩
  · intro j hd hb
    exact h.fits j hd (hsome j hd hb)
  · intro j hj
    have hj' : 0 < c.io.view.out j := by simpa only [hview] using hj
    rw [hbound j (hinuse j (h.inUse_of_out hj')).1]
    exact h.busy j hj'
  · intro j hj
    exact (hinuse j (h.acceptor j hj)).2
  · intro s o hs
    obtain ⟨-, z, hz, -⟩ := hinuse _ (h.opened s o hs (hopen s o hs)).1
    exact ⟨⟨z, hz⟩, (h.owned s o hs).2⟩
  · intro s o hs ho
    exact ⟨(hinuse _ (h.opened s o hs ho).1).2, (h.opened s o hs ho).2⟩
  · intro s o hs ho
    obtain ⟨hrecv, hwrite⟩ := h.own s o hs ho
    exact ⟨fun z hz => hrecv z (hleft _ z hz).2, fun j k z hb hz =>
      hwrite j k z (hsome j _ hb) (hleft j z hz).2⟩

end

/-! ### Sessions come and go -/

theorem session_set_self (hs : c.session s = some o) (x : Option Session) :
    Config.session { c with objs := c.objs.set s x } s = x := by
  simp [Config.session, session_lt hs]

theorem session_set_of_ne (hne : s' ≠ s) (x : Option Session) :
    Config.session { c with objs := c.objs.set s x } s' = c.session s' := by
  simp [Config.session, List.getElem?_set_ne (Ne.symm hne)]

/-- A session is closed: it loses its id and its socket, while nothing is outstanding on the context
it reads with. -/
theorem Accounts.of_closed (h : Accounts none c) (hs : c.session s = some o)
    (hout : c.io.view.out o.recvCtx = 0) :
    Accounts (some s)
      { c with objs := c.objs.set s (some { o with fd := invalidSocket, id := 0 }) } := by
  have hself := session_set_self hs (some { o with fd := invalidSocket, id := 0 })
  have hother := fun s' (hne : s' ≠ s) =>
    session_set_of_ne (c := c) hne (some { o with fd := invalidSocket, id := 0 })
  -- the sessions that are left with an id are the others
  have hopen : ∀ s' o', Config.session
      { c with objs := c.objs.set s (some { o with fd := invalidSocket, id := 0 }) } s' = some o' →
      0 < o'.id → s' ≠ s ∧ c.session s' = some o' := by
    intro s' o' hs' ho'
    by_cases hne : s' = s
    · subst hne
      obtain rfl := Option.some.inj (hself.symm.trans hs')
      exact absurd ho' (lt_irrefl 0)
    · exact ⟨hne, (hother s' hne).symm.trans hs'⟩
  have hread : ∀ s' o', Config.session
      { c with objs := c.objs.set s (some { o with fd := invalidSocket, id := 0 }) } s' = some o' →
      ∃ o'', c.session s' = some o'' ∧ o''.recvCtx = o'.recvCtx := by
    intro s' o' hs'
    by_cases hne : s' = s
    · subst hne
      obtain rfl := Option.some.inj (hself.symm.trans hs')
      exact ⟨o, hs, rfl⟩
    · exact ⟨o', (hother s' hne).symm.trans hs', rfl⟩
  refine ⟨h.driven, h.known, h.alone, h.idle, h.freed, ?_, ?_, h.acceptor, ?_, ?_, ?_, ?_, ?_, ?_,
    ?_⟩
  · intro i hd hb
    have hfit := h.fits i hd hb
    cases hd with
    | onAccept j => exact hfit
    | onRead s' j =>
      refine ⟨hfit.1, by simpa using hfit.2.1, fun o' hs' => ?_⟩
      obtain ⟨o'', hs'', hctx⟩ := hread s' o' hs'
      exact hctx ▸ hfit.2.2 o'' hs''
    | onWritten s' j =>
      refine ⟨hfit.1, by simpa using hfit.2.1, hfit.2.2.1, fun s'' o' hs' => ?_⟩
      obtain ⟨o'', hs'', hctx⟩ := hread s'' o' hs'
      exact hctx ▸ hfit.2.2.2 s'' o'' hs''
  · intro i hi
    obtain ⟨hd, hb, hreads⟩ := h.busy i hi
    refine ⟨hd, hb, fun s' hd' => ?_⟩
    obtain ⟨o', hs', ho'⟩ := hreads s' hd'
    have hne : s' ≠ s := by
      rintro rfl
      have hctx : o.recvCtx = i := (hd' ▸ h.fits i hd hb).2.2 o hs
      exact absurd (hctx ▸ hout) (Nat.ne_of_gt hi)
    exact ⟨o', (hother s' hne).trans hs', ho'⟩
  · intro s' o' hs'
    obtain ⟨o'', hs'', hctx⟩ := hread s' o' hs'
    exact hctx ▸ h.owned s' o'' hs''
  · intro s' s'' o' o'' hs' hs'' heq
    obtain ⟨p', hp', hctx'⟩ := hread s' o' hs'
    obtain ⟨p'', hp'', hctx''⟩ := hread s'' o'' hs''
    exact h.apart s' s'' p' p'' hp' hp'' (hctx'.trans (heq.trans hctx''.symm))
  · intro s' o' hs' ho'
    exact h.opened s' o' (hopen s' o' hs' ho').2 ho'
  · intro s' o' hs' ho'
    exact h.own s' o' (hopen s' o' hs' ho').2 ho'
  · intro s' o' hs'
    by_cases hne : s' = s
    · subst hne
      obtain rfl := Option.some.inj (hself.symm.trans hs')
      refine ⟨?_, fun hc => absurd rfl hc⟩
      change (0 : ℤ) < c.server.counter
      rw [h.counter]
      omega
    · obtain ⟨hlt, hpos⟩ := h.ids s' o' ((hother s' hne).symm.trans hs')
      exact ⟨hlt, fun _ => hpos nofun⟩
  · intro sid s' hs'
    obtain ⟨hlt, o', ho', hid⟩ := h.table sid s' hs'
    refine ⟨hlt, ?_⟩
    by_cases hne : s' = s
    · subst hne
      exact ⟨_, hself, fun hc => absurd rfl hc⟩
    · exact ⟨o', (hother s' hne).trans ho', fun _ => hid nofun⟩
  · simpa using h.counter

/-- The closed session is deleted, and erased from the table. -/
theorem Accounts.of_destroyed (h : Accounts (some s) c) (hs : c.session s = some o) (ho : o.id = 0)
    {sid : ℤ} (hsid : c.server.sessions sid = some s)
    (honly : ∀ sid', c.server.sessions sid' = some s → sid' = sid) :
    Accounts none { c with
      server := { c.server with sessions := update c.server.sessions sid none }
      objs := c.objs.set s none } := by
  have hself := session_set_self hs none
  have hother := fun s' (hne : s' ≠ s) => session_set_of_ne (c := c) hne none
  -- the sessions that are left are the others
  have hleft : ∀ s' o', Config.session { c with objs := c.objs.set s none } s' = some o' →
      s' ≠ s ∧ c.session s' = some o' := by
    intro s' o' hs'
    have hne : s' ≠ s := by
      rintro rfl
      rw [hself] at hs'
      cases hs'
    exact ⟨hne, (hother s' hne).symm.trans hs'⟩
  refine ⟨h.driven, h.known, h.alone, h.idle, h.freed, ?_, ?_, h.acceptor, ?_, ?_, ?_, ?_, ?_, ?_,
    ?_⟩
  · intro i hd hb
    have hfit := h.fits i hd hb
    cases hd with
    | onAccept j => exact hfit
    | onRead s' j =>
      exact ⟨hfit.1, by simpa using hfit.2.1, fun o' hs' => hfit.2.2 o' (hleft s' o' hs').2⟩
    | onWritten s' j =>
      exact ⟨hfit.1, by simpa using hfit.2.1, hfit.2.2.1, fun s'' o' hs' =>
        hfit.2.2.2 s'' o' (hleft s'' o' hs').2⟩
  · intro i hi
    obtain ⟨hd, hb, hreads⟩ := h.busy i hi
    refine ⟨hd, hb, fun s' hd' => ?_⟩
    obtain ⟨o', hs', ho'⟩ := hreads s' hd'
    have hne : s' ≠ s := by
      rintro rfl
      obtain rfl := Option.some.inj (hs.symm.trans hs')
      omega
    exact ⟨o', (hother s' hne).trans hs', ho'⟩
  · intro s' o' hs'
    exact h.owned s' o' (hleft s' o' hs').2
  · intro s' s'' o' o'' hs' hs''
    exact h.apart s' s'' o' o'' (hleft s' o' hs').2 (hleft s'' o'' hs'').2
  · intro s' o' hs' ho'
    obtain ⟨hne, hs''⟩ := hleft s' o' hs'
    obtain ⟨huse, hlisted⟩ := h.opened s' o' hs'' ho'
    have hid : o'.id ≠ sid := by
      rintro rfl
      exact hne (Option.some.inj (hlisted.symm.trans hsid))
    refine ⟨huse, ?_⟩
    change update c.server.sessions sid none o'.id = some s'
    rw [update_of_ne hid, hlisted]
  · intro s' o' hs' ho'
    exact h.own s' o' (hleft s' o' hs').2 ho'
  · intro s' o' hs'
    obtain ⟨hne, hs''⟩ := hleft s' o' hs'
    obtain ⟨hlt, hpos⟩ := h.ids s' o' hs''
    exact ⟨hlt, fun _ => hpos fun heq => hne (Option.some.inj heq).symm⟩
  · intro sid' s' hs'
    by_cases hid' : sid' = sid
    · rw [hid'] at hs'
      simp at hs'
    · have hs'' : c.server.sessions sid' = some s' := by simpa [hid'] using hs'
      obtain ⟨hlt, o', ho', hid⟩ := h.table sid' s' hs''
      have hne : s' ≠ s := fun heq => hid' (honly sid' (heq ▸ hs''))
      exact ⟨hlt, o', (hother s' hne).trans ho', fun _ =>
        hid fun heq => hne (Option.some.inj heq).symm⟩
  · simpa using h.counter

/-- A session is created on a context that has just been allocated. -/
theorem Accounts.of_created (h : Accounts none c) (hi : c.io.view.face i = some y)
    (hcb : y.cb = none) (hlazy : y.lazy = false) (hacc : c.server.ctx ≠ some i)
    (hsess : ∀ s o, c.session s = some o → o.recvCtx ≠ i) {counter : ℤ}
    (hcounter : counter = c.server.counter + 1) :
    Accounts none { c with
      server := { c.server with
        counter := counter
        sessions := update c.server.sessions c.server.counter (some c.objs.length) }
      objs := c.objs ++ [some { id := c.server.counter, fd := y.fd, recvCtx := i }] } := by
  have hlast : Config.session { c with
      objs := c.objs ++ [some { id := c.server.counter, fd := y.fd, recvCtx := i }] }
      c.objs.length = some { id := c.server.counter, fd := y.fd, recvCtx := i } := by
    simp [Config.session]
  have hold : ∀ s < c.objs.length, Config.session { c with
      objs := c.objs ++ [some { id := c.server.counter, fd := y.fd, recvCtx := i }] } s =
        c.session s := fun s hs => by
    simp [Config.session, List.getElem?_append_left hs]
  have hsplit : ∀ s o, Config.session { c with
      objs := c.objs ++ [some { id := c.server.counter, fd := y.fd, recvCtx := i }] } s = some o →
      c.session s = some o ∨ s = c.objs.length ∧
        o = { id := c.server.counter, fd := y.fd, recvCtx := i } := by
    intro s o hs
    rcases Nat.lt_trichotomy s c.objs.length with hlt | rfl | hgt
    · exact Or.inl ((hold s hlt).symm.trans hs)
    · exact Or.inr ⟨rfl, (Option.some.inj (hlast.symm.trans hs)).symm⟩
    · have hlen : s < (c.objs ++ [_]).length := session_lt hs
      rw [List.length_append, List.length_singleton] at hlen
      exact absurd (Nat.lt_succ_iff.mp hlen) (not_le.mpr hgt)
  have hpos : 0 < c.server.counter := by
    rw [h.counter]
    omega
  have hbound : ∀ hd, c.bound i ≠ some hd := by
    simp [bound_of_face hi, hcb]
  refine ⟨h.driven, h.known, h.alone, h.idle, h.freed, ?_, ?_, h.acceptor, ?_, ?_, ?_, ?_, ?_, ?_,
    ?_⟩
  · intro j hd hb
    have hfit := h.fits j hd hb
    have hne : j ≠ i := fun heq => hbound hd (heq ▸ hb)
    cases hd with
    | onAccept k => exact hfit
    | onRead s k =>
      obtain ⟨hk, hlt, hrecv⟩ := hfit
      refine ⟨hk, by simpa using Nat.lt_succ_of_lt hlt, fun o hs => ?_⟩
      exact hrecv o ((hold s hlt).symm.trans hs)
    | onWritten s k =>
      obtain ⟨hk, hlt, hctx, hrecv⟩ := hfit
      refine ⟨hk, by simpa using Nat.lt_succ_of_lt hlt, hctx, fun s' o hs => ?_⟩
      rcases hsplit s' o hs with hs | ⟨-, rfl⟩
      · exact hrecv s' o hs
      · exact hne.symm
  · intro j hj
    obtain ⟨hd, hb, hreads⟩ := h.busy j hj
    refine ⟨hd, hb, fun s hd' => ?_⟩
    obtain ⟨o, hs, ho⟩ := hreads s hd'
    exact ⟨o, (hold s (session_lt hs)).trans hs, ho⟩
  · intro s o hs
    rcases hsplit s o hs with hs | ⟨-, rfl⟩
    · exact h.owned s o hs
    · exact ⟨⟨y, hi⟩, hacc⟩
  · intro s s' o o' hs hs' heq
    rcases hsplit s o hs with hs | ⟨rfl, rfl⟩ <;> rcases hsplit s' o' hs' with hs' | ⟨rfl, rfl⟩
    · exact h.apart s s' o o' hs hs' heq
    · exact absurd heq (hsess s o hs)
    · exact absurd heq.symm (hsess s' o' hs')
    · rfl
  · intro s o hs ho
    rcases hsplit s o hs with hs | ⟨rfl, rfl⟩
    · obtain ⟨huse, hlisted⟩ := h.opened s o hs ho
      have hne : o.id ≠ c.server.counter := ne_of_lt (h.ids s o hs).1
      refine ⟨huse, ?_⟩
      change update c.server.sessions c.server.counter (some c.objs.length) o.id = some s
      rw [update_of_ne hne, hlisted]
    · exact ⟨⟨y, hi, hlazy⟩, update_self _ _ _⟩
  · intro s o hs ho
    rcases hsplit s o hs with hs' | ⟨rfl, rfl⟩
    · exact h.own s o hs' ho
    · refine ⟨fun z hz => by rw [Option.some.inj (hi.symm.trans hz)], fun j k z hb => ?_⟩
      -- no context is bound to a session that did not exist
      exact absurd (h.fits j _ hb).2.1 (lt_irrefl _)
  · intro s o hs
    change o.id < counter ∧ _
    rcases hsplit s o hs with hs | ⟨-, rfl⟩
    · obtain ⟨hlt, hid⟩ := h.ids s o hs
      exact ⟨by omega, hid⟩
    · exact ⟨by change c.server.counter < counter; omega, fun _ => hpos⟩
  · intro sid s hs
    change sid < counter ∧ _
    by_cases hsid : sid = c.server.counter
    · have hs' : s = c.objs.length := by
        rw [hsid] at hs
        simpa using hs.symm
      subst hs'
      exact ⟨by omega, _, hlast, fun _ => hsid.symm⟩
    · have hs' : c.server.sessions sid = some s := by simpa [hsid] using hs
      obtain ⟨hlt, o, ho, hid⟩ := h.table sid s hs'
      exact ⟨by omega, o, (hold s (session_lt ho)).trans ho, hid⟩
  · change counter = _
    rw [hcounter, h.counter]
    simp
    omega

/-- The server is started with a context that has just been allocated. -/
theorem Accounts.of_started (h : Accounts closing c) (hctx : c.server.ctx = none)
    (hi : c.io.view.face i = some y) (hcb : y.cb = none) (hlazy : y.lazy = false)
    (hsess : ∀ s o, c.session s = some o → o.recvCtx ≠ i) :
    Accounts closing { c with server := { c.server with ctx := some i } } := by
  have hbound : ∀ hd, c.bound i ≠ some hd := by
    simp [bound_of_face hi, hcb]
  refine ⟨h.driven, h.known, h.alone, h.idle, h.freed, ?_, h.busy, ?_, ?_, h.apart, h.opened, h.own,
    h.ids, h.table, h.counter⟩
  · intro j hd hb
    have hne : i ≠ j := fun heq => hbound hd (heq ▸ hb)
    have hfit := h.fits j hd hb
    cases hd with
    | onAccept k => simp [Config.Fits, hctx] at hfit
    | onRead s k => exact hfit
    | onWritten s k => exact ⟨hfit.1, hfit.2.1, by simpa using hne, hfit.2.2.2⟩
  · intro j hj
    obtain rfl := Option.some.inj hj
    exact ⟨y, hi, hlazy⟩
  · intro s o hs
    exact ⟨(h.owned s o hs).1, by simpa using (hsess s o hs).symm⟩

end PingPong

end WinsockTut
