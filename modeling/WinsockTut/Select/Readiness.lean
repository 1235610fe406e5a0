import WinsockTut.Poller.Dated
import WinsockTut.Select.Ends
import WinsockTut.Select.Retirement

/-!
# The registrations that the select poller serves

`Poll` works through the three sets that `select` has returned, and reads `fds_.size()` again in
each round.  A callback may remove and close a socket and register a new one of the same value; its
entry is at the end of `fds_`, and the loop tests it against sets that speak of the old socket.

The history tells when the registrations were made and when `select` returned.
`ownReadiness_of_runs` says that a callback only goes to a registration made before, unless a
callback registers a socket that is in a ready set.
-/

namespace WinsockTut

namespace SelectPoller

open Runs FirstMatch

/-! ### The history -/

/-- The value a call returns; only `AddFd` returns one. -/
def result (p : SelectPoller) : Call → ℤ
  | .addFd fd event => (p.addFd fd event).2
  | _ => 0

/-- The operation a call performs. -/
def performed (p : SelectPoller) (k : Call) : List Op := if p.result k = 0 then [k.op] else []

/-- The compaction that `RemoveRetired` performs. -/
def compaction (p : SelectPoller) : List Op := if p.hasRetired then [.compacted] else []

/-- The history of a run. -/
structure History where
  /-- The number of steps. -/
  now : ℕ
  /-- The registrations, one for each entry. -/
  regs : List Dated
  /-- When `select` returned the last time. -/
  selected : Option ℕ
  /-- The callbacks made. -/
  served : List Served
  deriving DecidableEq, Repr

/-- The history before the first step. -/
def History.init : History := ⟨0, [], none, []⟩

/-- The registrations, and the time `select` returned, after a step from `c`. -/
def History.enter (h : History) (c : Config) : Event → History
  | .call k => { h with regs := (c.poller.performed k).foldl (Dated.apply h.now) h.regs }
  | .selectReturns _ => { h with selected := some h.now }
  | .finish => { h with regs := c.poller.compaction.foldl (Dated.apply h.now) h.regs }
  | _ => h

/-- The loop has made a callback if it has left control there. -/
def History.serve (h : History) : Control → History
  | .callback d _ _ =>
    { h with served := h.served ++ [{ made := Dated.madeAt h.regs d.i, recorded := h.selected }] }
  | _ => h

/-- One more step. -/
def History.tick (h : History) : History := { h with now := h.now + 1 }

/-- The history after a step. -/
def note (c : Config) (e : Event) (d : Config) (h : History) : History :=
  match e with
  | .selectReturns _ | .callbackReturn => ((h.enter c e).serve d.ctl).tick
  | _ => (h.enter c e).tick

/-- All callbacks of a run went to registrations made before `select` had returned. -/
def OwnReadiness (es : List Event) : Prop :=
  ∃ h, history step note Config.init History.init es = some h ∧ ∀ x ∈ h.served, x.Own

/-- The ready set that the loop tests at a site, while a callback is running. -/
def Control.tests (ctl : Control) (s : Site) : FdSet :=
  match ctl with
  | .callback _ ready _ => ready.at s
  | _ => []

/-- The step does not register, in a callback, a socket that is in one of the ready sets. -/
def NoReuse (c : Config) : Event → Prop
  | .call (.addFd fd event) =>
    (c.poller.addFd fd event).2 = 0 → fd ≠ invalidSocket → ∀ s, fd ∉ c.ctl.tests s
  | _ => True

variable {p : SelectPoller} {c c' : Config} {e : Event} {es : List Event} {h : History}
  {d : Dispatch} {ready : Ready} {count i t : ℕ} {fd : Socket} {k : Call}

/-! ### The entries and their sockets -/

/-- The sockets after a call. -/
theorem map_fd_call (p : SelectPoller) (k : Call) : (p.call k).fds.map FdEntry.fd =
    (p.performed k).foldl Op.sockets (p.fds.map FdEntry.fd) := by
  cases k with
  | addFd fd event =>
    by_cases hfull : p.fds.length ≥ fdSetSize
    · simp [performed, result, call, addFd, hfull]
    · simp [performed, result, call, addFd, hfull, Call.op, Op.sockets]
  | removeFd fd =>
    change (retireFirst fd p.fds).map FdEntry.fd = _
    rw [retireFirst_eq]
    exact map_modifyFirst (fun _ => rfl) fun _ => rfl
  | setPollIn fd => rfl
  | resetPollIn fd => rfl
  | setPollOut fd => rfl
  | resetPollOut fd => rfl

theorem map_fd_removeRetired (p : SelectPoller) : p.removeRetired.fds.map FdEntry.fd =
    p.compaction.foldl Op.sockets (p.fds.map FdEntry.fd) := by
  unfold removeRetired compaction
  cases p.hasRetired with
  | true =>
    simp only [if_true, List.foldl_cons, List.foldl_nil, Op.sockets, List.filter_map]
    rfl
  | false => rfl

/-! ### The loop -/

/-- The test at the site of a callback has succeeded. -/
theorem scan_ready {xs : List FdEntry} (h : scan ready i xs = some d) : d.fd ∈ ready.at d.site := by
  induction xs generalizing i with
  | nil => simp [scan] at h
  | cons x xs ih =>
    cases hs : nextSite ready x.fd Site.all with
    | some s =>
      simp only [scan, hs, Option.some.injEq] at h
      subst h
      exact (nextSite_some hs).2.2
    | none =>
      simp only [scan, hs] at h
      exact ih h

theorem resume_ready {d' : Dispatch} (h : p.resume ready d = some d') :
    d'.fd ∈ ready.at d'.site := by
  cases hs : nextSite ready d.fd d.site.later with
  | some s =>
    simp only [resume, hs, Option.some.injEq] at h
    subst h
    exact (nextSite_some hs).2.2
  | none =>
    simp only [resume, hs] at h
    exact scan_ready h

/-! ### The runs in which no ready socket is registered -/

/-- The registration was made before the time `t`, or the loop does not make a callback for it. -/
def Settled (ready : Ready) (t : ℕ) (r : Dated) : Prop :=
  r.made < t ∨ r.fd = invalidSocket ∨ ∀ s, r.fd ∉ ready.at s

/-- The invariant of the loop: the entry whose callback is running was registered before `select`
returned, and so were all entries the loop can make a callback for. -/
structure ReadyInv (c : Config) (h : History) : Prop where
  /-- The history follows the entries. -/
  sockets : h.regs.map Dated.fd = c.poller.fds.map FdEntry.fd
  past : ∀ r ∈ h.regs, r.made < h.now
  here : ∀ d ready count, c.ctl = .callback d ready count → ∃ t, h.selected = some t ∧
    (∃ a, Dated.madeAt h.regs d.i = some a ∧ a < t) ∧ ∀ r ∈ h.regs, Settled ready t r
  own : ∀ x ∈ h.served, x.Own

theorem readyInv_init : ReadyInv Config.init History.init where
  sockets := rfl
  past := fun _ hr => absurd hr List.not_mem_nil
  here := fun _ _ _ hc => nomatch hc
  own := fun _ hx => absurd hx List.not_mem_nil

theorem ReadyInv.past_succ (hinv : ReadyInv c h) : ∀ r ∈ h.regs, r.made < h.now + 1 :=
  fun r hr => Nat.lt_succ_of_lt (hinv.past r hr)

/-- The invariant after a step that leaves the entries alone and makes no callback. -/
theorem ReadyInv.of_no_call (hinv : ReadyInv c h) (hp : c'.poller.fds = c.poller.fds)
    (hctl : ∀ d ready count, c'.ctl = .callback d ready count → c.ctl = .callback d ready count) :
    ReadyInv c' h.tick where
  sockets := hp ▸ hinv.sockets
  past := hinv.past_succ
  here d ready count hc := hinv.here d ready count (hctl d ready count hc)
  own := hinv.own

/-- A registration made before `select` returned, for the entry at a position. -/
theorem ReadyInv.exists_reg (hinv : ReadyInv c h) {x : FdEntry} (hx : c.poller.fds[i]? = some x) :
    ∃ r ∈ h.regs, r.fd = x.fd ∧ Dated.madeAt h.regs i = some r.made := by
  obtain ⟨r, hr, hfd⟩ := Dated.exists_of_map_eq hinv.sockets hx
  exact ⟨r, List.mem_of_getElem? hr, hfd, by rw [Dated.madeAt, hr, Option.map_some]⟩

/-- The invariant after the loop has gone on to its next callback, or to its end. -/
theorem ReadyInv.dispatch (hinv : ReadyInv c h) {next : Option Dispatch}
    (hd : dispatch c ready count next = some c') (ht : h.selected = some t)
    (hsettled : ∀ r ∈ h.regs, Settled ready t r)
    (hnext : ∀ d, next = some d → ∃ a, Dated.madeAt h.regs d.i = some a ∧ a < t) :
    ReadyInv c' (h.serve c'.ctl).tick := by
  rcases dispatch_cases hd with ⟨-, rfl⟩ | ⟨d, x, hn, -, ⟨-, rfl⟩ | ⟨-, rfl⟩⟩
  · exact hinv.of_no_call rfl fun _ _ _ hc => nomatch hc
  · obtain ⟨a, ha, hat⟩ := hnext d hn
    refine ⟨hinv.sockets, hinv.past_succ, fun d' ready' count' hc => ?_, fun y hy => ?_⟩
    · obtain ⟨rfl, rfl, -⟩ := Control.callback.inj hc
      exact ⟨t, ht, ⟨a, ha, hat⟩, hsettled⟩
    · rcases List.mem_append.mp hy with hy | hy
      · exact hinv.own y hy
      · obtain rfl := List.mem_singleton.mp hy
        exact ⟨a, ha, t, ht, hat⟩
  · exact hinv.of_no_call rfl fun _ _ _ hc => nomatch hc

/-- A call keeps the invariant unless it registers a socket that is in a ready set. -/
theorem ReadyInv.call (hinv : ReadyInv c h) (hok : NoReuse c (.call k)) :
    ReadyInv { c with poller := c.poller.call k } (note c (.call k) c' h) where
  sockets := by
    rw [map_fd_call, ← hinv.sockets]
    exact Dated.map_fd_foldl h.now h.regs _
  past := Dated.forall_foldl hinv.past_succ (fun _ hr => hr) fun _ _ _ => Nat.lt_succ_self h.now
  here d ready count hc := by
    obtain ⟨t, ht, ⟨a, ha, hat⟩, hsettled⟩ := hinv.here d ready count hc
    refine ⟨t, ht, ⟨a, Dated.madeAt_foldl (k.compacted_notMem _) ha, hat⟩, ?_⟩
    refine Dated.forall_foldl hsettled (fun _ _ => Or.inr (Or.inl rfl)) fun fd event hl => ?_
    obtain ⟨rfl, hzero⟩ := Call.of_added_mem hl
    by_cases hfd : fd = invalidSocket
    · exact Or.inr (Or.inl hfd)
    · have hnone : ∀ s, fd ∉ c.ctl.tests s := hok hzero hfd
      rw [hc] at hnone
      exact Or.inr (Or.inr hnone)
  own := hinv.own

/-- **Preservation.** -/
theorem ReadyInv.step (hinv : ReadyInv c h) (hok : NoReuse c e)
    (hstep : SelectPoller.step c e = some c') : ReadyInv c' (note c e c' h) := by
  cases effect_of_step hstep with
  | called => exact hinv.call hok
  | @ticked e timers =>
    refine hinv.of_no_call rfl fun d ready count hc => ?_
    rcases c.ctl.afterTimer_eq e with hsame | ⟨n, hn⟩
    · exact hsame.symm.trans hc
    · cases hn.symm.trans hc
  | selecting => exact hinv.of_no_call rfl fun _ _ _ hc => nomatch hc
  | slept => exact hinv.of_no_call rfl fun _ _ _ hc => nomatch hc
  | failed => exact hinv.of_no_call rfl fun _ _ _ hc => nomatch hc
  | @selected sets ready _ hctl hw hd =>
    -- all registrations are older than the sets that `select` returns now
    have hinv' : ReadyInv c { h with selected := some h.now } :=
      ⟨hinv.sockets, hinv.past, fun _ _ _ hc => (nomatch hctl.symm.trans hc), hinv.own⟩
    refine hinv'.dispatch hd rfl (fun r hr => Or.inl (hinv.past r hr)) fun d hs => ?_
    obtain ⟨-, x, hx, -⟩ := start_some hs
    obtain ⟨r, hr, -, hmade⟩ := hinv.exists_reg hx
    exact ⟨r.made, hmade, hinv.past r hr⟩
  | @resumed d ready count _ hctl hd =>
    obtain ⟨t, ht, hhere, hsettled⟩ := hinv.here d ready count hctl
    refine hinv.dispatch hd ht hsettled fun d' hs => ?_
    rcases resume_some hs with ⟨-, hi, -⟩ | ⟨-, hfd, x, hx, hxd⟩
    · exact hi ▸ hhere
    · obtain ⟨r, hr, hrx, hmade⟩ := hinv.exists_reg hx
      have hrd : r.fd = d'.fd := hrx.trans hxd
      refine ⟨r.made, hmade, (hsettled r hr).resolve_right ?_⟩
      rintro (hinvalid | hnone)
      · exact hfd (hrd.symm.trans hinvalid)
      · exact hnone d'.site (hrd.symm ▸ resume_ready hs)
  | finished =>
    refine ⟨?_, ?_, fun _ _ _ hc => (nomatch hc), hinv.own⟩
    · rw [map_fd_removeRetired, ← hinv.sockets]
      exact Dated.map_fd_foldl h.now h.regs _
    · exact Dated.forall_foldl hinv.past_succ (fun _ hr => hr)
        fun _ _ hl => absurd hl Op.added_notMem_compaction

/-- **The select poller serves the registrations that were ready**, if no callback registers a
socket that is in one of the ready sets. -/
theorem ownReadiness_of_runs (hok : EachStep step Config.init es fun _ => NoReuse) :
    Throughout step Config.init es fun fs _ => OwnReadiness fs :=
  throughout_history readyInv_init (fun _ _ _ _ hinv hok hs => hinv.step hok hs)
    (fun _ _ hinv => hinv.own) hok

/-! ### A socket value that is used again -/

instance (c : Config) : (e : Event) → Decidable (NoReuse c e)
  | .call (.addFd fd event) => decidable_of_iff
      ((c.poller.addFd fd event).2 = 0 → fd ≠ invalidSocket → ∀ s ∈ Site.all, fd ∉ c.ctl.tests s)
      ⟨fun h hok hfd s => h hok hfd s (by cases s <;> decide), fun h hok hfd s _ => h hok hfd s⟩
  | .call (.removeFd _) | .call (.setPollIn _) | .call (.resetPollIn _) | .call (.setPollOut _)
  | .call (.resetPollOut _) | .timer _ | .poll | .selectFails | .selectReturns _ | .callbackReturn
  | .finish => isTrue trivial

/-- The socket 5 is ready, and its callback replaces it by a new socket of the value `fd`. -/
def replaceReady (fd : Socket) : List Event :=
  [.call (.addFd 5 1), .call (.setPollIn 5), .poll, .selectReturns ⟨[5], [], []⟩,
    .call (.removeFd 5), .call (.addFd fd 2), .callbackReturn]

/-- If the value is the same, the new registration is told what `select` said about the old one. -/
theorem replaceReady_same : (runs (replaceReady 5)).map (fun c => (c.ctl, c.log)) =
      some (.callback ⟨1, 5, .read⟩ ⟨[5], [], []⟩ 1,
        [.called ⟨5, some 1⟩ .read, .called ⟨5, some 2⟩ .read]) ∧
    (history step note Config.init History.init (replaceReady 5)).map History.served =
      some [⟨some 0, some 3⟩, ⟨some 5, some 3⟩] := by
  decide +kernel

end SelectPoller

end WinsockTut
