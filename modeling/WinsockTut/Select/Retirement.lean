import WinsockTut.Select.Machine

/-!
# Callbacks of the select poller through retired entries

The loop of `Poll` compares the local variable `fd` with `INVALID_SOCKET` between its three tests,
not the entry, so it does not notice that a callback has retired the entry it is working on.
`callsLive_iff` says when this matters: when the socket is in a ready set that is still to be
tested for the same entry.
-/

namespace WinsockTut

namespace SelectPoller

open Runs

variable {p : SelectPoller} {c c' : Config} {e : Event} {es : List Event} {d : Dispatch}
  {ready : Ready} {count i : ℕ} {fd : Socket} {s : Site}

/-- The entry belongs to a socket that has not been removed. -/
def FdEntry.Live (x : FdEntry) : Prop := x.fd ≠ invalidSocket ∧ x.sink ≠ none

/-- The entry at `i` has been retired by `RemoveFd`. -/
def RetiredAt (p : SelectPoller) (i : ℕ) : Prop := ∃ x, p.fds[i]? = some x ∧ x.sink = none

/-- All callbacks so far were made through live entries. -/
def CallsLive (c : Config) : Prop := ∀ x s, .called x s ∈ c.log → x.Live

/-- The step is not the return of a callback which has retired its own entry, while the socket is
in a ready set that is still to be tested for this entry. -/
def NoRetiredTest (c : Config) (e : Event) : Prop :=
  e = .callbackReturn → ∀ d ready count, c.ctl = .callback d ready count →
    c.poller.RetiredAt d.i → ∀ s ∈ d.site.later, d.fd ∉ ready.at s

/-! ### The loop -/

theorem nextSite_some {sites : List Site} (h : nextSite ready fd sites = some s) :
    fd ≠ invalidSocket ∧ s ∈ sites ∧ fd ∈ ready.at s := by
  unfold nextSite at h
  split at h
  · simp at h
  · rename_i hfd
    refine ⟨hfd, List.mem_of_find?_eq_some h, ?_⟩
    have := List.find?_some h
    simpa [fdIsSet] using this

theorem nextSite_none {sites : List Site} (hfd : fd ≠ invalidSocket)
    (h : nextSite ready fd sites = none) : ∀ s ∈ sites, fd ∉ ready.at s := by
  intro s hs
  rw [nextSite, if_neg hfd, List.find?_eq_none] at h
  simpa [fdIsSet] using h s hs

/-- The loop makes its next callback through an entry whose `fd` is a socket. -/
theorem scan_some {xs : List FdEntry} (h : scan ready i xs = some d) :
    d.fd ≠ invalidSocket ∧ ∃ k x, d.i = i + k ∧ xs[k]? = some x ∧ x.fd = d.fd := by
  induction xs generalizing i with
  | nil => simp [scan] at h
  | cons x xs ih =>
    cases hs : nextSite ready x.fd Site.all with
    | some s =>
      simp only [scan, hs, Option.some.injEq] at h
      subst h
      exact ⟨(nextSite_some hs).1, 0, x, rfl, rfl, rfl⟩
    | none =>
      simp only [scan, hs] at h
      obtain ⟨hfd, k, y, hi, hy, hyd⟩ := ih h
      exact ⟨hfd, k + 1, y, by omega, by simpa using hy, hyd⟩

theorem start_some (h : p.start ready = some d) :
    d.fd ≠ invalidSocket ∧ ∃ x, p.fds[d.i]? = some x ∧ x.fd = d.fd := by
  unfold start at h
  split at h
  · obtain ⟨hfd, k, x, hi, hx, hxd⟩ := scan_some h
    exact ⟨hfd, x, by simpa [hi] using hx, hxd⟩
  · simp at h

/-- The next callback is made through the same entry or through a later one. -/
theorem resume_some {d' : Dispatch} (h : p.resume ready d = some d') :
    (nextSite ready d.fd d.site.later = some d'.site ∧ d'.i = d.i ∧ d'.fd = d.fd) ∨
    (nextSite ready d.fd d.site.later = none ∧ d'.fd ≠ invalidSocket ∧
      ∃ x, p.fds[d'.i]? = some x ∧ x.fd = d'.fd) := by
  cases hs : nextSite ready d.fd d.site.later with
  | some s =>
    simp only [resume, hs, Option.some.injEq] at h
    subst h
    exact Or.inl ⟨rfl, rfl, rfl⟩
  | none =>
    simp only [resume, hs] at h
    obtain ⟨hfd, k, x, hi, hx, hxd⟩ := scan_some h
    refine Or.inr ⟨rfl, hfd, x, ?_, hxd⟩
    rw [List.getElem?_drop] at hx
    rwa [hi]

/-! ### The entries -/

/-- An entry is either kept by `MarkRetired` or retired by it. -/
theorem getElem?_retireFirst (xs : List FdEntry) (fd : Socket) (i : ℕ) :
    (retireFirst fd xs)[i]? = xs[i]? ∨ (∃ x, xs[i]? = some x) ∧
      (retireFirst fd xs)[i]? = some { fd := invalidSocket, sink := none } := by
  rw [retireFirst_eq]
  rcases FirstMatch.getElem?_modifyFirst (fun x : FdEntry => x.fd = fd)
    (fun _ => { fd := invalidSocket, sink := none }) xs i with hsame | ⟨x, hx, -, -, hchange⟩
  · exact Or.inl hsame
  · exact Or.inr ⟨⟨x, hx⟩, hchange⟩

/-- Null sinks occur in retired entries only. -/
def SinksSet (p : SelectPoller) : Prop := ∀ x ∈ p.fds, x.sink = none → x.fd = invalidSocket

/-- A call leaves an entry as it is or retires it. -/
theorem getElem?_call {x : FdEntry} (h : p.fds[i]? = some x) (k : Call) :
    (p.call k).fds[i]? = some x ∨
      (p.call k).fds[i]? = some { fd := invalidSocket, sink := none } := by
  cases k with
  | addFd fd event =>
    refine Or.inl ?_
    simp only [call, addFd]
    split
    · exact h
    · rw [List.getElem?_append_left (List.getElem?_eq_some_iff.mp h).1, h]
  | removeFd fd =>
    rcases getElem?_retireFirst p.fds fd i with hkeep | ⟨-, hret⟩
    · exact Or.inl (hkeep.trans h)
    · exact Or.inr hret
  | setPollIn fd => exact Or.inl h
  | resetPollIn fd => exact Or.inl h
  | setPollOut fd => exact Or.inl h
  | resetPollOut fd => exact Or.inl h

theorem SinksSet.call (h : p.SinksSet) (k : Call) : (p.call k).SinksSet := by
  cases k with
  | addFd fd event =>
    intro x hx hnone
    simp only [SelectPoller.call, addFd] at hx
    split at hx
    · exact h x hx hnone
    · rcases List.mem_append.mp hx with hx | hx
      · exact h x hx hnone
      · obtain rfl := List.mem_singleton.mp hx
        simp at hnone
  | removeFd fd =>
    intro x hx hnone
    obtain ⟨i, hi⟩ := List.mem_iff_getElem?.mp hx
    rcases getElem?_retireFirst p.fds fd i with hkeep | ⟨-, hret⟩
    · exact h x (List.mem_of_getElem? (hkeep.symm.trans hi)) hnone
    · obtain rfl := Option.some.inj (hret.symm.trans hi)
      rfl
  | setPollIn fd => exact h
  | resetPollIn fd => exact h
  | setPollOut fd => exact h
  | resetPollOut fd => exact h

theorem SinksSet.removeRetired (h : p.SinksSet) : p.removeRetired.SinksSet := by
  intro x hx hnone
  unfold SelectPoller.removeRetired at hx
  split at hx
  · exact h x (List.mem_of_mem_filter hx) hnone
  · exact h x hx hnone

/-! ### The runs in which no retired entry is used -/

/-- The invariant of the loop.  The entry whose callback is running has been retired or still has
the socket in the local variable `fd`. -/
structure DispatchInv (c : Config) : Prop where
  sinks : c.poller.SinksSet
  calls : CallsLive c
  here : ∀ d ready count, c.ctl = .callback d ready count → d.fd ≠ invalidSocket ∧
    ∃ x, c.poller.fds[d.i]? = some x ∧ (x.sink = none ∨ x.fd = d.fd)

theorem dispatchInv_init : DispatchInv Config.init where
  sinks := fun _ hx => absurd hx List.not_mem_nil
  calls := fun _ _ hx => absurd hx List.not_mem_nil
  here := fun _ _ _ h => nomatch h

/-- The invariant after a step that makes no callback. -/
theorem DispatchInv.of_no_call (h : DispatchInv c) (hp : c'.poller.SinksSet)
    (hlog : ∀ x s, .called x s ∈ c'.log → .called x s ∈ c.log)
    (hctl : ∀ d ready count, c'.ctl ≠ .callback d ready count) : DispatchInv c' where
  sinks := hp
  calls x s hx := h.calls x s (hlog x s hx)
  here d ready count hc := absurd hc (hctl d ready count)

/-- The invariant after a callback through an entry that still has its socket. -/
theorem DispatchInv.dispatch (h : DispatchInv c) {next : Option Dispatch}
    (hd : dispatch c ready count next = some c')
    (hnext : ∀ d, next = some d → d.fd ≠ invalidSocket ∧
      ∃ x, c.poller.fds[d.i]? = some x ∧ x.fd = d.fd) : DispatchInv c' := by
  have hlive : ∀ d x, next = some d → c.poller.fds[d.i]? = some x →
      x.fd = d.fd ∧ x.fd ≠ invalidSocket ∧ x.sink ≠ none := by
    intro d x hn hx
    obtain ⟨hfd, y, hy, hyd⟩ := hnext d hn
    obtain rfl := Option.some.inj (hy.symm.trans hx)
    have hyfd : y.fd ≠ invalidSocket := fun hinvalid => hfd (hyd.symm.trans hinvalid)
    exact ⟨hyd, hyfd, fun hnone => hyfd (h.sinks y (List.mem_of_getElem? hy) hnone)⟩
  rcases dispatch_cases hd with ⟨-, rfl⟩ | ⟨d, x, hn, hx, ⟨-, rfl⟩ | ⟨hnone, -⟩⟩
  · exact h.of_no_call h.sinks (fun _ _ hx => hx) fun _ _ _ hc => nomatch hc
  · obtain ⟨hxd, hfd, hsink⟩ := hlive d x hn hx
    refine ⟨h.sinks, fun y s hy => ?_, fun d' ready' count' hc => ?_⟩
    · rcases List.mem_append.mp hy with hy | hy
      · exact h.calls y s hy
      · obtain ⟨rfl, -⟩ := Obs.called.inj (List.mem_singleton.mp hy)
        exact ⟨hfd, hsink⟩
    · obtain ⟨rfl, -, -⟩ := Control.callback.inj hc
      exact ⟨hxd ▸ hfd, x, hx, Or.inr hxd⟩
  · exact absurd hnone (hlive d x hn hx).2.2

/-- **Preservation.** -/
theorem DispatchInv.step (h : DispatchInv c) (hok : NoRetiredTest c e)
    (hstep : SelectPoller.step c e = some c') : DispatchInv c' := by
  cases effect_of_step hstep with
  | @called k hcall =>
    refine ⟨h.sinks.call k, h.calls, fun d ready count hc => ?_⟩
    obtain ⟨hfd, x, hx, hor⟩ := h.here d ready count hc
    rcases getElem?_call hx k with hx' | hx'
    · exact ⟨hfd, x, hx', hor⟩
    · exact ⟨hfd, _, hx', Or.inl rfl⟩
  | @ticked e timers =>
    refine ⟨h.sinks, h.calls, fun d ready count hc => h.here d ready count ?_⟩
    rcases c.ctl.afterTimer_eq e with hsame | ⟨n, hn⟩
    · exact hsame.symm.trans hc
    · cases hn.symm.trans hc
  | selecting hctl hfds =>
    exact h.of_no_call h.sinks (fun _ _ hx => hx) fun _ _ _ hc => nomatch hc
  | slept hctl hfds =>
    exact h.of_no_call h.sinks (fun _ _ hx => hx) fun _ _ _ hc => nomatch hc
  | failed hctl =>
    exact h.of_no_call h.sinks (fun _ _ hx => by simpa using hx) fun _ _ _ hc => nomatch hc
  | finished hctl =>
    exact h.of_no_call h.sinks.removeRetired (fun _ _ hx => by simpa using hx)
      fun _ _ _ hc => nomatch hc
  | selected hctl hw hd => exact h.dispatch hd fun d hs => start_some hs
  | @resumed d ready count _ hctl hd =>
    refine h.dispatch hd fun d' hs => ?_
    obtain ⟨hfd, x, hx, hor⟩ := h.here d ready count hctl
    rcases resume_some hs with ⟨hsite, hi, hfd'⟩ | ⟨-, hfd', hx'⟩
    · -- another test of the same entry succeeds, so the entry is not retired
      obtain ⟨-, hlater, hmem⟩ := nextSite_some hsite
      have hlive : x.sink ≠ none := fun hnone =>
        hok rfl d ready count hctl ⟨x, hx, hnone⟩ d'.site hlater hmem
      exact ⟨hfd' ▸ hfd, x, hi ▸ hx, hfd'.symm ▸ hor.resolve_left hlive⟩
    · exact ⟨hfd', hx'⟩

/-- A step against the condition makes a callback through a null sink. -/
theorem DispatchInv.not_callsLive (h : DispatchInv c) (hbad : ¬ NoRetiredTest c e)
    (hstep : SelectPoller.step c e = some c') : ¬ CallsLive c' := by
  simp only [NoRetiredTest, not_forall] at hbad
  obtain ⟨rfl, d, ready, count, hctl, ⟨x, hx, hnone⟩, s, hs, hmem⟩ := hbad
  have hmem : d.fd ∈ ready.at s := not_not.mp hmem
  obtain ⟨hfd, -⟩ := h.here d ready count hctl
  cases hnext : nextSite ready d.fd d.site.later with
  | none => exact absurd hmem (nextSite_none hfd hnext s hs)
  | some s' =>
    simp only [SelectPoller.step, hctl, resume, hnext, SelectPoller.dispatch, hx,
      Option.bind_eq_bind, Option.bind_some, Option.pure_def, Option.some.injEq] at hstep
    subst hstep
    exact fun hall => (hall x s' (by simp)).2 hnone

/-- **The select poller makes all its callbacks through live entries if and only if** no callback
retires its own entry while the socket is in a ready set that is still to be tested for it. -/
theorem callsLive_iff (hrun : runs es = some c) :
    Throughout step Config.init es (fun _ c => CallsLive c) ↔
      EachStep step Config.init es (fun _ c e => NoRetiredTest c e) :=
  throughout_iff_eachStep (P := fun _ c => DispatchInv c) dispatchInv_init
    (fun _ _ _ _ h => h.calls)
    (fun _ _ _ _ _ _ h hok hstep => h.step hok hstep)
    (fun _ _ _ _ _ _ h hbad hstep => h.not_callsLive hbad hstep) hrun

/-- A socket is ready in the given sets, and its first callback removes it. -/
def removeInFirstCallback (ready : Ready) : List Event :=
  [.call (.addFd 5 1), .call (.setPollIn 5), .poll, .selectReturns ready, .call (.removeFd 5)]

/-- With an error condition and data, the second callback goes through the null pointer. -/
theorem removeInFirstCallback_crashes :
    ∃ c, runs (removeInFirstCallback ⟨[5], [], [5]⟩ ++ [.callbackReturn]) = some c ∧
      c.ctl = .crashed ∧ .called { fd := invalidSocket, sink := none } .read ∈ c.log ∧
      ¬ CallsLive c := by
  have hfacts : (runs (removeInFirstCallback ⟨[5], [], [5]⟩ ++ [.callbackReturn])).map
      (fun c => (c.ctl, decide
        (.called { fd := invalidSocket, sink := none } .read ∈ c.log))) =
      some (.crashed, true) := by decide +kernel
  obtain ⟨c, hc, hpair⟩ := Option.map_eq_some_iff.mp hfacts
  obtain ⟨hctl, hmem⟩ := Prod.mk.inj hpair
  have hmem := of_decide_eq_true hmem
  exact ⟨c, hc, hctl, hmem, fun hall => (hall _ _ hmem).2 rfl⟩

/-- With data only, the same callback may remove the socket. -/
theorem callsLive_dataOnly :
    Throughout step Config.init (removeInFirstCallback ⟨[5], [], []⟩ ++ [.callbackReturn])
      (fun _ c => CallsLive c) := by
  obtain ⟨c, hc⟩ : ∃ c, runs (removeInFirstCallback ⟨[5], [], []⟩ ++ [.callbackReturn]) = some c :=
    Option.isSome_iff_exists.mp (by decide +kernel)
  refine (callsLive_iff hc).mpr (eachStep_append_singleton.mpr ⟨eachStep_of_forall ?_, ?_⟩)
  · rintro e he - t rfl
    simp [removeInFirstCallback] at he
  · rintro t ht - d ready count hctl - s hs
    have hfacts : (runs (removeInFirstCallback ⟨[5], [], []⟩)).map Config.ctl =
        some (.callback ⟨0, 5, .read⟩ ⟨[5], [], []⟩ 0) := by decide +kernel
    rw [show runs _ = some t from ht, Option.map_some, hctl, Option.some.injEq,
      Control.callback.injEq] at hfacts
    obtain ⟨rfl, -⟩ := hfacts
    simp [Site.later] at hs

end SelectPoller

end WinsockTut
