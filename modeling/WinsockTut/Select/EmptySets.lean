import WinsockTut.Select.Machine

/-!
# The socket sets handed to `select`

`Poll` calls `select` unless `fds_` is empty, but `fds_` also holds the retired entries, while
`RemoveFd` takes the socket out of the sets at once.  When the last sockets are removed between two
calls of `Poll`, `select` is handed three empty sets and fails, and `Poll` returns early: neither
the timers run nor are the retired entries taken out, so every later call fails in the same way
(`poll_fails_again`).  `selectsSockets_iff` describes the runs in which this never happens by the
calls made so far.
-/

namespace WinsockTut

namespace SelectPoller

open Runs

variable {p : SelectPoller} {c c' : Config} {e : Event} {es : List Event} {fd : Socket} {s : Site}

/-- Every call of `select` is handed a socket in one of its sets. -/
def SelectsSockets (c : Config) : Prop := ∀ sets, c.ctl = .selecting sets → ∃ s, sets.at s ≠ []

/-- The socket a call hands to `FD_SET` for the set of the site `s`. -/
def sets (p : SelectPoller) (s : Site) : Call → Option Socket
  | .addFd fd _ => if s = .except ∧ p.fds.length < fdSetSize then some fd else none
  | .setPollIn fd => if s = .read then some fd else none
  | .setPollOut fd => if s = .write then some fd else none
  | .removeFd _ | .resetPollIn _ | .resetPollOut _ => none

/-- The socket a call hands to `FD_CLR` for the set of the site `s`. -/
def clears (s : Site) : Call → Option Socket
  | .removeFd fd => some fd
  | .resetPollIn fd => if s = .read then some fd else none
  | .resetPollOut fd => if s = .write then some fd else none
  | .addFd _ _ | .setPollIn _ | .setPollOut _ => none

/-- The step is a call that puts `fd` into the set of the site `s`, which is not full. -/
def Puts (s : Site) (fd : Socket) (c : Config) (e : Event) : Prop :=
  (c.poller.ready.at s).length < fdSetSize ∧ ∃ k, e = .call k ∧ c.poller.sets s k = some fd

/-- The event is a call that takes `fd` out of the set of the site `s`. -/
def Takes (s : Site) (fd : Socket) (e : Event) : Prop := ∃ k, e = .call k ∧ clears s k = some fd

/-- Some call has put `fd` into the set of the site `s`, and no later call has taken it out. -/
def Kept (es : List Event) (s : Site) (fd : Socket) : Prop :=
  Since step Config.init es (Puts s fd) (Takes s fd)

/-- If the step is a call of `Poll`, then `fds_` is empty, or the calls so far have left a socket
in one of the sets. -/
def PollHasSocket (es : List Event) (c : Config) (e : Event) : Prop :=
  e = .poll → c.poller.fds = [] ∨ ∃ s fd, Kept es s fd

/-! ### The sets and the calls -/

/-- The set of a site after a call. -/
def setAfter (p : SelectPoller) (s : Site) (k : Call) : FdSet :=
  match clears s k, p.sets s k with
  | some fd, _ => fdClr fd (p.ready.at s)
  | none, some fd => fdSet fd (p.ready.at s)
  | none, none => p.ready.at s

/-- **What the calls do to the sets**: each is one `FD_SET` or `FD_CLR`, or does nothing. -/
theorem at_call (p : SelectPoller) (k : Call) (s : Site) :
    (p.call k).ready.at s = p.setAfter s k := by
  cases k with
  | addFd fd event =>
    by_cases hfull : p.fds.length ≥ fdSetSize
    · simp [setAfter, clears, sets, SelectPoller.call, addFd, hfull, not_lt.mpr hfull]
    · have hroom : p.fds.length < fdSetSize := not_le.mp hfull
      cases s <;>
        simp [setAfter, clears, sets, SelectPoller.call, addFd, hfull, hroom, ready, Ready.at]
  | removeFd fd => cases s <;> rfl
  | setPollIn fd => cases s <;> rfl
  | resetPollIn fd => cases s <;> rfl
  | setPollOut fd => cases s <;> rfl
  | resetPollOut fd => cases s <;> rfl

/-- The three sets have no repetitions. -/
def SetsNodup (p : SelectPoller) : Prop := ∀ s, (p.ready.at s).Nodup

theorem SetsNodup.call (h : p.SetsNodup) (k : Call) : (p.call k).SetsNodup := by
  intro s
  rw [at_call, setAfter]
  split
  · exact nodup_fdClr (h s) _
  · exact nodup_fdSet (h s) _
  · exact h s

/-- No call both puts a socket into a set and takes it out. -/
theorem sets_eq_none {k : Call} (h : clears s k = some fd) : p.sets s k = none := by
  cases k <;> simp_all [clears, sets]

/-- The elements of the sets after a call. -/
theorem mem_at_call (h : c.poller.SetsNodup) (k : Call) :
    fd ∈ (c.poller.call k).ready.at s ↔
      (fd ∈ c.poller.ready.at s ∧ ¬ Takes s fd (.call k)) ∨ Puts s fd c (.call k) := by
  have htakes : Takes s fd (.call k) ↔ clears s k = some fd := by simp [Takes]
  have hputs : Puts s fd c (.call k) ↔
      (c.poller.ready.at s).length < fdSetSize ∧ c.poller.sets s k = some fd := by simp [Puts]
  rw [at_call, setAfter, htakes, hputs]
  cases hclears : clears s k with
  | some x => simp [sets_eq_none hclears, mem_fdClr (h s), eq_comm]
  | none =>
    cases hsets : c.poller.sets s k with
    | some x => simp [mem_fdSet, and_comm, eq_comm]
    | none => simp

/-- Between two callbacks nothing changes in the poller. -/
theorem dispatch_poller {ready : Ready} {count : ℕ} {next : Option Dispatch}
    (h : dispatch c ready count next = some c') : c'.poller = c.poller := by
  rcases dispatch_cases h with ⟨-, rfl⟩ | ⟨d, x, -, -, ⟨-, rfl⟩ | ⟨-, rfl⟩⟩
  · rfl
  · rfl
  · rfl

theorem removeRetired_ready (p : SelectPoller) : p.removeRetired.ready = p.ready := by
  unfold removeRetired
  split <;> rfl

/-- Only calls change the sets. -/
theorem ready_of_step (h : step c e = some c') :
    (∃ k, e = .call k ∧ c'.poller = c.poller.call k) ∨
      ((∀ k, e ≠ .call k) ∧ c'.poller.ready = c.poller.ready) := by
  cases effect_of_step h with
  | called => exact Or.inl ⟨_, rfl, rfl⟩
  | ticked => exact Or.inr ⟨by simp, rfl⟩
  | selecting => exact Or.inr ⟨by simp, rfl⟩
  | slept => exact Or.inr ⟨by simp, rfl⟩
  | failed => exact Or.inr ⟨by simp, rfl⟩
  | selected _ _ hd => exact Or.inr ⟨by simp, congrArg SelectPoller.ready (dispatch_poller hd)⟩
  | resumed _ hd => exact Or.inr ⟨by simp, congrArg SelectPoller.ready (dispatch_poller hd)⟩
  | finished => exact Or.inr ⟨by simp, removeRetired_ready c.poller⟩

theorem setsNodup_of_runs (hrun : runs es = some c) : c.poller.SetsNodup := by
  refine run_induction (P := fun _ c => c.poller.SetsNodup) (fun s => ?_) ?_ hrun
  · cases s <;> exact List.nodup_nil
  · intro fs e t u _ _ ht hstep
    rcases ready_of_step hstep with ⟨k, -, hp⟩ | ⟨-, hready⟩
    · exact hp ▸ ht.call k
    · exact fun s => hready ▸ ht s

/-- **The sets hold what the calls have put into them.** -/
theorem mem_at_iff_kept (hrun : runs es = some c) :
    fd ∈ c.poller.ready.at s ↔ Kept es s fd := by
  refine iff_since (I := fun c => fd ∈ c.poller.ready.at s) ?_ ?_ hrun
  · cases s <;> exact List.not_mem_nil
  · intro fs t e u ht hstep
    rcases ready_of_step hstep with ⟨k, rfl, hp⟩ | ⟨hne, hready⟩
    · rw [hp]
      exact mem_at_call (setsNodup_of_runs ht) k
    · have htakes : ¬ Takes s fd e := fun ⟨k, hk, _⟩ => hne k hk
      have hputs : ¬ Puts s fd t e := fun ⟨_, k, hk, _⟩ => hne k hk
      simp [hready, htakes, hputs]

/-! ### The calls of `select` -/

/-- Control enters `select` only in a call of `Poll`. -/
theorem selecting_of_step (h : step c e = some c') {sets : Ready}
    (hctl : c'.ctl = .selecting sets) :
    c.ctl = .selecting sets ∨ (e = .poll ∧ sets = c.poller.ready ∧ c.poller.fds ≠ []) := by
  have hdispatch : ∀ ready count next, dispatch c ready count next ≠ some c' := by
    intro ready count next hd
    rcases dispatch_cases hd with ⟨-, rfl⟩ | ⟨d, x, -, -, ⟨-, rfl⟩ | ⟨-, rfl⟩⟩
    · cases hctl
    · cases hctl
    · cases hctl
  cases effect_of_step h with
  | called => exact Or.inl hctl
  | @ticked e timers =>
    rcases c.ctl.afterTimer_eq e with hsame | ⟨n, hn⟩
    · exact Or.inl (hsame.symm.trans hctl)
    · cases hn.symm.trans hctl
  | selecting _ hfds => exact Or.inr ⟨rfl, (Control.selecting.inj hctl).symm, hfds⟩
  | slept => simp at hctl
  | failed => simp at hctl
  | selected _ _ hd => exact absurd hd (hdispatch _ _ _)
  | resumed _ hd => exact absurd hd (hdispatch _ _ _)
  | finished => simp at hctl

/-- A call of `Poll` hands its sets to `select` unless `fds_` is empty. -/
theorem step_poll (hctl : c.ctl = .idle) (hfds : c.poller.fds ≠ []) :
    step c .poll = some { c with ctl := .selecting c.poller.ready } := by
  simp [step, hctl, hfds]

/-- `Poll` is only called from outside. -/
theorem idle_of_step_poll (h : step c .poll = some c') : c.ctl = .idle := by
  cases effect_of_step h with
  | selecting hctl => exact hctl
  | slept hctl => exact hctl

/-- **`select` is never handed three empty sets if and only if**, at each call of `Poll`, `fds_` is
empty or the calls made so far have left a socket in one of the sets. -/
theorem selectsSockets_iff (hrun : runs es = some c) :
    Throughout step Config.init es (fun _ c => SelectsSockets c) ↔
      EachStep step Config.init es PollHasSocket := by
  refine throughout_iff_eachStep (P := fun _ c => SelectsSockets c)
    (fun _ h => nomatch h) (fun _ _ _ _ h => h) ?_ ?_ hrun
  · intro fs e t u _ ht hsel hok hstep sets hctl
    rcases selecting_of_step hstep hctl with hctl' | ⟨rfl, rfl, hfds⟩
    · exact hsel sets hctl'
    · obtain ⟨s, fd, hkept⟩ := (hok rfl).resolve_left hfds
      exact ⟨s, List.ne_nil_of_mem ((mem_at_iff_kept ht).mpr hkept)⟩
  · intro fs e t u _ ht hsel hbad hstep hsel'
    simp only [PollHasSocket, not_forall, not_or, not_exists] at hbad
    obtain ⟨rfl, hfds, hnone⟩ := hbad
    rw [step_poll (idle_of_step_poll hstep) hfds, Option.some.injEq] at hstep
    subst hstep
    obtain ⟨s, hs⟩ := hsel' _ rfl
    obtain ⟨fd, hfd⟩ := List.exists_mem_of_ne_nil _ hs
    exact hnone s fd ((mem_at_iff_kept ht).mp hfd)

/-- Once `Poll` is called with three empty sets and entries in `fds_`, it fails, and so does every
later call: no timer runs, and the retired entries stay. -/
theorem poll_fails_again (hctl : c.ctl = .idle) (hfds : c.poller.fds ≠ [])
    (hempty : ∀ s, c.poller.ready.at s = []) (n : ℕ) :
    ∃ d, run step c (List.replicate n [Event.poll, Event.selectFails]).flatten = some d ∧
      d.poller = c.poller ∧ d.timers = c.timers ∧ d.ctl = .idle ∧
      ∀ ready d', step { d with ctl := .selecting d.poller.ready } (.selectReturns ready) ≠
        some d' := by
  have htotal : c.poller.ready.total = 0 := by
    have hr := hempty .read
    have hw := hempty .write
    have he := hempty .except
    simp only [Ready.at] at hr hw he
    simp [Ready.total, hr, hw, he]
  induction n generalizing c with
  | zero =>
    refine ⟨c, rfl, rfl, rfl, hctl, fun ready d' h => ?_⟩
    simp [step, htotal] at h
  | succ n ih =>
    let c' : Config := { c with ctl := .idle, log := c.log ++ [.returned 0] }
    obtain ⟨d, hd, hp, ht, hidle, hnone⟩ := ih (c := c') rfl hfds hempty htotal
    refine ⟨d, ?_, hp, ht, hidle, hnone⟩
    rw [List.replicate_succ, List.flatten_cons, run_append, run_cons, step_poll hctl hfds]
    exact hd

/-- A timer is due, and the only socket is removed between two calls of `Poll`. -/
def removeBetweenPolls : List Event :=
  [.call (.addFd 5 1), .timer (.addTimer 0 10 0 (some 2)), .call (.removeFd 5), .poll]

/-- `Poll` hands three empty sets to `select`. -/
theorem removeBetweenPolls_empty : ∃ c, runs removeBetweenPolls = some c ∧
    c.ctl = .selecting ⟨[], [], []⟩ ∧ c.poller.fds = [{ fd := invalidSocket, sink := none }] ∧
    ¬ SelectsSockets c := by
  have hfacts : (runs removeBetweenPolls).map (fun c => (c.ctl, c.poller.fds)) =
      some (.selecting ⟨[], [], []⟩, [{ fd := invalidSocket, sink := none }]) := by
    decide +kernel
  obtain ⟨c, hc, hpair⟩ := Option.map_eq_some_iff.mp hfacts
  obtain ⟨hctl, hfds⟩ := Prod.mk.inj hpair
  refine ⟨c, hc, hctl, hfds, fun hall => ?_⟩
  obtain ⟨s, hs⟩ := hall _ hctl
  cases s <;> exact hs rfl

/-- With the socket still registered, `select` is handed a socket. -/
theorem selectsSockets_addFd : Throughout step Config.init [.call (.addFd 5 1), .poll]
    (fun _ c => SelectsSockets c) := by
  obtain ⟨c, hc⟩ : ∃ c, runs [.call (.addFd 5 1), .poll] = some c :=
    Option.isSome_iff_exists.mp (by decide +kernel)
  refine (selectsSockets_iff hc).mpr fun fs e t hp ht he => ?_
  right
  refine ⟨.except, 5, (mem_at_iff_kept ht).mp ?_⟩
  obtain rfl : fs = [.call (.addFd 5 1)] := by
    rcases fs with _ | ⟨f, _ | ⟨g, gs⟩⟩
    · simp [he] at hp
    · simpa using (List.cons_prefix_cons.mp hp).1
    · simpa using hp.length_le
  obtain rfl := Option.some.inj ht
  decide +kernel

end SelectPoller

end WinsockTut
