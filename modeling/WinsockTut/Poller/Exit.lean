import WinsockTut.Poller.Base
import WinsockTut.Foundation.Runs

/-!
# The end of `Poll`

`Poll` is meant to run the timers once, and to take the retired entries out of `fds_` before it
returns.  The three pollers have different loops and different early returns, so what a return has
to do with its housekeeping is stated for any machine that polls, `Polls`.  Control passes through
the phases of `Poll` in the same way in all of them (`Polls.Move`), and the function `exit`
classifies the returns of a poller, from the state before the step and the event.

`Polls.Ends` is what has to be shown for each poller.  It gives `Polls.Ends.housekept_iff`: all
returns of a run complete their housekeeping exactly if none of them takes a way on which there is
something left to do.
-/

namespace WinsockTut

open Runs

/-- Where control is with respect to `Poll` and to the `UpdateTimer` call in it. -/
inductive Phase
  | outside
  | before
  | updating
  | behind
  deriving DecidableEq, Repr

/-- The ways in which `Poll` returns. -/
inductive Exit
  /-- In front of `UpdateTimer`. -/
  | beforeTimers
  /-- Behind `UpdateTimer`, but not through `RemoveRetired`. -/
  | afterTimers
  /-- Through `RemoveRetired`. -/
  | compacted
  deriving DecidableEq, Repr

/-- A machine with a function `Poll`, over entries of the type `α`. -/
structure Polls (σ ε α : Type*) where
  step : σ → ε → Option σ
  init : σ
  /-- `fds_`. -/
  fds : σ → List α
  /-- The socket of an entry. -/
  fd : α → Socket
  /-- `has_retired_`. -/
  hasRetired : σ → Bool
  timers : σ → TimerSched.Config
  phase : σ → Phase
  /-- The event is a call of `Poll`. -/
  polls : ε → Bool
  /-- The event is a call of `UpdateTimer`. -/
  updates : ε → Bool
  /-- The event is a call of `AddFd`. -/
  adds : ε → Bool
  /-- The number of entries at which `AddFd` refuses a socket. -/
  limit : ℕ
  /-- The way in which the step makes `Poll` return, if it does. -/
  exit : σ → ε → Option Exit

namespace Polls

variable {σ ε α : Type*} (m : Polls σ ε α) {c d : σ} {e : ε} {es : List ε}

/-- The entries of registered sockets, in order. -/
def live (c : σ) : List α := (m.fds c).filter fun x => m.fd x ≠ invalidSocket

/-- The number of `UpdateTimer` calls since the last call of `Poll`. -/
def passes (es : List ε) : ℕ :=
  es.foldl (fun n e => if m.polls e then 0 else if m.updates e then n + 1 else n) 0

/-- The timers have run once in this call of `Poll`, no entry is retired, and the live entries of
`c` are kept in order. -/
structure Complete (es : List ε) (c d : σ) : Prop where
  passes : m.passes es = 1
  timers : (m.timers d).ctl = .idle
  entries : ∀ x ∈ m.fds d, m.fd x ≠ invalidSocket
  hasRetired : m.hasRetired d = false
  live : m.fds d = m.live c

/-- If `Poll` returns in this step, its housekeeping is complete; if the step is a call of `AddFd`
between two calls of `Poll`, it is refused for capacity only if there are `limit` live sockets. -/
def Housekept (es : List ε) (c : σ) (e : ε) : Prop :=
  (∀ d, m.step c e = some d → m.phase c ≠ .outside → m.phase d = .outside →
    m.Complete (es ++ [e]) c d) ∧
  (m.phase c = .outside → m.adds e = true → m.limit ≤ (m.fds c).length →
    m.limit ≤ (m.live c).length)

/-- No entry is retired. -/
def NoneRetired (c : σ) : Prop := ∀ x ∈ m.fds c, m.fd x ≠ invalidSocket

/-- On the way of this return there is nothing to do that is left out. -/
def NothingLeft (c : σ) : Exit → Prop
  | .beforeTimers => False
  | .afterTimers => m.hasRetired c = false ∧ m.NoneRetired c
  | .compacted => m.hasRetired c = true ∨ m.NoneRetired c

/-- `Poll` does not return in front of `UpdateTimer`; it does not leave `RemoveRetired` out while
an entry is retired or `has_retired_` is set, nor come through it with a retired entry and
`has_retired_` not set; and `AddFd` does not find `fds_` full and an entry of it retired between two
calls of `Poll`. -/
def EndsWell (c : σ) (e : ε) : Prop :=
  (∀ x ∈ m.exit c e, m.NothingLeft c x) ∧
  (m.phase c = .outside → m.adds e = true → m.limit ≤ (m.fds c).length → m.NoneRetired c)

instance (c : σ) : Decidable (m.NoneRetired c) :=
  inferInstanceAs (Decidable (∀ x ∈ m.fds c, m.fd x ≠ invalidSocket))

instance (c : σ) : (x : Exit) → Decidable (m.NothingLeft c x)
  | .beforeTimers => isFalse id
  | .afterTimers => inferInstanceAs (Decidable (_ ∧ _))
  | .compacted => inferInstanceAs (Decidable (_ ∨ _))

instance (c : σ) (e : ε) : Decidable (m.EndsWell c e) := inferInstanceAs (Decidable (_ ∧ _))

/-! ### What has to be shown for a poller -/

/-- How control and the timers move. -/
inductive Move (c : σ) (e : ε) (d : σ) : Prop
  | entered (he : m.polls e = true) (hc : m.phase c = .outside) (hd : m.phase d = .before)
      (ht : m.timers d = m.timers c)
  | updating (he : m.polls e = false ∧ m.updates e = true) (hc : m.phase c = .before)
      (hd : m.phase d = .updating)
  | ticked (he : m.polls e = false ∧ m.updates e = false) (hc : m.phase c = .updating)
      (hd : m.phase d = .updating)
  | updated (he : m.polls e = false ∧ m.updates e = false) (hc : m.phase c = .updating)
      (hd : m.phase d = .behind ∨ m.phase d = .outside) (ht : (m.timers d).ctl = .idle)
  | other (he : m.polls e = false ∧ m.updates e = false) (hc : m.phase c ≠ .updating)
      (hd : m.phase d = m.phase c ∨ m.phase d = .outside)
      (ht : (m.timers d).ctl = (m.timers c).ctl)

/-- What a return does on each of the ways. -/
def Done (c d : σ) : Exit → Prop
  | .beforeTimers => m.phase c = .before
  | .afterTimers => (m.phase c = .updating ∨ m.phase c = .behind) ∧ m.fds d = m.fds c ∧
      m.hasRetired d = m.hasRetired c
  | .compacted => (m.phase c = .updating ∨ m.phase c = .behind) ∧
      m.fds d = (if m.hasRetired c then m.live c else m.fds c) ∧ m.hasRetired d = false

/-- The phases are right, the classification of the returns is right, and there are never more
than `limit` entries. -/
structure Ends : Prop where
  phase_init : m.phase m.init = .outside
  timers_init : (m.timers m.init).ctl = .idle
  move : ∀ c e d, m.step c e = some d → m.Move c e d
  stays : ∀ es c e d, run m.step m.init es = some c → m.step c e = some d → m.exit c e = none →
    m.phase c ≠ .outside → m.phase d ≠ .outside
  returns : ∀ es c e d x, run m.step m.init es = some c → m.step c e = some d →
    m.exit c e = some x →
      m.Done c d x ∧ m.polls e = false ∧ m.updates e = false ∧ m.phase d = .outside
  size : ∀ es c, run m.step m.init es = some c → (m.fds c).length ≤ m.limit

variable {m}

/-! ### The timers -/

/-- A step that leaves the phase and the timers alone. -/
theorem Move.of_same (he : m.polls e = false ∧ m.updates e = false) (hd : m.phase d = m.phase c)
    (ht : (m.timers d).ctl = (m.timers c).ctl) : m.Move c e d := by
  by_cases hc : m.phase c = .updating
  · exact .ticked he hc (hd.trans hc)
  · exact .other he hc (Or.inl hd) ht

/-- A step of the timers. -/
theorem Move.of_timerStep {stage : Stage} {x : TimerSched.Event}
    (ht : timerStep stage (m.timers c) x = some (m.timers d)) (hpoll : m.polls e = false)
    (hupdate : m.updates e = entersUpdate x)
    (henter : stage = .entering → entersUpdate x = true →
      m.phase c = .before ∧ m.phase d = .updating)
    (hupdating : stage = .updating → m.phase c = .updating)
    (hsame : entersUpdate x = false → m.phase d = m.phase c) : m.Move c e d := by
  rcases timerStep_ctl ht with ⟨hx, hstage⟩ | ⟨hx, hstage⟩
  · obtain ⟨hc, hd⟩ := henter hstage hx
    exact .updating ⟨hpoll, hupdate.trans hx⟩ hc hd
  · have he : m.polls e = false ∧ m.updates e = false := ⟨hpoll, hupdate.trans hx⟩
    rcases hstage with hstage | hstage
    · exact .ticked he (hupdating hstage) ((hsame hx).trans (hupdating hstage))
    · exact .of_same he (hsame hx) hstage

@[simp] theorem passes_append_singleton (es : List ε) (e : ε) : m.passes (es ++ [e]) =
    if m.polls e then 0 else if m.updates e then m.passes es + 1 else m.passes es := by
  simp [passes]

/-- The passes of the timers that a phase allows. -/
def PassesIn (n : ℕ) : Phase → Prop
  | .outside => True
  | .before => n = 0
  | .updating => n = 1
  | .behind => n = 1

/-- **The timers run once in each call of `Poll`**, unless it returns in front of them. -/
theorem Ends.passesIn (h : m.Ends) (hrun : run m.step m.init es = some c) :
    PassesIn (m.passes es) (m.phase c) ∧
      (m.phase c ≠ .updating → (m.timers c).ctl = .idle) := by
  refine run_induction (P := fun es c => PassesIn (m.passes es) (m.phase c) ∧
    (m.phase c ≠ .updating → (m.timers c).ctl = .idle)) ?_ ?_ hrun
  · rw [h.phase_init]
    exact ⟨trivial, fun _ => h.timers_init⟩
  · rintro fs e t u - - ⟨hpass, htimers⟩ hstep
    rw [passes_append_singleton]
    cases h.move t e u hstep with
    | entered he hc hd ht =>
      rw [he, hd, ht]
      exact ⟨rfl, fun _ => htimers (by simp [hc])⟩
    | updating he hc hd =>
      have hzero : m.passes fs = 0 := by simpa [hc, PassesIn] using hpass
      rw [he.1, he.2, hd, hzero]
      exact ⟨rfl, fun hne => absurd rfl hne⟩
    | ticked he hc hd =>
      rw [he.1, he.2, hd]
      exact ⟨by simpa [hc, PassesIn] using hpass, fun hne => absurd rfl hne⟩
    | updated he hc hd ht =>
      rw [he.1, he.2]
      refine ⟨?_, fun _ => ht⟩
      rcases hd with hd | hd
      · rw [hd]
        simpa [hc, PassesIn] using hpass
      · rw [hd]
        exact trivial
    | other he hc hd ht =>
      rw [he.1, he.2, ht]
      refine ⟨?_, fun _ => htimers hc⟩
      rcases hd with hd | hd
      · rw [hd]
        exact hpass
      · rw [hd]
        exact trivial

/-! ### The entries -/

/-- Without retired entries there are only live ones. -/
theorem NoneRetired.live_eq (h : m.NoneRetired c) : m.live c = m.fds c :=
  List.filter_eq_self.mpr fun x hx => decide_eq_true (h x hx)

/-- No retired entry is left among the live ones. -/
theorem ne_of_mem_live {x : α} (h : x ∈ m.live c) : m.fd x ≠ invalidSocket := by
  simpa using (List.mem_filter.mp h).2

/-- A full table holds `limit` live sockets exactly if no entry is retired. -/
theorem Ends.limit_le_live_iff (h : m.Ends) (hrun : run m.step m.init es = some c)
    (hfull : m.limit ≤ (m.fds c).length) :
    m.limit ≤ (m.live c).length ↔ m.NoneRetired c := by
  constructor
  · intro hlive
    have heq : m.live c = m.fds c :=
      List.filter_sublist.eq_of_length_le ((h.size es c hrun).trans hlive)
    exact fun x hx => ne_of_mem_live (heq.symm ▸ hx)
  · intro hnone
    rwa [hnone.live_eq]

/-! ### The returns -/

/-- **The housekeeping of a return is complete if and only if** nothing is left to do on its way. -/
theorem Ends.complete_iff (h : m.Ends) {x : Exit} (hrun : run m.step m.init es = some c)
    (hstep : m.step c e = some d) (hx : m.exit c e = some x) :
    m.Complete (es ++ [e]) c d ↔ m.NothingLeft c x := by
  obtain ⟨hdone, hpoll, hupdate, hd⟩ := h.returns es c e d x hrun hstep hx
  have hpass := (h.passesIn hrun).1
  have hsame : m.passes (es ++ [e]) = m.passes es := by simp [hpoll, hupdate]
  have hrun' : run m.step m.init (es ++ [e]) = some d := by
    rw [run_append_singleton, hrun, Option.bind_some, hstep]
  have htimers : (m.timers d).ctl = .idle := (h.passesIn hrun').2 (by simp [hd])
  have hone : m.phase c = .updating ∨ m.phase c = .behind → m.passes (es ++ [e]) = 1 := by
    rintro (hc | hc)
    · simpa [hsame, hc, PassesIn] using hpass
    · simpa [hsame, hc, PassesIn] using hpass
  cases x with
  | beforeTimers =>
    refine iff_of_false (fun hcomplete => ?_) id
    have hc : m.phase c = .before := hdone
    have hzero : m.passes es = 0 := by simpa [hc, PassesIn] using hpass
    have := hcomplete.passes
    omega
  | afterTimers =>
    obtain ⟨hphase, hfds, hret⟩ := hdone
    constructor
    · intro hcomplete
      exact ⟨hret.symm.trans hcomplete.hasRetired, fun y hy => hcomplete.entries y (hfds ▸ hy)⟩
    · rintro ⟨hfalse, hnone⟩
      exact ⟨hone hphase, htimers, fun y hy => hnone y (hfds ▸ hy), hret.trans hfalse,
        hfds.trans hnone.live_eq.symm⟩
  | compacted =>
    obtain ⟨hphase, hfds, hret⟩ := hdone
    cases hr : m.hasRetired c with
    | true =>
      rw [hr, if_pos rfl] at hfds
      exact iff_of_true ⟨hone hphase, htimers, fun y hy => ne_of_mem_live (hfds ▸ hy), hret, hfds⟩
        (Or.inl hr)
    | false =>
      rw [hr, if_neg Bool.false_ne_true] at hfds
      constructor
      · exact fun hcomplete => Or.inr fun y hy => hcomplete.entries y (hfds ▸ hy)
      · rintro (hr' | hnone)
        · simp [hr] at hr'
        · exact ⟨hone hphase, htimers, fun y hy => hnone y (hfds ▸ hy), hret,
            hfds.trans hnone.live_eq.symm⟩

/-- **Exactness of the housekeeping, for one step.** -/
theorem Ends.housekept_iff_endsWell (h : m.Ends) (hrun : run m.step m.init es = some c)
    (hstep : m.step c e = some d) : m.Housekept es c e ↔ m.EndsWell c e := by
  refine and_congr ?_ ?_
  · cases hx : m.exit c e with
    | none =>
      refine iff_of_true (fun d' hd' hc hout => ?_) (by simp)
      exact absurd hout (h.stays es c e d' hrun hd' hx hc)
    | some x =>
      obtain ⟨hdone, -, -, hd⟩ := h.returns es c e d x hrun hstep hx
      have hc : m.phase c ≠ .outside := by
        intro hout
        cases x with
        | beforeTimers => exact Phase.noConfusion (hout.symm.trans hdone)
        | afterTimers => exact hdone.1.elim (by simp [hout]) (by simp [hout])
        | compacted => exact hdone.1.elim (by simp [hout]) (by simp [hout])
      simp only [Option.mem_def, Option.some.injEq, forall_eq']
      rw [← h.complete_iff hrun hstep hx]
      constructor
      · exact fun hall => hall d hstep hc hd
      · intro hcomplete d' hd' _ _
        obtain rfl : d = d' := Option.some.inj (hstep.symm.trans hd')
        exact hcomplete
  · refine forall_congr' fun _ => forall_congr' fun _ => forall_congr' fun hfull => ?_
    exact h.limit_le_live_iff hrun hfull

/-- **Exactness of the housekeeping**: all steps of a run leave nothing undone if and only if none
of them takes a way on which there is something left to do. -/
theorem Ends.housekept_iff (h : m.Ends) (hrun : run m.step m.init es = some c) :
    EachStep m.step m.init es m.Housekept ↔ EachStep m.step m.init es fun _ => m.EndsWell :=
  eachStep_congr hrun fun _ _ _ _ hu hstep => h.housekept_iff_endsWell hu hstep

end Polls

end WinsockTut
