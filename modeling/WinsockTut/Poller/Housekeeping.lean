import WinsockTut.Select.Ends
import WinsockTut.AsyncSelect.Ends
import WinsockTut.AsyncEvent.Ends

/-!
# The housekeeping of the three pollers

`AsyncSelectPoller::Poll` always comes to `UpdateTimer` and `RemoveRetired`.  `SelectPoller::Poll`
comes to neither when `select` fails, and `AsyncEventPoller::Poll` not to the second one when an
event was signalled.  With a persistent error the timers starve; under steady traffic the retired
entries stay in the table, and `AddFd`, which compares the size of the table with the capacity,
refuses sockets that there is room for.  `housekeeping_iff` says exactly which runs are free of
this.
-/

namespace WinsockTut

open Runs

/-- **The housekeeping is complete in every step of a run if and only if**, in that run, nothing is
left to do on the ways on which `Poll` returns. -/
theorem housekeeping_iff {es : List SelectPoller.Event} {c : SelectPoller.Config}
    {es' : List AsyncSelectPoller.Event} {c' : AsyncSelectPoller.Config}
    {es'' : List AsyncEventPoller.Event} {c'' : AsyncEventPoller.Config}
    (h : SelectPoller.runs es = some c) (h' : AsyncSelectPoller.runs es' = some c')
    (h'' : AsyncEventPoller.runs es'' = some c'') :
    (EachStep SelectPoller.step SelectPoller.Config.init es SelectPoller.polls.Housekept ↔
      EachStep SelectPoller.step SelectPoller.Config.init es
        fun _ => SelectPoller.polls.EndsWell) ∧
    (EachStep AsyncSelectPoller.step AsyncSelectPoller.Config.init es'
        AsyncSelectPoller.polls.Housekept ↔
      EachStep AsyncSelectPoller.step AsyncSelectPoller.Config.init es'
        fun _ => AsyncSelectPoller.polls.EndsWell) ∧
    (EachStep AsyncEventPoller.step AsyncEventPoller.Config.init es''
        AsyncEventPoller.polls.Housekept ↔
      EachStep AsyncEventPoller.step AsyncEventPoller.Config.init es''
        fun _ => AsyncEventPoller.polls.EndsWell) :=
  ⟨SelectPoller.ends.housekept_iff h, AsyncSelectPoller.ends.housekept_iff h',
    AsyncEventPoller.ends.housekept_iff h''⟩

/-- A socket is removed between two calls of `Poll`, each of which runs to its end. -/
def removeAndPoll : List SelectPoller.Event :=
  [.call (.addFd 5 1), .call (.removeFd 5), .call (.addFd 6 1), .poll,
    .selectReturns ⟨[], [], [6]⟩, .callbackReturn, .timer (.updateTimer 0), .timer .round, .finish]

/-- The same with window messages. -/
def removeAndPollMessages : List AsyncSelectPoller.Event :=
  [.call (.addFd 5 1), .call (.removeFd 5), .poll, .peek, .timer (.updateTimer 0), .timer .round,
    .finish]

/-- A socket whose event is signalled while no socket is retired, and one that is removed before
the wait times out. -/
def removeAndPollEvents : List AsyncEventPoller.Event :=
  [.call (.addFd 5 1) (some 1), .call (.addFd 6 1) (some 2), .poll, .signaled 0,
    .timer (.updateTimer 0), .timer .round, .updated,
    .enumerated { lNetworkEvents := fdRead, iErrorCode := fun _ => 0 }, .callbackReturn,
    .call (.removeFd 5) none, .poll, .waitTimeout, .timer (.updateTimer 0), .timer .round, .updated]

theorem housekeeping_removed :
    EachStep SelectPoller.step SelectPoller.Config.init removeAndPoll
      SelectPoller.polls.Housekept ∧
    EachStep AsyncSelectPoller.step AsyncSelectPoller.Config.init removeAndPollMessages
      AsyncSelectPoller.polls.Housekept ∧
    EachStep AsyncEventPoller.step AsyncEventPoller.Config.init removeAndPollEvents
      AsyncEventPoller.polls.Housekept := by
  obtain ⟨c, hc⟩ : ∃ c, SelectPoller.runs removeAndPoll = some c :=
    Option.isSome_iff_exists.mp (by decide +kernel)
  obtain ⟨c', hc'⟩ : ∃ c, AsyncSelectPoller.runs removeAndPollMessages = some c :=
    Option.isSome_iff_exists.mp (by decide +kernel)
  obtain ⟨c'', hc''⟩ : ∃ c, AsyncEventPoller.runs removeAndPollEvents = some c :=
    Option.isSome_iff_exists.mp (by decide +kernel)
  obtain ⟨hselect, hasync, hevent⟩ := housekeeping_iff hc hc' hc''
  exact ⟨hselect.mpr (eachStep_iff_checkSteps.mpr (by decide +kernel)),
    hasync.mpr (eachStep_iff_checkSteps.mpr (by decide +kernel)),
    hevent.mpr (eachStep_iff_checkSteps.mpr (by decide +kernel))⟩

/-- A socket is registered, and `select` fails. -/
def pollThatFails : List SelectPoller.Event :=
  [.call (.addFd 5 1), .poll, .selectFails]

/-- One of two sockets is removed between two calls of `Poll`, and the other one is signalled. -/
def pollUnderTraffic : List AsyncEventPoller.Event :=
  [.call (.addFd 5 1) (some 1), .call (.addFd 6 1) (some 2), .call (.removeFd 6) none, .poll,
    .signaled 0, .timer (.updateTimer 0), .timer .round, .updated,
    .enumerated { lNetworkEvents := fdRead, iErrorCode := fun _ => 0 }, .callbackReturn]

/-- The first return runs no timers, and the second leaves the retired entry in the table. -/
theorem housekeeping_skipped :
    (∃ c, SelectPoller.runs pollThatFails = some c ∧ c.ctl = .idle ∧
      SelectPoller.polls.passes pollThatFails = 0) ∧
    (∃ c, AsyncEventPoller.runs pollUnderTraffic = some c ∧ c.ctl.phase = .outside ∧
      c.poller.hasRetired = true ∧ (c.poller.fds.map fun x => x.fd) = [5, invalidSocket]) ∧
    ¬ EachStep SelectPoller.step SelectPoller.Config.init pollThatFails
      SelectPoller.polls.Housekept ∧
    ¬ EachStep AsyncEventPoller.step AsyncEventPoller.Config.init pollUnderTraffic
      AsyncEventPoller.polls.Housekept := by
  have hfails : ∃ c, SelectPoller.runs pollThatFails = some c ∧ c.ctl = .idle ∧
      SelectPoller.polls.passes pollThatFails = 0 := by
    have hfacts : (SelectPoller.runs pollThatFails).map
        (fun c => (c.ctl, SelectPoller.polls.passes pollThatFails)) = some (.idle, 0) := by
      decide +kernel
    obtain ⟨c, hc, hpair⟩ := Option.map_eq_some_iff.mp hfacts
    exact ⟨c, hc, Prod.mk.inj hpair⟩
  have htraffic : ∃ c, AsyncEventPoller.runs pollUnderTraffic = some c ∧ c.ctl.phase = .outside ∧
      c.poller.hasRetired = true ∧ (c.poller.fds.map fun x => x.fd) = [5, invalidSocket] := by
    have hfacts : (AsyncEventPoller.runs pollUnderTraffic).map (fun c => (c.ctl.phase,
        c.poller.hasRetired, c.poller.fds.map fun x => x.fd)) =
        some (.outside, true, [5, invalidSocket]) := by decide +kernel
    obtain ⟨c, hc, htriple⟩ := Option.map_eq_some_iff.mp hfacts
    simp only [Prod.mk.injEq] at htriple
    exact ⟨c, hc, htriple⟩
  refine ⟨hfails, htraffic, fun hall => ?_, fun hall => ?_⟩
  · obtain ⟨c, hc, -⟩ := hfails
    have hcheck := eachStep_iff_checkSteps.mp ((SelectPoller.ends.housekept_iff hc).mp hall)
    exact absurd hcheck (by decide +kernel)
  · obtain ⟨c, hc, -⟩ := htraffic
    have hcheck := eachStep_iff_checkSteps.mp ((AsyncEventPoller.ends.housekept_iff hc).mp hall)
    exact absurd hcheck (by decide +kernel)

end WinsockTut
