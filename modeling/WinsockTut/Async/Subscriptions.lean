import WinsockTut.AsyncSelect.Machine
import WinsockTut.AsyncEvent.Machine

/-!
# The events the sockets are subscribed to

In both asynchronous pollers `ResetPollIn` and `ResetPollOut` drop `FD_CLOSE` together with the
events of their own interest, although the other interest may be on.  These are the only calls that
break the subscriptions (`async_subscriptions_iff`).
-/

namespace WinsockTut

open Runs

/-- **In both asynchronous pollers, every live socket is subscribed to what its interests require,
in every state of a run, if and only if** the run has no `ResetPollIn` of a registered socket whose
write interest is on, and no `ResetPollOut` of one whose read interest is on. -/
theorem async_subscriptions_iff {es : List AsyncSelectPoller.Event} {c : AsyncSelectPoller.Config}
    {fs : List AsyncEventPoller.Event} {d : AsyncEventPoller.Config}
    (hselect : AsyncSelectPoller.runs es = some c) (hevent : AsyncEventPoller.runs fs = some d) :
    (Throughout AsyncSelectPoller.step AsyncSelectPoller.Config.init es
        (fun _ c => SubscribedAsRequired true c.poller.fds c.ops) ↔
      EachStep AsyncSelectPoller.step AsyncSelectPoller.Config.init es
        (fun _ c e => ∀ k, e.call? = some k → ¬ DropsClose true c.ops k)) ∧
    (Throughout AsyncEventPoller.step AsyncEventPoller.Config.init fs
        (fun _ c => SubscribedAsRequired false c.entries c.ops) ↔
      EachStep AsyncEventPoller.step AsyncEventPoller.Config.init fs
        (fun _ c e => ∀ k, e.call? = some k → ¬ DropsClose false c.ops k)) :=
  ⟨AsyncSelectPoller.tracks.subscribed_iff AsyncSelectPoller.view_retire
      AsyncSelectPoller.not_live_retire hselect,
    AsyncEventPoller.tracks.subscribed_iff AsyncEventPoller.view_retireEntry
      AsyncEventPoller.not_live_retireEntry hevent⟩

/-- What an echo client does with its socket: it reads and writes, and then only reads. -/
def readAndWrite : List Call := [.setPollIn 5, .setPollOut 5, .resetPollOut 5]

/-- Afterwards the socket is not subscribed to `FD_CLOSE` in either poller. -/
theorem readAndWrite_drops_close :
    (∃ c, AsyncSelectPoller.runs (.call (.addFd 5 1) :: readAndWrite.map .call) = some c ∧
      registrations true c.ops = [{ fd := 5, reads := true, writes := false }] ∧
      c.poller.fds.map AsyncEntry.lEvents = [fdRead ||| fdAccept] ∧
      ¬ SubscribedAsRequired true c.poller.fds c.ops) ∧
    (∃ c, AsyncEventPoller.runs
        (.call (.addFd 5 1) (some 1) :: readAndWrite.map (.call · none)) = some c ∧
      registrations false c.ops = [{ fd := 5, reads := true, writes := false }] ∧
      c.entries.map AsyncEntry.lEvents = [fdRead ||| fdAccept] ∧
      ¬ SubscribedAsRequired false c.entries c.ops) := by
  have hbad : ∀ (forget : Bool) (xs : List AsyncEntry) (ops : List Op),
      registrations forget ops = [{ fd := 5, reads := true, writes := false }] →
      xs = [{ fd := 5, lEvents := fdRead ||| fdAccept, mask := maskReadable, sink := some 1 }] →
      ¬ SubscribedAsRequired forget xs ops := by
    rintro forget xs ops hregs rfl hall
    obtain ⟨r, hr, -, hreq⟩ := hall 0 _ rfl (by unfold AsyncEntry.Live; decide +kernel)
    rw [hregs] at hr
    obtain rfl := Option.some.inj hr
    exact absurd (hreq .close) (by decide)
  constructor
  · have hfacts : (AsyncSelectPoller.runs (.call (.addFd 5 1) :: readAndWrite.map .call)).map
        (fun c => (registrations true c.ops, c.poller.fds)) =
        some ([{ fd := 5, reads := true, writes := false }],
          [{ fd := 5, lEvents := fdRead ||| fdAccept, mask := maskReadable, sink := some 1 }]) := by
      decide +kernel
    obtain ⟨c, hc, hpair⟩ := Option.map_eq_some_iff.mp hfacts
    obtain ⟨hregs, hfds⟩ := Prod.mk.inj hpair
    exact ⟨c, hc, hregs, by rw [hfds]; rfl, hbad true _ _ hregs hfds⟩
  · have hfacts : (AsyncEventPoller.runs
        (.call (.addFd 5 1) (some 1) :: readAndWrite.map (.call · none))).map
        (fun c => (registrations false c.ops, c.entries)) =
        some ([{ fd := 5, reads := true, writes := false }],
          [{ fd := 5, lEvents := fdRead ||| fdAccept, mask := maskReadable, sink := some 1 }]) := by
      decide +kernel
    obtain ⟨c, hc, hpair⟩ := Option.map_eq_some_iff.mp hfacts
    obtain ⟨hregs, hfds⟩ := Prod.mk.inj hpair
    exact ⟨c, hc, hregs, by rw [hfds]; rfl, hbad false _ _ hregs hfds⟩

/-- A socket is read, then written, and then read again, with one interest on at a time. -/
def inTurns : List Call :=
  [.setPollIn 5, .resetPollIn 5, .setPollOut 5, .resetPollOut 5, .setPollIn 5]

instance {ε : Type*} (call? : ε → Option Call) (e : ε) (Q : Call → Prop) [DecidablePred Q] :
    Decidable (∀ k, call? e = some k → Q k) :=
  inferInstanceAs (Decidable (∀ k ∈ call? e, Q k))

/-- Such a socket keeps all its events. -/
theorem subscribedAsRequired_inTurns :
    Throughout AsyncSelectPoller.step AsyncSelectPoller.Config.init
        (.call (.addFd 5 1) :: inTurns.map .call)
        (fun _ c => SubscribedAsRequired true c.poller.fds c.ops) ∧
      Throughout AsyncEventPoller.step AsyncEventPoller.Config.init
        (.call (.addFd 5 1) (some 1) :: inTurns.map (.call · none))
        (fun _ c => SubscribedAsRequired false c.entries c.ops) := by
  obtain ⟨c, hc⟩ : ∃ c, AsyncSelectPoller.runs
      (.call (.addFd 5 1) :: inTurns.map .call) = some c :=
    Option.isSome_iff_exists.mp (by decide +kernel)
  obtain ⟨d, hd⟩ : ∃ d, AsyncEventPoller.runs
      (.call (.addFd 5 1) (some 1) :: inTurns.map (.call · none)) = some d :=
    Option.isSome_iff_exists.mp (by decide +kernel)
  have hiff := async_subscriptions_iff hc hd
  exact ⟨hiff.1.mpr (eachStep_iff_checkSteps.mpr (by decide +kernel)),
    hiff.2.mpr (eachStep_iff_checkSteps.mpr (by decide +kernel))⟩

end WinsockTut
