import WinsockTut.AsyncEvent.Machine

/-!
# Removing a socket while its record is handled

`HandleEvents` goes through the events of a record without looking at the socket of the entry
again.  If the callback for one event removes the socket, the callbacks for the remaining events of
the record are made all the same, through a sink that the removal has usually destroyed.
`noCallAfterRemoval_iff` says exactly when this does not happen.
-/

namespace WinsockTut

namespace AsyncEventPoller

open Runs

variable {c c' : Config} {e : Event} {es : List Event}

/-- No callback was made for a record after a callback for it had removed the socket. -/
def NoCallAfterRemoval (c : Config) : Prop :=
  ∀ x n removed, .called x n removed ∈ c.log → removed = false

/-- If the step is the return of a callback and the socket of the record has been removed, then
none of the events that are left to be tested is in the record. -/
def NoEventLeft (c : Config) (e : Event) : Prop :=
  e = .callbackReturn → ∀ h rest, c.ctl = .callback h rest → h.removed = true →
    ∀ n ∈ rest, hasBits h.record.lNetworkEvents n.bit = false

/-- **No callback is made for a record after a callback for it has removed the socket, if and only
if** every callback that returns after such a removal has reported the last event of its record. -/
theorem noCallAfterRemoval_iff (hrun : runs es = some c) :
    Throughout step Config.init es (fun _ c => NoCallAfterRemoval c) ↔
      EachStep step Config.init es (fun _ c e => NoEventLeft c e) := by
  refine (throughout_called_iff (fun _ _ removed => removed = false) hrun).trans
    (eachStep_congr hrun fun fs e t u ht _ => ⟨fun hcalls => ?_, fun hleft => ?_⟩)
  · rintro rfl h rest hctl hremoved n hn
    have hcont : Continues t .callbackReturn h rest := Or.inr ⟨rfl, hctl⟩
    obtain ⟨x, hx⟩ := hcont.exists_entry (entryThere_of_runs ht)
    cases hnext : nextEvent h.record rest with
    | none => exact nextEvent_eq_none.mp hnext n hn
    | some next =>
      have hfalse := hcalls x next.1 h.removed ⟨h, rest, next.2, hcont, hx, hnext, rfl⟩
      simp [hremoved] at hfalse
  · rintro x n removed ⟨h, ns, rest, hcont, -, hn, rfl⟩
    rcases hcont with ⟨-, -, hremoved, -⟩ | ⟨he, hctl⟩
    · exact hremoved
    · by_contra hremoved
      have hnone := hleft he h ns hctl ((Bool.not_eq_false _).mp hremoved)
      rw [← nextEvent_eq_none, hn] at hnone
      simp at hnone

/-- A socket is signalled with the events `l`, and the callback for the first one removes it. -/
def removeInFirstCallback (l : BitVec 32) : List Event :=
  [.call (.addFd 5 1) (some 1), .call (.setPollIn 5) none, .poll, .signaled 0,
    .timer (.updateTimer 0), .timer .round, .updated,
    .enumerated { lNetworkEvents := l, iErrorCode := fun _ => 0 }, .call (.removeFd 5) none]

/-- Data and the close of the connection in one record: the second callback comes too late. -/
theorem removeInFirstCallback_close :
    ∃ c, runs (removeInFirstCallback (fdRead ||| fdClose) ++ [.callbackReturn]) = some c ∧
      .called { fd := invalidSocket, lEvents := fdRead ||| fdAccept ||| fdClose
                mask := maskReadable, sink := some 1, hEvent := wsaInvalidEvent }
        .close true ∈ c.log ∧ ¬ NoCallAfterRemoval c := by
  have hfacts : (runs (removeInFirstCallback (fdRead ||| fdClose) ++ [.callbackReturn])).map
      (fun c => decide (.called { fd := invalidSocket, lEvents := fdRead ||| fdAccept ||| fdClose
                                  mask := maskReadable, sink := some 1
                                  hEvent := wsaInvalidEvent } .close true ∈ c.log)) =
      some true := by decide +kernel
  obtain ⟨c, hc, hmem⟩ := Option.map_eq_some_iff.mp hfacts
  have hmem := of_decide_eq_true hmem
  exact ⟨c, hc, hmem, fun hall => absurd (hall _ _ _ hmem) (by decide)⟩

/-- The events of the record that are still to be tested for when a callback returns. -/
def Control.eventsLeft : Control → List NetworkEvent
  | .callback h rest => rest.filter fun n => hasBits h.record.lNetworkEvents n.bit
  | _ => []

/-- With the data only, the same callback may remove the socket. -/
theorem noCallAfterRemoval_read :
    Throughout step Config.init (removeInFirstCallback fdRead ++ [.callbackReturn])
      (fun _ c => NoCallAfterRemoval c) := by
  obtain ⟨c, hc⟩ : ∃ c, runs (removeInFirstCallback fdRead ++ [.callbackReturn]) = some c :=
    Option.isSome_iff_exists.mp (by decide +kernel)
  refine (noCallAfterRemoval_iff hc).mpr
    (eachStep_append_singleton.mpr ⟨eachStep_of_forall ?_, ?_⟩)
  · rintro e he - t rfl
    simp [removeInFirstCallback] at he
  · rintro t ht - h rest hctl - n hn
    have hleft : (runs (removeInFirstCallback fdRead)).map (fun c => c.ctl.eventsLeft) =
        some [] := by decide +kernel
    rw [show runs _ = some t from ht, Option.map_some, hctl] at hleft
    simpa using List.filter_eq_nil_iff.mp (Option.some.inj hleft) n hn

end AsyncEventPoller

end WinsockTut
