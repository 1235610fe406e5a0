import WinsockTut.AsyncSelect.Readiness
import WinsockTut.Select.Readiness

/-!
# Readiness and the registrations it was recorded for

`SelectPoller` keeps what is ready as a set of socket values, `AsyncSelectPoller` as a queue of
messages with socket values.  Neither of them knows under which registration it was recorded, so
that a callback goes to the right registration as long as the values that are ready are not used
again (`readiness_own`), and to a later one if they are (`readiness_reused`).
-/

namespace WinsockTut

open Runs

namespace Served

variable {a t : ℕ}

@[simp] theorem own_some : Own ⟨some a, some t⟩ ↔ a < t := by
  simp [Own]

end Served

/-- **Readiness is delivered to the registrations it was recorded for**, in the runs of
`SelectPoller` in which no callback registers a socket value that is in a ready set, and in the runs
of `AsyncSelectPoller` in which no socket value is registered while a message for it is queued. -/
theorem readiness_own {es : List SelectPoller.Event} {fs : List AsyncSelectPoller.Event}
    (hes : EachStep SelectPoller.step SelectPoller.Config.init es fun _ => SelectPoller.NoReuse)
    (hfs : EachStep AsyncSelectPoller.step AsyncSelectPoller.Config.init fs fun _ =>
      AsyncSelectPoller.NoReuse) :
    Throughout SelectPoller.step SelectPoller.Config.init es
        (fun es _ => SelectPoller.OwnReadiness es) ∧
      Throughout AsyncSelectPoller.step AsyncSelectPoller.Config.init fs
        (fun fs _ => AsyncSelectPoller.OwnReadiness fs) :=
  ⟨SelectPoller.ownReadiness_of_runs hes, AsyncSelectPoller.ownReadiness_of_runs hfs⟩

/-- The callbacks replace the socket 5 by the socket 6. -/
theorem readiness_own_replace :
    (SelectPoller.runs (SelectPoller.replaceReady 6)).isSome = true ∧
    (AsyncSelectPoller.runs (AsyncSelectPoller.replacePosted 6)).isSome = true ∧
    Throughout SelectPoller.step SelectPoller.Config.init (SelectPoller.replaceReady 6)
        (fun es _ => SelectPoller.OwnReadiness es) ∧
      Throughout AsyncSelectPoller.step AsyncSelectPoller.Config.init
        (AsyncSelectPoller.replacePosted 6) (fun fs _ => AsyncSelectPoller.OwnReadiness fs) :=
  ⟨by decide +kernel, by decide +kernel,
    readiness_own (eachStep_iff_checkSteps.mpr (by decide +kernel))
      (eachStep_iff_checkSteps.mpr (by decide +kernel))⟩

/-- **With a socket of the same value, both pollers call a registration that was made after the
readiness had been recorded.** -/
theorem readiness_reused :
    ¬ Throughout SelectPoller.step SelectPoller.Config.init (SelectPoller.replaceReady 5)
        (fun es _ => SelectPoller.OwnReadiness es) ∧
      ¬ Throughout AsyncSelectPoller.step AsyncSelectPoller.Config.init
        (AsyncSelectPoller.replacePosted 5) (fun fs _ => AsyncSelectPoller.OwnReadiness fs) := by
  constructor
  · intro hall
    obtain ⟨hrun, hserved⟩ := SelectPoller.replaceReady_same
    obtain ⟨c, hc, -⟩ := Option.map_eq_some_iff.mp hrun
    obtain ⟨h, hh, hown⟩ := hall _ c List.prefix_rfl hc
    rw [hh, Option.map_some, Option.some.injEq] at hserved
    simp [hserved] at hown
  · intro hall
    obtain ⟨hrun, hserved⟩ := AsyncSelectPoller.replacePosted_same
    obtain ⟨c, hc, -⟩ := Option.map_eq_some_iff.mp hrun
    obtain ⟨h, hh, hown⟩ := hall _ c List.prefix_rfl hc
    rw [hh, Option.map_some, Option.some.injEq] at hserved
    simp [hserved] at hown

end WinsockTut
