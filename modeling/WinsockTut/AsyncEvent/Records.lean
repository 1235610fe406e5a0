import WinsockTut.AsyncEvent.Machine

/-!
# The events that `HandleEvents` reports

The conditions on the mask of the entry are always true, so `HandleEvents` makes one callback for
each event of a record, in the order of its tests, whatever the callbacks do and whatever the
interests of the socket are.  `reported_of_runs` says this of all records of a run.
-/

namespace WinsockTut

namespace AsyncEventPoller

open Runs

variable {c c' : Config} {e : Event} {es : List Event} {h : Handling} {ns : List NetworkEvent}

/-- The events of a record, in the order of the tests. -/
def NetworkEvents.among (record : NetworkEvents) (ns : List NetworkEvent) : List NetworkEvent :=
  ns.filter fun n => hasBits record.lNetworkEvents n.bit

/-- The record that was received last, and the events reported since. -/
structure Report where
  record : NetworkEvents
  made : List NetworkEvent

/-- The events that were reported. -/
def reports (log : List Obs) : List NetworkEvent :=
  log.filterMap fun o => match o with
    | .called _ n _ => some n
    | _ => none

/-- The account of the current record. -/
def report (c : Config) (e : Event) (t : Config) (g : Report) : Report :=
  match e with
  | .enumerated record => ⟨record, reports (t.log.drop c.log.length)⟩
  | .callbackReturn => { g with made := g.made ++ reports (t.log.drop c.log.length) }
  | _ => g

/-- What the account says. -/
structure Reported (c : Config) (g : Report) : Prop where
  running : ∀ h rest, c.ctl = .callback h rest → h.record = g.record ∧
    g.made ++ NetworkEvents.among g.record rest = NetworkEvents.among g.record sites
  ended : (∀ h rest, c.ctl ≠ .callback h rest) → g.made = NetworkEvents.among g.record sites

/-- An empty record. -/
def noEvents : NetworkEvents := ⟨0, fun _ => 0⟩

theorem reported_init : Reported Config.init ⟨noEvents, []⟩ where
  running h rest hctl := by
    cases hctl
  ended _ := by
    decide

/-- The next event is the first one of those that are left. -/
theorem among_of_nextEvent {record : NetworkEvents} {n : NetworkEvent} {rest : List NetworkEvent}
    (hnext : nextEvent record ns = some (n, rest)) :
    NetworkEvents.among record ns = n :: NetworkEvents.among record rest := by
  induction ns with
  | nil => cases hnext
  | cons m ns ih =>
    rw [nextEvent] at hnext
    split at hnext
    · rename_i hm
      obtain ⟨rfl, rfl⟩ := Prod.mk.inj (Option.some.inj hnext)
      exact List.filter_cons_of_pos hm
    · rename_i hm
      have hskip : NetworkEvents.among record (m :: ns) = NetworkEvents.among record ns :=
        List.filter_cons_of_neg hm
      rw [hskip, ih hnext]

theorem among_of_none {record : NetworkEvents} (hnext : nextEvent record ns = none) :
    NetworkEvents.among record ns = [] := by
  refine List.filter_eq_nil_iff.mpr fun n hn => ?_
  rw [nextEvent_eq_none.mp hnext n hn]
  exact Bool.false_ne_true

/-- `HandleEvents` goes on with the tests that are left. -/
theorem reported_of_handle (made : List NetworkEvent) {x : FdEntry}
    (hx : c.poller.fds[h.k]? = some x) (hnext : handle c h ns = some c')
    (hleft : made ++ NetworkEvents.among h.record ns = NetworkEvents.among h.record sites) :
    Reported c' ⟨h.record, made ++ reports (c'.log.drop c.log.length)⟩ := by
  obtain ⟨err, ⟨hnone, rfl⟩ | ⟨n, rest, hsome, rfl⟩⟩ := handle_cases hx hnext
  · refine ⟨fun h' rest hctl => Control.noConfusion hctl, fun _ => ?_⟩
    rw [among_of_none hnone] at hleft
    simpa [Config.leave, reports] using hleft
  · refine ⟨fun h' rest' hctl => ?_, fun hno => absurd rfl (hno h rest)⟩
    obtain ⟨rfl, rfl⟩ := Control.callback.inj hctl
    rw [among_of_nextEvent hsome] at hleft
    refine ⟨rfl, ?_⟩
    simpa [reports] using hleft

/-- A step of another kind, which neither enters nor leaves a callback. -/
theorem Reported.of_other {g : Report} (hg : Reported c g)
    (hctl : (∃ h rest h', c.ctl = .callback h rest ∧ c'.ctl = .callback h' rest ∧
      h'.record = h.record) ∨
        (∀ h rest, c.ctl ≠ .callback h rest) ∧ ∀ h rest, c'.ctl ≠ .callback h rest) :
    Reported c' g := by
  rcases hctl with ⟨h, rest, h', hc, hc', hrecord⟩ | ⟨hc, hc'⟩
  · refine ⟨fun h'' rest' hctl => ?_, fun hno => absurd hc' (hno h' rest)⟩
    obtain ⟨rfl, rfl⟩ := Control.callback.inj (hc'.symm.trans hctl)
    obtain ⟨hsame, hleft⟩ := hg.running h rest hc
    exact ⟨hrecord.trans hsame, hleft⟩
  · exact ⟨fun h rest hctl => absurd hctl (hc' h rest), fun _ => hg.ended hc⟩

/-- **Preservation.** -/
theorem Reported.step {g : Report} (hg : Reported c g) (hthere : EntryThere c)
    (hstep : AsyncEventPoller.step c e = some c') : Reported c' (report c e c' g) := by
  cases effect_of_step hstep with
  | @called k hEvent hcall hfresh =>
    refine hg.of_other ?_
    change (∃ h rest h', c.ctl = .callback h rest ∧ c.ctl.afterCall k = .callback h' rest ∧ _) ∨
      _ ∧ ∀ h rest, c.ctl.afterCall k ≠ .callback h rest
    cases hctl : c.ctl with
    | callback h rest => exact Or.inl ⟨h, rest, _, rfl, rfl, rfl⟩
    | _ => exact Or.inr ⟨fun _ _ hc => Control.noConfusion hc, fun _ _ hc => Control.noConfusion hc⟩
  | @ticked e timers =>
    refine hg.of_other ?_
    change (∃ h rest h', c.ctl = .callback h rest ∧ c.ctl.afterTimer e = .callback h' rest ∧ _) ∨
      _ ∧ ∀ h rest, c.ctl.afterTimer e ≠ .callback h rest
    cases hctl : c.ctl with
    | callback h rest => exact Or.inl ⟨h, rest, _, rfl, rfl, rfl⟩
    | update n =>
      refine Or.inr ⟨fun _ _ hc => Control.noConfusion hc, fun _ _ hc => ?_⟩
      cases he : entersUpdate e <;> simp [Control.afterTimer, he] at hc
    | _ => exact Or.inr ⟨fun _ _ hc => Control.noConfusion hc, fun _ _ hc => Control.noConfusion hc⟩
  | polled hctl =>
    refine hg.of_other (Or.inr ⟨fun h rest hc => ?_, fun h rest hc => ?_⟩)
    · cases hctl.symm.trans hc
    · by_cases hne : c.poller.collectEvents.events ≠ []
      · simp [hne] at hc
      · simp [hne] at hc
  | @waited e nready hctl hcall =>
    have hsame : Reported { c with ctl := .update nready } g :=
      hg.of_other (Or.inr ⟨fun _ _ hc => Control.noConfusion (hctl.symm.trans hc),
        fun _ _ hc => Control.noConfusion hc⟩)
    cases e with
    | enumerated record => simp [AsyncEventPoller.step, hctl] at hstep
    | callbackReturn => simp [AsyncEventPoller.step, hctl] at hstep
    | _ => exact hsame
  | updated hctl hnext =>
    refine hg.of_other (Or.inr ⟨fun h rest hc => ?_, (afterUpdate_ctl hnext).2⟩)
    cases hctl.symm.trans hc
  | failed hctl =>
    refine hg.of_other (Or.inr ⟨fun h rest hc => ?_, fun _ _ hc => Control.noConfusion hc⟩)
    cases hctl.symm.trans hc
  | @enumerated k record x _ hctl hx hnext =>
    exact reported_of_handle (h := ⟨k, x.fd, record, false⟩) [] hx hnext rfl
  | @resumed h rest _ hctl hnext =>
    obtain ⟨x, hx⟩ : ∃ x, c.poller.fds[h.k]? = some x :=
      ⟨_, List.getElem?_eq_getElem (hthere h rest hctl)⟩
    obtain ⟨hrecord, hleft⟩ := hg.running h rest hctl
    rw [← hrecord] at hleft
    have hnew := reported_of_handle g.made hx hnext hleft
    rw [hrecord] at hnew
    exact hnew

/-- **What `HandleEvents` reports.**  In every run, the events of the current record that were
reported, followed by those that are left, are the events of the record in the order of the tests;
and when no callback is running, all of them have been reported, each once. -/
theorem reported_of_runs (hrun : runs es = some c) :
    ∃ g, history step report Config.init ⟨noEvents, []⟩ es = some g ∧
      (∀ h rest, c.ctl = .callback h rest → h.record = g.record ∧
        g.made ++ NetworkEvents.among g.record rest = NetworkEvents.among g.record sites) ∧
      ((∀ h rest, c.ctl ≠ .callback h rest) →
        g.made = NetworkEvents.among g.record sites) := by
  obtain ⟨g, hg, -, h⟩ := exists_history (P := fun c g => EntryThere c ∧ Reported c g) report
    ⟨entryThere_init, reported_init⟩
    (fun t g e u h hstep => ⟨h.1.step hstep, h.2.step h.1 hstep⟩) hrun
  exact ⟨g, hg, h.running, h.ended⟩

/-- A socket is only polled for reading, and is removed in the callback for data; the close of the
connection and the room for writing are reported all the same. -/
def removedWhileReported : List Event :=
  [.call (.addFd 5 1) (some 1), .call (.setPollIn 5) none, .poll, .signaled 0,
    .timer (.updateTimer 0), .timer .round, .updated,
    .enumerated ⟨fdRead ||| fdClose ||| fdWrite, fun _ => 0⟩, .call (.removeFd 5) none,
    .callbackReturn, .callbackReturn, .callbackReturn]

/-- Control is with the caller. -/
def Control.atRest : Control → Bool
  | .idle => true
  | _ => false

theorem reported_removedWhileReported : ∃ c g, runs removedWhileReported = some c ∧
    history step report Config.init ⟨noEvents, []⟩ removedWhileReported = some g ∧
    g.made = NetworkEvents.among g.record sites ∧ g.made = [.read, .close, .write] := by
  have hrest : (runs removedWhileReported).map (fun c => c.ctl.atRest) = some true := by
    decide +kernel
  have hmade : (history step report Config.init ⟨noEvents, []⟩ removedWhileReported).map
      Report.made = some [.read, .close, .write] := by decide +kernel
  obtain ⟨c, hc, hctl⟩ := Option.map_eq_some_iff.mp hrest
  obtain ⟨g, hg, -, hended⟩ := reported_of_runs hc
  rw [hg, Option.map_some] at hmade
  refine ⟨c, g, hc, hg, hended fun h rest hcb => ?_, Option.some.inj hmade⟩
  rw [hcb] at hctl
  cases hctl

end AsyncEventPoller

end WinsockTut
