import WinsockTut.AsyncSelect.Machine
import WinsockTut.AsyncEvent.Machine

/-!
# Interests and callbacks

Both asynchronous pollers test the mask of an entry with `|` in place of `&` before they make a
callback, so the test always succeeds.  The interests therefore gate the callbacks only in runs in
which every event that is handled is wanted at that moment, according to the calls made so far
(`callbacks_wanted_iff`).  Events that were recorded before an interest was reset are handled after
it, so this is not the general case.
-/

namespace WinsockTut

open Runs

/-! ### Messages -/

namespace AsyncSelectPoller

variable {c c' : Config} {e : Event} {es : List Event}

/-- Every callback so far was made while the entry wanted it. -/
def CallbacksWanted (c : Config) : Prop := ∀ x d, .called x d ∈ c.log → x.wants d = true

/-- The step handles a message for `fd` that reports an event of the direction `d`. -/
def Handles (c : Config) (e : Event) (fd : Socket) (d : Direction) : Prop :=
  e = .peek ∧ ∃ count ev ec queue, c.ctl = .polling count ∧
    c.queue = .socket fd ev ec :: queue ∧ eventDirection ev = some d

/-- If the step handles a message for a registered socket, the interest in it is on. -/
def HandlesWanted (c : Config) (e : Event) : Prop :=
  ∀ fd d, Handles c e fd d → ∀ r, registered true c.ops fd = some r → r.wants d = true

/-- The conditions `entry->mask | MASK_READABLE` and `entry->mask | MASK_WRITABLE` are always
true. -/
theorem gate_always (x : AsyncEntry) (d : Direction) : gate x d = true := by
  refine decide_eq_true fun h => ?_
  obtain ⟨i, hi⟩ := d.exists_isBit
  have hbit := congrArg (hasBits · d.bit) h
  simp only [hasBits_or hi, hasBits_zero, Bool.or_eq_false_iff] at hbit
  cases d <;> exact absurd hbit.2 (by decide)

/-- So `HandleEvent` makes a callback whenever it finds an entry for an event it knows. -/
theorem handleEvent_snd (p : AsyncSelectPoller) (fd : Socket) (ev : BitVec 32) (ec : ℤ) :
    (p.handleEvent fd ev ec).2 = (p.fds.find? fun x => x.fd = fd).bind fun x =>
      (eventDirection ev).map fun d => (x, d) := by
  rw [List.find?_eq_bind_findIdx?_getElem?]
  simp only [handleEvent, findEntry, Option.bind_eq_bind, gate_always, if_true]
  cases p.fds.findIdx? fun x => x.fd = fd with
  | none => rfl
  | some i =>
    simp only [Option.bind_some]
    cases p.fds[i]? with
    | none => rfl
    | some x =>
      simp only [Option.bind_some]
      cases eventDirection ev <;> rfl

/-- A step makes a callback only when it handles a message for an entry. -/
theorem called_of_step (h : step c e = some c') {x : AsyncEntry} {d : Direction}
    (hx : .called x d ∈ c'.log) : .called x d ∈ c.log ∨
      ∃ fd, Handles c e fd d ∧ (c.poller.fds.find? fun x => x.fd = fd) = some x := by
  cases effect_of_step h with
  | @handled count fd ev ec queue y d' hctl hqueue hsome =>
    rw [handleEvent_snd, Option.bind_eq_some_iff] at hsome
    obtain ⟨z, hz, hpair⟩ := hsome
    obtain ⟨d'', hd, hzy⟩ := Option.map_eq_some_iff.mp hpair
    obtain ⟨rfl, rfl⟩ := Prod.mk.inj hzy
    rcases List.mem_append.mp hx with hx | hx
    · exact Or.inl hx
    · obtain ⟨rfl, rfl⟩ := Obs.called.inj (List.mem_singleton.mp hx)
      exact Or.inr ⟨fd, ⟨rfl, count, ev, ec, queue, hctl, hqueue, hd⟩, hz⟩
  | finished hctl => exact Or.inl (by simpa using hx)
  | _ => exact Or.inl hx

/-- Conversely, a message for an entry leads to a callback. -/
theorem called_of_handles {fd : Socket} {d : Direction} {x : AsyncEntry} (hh : Handles c e fd d)
    (hx : (c.poller.fds.find? fun x => x.fd = fd) = some x) (h : step c e = some c') :
    .called x d ∈ c'.log := by
  obtain ⟨rfl, count, ev, ec, queue, hctl, hqueue, hd⟩ := hh
  have hpair : c.poller.handleEvent fd ev ec = ({ c.poller with lastErr := ec }, some (x, d)) :=
    Prod.ext rfl (by rw [handleEvent_snd, hx, hd]; rfl)
  simp only [step, hctl, hqueue, hpair, Option.some.injEq] at h
  subst h
  simp

theorem callbacksWanted_iff (hrun : runs es = some c) :
    Throughout step Config.init es (fun _ c => CallbacksWanted c) ↔
      EachStep step Config.init es (fun _ c e => HandlesWanted c e) := by
  have hseen := throughout_seen_iff
    (fun c (w : AsyncEntry × Direction) => .called w.1 w.2 ∈ c.log)
    (fun c e w => ∃ fd, Handles c e fd w.2 ∧ (c.poller.fds.find? fun x => x.fd = fd) = some w.1)
    (fun w => w.1.wants w.2 = true) (fun _ => List.not_mem_nil)
    (fun fs e t u _ hstep w hw => called_of_step hstep hw)
    (fun fs e t u _ hstep w ⟨fd, hh, hx⟩ => called_of_handles hh hx hstep) hrun
  simp only [Prod.forall] at hseen
  refine hseen.trans
    (eachStep_congr hrun fun fs e t u ht _ => ⟨fun hcalls => ?_, fun hwanted => ?_⟩)
  · intro fd d hh r hr
    rw [tracks.registered_eq view_retire ht] at hr
    obtain ⟨x, hx, rfl⟩ := Option.map_eq_some_iff.mp hr
    rw [AsyncEntry.view_wants]
    exact hcalls x d ⟨fd, hh, hx⟩
  · rintro x d ⟨fd, hh, hx⟩
    rw [← AsyncEntry.view_wants]
    refine hwanted fd d hh _ ?_
    rw [tracks.registered_eq view_retire ht, hx]
    rfl

end AsyncSelectPoller

/-! ### Records -/

namespace AsyncEventPoller

variable {c c' : Config} {e : Event} {es : List Event}

/-- Every callback so far was made while the entry wanted it. -/
def CallbacksWanted (c : Config) : Prop :=
  ∀ x n removed, .called x n removed ∈ c.log → x.wants n.direction = true

/-- The step handles the event `n` of a record for the entry at `k`. -/
def Handles (c : Config) (e : Event) (k : ℕ) (n : NetworkEvent) : Prop :=
  ∃ h ns rest, Continues c e h ns ∧ h.k = k ∧ nextEvent h.record ns = some (n, rest)

/-- If the step handles an event, the interest of the entry in it is on. -/
def HandlesWanted (c : Config) (e : Event) : Prop :=
  ∀ k n, Handles c e k n → ∀ r, (registrations false c.ops)[k]? = some r →
    r.wants n.direction = true

/-- The registration of an entry. -/
theorem getElem?_registrations (hrun : runs es = some c) {k : ℕ} {x : FdEntry}
    (hx : c.poller.fds[k]? = some x) :
    (registrations false c.ops)[k]? = some x.toAsyncEntry.view := by
  rw [tracks.getElem?_registrations view_retireEntry hrun, Config.entries, List.getElem?_map, hx]
  rfl

theorem callbacksWanted_iff (hrun : runs es = some c) :
    Throughout step Config.init es (fun _ c => CallbacksWanted c) ↔
      EachStep step Config.init es (fun _ c e => HandlesWanted c e) := by
  refine (throughout_called_iff (fun x n _ => x.wants n.direction = true) hrun).trans
    (eachStep_congr hrun fun fs e t u ht _ => ⟨fun hcalls => ?_, fun hwanted => ?_⟩)
  · rintro k n ⟨h, ns, rest, hcont, rfl, hn⟩ r hr
    obtain ⟨x, hx⟩ := hcont.exists_entry (entryThere_of_runs ht)
    obtain rfl := Option.some.inj ((getElem?_registrations ht hx).symm.trans hr)
    rw [AsyncEntry.view_wants]
    exact hcalls x n h.removed ⟨h, ns, rest, hcont, hx, hn, rfl⟩
  · rintro x n removed ⟨h, ns, rest, hcont, hx, hn, rfl⟩
    exact (AsyncEntry.view_wants _ _).symm.trans
      (hwanted h.k n ⟨h, ns, rest, hcont, rfl, hn⟩ _ (getElem?_registrations ht hx))

end AsyncEventPoller

/-- **In both asynchronous pollers every callback is made while the entry wants it, in every state
of a run, if and only if** every event that is handled, a message or a bit of a record at its turn,
finds the interest in it turned on by the calls made so far. -/
theorem callbacks_wanted_iff {es : List AsyncSelectPoller.Event} {c : AsyncSelectPoller.Config}
    {fs : List AsyncEventPoller.Event} {d : AsyncEventPoller.Config}
    (hselect : AsyncSelectPoller.runs es = some c) (hevent : AsyncEventPoller.runs fs = some d) :
    (Throughout AsyncSelectPoller.step AsyncSelectPoller.Config.init es
        (fun _ c => AsyncSelectPoller.CallbacksWanted c) ↔
      EachStep AsyncSelectPoller.step AsyncSelectPoller.Config.init es
        (fun _ c e => AsyncSelectPoller.HandlesWanted c e)) ∧
    (Throughout AsyncEventPoller.step AsyncEventPoller.Config.init fs
        (fun _ c => AsyncEventPoller.CallbacksWanted c) ↔
      EachStep AsyncEventPoller.step AsyncEventPoller.Config.init fs
        (fun _ c e => AsyncEventPoller.HandlesWanted c e)) :=
  ⟨AsyncSelectPoller.callbacksWanted_iff hselect, AsyncEventPoller.callbacksWanted_iff hevent⟩

/-- A socket has data, and the interest in it is reset before the message is handled. -/
def resetBeforePoll : List AsyncSelectPoller.Event :=
  [.call (.addFd 5 1), .call (.setPollIn 5), .post (.socket 5 fdRead 0), .call (.resetPollIn 5),
    .poll, .peek]

/-- A socket of which only the data is wanted is reported readable and writable. -/
def readAndWriteRecord : List AsyncEventPoller.Event :=
  [.call (.addFd 5 1) (some 1), .call (.setPollIn 5) none, .poll, .signaled 0,
    .timer (.updateTimer 0), .timer .round, .updated,
    .enumerated { lNetworkEvents := fdRead ||| fdWrite, iErrorCode := fun _ => 0 },
    .callbackReturn]

/-- In both cases a callback is made that the entry does not want. -/
theorem unwanted_callbacks :
    (∃ c, AsyncSelectPoller.runs resetBeforePoll = some c ∧
      .called { fd := 5, lEvents := 0, mask := 0, sink := some 1 } .read ∈ c.log ∧
      ¬ AsyncSelectPoller.CallbacksWanted c) ∧
    (∃ c, AsyncEventPoller.runs readAndWriteRecord = some c ∧
      .called { fd := 5, lEvents := fdRead ||| fdAccept ||| fdClose, mask := maskReadable
                sink := some 1, hEvent := 1 } .write false ∈ c.log ∧
      ¬ AsyncEventPoller.CallbacksWanted c) := by
  constructor
  · have hfacts : (AsyncSelectPoller.runs resetBeforePoll).map (fun c => decide
        (.called { fd := 5, lEvents := 0, mask := 0, sink := some 1 } .read ∈ c.log)) =
        some true := by decide +kernel
    obtain ⟨c, hc, hmem⟩ := Option.map_eq_some_iff.mp hfacts
    have hmem := of_decide_eq_true hmem
    exact ⟨c, hc, hmem, fun hall => absurd (hall _ _ hmem) (by decide)⟩
  · have hfacts : (AsyncEventPoller.runs readAndWriteRecord).map (fun c => decide
        (.called { fd := 5, lEvents := fdRead ||| fdAccept ||| fdClose, mask := maskReadable
                   sink := some 1, hEvent := 1 } .write false ∈ c.log)) =
        some true := by decide +kernel
    obtain ⟨c, hc, hmem⟩ := Option.map_eq_some_iff.mp hfacts
    have hmem := of_decide_eq_true hmem
    exact ⟨c, hc, hmem, fun hall => absurd (hall _ _ _ hmem) (by decide)⟩

/-- While all interests are on, every event is wanted. -/
theorem AsyncEventPoller.handlesWanted_of_registrations {es : List AsyncEventPoller.Event}
    {c : AsyncEventPoller.Config} {e : AsyncEventPoller.Event} {rs : List Registration}
    (hrs : ∀ r ∈ rs, r.reads = true ∧ r.writes = true)
    (hregs : (AsyncEventPoller.runs es).map (fun c => registrations false c.ops) = some rs)
    (hc : AsyncEventPoller.runs es = some c) : AsyncEventPoller.HandlesWanted c e := by
  rw [hc, Option.map_some, Option.some.injEq] at hregs
  rintro k n - r hr
  obtain ⟨hreads, hwrites⟩ := hrs r (hregs ▸ List.mem_of_getElem? hr)
  cases n.direction with
  | read => exact hreads
  | write => exact hwrites

/-- A socket has data, and the interest in it is on. -/
def dataArrives : List AsyncSelectPoller.Event :=
  [.call (.addFd 5 1), .call (.setPollIn 5), .post (.socket 5 fdRead 0), .poll]

/-- The event of a socket with both interests is signalled. -/
def eventSignaled : List AsyncEventPoller.Event :=
  [.call (.addFd 5 1) (some 1), .call (.setPollIn 5) none, .call (.setPollOut 5) none, .poll,
    .signaled 0, .timer (.updateTimer 0), .timer .round, .updated]

/-- The record of a socket that can be read and written. -/
def readyRecord : NetworkEvents :=
  { lNetworkEvents := fdRead ||| fdWrite, iErrorCode := fun _ => 0 }

/-- The message leads to a wanted callback, and the record to two of them. -/
theorem wanted_callbacks :
    Throughout AsyncSelectPoller.step AsyncSelectPoller.Config.init (dataArrives ++ [.peek])
        (fun _ c => AsyncSelectPoller.CallbacksWanted c) ∧
      Throughout AsyncEventPoller.step AsyncEventPoller.Config.init
        (eventSignaled ++ [.enumerated readyRecord] ++ [.callbackReturn])
        (fun _ c => AsyncEventPoller.CallbacksWanted c) := by
  obtain ⟨c, hc⟩ : ∃ c, AsyncSelectPoller.runs (dataArrives ++ [.peek]) = some c :=
    Option.isSome_iff_exists.mp (by decide +kernel)
  obtain ⟨d, hd⟩ : ∃ d, AsyncEventPoller.runs
      (eventSignaled ++ [.enumerated readyRecord] ++ [.callbackReturn]) = some d :=
    Option.isSome_iff_exists.mp (by decide +kernel)
  have hiff := callbacks_wanted_iff hc hd
  constructor
  · refine hiff.1.mpr (eachStep_append_singleton.mpr ⟨eachStep_of_forall ?_, ?_⟩)
    · rintro e he - t fd d ⟨rfl, -⟩
      simp [dataArrives] at he
    · rintro t ht fd d ⟨-, count, ev, ec, queue, -, hqueue, hd⟩ r hr
      have hfacts : (AsyncSelectPoller.runs dataArrives).map
          (fun c => (c.queue, registered true c.ops 5)) =
          some ([.socket 5 fdRead 0], some { fd := 5, reads := true, writes := false }) := by
        decide +kernel
      rw [show AsyncSelectPoller.runs dataArrives = some t from ht, Option.map_some,
        Option.some.injEq, Prod.mk.injEq, hqueue] at hfacts
      obtain ⟨hq, hreg⟩ := hfacts
      simp only [List.cons.injEq, Message.socket.injEq] at hq
      obtain ⟨⟨rfl, rfl, -⟩, -⟩ := hq
      obtain rfl := Option.some.inj (hreg.symm.trans hr)
      obtain rfl : Direction.read = d := Option.some.inj hd
      rfl
  · have hboth : ∀ r ∈ [Registration.mk 5 true true], r.reads = true ∧ r.writes = true := by
      decide
    refine hiff.2.mpr (eachStep_append_singleton.mpr
      ⟨eachStep_append_singleton.mpr ⟨eachStep_of_forall ?_, fun t ht => ?_⟩, fun t ht => ?_⟩)
    · rintro e he - t k n ⟨h, ns, rest, ⟨rfl, -⟩ | ⟨rfl, -⟩, -⟩
      · simp [eventSignaled] at he
      · simp [eventSignaled] at he
    · exact AsyncEventPoller.handlesWanted_of_registrations hboth (by decide +kernel) ht
    · exact AsyncEventPoller.handlesWanted_of_registrations hboth (by decide +kernel) ht

end WinsockTut
