import WinsockTut.AsyncEvent.Handles

/-!
# From the signalled event to its entry

`Poll` collects the handles of the live entries, waits for one of them, runs the timers, and looks
the entry up by the handle.  The callbacks of the timers may remove any socket and register others
in between, so that the entry may be gone or, if the handle has been issued again, may be another
one.  `handleEvents_owner` says that the entry is live and the only one with the handle, and that
no callback is made if it has been removed and the handle has not been issued again.
-/

namespace WinsockTut

namespace AsyncEventPoller

open FirstMatch Runs

variable {c c' : Config} {e : Event} {es : List Event} {xs : List FdEntry} {h : Handle} {i j k : ℕ}

/-- The index that the wait of the last call of `Poll` has returned. -/
def signalled (es : List Event) : Option ℕ :=
  es.foldl (fun i e => match e with
    | .poll => none
    | .signaled index => some index
    | _ => i) none

/-- If `Poll` has come to `WSAEnumNetworkEvents` and `HandleEvents`, it is with a live entry, which
is the only one that holds the signalled handle. -/
def DispatchesOwner (es : List Event) (c : Config) : Prop :=
  ∀ k, c.ctl = .enumerating k → ∃ i h x, signalled es = some i ∧ c.poller.events[i]? = some h ∧
    c.poller.fds[k]? = some x ∧ x.fd ≠ invalidSocket ∧ x.hEvent = h ∧
    ∀ j y, c.poller.fds[j]? = some y → y.hEvent = h → j = k

/-- In `w`, reached by the events `fs`, the wait returns the index `i` of a handle `h` that the
entry at `k` owns; when the events `gs` in `UpdateTimer` have led to `t`, this entry is retired, and
`h` has not been issued again. -/
structure RemovedMeanwhile (fs : List Event) (i : ℕ) (gs : List Event) (h : Handle) (k : ℕ)
    (w t : Config) : Prop where
  wait : runs fs = some w
  signalled : w.poller.events[i]? = some h
  owner : ∃ x, w.poller.fds[k]? = some x ∧ x.hEvent = h
  timers : run step w (.signaled i :: gs) = some t
  notReturned : ∀ g ∈ gs, g ≠ .updated
  notReissued : ∀ g ∈ gs, ∀ fd event, g ≠ .call (.addFd fd event) (some h)
  removed : ∃ y, t.poller.fds[k]? = some y ∧ y.fd = invalidSocket

/-! ### The snapshot of the handles -/

@[simp] theorem signalled_append_singleton (es : List Event) (e : Event) :
    signalled (es ++ [e]) = match e with
      | .poll => none
      | .signaled index => some index
      | _ => signalled es := by
  simp [signalled]

theorem updateEntry_events (p : AsyncEventPoller) (fd : Socket) (f : FdEntry → FdEntry) :
    (p.updateEntry fd f).events = p.events := by
  unfold updateEntry
  cases p.findEntry fd <;> rfl

/-- The calls leave the snapshot alone. -/
theorem call_events (p : AsyncEventPoller) (hEvent : Option Handle) (k : Call) :
    (p.call hEvent k).1.events = p.events := by
  cases k with
  | addFd fd event =>
    simp only [call, addFd]
    split
    · rfl
    · cases hEvent <;> rfl
  | removeFd fd => exact updateEntry_events p fd retire
  | setPollIn fd => exact updateEntry_events p fd _
  | resetPollIn fd => exact updateEntry_events p fd _
  | setPollOut fd => exact updateEntry_events p fd _
  | resetPollOut fd => exact updateEntry_events p fd _

theorem removeRetired_events (p : AsyncEventPoller) : p.removeRetired.events = p.events := by
  unfold removeRetired
  split <;> rfl

theorem handle_events {h : Handling} {ns : List NetworkEvent} (hnext : handle c h ns = some c') :
    c'.poller.events = c.poller.events ∧ (c'.ctl = .idle ∨ ∃ rest, c'.ctl = .callback h rest) := by
  obtain ⟨err, rfl | ⟨n, rest, x, rfl⟩⟩ := handle_effect hnext
  · exact ⟨rfl, Or.inl rfl⟩
  · exact ⟨rfl, Or.inr ⟨rest, rfl⟩⟩

/-- **Only the start of `Poll` takes a snapshot.** -/
theorem events_of_step (hstep : step c e = some c') :
    (e = .poll ∧ c'.poller.events = c.poller.collectEvents.events) ∨
      (e ≠ .poll ∧ c'.poller.events = c.poller.events) := by
  cases effect_of_step hstep with
  | polled => exact Or.inl ⟨rfl, rfl⟩
  | called => exact Or.inr ⟨by simp, call_events _ _ _⟩
  | ticked => exact Or.inr ⟨by simp, rfl⟩
  | waited hctl => exact Or.inr ⟨by rintro rfl; simp [step, hctl] at hstep, rfl⟩
  | failed => exact Or.inr ⟨by simp, rfl⟩
  | enumerated _ _ hnext => exact Or.inr ⟨by simp, (handle_events hnext).1⟩
  | resumed _ hnext => exact Or.inr ⟨by simp, (handle_events hnext).1⟩
  | updated _ hnext =>
    refine Or.inr ⟨by simp, ?_⟩
    rcases afterUpdate_cases hnext with ⟨-, rfl⟩ | ⟨-, ⟨-, rfl⟩ | ⟨hEvent, -, -, ⟨-, rfl⟩ |
        ⟨k, -, rfl⟩⟩⟩
    · exact removeRetired_events c.poller
    · rfl
    · rfl
    · rfl

/-- What `Poll` knows about the wait. -/
structure SignalInv (es : List Event) (c : Config) : Prop where
  /-- No handle of the snapshot is invalid. -/
  valid : ∀ h ∈ c.poller.events, h ≠ wsaInvalidEvent
  update : ∀ n, c.ctl = .update n ∨ c.ctl = .updating n → 0 ≤ n → c.poller.events ≠ [] →
    signalled es = some n.toNat
  found : ∀ k, c.ctl = .enumerating k → ∃ i h, signalled es = some i ∧
    c.poller.events[i]? = some h ∧ c.poller.findEntryByEvent h = some k

theorem signalInv_init : SignalInv [] Config.init where
  valid := fun _ hh => absurd hh List.not_mem_nil
  update := fun _ hctl => by simp [Config.init] at hctl
  found := fun _ hctl => by simp [Config.init] at hctl

theorem valid_of_step (hvalid : ∀ h ∈ c.poller.events, h ≠ wsaInvalidEvent)
    (hstep : step c e = some c') : ∀ h ∈ c'.poller.events, h ≠ wsaInvalidEvent := by
  rcases events_of_step hstep with ⟨-, hevents⟩ | ⟨-, hevents⟩
  · rw [hevents]
    intro h hh
    simp only [collectEvents, List.mem_map, List.mem_filter, decide_eq_true_eq] at hh
    obtain ⟨x, ⟨-, -, hx⟩, rfl⟩ := hh
    exact hx
  · rw [hevents]
    exact hvalid

/-- A step after which control is neither around the timers nor in front of `HandleEvents`. -/
theorem SignalInv.of_other (hinv : SignalInv es c) (hstep : AsyncEventPoller.step c e = some c')
    (hupdate : ∀ n, c'.ctl ≠ .update n) (hupdating : ∀ n, c'.ctl ≠ .updating n)
    (henum : ∀ k, c'.ctl ≠ .enumerating k) : SignalInv (es ++ [e]) c' where
  valid := valid_of_step hinv.valid hstep
  update n hctl := absurd hctl (not_or.mpr ⟨hupdate n, hupdating n⟩)
  found k hctl := absurd hctl (henum k)

theorem SignalInv.of_handle (hinv : SignalInv es c) (hstep : AsyncEventPoller.step c e = some c')
    {h : Handling} {ns : List NetworkEvent} (hnext : handle c h ns = some c') :
    SignalInv (es ++ [e]) c' := by
  rcases (handle_events hnext).2 with hctl | ⟨rest, hctl⟩
  · exact hinv.of_other hstep (by simp [hctl]) (by simp [hctl]) (by simp [hctl])
  · exact hinv.of_other hstep (by simp [hctl]) (by simp [hctl]) (by simp [hctl])

/-- A wait that has returned the number `n`. -/
theorem SignalInv.of_waited (hinv : SignalInv es c) (hstep : AsyncEventPoller.step c e = some c')
    {n : ℤ} (hctl : c'.ctl = .update n) (hn : 0 ≤ n → signalled (es ++ [e]) = some n.toNat) :
    SignalInv (es ++ [e]) c' where
  valid := valid_of_step hinv.valid hstep
  update m hm := by
    rcases hm with hm | hm
    · obtain rfl := Control.update.inj (hctl.symm.trans hm)
      exact fun h0 _ => hn h0
    · cases hctl.symm.trans hm
  found k hk := nomatch hctl.symm.trans hk

/-- The wait returns a negative number, or the index of a handle. -/
theorem wait_returns (es : List Event) (hstep : step c e = some c') (hctl : c.ctl = .waiting)
    (hcall : e.call? = none) :
    ∃ n, c'.ctl = .update n ∧ (0 ≤ n → signalled (es ++ [e]) = some n.toNat) := by
  cases e with
  | waitFailed =>
    simp only [step, hctl, Option.some.injEq] at hstep
    exact ⟨-1, hstep ▸ rfl, fun hn => by omega⟩
  | waitTimeout =>
    simp only [step, hctl, Option.some.injEq] at hstep
    exact ⟨-1, hstep ▸ rfl, fun hn => by omega⟩
  | signaled index =>
    simp only [step, hctl, Option.ite_none_right_eq_some, Option.some.injEq] at hstep
    exact ⟨index, hstep.2 ▸ rfl, fun _ => by simp⟩
  | call k hEvent => simp [Event.call?] at hcall
  | timer x =>
    -- the timers do not move while `Poll` waits
    cases x <;> simp [step, hctl, Control.stage, timerStep, Stage.canCall] at hstep
  | _ => simp [step, hctl] at hstep

/-- The calls leave alone what `Poll` knows, and none is made in front of `HandleEvents`. -/
theorem SignalInv.call (hinv : SignalInv es c) {k : Call} {hEvent : Option Handle}
    (hcall : c.ctl.stage.canCall c.timers.ctl = true)
    (hstep : AsyncEventPoller.step c (.call k hEvent) = some c')
    (hevents : c'.poller.events = c.poller.events) (hctl : c'.ctl = c.ctl.afterCall k) :
    SignalInv (es ++ [.call k hEvent]) c' where
  valid := valid_of_step hinv.valid hstep
  update n hn h0 hne := by
    rw [signalled_append_singleton]
    refine hinv.update n ?_ h0 (hevents ▸ hne)
    rw [hctl] at hn
    cases hc : c.ctl <;> simp_all [Control.afterCall]
  found k' hk' := by
    rw [hctl] at hk'
    cases hc : c.ctl with
    | enumerating k => simp [hc, Control.stage, Stage.canCall] at hcall
    | _ => simp [Control.afterCall, hc] at hk'

/-- The timers move control only into `UpdateTimer`. -/
theorem SignalInv.tick (hinv : SignalInv es c) {x : TimerSched.Event}
    (hp : c'.poller = c.poller) (hctl : c'.ctl = c.ctl.afterTimer x) :
    SignalInv (es ++ [.timer x]) c' where
  valid := hp ▸ hinv.valid
  update n hn h0 hne := by
    rw [signalled_append_singleton]
    refine hinv.update n ?_ h0 (hp ▸ hne)
    rw [hctl] at hn
    cases hc : c.ctl with
    | update m =>
      cases hx : entersUpdate x <;> simp [Control.afterTimer, hc, hx] at hn <;> simp [hn]
    | _ => simpa only [Control.afterTimer, hc] using hn
  found k hk := by
    rw [signalled_append_singleton, hp]
    refine hinv.found k ?_
    rcases c.ctl.afterTimer_eq x with hsame | ⟨m, hm⟩
    · exact hsame.symm.trans (hctl.symm.trans hk)
    · cases hm.symm.trans (hctl.symm.trans hk)

/-- Behind `UpdateTimer`, the entry is looked up by the handle that the wait has returned. -/
theorem SignalInv.update_returns (hinv : SignalInv es c)
    (hstep : AsyncEventPoller.step c .updated = some c') {nready : ℤ}
    (hctl : c.ctl = .updating nready) (hnext : afterUpdate c nready = some c') :
    SignalInv (es ++ [.updated]) c' := by
  have hidle : c'.ctl = .idle → SignalInv (es ++ [.updated]) c' := fun hidle =>
    hinv.of_other hstep (by simp [hidle]) (by simp [hidle]) (by simp [hidle])
  rcases afterUpdate_cases hnext with ⟨-, rfl⟩ | ⟨⟨h0, hne⟩, ⟨-, rfl⟩ |
      ⟨hEvent, -, hget, ⟨-, rfl⟩ | ⟨k, hfind, rfl⟩⟩⟩
  · exact hidle rfl
  · exact hidle rfl
  · exact hidle rfl
  · refine ⟨hinv.valid, fun n hn => by simp at hn, fun k' hk' => ?_⟩
    obtain rfl := Control.enumerating.inj hk'
    refine ⟨nready.toNat, hEvent, ?_, hget, hfind⟩
    rw [signalled_append_singleton]
    exact hinv.update nready (Or.inr hctl) h0 hne

/-- **Preservation.** -/
theorem SignalInv.step (hinv : SignalInv es c) (hstep : AsyncEventPoller.step c e = some c') :
    SignalInv (es ++ [e]) c' := by
  cases effect_of_step hstep with
  | called hcall => exact hinv.call hcall hstep (call_events c.poller _ _) rfl
  | ticked => exact hinv.tick rfl rfl
  | polled hctl =>
    by_cases hne : c.poller.collectEvents.events ≠ []
    · refine hinv.of_other hstep ?_ ?_ ?_ <;> simp [hne]
    · refine ⟨valid_of_step hinv.valid hstep, fun n _ _ hne' => absurd hne' hne, fun k hk => ?_⟩
      simp [hne] at hk
  | waited hctl hcall =>
    obtain ⟨n, hn, hsignalled⟩ := wait_returns es hstep hctl hcall
    exact hinv.of_waited hstep hn hsignalled
  | updated hctl hnext => exact hinv.update_returns hstep hctl hnext
  | failed hctl => refine hinv.of_other hstep ?_ ?_ ?_ <;> simp [Config.leave]
  | enumerated hctl hx hnext => exact hinv.of_handle hstep hnext
  | resumed hctl hnext => exact hinv.of_handle hstep hnext

/-! ### The owner of a handle -/

/-- **A valid handle has at most one holder.** -/
theorem HandleInv.holder_unique (hinv : HandleInv c) (hh : h ≠ wsaInvalidEvent) {x y : FdEntry}
    (hj : c.poller.fds[j]? = some x) (hx : x.hEvent = h) (hk : c.poller.fds[k]? = some y)
    (hy : y.hEvent = h) : j = k := by
  have hlive : ∀ z ∈ c.poller.fds, z.hEvent = h → z.fd ≠ invalidSocket := fun z hz hzh hzfd =>
    hh (hzh.symm.trans (hinv.retired z hz hzfd))
  have hpairs : c.poller.fds.Pairwise fun x y =>
      x.fd ≠ invalidSocket → y.fd ≠ invalidSocket → x.hEvent ≠ y.hEvent := by
    have hnodup := hinv.nodup
    rw [liveHandles, List.Nodup, List.pairwise_map, List.pairwise_filter] at hnodup
    simpa using hnodup
  have hdistinct : ∀ {i i' : ℕ} {z z' : FdEntry}, i < i' → c.poller.fds[i]? = some z →
      c.poller.fds[i']? = some z' → z.hEvent = h → z'.hEvent ≠ h := by
    intro i i' z z' hlt hz hz' hzh hzh'
    obtain ⟨hi, rfl⟩ := List.getElem?_eq_some_iff.mp hz
    obtain ⟨hi', rfl⟩ := List.getElem?_eq_some_iff.mp hz'
    exact List.pairwise_iff_getElem.mp hpairs i i' hi hi' hlt (hlive _ (List.getElem_mem hi) hzh)
      (hlive _ (List.getElem_mem hi') hzh') (hzh.trans hzh'.symm)
  rcases lt_trichotomy j k with hlt | heq | hgt
  · exact absurd hy (hdistinct hlt hj hk hx)
  · exact heq
  · exact absurd hx (hdistinct hgt hk hj hy)

/-- The entry found by a handle of the snapshot is live, and the only one with the handle. -/
theorem SignalInv.dispatchesOwner (hinv : SignalInv es c) (hhandles : HandleInv c) :
    DispatchesOwner es c := by
  intro k hctl
  obtain ⟨i, h, hi, hget, hfind⟩ := hinv.found k hctl
  have hh : h ≠ wsaInvalidEvent := hinv.valid h (List.mem_of_getElem? hget)
  obtain ⟨hk, hholds, -⟩ := List.findIdx?_eq_some_iff_getElem.mp hfind
  have hx : c.poller.fds[k].hEvent = h := by simpa using hholds
  have hgetk := List.getElem?_eq_getElem hk
  refine ⟨i, h, c.poller.fds[k], hi, hget, hgetk, fun hfd => ?_, hx, fun j y hj hy => ?_⟩
  · exact hh (hx.symm.trans (hhandles.retired _ (List.getElem_mem hk) hfd))
  · exact hhandles.holder_unique hh hj hy hgetk hx

/-! ### The timers in between -/

/-- During `UpdateTimer`, after a wait that returned `i`: the snapshot is as it was, and at most the
entry at `k` holds the handle `h`. -/
structure Between (i : ℕ) (h : Handle) (k : ℕ) (events : List Handle) (c : Config) : Prop where
  events : c.poller.events = events
  ctl : c.ctl = .update i ∨ c.ctl = .updating i
  there : k < c.poller.fds.length
  holder : ∀ j y, c.poller.fds[j]? = some y → y.hEvent = h → j = k

/-- A change of the first entry with a socket does not give the handle to another one. -/
theorem holder_modifyFirst {q : FdEntry → Bool} {f : FdEntry → FdEntry}
    (hf : ∀ x, (f x).hEvent = h → x.hEvent = h)
    (hholder : ∀ j y, xs[j]? = some y → y.hEvent = h → j = k) (y : FdEntry)
    (hj : (modifyFirst q f xs)[j]? = some y) (hy : y.hEvent = h) : j = k := by
  rcases getElem?_modifyFirst q f xs j with hsame | ⟨x, hx, -, -, hchange⟩
  · exact hholder j y (hsame.symm.trans hj) hy
  · obtain rfl := Option.some.inj (hchange.symm.trans hj)
    exact hholder j x hx (hf x hy)

/-- No call gives the handle to another entry, unless it is issued again. -/
theorem holder_call {p : AsyncEventPoller} {hEvent : Option Handle} {call : Call}
    (hh : h ≠ wsaInvalidEvent) (hnew : ∀ fd event, call = .addFd fd event → hEvent ≠ some h)
    (hholder : ∀ j y, p.fds[j]? = some y → y.hEvent = h → j = k) (j : ℕ) (y : FdEntry)
    (hj : (p.call hEvent call).1.fds[j]? = some y) (hy : y.hEvent = h) : j = k := by
  have hupdate : ∀ fd f, (∀ x : FdEntry, (f x).hEvent = h → x.hEvent = h) →
      (p.updateEntry fd f).fds[j]? = some y → j = k := by
    intro fd f hf hj
    rw [updateEntry_fds] at hj
    exact holder_modifyFirst hf hholder y hj hy
  cases call with
  | addFd fd event =>
    simp only [AsyncEventPoller.call, addFd] at hj
    split at hj
    · exact hholder j y hj hy
    · cases hEvent with
      | none => exact hholder j y hj hy
      | some h' =>
        by_cases hlt : j < p.fds.length
        · rw [List.getElem?_append_left hlt] at hj
          exact hholder j y hj hy
        · rw [List.getElem?_append_right (not_lt.mp hlt)] at hj
          obtain rfl := List.mem_singleton.mp (List.mem_of_getElem? hj)
          exact absurd (congrArg some hy) (hnew fd event rfl)
  | removeFd fd => exact hupdate fd retire (fun x hx => absurd hx.symm hh) hj
  | setPollIn fd => exact hupdate fd (FdEntry.onEntry AsyncEntry.setPollIn) (fun _ hx => hx) hj
  | resetPollIn fd =>
    exact hupdate fd (FdEntry.onEntry AsyncEntry.resetPollIn) (fun _ hx => hx) hj
  | setPollOut fd => exact hupdate fd (FdEntry.onEntry AsyncEntry.setPollOut) (fun _ hx => hx) hj
  | resetPollOut fd =>
    exact hupdate fd (FdEntry.onEntry AsyncEntry.resetPollOut) (fun _ hx => hx) hj

/-- **Preservation** by the calls and timer steps in `UpdateTimer`. -/
theorem Between.step {events : List Handle} (hb : Between i h k events c)
    (hh : h ≠ wsaInvalidEvent) (hend : e ≠ .updated)
    (hnew : ∀ fd event, e ≠ .call (.addFd fd event) (some h))
    (hstep : AsyncEventPoller.step c e = some c') : Between i h k events c' := by
  cases effect_of_step hstep with
  | @called call hEvent hcall hfresh =>
    refine ⟨(call_events c.poller hEvent call).trans hb.events, ?_,
      hb.there.trans_le (length_le_call c.poller hEvent call), ?_⟩
    · rcases hb.ctl with hctl | hctl
      · exact Or.inl (by simp [hctl, Control.afterCall])
      · exact Or.inr (by simp [hctl, Control.afterCall])
    · refine holder_call hh (fun fd event hcall' hsome => ?_) hb.holder
      subst hcall' hsome
      exact hnew fd event rfl
  | @ticked x timers =>
    refine ⟨hb.events, ?_, hb.there, hb.holder⟩
    rcases hb.ctl with hctl | hctl
    · cases hx : entersUpdate x with
      | true => exact Or.inr (by simp [hctl, Control.afterTimer, hx])
      | false => exact Or.inl (by simp [hctl, Control.afterTimer, hx])
    · exact Or.inr (by simp [hctl, Control.afterTimer])
  | polled hctl => rcases hb.ctl with h' | h' <;> cases hctl.symm.trans h'
  | waited hctl => rcases hb.ctl with h' | h' <;> cases hctl.symm.trans h'
  | updated => exact absurd rfl hend
  | failed hctl => rcases hb.ctl with h' | h' <;> cases hctl.symm.trans h'
  | enumerated hctl => rcases hb.ctl with h' | h' <;> cases hctl.symm.trans h'
  | resumed hctl => rcases hb.ctl with h' | h' <;> cases hctl.symm.trans h'

/-- **If the owner has been removed meanwhile, `Poll` returns without a callback.** -/
theorem RemovedMeanwhile.leaves {fs gs : List Event} {w t u : Config}
    (hr : RemovedMeanwhile fs i gs h k w t) (hw : HandleInv w) (ht : HandleInv t)
    (hh : h ≠ wsaInvalidEvent) (hstep : step t .updated = some u) : u = t.leave 0 := by
  obtain ⟨x, hx, hxh⟩ := hr.owner
  have htimers := hr.timers
  rw [run_cons, Option.bind_eq_some_iff] at htimers
  obtain ⟨v, hv, hrun⟩ := htimers
  have hstart : Between i h k w.poller.events v := by
    cases effect_of_step hv with
    | waited hctl =>
      simp only [step, hctl, Option.ite_none_right_eq_some, Option.some.injEq] at hv
      obtain ⟨-, hv⟩ := hv
      refine ⟨rfl, Or.inl (by rw [← hv]), (List.getElem?_eq_some_iff.mp hx).1, fun j y hj hy => ?_⟩
      exact hw.holder_unique hh hj hy hx hxh
  have hb : Between i h k w.poller.events t := by
    refine run_induction (P := fun _ t => Between i h k w.poller.events t) hstart
      (fun gs' g t' u' hp _ hb hg => ?_) hrun
    have hmem : g ∈ gs := hp.subset (List.mem_append_right gs' (List.mem_singleton_self g))
    exact hb.step hh (hr.notReturned g hmem) (hr.notReissued g hmem) hg
  obtain ⟨y, hy, hyfd⟩ := hr.removed
  -- nobody holds the handle any more
  have hnone : t.poller.findEntryByEvent h = none := by
    refine List.findIdx?_eq_none_iff.mpr fun z hz => ?_
    obtain ⟨j, hj⟩ := List.mem_iff_getElem?.mp hz
    refine decide_eq_false fun hzh => ?_
    obtain rfl := hb.holder j z hj hzh
    obtain rfl := Option.some.inj (hj.symm.trans hy)
    exact hh (hzh.symm.trans (ht.retired z hz hyfd))
  have hget : t.poller.events[i]? = some h := hb.events ▸ hr.signalled
  cases effect_of_step hstep with
  | updated hctl hnext =>
    rcases hb.ctl with hctl' | hctl'
    · cases hctl.symm.trans hctl'
    · obtain rfl := Control.updating.inj (hctl.symm.trans hctl')
      rcases afterUpdate_cases hnext with ⟨hready, -⟩ | ⟨-, ⟨-, hu⟩ |
          ⟨h', -, hget', ⟨-, hu⟩ | ⟨k', hfind, -⟩⟩⟩
      · refine absurd ⟨Int.natCast_nonneg i, fun hnil => ?_⟩ hready
        simp [hnil] at hget
      · exact hu
      · exact hu
      · rw [Int.toNat_natCast, hget] at hget'
        obtain rfl := Option.some.inj hget'
        cases hfind.symm.trans hnone
  | waited hctl => rcases hb.ctl with h' | h' <;> cases hctl.symm.trans h'

/-- **`Poll` handles the events of the right entry**, in any run in which `AddFd` is not called with
`INVALID_SOCKET`: the entry is live, and the only one that holds the signalled handle.  If the entry
that owned the handle has been removed in `UpdateTimer` and the handle has not been issued again,
`Poll` returns 0 without a callback. -/
theorem handleEvents_owner (hok : EachStep step Config.init es fun _ _ => AddsSocket) :
    Throughout step Config.init es DispatchesOwner ∧
      ∀ fs i gs h k w t u, fs ++ .signaled i :: gs ++ [.updated] <+: es →
        RemovedMeanwhile fs i gs h k w t → step t .updated = some u → u = t.leave 0 := by
  have hhandles := handleInv_of_runs hok
  have hsignal : Throughout step Config.init es SignalInv := fun fs t _ ht =>
    run_induction (P := SignalInv) signalInv_init
      (fun _ _ _ _ _ _ hinv hstep => hinv.step hstep) ht
  refine ⟨fun fs t hp ht => (hsignal fs t hp ht).dispatchesOwner (hhandles fs t hp ht), ?_⟩
  intro fs i gs h k w t u hp hr hstep
  have hpt : fs ++ .signaled i :: gs <+: es := (List.prefix_append _ _).trans hp
  have hpw : fs <+: es := (List.prefix_append _ _).trans hpt
  have hh : h ≠ wsaInvalidEvent :=
    (hsignal fs w hpw hr.wait).valid h (List.mem_of_getElem? hr.signalled)
  exact hr.leaves (hhandles fs w hpw hr.wait)
    (hhandles _ t hpt (run_trans hr.wait hr.timers)) hh hstep

/-- Two sockets and a timer, up to the wait. -/
def beforeWait : List Event :=
  [.call (.addFd 5 1) (some 8), .call (.addFd 6 2) (some 9), .timer (.addTimer 0 0 0 (some 2)),
    .poll]

/-- The callback of the timer removes the first socket and registers another one. -/
def replaceInTimer : List Event :=
  [.timer (.updateTimer 5), .timer .round, .call (.removeFd 5) none,
    .call (.addFd 7 3) (some 10), .timer .timeoutReturn, .timer .round]

/-- The position of the entry in `WSAEnumNetworkEvents`. -/
def Control.enumerated : Control → Option ℕ
  | .enumerating k => some k
  | _ => none

theorem Control.eq_enumerating {ctl : Control} {k : ℕ} (h : ctl.enumerated = some k) :
    ctl = .enumerating k := by
  cases ctl with
  | enumerating k' => rw [Option.some.inj h]
  | _ => cases h

/-- The first socket is signalled, and in the next call of `Poll` the new one. -/
def replaceSignalled : List Event :=
  beforeWait ++ .signaled 0 :: replaceInTimer ++ [.updated] ++
    [.poll, .signaled 1, .timer (.updateTimer 6), .timer .round, .updated]

theorem handleEvents_replaceSignalled :
    (∃ c, runs replaceSignalled = some c ∧ c.ctl = .enumerating 2 ∧
      DispatchesOwner replaceSignalled c) ∧
    ∃ t, runs (beforeWait ++ .signaled 0 :: replaceInTimer) = some t ∧
      step t .updated = some (t.leave 0) := by
  have hok : EachStep step Config.init replaceSignalled fun _ _ => AddsSocket :=
    eachStep_iff_checkSteps.mpr (by decide +kernel)
  have hrun : (runs replaceSignalled).map (fun c => c.ctl.enumerated) = some (some 2) := by
    decide +kernel
  have hwait : (runs beforeWait).map (fun w =>
      (w.poller.events[0]?, w.poller.fds[0]?.map FdEntry.hEvent)) = some (some 8, some 8) := by
    decide +kernel
  have hupdate : ((runs (beforeWait ++ .signaled 0 :: replaceInTimer)).map fun t =>
      (t.poller.fds[0]?.map fun y => y.fd, (step t .updated).isSome)) =
      some (some invalidSocket, true) := by
    decide +kernel
  obtain ⟨c, hc, henum⟩ := Option.map_eq_some_iff.mp hrun
  have hctl : c.ctl = .enumerating 2 := Control.eq_enumerating henum
  obtain ⟨w, hw, hsnap⟩ := Option.map_eq_some_iff.mp hwait
  obtain ⟨hsignalled, howner⟩ := Prod.mk.inj hsnap
  obtain ⟨z, hz, hzh⟩ := Option.map_eq_some_iff.mp howner
  obtain ⟨t, ht, hretired⟩ := Option.map_eq_some_iff.mp hupdate
  obtain ⟨hremoved, hsome⟩ := Prod.mk.inj hretired
  obtain ⟨y, hy, hyfd⟩ := Option.map_eq_some_iff.mp hremoved
  obtain ⟨u, hu⟩ := Option.isSome_iff_exists.mp hsome
  have hr : RemovedMeanwhile beforeWait 0 replaceInTimer 8 0 w t :=
    { wait := hw
      signalled := hsignalled
      owner := ⟨z, hz, hzh⟩
      timers := by rwa [runs, run_append, show run step Config.init beforeWait = some w from hw,
        Option.bind_some] at ht
      notReturned := by simp [replaceInTimer]
      notReissued := by simp [replaceInTimer]
      removed := ⟨y, hy, hyfd⟩ }
  obtain ⟨hdispatch, hleave⟩ := handleEvents_owner hok
  refine ⟨⟨c, hc, hctl, hdispatch _ c List.prefix_rfl hc⟩, t, ht, ?_⟩
  rw [hu, hleave beforeWait 0 replaceInTimer 8 0 w t u (List.prefix_append _ _) hr hu]

end AsyncEventPoller

end WinsockTut
