import WinsockTut.AsyncEvent.Machine

/-!
# The event objects of the poller based on `WSAEventSelect`

`AddFd` creates an event object for each socket, and `RemoveFd` closes it; the entry stays in the
table with an invalid handle until it is taken out.  `HandleInv` ties the open handles to the live
entries.  It holds in all runs in which `AddFd` is not called with `INVALID_SOCKET`, and gives
`handles_conserved`: no handle leaks, and none is closed twice.
-/

namespace WinsockTut

namespace AsyncEventPoller

open FirstMatch Runs

variable {p : AsyncEventPoller} {c c' : Config} {e : Event} {es : List Event} {fd : Socket}
  {xs : List FdEntry} {h : Handle}

/-- The handles of the live entries, in order. -/
def liveHandles (xs : List FdEntry) : List Handle :=
  (xs.filter fun x => x.fd ≠ invalidSocket).map FdEntry.hEvent

/-- `AddFd` is not called with `INVALID_SOCKET`. -/
def AddsSocket (e : Event) : Prop :=
  ∀ fd event hEvent, e = .call (.addFd fd event) hEvent → fd ≠ invalidSocket

/-- The handles that `WSACreateEvent` returned. -/
def createdHandles (log : List Obs) : List Handle := log.filterMap fun
  | .created h => some h
  | _ => none

/-- The handles that were passed to `WSACloseEvent`. -/
def closedHandles (log : List Obs) : List Handle := log.filterMap fun
  | .closed h => some h
  | _ => none

/-- The open handles belong to the live entries, and the retired ones have none. -/
structure HandleInv (c : Config) : Prop where
  conserved : (openHandles c.log).Perm (liveHandles c.poller.fds)
  nodup : (liveHandles c.poller.fds).Nodup
  valid : wsaInvalidEvent ∉ liveHandles c.poller.fds
  accounts : ∀ h ≠ wsaInvalidEvent, (createdHandles c.log).count h =
    (closedHandles c.log).count h + (liveHandles c.poller.fds).count h
  retired : ∀ x ∈ c.poller.fds, x.fd = invalidSocket → x.hEvent = wsaInvalidEvent

theorem handleInv_init : HandleInv Config.init where
  conserved := .refl _
  nodup := List.nodup_nil
  valid := List.not_mem_nil
  accounts := fun _ _ => rfl
  retired := fun _ hx => absurd hx List.not_mem_nil

/-! ### The handles of the live entries -/

theorem liveHandles_append (xs ys : List FdEntry) :
    liveHandles (xs ++ ys) = liveHandles xs ++ liveHandles ys := by
  simp [liveHandles]

theorem liveHandles_cons (x : FdEntry) (xs : List FdEntry) : liveHandles (x :: xs) =
    if x.fd ≠ invalidSocket then x.hEvent :: liveHandles xs else liveHandles xs := by
  by_cases hx : x.fd = invalidSocket
  · simp [liveHandles, hx]
  · simp [liveHandles, hx]

/-- Retiring a live entry takes its handle out. -/
theorem liveHandles_retire {x : FdEntry} (hfind : xs.find? (fun e => e.fd = fd) = some x)
    (hfd : fd ≠ invalidSocket) : (liveHandles xs).Perm
      (x.hEvent :: liveHandles (modifyFirst (fun e => e.fd = fd) retire xs)) := by
  obtain ⟨l, r, rfl, -, hmod⟩ := exists_split retire hfind
  have hx : x.fd = fd := by simpa using List.find?_some hfind
  rw [hmod, liveHandles_append, liveHandles_append, liveHandles_cons, liveHandles_cons,
    if_pos (hx ▸ hfd), if_neg (by simp [retire])]
  exact List.perm_middle

/-- Retiring an entry again changes nothing. -/
theorem liveHandles_retire_retired :
    liveHandles (modifyFirst (fun e => e.fd = invalidSocket) retire xs) = liveHandles xs := by
  cases hfind : xs.find? fun e => e.fd = invalidSocket with
  | none => rw [modifyFirst_of_find_none hfind]
  | some x =>
    obtain ⟨l, r, rfl, -, hmod⟩ := exists_split retire hfind
    have hx : x.fd = invalidSocket := by simpa using List.find?_some hfind
    rw [hmod, liveHandles_append, liveHandles_append, liveHandles_cons, liveHandles_cons,
      if_neg (by simp [retire]), if_neg (by simp [hx])]

/-- A change of the interests leaves the handles alone. -/
theorem liveHandles_interest {f : FdEntry → FdEntry} (hfd : ∀ x, (f x).fd = x.fd)
    (hevent : ∀ x, (f x).hEvent = x.hEvent) (q : FdEntry → Bool) :
    liveHandles (modifyFirst q f xs) = liveHandles xs := by
  cases hfind : xs.find? q with
  | none => rw [modifyFirst_of_find_none hfind]
  | some x =>
    obtain ⟨l, r, rfl, -, hmod⟩ := exists_split f hfind
    rw [hmod, liveHandles_append, liveHandles_append, liveHandles_cons, liveHandles_cons, hfd,
      hevent]

theorem liveHandles_removeRetired (p : AsyncEventPoller) :
    liveHandles p.removeRetired.fds = liveHandles p.fds := by
  unfold removeRetired
  split
  · simp [liveHandles, List.filter_filter]
  · rfl

/-! ### The log -/

theorem openHandles_append (log l : List Obs) : openHandles (log ++ l) =
    l.foldl (fun hs o => match o with
      | .created h => h :: hs
      | .closed h => hs.erase h
      | _ => hs) (openHandles log) := List.foldl_append

@[simp] theorem createdHandles_append (log l : List Obs) :
    createdHandles (log ++ l) = createdHandles log ++ createdHandles l := by
  simp [createdHandles]

@[simp] theorem closedHandles_append (log l : List Obs) :
    closedHandles (log ++ l) = closedHandles log ++ closedHandles l := by
  simp [closedHandles]

/-- The observations are about no handle. -/
def Quiet (l : List Obs) : Prop := createdHandles l = [] ∧ closedHandles l = []

theorem Quiet.openHandles_append {log l : List Obs} (h : Quiet l) :
    openHandles (log ++ l) = openHandles log := by
  induction l using List.reverseRecOn with
  | nil => rw [List.append_nil]
  | append_singleton l o ih =>
    obtain ⟨hcreated, hclosed⟩ := h
    rw [createdHandles_append, List.append_eq_nil_iff] at hcreated
    rw [closedHandles_append, List.append_eq_nil_iff] at hclosed
    rw [← List.append_assoc, AsyncEventPoller.openHandles_append, ih ⟨hcreated.1, hclosed.1⟩]
    cases o with
    | created h => simp [createdHandles] at hcreated
    | closed h => simp [closedHandles] at hclosed
    | _ => rfl

/-! ### The steps -/

/-- **What the steps do to the entries and the handles**: a call does its part, and other steps at
most take out the retired entries. -/
theorem handles_of_step (hstep : step c e = some c') :
    (∃ k hEvent, e = .call k hEvent ∧ (createsEvent k = true → FreshHandle c hEvent) ∧
      c'.poller.fds = (c.poller.call hEvent k).1.fds ∧
      c'.log = c.log ++ c.poller.handleObs hEvent k) ∨
    ((∀ k hEvent, e ≠ .call k hEvent) ∧
      (c'.poller.fds = c.poller.fds ∨ c'.poller.fds = c.poller.removeRetired.fds) ∧
      ∃ l, c'.log = c.log ++ l ∧ Quiet l) := by
  have hleave : ∀ v, Quiet [.returned v] := fun _ => ⟨rfl, rfl⟩
  have hhandle : ∀ {h ns}, handle c h ns = some c' → ∃ l, c'.log = c.log ++ l ∧ Quiet l := by
    intro h ns hnext
    obtain ⟨err, rfl | ⟨n, rest, x, rfl⟩⟩ := handle_effect hnext
    · exact ⟨_, rfl, hleave 1⟩
    · exact ⟨_, rfl, rfl, rfl⟩
  cases effect_of_step hstep with
  | called hcall hfresh => exact Or.inl ⟨_, _, rfl, hfresh, rfl, rfl⟩
  | ticked => exact Or.inr ⟨by simp, Or.inl rfl, [], by simp, rfl, rfl⟩
  | polled => exact Or.inr ⟨by simp, Or.inl rfl, [], by simp, rfl, rfl⟩
  | waited _ hcall =>
    refine Or.inr ⟨fun k hEvent he => ?_, Or.inl rfl, [], by simp, rfl, rfl⟩
    simp [he, Event.call?] at hcall
  | failed => exact Or.inr ⟨by simp, Or.inl rfl, _, rfl, hleave 0⟩
  | enumerated _ _ hnext =>
    exact Or.inr ⟨by simp, Or.inl (handle_table hnext).1, hhandle hnext⟩
  | resumed _ hnext => exact Or.inr ⟨by simp, Or.inl (handle_table hnext).1, hhandle hnext⟩
  | updated _ hnext =>
    rcases afterUpdate_cases hnext with ⟨-, rfl⟩ | ⟨-, ⟨-, rfl⟩ | ⟨hEvent, -, -, ⟨-, rfl⟩ |
        ⟨k, -, rfl⟩⟩⟩
    · exact Or.inr ⟨by simp, Or.inr rfl, _, rfl, hleave 0⟩
    · exact Or.inr ⟨by simp, Or.inl rfl, _, rfl, hleave 0⟩
    · exact Or.inr ⟨by simp, Or.inl rfl, _, rfl, hleave 0⟩
    · exact Or.inr ⟨by simp, Or.inl rfl, [], by simp, rfl, rfl⟩

/-- What changes no live handle keeps the invariant. -/
theorem HandleInv.keep (h : HandleInv c) {l : List Obs} (hlog : c'.log = c.log ++ l) (hl : Quiet l)
    (hlive : liveHandles c'.poller.fds = liveHandles c.poller.fds)
    (hretired : ∀ x ∈ c'.poller.fds, x.fd = invalidSocket → x.hEvent = wsaInvalidEvent) :
    HandleInv c' := by
  refine ⟨?_, hlive ▸ h.nodup, hlive ▸ h.valid, ?_, hretired⟩
  · rw [hlive, hlog, hl.openHandles_append]
    exact h.conserved
  · rw [hlive, hlog, createdHandles_append, closedHandles_append, hl.1, hl.2, List.append_nil,
      List.append_nil]
    exact h.accounts

/-- A fresh handle is opened for a new live entry. -/
theorem HandleInv.opened (h : HandleInv c) {x : Handle} (hvalid : x ≠ wsaInvalidEvent)
    (hfresh : x ∉ openHandles c.log) (hlog : c'.log = c.log ++ [.created x])
    (hlive : liveHandles c'.poller.fds = liveHandles c.poller.fds ++ [x])
    (hretired : ∀ x ∈ c'.poller.fds, x.fd = invalidSocket → x.hEvent = wsaInvalidEvent) :
    HandleInv c' := by
  have hnew : x ∉ liveHandles c.poller.fds := fun hx => hfresh (h.conserved.mem_iff.mpr hx)
  refine ⟨?_, ?_, ?_, fun z hz => ?_, hretired⟩
  · rw [hlive, hlog, openHandles_append]
    exact (h.conserved.cons x).trans (List.perm_append_singleton x _).symm
  · rw [hlive, ← List.concat_eq_append]
    exact h.nodup.concat hnew
  · rw [hlive, List.mem_append, List.mem_singleton]
    exact not_or.mpr ⟨h.valid, Ne.symm hvalid⟩
  · have hbefore := h.accounts z hz
    rw [hlive, hlog, createdHandles_append, closedHandles_append, List.count_append,
      List.count_append, List.count_append, show closedHandles [.created x] = [] from rfl,
      show createdHandles [.created x] = [x] from rfl, List.count_nil]
    omega

/-- A handle is closed, and its entry no longer live. -/
theorem HandleInv.closed (h : HandleInv c) {x : Handle} (hlog : c'.log = c.log ++ [.closed x])
    (hlive : (liveHandles c.poller.fds).Perm (x :: liveHandles c'.poller.fds))
    (hretired : ∀ x ∈ c'.poller.fds, x.fd = invalidSocket → x.hEvent = wsaInvalidEvent) :
    HandleInv c' := by
  refine ⟨?_, ?_, fun hmem => ?_, fun z hz => ?_, hretired⟩
  · have hperm := (h.conserved.trans hlive).erase x
    rw [List.erase_cons_head] at hperm
    rw [hlog, openHandles_append]
    exact hperm
  · exact (List.nodup_cons.mp (hlive.nodup_iff.mp h.nodup)).2
  · exact h.valid (hlive.mem_iff.mpr (List.mem_cons_of_mem _ hmem))
  · have hbefore := h.accounts z hz
    rw [hlive.count_eq, List.count_cons] at hbefore
    rw [hlog, createdHandles_append, closedHandles_append, List.count_append, List.count_append,
      show closedHandles [.closed x] = [x] from rfl,
      show createdHandles [.closed x] = [] from rfl, List.count_nil, List.count_singleton]
    omega

/-- Closing the invalid handle changes no live one either. -/
theorem HandleInv.closedInvalid (h : HandleInv c)
    (hlog : c'.log = c.log ++ [.closed wsaInvalidEvent])
    (hlive : liveHandles c'.poller.fds = liveHandles c.poller.fds)
    (hretired : ∀ x ∈ c'.poller.fds, x.fd = invalidSocket → x.hEvent = wsaInvalidEvent) :
    HandleInv c' := by
  have hnone : wsaInvalidEvent ∉ openHandles c.log := fun hx =>
    h.valid (h.conserved.mem_iff.mp hx)
  have hopen : openHandles c'.log = (openHandles c.log).erase wsaInvalidEvent := by
    rw [hlog, openHandles_append]
    rfl
  refine ⟨?_, hlive ▸ h.nodup, hlive ▸ h.valid, fun z hz => ?_, hretired⟩
  · rw [hlive, hopen, List.erase_of_not_mem hnone]
    exact h.conserved
  · rw [hlive, hlog, createdHandles_append, closedHandles_append, List.count_append,
      List.count_append, show closedHandles [.closed wsaInvalidEvent] = [wsaInvalidEvent] from rfl,
      show createdHandles [.closed wsaInvalidEvent] = [] from rfl, List.count_nil,
      List.count_singleton, if_neg (by simpa using Ne.symm hz)]
    exact h.accounts z hz

/-- A registration with a fresh handle. -/
theorem HandleInv.addFd (h : HandleInv c) {event : Sink} {hEvent : Option Handle}
    (hfresh : FreshHandle c hEvent) (hfd : fd ≠ invalidSocket)
    (hfds : c'.poller.fds = (c.poller.addFd fd event hEvent).1.fds)
    (hlog : c'.log = c.log ++ c.poller.handleObs hEvent (.addFd fd event)) : HandleInv c' := by
  have hsame : c'.poller.fds = c.poller.fds → c'.log = c.log ++ [] → HandleInv c' := by
    intro hfds hlog
    exact h.keep hlog ⟨rfl, rfl⟩ (congrArg _ hfds) (hfds ▸ h.retired)
  by_cases hfull : c.poller.fds.length ≥ wsaMaximumWaitEvents
  · simp only [AsyncEventPoller.addFd, handleObs, if_pos hfull] at hfds hlog
    exact hsame hfds hlog
  · cases hEvent with
    | none =>
      simp only [AsyncEventPoller.addFd, handleObs, if_neg hfull, Option.toList_none,
        List.map_nil] at hfds hlog
      exact hsame hfds hlog
    | some x =>
      obtain ⟨hvalid, hclosed⟩ := hfresh x rfl
      simp only [AsyncEventPoller.addFd, handleObs, if_neg hfull, Option.toList_some, List.map_cons,
        List.map_nil] at hfds hlog
      refine h.opened hvalid hclosed hlog ?_ fun y hy hyfd => ?_
      · rw [hfds, liveHandles_append]
        simp [liveHandles, AsyncEntry.new, hfd]
      · rw [hfds] at hy
        rcases List.mem_append.mp hy with hy | hy
        · exact h.retired y hy hyfd
        · obtain rfl := List.mem_singleton.mp hy
          exact absurd hyfd hfd

/-- A removal closes the handle of the entry it retires. -/
theorem HandleInv.removeFd (h : HandleInv c)
    (hfds : c'.poller.fds = modifyFirst (fun e => e.fd = fd) retire c.poller.fds)
    (hlog : c'.log = c.log ++
      (c.poller.fds.find? fun e => e.fd = fd).toList.map fun e => .closed e.hEvent) :
    HandleInv c' := by
  have hretired : ∀ x ∈ c'.poller.fds, x.fd = invalidSocket → x.hEvent = wsaInvalidEvent := by
    rw [hfds]
    exact forall_modifyFirst h.retired fun _ _ _ => rfl
  cases hfind : c.poller.fds.find? fun e => e.fd = fd with
  | none =>
    rw [modifyFirst_of_find_none hfind] at hfds
    rw [hfind, Option.toList_none, List.map_nil] at hlog
    exact h.keep hlog ⟨rfl, rfl⟩ (congrArg _ hfds) hretired
  | some x =>
    rw [hfind, Option.toList_some, List.map_cons, List.map_nil] at hlog
    by_cases hfd : fd = invalidSocket
    · -- the entry was retired before, and has no handle
      subst hfd
      have hx : x.hEvent = wsaInvalidEvent :=
        h.retired x (List.mem_of_find?_eq_some hfind) (by simpa using List.find?_some hfind)
      rw [hx] at hlog
      exact h.closedInvalid hlog (by rw [hfds, liveHandles_retire_retired]) hretired
    · have hlive := liveHandles_retire hfind hfd
      rw [← hfds] at hlive
      exact h.closed hlog hlive hretired

/-- A change of the interests. -/
theorem HandleInv.interest (h : HandleInv c) {f : AsyncEntry → AsyncEntry}
    (hf : ∀ x, (f x).fd = x.fd)
    (hfds : c'.poller.fds =
      modifyFirst (fun e => e.fd = fd) (FdEntry.onEntry f) c.poller.fds)
    (hlog : c'.log = c.log ++ []) : HandleInv c' := by
  refine h.keep hlog ⟨rfl, rfl⟩ ?_ ?_
  · rw [hfds, liveHandles_interest (f := FdEntry.onEntry f) (fun x => hf x.toAsyncEntry)
      fun _ => rfl]
  · rw [hfds]
    refine forall_modifyFirst h.retired fun x hx hxfd => ?_
    exact h.retired x (List.mem_of_find?_eq_some hx) ((hf x.toAsyncEntry).symm.trans hxfd)

/-- **Preservation.** -/
theorem HandleInv.step (h : HandleInv c) (hok : AddsSocket e)
    (hstep : AsyncEventPoller.step c e = some c') : HandleInv c' := by
  rcases handles_of_step hstep with ⟨k, hEvent, rfl, hfresh, hfds, hlog⟩ | ⟨-, hfds, l, hlog, hl⟩
  · cases k with
    | addFd fd event => exact h.addFd (hfresh rfl) (hok fd event hEvent rfl) hfds hlog
    | removeFd fd => exact h.removeFd (hfds.trans (updateEntry_fds c.poller fd retire)) hlog
    | setPollIn fd =>
      exact h.interest (f := AsyncEntry.setPollIn) (fun _ => rfl)
        (hfds.trans (updateEntry_fds c.poller fd _)) hlog
    | resetPollIn fd =>
      exact h.interest (f := AsyncEntry.resetPollIn) (fun _ => rfl)
        (hfds.trans (updateEntry_fds c.poller fd _)) hlog
    | setPollOut fd =>
      exact h.interest (f := AsyncEntry.setPollOut) (fun _ => rfl)
        (hfds.trans (updateEntry_fds c.poller fd _)) hlog
    | resetPollOut fd =>
      exact h.interest (f := AsyncEntry.resetPollOut) (fun _ => rfl)
        (hfds.trans (updateEntry_fds c.poller fd _)) hlog
  · refine h.keep hlog hl ?_ fun x hx => ?_
    · rcases hfds with hfds | hfds
      · rw [hfds]
      · rw [hfds, liveHandles_removeRetired]
    · rcases hfds with hfds | hfds
      · exact h.retired x (hfds ▸ hx)
      · rw [hfds] at hx
        unfold removeRetired at hx
        split at hx
        · exact h.retired x (List.mem_of_mem_filter hx)
        · exact h.retired x hx

/-- The invariant holds throughout the runs in which `AddFd` is called with sockets. -/
theorem handleInv_of_runs (hok : EachStep step Config.init es fun _ _ => AddsSocket) :
    Throughout step Config.init es (fun _ c => HandleInv c) :=
  throughout_of_eachStep handleInv_init (fun _ _ _ _ _ _ ih hC hstep => ih.step hC hstep) hok

/-! ### Conservation -/

/-- No handle leaks and none is closed twice: the open handles are those of the live entries, every
handle has been closed as often as it has been created, less once if it is open, and `CleanUp`
makes up for that. -/
structure Conserved (c : Config) : Prop where
  openHandles : (openHandles c.log).Perm (liveHandles c.poller.fds)
  accounts : ∀ h ≠ wsaInvalidEvent, (createdHandles c.log).count h =
    (closedHandles c.log).count h + if h ∈ liveHandles c.poller.fds then 1 else 0
  cleanUp : ∀ h ≠ wsaInvalidEvent, (createdHandles c.log).count h =
    (closedHandles c.log ++ c.poller.cleanUp.2).count h

/-- The valid handles of the entries are those of the live ones. -/
theorem count_map_hEvent (hretired : ∀ x ∈ xs, x.fd = invalidSocket → x.hEvent = wsaInvalidEvent)
    (hh : h ≠ wsaInvalidEvent) : (xs.map FdEntry.hEvent).count h = (liveHandles xs).count h := by
  induction xs with
  | nil => rfl
  | cons x xs ih =>
    rw [List.map_cons, List.count_cons, ih fun y hy => hretired y (List.mem_cons_of_mem x hy),
      liveHandles_cons]
    by_cases hx : x.fd = invalidSocket
    · rw [if_neg (not_not.mpr hx), hretired x List.mem_cons_self hx,
        if_neg (by simpa using Ne.symm hh), Nat.add_zero]
    · rw [if_pos hx, List.count_cons]

theorem HandleInv.toConserved (h : HandleInv c) : Conserved c where
  openHandles := h.conserved
  accounts z hz := by
    rw [h.accounts z hz, h.nodup.count]
  cleanUp z hz := by
    rw [h.accounts z hz, List.count_append]
    exact congrArg _ (count_map_hEvent h.retired hz).symm

/-- **No event object leaks, and none is closed twice**, in any run in which `AddFd` is not called
with `INVALID_SOCKET`. -/
theorem handles_conserved (hok : EachStep step Config.init es fun _ _ => AddsSocket) :
    Throughout step Config.init es (fun _ c => Conserved c) :=
  fun fs t hp ht => (handleInv_of_runs hok fs t hp ht).toConserved

instance : (e : Event) → Decidable (AddsSocket e)
  | .call (.addFd fd event) hEvent => decidable_of_iff (fd ≠ invalidSocket) <| by simp [AddsSocket]
  | .call (.removeFd _) _ | .call (.setPollIn _) _ | .call (.resetPollIn _) _
  | .call (.setPollOut _) _ | .call (.resetPollOut _) _ | .timer _ | .poll | .waitFailed
  | .waitTimeout | .signaled _ | .updated | .enumFailed | .enumerated _ | .callbackReturn =>
    isTrue fun _ _ _ h => nomatch h

/-- The handle of a removed socket is issued again, for a second registration of another one. -/
def reissueHandle : List Event :=
  [.call (.addFd 5 1) (some 8), .call (.addFd 6 2) (some 9), .call (.removeFd 5) none,
    .call (.addFd 6 3) (some 8), .call (.removeFd invalidSocket) none, .poll, .waitTimeout,
    .timer (.updateTimer 0), .timer .round, .updated, .call (.removeFd 6) none]

theorem handles_reissueHandle : ∃ c, runs reissueHandle = some c ∧ Conserved c ∧
    liveHandles c.poller.fds = [8] := by
  have hfacts : (runs reissueHandle).map (fun c => liveHandles c.poller.fds) = some [8] := by
    decide +kernel
  obtain ⟨c, hc, hlive⟩ := Option.map_eq_some_iff.mp hfacts
  have hok : EachStep step Config.init reissueHandle fun _ _ => AddsSocket :=
    eachStep_iff_checkSteps.mpr (by decide +kernel)
  exact ⟨c, hc, handles_conserved hok _ c List.prefix_rfl hc, hlive⟩

end AsyncEventPoller

end WinsockTut
