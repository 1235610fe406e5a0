import WinsockTut.AsyncEvent.Machine
import WinsockTut.AsyncSelect.Machine
import WinsockTut.Poller.Registered
import WinsockTut.Select.Capacity

/-!
# The three pollers agree

`SelectPoller` keeps the interests in two socket sets, the asynchronous pollers in the masks of
their entries.  Each of them is shown to follow the list of registered sockets of
`Registration.act`, however its table is compacted in between; so the same calls leave the three
with the same sockets and the same interests (`pollers_agree`).
-/

namespace WinsockTut

open FirstMatch Runs Registration

/-- The three pollers. -/
structure Pollers where
  select : SelectPoller
  asyncSelect : AsyncSelectPoller
  asyncEvent : AsyncEventPoller

/-- A call of all three pollers, or `RemoveRetired` in one of them. -/
inductive Action
  /-- The call; if it is `AddFd`, `WSACreateEvent` returns `hEvent`. -/
  | call (k : Call) (hEvent : Option Handle)
  | compactSelect
  | compactAsyncSelect
  | compactAsyncEvent
  deriving DecidableEq, Repr

/-- What an action does to the registered sockets. -/
def Action.op : Action → Op
  | .call k _ => k.op
  | .compactSelect | .compactAsyncSelect | .compactAsyncEvent => .compacted

/-- `readfds_` and `writefds_`. -/
def SelectPoller.interests (p : SelectPoller) : Direction → FdSet
  | .read => p.readfds
  | .write => p.writefds

/-- The entry that `FindEntry` returns has the bit of the interest. -/
def AsyncSelectPoller.interested (p : AsyncSelectPoller) (d : Direction) (fd : Socket) : Bool :=
  ((p.findEntry fd).bind (p.fds[·]?)).any fun e => hasBits e.mask d.bit

/-- The entry that `FindEntry` returns has the bit of the interest. -/
def AsyncEventPoller.interested (p : AsyncEventPoller) (d : Direction) (fd : Socket) : Bool :=
  ((p.findEntry fd).bind (p.fds[·]?)).any fun e => hasBits e.mask d.bit

namespace Pollers

variable {s s' : Pollers} {a : Action} {as : List Action} {rs : List Registration}

/-- The state after the three constructors. -/
def init : Pollers := ⟨SelectPoller.init, AsyncSelectPoller.init, AsyncEventPoller.init⟩

/-- One action. -/
def perform (s : Pollers) : Action → Pollers
  | .call k hEvent =>
    { select := s.select.call k
      asyncSelect := (s.asyncSelect.call k).1
      asyncEvent := (s.asyncEvent.call hEvent k).1 }
  | .compactSelect => { s with select := s.select.removeRetired }
  | .compactAsyncSelect => { s with asyncSelect := s.asyncSelect.removeRetired }
  | .compactAsyncEvent => { s with asyncEvent := s.asyncEvent.removeRetired }

/-- One action, as a step that is always possible. -/
def step (s : Pollers) (a : Action) : Option Pollers := some (s.perform a)

/-- A socket is added or removed, `AddFd` is not refused by any of the pollers, and the interests
are changed for registered sockets only. -/
def Allowed (s : Pollers) : Action → Prop
  | .call (.addFd fd event) hEvent => fd ≠ invalidSocket ∧ (s.select.addFd fd event).2 = 0 ∧
      (s.asyncSelect.addFd fd event).2 = 0 ∧ (s.asyncEvent.addFd fd event hEvent).2 = 0
  | .call (.removeFd fd) _ => fd ≠ invalidSocket
  | .call (.setPollIn fd) _ | .call (.resetPollIn fd) _ | .call (.setPollOut fd) _
  | .call (.resetPollOut fd) _ => fd ∈ SelectPoller.liveFds s.select.fds
  | _ => True

/-- The pollers have the same sockets and the same interests. -/
structure Agree (s : Pollers) : Prop where
  live : ∀ fd, (fd ∈ SelectPoller.liveFds s.select.fds ↔
      ∃ x ∈ s.asyncSelect.fds, x.Live ∧ x.fd = fd) ∧
    (fd ∈ SelectPoller.liveFds s.select.fds ↔ ∃ x ∈ s.asyncEvent.fds, x.Live ∧ x.fd = fd)
  interests : ∀ fd ≠ invalidSocket, ∀ d,
    (fd ∈ s.select.interests d ↔ s.asyncSelect.interested d fd = true) ∧
      (fd ∈ s.select.interests d ↔ s.asyncEvent.interested d fd = true)

/-! ### The asynchronous pollers -/

/-- The entries are those of the registered sockets, with their interests. -/
def Shows (rs : List Registration) (es : List AsyncEntry) : Prop :=
  Registration.live (es.map AsyncEntry.view) = rs

theorem Shows.apply {es : List AsyncEntry} {op : Op} {retire : AsyncEntry → AsyncEntry}
    {forget : Bool} (h : Shows rs es) (hretire : ∀ e, (retire e).view = e.view.retire forget)
    (hop : op.Valid) : Shows (Registration.act rs op) (AsyncEntry.apply retire es op) := by
  rw [Shows, AsyncEntry.map_view_apply hretire, live_apply forget _ hop,
    show Registration.live (es.map AsyncEntry.view) = rs from h]

/-- A compaction leaves the live entries alone. -/
theorem Shows.compacted {es : List AsyncEntry} {l : List Op} {retire : AsyncEntry → AsyncEntry}
    {forget : Bool} (h : Shows rs es) (hretire : ∀ e, (retire e).view = e.view.retire forget)
    (hl : Performs none l) : Shows rs (l.foldl (AsyncEntry.apply retire) es) := by
  rcases hl with rfl | rfl
  · exact h
  · exact h.apply hretire (show Op.compacted.Valid from trivial)

theorem Shows.mem_iff {es : List AsyncEntry} (h : Shows rs es) (fd : Socket) :
    fd ∈ rs.map Registration.fd ↔ ∃ x ∈ es, x.Live ∧ x.fd = fd := by
  rw [← show Registration.live (es.map AsyncEntry.view) = rs from h]
  simp [Registration.live, AsyncEntry.Live, AsyncEntry.view, and_assoc]

/-- The mask of the first entry of a socket shows what is wanted. -/
theorem Shows.wanted {es : List AsyncEntry} (h : Shows rs es) (d : Direction) {fd : Socket}
    (hfd : fd ≠ invalidSocket) : (es.find? fun e => e.fd = fd).any (fun e => hasBits e.mask d.bit) =
      wanted rs d fd := by
  rw [← show Registration.live (es.map AsyncEntry.view) = rs from h, wanted_live _ d hfd,
    Registration.wanted, AsyncEntry.find?_view, Option.any_map]
  congr 1
  funext e
  exact (e.view_wants d).symm

theorem interested_asyncSelect {p : AsyncSelectPoller} (h : Shows rs p.fds) (d : Direction)
    {fd : Socket} (hfd : fd ≠ invalidSocket) : p.interested d fd = wanted rs d fd := by
  rw [← h.wanted d hfd, List.find?_eq_bind_findIdx?_getElem?]
  rfl

theorem interested_asyncEvent {p : AsyncEventPoller}
    (h : Shows rs (p.fds.map AsyncEventPoller.FdEntry.toAsyncEntry)) (d : Direction) {fd : Socket}
    (hfd : fd ≠ invalidSocket) : p.interested d fd = wanted rs d fd := by
  rw [← h.wanted d hfd, List.find?_map, Option.any_map, List.find?_eq_bind_findIdx?_getElem?]
  rfl

/-! ### The select poller -/

/-- The entries are those of the registered sockets, and the sets hold the sockets with an
interest. -/
structure Follows (rs : List Registration) (p : SelectPoller) : Prop where
  fds : SelectPoller.liveFds p.fds = rs.map Registration.fd
  nodup : ∀ d, (p.interests d).Nodup
  interests : ∀ d fd, fd ∈ p.interests d ↔ wanted rs d fd = true
  size : p.fds.length ≤ fdSetSize

section

variable {p p' : SelectPoller} {d : Direction} {fd : Socket}

/-- The sets have room for a registered socket. -/
theorem Follows.mem_fdSet (h : Follows rs p) (d : Direction) {x : Socket}
    (hreg : fd ∈ rs.map Registration.fd) :
    x ∈ fdSet fd (p.interests d) ↔ x ∈ p.interests d ∨ x = fd := by
  rw [WinsockTut.mem_fdSet]
  by_cases hmem : fd ∈ p.interests d
  · exact ⟨fun hx => hx.imp_right And.left, fun hx => Or.inl (hx.elim id fun hx => hx ▸ hmem)⟩
  · have hsub : fd :: p.interests d ⊆ SelectPoller.liveFds p.fds := by
      rw [h.fds]
      refine List.cons_subset.mpr ⟨hreg, fun y hy => ?_⟩
      exact mem_of_wanted ((h.interests d y).mp hy)
    have hlen := SelectPoller.length_le_of_within ⟨List.nodup_cons.mpr ⟨hmem, h.nodup d⟩, hsub⟩
    have hroom : (p.interests d).length < fdSetSize :=
      (Nat.lt_of_succ_le hlen).trans_le ((SelectPoller.length_liveFds_le p.fds).trans h.size)
    simp [hroom]

/-- An interest of a registered socket is turned on or off. -/
theorem Follows.interest (h : Follows rs p) (on : Bool) (hreg : fd ∈ rs.map Registration.fd)
    (hfds : p'.fds = p.fds)
    (hd : p'.interests d = if on then fdSet fd (p.interests d) else fdClr fd (p.interests d))
    (hother : p'.interests d.other = p.interests d.other) :
    Follows (Registration.act rs (.interest d on fd)) p' := by
  obtain ⟨r, hr, hrfd⟩ := List.mem_map.mp hreg
  have hsame : ∀ d', d' ≠ d → p'.interests d' = p.interests d' := by
    intro d' hne
    obtain rfl : d' = d.other := by cases d <;> cases d' <;> simp_all [Direction.other]
    exact hother
  have hmem : ∀ x, x ∈ p'.interests d ↔ if x = fd then on = true else x ∈ p.interests d := by
    intro x
    rw [hd]
    cases on with
    | true =>
      rw [if_pos rfl, h.mem_fdSet d hreg]
      by_cases hx : x = fd <;> simp [hx]
    | false =>
      rw [if_neg Bool.false_ne_true, mem_fdClr (h.nodup d)]
      by_cases hx : x = fd <;> simp [hx]
  refine ⟨by rw [hfds, map_fd_act]; exact h.fds, fun d' => ?_, fun d' x => ?_, hfds ▸ h.size⟩
  · by_cases hdd : d' = d
    · rw [hdd, hd]
      cases on with
      | true => exact nodup_fdSet (h.nodup d) fd
      | false => exact nodup_fdClr (h.nodup d) fd
    · exact hsame d' hdd ▸ h.nodup d'
  · rw [wanted_interest ⟨r, hr, hrfd⟩]
    by_cases hdd : d' = d
    · rw [hdd, hmem]
      by_cases hx : x = fd
      · simp [hx]
      · simp [hx, h.interests]
    · rw [hsame d' hdd, h.interests, if_neg fun hx => hdd hx.2.symm]

theorem Follows.added (h : Follows rs p) {event : Sink} (hfd : fd ≠ invalidSocket)
    (hok : (p.addFd fd event).2 = 0) :
    Follows (Registration.act rs (.added fd event)) (p.addFd fd event).1 := by
  unfold SelectPoller.addFd at hok ⊢
  split at hok
  · cases hok
  · next hfull =>
    rw [if_neg hfull]
    refine ⟨?_, fun d => ?_, fun d x => ?_, ?_⟩
    · rw [map_fd_act, ← h.fds]
      simp [SelectPoller.liveFds, hfd]
    · cases d with
      | read => exact h.nodup .read
      | write => exact h.nodup .write
    · rw [wanted_added]
      cases d with
      | read => exact h.interests .read x
      | write => exact h.interests .write x
    · simpa using Nat.succ_le_of_lt (not_le.mp hfull)

/-- `RemoveFd` takes the socket out of both sets, even if it is registered again. -/
theorem Follows.removed (h : Follows rs p) (hfirst : FirstWants rs) (fd : Socket) :
    Follows (Registration.act rs (.removed fd)) (p.removeFd fd) := by
  have hset : ∀ d, (p.removeFd fd).interests d = fdClr fd (p.interests d) := by
    intro d
    cases d <;> rfl
  refine ⟨?_, fun d => ?_, fun d x => ?_, ?_⟩
  · rw [map_fd_act, ← h.fds]
    exact SelectPoller.liveFds_retireFirst fd p.fds
  · rw [hset]
    exact nodup_fdClr (h.nodup d) fd
  · rw [hset, mem_fdClr (h.nodup d), wanted_removed hfirst, h.interests]
    by_cases hx : x = fd <;> simp [hx]
  · exact (SelectPoller.length_retireFirst fd p.fds).trans_le h.size

theorem Follows.removeRetired (h : Follows rs p) : Follows rs p.removeRetired := by
  have hset : ∀ d, p.removeRetired.interests d = p.interests d := by
    intro d
    unfold SelectPoller.removeRetired
    cases d <;> split <;> rfl
  refine ⟨?_, fun d => hset d ▸ h.nodup d, fun d x => ?_,
    (SelectPoller.length_removeRetired_le p).trans h.size⟩
  · rw [SelectPoller.liveFds_removeRetired, h.fds]
  · rw [hset, h.interests]

end

/-! ### All three -/

/-- The registered sockets after the actions. -/
def registeredBy (as : List Action) : List Registration :=
  (as.map Action.op).foldl Registration.act []

/-- Each poller follows the list of the registered sockets. -/
structure Refines (rs : List Registration) (s : Pollers) : Prop where
  firstWants : FirstWants rs
  select : Follows rs s.select
  asyncSelect : Shows rs s.asyncSelect.fds
  asyncEvent : Shows rs (s.asyncEvent.fds.map AsyncEventPoller.FdEntry.toAsyncEntry)

theorem refines_init : Refines [] init where
  firstWants := List.Pairwise.nil
  select :=
    { fds := rfl
      nodup := fun d => by cases d <;> exact List.nodup_nil
      interests := fun d fd => by cases d <;> simp [SelectPoller.interests, init, SelectPoller.init,
        wanted]
      size := Nat.zero_le _ }
  asyncSelect := rfl
  asyncEvent := rfl

/-- The operations of the calls that are allowed are about sockets, and none is refused. -/
theorem Allowed.accepted {k : Call} {hEvent : Option Handle} (h : Allowed s (.call k hEvent)) :
    k.op.Valid ∧ (s.asyncSelect.call k).2 = 0 ∧ (s.asyncEvent.call hEvent k).2 = 0 := by
  have hlive : ∀ fd, fd ∈ SelectPoller.liveFds s.select.fds → fd ≠ invalidSocket := fun fd hfd =>
    (SelectPoller.mem_liveFds.mp hfd).1
  cases k with
  | addFd fd event => exact ⟨h.1, h.2.2⟩
  | removeFd fd => exact ⟨h, rfl, rfl⟩
  | setPollIn fd => exact ⟨hlive fd h, rfl, rfl⟩
  | resetPollIn fd => exact ⟨hlive fd h, rfl, rfl⟩
  | setPollOut fd => exact ⟨hlive fd h, rfl, rfl⟩
  | resetPollOut fd => exact ⟨hlive fd h, rfl, rfl⟩

/-- **The calls and the compactions keep the pollers in step with the list.** -/
theorem Refines.perform (h : Refines rs s) (hok : Allowed s a) :
    Refines (Registration.act rs a.op) (s.perform a) := by
  cases a with
  | call k hEvent =>
    obtain ⟨hvalid, hselect, hevent⟩ := hok.accepted
    refine ⟨firstWants_act h.firstWants k.op, ?_, ?_, ?_⟩
    · have hreg : ∀ {fd}, fd ∈ SelectPoller.liveFds s.select.fds → fd ∈ rs.map Registration.fd :=
        fun hfd => h.select.fds ▸ hfd
      cases k with
      | addFd fd event => exact h.select.added hok.1 hok.2.1
      | removeFd fd => exact h.select.removed h.firstWants fd
      | setPollIn fd => exact h.select.interest true (hreg hok) rfl rfl rfl
      | resetPollIn fd => exact h.select.interest false (hreg hok) rfl rfl rfl
      | setPollOut fd => exact h.select.interest true (hreg hok) rfl rfl rfl
      | resetPollOut fd => exact h.select.interest false (hreg hok) rfl rfl rfl
    · have hfds := (AsyncSelectPoller.call_fds s.asyncSelect k).2
      rw [AsyncSelectPoller.performed, if_pos hselect] at hfds
      exact hfds.symm ▸ h.asyncSelect.apply AsyncSelectPoller.view_retire hvalid
    · have hfds := (AsyncEventPoller.call_entries s.asyncEvent hEvent k).2
      rw [AsyncEventPoller.performed, if_pos hevent] at hfds
      exact hfds.symm ▸ h.asyncEvent.apply AsyncEventPoller.view_retireEntry hvalid
  | compactSelect => exact ⟨h.firstWants, h.select.removeRetired, h.asyncSelect, h.asyncEvent⟩
  | compactAsyncSelect =>
    obtain ⟨hcompaction, hfds⟩ := AsyncSelectPoller.removeRetired_fds s.asyncSelect
    have hshows := h.asyncSelect.compacted AsyncSelectPoller.view_retire hcompaction
    rw [← hfds] at hshows
    exact ⟨h.firstWants, h.select, hshows, h.asyncEvent⟩
  | compactAsyncEvent =>
    obtain ⟨hcompaction, hfds⟩ := AsyncEventPoller.removeRetired_entries s.asyncEvent
    have hshows := h.asyncEvent.compacted AsyncEventPoller.view_retireEntry hcompaction
    rw [← hfds] at hshows
    exact ⟨h.firstWants, h.select, h.asyncSelect, hshows⟩

/-- Pollers that follow the same list agree. -/
theorem Refines.agree (h : Refines rs s) : Agree s where
  live fd := by
    rw [h.select.fds]
    refine ⟨h.asyncSelect.mem_iff fd, (h.asyncEvent.mem_iff fd).trans ?_⟩
    simp only [List.mem_map, exists_exists_and_eq_and]
  interests fd hfd d := by
    rw [h.select.interests, interested_asyncSelect h.asyncSelect d hfd,
      interested_asyncEvent h.asyncEvent d hfd]
    exact ⟨Iff.rfl, Iff.rfl⟩

/-- Whatever the calls and wherever the compactions, the pollers follow the list of the registered
sockets. -/
theorem refines_of_runs (hok : EachStep step init as fun _ => Allowed) :
    Throughout step init as fun as s => Refines (registeredBy as) s := by
  refine throughout_of_eachStep refines_init (fun as a s s' _ _ ih hok hstep => ?_) hok
  obtain rfl := Option.some.inj hstep
  rw [registeredBy, List.map_append, List.foldl_append]
  exact ih.perform hok

/-- **The three pollers agree** after any sequence of calls, with compactions at any and different
points. -/
theorem pollers_agree (hok : EachStep step init as fun _ => Allowed) :
    Throughout step init as fun _ s => Agree s :=
  fun as s hp hs => (refines_of_runs hok as s hp hs).agree

instance (s : Pollers) : (a : Action) → Decidable (Allowed s a)
  | .call (.addFd fd event) hEvent => inferInstanceAs (Decidable (fd ≠ invalidSocket ∧
      (s.select.addFd fd event).2 = 0 ∧ (s.asyncSelect.addFd fd event).2 = 0 ∧
      (s.asyncEvent.addFd fd event hEvent).2 = 0))
  | .call (.removeFd fd) _ => inferInstanceAs (Decidable (fd ≠ invalidSocket))
  | .call (.setPollIn fd) _ | .call (.resetPollIn fd) _ | .call (.setPollOut fd) _
  | .call (.resetPollOut fd) _ =>
    inferInstanceAs (Decidable (fd ∈ SelectPoller.liveFds s.select.fds))
  | .compactSelect | .compactAsyncSelect | .compactAsyncEvent => isTrue trivial

/-- A socket is registered twice, and removed once. -/
def registerTwice : List Action :=
  [.call (.addFd 5 1) (some 8), .call (.setPollIn 5) none, .call (.addFd 5 2) (some 9),
    .call (.removeFd 5) none, .compactAsyncEvent, .call (.setPollOut 5) none, .compactSelect]

theorem pollers_agree_registerTwice : ∃ s, run step init registerTwice = some s ∧ Agree s ∧
    s.select.interests .read = [] ∧ s.select.interests .write = [5] := by
  have hrun : (run step init registerTwice).map (fun s =>
      (s.select.interests .read, s.select.interests .write)) = some ([], [5]) := by
    decide +kernel
  obtain ⟨s, hs, hsets⟩ := Option.map_eq_some_iff.mp hrun
  have hok : EachStep step init registerTwice fun _ => Allowed :=
    eachStep_iff_checkSteps.mpr (by decide +kernel)
  exact ⟨s, hs, pollers_agree hok _ s List.prefix_rfl hs, Prod.mk.inj hsets⟩

end Pollers

end WinsockTut
