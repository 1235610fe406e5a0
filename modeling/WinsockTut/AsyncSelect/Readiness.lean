import WinsockTut.AsyncSelect.Machine
import WinsockTut.Poller.Dated

/-!
# The registrations that the poller based on `WSAAsyncSelect` serves

A `WM_SOCKET` message names its socket by its value, and `RemoveFd` does not take the messages that
have been posted out of the queue.  If the value is used again before such a message is handled,
`FindEntry` finds the new registration.

The history tells when the registrations were made and when the messages were posted.
`ownReadiness_of_runs` says that a callback only goes to a registration made before its message was
posted, unless a socket is registered while a message for its value is queued.
-/

namespace WinsockTut

/-- `HandleEvent` makes a callback for the message if it finds an entry of the socket `fd`, or the
entry after `RemoveFd` has retired it. -/
def Message.For (fd : Socket) : Message → Prop
  | .socket fd' ev _ =>
    (fd' = fd ∨ fd' = invalidSocket) ∧ (AsyncSelectPoller.eventDirection ev).isSome = true
  | .other => False

namespace AsyncSelectPoller

open Runs

/-! ### The history -/

/-- The history of a run. -/
structure History where
  /-- The number of steps. -/
  now : ℕ
  /-- The registrations, one for each entry. -/
  regs : List Dated
  /-- The queued messages, and when they were posted. -/
  posted : List (Message × ℕ)
  /-- The callbacks made. -/
  served : List Served
  deriving DecidableEq, Repr

/-- The history before the first step. -/
def History.init : History := ⟨0, [], [], []⟩

/-- The callback that the message `m` has led to, if control is in one. -/
def History.serve (h : History) (p : AsyncSelectPoller) (ctl : Control) : List Served :=
  match ctl, h.posted with
  | .callback _, (.socket fd _ _, t) :: _ =>
    [{ made := (p.findEntry fd).bind (Dated.madeAt h.regs), recorded := some t }]
  | _, _ => []

/-- One more step. -/
def History.tick (h : History) : History := { h with now := h.now + 1 }

/-- The history after a step. -/
def note (c : Config) (e : Event) (d : Config) (h : History) : History :=
  match e with
  | .call k => { h with regs := (c.poller.performed k).foldl (Dated.apply h.now) h.regs }.tick
  | .post m => { h with posted := h.posted ++ [(m, h.now)] }.tick
  | .peek =>
    { h with posted := h.posted.tail, served := h.served ++ h.serve c.poller d.ctl }.tick
  | .finish => { h with regs := c.poller.compaction.foldl (Dated.apply h.now) h.regs }.tick
  | .timer _ | .poll | .callbackReturn => h.tick

/-- All callbacks of a run went to registrations made before the message was posted. -/
def OwnReadiness (es : List Event) : Prop :=
  ∃ h, history step note Config.init History.init es = some h ∧ ∀ x ∈ h.served, x.Own

/-- The step does not register a socket while a message for it is queued. -/
def NoReuse (c : Config) : Event → Prop
  | .call (.addFd fd event) => (c.poller.addFd fd event).2 = 0 → ∀ m ∈ c.queue, ¬ m.For fd
  | _ => True

variable {p : AsyncSelectPoller} {c c' : Config} {e : Event} {es : List Event} {h : History}
  {fd : Socket}

/-! ### The entries and their sockets -/

theorem map_fd_foldl (l : List Op) (xs : List AsyncEntry) :
    (l.foldl (AsyncEntry.apply retire) xs).map AsyncEntry.fd =
      l.foldl Op.sockets (xs.map AsyncEntry.fd) :=
  (List.foldl_hom (List.map AsyncEntry.fd) fun xs op =>
    (AsyncEntry.map_fd_apply (fun _ => rfl) xs op).symm).symm

/-- A message that leads to a callback is one for the socket of the entry found. -/
theorem of_handleEvent {ev : BitVec 32} {ec : ℤ} {entry : AsyncEntry} {d : Direction}
    (h : (p.handleEvent fd ev ec).2 = some (entry, d)) :
    ∃ i, p.findEntry fd = some i ∧ p.fds[i]? = some entry ∧
      Message.For entry.fd (.socket fd ev ec) := by
  simp only [handleEvent, Option.bind_eq_bind, Option.bind_eq_some_iff,
    Option.ite_none_right_eq_some, Option.some.injEq, Prod.mk.injEq] at h
  obtain ⟨i, hi, x, hx, d', hd', -, rfl, rfl⟩ := h
  refine ⟨i, hi, hx, Or.inl ?_, hd' ▸ rfl⟩
  obtain ⟨hlt, hfd, -⟩ := List.findIdx?_eq_some_iff_getElem.mp hi
  obtain ⟨-, rfl⟩ := List.getElem?_eq_some_iff.mp hx
  exact (of_decide_eq_true hfd).symm

/-! ### The runs in which no socket with a message is registered -/

/-- The invariant: a queued message was posted after the registrations it can lead to a callback
of. -/
structure ReadyInv (c : Config) (h : History) : Prop where
  /-- The history follows the entries and the queue. -/
  sockets : h.regs.map Dated.fd = c.poller.fds.map AsyncEntry.fd
  queue : h.posted.map Prod.fst = c.queue
  past : ∀ r ∈ h.regs, r.made < h.now
  pending : ∀ m ∈ h.posted, ∀ r ∈ h.regs, m.1.For r.fd → r.made < m.2
  own : ∀ x ∈ h.served, x.Own

theorem readyInv_init : ReadyInv Config.init History.init where
  sockets := rfl
  queue := rfl
  past := fun _ hr => absurd hr List.not_mem_nil
  pending := fun _ hm => absurd hm List.not_mem_nil
  own := fun _ hx => absurd hx List.not_mem_nil

theorem ReadyInv.past_succ (hinv : ReadyInv c h) : ∀ r ∈ h.regs, r.made < h.now + 1 :=
  fun r hr => Nat.lt_succ_of_lt (hinv.past r hr)

/-- The invariant after a step that leaves the entries and the queue alone. -/
theorem ReadyInv.tick (hinv : ReadyInv c h) (hp : c'.poller.fds = c.poller.fds)
    (hqueue : c'.queue = c.queue) : ReadyInv c' h.tick where
  sockets := hp ▸ hinv.sockets
  queue := hqueue ▸ hinv.queue
  past := hinv.past_succ
  pending := hinv.pending
  own := hinv.own

/-- The invariant after some operations on the entries, in which no socket with a message is
registered. -/
theorem ReadyInv.replay (hinv : ReadyInv c h) {l : List Op}
    (hp : c'.poller.fds = l.foldl (AsyncEntry.apply retire) c.poller.fds)
    (hqueue : c'.queue = c.queue)
    (hnew : ∀ fd event, .added fd event ∈ l → ∀ m ∈ c.queue, ¬ m.For fd) :
    ReadyInv c' { h with regs := l.foldl (Dated.apply h.now) h.regs }.tick where
  sockets := by
    rw [hp, map_fd_foldl, ← hinv.sockets]
    exact Dated.map_fd_foldl h.now h.regs l
  queue := hqueue ▸ hinv.queue
  past := Dated.forall_foldl hinv.past_succ (fun _ hr => hr) fun _ _ _ => Nat.lt_succ_self h.now
  pending m hm := by
    refine Dated.forall_foldl (P := fun r => m.1.For r.fd → r.made < m.2) (hinv.pending m hm) ?_ ?_
    · -- a message that is for the retired registration was for it before
      intro r hr hfor
      refine hr ?_
      cases hm : m.1 with
      | socket fd ev ec =>
        rw [hm] at hfor
        exact ⟨Or.inr (hfor.1.elim id id), hfor.2⟩
      | other => exact (hm ▸ hfor : Message.For _ .other).elim
    · intro fd event hl hfor
      exact absurd hfor (hnew fd event hl m.1 (hinv.queue ▸ List.mem_map_of_mem hm))
  own := hinv.own

/-- The invariant after the message at the head of the queue has been taken out. -/
theorem ReadyInv.peek (hinv : ReadyInv c h) {served : List Served}
    (hp : c'.poller.fds = c.poller.fds) (hqueue : c'.queue = c.queue.tail)
    (hserved : ∀ x ∈ served, x.Own) :
    ReadyInv c' { h with posted := h.posted.tail, served := h.served ++ served }.tick where
  sockets := hp ▸ hinv.sockets
  queue := by
    rw [hqueue, ← hinv.queue]
    exact List.map_tail
  past := hinv.past_succ
  pending m hm := hinv.pending m (List.mem_of_mem_tail hm)
  own x hx := (List.mem_append.mp hx).elim (hinv.own x) (hserved x)

/-- **Preservation.** -/
theorem ReadyInv.step (hinv : ReadyInv c h) (hok : NoReuse c e)
    (hstep : AsyncSelectPoller.step c e = some c') : ReadyInv c' (note c e c' h) := by
  cases effect_of_step hstep with
  | @called k =>
    refine hinv.replay (call_fds c.poller k).2 rfl fun fd event hl => ?_
    obtain ⟨rfl, hzero⟩ := Call.of_added_mem hl
    exact hok hzero
  | ticked => exact hinv.tick rfl rfl
  | @posted m =>
    refine ⟨hinv.sockets, ?_, hinv.past_succ, fun m' hm' r hr hfor => ?_, hinv.own⟩
    · rw [← hinv.queue]
      exact List.map_append
    · rcases List.mem_append.mp hm' with hm' | hm'
      · exact hinv.pending m' hm' r hr hfor
      · obtain rfl := List.mem_singleton.mp hm'
        exact hinv.past r hr
  | polled => exact hinv.tick rfl rfl
  | drained _ hqueue =>
    exact hinv.peek rfl (by rw [hqueue]; rfl) fun _ hx => absurd hx List.not_mem_nil
  | skipped hctl hqueue =>
    refine hinv.peek rfl (by rw [hqueue]; rfl) fun _ hx => ?_
    simp [History.serve, hctl] at hx
  | ignored _ hqueue =>
    exact hinv.peek rfl (by rw [hqueue]; rfl) fun _ hx => absurd hx List.not_mem_nil
  | @handled count fd ev ec queue entry d _ hqueue hsome =>
    refine hinv.peek rfl (by rw [hqueue]; rfl) fun x hx => ?_
    obtain ⟨i, hfind, hentry, hfor⟩ := of_handleEvent hsome
    obtain ⟨⟨m, t⟩, posted, hposted, rfl, -⟩ := List.map_eq_cons_iff.mp (hinv.queue.trans hqueue)
    obtain ⟨r, hr, hfd⟩ := Dated.exists_of_map_eq hinv.sockets hentry
    obtain rfl : x = ⟨some r.made, some t⟩ := by
      simpa [History.serve, hposted, hfind, Dated.madeAt, hr] using hx
    have hmem : (.socket fd ev ec, t) ∈ h.posted := hposted ▸ List.mem_cons_self
    exact ⟨r.made, rfl, t, rfl,
      hinv.pending _ hmem r (List.mem_of_getElem? hr) (hfd.symm ▸ hfor)⟩
  | resumed => exact hinv.tick rfl rfl
  | finished =>
    exact hinv.replay (removeRetired_fds c.poller).2 rfl
      fun _ _ hl => absurd hl Op.added_notMem_compaction

/-- **The poller serves the registrations that were ready**, if no socket is registered while a
message for it is queued. -/
theorem ownReadiness_of_runs (hok : EachStep step Config.init es fun _ => NoReuse) :
    Throughout step Config.init es fun fs _ => OwnReadiness fs :=
  throughout_history readyInv_init (fun _ _ _ _ hinv hok hs => hinv.step hok hs)
    (fun _ _ hinv => hinv.own) hok

/-! ### A socket value that is used again -/

instance (fd : Socket) : (m : Message) → Decidable (m.For fd)
  | .socket fd' ev _ => inferInstanceAs
      (Decidable ((fd' = fd ∨ fd' = invalidSocket) ∧ (eventDirection ev).isSome = true))
  | .other => isFalse id

instance (c : Config) : (e : Event) → Decidable (NoReuse c e)
  | .call (.addFd fd event) =>
    inferInstanceAs (Decidable ((c.poller.addFd fd event).2 = 0 → ∀ m ∈ c.queue, ¬ m.For fd))
  | .call (.removeFd _) | .call (.setPollIn _) | .call (.resetPollIn _) | .call (.setPollOut _)
  | .call (.resetPollOut _) | .timer _ | .post _ | .poll | .peek | .callbackReturn | .finish =>
    isTrue trivial

/-- Two messages are posted for the socket 5, and the callback of the first replaces it by a new
socket of the value `fd`. -/
def replacePosted (fd : Socket) : List Event :=
  [.call (.addFd 5 1), .call (.setPollIn 5), .post (.socket 5 fdRead 0),
    .post (.socket 5 fdClose 0), .poll, .peek, .call (.removeFd 5), .call (.addFd fd 2),
    .callbackReturn, .peek]

/-- If the value is the same, the new registration is told that the old socket was closed. -/
theorem replacePosted_same : (runs (replacePosted 5)).map (fun c => (c.ctl, c.log)) =
      some (.callback 1, [.called ⟨5, 41, 1, some 1⟩ .read, .called ⟨5, 0, 0, some 2⟩ .read]) ∧
    (history step note Config.init History.init (replacePosted 5)).map History.served =
      some [⟨some 0, some 2⟩, ⟨some 7, some 3⟩] := by
  decide +kernel

end AsyncSelectPoller

end WinsockTut
