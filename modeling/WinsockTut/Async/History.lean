import WinsockTut.Async.Entry
import WinsockTut.Foundation.Runs

/-!
# The interests that the calls ask for

`Op` is what a call does to the table of an asynchronous poller, and `registrations` replays a
history of such operations on a table that knows nothing of event sets and masks: a registration is
a socket with two interests.  `Tracks` says that a machine keeps its entries in step with its
history; both pollers do, and then the masks of the entries are the interests of the registrations
(`Tracks.map_view`).

`Tracks.subscribed_iff` says when the event sets are the required ones: `ResetPollIn` and
`ResetPollOut` also drop `FD_CLOSE`, which the other interest may still need.
-/

namespace WinsockTut

open Runs FirstMatch

/-- An operation on the table of an asynchronous poller. -/
inductive Op
  /-- `AddFd` has registered a socket. -/
  | added (fd : Socket) (event : Sink)
  /-- `RemoveFd` was called. -/
  | removed (fd : Socket)
  /-- An interest was turned on or off. -/
  | interest (d : Direction) (on : Bool) (fd : Socket)
  /-- The retired entries were taken out. -/
  | compacted
  deriving DecidableEq, Repr

/-- The operation a call performs, unless it is refused. -/
def Call.op : Call → Op
  | .addFd fd event => .added fd event
  | .removeFd fd => .removed fd
  | .setPollIn fd => .interest .read true fd
  | .resetPollIn fd => .interest .read false fd
  | .setPollOut fd => .interest .write true fd
  | .resetPollOut fd => .interest .write false fd

/-! ### Registrations -/

/-- A registered socket with its interests, or a retired one. -/
structure Registration where
  fd : Socket
  reads : Bool
  writes : Bool
  deriving DecidableEq, Repr

namespace Registration

/-- Whether an interest is on. -/
def wants (r : Registration) : Direction → Bool
  | .read => r.reads
  | .write => r.writes

/-- Turn an interest on or off. -/
def setInterest (d : Direction) (on : Bool) (r : Registration) : Registration :=
  match d with
  | .read => { r with reads := on }
  | .write => { r with writes := on }

/-- Mark a registration as retired; with `forget`, its interests are turned off too. -/
def retire (forget : Bool) (r : Registration) : Registration :=
  { fd := invalidSocket
    reads := r.reads && !forget
    writes := r.writes && !forget }

/-- An operation on the registrations. -/
def apply (forget : Bool) (rs : List Registration) : Op → List Registration
  | .added fd _ => rs ++ [{ fd := fd, reads := false, writes := false }]
  | .removed fd => modifyFirst (fun r => r.fd = fd) (retire forget) rs
  | .interest d on fd => modifyFirst (fun r => r.fd = fd) (setInterest d on) rs
  | .compacted => rs.filter fun r => r.fd ≠ invalidSocket

end Registration

/-- The registrations after a history of operations. -/
def registrations (forget : Bool) (ops : List Op) : List Registration :=
  ops.foldl (Registration.apply forget) []

/-- The registration a call for `fd` refers to. -/
def registered (forget : Bool) (ops : List Op) (fd : Socket) : Option Registration :=
  (registrations forget ops).find? fun r => r.fd = fd

/-! ### Entries -/

namespace AsyncEntry

/-- The socket and the interests of an entry. -/
def view (e : AsyncEntry) : Registration := ⟨e.fd, e.wants .read, e.wants .write⟩

/-- An operation on the entries; `retire` is what `RemoveFd` does to the entry it finds. -/
def apply (retire : AsyncEntry → AsyncEntry) (es : List AsyncEntry) : Op → List AsyncEntry
  | .added fd event => es ++ [new fd event]
  | .removed fd => modifyFirst (fun e => e.fd = fd) retire es
  | .interest d on fd => modifyFirst (fun e => e.fd = fd) (setInterest d on) es
  | .compacted => es.filter fun e => e.fd ≠ invalidSocket

theorem view_new (fd : Socket) (event : Sink) :
    (new fd event).view = { fd := fd, reads := false, writes := false } := by
  rw [view, show (new fd event).wants .read = false from hasBits_zero _,
    show (new fd event).wants .write = false from hasBits_zero _]
  rfl

theorem view_setInterest (d : Direction) (on : Bool) (e : AsyncEntry) :
    (e.setInterest d on).view = e.view.setInterest d on := by
  rw [view, wants_setInterest, wants_setInterest, setInterest_fd]
  cases d <;> rfl

theorem view_wants (e : AsyncEntry) (d : Direction) : e.view.wants d = e.wants d := by
  cases d <;> rfl

/-- The operations on entries are the operations on registrations. -/
theorem map_view_apply {retire : AsyncEntry → AsyncEntry} {forget : Bool}
    (hretire : ∀ e, (retire e).view = e.view.retire forget) (es : List AsyncEntry) (op : Op) :
    (apply retire es op).map view = Registration.apply forget (es.map view) op := by
  cases op with
  | added fd event => simp [apply, Registration.apply, view_new]
  | removed fd => exact map_modifyFirst (fun _ => rfl) hretire
  | interest d on fd => exact map_modifyFirst (fun _ => rfl) (view_setInterest d on)
  | compacted =>
    rw [apply, Registration.apply, List.filter_map]
    rfl

theorem map_view_foldl {retire : AsyncEntry → AsyncEntry} {forget : Bool}
    (hretire : ∀ e, (retire e).view = e.view.retire forget) (l : List Op) (es : List AsyncEntry) :
    (l.foldl (apply retire) es).map view = l.foldl (Registration.apply forget) (es.map view) := by
  induction l generalizing es with
  | nil => rfl
  | cons op l ih => rw [List.foldl_cons, List.foldl_cons, ih, map_view_apply hretire]

/-- The entry a call refers to is the one whose registration it refers to. -/
theorem find?_view (es : List AsyncEntry) (fd : Socket) :
    (es.map view).find? (fun r => r.fd = fd) = (es.find? fun e => e.fd = fd).map view := by
  rw [List.find?_map]
  rfl

end AsyncEntry

/-! ### Machines that keep their entries in step with a history -/

/-- What an event may add to the history: nothing or a compaction, if it is not a call; else the
operation of the call, which only `AddFd` may refuse. -/
def Performs (k : Option Call) (l : List Op) : Prop :=
  match k with
  | none => l = [] ∨ l = [.compacted]
  | some k => l = [k.op] ∨ (l = [] ∧ ∃ fd event, k = .addFd fd event)

/-- The entries of a machine follow its history. -/
structure Tracks {σ ε : Type*} (step : σ → ε → Option σ) (init : σ) (call? : ε → Option Call)
    (entries : σ → List AsyncEntry) (ops : σ → List Op) (retire : AsyncEntry → AsyncEntry) :
    Prop where
  entries_init : entries init = []
  ops_init : ops init = []
  step : ∀ c e d, step c e = some d → ∃ l, Performs (call? e) l ∧ ops d = ops c ++ l ∧
    entries d = l.foldl (AsyncEntry.apply retire) (entries c)

/-- Every live entry is subscribed to the events that the interests of its registration require. -/
def SubscribedAsRequired (forget : Bool) (entries : List AsyncEntry) (ops : List Op) : Prop :=
  ∀ (i : ℕ) (e : AsyncEntry), entries[i]? = some e → e.Live →
    ∃ r, (registrations forget ops)[i]? = some r ∧ r.fd = e.fd ∧
      Requires r.reads r.writes e.lEvents

/-- The call turns one interest of a registered socket off while the other one is on. -/
def DropsClose (forget : Bool) (ops : List Op) (k : Call) : Prop :=
  match k with
  | .resetPollIn fd => fd ≠ invalidSocket ∧ ∃ r, registered forget ops fd = some r ∧ r.writes = true
  | .resetPollOut fd => fd ≠ invalidSocket ∧ ∃ r, registered forget ops fd = some r ∧ r.reads = true
  | _ => False

instance (o : Option Registration) (Q : Registration → Prop) [DecidablePred Q] :
    Decidable (∃ r, o = some r ∧ Q r) :=
  inferInstanceAs (Decidable (∃ r ∈ o, Q r))

instance (forget : Bool) (ops : List Op) : (k : Call) → Decidable (DropsClose forget ops k)
  | .addFd _ _ | .removeFd _ | .setPollIn _ | .setPollOut _ => instDecidableFalse
  | .resetPollIn _ | .resetPollOut _ => inferInstanceAs (Decidable (_ ∧ _))

section

variable {σ ε : Type*} {step : σ → ε → Option σ} {init c d : σ} {call? : ε → Option Call}
  {entries : σ → List AsyncEntry} {ops : σ → List Op} {retire : AsyncEntry → AsyncEntry}
  {forget : Bool} {es : List ε} {e : ε}

/-- **The masks of the entries are the interests that the calls ask for.** -/
theorem Tracks.map_view (h : Tracks step init call? entries ops retire)
    (hretire : ∀ e, (retire e).view = e.view.retire forget) (hrun : run step init es = some c) :
    (entries c).map AsyncEntry.view = registrations forget (ops c) := by
  refine run_induction (P := fun _ c => (entries c).map AsyncEntry.view =
    registrations forget (ops c)) ?_ ?_ hrun
  · rw [h.entries_init, h.ops_init]
    rfl
  · intro fs e t u _ _ ih hstep
    obtain ⟨l, -, hops, hentries⟩ := h.step t e u hstep
    rw [hops, hentries, registrations, List.foldl_append,
      show List.foldl _ _ (ops t) = registrations forget (ops t) from rfl, ← ih]
    exact AsyncEntry.map_view_foldl hretire l (entries t)

/-- The registration of an entry. -/
theorem Tracks.getElem?_registrations (h : Tracks step init call? entries ops retire)
    (hretire : ∀ e, (retire e).view = e.view.retire forget) (hrun : run step init es = some c)
    (i : ℕ) : (registrations forget (ops c))[i]? = (entries c)[i]?.map AsyncEntry.view := by
  rw [← h.map_view hretire hrun, List.getElem?_map]

theorem Tracks.registered_eq (h : Tracks step init call? entries ops retire)
    (hretire : ∀ e, (retire e).view = e.view.retire forget) (hrun : run step init es = some c)
    (fd : Socket) : registered forget (ops c) fd =
      ((entries c).find? fun e => e.fd = fd).map AsyncEntry.view := by
  rw [registered, ← h.map_view hretire hrun, AsyncEntry.find?_view]

/-- Being subscribed as the calls require is a matter of the single entries. -/
theorem Tracks.subscribedAsRequired_iff (h : Tracks step init call? entries ops retire)
    (hretire : ∀ e, (retire e).view = e.view.retire forget) (hrun : run step init es = some c) :
    SubscribedAsRequired forget (entries c) (ops c) ↔ ∀ e ∈ entries c, e.Subscribed := by
  constructor
  · intro hall e he hlive
    obtain ⟨i, hi⟩ := List.mem_iff_getElem?.mp he
    obtain ⟨r, hr, -, hreq⟩ := hall i e hi hlive
    rw [h.getElem?_registrations hretire hrun, hi] at hr
    obtain rfl := Option.some.inj hr
    exact hreq
  · intro hall i e hi hlive
    refine ⟨e.view, ?_, rfl, hall e (List.mem_of_getElem? hi) hlive⟩
    rw [h.getElem?_registrations hretire hrun, hi]
    rfl

/-- A call turns an interest off while the other one is on exactly if it does so for the entry. -/
theorem Tracks.dropsClose_iff (h : Tracks step init call? entries ops retire)
    (hretire : ∀ e, (retire e).view = e.view.retire forget) (hrun : run step init es = some c)
    (k : Call) : DropsClose forget (ops c) k ↔ ∃ d fd x, k.op = .interest d false fd ∧
      (entries c).find? (fun e => e.fd = fd) = some x ∧ x.Live ∧ x.wants d.other = true := by
  have hfind : ∀ fd d, (fd ≠ invalidSocket ∧ ∃ r, registered forget (ops c) fd = some r ∧
      r.wants d = true) ↔ ∃ x, (entries c).find? (fun e => e.fd = fd) = some x ∧ x.Live ∧
        x.wants d = true := by
    intro fd d
    rw [h.registered_eq hretire hrun]
    constructor
    · rintro ⟨hfd, r, hr, hw⟩
      obtain ⟨x, hx, rfl⟩ := Option.map_eq_some_iff.mp hr
      have hxfd : x.fd = fd := by simpa using List.find?_some hx
      have hlive : x.Live := by rwa [AsyncEntry.Live, hxfd]
      exact ⟨x, hx, hlive, (x.view_wants d).symm.trans hw⟩
    · rintro ⟨x, hx, hlive, hw⟩
      have hxfd : x.fd = fd := by simpa using List.find?_some hx
      exact ⟨hxfd ▸ hlive, x.view, by rw [hx]; rfl, (x.view_wants d).trans hw⟩
  cases k with
  | resetPollIn fd =>
    refine (hfind fd .write).trans ⟨fun ⟨x, hx⟩ => ⟨.read, fd, x, rfl, hx⟩, ?_⟩
    rintro ⟨d, fd', x, hop, hx⟩
    cases hop
    exact ⟨x, hx⟩
  | resetPollOut fd =>
    refine (hfind fd .read).trans ⟨fun ⟨x, hx⟩ => ⟨.write, fd, x, rfl, hx⟩, ?_⟩
    rintro ⟨d, fd', x, hop, hx⟩
    cases hop
    exact ⟨x, hx⟩
  | _ => simp [DropsClose, Call.op]

/-- An operation keeps all entries subscribed to what is required, unless it turns an interest off
while the other one is on. -/
theorem AsyncEntry.subscribed_apply {es : List AsyncEntry} (h : ∀ x ∈ es, x.Subscribed)
    (hretire : ∀ e, ¬ (retire e).Live) {op : Op}
    (hop : ¬ ∃ d fd x, op = .interest d false fd ∧ es.find? (fun e => e.fd = fd) = some x ∧
      x.Live ∧ x.wants d.other = true) : ∀ x ∈ apply retire es op, x.Subscribed := by
  cases op with
  | added fd event =>
    intro x hx
    rcases List.mem_append.mp hx with hx | hx
    · exact h x hx
    · exact List.mem_singleton.mp hx ▸ subscribed_new fd event
  | removed fd => exact forall_modifyFirst h fun x _ hlive => absurd hlive (hretire x)
  | interest d on fd =>
    refine forall_modifyFirst h fun x hx => ?_
    refine ((h x (List.mem_of_find?_eq_some hx)).setInterest_iff d on).mpr ?_
    rintro ⟨hlive, rfl, hw⟩
    exact hop ⟨d, fd, x, rfl, hx, hlive, hw⟩
  | compacted => exact fun x hx => h x (List.mem_of_mem_filter hx)

/-- **Exactness of the subscriptions.**  In a machine that follows its history, all live entries are
subscribed to what their interests require, in every state of a run, if and only if the run never
turns one interest of a registered socket off while the other one is on. -/
theorem Tracks.subscribed_iff (h : Tracks step init call? entries ops retire)
    (hretire : ∀ e, (retire e).view = e.view.retire forget) (hdead : ∀ e, ¬ (retire e).Live)
    (hrun : run step init es = some c) :
    Throughout step init es (fun _ c => SubscribedAsRequired forget (entries c) (ops c)) ↔
      EachStep step init es
        (fun _ c e => ∀ k, call? e = some k → ¬ DropsClose forget (ops c) k) := by
  refine throughout_iff_eachStep (P := fun _ c => ∀ x ∈ entries c, x.Subscribed) ?_ ?_ ?_ ?_ hrun
  · simp [h.entries_init]
  · exact fun fs t _ ht hall => (h.subscribedAsRequired_iff hretire ht).mpr hall
  · intro fs e t u _ ht hall hno hstep
    obtain ⟨l, hl, -, hentries⟩ := h.step t e u hstep
    rw [hentries]
    have happly : ∀ op, (∀ k, call? e = some k → op = k.op) → (call? e = none → op = .compacted) →
        ∀ x ∈ AsyncEntry.apply retire (entries t) op, x.Subscribed := by
      intro op hop hcomp
      refine AsyncEntry.subscribed_apply hall hdead ?_
      rintro ⟨d, fd, x, rfl, hx⟩
      cases hk : call? e with
      | none => cases hcomp hk
      | some k =>
        exact hno k hk ((h.dropsClose_iff hretire ht k).mpr ⟨d, fd, x, (hop k hk).symm, hx⟩)
    cases hk : call? e with
    | none =>
      simp only [Performs, hk] at hl
      rcases hl with rfl | rfl
      · exact hall
      · exact happly .compacted (fun k hk' => by simp [hk] at hk') fun _ => rfl
    | some k =>
      simp only [Performs, hk] at hl
      rcases hl with rfl | ⟨rfl, -⟩
      · exact happly k.op (fun k' hk' => by rw [Option.some.inj (hk.symm.trans hk')])
          fun hnone => by simp [hk] at hnone
      · exact hall
  · intro fs e t u hp ht hall hdrops hstep hsub
    simp only [not_forall, not_not] at hdrops
    obtain ⟨k, hk, hdrop⟩ := hdrops
    obtain ⟨d, fd, x, hop, hx, hlive, hw⟩ := (h.dropsClose_iff hretire ht k).mp hdrop
    obtain ⟨l, hl, -, hentries⟩ := h.step t e u hstep
    obtain rfl : l = [k.op] := by
      simp only [Performs, hk] at hl
      rcases hl with hl | ⟨-, fd', event, rfl⟩
      · exact hl
      · simp [Call.op] at hop
    have hu : run step init (fs ++ [e]) = some u := by
      rw [run_append_singleton, ht, Option.bind_some, hstep]
    have hall' := (h.subscribedAsRequired_iff hretire hu).mp hsub
    -- the entry the call refers to has lost `FD_CLOSE`
    have hmem : x.setInterest d false ∈ entries u := by
      rw [hentries, List.foldl_cons, List.foldl_nil, hop]
      exact mem_modifyFirst_of_find hx
    refine ((hall x (List.mem_of_find?_eq_some hx)).setInterest_iff d false).mp (hall' _ hmem) ?_
    exact ⟨hlive, rfl, hw⟩

end

end WinsockTut
