import WinsockTut.CompletionPort.Lifetime

/-!
# The packets of failed operations

`GetQueuedCompletionStatus` reports a failed operation by returning `FALSE` with the overlapped
pointer of its context.  `Run` logs the error and returns: the callback is not called, although
callbacks test the status code, and a context that waits to be deleted lazily stays allocated.  Nor
is a packet handled for which `Run` uses a deleted context.  `deliversAll_iff` says that nothing
else goes wrong.
-/

namespace WinsockTut

namespace CompletionPortService

open Runs

variable {c c' : Config} {e : Event} {es : List Event} {d : Delivery} {p : Packet}

/-- The packet has had its effect exactly once: a callback that was due has been called, and the
context has been deleted if it was to be deleted lazily behind the callback, and only then. -/
structure Delivery.HandledOnce (d : Delivery) : Prop where
  invoked_le : d.invoked ≤ 1
  invoked : d.owed = true → d.invoked = 1
  deleted : d.deleted = d.lazy.toNat

/-- Every packet that `Run` was done with has had its effect exactly once. -/
def DeliversAll (c : Config) : Prop := ∀ d, .handled d ∈ c.log → d.HandledOnce

/-- If the step dequeues the packet of a failed operation, then its context has no callback that
is due, and is not to be deleted lazily. -/
def NothingDueOnFailure (c : Config) (e : Event) : Prop :=
  e = .dequeued → ∀ p queue, c.queue = p :: queue → p.ok = false →
    c.owes p.ctx = false ∧ c.lazy p.ctx = false

/-- A delivery behind the callback: a callback that was due has been called. -/
structure Delivery.Called (d : Delivery) : Prop where
  invoked_le : d.invoked ≤ 1
  invoked : d.owed = true → d.invoked = 1
  deleted : d.deleted = 0

/-- The delivery that a callback belongs to has called it. -/
def CallbackCalled (c : Config) : Prop := ∀ d, c.ctl = .callback d → d.Called

/-- What is left to do then is to delete the context, if it is to be deleted lazily. -/
theorem Delivery.Called.keep (h : d.Called) : Delivery.HandledOnce { d with lazy := false } where
  invoked_le := h.invoked_le
  invoked := h.invoked
  deleted := h.deleted

theorem Delivery.Called.delete (h : d.Called) :
    Delivery.HandledOnce { d with lazy := true, deleted := d.deleted + 1 } where
  invoked_le := h.invoked_le
  invoked := h.invoked
  deleted := by
    rw [h.deleted]
    rfl

/-- New entries of the log keep the property if their deliveries have it. -/
theorem DeliversAll.append {l : List Obs} (h : DeliversAll c)
    (hl : ∀ d, .handled d ∈ l → d.HandledOnce) (hlog : c'.log = c.log ++ l) :
    DeliversAll c' := by
  intro d hd
  rw [hlog] at hd
  exact (List.mem_append.mp hd).elim (h d) (hl d)

/-! ### One step -/

/-- `Run` finishes a delivery behind the callback, if the context is there. -/
theorem DeliversAll.finish (h : DeliversAll c) (hd : d.Called) (hlive : c.Live d.packet.ctx) :
    (c.finish d).ctl = .idle ∧ DeliversAll (c.finish d) := by
  rcases c.finish_cases d with ⟨hnone, -⟩ | ⟨x, -, ⟨-, heq⟩ | ⟨-, heq⟩⟩
  · simp [Config.Live, hnone] at hlive
  · rw [heq]
    exact ⟨rfl, h.append (l := _ ++ [_]) (by simpa using hd.delete) (List.append_assoc _ _ _)⟩
  · rw [heq]
    exact ⟨rfl, h.append (l := _ ++ [_]) (by simpa using hd.keep) (List.append_assoc _ _ _)⟩

/-- The packet of an operation that has succeeded has its effect, if its context is there: a
callback that is due is called. -/
theorem DeliversAll.handle_ok (h : DeliversAll c) (hok : p.ok = true) (hlive : c.Live p.ctx) :
    (c.handle p).ctl ≠ .undefined ∧ DeliversAll (c.handle p) ∧ CallbackCalled (c.handle p) := by
  rcases c.handle_cases p with ⟨hfailed, -⟩ | ⟨-, hx, -⟩ | ⟨x, -, hx, ⟨-, heq⟩ | ⟨hcb, heq⟩⟩
  · cases hok.symm.trans hfailed
  · simp [Config.Live, hx] at hlive
  · rw [heq]
    refine ⟨fun hctl => Control.noConfusion hctl, h.append (l := [_]) (by simp) rfl, ?_⟩
    intro d hctl
    obtain rfl := Control.callback.inj hctl
    exact ⟨le_rfl, fun _ => rfl, rfl⟩
  · have howes : c.owes p.ctx = false := by simp [Config.owes, hx, hcb]
    have hcalled : (c.delivery p).Called :=
      ⟨Nat.zero_le 1, fun howed => by simp [Config.delivery, howes] at howed, rfl⟩
    obtain ⟨hidle, hall⟩ := h.finish hcalled hlive
    rw [heq]
    refine ⟨fun hctl => ?_, hall, fun d hctl => ?_⟩
    · cases hidle.symm.trans hctl
    · cases hidle.symm.trans hctl

/-- For the packet of an operation that has failed, nothing is called and nothing deleted. -/
theorem handle_failed (hok : p.ok = false) :
    c.handle p = Config.leave { c with
      log := c.log ++ [.handled ⟨p, c.owes p.ctx, 0, c.lazy p.ctx, 0⟩] } (-1) := by
  simp [Config.handle, hok]

/-- For a deleted context, the packet of an operation that has succeeded is not handled. -/
theorem handle_dead (hok : p.ok = true) (hdead : ¬ c.Live p.ctx) :
    (c.handle p).ctl = .undefined := by
  rcases c.handle_cases p with ⟨hfailed, -⟩ | ⟨-, -, heq⟩ | ⟨x, -, hx, -⟩
  · cases hok.symm.trans hfailed
  · rw [heq]
  · exact absurd (by simp [Config.Live, hx]) hdead

/-- Behind a callback that has deleted its context, a deleted context is used. -/
theorem finish_dead (hdead : ¬ c.Live d.packet.ctx) : (c.finish d).ctl = .undefined := by
  rcases c.finish_cases d with ⟨-, heq⟩ | ⟨x, hx, -⟩
  · rw [heq]
  · exact absurd (by simp [Config.Live, hx]) hdead

/-- All other steps handle no packet. -/
theorem handled_of_step (hstep : step c e = some c') :
    (e ≠ .dequeued ∧ (∃ l, c'.log = c.log ++ l ∧ ∀ d, .handled d ∉ l) ∧
      (∀ d, c'.ctl = .callback d ↔ c.ctl = .callback d) ∧
      (c'.ctl = .undefined → c.ctl = .undefined)) ∨
    (∃ p queue, e = .dequeued ∧ c.queue = p :: queue ∧ c.ctl = .dequeuing ∧
      c' = Config.handle { c with queue := queue } p) ∨
    ∃ d, e = .callbackReturn ∧ c.ctl = .callback d ∧ c' = c.finish d := by
  cases effect_of_step hstep with
  | alloced =>
    refine Or.inl ⟨by simp, ⟨_, rfl, fun d => ?_⟩, fun _ => Iff.rfl, id⟩
    split <;> simp
  | freed =>
    refine Or.inl ⟨by simp, ⟨_, List.append_assoc _ _ _, fun d hd => ?_⟩, fun _ => Iff.rfl, id⟩
    rcases List.mem_append.mp hd with hd | hd
    · simp at hd
    · unfold Config.deletedBy at hd
      split at hd <;> simp at hd
  | assigned => exact Or.inl ⟨by simp, ⟨[], by simp⟩, fun _ => Iff.rfl, id⟩
  | issued => exact Or.inl ⟨by simp, ⟨_, Config.issue_log _ _ _ _ _, by simp⟩, by simp, by simp⟩
  | closed => exact Or.inl ⟨by simp, ⟨_, rfl, by simp⟩, fun _ => Iff.rfl, id⟩
  | completed => exact Or.inl ⟨by simp, ⟨[], by simp⟩, by simp, by simp⟩
  | ticked =>
    rcases Control.afterTimer_eq c.ctl _ with h | ⟨hctl, h⟩
    · refine Or.inl ⟨by simp, ⟨[], by simp⟩, fun d => ?_, fun hu => h.symm.trans hu⟩
      rw [h]
    · refine Or.inl ⟨by simp, ⟨[], by simp⟩, fun d => ?_, fun hu => ?_⟩
      · rw [h, hctl]
        simp
      · cases h.symm.trans hu
  | ran hctl => exact Or.inl ⟨by simp, ⟨[], by simp⟩, by simp [hctl], by simp⟩
  | updated hctl => exact Or.inl ⟨by simp, ⟨[], by simp⟩, by simp [hctl], by simp⟩
  | dequeued hctl hqueue => exact Or.inr (Or.inl ⟨_, _, rfl, hqueue, hctl, rfl⟩)
  | notDequeued hctl =>
    exact Or.inl ⟨by simp, ⟨_, rfl, by simp⟩, by simp [Config.leave, hctl], by simp [Config.leave]⟩
  | resumed hctl => exact Or.inr (Or.inr ⟨_, rfl, hctl, rfl⟩)

/-! ### Every packet has a delivery -/

/-- `Run` was done with a packet. -/
def Obs.isHandled : Obs → Bool
  | .handled _ => true
  | _ => false

/-- The callback of a context has control. -/
def Control.isCallback : Control → Bool
  | .callback _ => true
  | _ => false

theorem isCallback_iff {ctl : Control} : ctl.isCallback = true ↔ ∃ d, ctl = .callback d := by
  cases ctl <;> simp [Control.isCallback]

/-- The number of deliveries that are done or in progress. -/
def Config.deliveries (c : Config) : ℕ := c.log.countP Obs.isHandled + c.ctl.isCallback.toNat

theorem deliveries_finish (hlive : c.Live d.packet.ctx) :
    (c.finish d).deliveries = c.log.countP Obs.isHandled + 1 := by
  rcases c.finish_cases d with ⟨hnone, -⟩ | ⟨x, -, ⟨-, heq⟩ | ⟨-, heq⟩⟩
  · simp [Config.Live, hnone] at hlive
  · simp [heq, Config.deliveries, Config.leave, Obs.isHandled, Control.isCallback,
      List.countP_cons]
  · simp [heq, Config.deliveries, Config.leave, Obs.isHandled, Control.isCallback,
      List.countP_cons]

theorem deliveries_handle (hlive : p.ok = true → c.Live p.ctx) :
    (c.handle p).deliveries = c.log.countP Obs.isHandled + 1 := by
  rcases c.handle_cases p with ⟨-, heq⟩ | ⟨hok, hx, -⟩ | ⟨x, hok, -, ⟨-, heq⟩ | ⟨-, heq⟩⟩
  · simp [heq, Config.deliveries, Config.leave, Obs.isHandled, Control.isCallback,
      List.countP_cons]
  · have hdead := hlive hok
    simp [Config.Live, hx] at hdead
  · simp [heq, Config.deliveries, Obs.isHandled, Control.isCallback]
  · rw [heq]
    exact deliveries_finish (d := c.delivery p) (hlive hok)

/-- A step that handles no packet keeps the number of deliveries. -/
theorem deliveries_eq {l : List Obs} (hlog : c'.log = c.log ++ l) (hl : ∀ d, .handled d ∉ l)
    (hctl : ∀ d, c'.ctl = .callback d ↔ c.ctl = .callback d) :
    c'.deliveries = c.deliveries := by
  have hquiet : l.countP Obs.isHandled = 0 := by
    refine List.countP_eq_zero.mpr fun o ho => ?_
    cases o with
    | handled d => exact absurd ho (hl d)
    | _ => simp [Obs.isHandled]
  have hcallback : c'.ctl.isCallback = c.ctl.isCallback := by
    rw [Bool.eq_iff_iff, isCallback_iff, isCallback_iff]
    exact exists_congr hctl
  simp [Config.deliveries, hlog, hquiet, hcallback]

/-! ### Whole runs -/

/-- What holds behind the events `es`, as long as every packet has its effect. -/
structure DeliveryInv (es : List Event) (c : Config) : Prop where
  defined : c.ctl ≠ .undefined
  count : c.deliveries = es.count .dequeued
  all : DeliversAll c
  called : CallbackCalled c

theorem deliveryInv_init : DeliveryInv [] Config.init where
  defined hctl := Control.noConfusion hctl
  count := rfl
  all _ hd := absurd hd List.not_mem_nil
  called _ hctl := Control.noConfusion hctl

/-- **Preservation.** -/
theorem DeliveryInv.step (h : DeliveryInv es c) (hfailed : NothingDueOnFailure c e)
    (haccess : AccessesLive c e) (hstep : CompletionPortService.step c e = some c') :
    DeliveryInv (es ++ [e]) c' := by
  rcases handled_of_step hstep with ⟨he, ⟨l, hlog, hl⟩, hctl, hdefined⟩ |
    ⟨p, queue, rfl, hqueue, hctl, rfl⟩ | ⟨d, rfl, hctl, rfl⟩
  · refine ⟨fun hu => h.defined (hdefined hu), ?_, h.all.append (fun d hd => absurd hd (hl d)) hlog,
      fun d hd => h.called d ((hctl d).mp hd)⟩
    rw [deliveries_eq hlog hl hctl, h.count, List.count_append]
    simp [he]
  · have hlive : p.ok = true → c.Live p.ctx := haccess.1 rfl p queue hqueue
    have hcount : (Config.handle { c with queue := queue } p).deliveries =
        (es ++ [Event.dequeued]).count .dequeued := by
      rw [deliveries_handle (c := { c with queue := queue }) hlive, List.count_append, ← h.count]
      simp [Config.deliveries, hctl, Control.isCallback]
    cases hp : p.ok with
    | true =>
      obtain ⟨hdefined, hall, hcalled⟩ :=
        DeliversAll.handle_ok (c := { c with queue := queue }) h.all hp (hlive hp)
      exact ⟨hdefined, hcount, hall, hcalled⟩
    | false =>
      obtain ⟨howes, hlazy⟩ := hfailed rfl p queue hqueue hp
      rw [handle_failed hp] at hcount ⊢
      refine ⟨fun hu => Control.noConfusion hu, hcount,
        h.all.append (l := _ ++ [_]) (fun d hd => ?_) (List.append_assoc _ _ _),
        fun d hd => Control.noConfusion hd⟩
      have hd : d = ⟨p, c.owes p.ctx, 0, c.lazy p.ctx, 0⟩ := by
        simpa [Config.owes, Config.lazy] using hd
      rw [hd, howes, hlazy]
      exact ⟨Nat.zero_le 1, fun howed => Bool.noConfusion howed, rfl⟩
  · have hlive : c.Live d.packet.ctx := haccess.2 rfl d hctl
    obtain ⟨hidle, hall⟩ := h.all.finish (h.called d hctl) hlive
    refine ⟨fun hu => ?_, ?_, hall, fun d' hd => ?_⟩
    · cases hidle.symm.trans hu
    · rw [deliveries_finish hlive, List.count_append, ← h.count]
      simp [Config.deliveries, hctl, Control.isCallback]
    · cases hidle.symm.trans hd

/-- The packet of a failed operation is dropped, though something was due. -/
theorem not_deliversAll_of_failed (hstep : step c .dequeued = some c')
    (hbad : ¬ NothingDueOnFailure c .dequeued) : ¬ DeliversAll c' := by
  intro hall
  refine hbad fun _ p queue hqueue hp => ?_
  cases effect_of_step hstep with
  | dequeued hctl hqueue' =>
    obtain ⟨rfl, rfl⟩ := List.cons.inj (hqueue.symm.trans hqueue')
    have honce : Delivery.HandledOnce ⟨p, c.owes p.ctx, 0, c.lazy p.ctx, 0⟩ :=
      hall _ (by simp [handle_failed hp, Config.leave, Config.owes, Config.lazy])
    constructor
    · by_contra howes
      have hinvoked := honce.invoked ((Bool.not_eq_false _).mp howes)
      cases hinvoked
    · by_contra hlazy
      have hdeleted := honce.deleted
      rw [(Bool.not_eq_false _).mp hlazy] at hdeleted
      cases hdeleted

/-- A deleted context is used. -/
theorem undefined_of_dead (hstep : step c e = some c') (hbad : ¬ AccessesLive c e) :
    c'.ctl = .undefined := by
  by_contra hdefined
  refine hbad ⟨?_, ?_⟩
  · rintro rfl p queue hqueue hok
    by_contra hdead
    cases effect_of_step hstep with
    | dequeued hctl hqueue' =>
      obtain ⟨rfl, rfl⟩ := List.cons.inj (hqueue.symm.trans hqueue')
      exact hdefined (handle_dead (c := { c with queue := queue }) hok hdead)
  · rintro rfl d hctl
    by_contra hdead
    cases effect_of_step hstep with
    | resumed hctl' =>
      obtain rfl := Control.callback.inj (hctl.symm.trans hctl')
      exact hdefined (finish_dead hdead)

/-- **`Run` uses no deleted context, and every packet that was dequeued has one delivery, which has
its effect exactly once, if and only if** no packet of a failed operation is dequeued while its
context has a callback that is due or waits to be deleted lazily, and the contexts are there when
`Run` comes to them: that of a packet of an operation that has succeeded, and that of a callback
that returns. -/
theorem deliversAll_iff (hrun : runs es = some c) :
    Throughout step Config.init es
        (fun fs c => c.ctl ≠ .undefined ∧ c.deliveries = fs.count .dequeued ∧ DeliversAll c) ↔
      EachStep step Config.init es (fun _ c e => NothingDueOnFailure c e ∧ AccessesLive c e) := by
  refine throughout_iff_eachStep (P := DeliveryInv) deliveryInv_init
    (fun _ _ _ _ h => ⟨h.defined, h.count, h.all⟩) (fun fs e t u _ _ h hok hstep => ?_)
    (fun fs e t u _ _ _ hbad hstep => ?_) hrun
  · exact h.step hok.1 hok.2 hstep
  · rintro ⟨hdefined, -, hall⟩
    by_cases hfailed : NothingDueOnFailure t e
    · have haccess : ¬ AccessesLive t e := fun haccess => hbad ⟨hfailed, haccess⟩
      exact hdefined (undefined_of_dead hstep haccess)
    · have he : e = .dequeued := by
        by_contra he
        exact hfailed fun hde => absurd hde he
      subst he
      exact not_deliversAll_of_failed hstep hfailed hall

/-- A socket is associated with the port, a read on it completes with the status, and `Run` is
called. -/
def readThatEnds (status : ℕ) : List Event :=
  [.alloc 5 flagAssociate true, .assign 0 0 0 (some 7), .async 0 (.read .pending),
    .complete 0 status 0, .run, .timer (.updateTimer 0), .timer .round, .updated]

/-- The connection is reset: `Run` returns −1, and the callback that is due is not called. -/
theorem readThatEnds_reset :
    ∃ c, runs (readThatEnds 0xC000020D ++ [.dequeued]) = some c ∧
      c.log = [.handled { packet := ⟨0, .read, false⟩, owed := true, invoked := 0, lazy := false
                          deleted := 0 }, .returned (-1)] ∧
      ¬ DeliversAll c := by
  have hfacts : (runs (readThatEnds 0xC000020D ++ [.dequeued])).map (fun c => c.log) =
      some [.handled { packet := ⟨0, .read, false⟩, owed := true, invoked := 0, lazy := false
                       deleted := 0 }, .returned (-1)] := by decide +kernel
  obtain ⟨c, hc, hlog⟩ := Option.map_eq_some_iff.mp hfacts
  refine ⟨c, hc, hlog, fun hall => ?_⟩
  have honce := hall _ (hlog ▸ List.mem_cons_self)
  exact absurd (honce.invoked rfl) (by decide)

/-- A condition on the packet that is dequeued can be tested. -/
instance {Q : Packet → Prop} [DecidablePred Q] (c : Config) (e : Event) :
    Decidable (e = .dequeued → ∀ p queue, c.queue = p :: queue → Q p) :=
  decidable_of_iff (e = .dequeued → ∀ p ∈ c.queue.head?, Q p) <| by
    cases c.queue <;> simp

/-- The context of the callback that has control. -/
def Control.running? : Control → Option CtxId
  | .callback d => some d.packet.ctx
  | _ => none

instance (c : Config) (ctx : CtxId) : Decidable (c.Live ctx) := inferInstanceAs (Decidable (_ = _))

instance (c : Config) (e : Event) : Decidable (e = .callbackReturn → ∀ d, c.ctl = .callback d →
    c.Live d.packet.ctx) :=
  decidable_of_iff (e = .callbackReturn → ∀ ctx ∈ c.ctl.running?, c.Live ctx) <| by
    cases c.ctl <;> simp [Control.running?]

instance (c : Config) (e : Event) : Decidable (NothingDueOnFailure c e) :=
  inferInstanceAs (Decidable (e = .dequeued → ∀ p queue, c.queue = p :: queue → _))

instance (c : Config) (e : Event) : Decidable (AccessesLive c e) :=
  inferInstanceAs (Decidable (_ ∧ _))

/-- A read succeeds, and its callback asks for a lazy deletion; then a read fails whose context has
no callback. -/
def successThenFailure : List Event :=
  readThatEnds 0 ++ [.dequeued, .assign 0 flagLazyDelete 0 none, .callbackReturn,
    .alloc 6 flagAssociate true, .async 1 (.read .pending), .complete 0 0xC000020D 0, .run,
    .timer (.updateTimer 0), .timer .round, .updated, .dequeued]

theorem deliversAll_successThenFailure : (runs successThenFailure).map (fun c => deletedIn c.log) =
      some [0] ∧
    Throughout step Config.init successThenFailure
      (fun fs c => c.ctl ≠ .undefined ∧ c.deliveries = fs.count .dequeued ∧ DeliversAll c) := by
  have hdeleted : (runs successThenFailure).map (fun c => deletedIn c.log) = some [0] := by
    decide +kernel
  obtain ⟨c, hc, -⟩ := Option.map_eq_some_iff.mp hdeleted
  exact ⟨hdeleted, (deliversAll_iff hc).mpr (eachStep_iff_checkSteps.mpr (by decide +kernel))⟩

end CompletionPortService

end WinsockTut
