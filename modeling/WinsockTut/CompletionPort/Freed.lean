import WinsockTut.CompletionPort.Machine

/-!
# Callbacks of contexts that have been freed

`FreeOverlapCtx` leaves a context with `FLAG_LAZY_DELETE` to `Run`, which deletes it behind the
callback of its next completion.  But it does not empty `cb`, and `Run` does not ask whether the
context has been freed: a completion that is dequeued after the free calls the callback, whose owner
may be gone.  `quietAfterFree_iff` says exactly when this does not happen.
-/

namespace WinsockTut

namespace CompletionPortService

open Runs

variable {c c' : Config} {e : Event} {es : List Event} {p : Packet}

/-- An operation on the context is outstanding, or a completion of it waits in the port. -/
def Config.Busy (c : Config) (ctx : CtxId) : Prop :=
  (∃ op ∈ c.inflight, op.1.ctx = ctx) ∨ ∃ p ∈ c.queue, p.ctx = ctx

/-- If the step frees a context, it does so for the first time, and with `FLAG_LAZY_DELETE` set if
an operation on it is outstanding or a completion of it waits in the port. -/
def FreesOnceAndLazily (c : Config) (e : Event) : Prop :=
  ∀ ctx, e = .free ctx → ctx ∉ c.freed ∧ (c.Busy ctx → c.lazy ctx = true)

instance (c : Config) (ctx : CtxId) : Decidable (c.Busy ctx) := inferInstanceAs (Decidable (_ ∨ _))

instance (c : Config) : (e : Event) → Decidable (FreesOnceAndLazily c e)
  | .free ctx => decidable_of_iff (ctx ∉ c.freed ∧ (c.Busy ctx → c.lazy ctx = true))
      ⟨fun h _ he => Event.free.inj he ▸ h, fun h => h ctx rfl⟩
  | .alloc _ _ _ | .assign _ _ _ _ | .async _ _ | .closeSocket _ | .complete _ _ _ | .timer _
  | .run | .updated | .dequeued | .notDequeued _ | .callbackReturn => isTrue fun _ h => nomatch h

/-- No callback of a context was called after `FreeOverlapCtx` had returned for it. -/
def NoCallAfterFree (c : Config) : Prop :=
  ∀ p x freed, .invoked p x freed ∈ c.log → freed = false

/-- `Run` returns after it has dequeued `p`; it has called no callback, and deleted at most the
context of the packet. -/
structure AtMostDeletes (p : Packet) (c c' : Config) : Prop where
  returned : c'.ctl = .idle
  log : ∃ l, c'.log = c.log ++ l ∧ (∀ q x r, .invoked q x r ∉ l) ∧ ∀ i, .deleted i ∈ l → i = p.ctx

/-- If the step dequeues a completion of a context that has been freed, `Run` at most deletes the
context. -/
def QuietAfterFree (c : Config) (e : Event) : Prop :=
  e = .dequeued → ∀ p queue, c.queue = p :: queue → p.ctx ∈ c.freed →
    ∀ c', step c e = some c' → AtMostDeletes p c c'

/-- If the step dequeues the packet of an operation that has succeeded, and its context has been
freed, then the context has not been deleted yet, and its `cb` is empty. -/
def NoCallbackLeft (c : Config) (e : Event) : Prop :=
  e = .dequeued → ∀ p queue, c.queue = p :: queue → p.ctx ∈ c.freed → p.ok = true →
    ∃ x, c.service.ctxs.get p.ctx = some x ∧ x.cb = none

/-- Behind the callback, `Run` at most deletes the context. -/
theorem atMostDeletes_finish {d : Delivery} {x : OverlapContext}
    (hx : c.service.ctxs.get d.packet.ctx = some x) : AtMostDeletes d.packet c (c.finish d) := by
  rcases c.finish_cases d with ⟨hnone, -⟩ | ⟨y, -, ⟨-, heq⟩ | ⟨-, heq⟩⟩
  · simp [hx] at hnone
  · rw [heq]
    exact ⟨rfl, _, List.append_assoc _ _ _, by simp, by simp⟩
  · rw [heq]
    exact ⟨rfl, _, List.append_assoc _ _ _, by simp, by simp⟩

/-- **What `Run` does with a packet**: it at most deletes the context if and only if the operation
has failed, or the context is there and has no callback. -/
theorem atMostDeletes_handle_iff : AtMostDeletes p c (c.handle p) ↔
    (p.ok = true → ∃ x, c.service.ctxs.get p.ctx = some x ∧ x.cb = none) := by
  rcases c.handle_cases p with ⟨hok, heq⟩ | ⟨hok, hnone, heq⟩ |
      ⟨x, hok, hx, ⟨hcb, heq⟩ | ⟨hcb, heq⟩⟩
  · rw [heq]
    refine iff_of_true ⟨rfl, _, List.append_assoc _ _ _, by simp, by simp⟩ ?_
    simp [hok]
  · rw [heq]
    refine iff_of_false (fun h => nomatch h.returned) ?_
    simp [hok, hnone]
  · rw [heq]
    refine iff_of_false (fun h => nomatch h.returned) ?_
    simp [hok, hx, hcb]
  · rw [heq]
    exact iff_of_true (atMostDeletes_finish (d := c.delivery p) hx) fun _ => ⟨x, hx, hcb⟩

/-- Taking a packet off the queue does not matter for what becomes of it. -/
theorem AtMostDeletes.of_queue {queue : List Packet}
    (h : AtMostDeletes p { c with queue := queue } c') : AtMostDeletes p c c' := ⟨h.returned, h.log⟩

/-- **Exactness for one step.** -/
theorem quietAfterFree_iff_noCallbackLeft (hstep : step c e = some c') :
    QuietAfterFree c e ↔ NoCallbackLeft c e := by
  refine forall_congr' fun he => forall_congr' fun p => forall_congr' fun queue =>
    forall_congr' fun hqueue => forall_congr' fun _ => ?_
  subst he
  cases effect_of_step hstep with
  | dequeued hctl hqueue' =>
    obtain ⟨rfl, rfl⟩ := List.cons.inj (hqueue.symm.trans hqueue')
    rw [← atMostDeletes_handle_iff (c := { c with queue := queue })]
    constructor
    · intro hall
      obtain ⟨hret, hlog⟩ := hall _ hstep
      exact ⟨hret, hlog⟩
    · intro h c'' hc''
      obtain rfl := Option.some.inj (hstep.symm.trans hc'')
      exact h.of_queue

/-! ### Whole runs -/

/-- Behind the callback, no other callback is called. -/
theorem invoked_of_finish {d : Delivery} {x : OverlapContext} {r : Bool}
    (h : .invoked p x r ∈ (c.finish d).log) : .invoked p x r ∈ c.log := by
  rcases c.finish_cases d with ⟨-, heq⟩ | ⟨y, -, ⟨-, heq⟩ | ⟨-, heq⟩⟩
  · simpa [heq] using h
  · simpa [heq, Config.leave] using h
  · simpa [heq, Config.leave] using h

/-- Only a packet that is dequeued leads to a callback, that of its own context. -/
theorem invoked_of_step {x : OverlapContext} {r : Bool} (hstep : step c e = some c')
    (h : .invoked p x r ∈ c'.log) : .invoked p x r ∈ c.log ∨
      (e = .dequeued ∧ (∃ queue, c.queue = p :: queue) ∧ r = decide (p.ctx ∈ c.freed)) := by
  cases effect_of_step hstep with
  | alloced =>
    refine Or.inl ?_
    rcases List.mem_append.mp h with h | h
    · exact h
    · split at h <;> simp at h
  | freed =>
    refine Or.inl ?_
    rcases List.mem_append.mp h with h | h
    · simpa using h
    · unfold Config.deletedBy at h
      split at h <;> simp at h
  | issued => exact Or.inl (by simpa using h)
  | closed => exact Or.inl (by simpa using h)
  | completed => exact Or.inl (by simpa using h)
  | notDequeued => exact Or.inl (by simpa [Config.leave] using h)
  | resumed => exact Or.inl (invoked_of_finish h)
  | @dequeued q queue hctl hqueue =>
    rcases Config.handle_cases { c with queue := queue } q with ⟨-, heq⟩ | ⟨-, -, heq⟩ |
        ⟨y, -, -, ⟨-, heq⟩ | ⟨-, heq⟩⟩
    · exact Or.inl (by simpa [heq, Config.leave] using h)
    · exact Or.inl (by simpa [heq] using h)
    · rw [heq] at h
      rcases List.mem_append.mp h with h | h
      · exact Or.inl h
      · obtain ⟨rfl, rfl, rfl⟩ := Obs.invoked.inj (List.mem_singleton.mp h)
        exact Or.inr ⟨rfl, ⟨queue, hqueue⟩, rfl⟩
    · rw [heq] at h
      exact Or.inl (invoked_of_finish (c := { c with queue := queue }) h)
  | _ => exact Or.inl h

/-- **No completion that is dequeued after its context has been freed does more than delete the
context, if and only if** none of them is that of an operation that has succeeded on a context
which has been deleted already or still has its `cb`. -/
theorem quietAfterFree_iff (hrun : runs es = some c) :
    (Throughout step Config.init es (fun _ c => NoCallAfterFree c) ∧
        EachStep step Config.init es fun _ => QuietAfterFree) ↔
      EachStep step Config.init es fun _ => NoCallbackLeft := by
  have hcongr : EachStep step Config.init es (fun _ => QuietAfterFree) ↔
      EachStep step Config.init es fun _ => NoCallbackLeft :=
    eachStep_congr hrun fun _ _ _ _ _ hstep => quietAfterFree_iff_noCallbackLeft hstep
  refine ⟨fun h => hcongr.mp h.2, fun h => ⟨?_, hcongr.mpr h⟩⟩
  refine throughout_of_eachStep (fun _ _ _ hx => absurd hx List.not_mem_nil) ?_ (hcongr.mpr h)
  intro fs e t u _ _ ih hquiet hstep q x r hx
  rcases invoked_of_step hstep hx with hold | ⟨he, ⟨queue, hqueue⟩, rfl⟩
  · exact ih q x r hold
  · by_contra hfreed
    have hmem : q.ctx ∈ t.freed := by simpa using hfreed
    obtain ⟨l, hlog, hl, -⟩ := (hquiet he q queue hqueue hmem u hstep).log
    rw [hlog] at hx
    rcases List.mem_append.mp hx with hx | hx
    · exact hfreed (ih q x _ hx)
    · exact hl q x _ hx

/-- A read completes, and its context is freed lazily before `Run` dequeues the packet; the owner
empties `cb` or not. -/
def freeBeforeDequeue (cb : Option Callback) : List Event :=
  [.alloc 5 flagAssociate true, .assign 0 0 0 (some 7), .async 0 (.read .pending),
    .complete 0 0 10, .assign 0 flagLazyDelete 0 cb, .free 0, .run, .timer (.updateTimer 0),
    .timer .round, .updated, .dequeued]

/-- With the callback still set, `Run` calls it, though the context has been freed as it should. -/
theorem freeBeforeDequeue_called :
    EachStep step Config.init (freeBeforeDequeue (some 7)) (fun _ => FreesOnceAndLazily) ∧
    ∃ c, runs (freeBeforeDequeue (some 7)) = some c ∧ (∃ d, c.ctl = .callback d) ∧
      ¬ NoCallAfterFree c := by
  refine ⟨eachStep_iff_checkSteps.mpr (by decide +kernel), ?_⟩
  let x : OverlapContext :=
    { internal := 0, internalHigh := 10, hEvent := 0, fd := invalidSocket, flags := flagLazyDelete
      udata := 0, cb := some 7 }
  have hfacts : (runs (freeBeforeDequeue (some 7))).map (fun c =>
      (c.ctl, decide (.invoked ⟨0, .read, true⟩ x true ∈ c.log))) =
      some (.callback ⟨⟨0, .read, true⟩, false, 1, false, 0⟩, true) := by decide +kernel
  obtain ⟨c, hc, hpair⟩ := Option.map_eq_some_iff.mp hfacts
  obtain ⟨hctl, hmem⟩ := Prod.mk.inj hpair
  exact ⟨c, hc, ⟨_, hctl⟩, fun hall => absurd (hall _ _ _ (of_decide_eq_true hmem)) (by decide)⟩

instance (c : Config) : (e : Event) → Decidable (NoCallbackLeft c e)
  | .dequeued =>
    match hqueue : c.queue with
    | [] => isTrue fun _ p queue h => nomatch hqueue.symm.trans h
    | p :: _ =>
      decidable_of_iff (p.ctx ∈ c.freed → p.ok = true →
          (c.service.ctxs.get p.ctx).any (fun x => x.cb.isNone) = true) <| by
        simp [NoCallbackLeft, hqueue, Option.any_eq_true]
  | .alloc _ _ _ | .free _ | .assign _ _ _ _ | .async _ _ | .closeSocket _ | .complete _ _ _
  | .timer _ | .run | .updated | .notDequeued _ | .callbackReturn => isTrue fun h => nomatch h

/-- If the owner has emptied the callback, `Run` only deletes the context. -/
theorem quietAfterFree_emptied :
    Throughout step Config.init (freeBeforeDequeue none) (fun _ c => NoCallAfterFree c) ∧
      EachStep step Config.init (freeBeforeDequeue none) fun _ => QuietAfterFree := by
  obtain ⟨c, hc⟩ : ∃ c, runs (freeBeforeDequeue none) = some c :=
    Option.isSome_iff_exists.mp (by decide +kernel)
  exact (quietAfterFree_iff hc).mpr (eachStep_iff_checkSteps.mpr (by decide +kernel))

end CompletionPortService

end WinsockTut
