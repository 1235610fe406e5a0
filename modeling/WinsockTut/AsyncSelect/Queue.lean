import WinsockTut.AsyncSelect.Machine

/-!
# The messages that the poller based on `WSAAsyncSelect` handles

`Poll` takes the messages out of the queue from the front until the queue is empty, while the system
and the callbacks go on posting.  `delivered_of_runs` is the account: no message is lost, doubled or
overtaken, `Poll` returns the number of the socket messages it has taken, and a callback is for the
message that was taken last.
-/

namespace WinsockTut

namespace AsyncSelectPoller

open Runs

variable {c c' : Config} {e : Event} {es : List Event} {count : ℕ}

/-- The message is `WM_SOCKET`. -/
def isSocket : Message → Bool
  | .socket _ _ _ => true
  | .other => false

/-- The messages posted so far, those taken out of the queue, those taken by the current call of
`Poll`, and those posted since its loop has ended. -/
structure Mail where
  posted : List Message
  taken : List Message
  round : List Message
  late : List Message

/-- The account of the messages. -/
def deliver (c : Config) (e : Event) (_ : Config) (g : Mail) : Mail :=
  match e with
  | .post m => { g with posted := g.posted ++ [m], late := g.late ++ [m] }
  | .poll => { g with round := [] }
  | .peek =>
    match c.queue with
    | [] => { g with late := [] }
    | m :: _ => { g with taken := g.taken ++ [m], round := g.round ++ [m] }
  | _ => g

/-- The last callback was made for the message, through an entry of its socket. -/
def Answers (log : List Obs) (m : Message) : Prop :=
  ∃ fd ev ec x d, m = .socket fd ev ec ∧ log.getLast? = some (.called x d) ∧ x.fd = fd ∧
    eventDirection ev = some d

/-- A callback is for the socket of its message, and for the direction of its event. -/
theorem handled_of_handleEvent {p : AsyncSelectPoller} {fd : Socket} {ev : BitVec 32} {ec : ℤ}
    {x : AsyncEntry} {d : Direction} (h : (p.handleEvent fd ev ec).2 = some (x, d)) :
    x.fd = fd ∧ eventDirection ev = some d := by
  simp only [handleEvent, Option.bind_eq_bind, Option.bind_eq_some_iff,
    Option.ite_none_right_eq_some, Option.some.injEq, Prod.mk.injEq] at h
  obtain ⟨i, hi, y, hy, d', hd', -, rfl, rfl⟩ := h
  obtain ⟨hlt, hfd, -⟩ := List.findIdx?_eq_some_iff_getElem.mp hi
  obtain ⟨-, rfl⟩ := List.getElem?_eq_some_iff.mp hy
  exact ⟨of_decide_eq_true hfd, hd'⟩

/-- What the account says. -/
structure Delivered (c : Config) (g : Mail) : Prop where
  /-- No message is lost, doubled or overtaken. -/
  conserved : g.posted = g.taken ++ c.queue
  polling : ∀ count, c.ctl = .polling count → g.round.countP isSocket = count
  callback : ∀ count, c.ctl = .callback count → g.round.countP isSocket = count + 1 ∧
    ∃ m, g.round.getLast? = some m ∧ Answers c.log m
  /-- The loop has come to the end of the queue. -/
  ended : ∀ count, c.ctl = .update count ∨ c.ctl = .updating count →
    g.round.countP isSocket = count ∧ c.queue = g.late

theorem delivered_init : Delivered Config.init ⟨[], [], [], []⟩ where
  conserved := rfl
  polling _ hctl := Control.noConfusion hctl
  callback _ hctl := Control.noConfusion hctl
  ended _ hctl := hctl.elim (fun hctl => Control.noConfusion hctl) fun hctl =>
    Control.noConfusion hctl

/-- Control is with the caller. -/
theorem Delivered.of_idle {g : Mail} (hconserved : g.posted = g.taken ++ c.queue)
    (hctl : c.ctl = .idle) : Delivered c g := by
  refine ⟨hconserved, fun n hn => ?_, fun n hn => ?_, fun n hn => ?_⟩
  · cases hctl.symm.trans hn
  · cases hctl.symm.trans hn
  · rcases hn with hn | hn
    · cases hctl.symm.trans hn
    · cases hctl.symm.trans hn

/-- The loop is at its head. -/
theorem Delivered.of_polling {g : Mail} (hconserved : g.posted = g.taken ++ c.queue)
    (hctl : c.ctl = .polling count) (hcount : g.round.countP isSocket = count) :
    Delivered c g := by
  refine ⟨hconserved, fun n hn => ?_, fun n hn => ?_, fun n hn => ?_⟩
  · obtain rfl := Control.polling.inj (hctl.symm.trans hn)
    exact hcount
  · cases hctl.symm.trans hn
  · rcases hn with hn | hn
    · cases hctl.symm.trans hn
    · cases hctl.symm.trans hn

/-- Taking the first message. -/
theorem conserved_taken {posted taken queue queue' : List Message} {m : Message}
    (h : posted = taken ++ queue) (hqueue : queue = m :: queue') :
    posted = taken ++ [m] ++ queue' := by
  rw [h, hqueue, List.append_assoc, List.singleton_append]

/-- **Preservation.** -/
theorem Delivered.step {g : Mail} (h : Delivered c g)
    (hstep : AsyncSelectPoller.step c e = some c') : Delivered c' (deliver c e c' g) := by
  cases effect_of_step hstep with
  | called => exact ⟨h.conserved, h.polling, h.callback, h.ended⟩
  | @ticked e timers =>
    refine ⟨h.conserved, fun n hn => h.polling n ?_, fun n hn => h.callback n ?_,
      fun n hn => h.ended n ?_⟩
    · cases hctl : c.ctl with
      | update k => cases he : entersUpdate e <;> simp [Control.afterTimer, hctl, he] at hn
      | _ =>
        have hn : c.ctl.afterTimer e = .polling n := hn
        rwa [hctl] at hn
    · cases hctl : c.ctl with
      | update k => cases he : entersUpdate e <;> simp [Control.afterTimer, hctl, he] at hn
      | _ =>
        have hn : c.ctl.afterTimer e = .callback n := hn
        rwa [hctl] at hn
    · cases hctl : c.ctl with
      | update k =>
        cases he : entersUpdate e <;> simp [Control.afterTimer, hctl, he] at hn <;> simp [hn]
      | _ =>
        have hn : c.ctl.afterTimer e = .update n ∨ c.ctl.afterTimer e = .updating n := hn
        rwa [hctl] at hn
  | @posted m =>
    refine ⟨?_, h.polling, h.callback, fun n hn => ?_⟩
    · change g.posted ++ [m] = g.taken ++ (c.queue ++ [m])
      rw [h.conserved, List.append_assoc]
    · obtain ⟨hcount, hqueue⟩ := h.ended n hn
      exact ⟨hcount, congrArg (· ++ [m]) hqueue⟩
  | polled hctl => exact .of_polling h.conserved rfl rfl
  | @drained count hctl hqueue =>
    have hmail : deliver c .peek { c with ctl := .update count } g = { g with late := [] } := by
      simp [deliver, hqueue]
    rw [hmail]
    refine ⟨h.conserved, fun n hn => Control.noConfusion hn, fun n hn => Control.noConfusion hn,
      fun n hn => ?_⟩
    have hn : count = n := hn.elim Control.update.inj fun hn => Control.noConfusion hn
    exact ⟨hn ▸ h.polling count hctl, hqueue⟩
  | @skipped count queue hctl hqueue =>
    have hmail : deliver c .peek { c with queue := queue } g =
        { g with taken := g.taken ++ [.other], round := g.round ++ [.other] } := by
      simp [deliver, hqueue]
    rw [hmail]
    refine .of_polling (conserved_taken h.conserved hqueue) hctl ?_
    simpa [isSocket] using h.polling count hctl
  | @ignored count fd ev ec queue hctl hqueue hnone =>
    have hmail : deliver c .peek { c with poller := { c.poller with lastErr := ec }, queue := queue
                                          ctl := .polling (count + 1) } g =
        { g with taken := g.taken ++ [.socket fd ev ec]
                 round := g.round ++ [.socket fd ev ec] } := by
      simp [deliver, hqueue]
    rw [hmail]
    refine .of_polling (conserved_taken h.conserved hqueue) rfl ?_
    simpa [isSocket] using h.polling count hctl
  | @handled count fd ev ec queue x d hctl hqueue hsome =>
    have hmail : deliver c .peek { c with poller := { c.poller with lastErr := ec }, queue := queue
                                          ctl := .callback count
                                          log := c.log ++ [.called x d] } g =
        { g with taken := g.taken ++ [.socket fd ev ec]
                 round := g.round ++ [.socket fd ev ec] } := by
      simp [deliver, hqueue]
    rw [hmail]
    refine ⟨conserved_taken h.conserved hqueue, fun n hn => Control.noConfusion hn,
      fun n hn => ?_, fun n hn => ?_⟩
    · obtain rfl := Control.callback.inj hn
      obtain ⟨hfd, hd⟩ := handled_of_handleEvent hsome
      refine ⟨by simpa [isSocket] using h.polling count hctl, .socket fd ev ec, by simp, ?_⟩
      exact ⟨fd, ev, ec, x, d, rfl, by simp, hfd, hd⟩
    · rcases hn with hn | hn
      · exact Control.noConfusion hn
      · exact Control.noConfusion hn
  | @resumed count hctl =>
    exact .of_polling h.conserved rfl (h.callback count hctl).1
  | finished hctl => exact .of_idle h.conserved rfl

/-- **The messages of `Poll`.**  In every run, the messages that were posted are those taken out of
the queue, in this order, and those still in it.  When the loop has ended, all messages posted
before its end have been taken, and `Poll` counts the socket messages among those it took.  A
callback is for the message taken last. -/
theorem delivered_of_runs (hrun : runs es = some c) :
    ∃ g, history step deliver Config.init ⟨[], [], [], []⟩ es = some g ∧
      g.posted = g.taken ++ c.queue ∧
      (∀ count, c.ctl = .callback count → g.round.countP isSocket = count + 1 ∧
        ∃ m, g.round.getLast? = some m ∧ Answers c.log m) ∧
      ∀ count, c.ctl = .update count ∨ c.ctl = .updating count →
        g.round.countP isSocket = count ∧ c.queue = g.late := by
  obtain ⟨g, hg, h⟩ := exists_history deliver delivered_init
    (fun t g e u h hstep => h.step hstep) hrun
  exact ⟨g, hg, h.conserved, h.callback, h.ended⟩

/-- Two messages are in the queue when `Poll` is called.  A third one is posted in the callback for
the first, and is handled by the same call; a fourth one comes too late. -/
def postedMeanwhile : List Event :=
  [.call (.addFd 5 1), .call (.setPollIn 5), .post (.socket 5 fdRead 0), .post .other, .poll, .peek,
    .post (.socket 6 fdRead 0), .callbackReturn, .peek, .peek, .peek, .post (.socket 5 fdRead 0)]

theorem delivered_postedMeanwhile : ∃ c g, runs postedMeanwhile = some c ∧
    history step deliver Config.init ⟨[], [], [], []⟩ postedMeanwhile = some g ∧
    c.ctl = .update 2 ∧ g.round.countP isSocket = 2 ∧ c.queue = g.late ∧
    g.late = [.socket 5 fdRead 0] := by
  have hstate : (runs postedMeanwhile).map (fun c => (c.ctl, c.queue)) =
      some (.update 2, [.socket 5 fdRead 0]) := by decide +kernel
  obtain ⟨c, hc, hfacts⟩ := Option.map_eq_some_iff.mp hstate
  obtain ⟨hctl, hqueue⟩ := Prod.mk.inj hfacts
  obtain ⟨g, hg, -, -, hended⟩ := delivered_of_runs hc
  obtain ⟨hcount, hlate⟩ := hended 2 (Or.inl hctl)
  exact ⟨c, g, hc, hg, hctl, hcount, hlate, hlate.symm.trans hqueue⟩

end AsyncSelectPoller

end WinsockTut
