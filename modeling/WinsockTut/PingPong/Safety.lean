import WinsockTut.PingPong.Steps

/-!
# Runs of the server

The runs of the server in which nothing goes wrong are those in which no write of a deleted session
is reported: `soundness_iff`.  In such runs the table `sessions_` and the sessions belong together,
and each context in use is awaited, about to be used, or lost forever: `silent_iff_lost`.
-/

namespace WinsockTut

namespace PingPong

open Runs Word Function

variable {c c' t : Config} {i j : CtxId} {s s' : SessionId} {o o' : Session} {es : List Event}
  {closing : Option SessionId} {a : Answer}

/-- Fewer sessions than `counter_` can count: it starts at 2001. -/
def Config.Few (c : Config) : Prop := c.objs.length < 2147481646

/-- Nothing has gone wrong: no deleted session or context has been used, no context has been deleted
twice, and the next call can be executed, whatever the system answers. -/
structure Config.Sound (c : Config) : Prop where
  fault : c.fault = false
  defined : c.io.ctl ≠ .undefined
  nodup : (CompletionPortService.deletedIn c.io.log).Nodup
  progress : ∀ t rest, c.todo = t :: rest → ∀ a, (exec { c with todo := rest } a t).isSome = true

/-- A write that is reported has been made by a session that has not been deleted. -/
def WrittenAlive (c : Config) (e : Event) : Prop :=
  e = .dequeued → ∀ p queue, c.io.queue = p :: queue → p.ok = true →
    ∀ s i, c.bound p.ctx = some (.onWritten s i) → (c.session s).isSome = true

/-! ### The invariant along a run -/

theorem inv_init : Inv none Config.init where
  accounts :=
    { driven := CompletionPortService.driven_init
      known := by simp [Config.init, CompletionPortService.Config.init, CompletionPortService.init,
        CompletionPortService.Config.view, Contexts.get]
      alone := fun i => Nat.zero_le 1
      idle := fun i y _ _ => rfl
      freed := fun i hi => absurd hi List.not_mem_nil
      fits := fun i h hb => by
        obtain ⟨y, -, cb, -, hcb⟩ := face_of_bound hb
        simp [Config.init] at hcb
      busy := fun i hi => absurd hi (lt_irrefl 0)
      acceptor := nofun
      owned := fun s o hs => absurd (session_lt hs) (Nat.not_lt_zero s)
      apart := fun s _ o _ hs => absurd (session_lt hs) (Nat.not_lt_zero s)
      opened := fun s o hs => absurd (session_lt hs) (Nat.not_lt_zero s)
      own := fun s o hs => absurd (session_lt hs) (Nat.not_lt_zero s)
      ids := fun s o hs => absurd (session_lt hs) (Nat.not_lt_zero s)
      table := nofun
      counter := rfl }
  point := .rest
  user := nofun

/-- A step leads to a fault exactly if it reports the write of a deleted session. -/
theorem fault_iff_of_effect (h : Inv closing c) (hfault : c.fault = false) {e : Event}
    (heffect : Effect c e c') : c'.fault = true ↔ ¬ WrittenAlive c e := by
  have hother : e ≠ .dequeued → c'.fault = c.fault → (c'.fault = true ↔ ¬ WrittenAlive c e) := by
    intro he hsame
    rw [hsame, hfault]
    exact iff_of_false Bool.false_ne_true fun hnot => hnot fun heq => absurd heq he
  cases heffect with
  | failed htodo hqueue hok hio =>
    refine iff_of_false (by simp [hfault]) fun hnot => hnot ?_
    intro _ q queue hq hqok
    obtain ⟨rfl, -⟩ := List.cons.inj (hqueue.symm.trans hq)
    simp [hok] at hqok
  | @delivered p queue hd io htodo hqueue hok hb hio =>
    have halive : WrittenAlive c .dequeued ↔ ∀ s i, hd = .onWritten s i →
        (c.session s).isSome = true := by
      constructor
      · intro hall s i hs
        exact hall rfl p queue hqueue hok s i (hb.trans (congrArg some hs))
      · intro hall _ q queue' hq _ s i hbq
        obtain ⟨rfl, -⟩ := List.cons.inj (hqueue.symm.trans hq)
        exact hall s i (Option.some.inj (hb.symm.trans hbq))
    rw [halive]
    change hd.session?.any (fun s => (c.session s).isNone) = true ↔ _
    cases hd with
    | onAccept j => simp [Handler.session?]
    | onRead s j =>
      -- nothing is outstanding on the context of a deleted session
      obtain ⟨hd', hb', hreads⟩ := h.accounts.busy p.ctx (out_pos_of_queue hqueue)
      obtain rfl := Option.some.inj (hb.symm.trans hb')
      obtain ⟨rfl, -⟩ := h.accounts.fits p.ctx _ hb
      obtain ⟨o, hs, -⟩ := hreads s rfl
      simp [Handler.session?, hs]
    | onWritten s j => simp [Handler.session?, Option.isSome_iff_ne_none]
  | _ => exact hother (by simp) rfl

/-- The invariant holds until there is a fault. -/
theorem inv_of_runs (hrun : runs es = some c)
    (hfew : Throughout step Config.init es fun _ => Config.Few) (hfault : c.fault = false) :
    ∃ closing, Inv closing c := by
  refine run_induction (P := fun _ c => c.fault = false → ∃ closing, Inv closing c)
    (fun _ => ⟨none, inv_init⟩) (fun fs e t u hp ht ih hstep => ?_) hrun hfault
  have hno : t.fault = false := by
    by_contra hne
    simp [step, hne] at hstep
  obtain ⟨closing, h⟩ := ih hno
  have hfs : fs <+: es := (List.prefix_append fs [e]).trans hp
  exact (spec_of_step h (hfew fs t hfs ht) hstep).2

/-- The invariant excludes everything that could go wrong but a fault. -/
theorem Inv.sound (h : Inv closing c) (hfew : c.Few) (hfault : c.fault = false) : c.Sound where
  fault := hfault
  defined := h.accounts.driven.live.defined
  nodup := h.accounts.driven.nodup
  progress t rest htodo a := by
    obtain ⟨c', hexec, -⟩ := exec_spec h hfew htodo a
    rw [hexec]
    rfl

/-- **Soundness.**  As long as fewer sessions have been created than `counter_` can count, a run of
the server is sound exactly if no write of a deleted session is reported. -/
theorem soundness_iff (hrun : runs es = some c)
    (hfew : Throughout step Config.init es fun _ => Config.Few) :
    Throughout step Config.init es (fun _ => Config.Sound) ↔
      EachStep step Config.init es fun _ => WrittenAlive := by
  refine throughout_iff_eachStep
    (P := fun _ c => c.fault = false ∧ ∃ closing, Inv closing c) ⟨rfl, none, inv_init⟩ ?_ ?_ ?_ hrun
  · rintro fs t hp ht ⟨hfault, closing, h⟩
    exact h.sound (hfew fs t hp ht) hfault
  · rintro fs e t u hp ht ⟨hfault, closing, h⟩ halive hstep
    obtain ⟨heffect, hinv⟩ := spec_of_step h
      (hfew fs t ((List.prefix_append fs [e]).trans hp) ht) hstep
    have hno : u.fault = false := by
      rw [← Bool.not_eq_true, fault_iff_of_effect h hfault heffect]
      exact not_not.mpr halive
    exact ⟨hno, hinv hno⟩
  · rintro fs e t u hp ht ⟨hfault, closing, h⟩ hdead hstep hsound
    obtain ⟨heffect, -⟩ := spec_of_step h
      (hfew fs t ((List.prefix_append fs [e]).trans hp) ht) hstep
    have hyes := (fault_iff_of_effect h hfault heffect).mpr hdead
    rw [hsound.fault] at hyes
    cases hyes

/-! ### Two runs -/

instance (c : Config) : Decidable c.Few := inferInstanceAs (Decidable (_ < _))

/-- `Run` is called, and dequeues a packet. -/
def runOnce : List Event :=
  [.quiet .run, .quiet (.timer (.updateTimer 0)), .quiet (.timer .round), .quiet .updated,
    .dequeued]

/-- The system answers that an operation is pending. -/
def pending (socket : Socket) : Event := .exec ⟨true, socket, .pending⟩

/-- A connection is accepted, and ten bytes are read from it and written back. -/
def echoed : List Event :=
  [.start 5 true, pending 7, .complete 0 0 0] ++ runOnce ++
    [pending 0, pending 0, pending 0, pending 8, .callbackReturn, .complete 0 0 10] ++ runOnce ++
    [pending 0, pending 0, pending 0, .callbackReturn]

/-- The session is closed at the end of the stream, before its write is reported. -/
def closedBeforeWritten : List Event :=
  echoed ++ [.complete 2 0 0, .complete 1 0 10] ++ runOnce ++
    [pending 0, pending 0, pending 0, pending 0, pending 0, .callbackReturn] ++ runOnce

theorem soundness_closedBeforeWritten :
    (runs closedBeforeWritten).map Config.fault = some true ∧
      ¬ EachStep step Config.init closedBeforeWritten fun _ => WrittenAlive := by
  have hfault : (runs closedBeforeWritten).map Config.fault = some true := by decide +kernel
  obtain ⟨c, hrun, hc⟩ := Option.map_eq_some_iff.mp hfault
  have hfew : Throughout step Config.init closedBeforeWritten fun _ => Config.Few :=
    throughout_of_checkStates (by decide +kernel)
  refine ⟨hfault, fun halive => ?_⟩
  have hsound := (soundness_iff hrun hfew).mpr halive _ c List.prefix_rfl hrun
  rw [hsound.fault] at hc
  cases hc

/-! ### The table of the sessions -/

/-- **The table of the sessions.**  Whenever no callback is running, the table `sessions_` lists
exactly the sessions that have not been deleted, each under its id; no two of them share an id or a
context, and none reads with the context of the acceptor or with one that is to be deleted.  This
holds as long as `counter_` has not overflowed (`Config.Few`) and no deleted session has been
used. -/
theorem sessions_of_runs (hrun : runs es = some c)
    (hfew : Throughout step Config.init es fun _ => Config.Few) (hfault : c.fault = false)
    (hrest : c.todo = []) :
    (∀ sid s, c.server.sessions sid = some s ↔ ∃ o, c.session s = some o ∧ o.id = sid) ∧
      (∀ s s' o o', c.session s = some o → c.session s' = some o' →
        o.id = o'.id ∨ o.recvCtx = o'.recvCtx → s = s') ∧
      ∀ s o, c.session s = some o → c.InUse o.recvCtx ∧ c.server.ctx ≠ some o.recvCtx := by
  obtain ⟨closing, hinv⟩ := inv_of_runs hrun hfew hfault
  have h := (hinv.at_rest hrest).accounts
  have hopen : ∀ s o, c.session s = some o → 0 < o.id := fun s o hs => (h.ids s o hs).2 nofun
  have hlisted : ∀ s o, c.session s = some o → c.server.sessions o.id = some s :=
    fun s o hs => (h.opened s o hs (hopen s o hs)).2
  refine ⟨fun sid s => ⟨fun hsid => ?_, ?_⟩, ?_, ?_⟩
  · obtain ⟨-, o, hs, hid⟩ := h.table sid s hsid
    exact ⟨o, hs, hid nofun⟩
  · rintro ⟨o, hs, rfl⟩
    exact hlisted s o hs
  · rintro s s' o o' hs hs' (hid | hctx)
    · exact Option.some.inj ((hlisted s o hs).symm.trans (hid ▸ hlisted s' o' hs'))
    · exact h.apart s s' o o' hs hs' hctx
  · intro s o hs
    exact ⟨(h.opened s o hs (hopen s o hs)).1, (h.owned s o hs).2⟩

theorem sessions_echoed : ∃ c, runs echoed = some c ∧ ∃ o, c.session 0 = some o ∧ o.id = 2001 ∧
    c.server.sessions 2001 = some 0 ∧ c.InUse o.recvCtx := by
  have hstate : (runs echoed).map (fun c => (c.fault, c.todo, c.session 0)) =
      some (false, [], some ⟨2001, 7, 1⟩) := by decide +kernel
  obtain ⟨c, hrun, hc⟩ := Option.map_eq_some_iff.mp hstate
  obtain ⟨hfault, hc'⟩ := Prod.mk.inj hc
  obtain ⟨hrest, hs⟩ := Prod.mk.inj hc'
  obtain ⟨htable, -, huse⟩ :=
    sessions_of_runs hrun (throughout_of_checkStates (by decide +kernel)) hfault hrest
  exact ⟨c, hrun, _, hs, rfl, (htable 2001 0).mpr ⟨_, hs, rfl⟩, (huse 0 _ hs).1⟩

end PingPong

end WinsockTut
