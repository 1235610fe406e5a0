import WinsockTut.Timer.Guarantees

/-!
# The entries that are in use, and the destructor

`AddTimer` creates an entry, and `CancelTimer`, `UpdateTimer` and the destructor delete entries.
An entry is held by the heap, or by `UpdateTimer` while its callback is running.  As long as no id
is cancelled twice, the live entries are those that are held, in every state (`Inv.live_iff`).  So
`clear` deletes every entry that is left exactly once, and nothing has leaked when the scheduler is
gone: `destroyed_of_runs`.  The map is not cleared with the heap.
-/

namespace WinsockTut

namespace TimerSched

open Runs Word Function

variable {s t : TimerSched} {c d : Config} {e : Event} {es : List Event} {a b : Addr}
  {id now lastId : ℤ}

/-- `void TimerSched::clear()`, which is all that the destructor does. -/
def clear (s : TimerSched) : Option TimerSched := do
  let s ← s.heap.foldlM delete s
  return { s with heap := [] }

/-- The entry at `a` is in the heap, or its callback is running. -/
def Config.Holds (c : Config) (a : Addr) : Prop :=
  a ∈ c.sched.heap ∨ ∃ now lastId, c.ctl = .callback now lastId a

/-- Every live entry is held. -/
def Config.NoLeak (c : Config) : Prop := ∀ a, (c.sched.payload a).isSome = true → c.Holds a

/-! ### What a step leaves behind -/

/-- After an entry has been taken out and deleted, the live entries are held by the heap, or they
were not in the heap before. -/
theorem Removed.live (h : Removed a s t) (hfree : t.mem a = none)
    (hb : (t.payload b).isSome = true) :
    (s.payload b).isSome = true ∧ (b ∈ s.heap → b ∈ t.heap) := by
  have hba : b ≠ a := by
    rintro rfl
    simp [TimerSched.payload, hfree] at hb
  refine ⟨h.payload b hba ▸ hb, fun hm => ?_⟩
  exact (List.mem_cons.mp (h.perm.mem_iff.mp hm)).resolve_left hba

/-- A timer without a sink is deleted in the round that takes it off the heap. -/
theorem Inv.freed_of_dropped (h : Inv c) (hmax : c.sched.heap.length ≤ 2147483647)
    (hrem : Removed a c.sched d.sched) (hlog : d.log = c.log ++ [.popped id now])
    (hstep : TimerSched.step c .round = some d) : d.sched.mem a = none := by
  cases taken_of_step hstep with
  | left => simp at hlog
  | skipped => simp at hlog
  | fired => simp at hlog
  | @dropped now' lastId u t b x hctl hround hsink hdelete =>
    obtain ⟨hfree, hout⟩ : t.mem b = none ∧ b ∈ c.sched.heap := by
      have hroot : c.sched.heap[0]? = some b := by
        rcases updateRound_cases h.heap hmax now' lastId with ⟨-, hdone⟩ |
            ⟨b', y, hb, -, ⟨-, hdone⟩ | ⟨-, -, hskip⟩ | ⟨-, -, v', y', hpop, -⟩⟩
        · simp [hdone] at hround
        · simp [hdone] at hround
        · simp [hskip] at hround
        · have hpopped := hpop.symm.trans hround
          simp only [Option.some.injEq, Prod.mk.injEq, Round.popped.injEq] at hpopped
          rw [hb, hpopped.2.1]
      refine ⟨?_, List.mem_of_getElem? hroot⟩
      unfold TimerSched.delete at hdelete
      split at hdelete
      · cases hdelete
      · rw [← Option.some.inj hdelete]
        exact update_self b none u.mem
    by_contra hlive
    have hba : b ≠ a := fun hba => hlive (hba ▸ hfree)
    have hsame := hrem.payload b hba
    obtain ⟨y, hy⟩ := h.heap.distinct.live b hout
    simp [TimerSched.payload, hfree, hy] at hsame

/-- **No step leaks an entry.** -/
theorem Config.NoLeak.step (h : c.NoLeak) (hinv : Inv c) (hmax : c.sched.heap.length ≤ 2147483647)
    (hstep : TimerSched.step c e = some d) (heff : Effect c e d) : d.NoLeak := by
  intro b hb
  have hen := enabled_of_step hstep
  -- an entry that is still alive keeps its place, unless control has left its callback
  have hkept : ∀ {t : TimerSched} {a : Addr} {ctl : Control} {log : List Obs},
      Removed a c.sched t → t.mem a = none →
      (∀ now lastId, c.ctl = .callback now lastId b → ctl = .callback now lastId b) →
      (t.payload b).isSome = true → Config.Holds ⟨t, ctl, log⟩ b := by
    intro t a ctl log hrem hfree hctl hlive
    obtain ⟨hbefore, hheap⟩ := hrem.live hfree hlive
    rcases h b hbefore with hm | ⟨now, lastId, hcb⟩
    · exact .inl (hheap hm)
    · exact .inr ⟨now, lastId, hctl now lastId hcb⟩
  cases heff with
  | @added a _ _ _ t hcall hfree hins =>
    have hback : b ≠ a → (c.sched.payload b).isSome = true := fun hba => hins.payload b hba ▸ hb
    by_cases hba : b = a
    · exact .inl (hins.perm.mem_iff.mpr (hba ▸ List.mem_cons_self))
    · rcases h b (hback hba) with hm | hcb
      · exact .inl (hins.perm.mem_iff.mpr (List.mem_cons_of_mem a hm))
      · exact .inr hcb
  | missed => exact h b hb
  | cancelled _ _ _ hrem _ hfree => exact hkept hrem hfree (fun _ _ hctl => hctl) hb
  | entered =>
    have hidle : c.ctl = .idle := hen
    rcases h b hb with hm | ⟨_, _, hcb⟩
    · exact .inl hm
    · rw [hidle] at hcb
      cases hcb
  | left =>
    obtain ⟨_, _, hloop⟩ := hen
    rcases h b hb with hm | ⟨_, _, hcb⟩
    · exact .inl hm
    · rw [hloop] at hcb
      cases hcb
  | spun => exact h b hb
  | dropped _ _ _ _ hrem =>
    exact hkept hrem (hinv.freed_of_dropped hmax hrem rfl hstep) (fun _ _ hctl => hctl) hb
  | @fired now lastId _ _ a _ t hloop _ _ _ hrem =>
    by_cases hba : b = a
    · exact .inr ⟨now, lastId, by rw [hba]⟩
    · have hbefore : (c.sched.payload b).isSome = true := hrem.payload b hba ▸ hb
      rcases h b hbefore with hm | ⟨_, _, hcb⟩
      · exact .inl ((List.mem_cons.mp (hrem.perm.mem_iff.mp hm)).resolve_left hba)
      · rw [hloop] at hcb
        cases hcb
  | @returned now lastId a hctl =>
    have hba : b ≠ a := by
      rintro rfl
      simp [payload] at hb
    have hbefore : (c.sched.payload b).isSome = true := by
      simpa [payload, update_of_ne hba] using hb
    rcases h b hbefore with hm | ⟨_, _, hcb⟩
    · exact .inl hm
    · rw [hctl] at hcb
      cases hcb
      exact absurd rfl hba

/-- In a run that cancels no id twice, no entry is leaked. -/
theorem noLeak_of_runs (honce : CancelledOnce es) (hfew : FewTimers es) (hrun : runs es = some c) :
    c.NoLeak := by
  refine run_induction (P := fun _ c => c.NoLeak) (fun a ha => by simp [payload, Config.init, init]
    at ha) (fun fs e t u hp ht ih hstep => ?_) hrun
  have hfs : fs <+: es := (List.prefix_append fs [e]).trans hp
  have hledger := ledger_of_runs (honce.of_prefix hfs) (hfew.of_prefix hfs) ht
  have hcount : createdIn t.log + created [e] < 2147483648 - 100 := by
    rw [hledger.created, ← created_append]
    exact hfew.of_prefix hp
  have heff := hledger.inv.effect hcount (hledger.safe (honce.of_prefix hp)) hstep
  have hsize := hledger.inv.size
  exact ih.step hledger.inv (by omega) hstep heff

/-- The live entries are those that are held. -/
theorem Inv.live_iff (h : Inv c) (hleak : c.NoLeak) (a : Addr) :
    (c.sched.mem a).isSome = true ↔ c.Holds a := by
  constructor
  · intro hlive
    exact hleak a (by simpa [TimerSched.payload] using hlive)
  · rintro (hm | ⟨now, lastId, hctl⟩)
    · obtain ⟨x, hx⟩ := h.heap.distinct.live a hm
      simp [hx]
    · exact (h.firing now lastId a hctl).2

/-! ### The destructor -/

/-- Deleting different live entries one after the other. -/
theorem foldlM_delete (l : List Addr) (hnd : l.Nodup)
    (hlive : ∀ a ∈ l, (s.mem a).isSome = true) :
    ∃ t, l.foldlM delete s = some t ∧ t.ref = s.ref ∧
      ∀ a, t.mem a = if a ∈ l then none else s.mem a := by
  induction l generalizing s with
  | nil => exact ⟨s, rfl, rfl, fun a => by simp⟩
  | cons b l ih =>
    obtain ⟨hb, hnd⟩ := List.nodup_cons.mp hnd
    obtain ⟨x, hx⟩ := Option.isSome_iff_exists.mp (hlive b List.mem_cons_self)
    have hdelete : s.delete b = some { s with mem := update s.mem b none } := by
      simp [TimerSched.delete, hx]
    obtain ⟨t, hfold, href, hmem⟩ := ih (s := { s with mem := update s.mem b none }) hnd
      fun a ha => by
        have hab : a ≠ b := fun hab => hb (hab ▸ ha)
        simpa [update_of_ne hab] using hlive a (List.mem_cons_of_mem b ha)
    refine ⟨t, by simp [List.foldlM_cons, hdelete, hfold], href, fun a => ?_⟩
    rw [hmem a]
    by_cases hab : a = b
    · simp [hab]
    · simp [hab]

/-- **Nothing leaks, and nothing is deleted twice.**  In a run that cancels no id twice, the live
entries are those of the heap and the one whose callback is running.  `clear` is then defined in
every state: it deletes the entries of the heap, and leaves only the entry of the callback and the
map. -/
theorem destroyed_of_runs (honce : CancelledOnce es) (hfew : FewTimers es)
    (hrun : runs es = some c) :
    (∀ a, (c.sched.mem a).isSome = true ↔ c.Holds a) ∧
      ∃ t, c.sched.clear = some t ∧ t.heap = [] ∧ t.ref = c.sched.ref ∧
        ∀ a, (t.mem a).isSome = true ↔ ∃ now lastId, c.ctl = .callback now lastId a := by
  have hinv := (ledger_of_runs honce hfew hrun).inv
  have hlive := hinv.live_iff (noLeak_of_runs honce hfew hrun)
  obtain ⟨t, hfold, href, hmem⟩ := foldlM_delete c.sched.heap hinv.heap.nodup
    fun a ha => (hlive a).mpr (.inl ha)
  refine ⟨hlive, { t with heap := [] }, by simp [clear, hfold], rfl, href, fun a => ?_⟩
  change (t.mem a).isSome = true ↔ _
  rw [hmem a]
  split
  · rename_i hm
    refine iff_of_false (by simp) ?_
    rintro ⟨now, lastId, hctl⟩
    exact (hinv.firing now lastId a hctl).1 hm
  · rename_i hm
    rw [hlive a, Config.Holds, or_iff_right hm]

/-- The scheduler is destroyed while one timer is pending; one has fired, and one was cancelled. -/
theorem destroyed_afterTimeout : ∃ c t,
    runs (sampleRun ++ [.round]) = some c ∧ c.sched.heap = [2] ∧ c.sched.clear = some t ∧
      (∀ a, t.mem a = none) ∧ t.ref 102 = some 2 := by
  have hstate : (runs (sampleRun ++ [.round])).map (fun c => (c.ctl, c.sched.heap, c.sched.ref 102))
      = some (.idle, [2], some 2) := by decide +kernel
  obtain ⟨c, hc, hs⟩ := Option.map_eq_some_iff.mp hstate
  simp only [Prod.mk.injEq] at hs
  obtain ⟨hctl, hheap, href⟩ := hs
  obtain ⟨-, t, hclear, -, hsame, hmem⟩ :=
    destroyed_of_runs (by decide +kernel) (by decide +kernel) hc
  refine ⟨c, t, hc, hheap, hclear, fun a => ?_, by rw [hsame, href]⟩
  by_contra hne
  obtain ⟨now, lastId, hcb⟩ := (hmem a).mp (Option.isSome_iff_ne_none.mpr hne)
  rw [hctl] at hcb
  cases hcb

end TimerSched

end WinsockTut
