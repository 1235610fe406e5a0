import Mathlib.Data.List.Basic
import Mathlib.Data.List.Infix

/-!
# Runs of a partial transition function

A machine is a partial function `step : σ → ε → Option σ`: `step s e = some t` says that the event
`e` can happen in the state `s` and leads to `t`.  A run performs a list of events one after the
other.  Properties of a machine speak of all prefixes of a run, either of the states reached
(`Throughout`) or of the steps taken (`EachStep`).

The rules below are the only inductions over runs: `run_induction` carries an invariant along a
run, and `throughout_iff_eachStep` characterises the runs that never leave a set of good states by
a condition on the single steps.  `throughout_history` does the same for a machine that keeps a
history of its run.
-/

namespace Runs

variable {σ ε : Type*} {step : σ → ε → Option σ} {s t u : σ} {es fs : List ε} {e : ε}

/-- The state reached from `s` by performing the events `es`, if each of them can happen. -/
def run (step : σ → ε → Option σ) : σ → List ε → Option σ
  | s, [] => some s
  | s, e :: es => (step s e).bind fun t => run step t es

/-- The good states `Q` are never left along the run: every prefix of `es` ends in one. -/
def Throughout (step : σ → ε → Option σ) (s : σ) (es : List ε) (Q : List ε → σ → Prop) : Prop :=
  ∀ fs t, fs <+: es → run step s fs = some t → Q fs t

/-- Every step of the run meets the condition `C` on the events before it, the state it is taken
in and the event itself. -/
def EachStep (step : σ → ε → Option σ) (s : σ) (es : List ε) (C : List ε → σ → ε → Prop) : Prop :=
  ∀ fs e t, fs ++ [e] <+: es → run step s fs = some t → C fs t e

@[simp] theorem run_nil (step : σ → ε → Option σ) (s : σ) : run step s [] = some s := rfl

@[simp] theorem run_cons (step : σ → ε → Option σ) (s : σ) (e : ε) (es : List ε) :
    run step s (e :: es) = (step s e).bind fun t => run step t es := rfl

/-- A run of `es ++ fs` is a run of `es` followed by a run of `fs`. -/
theorem run_append (step : σ → ε → Option σ) (s : σ) (es fs : List ε) :
    run step s (es ++ fs) = (run step s es).bind fun t => run step t fs := by
  induction es generalizing s with
  | nil => rfl
  | cons e es ih =>
    simp only [List.cons_append, run_cons, Option.bind_assoc]
    exact congrArg _ (funext ih)

/-- A run can be continued by a run from the state it reaches. -/
theorem run_trans (h : run step s es = some t) (h' : run step t fs = some u) :
    run step s (es ++ fs) = some u := by
  rw [run_append, h, Option.bind_some, h']

/-- The last step of a run. -/
theorem run_append_singleton (step : σ → ε → Option σ) (s : σ) (es : List ε) (e : ε) :
    run step s (es ++ [e]) = (run step s es).bind fun t => step t e := by
  simp [run_append]

/-- A run that ends in `u` with the event `e` reaches some state in which `e` leads to `u`. -/
theorem exists_of_run_append_singleton (h : run step s (es ++ [e]) = some u) :
    ∃ t, run step s es = some t ∧ step t e = some u := by
  rwa [run_append_singleton, Option.bind_eq_some_iff] at h

/-- Every prefix of a run can be performed. -/
theorem exists_of_prefix (hp : fs <+: es) (h : run step s es = some t) :
    ∃ u, run step s fs = some u := by
  obtain ⟨gs, rfl⟩ := hp
  rw [run_append, Option.bind_eq_some_iff] at h
  obtain ⟨u, hu, -⟩ := h
  exact ⟨u, hu⟩

/-- The step taken after a prefix of a run. -/
theorem exists_step_of_prefix (hp : fs ++ [e] <+: es) (h : run step s es = some t) :
    ∃ u v, run step s fs = some u ∧ step u e = some v ∧ run step s (fs ++ [e]) = some v := by
  obtain ⟨v, hv⟩ := exists_of_prefix hp h
  obtain ⟨u, hu, hstep⟩ := exists_of_run_append_singleton hv
  exact ⟨u, v, hu, hstep, hv⟩

/-- **Invariant rule.**  What holds at the start, and is kept by every step taken after a prefix
of the run, holds at the end of the run.  The invariant may depend on the events performed. -/
theorem run_induction {P : List ε → σ → Prop} (h0 : P [] s)
    (hstep : ∀ fs e t u, fs ++ [e] <+: es → run step s fs = some t → P fs t →
      step t e = some u → P (fs ++ [e]) u)
    (h : run step s es = some t) : P es t := by
  induction es using List.reverseRecOn generalizing t with
  | nil =>
    obtain rfl : s = t := by simpa using h
    exact h0
  | append_singleton es e ih =>
    obtain ⟨u, hu, hue⟩ := exists_of_run_append_singleton h
    have hP : P es u := ih
      (fun fs e' t' u' hp => hstep fs e' t' u' (hp.trans (List.prefix_append es [e]))) hu
    exact hstep es e u t List.prefix_rfl hu hP hue

/-- **Rule for components.**  If each step of a machine is a run of a component of it, then so is
every run of the machine. -/
theorem exists_run_of_steps {τ ζ : Type*} {step' : τ → ζ → Option τ} {f : σ → τ}
    (hstep : ∀ s e t, step s e = some t → ∃ gs, run step' (f s) gs = some (f t))
    (h : run step s es = some t) : ∃ gs, run step' (f s) gs = some (f t) := by
  induction es generalizing s with
  | nil =>
    obtain rfl := Option.some.inj h
    exact ⟨[], rfl⟩
  | cons e es ih =>
    rw [run_cons, Option.bind_eq_some_iff] at h
    obtain ⟨u, hu, h⟩ := h
    obtain ⟨gs, hgs⟩ := hstep s e u hu
    obtain ⟨gs', hgs'⟩ := ih h
    exact ⟨gs ++ gs', run_trans hgs hgs'⟩

/-! ### Steps that have not been undone -/

/-- Some step of the run does `A`, and no later event does `B`. -/
def Since (step : σ → ε → Option σ) (s : σ) (es : List ε) (A : σ → ε → Prop) (B : ε → Prop) :
    Prop :=
  ∃ fs e gs t, es = fs ++ e :: gs ∧ run step s fs = some t ∧ A t e ∧ ∀ g ∈ gs, ¬ B g

theorem not_since_nil {A : σ → ε → Prop} {B : ε → Prop} : ¬ Since step s [] A B := by
  rintro ⟨fs, e, gs, t, hes, -⟩
  simp at hes

/-- The last event does `A`, or something is left from before that it does not undo. -/
theorem since_append_singleton {A : σ → ε → Prop} {B : ε → Prop} (h : run step s es = some t) :
    Since step s (es ++ [e]) A B ↔ (Since step s es A B ∧ ¬ B e) ∨ A t e := by
  constructor
  · rintro ⟨fs, e', gs, u, hes, hu, hA, hB⟩
    rcases List.eq_nil_or_concat gs with rfl | ⟨gs, g, rfl⟩
    · obtain ⟨rfl, hee⟩ := List.append_inj' hes rfl
      obtain rfl : e = e' := by simpa using hee
      obtain rfl : t = u := Option.some.inj (h.symm.trans hu)
      exact Or.inr hA
    · rw [List.concat_eq_append, ← List.cons_append, ← List.append_assoc] at hes
      obtain ⟨rfl, hee⟩ := List.append_inj' hes rfl
      obtain rfl : e = g := by simpa using hee
      refine Or.inl ⟨⟨fs, e', gs, u, rfl, hu, hA, fun x hx => hB x ?_⟩, hB e ?_⟩
      · simp [hx]
      · simp
  · rintro (⟨⟨fs, e', gs, u, rfl, hu, hA, hB⟩, hBe⟩ | hA)
    · refine ⟨fs, e', gs ++ [e], u, by simp, hu, hA, fun x hx => ?_⟩
      rcases List.mem_append.mp hx with hx | hx
      · exact hB x hx
      · exact List.mem_singleton.mp hx ▸ hBe
    · exact ⟨es, e, [], t, rfl, h, hA, fun x hx => absurd hx List.not_mem_nil⟩

/-- **History rule.**  A fact that is established by the steps `A`, ended by the events `B` and
otherwise kept, holds exactly if some `A` has not been followed by a `B`. -/
theorem iff_since {I : σ → Prop} {A : σ → ε → Prop} {B : ε → Prop} (h0 : ¬ I s)
    (hstep : ∀ fs t e u, run step s fs = some t → step t e = some u →
      (I u ↔ (I t ∧ ¬ B e) ∨ A t e))
    (hrun : run step s es = some t) : I t ↔ Since step s es A B := by
  refine run_induction (P := fun es t => I t ↔ Since step s es A B)
    (iff_of_false h0 not_since_nil) (fun fs e t u _ ht ih hs => ?_) hrun
  rw [hstep fs t e u ht hs, ih, since_append_singleton ht]

/-- A condition on all steps of a run holds on all steps of its prefixes. -/
theorem EachStep.of_prefix {C : List ε → σ → ε → Prop} (h : EachStep step s es C)
    (hp : fs <+: es) : EachStep step s fs C :=
  fun gs e t hg => h gs e t (hg.trans hp)

/-- A condition on all steps of a run, by the last step. -/
theorem eachStep_append_singleton {C : List ε → σ → ε → Prop} :
    EachStep step s (es ++ [e]) C ↔
      EachStep step s es C ∧ ∀ t, run step s es = some t → C es t e := by
  constructor
  · intro h
    exact ⟨h.of_prefix (List.prefix_append es [e]), fun t ht => h es e t List.prefix_rfl ht⟩
  · rintro ⟨hes, hlast⟩ fs f t hp ht
    rcases List.prefix_concat_iff.mp hp with hfs | hfs
    · obtain ⟨rfl, hef⟩ := List.append_inj' hfs rfl
      obtain rfl : f = e := by simpa using hef
      exact hlast t ht
    · exact hes fs f t hfs ht

/-- Events that meet a condition whenever they happen can be appended. -/
theorem eachStep_append_of_forall {C : List ε → σ → ε → Prop} (hes : EachStep step s es C)
    (hfs : ∀ f ∈ fs, ∀ gs t, C gs t f) : EachStep step s (es ++ fs) C := by
  induction fs using List.reverseRecOn with
  | nil => rwa [List.append_nil]
  | append_singleton fs f ih =>
    rw [← List.append_assoc, eachStep_append_singleton]
    exact ⟨ih fun g hg => hfs g (List.mem_append_left [f] hg), fun t _ =>
      hfs f (List.mem_append_right fs (List.mem_singleton_self f)) _ t⟩

/-- A run that consists of such events meets the condition. -/
theorem eachStep_of_forall {C : List ε → σ → ε → Prop} (hes : ∀ e ∈ es, ∀ gs t, C gs t e) :
    EachStep step s es C :=
  fun gs e t hp _ => hes e (hp.subset (List.mem_append_right gs (List.mem_singleton_self e))) gs t

/-- A condition that does not depend on the events before, by the first step. -/
theorem eachStep_cons {C : σ → ε → Prop} : EachStep step s (e :: es) (fun _ => C) ↔
    C s e ∧ ∀ t, step s e = some t → EachStep step t es fun _ => C := by
  constructor
  · intro h
    refine ⟨h [] e s (by simp) rfl, fun t ht fs f u hp hu => h (e :: fs) f u ?_ ?_⟩
    · simpa using hp
    · rw [run_cons, ht, Option.bind_some, hu]
  · rintro ⟨h, hes⟩ fs f u hp hu
    rcases fs with _ | ⟨g, fs⟩
    · obtain ⟨rfl, -⟩ := List.cons_prefix_cons.mp hp
      obtain rfl := Option.some.inj hu
      exact h
    · obtain ⟨rfl, hp'⟩ := List.cons_prefix_cons.mp hp
      rw [run_cons, Option.bind_eq_some_iff] at hu
      obtain ⟨t, ht, hu⟩ := hu
      exact hes t ht fs f u hp' hu

/-- The test of a condition at all steps of a run. -/
def checkSteps (step : σ → ε → Option σ) (C : σ → ε → Bool) : σ → List ε → Bool
  | _, [] => true
  | s, e :: es => C s e && (step s e).all fun t => checkSteps step C t es

/-- The runs that meet the condition are those that pass the test. -/
theorem eachStep_iff_checkSteps {C : σ → ε → Prop} [∀ s e, Decidable (C s e)] :
    EachStep step s es (fun _ => C) ↔
      checkSteps step (fun s e => decide (C s e)) s es = true := by
  induction es generalizing s with
  | nil =>
    refine iff_of_true (fun fs e t hp => ?_) rfl
    simp at hp
  | cons e es ih =>
    rw [eachStep_cons, checkSteps, Bool.and_eq_true, decide_eq_true_eq, Option.all_eq_true_iff_get]
    refine and_congr_right fun _ => ?_
    cases step s e with
    | none => simp
    | some t => simp [ih]

/-- The test of a condition in all states of a run. -/
def checkStates (step : σ → ε → Option σ) (Q : σ → Bool) : σ → List ε → Bool
  | s, [] => Q s
  | s, e :: es => Q s && (step s e).all fun t => checkStates step Q t es

/-- A run that passes the test meets the condition in all its states. -/
theorem throughout_of_checkStates {Q : σ → Prop} [∀ s, Decidable (Q s)]
    (h : checkStates step (fun s => decide (Q s)) s es = true) :
    Throughout step s es fun _ => Q := by
  intro fs t hp ht
  induction fs generalizing s es with
  | nil =>
    obtain rfl := Option.some.inj ht
    cases es with
    | nil => simpa [checkStates] using h
    | cons e es =>
      rw [checkStates, Bool.and_eq_true, decide_eq_true_eq] at h
      exact h.1
  | cons e fs ih =>
    obtain ⟨es, rfl⟩ := hp
    rw [run_cons, Option.bind_eq_some_iff] at ht
    obtain ⟨u, hu, ht⟩ := ht
    rw [List.cons_append, checkStates, Bool.and_eq_true, hu, Option.all_some] at h
    exact ih h.2 (List.prefix_append fs es) ht

/-- Two conditions that agree on the steps taken from reachable states are met by the same runs. -/
theorem eachStep_congr {C C' : List ε → σ → ε → Prop} (hrun : run step s es = some t)
    (h : ∀ fs e u v, run step s fs = some u → step u e = some v → (C fs u e ↔ C' fs u e)) :
    EachStep step s es C ↔ EachStep step s es C' := by
  constructor
  · intro hC fs e u hp hu
    obtain ⟨u', v, hu', hstep, -⟩ := exists_step_of_prefix hp hrun
    obtain rfl : u = u' := Option.some.inj (hu.symm.trans hu')
    exact (h fs e u v hu hstep).mp (hC fs e u hp hu)
  · intro hC' fs e u hp hu
    obtain ⟨u', v, hu', hstep, -⟩ := exists_step_of_prefix hp hrun
    obtain rfl : u = u' := Option.some.inj (hu.symm.trans hu')
    exact (h fs e u v hu hstep).mpr (hC' fs e u hp hu)

/-- Invariants that need a condition on the steps hold throughout the runs that meet it. -/
theorem throughout_of_eachStep {P : List ε → σ → Prop} {C : List ε → σ → ε → Prop}
    (h0 : P [] s)
    (hstep : ∀ fs e t u, fs ++ [e] <+: es → run step s fs = some t → P fs t → C fs t e →
      step t e = some u → P (fs ++ [e]) u)
    (hC : EachStep step s es C) : Throughout step s es P := by
  intro fs t hp hrun
  refine run_induction h0 (fun gs e u v hg hu hP hs => ?_) hrun
  exact hstep gs e u v (hg.trans hp) hu hP (hC gs e u (hg.trans hp) hu) hs

/-- **Exactness rule.**  Suppose an invariant `P` implies `Q`, is kept by the steps that meet `C`,
and a step from a state with the invariant that does not meet `C` leaves `Q`.  Then the run stays
within `Q` exactly if all its steps meet `C`. -/
theorem throughout_iff_eachStep {P Q : List ε → σ → Prop} {C : List ε → σ → ε → Prop}
    (h0 : P [] s) (hQ : ∀ fs t, fs <+: es → run step s fs = some t → P fs t → Q fs t)
    (hkeep : ∀ fs e t u, fs ++ [e] <+: es → run step s fs = some t → P fs t → C fs t e →
      step t e = some u → P (fs ++ [e]) u)
    (hbreak : ∀ fs e t u, fs ++ [e] <+: es → run step s fs = some t → P fs t → ¬ C fs t e →
      step t e = some u → ¬ Q (fs ++ [e]) u)
    (hrun : run step s es = some t) :
    Throughout step s es Q ↔ EachStep step s es C := by
  constructor
  · intro hall fs
    -- induction on the prefix: the invariant needs `C` at all earlier steps
    induction hn : fs.length using Nat.strong_induction_on generalizing fs with
    | _ n ih =>
      intro e u hp hu
      have hbefore : EachStep step s fs C := by
        intro gs e' w hg hw
        have hlen : gs.length < n := by
          have := hg.length_le
          simp only [List.length_append, List.length_singleton] at this
          omega
        exact ih gs.length hlen gs rfl e' w
          (hg.trans ((List.prefix_append fs [e]).trans hp)) hw
      have hfs : fs <+: es := (List.prefix_append fs [e]).trans hp
      have hP : P fs u := throughout_of_eachStep h0
        (fun gs e' t' u' hg => hkeep gs e' t' u' (hg.trans hfs)) hbefore fs u List.prefix_rfl hu
      obtain ⟨u', v, hu', hstep, hv⟩ := exists_step_of_prefix hp hrun
      obtain rfl : u = u' := Option.some.inj (hu.symm.trans hu')
      by_contra hC
      exact hbreak fs e u v hp hu hP hC hstep (hall _ v hp hv)
  · intro hC fs u hp hu
    exact hQ fs u hp hu (throughout_of_eachStep h0 hkeep hC fs u hp hu)

/-- **Rule for observations.**  A step adds to what has been seen what `made` says, and nothing
else.  Then all that is seen along the run has the property `Q` exactly if each step adds only such
things. -/
theorem throughout_seen_iff {ω : Type*} (seen : σ → ω → Prop) (made : σ → ε → ω → Prop)
    (Q : ω → Prop) (h0 : ∀ w, ¬ seen s w)
    (hnew : ∀ fs e t u, run step s fs = some t → step t e = some u →
      ∀ w, seen u w → seen t w ∨ made t e w)
    (hmade : ∀ fs e t u, run step s fs = some t → step t e = some u →
      ∀ w, made t e w → seen u w)
    (hrun : run step s es = some t) :
    Throughout step s es (fun _ c => ∀ w, seen c w → Q w) ↔
      EachStep step s es (fun _ c e => ∀ w, made c e w → Q w) := by
  refine throughout_iff_eachStep (P := fun _ c => ∀ w, seen c w → Q w)
    (fun w hw => absurd hw (h0 w)) (fun _ _ _ _ h => h) ?_ ?_ hrun
  · intro fs e u v _ hu hall hok hstep w hw
    rcases hnew fs e u v hu hstep w hw with hw | hw
    · exact hall w hw
    · exact hok w hw
  · intro fs e u v _ hu _ hbad hstep hall
    exact hbad fun w hw => hall w (hmade fs e u v hu hstep w hw)

/-! ### Histories -/

section

variable {γ : Type*} {note : σ → ε → σ → γ → γ} {g : γ}

/-- The machine with a history beside it: `note s e t g` is the history after the step from `s` to
`t` with the event `e`, if it was `g` before. -/
def recorded (step : σ → ε → Option σ) (note : σ → ε → σ → γ → γ) (c : σ × γ) (e : ε) :
    Option (σ × γ) :=
  (step c.1 e).map fun t => (t, note c.1 e t c.2)

/-- The history of a run that starts in `s` with the history `g`. -/
def history (step : σ → ε → Option σ) (note : σ → ε → σ → γ → γ) (s : σ) (g : γ) (es : List ε) :
    Option γ :=
  (run (recorded step note) (s, g) es).map Prod.snd

/-- Every step can be recorded. -/
theorem recorded_of_step (hstep : step t e = some u) :
    recorded step note (t, g) e = some (u, note t e u g) := by
  rw [recorded, hstep, Option.map_some]

/-- **Invariants of a machine and its history.**  What holds at the start, and is kept by the steps
that meet `C`, holds of the histories of the runs that meet it; in particular they all have one. -/
theorem throughout_history {P : σ → γ → Prop} {Q : γ → Prop} {C : σ → ε → Prop} (h0 : P s g)
    (hstep : ∀ t h e u, P t h → C t e → step t e = some u → P u (note t e u h))
    (hQ : ∀ t h, P t h → Q h) (hC : EachStep step s es fun _ => C) :
    Throughout step s es fun fs _ => ∃ h, history step note s g fs = some h ∧ Q h := by
  have hinv : Throughout step s es fun fs t =>
      ∃ h, run (recorded step note) (s, g) fs = some (t, h) ∧ P t h := by
    refine throughout_of_eachStep ⟨g, rfl, h0⟩ (fun fs e t u _ _ ih hok hs => ?_) hC
    obtain ⟨h, hrun, hP⟩ := ih
    refine ⟨note t e u h, ?_, hstep t h e u hP hok hs⟩
    rw [run_append_singleton, hrun, Option.bind_some, recorded_of_step hs]
  intro fs t hp ht
  obtain ⟨h, hrun, hP⟩ := hinv fs t hp ht
  exact ⟨h, by rw [history, hrun, Option.map_some], hQ t h hP⟩

/-- Every run has a history, and an invariant of the machine and its history that every step keeps
holds at the end. -/
theorem exists_history (note : σ → ε → σ → γ → γ) {P : σ → γ → Prop} (h0 : P s g)
    (hstep : ∀ t h e u, P t h → step t e = some u → P u (note t e u h))
    (hrun : run step s es = some t) :
    ∃ h, history step note s g es = some h ∧ P t h := by
  have hboth : ∃ h, run (recorded step note) (s, g) es = some (t, h) ∧ P t h := by
    refine run_induction (P := fun es t => ∃ h, run (recorded step note) (s, g) es = some (t, h) ∧
      P t h) ⟨g, rfl, h0⟩ (fun fs e t u _ _ ih hs => ?_) hrun
    obtain ⟨h, hrun, hP⟩ := ih
    refine ⟨note t e u h, ?_, hstep t h e u hP hs⟩
    rw [run_append_singleton, hrun, Option.bind_some, recorded_of_step hs]
  obtain ⟨h, hrun, hP⟩ := hboth
  exact ⟨h, by rw [history, hrun, Option.map_some], hP⟩

end

/-! ### Components -/

section

variable {σ' ε' : Type*} {step' : σ' → ε' → Option σ'} {view : σ → σ'} {part? : ε → Option ε'}

/-- **Component rule.**  A component takes part in some of the events, with one step each. -/
theorem run_filterMap
    (hpart : ∀ s e t, step s e = some t →
      run step' (view s) (part? e).toList = some (view t))
    (hrun : run step s es = some t) :
    run step' (view s) (es.filterMap part?) = some (view t) := by
  induction es generalizing s with
  | nil =>
    obtain rfl := Option.some.inj hrun
    rfl
  | cons e es ih =>
    rw [run_cons, Option.bind_eq_some_iff] at hrun
    obtain ⟨u, hu, hrun⟩ := hrun
    have hcons : (e :: es).filterMap part? = (part? e).toList ++ es.filterMap part? := by
      cases he : part? e <;> simp [he]
    rw [hcons]
    exact run_trans (hpart s e u hu) (ih hrun)

end

end Runs
