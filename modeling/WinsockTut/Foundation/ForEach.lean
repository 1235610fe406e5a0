import Mathlib.Data.List.TakeWhile

/-!
# Loops over a list that can be left early

`forEach body s xs` runs `body` on the elements of `xs` from the front, with a state that the rounds
pass on.  A round ends the loop by `break` or by `return`, or goes on with the next element.  What
the rounds before the last one have in common is an invariant of the elements that are done.
-/

namespace ForEach

variable {α σ ρ : Type*}

/-- How a round ends, or a loop. -/
inductive RoundEnd (σ ρ : Type*)
  /-- With the next element, or behind the last one. -/
  | next (s : σ)
  /-- By `break`. -/
  | stop (s : σ)
  /-- By `return`. -/
  | leave (r : ρ)
  deriving DecidableEq, Repr

/-- The loop. -/
def forEach (body : σ → α → RoundEnd σ ρ) : σ → List α → RoundEnd σ ρ
  | s, [] => .next s
  | s, x :: xs =>
    match body s x with
    | .next s => forEach body s xs
    | .stop s => .stop s
    | .leave r => .leave r

/-- The value of the function, if `f` is the code behind the loop, which a `return` does not
reach. -/
def RoundEnd.andThen (e : RoundEnd σ ρ) (f : σ → ρ) : ρ :=
  match e with
  | .next s => f s
  | .stop s => f s
  | .leave r => r

variable {body : σ → α → RoundEnd σ ρ} {s s' : σ} {x : α} {xs ys : List α} {r : ρ}

theorem forEach_cons_of_next (h : body s x = .next s') :
    forEach body s (x :: xs) = forEach body s' xs := by
  rw [forEach, h]

theorem forEach_cons_of_stop (h : body s x = .stop s') : forEach body s (x :: xs) = .stop s' := by
  rw [forEach, h]

theorem forEach_cons_of_leave (h : body s x = .leave r) : forEach body s (x :: xs) = .leave r := by
  rw [forEach, h]

/-- If the first rounds all go on, the loop goes on behind them. -/
theorem forEach_append (h : forEach body s xs = .next s') :
    forEach body s (xs ++ ys) = forEach body s' ys := by
  induction xs generalizing s with
  | nil =>
    obtain rfl : s = s' := RoundEnd.next.inj h
    rfl
  | cons x xs ih =>
    cases hbody : body s x with
    | next t =>
      rw [forEach_cons_of_next hbody] at h
      rw [List.cons_append, forEach_cons_of_next hbody, ih h]
    | stop t =>
      rw [forEach_cons_of_stop hbody] at h
      cases h
    | leave r =>
      rw [forEach_cons_of_leave hbody] at h
      cases h

variable {I : List α → σ → Prop} {done : List α}

/-- **The invariant rule**, for rounds that all go on. -/
theorem forEach_next (h : I done s) (hround : ∀ done x s, x ∈ xs → I done s →
    ∃ s', body s x = .next s' ∧ I (done ++ [x]) s') :
    ∃ s', forEach body s xs = .next s' ∧ I (done ++ xs) s' := by
  induction xs generalizing done s with
  | nil => exact ⟨s, rfl, by rwa [List.append_nil]⟩
  | cons x xs ih =>
    obtain ⟨t, ht, hI⟩ := hround done x s List.mem_cons_self h
    obtain ⟨s', hs', hI'⟩ := ih hI fun done y s hy => hround done y s (List.mem_cons_of_mem x hy)
    refine ⟨s', ?_, ?_⟩
    · rw [forEach_cons_of_next ht, hs']
    · rwa [List.append_assoc] at hI'

/-- **The rule of the first exit.**  If the rounds go on with the elements that `q` refuses, and
keep the invariant, then the loop runs to the end, or to the first element that `q` accepts. -/
theorem forEach_find (q : α → Bool) (h : I [] s) (hround : ∀ done x s, q x = false → I done s →
    ∃ s', body s x = .next s' ∧ I (done ++ [x]) s') (xs : List α) :
    ((∀ y ∈ xs, q y = false) ∧ ∃ s', forEach body s xs = .next s' ∧ I xs s') ∨
      ∃ done x rest s', xs = done ++ x :: rest ∧ (∀ y ∈ done, q y = false) ∧ q x = true ∧
        I done s' ∧ forEach body s xs = forEach body s' (x :: rest) := by
  cases hfind : xs.find? q with
  | none =>
    have hall : ∀ y ∈ xs, q y = false := fun y hy => by
      simpa using List.find?_eq_none.mp hfind y hy
    refine Or.inl ⟨hall, ?_⟩
    exact forEach_next h fun done y s hy => hround done y s (hall y hy)
  | some x =>
    obtain ⟨hx, done, rest, hsplit, hdone⟩ := List.find?_eq_some_iff_append.mp hfind
    have hall : ∀ y ∈ done, q y = false := fun y hy => by simpa using hdone y hy
    obtain ⟨s', hs', hI⟩ :=
      forEach_next h fun done y s hy => hround done y s (hall y hy)
    exact Or.inr ⟨done, x, rest, s', hsplit, hall, hx, hI, by rw [hsplit, forEach_append hs']⟩

/-! ### Up to the first element of a kind -/

variable {q : α → Bool}

/-- The elements up to the first one that `q` accepts, that one included. -/
def upTo (q : α → Bool) (xs : List α) : List α :=
  xs.takeWhile (fun x => !q x) ++ (xs.find? q).toList

theorem upTo_of_none (h : ∀ y ∈ xs, q y = false) : upTo q xs = xs := by
  have hfind : xs.find? q = none := List.find?_eq_none.mpr fun y hy => by simp [h y hy]
  have htake : xs.takeWhile (fun x => !q x) = xs :=
    List.takeWhile_eq_self_iff.mpr fun y hy => by simp [h y hy]
  rw [upTo, hfind, htake, Option.toList_none, List.append_nil]

theorem find?_split (h : ∀ y ∈ done, q y = false) (hx : q x = true) (rest : List α) :
    (done ++ x :: rest).find? q = some x :=
  List.find?_eq_some_iff_append.mpr ⟨hx, done, rest, rfl, fun y hy => by simp [h y hy]⟩

theorem takeWhile_split (h : ∀ y ∈ done, q y = false) (xs : List α) :
    (done ++ xs).takeWhile (fun x => !q x) = done ++ xs.takeWhile fun x => !q x :=
  List.takeWhile_append_of_pos fun y hy => by simp [h y hy]

theorem upTo_split (h : ∀ y ∈ done, q y = false) (hx : q x = true) (rest : List α) :
    upTo q (done ++ x :: rest) = done ++ [x] := by
  have hstop : (x :: rest).takeWhile (fun x => !q x) = [] :=
    List.takeWhile_cons_of_neg (by simp [hx])
  rw [upTo, find?_split h hx, takeWhile_split h, hstop, List.append_nil, Option.toList_some]

end ForEach
