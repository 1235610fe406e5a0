import Mathlib.Data.List.Basic

/-!
# Changing the first element of a kind

Tables searched from the front: `modifyFirst q f` changes the first element that satisfies `q`.
-/

namespace FirstMatch

variable {α β : Type*} {q : α → Bool} {f : α → α} {xs : List α} {i : ℕ}

/-- Change the first element that satisfies `q`, if there is one. -/
def modifyFirst (q : α → Bool) (f : α → α) (xs : List α) : List α :=
  match xs.findIdx? q with
  | some i => xs.modify i f
  | none => xs

theorem modifyFirst_of_findIdx (h : xs.findIdx? q = some i) :
    modifyFirst q f xs = xs.modify i f := by
  rw [modifyFirst, h]

@[simp] theorem length_modifyFirst (q : α → Bool) (f : α → α) (xs : List α) :
    (modifyFirst q f xs).length = xs.length := by
  unfold modifyFirst
  split
  · exact List.length_modify f xs _
  · rfl

/-- Every element is kept, or it is the first match and changed. -/
theorem getElem?_modifyFirst (q : α → Bool) (f : α → α) (xs : List α) (i : ℕ) :
    (modifyFirst q f xs)[i]? = xs[i]? ∨
      ∃ x, xs[i]? = some x ∧ q x = true ∧ xs.find? q = some x ∧
        (modifyFirst q f xs)[i]? = some (f x) := by
  cases h : xs.findIdx? q with
  | none => exact Or.inl (by rw [modifyFirst, h])
  | some j =>
    rw [modifyFirst_of_findIdx h]
    by_cases hij : j = i
    · subst hij
      obtain ⟨hj, hq, hbefore⟩ := List.findIdx?_eq_some_iff_getElem.mp h
      refine Or.inr ⟨xs[j], List.getElem?_eq_getElem hj, hq, ?_, ?_⟩
      · exact List.find?_eq_some_iff_getElem.mpr
          ⟨hq, j, hj, rfl, fun k hk => by simpa using hbefore k hk⟩
      · rw [List.getElem?_modify_eq, List.getElem?_eq_getElem hj]
        rfl
    · exact Or.inl (List.getElem?_modify_ne f xs hij)

/-- The first match is changed. -/
theorem mem_modifyFirst_of_find {x : α} (h : xs.find? q = some x) : f x ∈ modifyFirst q f xs := by
  obtain ⟨hq, j, hj, hx, hbefore⟩ := List.find?_eq_some_iff_getElem.mp h
  have hidx : xs.findIdx? q = some j := List.findIdx?_eq_some_iff_getElem.mpr
    ⟨hj, by rw [hx, hq], fun k hk => by simpa using hbefore k hk⟩
  rw [modifyFirst_of_findIdx hidx]
  refine List.mem_of_getElem? (i := j) ?_
  rw [List.getElem?_modify_eq, List.getElem?_eq_getElem hj, hx]
  rfl

/-- What holds of all elements still does if the first match keeps it. -/
theorem forall_modifyFirst {P : α → Prop} (h : ∀ x ∈ xs, P x)
    (hf : ∀ x, xs.find? q = some x → P (f x)) : ∀ y ∈ modifyFirst q f xs, P y := by
  intro y hy
  obtain ⟨i, hi⟩ := List.mem_iff_getElem?.mp hy
  rcases getElem?_modifyFirst q f xs i with hsame | ⟨x, -, -, hx, hchange⟩
  · exact h y (List.mem_of_getElem? (hsame.symm.trans hi))
  · obtain rfl := Option.some.inj (hchange.symm.trans hi)
    exact hf x hx

/-- A change commutes with a view of the elements that it respects. -/
theorem map_modifyFirst {v : α → β} {r : β → Bool} {g : β → β} (hq : ∀ x, r (v x) = q x)
    (hf : ∀ x, v (f x) = g (v x)) :
    (modifyFirst q f xs).map v = modifyFirst r g (xs.map v) := by
  have hidx : (xs.map v).findIdx? r = xs.findIdx? q := by
    rw [List.findIdx?_map]
    exact congrArg (xs.findIdx? ·) (funext hq)
  unfold modifyFirst
  rw [hidx]
  cases xs.findIdx? q with
  | none => rfl
  | some i =>
    refine List.ext_getElem? fun j => ?_
    simp only [List.getElem?_map, List.getElem?_modify]
    cases xs[j]? with
    | none => rfl
    | some x => by_cases hij : i = j <;> simp [hij, hf]

@[simp] theorem modifyFirst_nil (q : α → Bool) (f : α → α) : modifyFirst q f [] = [] := rfl

theorem modifyFirst_cons (q : α → Bool) (f : α → α) (x : α) (xs : List α) :
    modifyFirst q f (x :: xs) = if q x then f x :: xs else x :: modifyFirst q f xs := by
  unfold modifyFirst
  rw [List.findIdx?_cons]
  cases hx : q x with
  | true => rfl
  | false => cases xs.findIdx? q <;> rfl

theorem modifyFirst_of_find_none (h : xs.find? q = none) : modifyFirst q f xs = xs := by
  rw [modifyFirst, List.findIdx?_eq_none_iff.mpr fun x hx => ?_]
  simpa using List.find?_eq_none.mp h x hx

/-- A view that a change keeps does not show it. -/
theorem map_modifyFirst_of_same {v : α → β} (hf : ∀ x, v (f x) = v x) :
    (modifyFirst q f xs).map v = xs.map v := by
  induction xs with
  | nil => rfl
  | cons x xs ih =>
    rw [modifyFirst_cons]
    cases q x with
    | true => rw [if_pos rfl, List.map_cons, List.map_cons, hf]
    | false => rw [if_neg Bool.false_ne_true, List.map_cons, List.map_cons, ih]

/-- The list in front of the first match and behind it. -/
theorem exists_split {x : α} (f : α → α) (h : xs.find? q = some x) : ∃ l r, xs = l ++ x :: r ∧
    (∀ y ∈ l, q y = false) ∧ modifyFirst q f xs = l ++ f x :: r := by
  induction xs with
  | nil => simp at h
  | cons y xs ih =>
    rw [modifyFirst_cons]
    cases hy : q y with
    | true =>
      obtain rfl : y = x := by simpa [hy] using h
      exact ⟨[], xs, rfl, fun _ hz => absurd hz List.not_mem_nil, rfl⟩
    | false =>
      obtain ⟨l, r, rfl, hl, hmod⟩ := ih (by simpa [hy] using h)
      refine ⟨y :: l, r, rfl, fun z hz => ?_, ?_⟩
      · rcases List.mem_cons.mp hz with rfl | hz
        · exact hy
        · exact hl z hz
      · rw [if_neg Bool.false_ne_true, hmod, List.cons_append]

/-! ### Parts of the table -/

variable {p : α → Bool} {x : α}

/-- A change that keeps the first match within a part of the table is seen there as well. -/
theorem filter_modifyFirst_of_keep (hq : ∀ x, q x = true → p x = true)
    (hf : ∀ x, q x = true → p (f x) = true) :
    (modifyFirst q f xs).filter p = modifyFirst q f (xs.filter p) := by
  induction xs with
  | nil => rfl
  | cons x xs ih =>
    rw [modifyFirst_cons]
    cases hx : q x with
    | true =>
      rw [if_pos rfl, List.filter_cons_of_pos (hf x hx), List.filter_cons_of_pos (hq x hx),
        modifyFirst_cons, hx, if_pos rfl]
    | false =>
      rw [if_neg Bool.false_ne_true, List.filter_cons, List.filter_cons, ih]
      cases p x with
      | true => rw [if_pos rfl, if_pos rfl, modifyFirst_cons, hx, if_neg Bool.false_ne_true]
      | false => rfl

/-- A change that takes the first match out of a part of the table erases it there. -/
theorem filter_modifyFirst_of_drop (hq : ∀ x, q x = true → p x = true)
    (hf : ∀ x, q x = true → p (f x) = false) :
    (modifyFirst q f xs).filter p = (xs.filter p).eraseP q := by
  induction xs with
  | nil => rfl
  | cons x xs ih =>
    rw [modifyFirst_cons]
    cases hx : q x with
    | true =>
      rw [if_pos rfl, List.filter_cons_of_neg (by simp [hf x hx]),
        List.filter_cons_of_pos (hq x hx), List.eraseP_cons_of_pos hx]
    | false =>
      rw [if_neg Bool.false_ne_true, List.filter_cons, List.filter_cons, ih]
      cases p x with
      | true => rw [if_pos rfl, if_pos rfl, List.eraseP_cons_of_neg (by simp [hx])]
      | false => rfl

/-- A search that only a part of the table can answer may be made there. -/
theorem find?_filter_of_imp (hq : ∀ x, q x = true → p x = true) :
    (xs.filter p).find? q = xs.find? q := by
  rw [List.find?_filter]
  congr 1
  funext x
  cases hx : q x with
  | true => simp [hq x hx]
  | false => simp

end FirstMatch
