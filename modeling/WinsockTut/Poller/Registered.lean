import WinsockTut.Async.History

/-!
# The registered sockets and their interests

What the operations of a poller are for: they keep a list of the registered sockets, in the order
of their registration, and for each of them the two interests.  A call refers to the first
registration of a socket.  `act` says this without retired entries, and `live_apply` that the
tables of the asynchronous pollers do it among their live entries, wherever the retired ones are
taken out.  Only the first registration of a socket can have interests that are on, so that none is
left when it is removed (`wanted_removed`).
-/

namespace WinsockTut

open FirstMatch

/-- The operation is about a socket. -/
def Op.Valid : Op → Prop
  | .added fd _ => fd ≠ invalidSocket
  | .removed fd => fd ≠ invalidSocket
  | .interest _ _ fd => fd ≠ invalidSocket
  | .compacted => True

namespace Registration

variable {rs : List Registration} {r : Registration} {d d' : Direction} {on forget : Bool}
  {fd fd' : Socket} {op : Op}

/-- The registrations that have not been removed. -/
def live (rs : List Registration) : List Registration := rs.filter fun r => r.fd ≠ invalidSocket

/-- The effect of an operation on the registered sockets. -/
def act (rs : List Registration) : Op → List Registration
  | .added fd _ => rs ++ [{ fd := fd, reads := false, writes := false }]
  | .removed fd => rs.eraseP fun r => r.fd = fd
  | .interest d on fd => modifyFirst (fun r => r.fd = fd) (setInterest d on) rs
  | .compacted => rs

/-- The interest in a socket: that of its first registration. -/
def wanted (rs : List Registration) (d : Direction) (fd : Socket) : Bool :=
  (rs.find? fun r => r.fd = fd).any fun r => r.wants d

/-- Only the first registration of a socket has interests that are on. -/
def FirstWants (rs : List Registration) : Prop :=
  rs.Pairwise fun r r' => r.fd = r'.fd → ∀ d, r'.wants d = false

@[simp] theorem setInterest_fd (d : Direction) (on : Bool) (r : Registration) :
    (r.setInterest d on).fd = r.fd := by
  cases d <;> rfl

theorem wants_setInterest (d d' : Direction) (on : Bool) (r : Registration) :
    (r.setInterest d on).wants d' = if d = d' then on else r.wants d' := by
  cases d <;> cases d' <;> rfl

theorem wants_new (fd : Socket) (d : Direction) :
    wants { fd := fd, reads := false, writes := false } d = false := by
  cases d <;> rfl

/-! ### The live registrations -/

/-- **The operations do among the live registrations what they should.** -/
theorem live_apply (forget : Bool) (rs : List Registration) (hop : op.Valid) :
    live (apply forget rs op) = act (live rs) op := by
  cases op with
  | added fd event => simp [apply, act, live, show fd ≠ invalidSocket from hop]
  | removed fd =>
    refine filter_modifyFirst_of_drop (fun r hr => ?_) fun r _ => by simp [retire]
    obtain rfl : r.fd = fd := of_decide_eq_true hr
    exact decide_eq_true hop
  | interest d on fd =>
    have hfd : ∀ r : Registration, decide (r.fd = fd) = true → r.fd ≠ invalidSocket :=
      fun r hr => of_decide_eq_true hr ▸ hop
    refine filter_modifyFirst_of_keep (fun r hr => decide_eq_true (hfd r hr)) fun r hr => ?_
    exact decide_eq_true ((setInterest_fd d on r).symm ▸ hfd r hr)
  | compacted => simp [apply, act, live, List.filter_filter]

/-- The first registration of a socket is live. -/
theorem find?_live (rs : List Registration) (hfd : fd ≠ invalidSocket) :
    (live rs).find? (fun r => r.fd = fd) = rs.find? fun r => r.fd = fd := by
  refine find?_filter_of_imp fun r hr => ?_
  obtain rfl : r.fd = fd := of_decide_eq_true hr
  exact decide_eq_true hfd

theorem wanted_live (rs : List Registration) (d : Direction) (hfd : fd ≠ invalidSocket) :
    wanted (live rs) d fd = wanted rs d fd := by
  rw [wanted, find?_live rs hfd, wanted]

/-! ### The interests -/

theorem wanted_cons (r : Registration) (rs : List Registration) (d : Direction) (fd : Socket) :
    wanted (r :: rs) d fd = if r.fd = fd then r.wants d else wanted rs d fd := by
  unfold wanted
  by_cases hr : r.fd = fd
  · simp [hr]
  · simp [hr]

theorem act_removed_cons (r : Registration) (rs : List Registration) (fd : Socket) :
    act (r :: rs) (.removed fd) = if r.fd = fd then rs else r :: act rs (.removed fd) := by
  rw [act, List.eraseP_cons, act]
  by_cases hr : r.fd = fd <;> simp [hr]

/-- A new registration has no interests. -/
theorem wanted_added (rs : List Registration) (event : Sink) (d : Direction) (fd fd' : Socket) :
    wanted (act rs (.added fd' event)) d fd = wanted rs d fd := by
  induction rs with
  | nil =>
    rw [act, List.nil_append, wanted_cons, wants_new]
    exact ite_self false
  | cons r rs ih =>
    have hcons : act (r :: rs) (.added fd' event) = r :: act rs (.added fd' event) := rfl
    rw [hcons, wanted_cons, wanted_cons, ih]

/-- No interest is left when the first registration of a socket has been removed. -/
theorem wanted_removed (h : FirstWants rs) (d : Direction) (fd fd' : Socket) :
    wanted (act rs (.removed fd')) d fd = if fd = fd' then false else wanted rs d fd := by
  induction rs with
  | nil => simp [act, wanted]
  | cons r rs ih =>
    obtain ⟨hr, hrs⟩ := List.pairwise_cons.mp h
    by_cases hfd : r.fd = fd'
    · rw [act_removed_cons, if_pos hfd, wanted_cons]
      by_cases heq : fd = fd'
      · rw [if_pos heq, wanted]
        cases hfind : rs.find? fun r => r.fd = fd with
        | none => rfl
        | some r' =>
          have hr' : r'.fd = fd := by simpa using List.find?_some hfind
          exact hr r' (List.mem_of_find?_eq_some hfind) (hfd.trans (heq.symm.trans hr'.symm)) d
      · rw [if_neg heq, if_neg fun h => heq (h.symm.trans hfd)]
    · rw [act_removed_cons, if_neg hfd, wanted_cons, wanted_cons, ih hrs]
      by_cases hr : r.fd = fd
      · rw [if_pos hr, if_pos hr, if_neg fun h => hfd (hr.trans h)]
      · rw [if_neg hr, if_neg hr]

/-- The operations on the interests change one interest of one socket. -/
theorem wanted_interest (hreg : ∃ r ∈ rs, r.fd = fd') (d d' : Direction) (on : Bool)
    (fd : Socket) : wanted (act rs (.interest d' on fd')) d fd =
      if fd = fd' ∧ d' = d then on else wanted rs d fd := by
  induction rs with
  | nil => simp at hreg
  | cons r rs ih =>
    rw [act, modifyFirst_cons, wanted_cons]
    by_cases hr : r.fd = fd'
    · rw [if_pos (by simpa using hr), wanted_cons, setInterest_fd, wants_setInterest]
      by_cases hfd : r.fd = fd
      · by_cases hd : d' = d
        · rw [if_pos hfd, if_pos hd, if_pos ⟨hfd.symm.trans hr, hd⟩]
        · rw [if_pos hfd, if_neg hd, if_neg (fun h => hd h.2), if_pos hfd]
      · rw [if_neg hfd, if_neg hfd, if_neg fun h => hfd (hr.trans h.1.symm)]
    · rw [if_neg (by simpa using hr), wanted_cons]
      obtain ⟨r', hr', hfd'⟩ := hreg
      have hrs : ∃ r ∈ rs, r.fd = fd' := by
        rcases List.mem_cons.mp hr' with rfl | hr'
        · exact absurd hfd' hr
        · exact ⟨r', hr', hfd'⟩
      by_cases hfd : r.fd = fd
      · rw [if_pos hfd, if_pos hfd, if_neg fun h => hr (hfd.trans h.1)]
      · rw [if_neg hfd, if_neg hfd]
        exact ih hrs

/-- **Later registrations never get interests.** -/
theorem firstWants_act (h : FirstWants rs) (op : Op) : FirstWants (act rs op) := by
  cases op with
  | added fd event =>
    refine List.pairwise_append.mpr ⟨h, List.pairwise_singleton _ _, fun r _ r' hr' _ d => ?_⟩
    obtain rfl := List.mem_singleton.mp hr'
    exact wants_new fd d
  | removed fd => exact List.Pairwise.sublist List.eraseP_sublist h
  | interest d on fd =>
    induction rs with
    | nil => exact List.Pairwise.nil
    | cons r rs ih =>
      obtain ⟨hr, hrs⟩ := List.pairwise_cons.mp h
      rw [act, modifyFirst_cons]
      by_cases hfd : r.fd = fd
      · rw [if_pos (by simpa using hfd)]
        exact List.pairwise_cons.mpr ⟨fun r' hr' heq => hr r' hr' (by simpa using heq), hrs⟩
      · rw [if_neg (by simpa using hfd)]
        refine List.pairwise_cons.mpr ⟨forall_modifyFirst hr fun r' hr' heq => ?_, ih hrs⟩
        have hr' : r'.fd = fd := by simpa using List.find?_some hr'
        exact absurd (heq.trans ((setInterest_fd d on r').trans hr')) hfd
  | compacted => exact h

/-! ### The sockets -/

/-- The registered sockets after an operation. -/
theorem map_fd_act (rs : List Registration) (op : Op) : (act rs op).map Registration.fd =
    match op with
    | .added fd _ => rs.map Registration.fd ++ [fd]
    | .removed fd => (rs.map Registration.fd).erase fd
    | .interest _ _ _ | .compacted => rs.map Registration.fd := by
  cases op with
  | added fd event => exact List.map_append
  | removed fd =>
    change _ = (rs.map Registration.fd).erase fd
    induction rs with
    | nil => rfl
    | cons r rs ih =>
      rw [act_removed_cons, List.map_cons]
      by_cases hfd : r.fd = fd
      · rw [if_pos hfd, hfd, List.erase_cons_head]
      · rw [if_neg hfd, List.erase_cons_tail (by simpa using hfd), List.map_cons, ih]
  | interest d on fd => exact map_modifyFirst_of_same (setInterest_fd d on)
  | compacted => rfl

/-- Whoever wants something is registered. -/
theorem mem_of_wanted (h : wanted rs d fd = true) : fd ∈ rs.map Registration.fd := by
  obtain ⟨r, hr, -⟩ := (Option.any_eq_true _ _).mp h
  obtain rfl : r.fd = fd := by simpa using List.find?_some hr
  exact List.mem_map_of_mem (List.mem_of_find?_eq_some hr)

end Registration

end WinsockTut
