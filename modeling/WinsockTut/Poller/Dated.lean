import WinsockTut.Async.History

/-!
# When the registrations were made

The system gives the value of a closed socket to a new one, so the value does not tell which
registration is meant.  `Dated.apply` replays the operations of a poller on a table that knows when
each of its registrations was made.  Beside a poller, it tells for each callback whether the
readiness that is reported was recorded under the registration it goes to (`Served.Own`).
-/

namespace WinsockTut

open FirstMatch

/-- A registration, or a retired one, and when it was made. -/
structure Dated where
  /-- The socket, or `INVALID_SOCKET` in a retired registration. -/
  fd : Socket
  /-- The number of steps made before it. -/
  made : ℕ
  deriving DecidableEq, Repr

/-- A callback: when the registration was made that it went to, and when the readiness was recorded
that it reports. -/
structure Served where
  made : Option ℕ
  recorded : Option ℕ
  deriving DecidableEq, Repr

/-- The readiness was recorded after the registration had been made. -/
def Served.Own (x : Served) : Prop := ∃ a ∈ x.made, ∃ t ∈ x.recorded, a < t

/-- The sockets of the entries after an operation. -/
def Op.sockets (fds : List Socket) : Op → List Socket
  | .added fd _ => fds ++ [fd]
  | .removed fd => modifyFirst (fun x => x = fd) (fun _ => invalidSocket) fds
  | .interest _ _ _ => fds
  | .compacted => fds.filter fun x => x ≠ invalidSocket

namespace Dated

variable {rs : List Dated} {r : Dated} {l : List Op} {op : Op} {now a i : ℕ}

/-- An operation on the registrations. -/
def apply (now : ℕ) (rs : List Dated) : Op → List Dated
  | .added fd _ => rs ++ [{ fd := fd, made := now }]
  | .removed fd => modifyFirst (fun r => r.fd = fd) (fun r => { r with fd := invalidSocket }) rs
  | .interest _ _ _ => rs
  | .compacted => rs.filter fun r => r.fd ≠ invalidSocket

theorem map_fd_apply (now : ℕ) (rs : List Dated) (op : Op) :
    (apply now rs op).map Dated.fd = op.sockets (rs.map Dated.fd) := by
  cases op with
  | added fd event => exact List.map_append
  | removed fd => exact map_modifyFirst (fun _ => rfl) fun _ => rfl
  | interest d on fd => rfl
  | compacted =>
    rw [apply, Op.sockets, List.filter_map]
    rfl

theorem map_fd_foldl (now : ℕ) (rs : List Dated) (l : List Op) :
    (l.foldl (apply now) rs).map Dated.fd = l.foldl Op.sockets (rs.map Dated.fd) :=
  (List.foldl_hom (List.map Dated.fd) fun rs op => (map_fd_apply now rs op).symm).symm

/-- What holds of all registrations still does if a new one and the retired ones have it. -/
theorem forall_apply {P : Dated → Prop} (h : ∀ r ∈ rs, P r)
    (hretire : ∀ r, P r → P { r with fd := invalidSocket })
    (hnew : ∀ fd event, op = .added fd event → P { fd := fd, made := now }) :
    ∀ r ∈ apply now rs op, P r := by
  cases op with
  | added fd event =>
    intro r hr
    rcases List.mem_append.mp hr with hr | hr
    · exact h r hr
    · exact List.mem_singleton.mp hr ▸ hnew fd event rfl
  | removed fd =>
    exact forall_modifyFirst h fun r hr => hretire r (h r (List.mem_of_find?_eq_some hr))
  | interest d on fd => exact h
  | compacted => exact fun r hr => h r (List.mem_of_mem_filter hr)

theorem forall_foldl {P : Dated → Prop} (h : ∀ r ∈ rs, P r)
    (hretire : ∀ r, P r → P { r with fd := invalidSocket })
    (hnew : ∀ fd event, .added fd event ∈ l → P { fd := fd, made := now }) :
    ∀ r ∈ l.foldl (apply now) rs, P r := by
  induction l generalizing rs with
  | nil => exact h
  | cons op l ih =>
    rw [List.foldl_cons]
    refine ih (forall_apply h hretire ?_) fun fd event hl => ?_
    · rintro fd event rfl
      exact hnew fd event List.mem_cons_self
    · exact hnew fd event (List.mem_cons_of_mem op hl)

/-- The date of the registration at a position. -/
def madeAt (rs : List Dated) (i : ℕ) : Option ℕ := rs[i]?.map Dated.made

/-- Until the next compaction, a registration keeps its position and its date. -/
theorem madeAt_apply (hop : op ≠ .compacted) (h : madeAt rs i = some a) :
    madeAt (apply now rs op) i = some a := by
  obtain ⟨r, hr, rfl⟩ := Option.map_eq_some_iff.mp h
  cases op with
  | added fd event =>
    rw [madeAt, apply, List.getElem?_append_left (List.getElem?_eq_some_iff.mp hr).1, hr]
    rfl
  | removed fd =>
    rw [madeAt, apply]
    rcases getElem?_modifyFirst (fun r : Dated => r.fd = fd)
      (fun r => { r with fd := invalidSocket }) rs i with hsame | ⟨x, hx, -, -, hchange⟩
    · rw [hsame, hr]
      rfl
    · obtain rfl := Option.some.inj (hr.symm.trans hx)
      rw [hchange]
      rfl
  | interest d on fd => exact h
  | compacted => exact absurd rfl hop

theorem madeAt_foldl (hl : .compacted ∉ l) (h : madeAt rs i = some a) :
    madeAt (l.foldl (apply now) rs) i = some a := by
  induction l generalizing rs with
  | nil => exact h
  | cons op l ih =>
    have hop : op ≠ .compacted := fun hop => hl (hop ▸ List.mem_cons_self)
    exact ih (fun h => hl (List.mem_cons_of_mem op h)) (madeAt_apply hop h)

/-- The registration of an entry. -/
theorem exists_of_map_eq {α : Type*} {xs : List α} {x : α} {f : α → Socket}
    (h : rs.map Dated.fd = xs.map f) (hx : xs[i]? = some x) :
    ∃ r, rs[i]? = some r ∧ r.fd = f x := by
  have hi : (rs.map Dated.fd)[i]? = some (f x) := by rw [h, List.getElem?_map, hx, Option.map_some]
  rw [List.getElem?_map] at hi
  exact Option.map_eq_some_iff.mp hi

end Dated

/-! ### The operation of a call -/

section

variable {k : Call} {fd : Socket} {event : Sink} {r : ℤ}

/-- A registration is made by an `AddFd` that is not refused. -/
theorem Call.of_added_mem (h : .added fd event ∈ if r = 0 then [k.op] else []) :
    k = .addFd fd event ∧ r = 0 := by
  split at h
  · next hok =>
    have hop : k.op = .added fd event := (List.mem_singleton.mp h).symm
    cases k <;> cases hop
    exact ⟨rfl, hok⟩
  · exact absurd h List.not_mem_nil

/-- No call compacts the entries. -/
theorem Call.compacted_notMem (k : Call) (r : ℤ) :
    .compacted ∉ if r = 0 then [k.op] else [] := by
  intro h
  split at h
  · have hop : k.op = .compacted := (List.mem_singleton.mp h).symm
    cases k <;> cases hop
  · exact absurd h List.not_mem_nil

/-- A compaction registers nothing. -/
theorem Op.added_notMem_compaction {retired : Bool} :
    .added fd event ∉ if retired then [Op.compacted] else [] := by
  intro h
  split at h
  · cases List.mem_singleton.mp h
  · exact absurd h List.not_mem_nil

end

/-- The operations on the entries of the asynchronous pollers change their sockets alike. -/
theorem AsyncEntry.map_fd_apply {retire : AsyncEntry → AsyncEntry}
    (hretire : ∀ e, (retire e).fd = invalidSocket) (es : List AsyncEntry) (op : Op) :
    (apply retire es op).map AsyncEntry.fd = op.sockets (es.map AsyncEntry.fd) := by
  cases op with
  | added fd event => exact List.map_append
  | removed fd => exact map_modifyFirst (fun _ => rfl) hretire
  | interest d on fd =>
    exact map_modifyFirst_of_same (setInterest_fd d on)
  | compacted =>
    rw [apply, Op.sockets, List.filter_map]
    rfl

end WinsockTut
