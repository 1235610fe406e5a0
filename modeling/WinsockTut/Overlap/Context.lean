import WinsockTut.Poller.Base

/-!
# Overlapped contexts

Both I/O services hand out `OverlapContext` objects, which their owner fills in and passes to the
asynchronous operations.  `Contexts` is the part of the free store they live in: a context is named
by the number of contexts allocated before it, and is gone for good once it has been deleted, so
that every use of a dangling pointer shows.
-/

namespace WinsockTut

/-- `FLAG_ASSOCIATE`. -/
def flagAssociate : BitVec 32 := 1
/-- `FLAG_CANCEL_IO`. -/
def flagCancelIo : BitVec 32 := 2
/-- `FLAG_LAZY_DELETE`. -/
def flagLazyDelete : BitVec 32 := 3

/-- A `std::function<void()>` that is set. -/
abbrev Callback := ℕ

/-- A pointer to an `OverlapContext`. -/
abbrev CtxId := ℕ

/-- `STATUS_PENDING`, the status of an operation that has not completed. -/
def statusPending : ℕ := 259

/-- `struct OverlapContext`, without the buffer. -/
structure OverlapContext where
  /-- `overlap.Internal`, the status code. -/
  internal : ℕ
  /-- `overlap.InternalHigh`, the number of bytes transferred. -/
  internalHigh : ℕ
  /-- `overlap.hEvent`. -/
  hEvent : Handle
  /-- `fd`. -/
  fd : Socket
  /-- `flags`. -/
  flags : BitVec 32
  /-- `udata`. -/
  udata : ℤ
  /-- `cb`; `none` if it is empty. -/
  cb : Option Callback
  deriving DecidableEq, Repr

/-- `new OverlapContext()` with the socket filled in: all other members are zero. -/
def OverlapContext.new (fd : Socket) : OverlapContext :=
  { internal := 0, internalHigh := 0, hEvent := 0, fd := fd, flags := 0, udata := 0, cb := none }

/-- The condition `flags & FLAG_LAZY_DELETE`, which the two other flags meet as well. -/
def OverlapContext.lazy (x : OverlapContext) : Bool := hasBits x.flags flagLazyDelete

/-- `DWORD GetStatusCode()`. -/
def OverlapContext.getStatusCode (x : OverlapContext) : ℕ := x.internal % 4294967296

/-- `DWORD GetTransferredBytes()`, as the `int` it is assigned to. -/
def OverlapContext.getTransferredBytes (x : OverlapContext) : ℤ := Word.wrap32 x.internalHigh

/-- All contexts that were allocated; `none` once they are deleted. -/
abbrev Contexts := List (Option OverlapContext)

namespace Contexts

variable {h : Contexts} {i j : CtxId} {x : OverlapContext} {f : OverlapContext → OverlapContext}

/-- `*ctx`, if the context has not been deleted. -/
def get (h : Contexts) (i : CtxId) : Option OverlapContext := h[i]?.join

/-- Change a context; the memory of a deleted one means nothing any more. -/
def update (h : Contexts) (i : CtxId) (f : OverlapContext → OverlapContext) : Contexts :=
  h.modify i (Option.map f)

/-- `delete ctx`. -/
def delete (h : Contexts) (i : CtxId) : Contexts := h.set i none

theorem lt_length_of_get (hx : h.get i = some x) : i < h.length := by
  by_contra hge
  simp [get, List.getElem?_eq_none (not_lt.mp hge)] at hx

@[simp] theorem get_update_self (h : Contexts) (i : CtxId) (f : OverlapContext → OverlapContext) :
    (h.update i f).get i = (h.get i).map f := by
  cases hi : h[i]? with
  | none => simp [get, update, hi]
  | some y => cases y <;> simp [get, update, hi]

theorem get_update_ne (hij : i ≠ j) (h : Contexts) (f : OverlapContext → OverlapContext) :
    (h.update i f).get j = h.get j := by
  simp [get, update, hij]

@[simp] theorem get_delete_self (h : Contexts) (i : CtxId) : (h.delete i).get i = none := by
  rw [get, delete, List.getElem?_set_self']
  cases h[i]? <;> rfl

theorem get_delete_ne (hij : i ≠ j) (h : Contexts) : (h.delete i).get j = h.get j := by
  simp [get, delete, hij]

/-- A change of a context deletes none. -/
theorem isSome_get_update (h : Contexts) (i j : CtxId) (f : OverlapContext → OverlapContext) :
    ((h.update i f).get j).isSome = (h.get j).isSome := by
  by_cases hij : i = j
  · subst hij
    rw [get_update_self, Option.isSome_map]
  · rw [get_update_ne hij]

theorem get_append_of_lt (hi : i < h.length) (x : Option OverlapContext) :
    get (h ++ [x]) i = h.get i := by
  simp [get, List.getElem?_append_left hi]

@[simp] theorem length_update (h : Contexts) (i : CtxId) (f : OverlapContext → OverlapContext) :
    (h.update i f).length = h.length := List.length_modify _ _ _

@[simp] theorem length_delete (h : Contexts) (i : CtxId) : (h.delete i).length = h.length :=
  List.length_set

end Contexts

end WinsockTut
