import WinsockTut.Foundation.FirstMatch
import WinsockTut.Echo.Host

/-!
# The tables of the pollers

Each of the pollers keeps its sinks in a table that is searched from the front: `AddFd` appends an
entry, `RemoveFd` retires the first entry of the socket, and the other calls leave the sockets and
the sinks alone.  `Table.Calls` says this of a table with any type of entries.  So a callback of
the server leaves a table in agreement with it, and its own entry in place, unless its connection
has ended: then that entry is retired (`Agrees.answered`).
-/

namespace WinsockTut

open FirstMatch

namespace EchoServer

/-- A table of sinks: the socket of an entry, its sink, and what `RemoveFd` makes of an entry. -/
structure Table (α : Type*) where
  sock : α → Socket
  sink : α → Option Sink
  retire : α → α
  sock_retire : ∀ x, sock (retire x) = invalidSocket

namespace Table

variable {α σ : Type*} {T : Table α} {xs ys zs : List α} {x : α} {i : ℕ} {fd : Socket}
  {sink : Sink} {k : Call} {calls : List Call} {refused : Bool}

/-- What a callback depends on. -/
def view (T : Table α) (x : α) : Socket × Option Sink := (T.sock x, T.sink x)

/-- The sink of an entry that has not been retired. -/
def enrolled? (v : Socket × Option Sink) : Option (Socket × Sink) :=
  if v.1 = invalidSocket then none else v.2.map fun sink => (v.1, sink)

/-- The registered sinks. -/
def live (T : Table α) (xs : List α) : List (Socket × Sink) := (xs.map T.view).filterMap enrolled?

/-- Null sinks occur in retired entries only. -/
def SinksSet (T : Table α) (xs : List α) : Prop :=
  ∀ x ∈ xs, T.sink x = none → T.sock x = invalidSocket

/-- What a call does to a table. -/
inductive Calls (T : Table α) (refused : Bool) : Call → List α → List α → Prop
  | refused {fd : Socket} {sink : Sink} {xs : List α} (h : refused = true) :
      Calls T refused (.addFd fd sink) xs xs
  | added {fd : Socket} {sink : Sink} {xs : List α} {x : α} (h : refused = false)
      (hsock : T.sock x = fd) (hsink : T.sink x = some sink) :
      Calls T refused (.addFd fd sink) xs (xs ++ [x])
  | removed {fd : Socket} {xs : List α} :
      Calls T refused (.removeFd fd) xs (modifyFirst (fun x => T.sock x = fd) T.retire xs)
  | kept {k : Call} {xs ys : List α} (hk : k.interest = true)
      (hsame : ys.map T.view = xs.map T.view) : Calls T refused k xs ys

/-- What the calls of a function do to a table. -/
inductive Performs (T : Table α) (refused : Bool) : List Call → List α → List α → Prop
  | nil {xs : List α} : Performs T refused [] xs xs
  | cons {k : Call} {calls : List Call} {xs ys zs : List α} (h : T.Calls refused k xs ys)
      (hs : Performs T refused calls ys zs) : Performs T refused (k :: calls) xs zs

/-- A poller with such a table. -/
structure Kept (T : Table α) (call : σ → Call → σ) (fds : σ → List α)
    (refuses : σ → Socket → Sink → Bool) : Prop where
  adds : ∀ p fd sink, T.Calls (refuses p fd sink) (.addFd fd sink) (fds p)
    (fds (call p (.addFd fd sink)))
  others : ∀ p k refused, (∀ fd sink, k ≠ .addFd fd sink) →
    T.Calls refused k (fds p) (fds (call p k))

/-! ### The registered sinks -/

theorem enrolled?_eq_some {v : Socket × Option Sink} :
    enrolled? v = some (fd, sink) ↔ fd ≠ invalidSocket ∧ v = (fd, some sink) := by
  obtain ⟨fd', sink'⟩ := v
  by_cases hfd : fd' = invalidSocket
  · simp only [enrolled?, if_pos hfd, Prod.mk.injEq]
    constructor
    · simp
    · rintro ⟨hne, rfl, -⟩
      exact absurd hfd hne
  · simp only [enrolled?, if_neg hfd, Option.map_eq_some_iff, Prod.mk.injEq]
    constructor
    · rintro ⟨_, rfl, rfl, rfl⟩
      exact ⟨hfd, rfl, rfl⟩
    · rintro ⟨-, rfl, rfl⟩
      exact ⟨sink, rfl, rfl, rfl⟩

/-- A registered sink has an entry. -/
theorem mem_live :
    (fd, sink) ∈ T.live xs ↔ fd ≠ invalidSocket ∧ ∃ x ∈ xs, T.view x = (fd, some sink) := by
  rw [live, List.mem_filterMap]
  constructor
  · rintro ⟨v, hv, hsome⟩
    obtain ⟨hfd, rfl⟩ := enrolled?_eq_some.mp hsome
    exact ⟨hfd, List.mem_map.mp hv⟩
  · rintro ⟨hfd, x, hx, hview⟩
    exact ⟨_, List.mem_map_of_mem hx, hview ▸ enrolled?_eq_some.mpr ⟨hfd, rfl⟩⟩

theorem live_cons (x : α) (xs : List α) :
    T.live (x :: xs) = (enrolled? (T.view x)).toList ++ T.live xs := by
  rw [live, List.map_cons, List.filterMap_cons]
  cases enrolled? (T.view x) <;> rfl

theorem live_append (xs ys : List α) : T.live (xs ++ ys) = T.live xs ++ T.live ys := by
  rw [live, List.map_append, List.filterMap_append]
  rfl

/-- A retired entry has no sink. -/
theorem enrolled?_of_retired (h : T.sock x = invalidSocket) : enrolled? (T.view x) = none :=
  if_pos h

/-- **Retiring the first entry of a socket** takes its sink out. -/
theorem live_retire (hfd : fd ≠ invalidSocket) (hsinks : T.SinksSet xs) :
    T.live (modifyFirst (fun x => T.sock x = fd) T.retire xs) =
      (T.live xs).eraseP fun r => r.1 = fd := by
  induction xs with
  | nil => rfl
  | cons x xs ih =>
    have ih := ih fun y hy => hsinks y (List.mem_cons_of_mem x hy)
    rw [modifyFirst_cons]
    by_cases heq : T.sock x = fd
    · obtain ⟨sink, hsink⟩ : ∃ sink, T.sink x = some sink := by
        refine Option.ne_none_iff_exists'.mp fun hnone => hfd ?_
        exact heq.symm.trans (hsinks x List.mem_cons_self hnone)
      have hx : enrolled? (T.view x) = some (fd, sink) :=
        enrolled?_eq_some.mpr ⟨hfd, Prod.ext heq hsink⟩
      rw [if_pos (by simpa using heq), live_cons, live_cons,
        enrolled?_of_retired (T.sock_retire x), hx]
      simp
    · rw [if_neg (by simpa using heq), live_cons, live_cons, ih]
      cases hx : enrolled? (T.view x) with
      | none => rfl
      | some r =>
        obtain ⟨-, hview⟩ := enrolled?_eq_some.mp hx
        have hne : r.1 ≠ fd := fun hr => heq ((congrArg Prod.fst hview).trans hr)
        rw [Option.toList_some, List.singleton_append, List.singleton_append,
          List.eraseP_cons_of_neg (by simpa using hne)]

/-- Taking out the retired entries does not change the registered sinks. -/
theorem live_filter : T.live (xs.filter fun x => T.sock x ≠ invalidSocket) = T.live xs := by
  induction xs with
  | nil => rfl
  | cons x xs ih =>
    by_cases hfd : T.sock x = invalidSocket
    · rw [List.filter_cons_of_neg (by simpa using hfd), live_cons, enrolled?_of_retired hfd, ih]
      rfl
    · rw [List.filter_cons_of_pos (by simpa using hfd), live_cons, live_cons, ih]

/-! ### Calls -/

theorem Calls.live (h : T.Calls refused k xs ys) (hvalid : k.socket ≠ invalidSocket)
    (hsinks : T.SinksSet xs) : T.live ys = enroll refused (T.live xs) k := by
  cases h with
  | refused h => rw [h, enroll, if_pos rfl]
  | @added fd sink _ x h hsock hsink =>
    have hx : enrolled? (T.view x) = some (fd, sink) :=
      enrolled?_eq_some.mpr ⟨hvalid, Prod.ext hsock hsink⟩
    rw [live_append, live_cons, hx, h]
    rfl
  | removed => exact live_retire hvalid hsinks
  | kept hk hsame =>
    rw [Table.live, hsame]
    cases k with
    | addFd => cases hk
    | removeFd => cases hk
    | _ => rfl

theorem Calls.sinksSet (h : T.Calls refused k xs ys) (hsinks : T.SinksSet xs) : T.SinksSet ys := by
  cases h with
  | refused => exact hsinks
  | added h hsock hsink =>
    intro y hy hnone
    rcases List.mem_append.mp hy with hy | hy
    · exact hsinks y hy hnone
    · obtain rfl := List.mem_singleton.mp hy
      cases hsink.symm.trans hnone
  | removed => exact forall_modifyFirst hsinks fun x _ _ => T.sock_retire x
  | kept hk hsame =>
    intro y hy hnone
    have hview : T.view y ∈ xs.map T.view := hsame ▸ List.mem_map_of_mem hy
    obtain ⟨x, hx, hxy⟩ := List.mem_map.mp hview
    obtain ⟨hsock, hsink⟩ := Prod.mk.inj hxy
    exact hsock.symm.trans (hsinks x hx (hsink.trans hnone))

/-- A call that removes no socket leaves the entries in place. -/
theorem Calls.getElem? (h : T.Calls refused k xs ys) (hremove : ∀ fd, k ≠ .removeFd fd)
    (hx : xs[i]? = some x) : ∃ y, ys[i]? = some y ∧ T.view y = T.view x := by
  cases h with
  | refused => exact ⟨x, hx, rfl⟩
  | added =>
    refine ⟨x, ?_, rfl⟩
    rw [List.getElem?_append_left (List.getElem?_eq_some_iff.mp hx).1, hx]
  | removed => exact absurd rfl (hremove _)
  | kept _ hsame =>
    have hview : (ys.map T.view)[i]? = some (T.view x) := by
      rw [hsame, List.getElem?_map, hx, Option.map_some]
    rw [List.getElem?_map, Option.map_eq_some_iff] at hview
    exact hview

/-! ### The calls of a function -/

theorem Performs.live (h : T.Performs refused calls xs ys)
    (hvalid : ∀ k ∈ calls, k.socket ≠ invalidSocket) (hsinks : T.SinksSet xs) :
    T.live ys = calls.foldl (enroll refused) (T.live xs) := by
  induction h with
  | nil => rfl
  | @cons k calls xs ys zs h _ ih =>
    rw [List.foldl_cons, ← h.live (hvalid k List.mem_cons_self) hsinks]
    exact ih (fun k' hk' => hvalid k' (List.mem_cons_of_mem k hk')) (h.sinksSet hsinks)

theorem Performs.sinksSet (h : T.Performs refused calls xs ys) (hsinks : T.SinksSet xs) :
    T.SinksSet ys := by
  induction h with
  | nil => exact hsinks
  | cons h _ ih => exact ih (h.sinksSet hsinks)

/-- Calls that remove no socket leave the entries in place. -/
theorem Performs.getElem? (h : T.Performs refused calls xs ys)
    (hremove : ∀ fd, .removeFd fd ∉ calls) (hx : xs[i]? = some x) :
    ∃ y, ys[i]? = some y ∧ T.view y = T.view x := by
  induction h generalizing x with
  | nil => exact ⟨x, hx, rfl⟩
  | @cons k calls xs ys zs h _ ih =>
    obtain ⟨y, hy, hview⟩ := h.getElem?
      (fun fd hk => hremove fd (hk ▸ List.mem_cons_self)) hx
    obtain ⟨z, hz, hview'⟩ := ih (fun fd hk => hremove fd (List.mem_cons_of_mem k hk)) hy
    exact ⟨z, hz, hview'.trans hview⟩

/-- A poller performs the calls of a function on its table. -/
theorem Kept.performs {call : σ → Call → σ} {fds : σ → List α}
    {refuses : σ → Socket → Sink → Bool} {p : σ} (h : T.Kept call fds refuses)
    (htail : ∀ fd sink, .addFd fd sink ∉ calls.tail)
    (hhead : ∀ fd sink, .addFd fd sink ∈ calls → refuses p fd sink = refused) :
    T.Performs refused calls (fds p) (fds (calls.foldl call p)) := by
  have hothers : ∀ (calls : List Call) p, (∀ fd sink, .addFd fd sink ∉ calls) →
      T.Performs refused calls (fds p) (fds (calls.foldl call p)) := by
    intro calls
    induction calls with
    | nil => exact fun p _ => .nil
    | cons k calls ih =>
      intro p hnone
      have hk := h.others p k refused fun fd sink hk => hnone fd sink (hk ▸ List.mem_cons_self)
      exact .cons hk (ih _ fun fd sink hmem => hnone fd sink (List.mem_cons_of_mem k hmem))
  cases calls with
  | nil => exact .nil
  | cons k calls =>
    refine .cons ?_ (hothers calls _ htail)
    by_cases hk : ∃ fd sink, k = .addFd fd sink
    · obtain ⟨fd, sink, rfl⟩ := hk
      exact hhead fd sink List.mem_cons_self ▸ h.adds p fd sink
    · exact h.others p k refused fun fd sink heq => hk ⟨fd, sink, heq⟩

end Table

/-! ### A callback of the server -/

section

variable {α : Type*} {T : Table α} {s s' : EchoServer} {xs ys : List α} {x : α} {i : ℕ}
  {fd : Socket} {sink : Sink} {refused : Bool} {a : Answer} {d : Direction} {calls : List Call}

/-- The entry of a callback after the calls of its function: it is still there, or its connection
has ended, and it has been retired. -/
def Settled (T : Table α) (s s' : EchoServer) (a : Answer) (sink : Sink) (d : Direction) (x : α)
    (y : Option α) : Prop :=
  (s.ends a sink d = false ∧ ∃ z, y = some z ∧ T.view z = T.view x) ∨
    (s.ends a sink d = true ∧ y = some (T.retire x) ∧
      ∀ refused' a' d', s'.respond refused' a' sink d' = none)

/-- **A callback leaves the table in agreement with the server.** -/
theorem Agrees.answered (h : Agrees s (T.live xs)) (hs : Accounts s) (hsinks : T.SinksSet xs)
    (hx : xs[i]? = some x) (hview : T.view x = (fd, some sink)) (hfd : fd ≠ invalidSocket)
    (hresp : s.respond refused a sink d = some (s', calls))
    (hperf : T.Performs refused calls xs ys) :
    Accounts s' ∧ Agrees s' (T.live ys) ∧ T.SinksSet ys ∧ Settled T s s' a sink d x ys[i]? := by
  have hr : (fd, sink) ∈ T.live xs := Table.mem_live.mpr ⟨hfd, x, List.mem_of_getElem? hx, hview⟩
  obtain ⟨haccounts, hagrees, hvalid, -, -, hremoves⟩ := h.responded hs hr hresp
  have hlive := hperf.live hvalid hsinks
  refine ⟨haccounts, hlive ▸ hagrees, hperf.sinksSet hsinks, ?_⟩
  rcases hremoves with ⟨hends, rfl, hgone⟩ | ⟨hstays, hremove⟩
  · refine Or.inr ⟨hends, ?_, hgone⟩
    cases hperf with
    | cons hcall hnil =>
      cases hnil
      cases hcall with
      | removed =>
        rcases getElem?_modifyFirst (fun x => T.sock x = fd) T.retire xs i with
          hsame | ⟨y, hy, -, -, hretired⟩
        · -- a socket that has been removed is registered no more
          have hstill : (fd, sink) ∈ T.live (modifyFirst (fun x => T.sock x = fd) T.retire xs) :=
            Table.mem_live.mpr ⟨hfd, x, List.mem_of_getElem? (hsame.trans hx), hview⟩
          rw [Table.live_retire hfd hsinks] at hstill
          exact absurd rfl ((mem_eraseP_of_nodup h.nodup).mp hstill).2
        · obtain rfl := Option.some.inj (hx.symm.trans hy)
          exact hretired
      | kept hk => cases hk
  · exact Or.inl ⟨hstays, hperf.getElem? hremove hx⟩

end

end EchoServer

end WinsockTut
