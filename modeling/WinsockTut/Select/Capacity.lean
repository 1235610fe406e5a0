import Mathlib.Data.List.Perm.Subperm
import WinsockTut.Select.Ends

/-!
# The socket sets of the select poller

If `AddFd` is called with new sockets only, and the interests are set for registered sockets, the
three socket sets stay within the registered sockets: `exceptfds_` holds each of them once, the two
others hold some of them.  So no set is ever full when `FD_SET` needs room in it, although the
function would drop the socket silently.
-/

namespace WinsockTut

namespace SelectPoller

open Runs

variable {p : SelectPoller} {c c' : Config} {e : Event} {es : List Event} {fd : Socket} {s : Site}
  {xs : List FdEntry}

/-- The registered sockets of the entries, in order. -/
def liveFds (xs : List FdEntry) : List Socket :=
  (xs.map FdEntry.fd).filter fun fd => fd ≠ invalidSocket

/-- `AddFd` is called with a socket that is not registered, and an interest is set for one that
is. -/
def Obliges (c : Config) : Event → Prop
  | .call (.addFd fd _) => fd ≠ invalidSocket ∧ fd ∉ liveFds c.poller.fds
  | .call (.setPollIn fd) => fd ∈ liveFds c.poller.fds
  | .call (.setPollOut fd) => fd ∈ liveFds c.poller.fds
  | _ => True

/-- The invariant of the sets. -/
structure SocketSets (p : SelectPoller) : Prop where
  /-- `exceptfds_` holds exactly the registered sockets, each once. -/
  except : p.exceptfds.Nodup ∧ ∀ fd, fd ∈ p.exceptfds ↔ fd ∈ liveFds p.fds
  /-- No socket is registered twice. -/
  live : (liveFds p.fds).Nodup
  /-- `readfds_` is a part of it without repetitions. -/
  read : p.readfds.Nodup ∧ p.readfds ⊆ p.exceptfds
  /-- So is `writefds_`. -/
  write : p.writefds.Nodup ∧ p.writefds ⊆ p.exceptfds
  size : p.fds.length ≤ fdSetSize
  /-- `has_retired_` is set while an entry is retired. -/
  retired : (∃ x ∈ p.fds, x.fd = invalidSocket) → p.hasRetired = true

/-- A part without repetitions is not longer than the whole. -/
theorem length_le_of_within {set except : FdSet} (h : set.Nodup ∧ set ⊆ except) :
    set.length ≤ except.length :=
  (List.subperm_of_subset h.1 h.2).length_le

theorem length_liveFds_le (xs : List FdEntry) : (liveFds xs).length ≤ xs.length := by
  simpa [liveFds] using List.length_filter_le (fun fd => decide (fd ≠ invalidSocket))
    (xs.map FdEntry.fd)

/-- There are not more sockets in `exceptfds_` than entries. -/
theorem SocketSets.length_except (h : p.SocketSets) : p.exceptfds.length ≤ p.fds.length := by
  have hsub : p.exceptfds ⊆ liveFds p.fds := fun fd hfd => (h.except.2 fd).mp hfd
  exact (length_le_of_within ⟨h.except.1, hsub⟩).trans (length_liveFds_le p.fds)

/-- No set needs more than `FD_SETSIZE` slots. -/
theorem SocketSets.length_le (h : p.SocketSets) (s : Site) :
    (p.ready.at s).length ≤ fdSetSize := by
  have hexcept : p.exceptfds.length ≤ fdSetSize := h.length_except.trans h.size
  cases s with
  | except => exact hexcept
  | write => exact (length_le_of_within h.write).trans hexcept
  | read => exact (length_le_of_within h.read).trans hexcept

/-- The socket that a call hands to `FD_SET` is in the set afterwards. -/
def NothingDropped (c : Config) (e : Event) : Prop :=
  ∀ k s fd, e = .call k → c.poller.sets s k = some fd → fd ∈ (c.poller.call k).ready.at s

/-! ### The registered sockets -/

theorem liveFds_cons (x : FdEntry) (xs : List FdEntry) : liveFds (x :: xs) =
    if x.fd ≠ invalidSocket then x.fd :: liveFds xs else liveFds xs := by
  simp only [liveFds, List.map_cons, List.filter_cons, decide_eq_true_eq]

theorem not_mem_liveFds : invalidSocket ∉ liveFds xs := by
  simp [liveFds]

theorem mem_liveFds : fd ∈ liveFds xs ↔ fd ≠ invalidSocket ∧ ∃ x ∈ xs, x.fd = fd := by
  simp [liveFds, and_comm]

/-- `MarkRetired` takes out the first registration of the socket. -/
theorem liveFds_retireFirst (fd : Socket) (xs : List FdEntry) :
    liveFds (retireFirst fd xs) = (liveFds xs).erase fd := by
  induction xs with
  | nil => rfl
  | cons x xs ih =>
    rw [retireFirst]
    by_cases hx : x.fd = fd
    · rw [if_pos hx, liveFds_cons, if_neg (by simp), liveFds_cons]
      by_cases hfd : x.fd = invalidSocket
      · -- the entry was retired before
        rw [if_neg (by simpa using hfd), List.erase_of_not_mem]
        exact hx ▸ hfd.symm ▸ not_mem_liveFds
      · rw [if_pos hfd, hx, List.erase_cons_head]
    · rw [if_neg hx, liveFds_cons, liveFds_cons, ih]
      by_cases hfd : x.fd = invalidSocket
      · rw [if_neg (by simpa using hfd), if_neg (by simpa using hfd)]
      · rw [if_pos hfd, if_pos hfd, List.erase_cons_tail (by simpa using hx)]

theorem liveFds_removeRetired (p : SelectPoller) :
    liveFds p.removeRetired.fds = liveFds p.fds := by
  rw [removeRetired_fds]
  split
  · simp only [liveFds, List.filter_map, List.filter_filter]
    congr 1
    exact List.filter_congr fun x _ => by simp
  · rfl

/-! ### The calls -/

/-- A change of one of the two sets of interests, within the registered sockets. -/
theorem SocketSets.of_interest (h : p.SocketSets) {r w : FdSet}
    (hr : r.Nodup ∧ r ⊆ p.exceptfds) (hw : w.Nodup ∧ w ⊆ p.exceptfds) :
    SocketSets { p with readfds := r, writefds := w } where
  except := h.except
  live := h.live
  read := hr
  write := hw
  size := h.size
  retired := h.retired

theorem fdSet_within {set except : FdSet} (h : set.Nodup ∧ set ⊆ except) (hfd : fd ∈ except) :
    (fdSet fd set).Nodup ∧ fdSet fd set ⊆ except := by
  refine ⟨nodup_fdSet h.1 fd, fun x hx => ?_⟩
  rcases mem_fdSet.mp hx with hx | ⟨rfl, -⟩
  · exact h.2 hx
  · exact hfd

theorem fdClr_within {set except : FdSet} (h : set.Nodup ∧ set ⊆ except) :
    (fdClr fd set).Nodup ∧ fdClr fd set ⊆ except :=
  ⟨nodup_fdClr h.1 fd, fun _ hx => h.2 ((mem_fdClr h.1).mp hx).1⟩

theorem SocketSets.addFd (h : p.SocketSets) (event : Sink) (hfd : fd ≠ invalidSocket)
    (hnew : fd ∉ liveFds p.fds) : (p.addFd fd event).1.SocketSets := by
  unfold SelectPoller.addFd
  split
  · exact h
  · next hfull =>
    have hroom : p.fds.length < fdSetSize := not_le.mp hfull
    have hlive : liveFds (p.fds ++ [{ fd := fd, sink := some event }]) = liveFds p.fds ++ [fd] := by
      simp [liveFds, hfd]
    have hexcept : ∀ x, x ∈ fdSet fd p.exceptfds ↔ x ∈ p.exceptfds ∨ x = fd := fun x => by
      simp [mem_fdSet, h.length_except.trans_lt hroom]
    refine ⟨⟨nodup_fdSet h.except.1 fd, fun x => ?_⟩, ?_, ?_, ?_, ?_, ?_⟩
    · rw [hlive, hexcept, h.except.2]
      simp
    · rw [hlive, ← List.concat_eq_append]
      exact h.live.concat hnew
    · exact ⟨h.read.1, fun x hx => (hexcept x).mpr (Or.inl (h.read.2 hx))⟩
    · exact ⟨h.write.1, fun x hx => (hexcept x).mpr (Or.inl (h.write.2 hx))⟩
    · simpa using Nat.succ_le_of_lt hroom
    · rintro ⟨x, hx, hxfd⟩
      rcases List.mem_append.mp hx with hx | hx
      · exact h.retired ⟨x, hx, hxfd⟩
      · obtain rfl := List.mem_singleton.mp hx
        exact absurd hxfd hfd

theorem SocketSets.removeFd (h : p.SocketSets) (fd : Socket) : (p.removeFd fd).SocketSets := by
  have hlive : liveFds (p.removeFd fd).fds = (liveFds p.fds).erase fd :=
    liveFds_retireFirst fd p.fds
  have hmem : ∀ x, x ∈ fdClr fd p.exceptfds ↔ x ∈ p.exceptfds ∧ x ≠ fd :=
    fun x => mem_fdClr h.except.1
  have hsub : ∀ set : FdSet, set.Nodup ∧ set ⊆ p.exceptfds →
      (fdClr fd set).Nodup ∧ fdClr fd set ⊆ fdClr fd p.exceptfds := by
    rintro set ⟨hnodup, hset⟩
    refine ⟨nodup_fdClr hnodup fd, fun x hx => ?_⟩
    obtain ⟨hx, hne⟩ := (mem_fdClr hnodup).mp hx
    exact (hmem x).mpr ⟨hset hx, hne⟩
  refine ⟨⟨nodup_fdClr h.except.1 fd, fun x => ?_⟩, ?_, hsub _ h.read, hsub _ h.write, ?_,
    fun _ => rfl⟩
  · rw [hlive, h.live.mem_erase_iff, ← h.except.2]
    exact (hmem x).trans and_comm
  · rw [hlive]
    exact h.live.erase fd
  · exact (length_retireFirst fd p.fds).trans_le h.size

theorem SocketSets.removeRetired (h : p.SocketSets) : p.removeRetired.SocketSets := by
  have hready := removeRetired_ready p
  have hexcept : p.removeRetired.exceptfds = p.exceptfds := congrArg Ready.exptset hready
  have hread : p.removeRetired.readfds = p.readfds := congrArg Ready.rdset hready
  have hwrite : p.removeRetired.writefds = p.writefds := congrArg Ready.wrset hready
  refine ⟨?_, ?_, ?_, ?_, (length_removeRetired_le p).trans h.size, ?_⟩
  · rw [hexcept, liveFds_removeRetired]
    exact h.except
  · rw [liveFds_removeRetired]
    exact h.live
  · rw [hread, hexcept]
    exact h.read
  · rw [hwrite, hexcept]
    exact h.write
  · rintro ⟨x, hx, hxfd⟩
    rw [removeRetired_fds] at hx
    split at hx
    · simp [hxfd] at hx
    · next hfalse => exact absurd (h.retired ⟨x, hx, hxfd⟩) hfalse

/-- **The calls keep the sets.** -/
theorem SocketSets.call (h : c.poller.SocketSets) {k : Call} (hok : Obliges c (.call k)) :
    (c.poller.call k).SocketSets := by
  cases k with
  | addFd fd event => exact h.addFd event hok.1 hok.2
  | removeFd fd => exact h.removeFd fd
  | setPollIn fd => exact h.of_interest (fdSet_within h.read ((h.except.2 fd).mpr hok)) h.write
  | resetPollIn fd => exact h.of_interest (fdClr_within h.read) h.write
  | setPollOut fd => exact h.of_interest h.read (fdSet_within h.write ((h.except.2 fd).mpr hok))
  | resetPollOut fd => exact h.of_interest h.read (fdClr_within h.write)

/-- A set has room for a registered socket that is not in it. -/
theorem mem_fdSet_of_within {set : FdSet} (h : p.SocketSets) (hset : set.Nodup ∧ set ⊆ p.exceptfds)
    (hfd : fd ∈ p.exceptfds) : fd ∈ fdSet fd set := by
  rw [mem_fdSet]
  by_cases hmem : fd ∈ set
  · exact Or.inl hmem
  · refine Or.inr ⟨rfl, ?_⟩
    have hlen : (fd :: set).length ≤ p.exceptfds.length :=
      length_le_of_within ⟨List.nodup_cons.mpr ⟨hmem, hset.1⟩, List.cons_subset.mpr ⟨hfd, hset.2⟩⟩
    have hmax : p.exceptfds.length ≤ fdSetSize := h.length_le .except
    rw [List.length_cons] at hlen
    omega

/-- **`FD_SET` always finds room.** -/
theorem SocketSets.nothingDropped (h : c.poller.SocketSets) (hok : Obliges c e) :
    NothingDropped c e := by
  rintro k s fd rfl hsets
  cases k with
  | addFd x event =>
    simp only [sets, Option.ite_none_right_eq_some, Option.some.injEq] at hsets
    obtain ⟨⟨rfl, hroom⟩, rfl⟩ := hsets
    have hin : x ∈ fdSet x c.poller.exceptfds :=
      mem_fdSet.mpr (Or.inr ⟨rfl, h.length_except.trans_lt hroom⟩)
    simpa [SelectPoller.call, SelectPoller.addFd, not_le.mpr hroom, ready, Ready.at] using hin
  | setPollIn x =>
    simp only [sets, Option.ite_none_right_eq_some, Option.some.injEq] at hsets
    obtain ⟨rfl, rfl⟩ := hsets
    exact mem_fdSet_of_within h h.read ((h.except.2 x).mpr hok)
  | setPollOut x =>
    simp only [sets, Option.ite_none_right_eq_some, Option.some.injEq] at hsets
    obtain ⟨rfl, rfl⟩ := hsets
    exact mem_fdSet_of_within h h.write ((h.except.2 x).mpr hok)
  | _ => simp [sets] at hsets

/-! ### Whole runs -/

theorem socketSets_init : init.SocketSets where
  except := ⟨List.nodup_nil, fun _ => Iff.rfl⟩
  live := List.nodup_nil
  read := ⟨List.nodup_nil, List.Subset.refl _⟩
  write := ⟨List.nodup_nil, List.Subset.refl _⟩
  size := Nat.zero_le _
  retired := fun ⟨_, hx, _⟩ => absurd hx List.not_mem_nil

/-- **The socket sets of every reachable state**: they hold what they should, none of them exceeds
its capacity, and `FD_SET` drops no socket. -/
theorem socketSets_of_runs (hok : EachStep step Config.init es fun _ => Obliges) :
    Throughout step Config.init es
        (fun _ c => c.poller.SocketSets ∧ ∀ s, (c.poller.ready.at s).length ≤ fdSetSize) ∧
      EachStep step Config.init es fun _ => NothingDropped := by
  have hinv : Throughout step Config.init es (fun _ c => c.poller.SocketSets) := by
    refine throughout_of_eachStep socketSets_init ?_ hok
    intro fs e t u _ _ ih hok hstep
    cases effect_of_step hstep with
    | called => exact ih.call hok
    | selected _ _ hd => exact (dispatch_poller hd).symm ▸ ih
    | resumed _ hd => exact (dispatch_poller hd).symm ▸ ih
    | finished => exact ih.removeRetired
    | _ => exact ih
  refine ⟨fun fs t hp ht => ⟨hinv fs t hp ht, (hinv fs t hp ht).length_le⟩,
    fun fs e t hp ht => ?_⟩
  exact (hinv fs t ((List.prefix_append fs [e]).trans hp) ht).nothingDropped (hok fs e t hp ht)

instance (c : Config) : (e : Event) → Decidable (Obliges c e)
  | .call (.addFd fd _) =>
    inferInstanceAs (Decidable (fd ≠ invalidSocket ∧ fd ∉ liveFds c.poller.fds))
  | .call (.setPollIn fd) => inferInstanceAs (Decidable (fd ∈ liveFds c.poller.fds))
  | .call (.setPollOut fd) => inferInstanceAs (Decidable (fd ∈ liveFds c.poller.fds))
  | .call (.removeFd _) | .call (.resetPollIn _) | .call (.resetPollOut _) | .timer _ | .poll
  | .selectFails | .selectReturns _ | .callbackReturn | .finish => isTrue trivial

/-- A callback replaces its socket by another one. -/
def replaceInCallback : List Event :=
  [.call (.addFd 5 1), .call (.setPollIn 5), .poll, .selectReturns ⟨[5], [], []⟩,
    .call (.removeFd 5), .call (.addFd 6 1), .call (.setPollOut 6), .callbackReturn,
    .timer (.updateTimer 0), .timer .round, .finish, .call (.addFd 5 1)]

theorem socketSets_replaceInCallback : (runs replaceInCallback).isSome = true ∧
    Throughout step Config.init replaceInCallback
        (fun _ c => c.poller.SocketSets ∧ ∀ s, (c.poller.ready.at s).length ≤ fdSetSize) ∧
      EachStep step Config.init replaceInCallback fun _ => NothingDropped :=
  ⟨by decide +kernel, socketSets_of_runs (eachStep_iff_checkSteps.mpr (by decide +kernel))⟩

end SelectPoller

end WinsockTut
