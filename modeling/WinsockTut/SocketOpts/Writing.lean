import Mathlib.Data.Int.Order.Basic
import WinsockTut.SocketOpts.Stream

/-!
# What `WriteSome` sends

The calls of `send` that `WriteSome` makes are offered what is left of the buffer each time, so the
bytes they accept, one after the other, are a prefix of it; `writeSome_exact` relates this prefix to
the value that is returned.
-/

namespace WinsockTut

namespace SocketOpts

variable {σ : Type*} {send : σ → List UInt8 → Send × σ} {size : ℤ} {s : σ} {buf : List UInt8}
  {n fuel : ℕ} {calls : List SendCall} {r : WriteResult σ}

/-- How `send` answers when it is offered bytes: it accepts at least one of them, or fails. -/
def Accepting (send : σ → List UInt8 → Send × σ) : Prop :=
  ∀ s bytes, bytes ≠ [] →
    (∃ n s', send s bytes = (.accepted n, s') ∧ 1 ≤ n ∧ n ≤ bytes.length) ∨
      ∃ err s', send s bytes = (.error err, s')

/-- The bytes that the socket has accepted in a call. -/
def SendCall.bytes (call : SendCall) : List UInt8 :=
  match call.answer with
  | .accepted n => call.offered.take n
  | .error _ => []

/-- The bytes that the socket has accepted in all calls. -/
def acceptedBytes (calls : List SendCall) : List UInt8 := calls.flatMap SendCall.bytes

/-- The call would have blocked. -/
def SendCall.Blocked (call : SendCall) : Prop := call.answer = .error wsaEWouldBlock

/-- The call has failed with another error. -/
def SendCall.Failed (call : SendCall) : Prop :=
  ∃ err, call.answer = .error err ∧ err ≠ wsaEWouldBlock

/-- The call was offered bytes of the first `size` of the buffer. -/
def SendCall.Within (buf : List UInt8) (size : ℤ) (call : SendCall) : Prop :=
  ∃ m, call.offered = (buf.take size.toNat).drop m

theorem acceptedBytes_append (calls : List SendCall) (call : SendCall) :
    acceptedBytes (calls ++ [call]) = acceptedBytes calls ++ call.bytes := by
  simp [acceptedBytes]

/-- What the loop of `WriteSome` has done before a round with `n` bytes sent. -/
structure Sending (buf : List UInt8) (size : ℤ) (n : ℕ) (calls : List SendCall) : Prop where
  accepted : acceptedBytes calls = buf.take n
  within : ∀ call ∈ calls, call.Within buf size
  /-- Every call so far was accepted. -/
  fine : ∀ call ∈ calls, ∃ m, call.answer = .accepted m

/-- What `WriteSome` has done when it returns `r`: it has sent `k` bytes. -/
structure Sent (buf : List UInt8) (size : ℤ) (k : ℕ) (r : WriteResult σ) : Prop where
  accepted : acceptedBytes r.calls = buf.take k
  within : ∀ call ∈ r.calls, call.Within buf size
  value : (∀ call ∈ r.calls, ¬ call.Failed) → r.value = k
  short : (∀ call ∈ r.calls, ¬ call.Failed) → k < size → ∃ call ∈ r.calls, call.Blocked
  failed : r.value = -1 ↔ ∃ call ∈ r.calls, call.Failed

theorem Sending.begin (buf : List UInt8) (size : ℤ) : Sending buf size 0 [] where
  accepted := rfl
  within _ hcall := absurd hcall List.not_mem_nil
  fine _ hcall := absurd hcall List.not_mem_nil

/-- A call that is accepted. -/
theorem Sending.accept (h : Sending buf size n calls) {m : ℕ}
    (hm : m ≤ ((buf.take size.toNat).drop n).length) :
    Sending buf size (n + m) (calls ++ [⟨(buf.take size.toNat).drop n, .accepted m⟩]) where
  accepted := by
    have hroom : m ≤ size.toNat - n := by
      rw [List.length_drop, List.length_take] at hm
      omega
    have hnext : ((buf.take size.toNat).drop n).take m = (buf.drop n).take m := by
      rw [List.drop_take, List.take_take, Nat.min_eq_left hroom]
    rw [acceptedBytes_append, h.accepted, SendCall.bytes, List.take_add]
    exact congrArg _ hnext
  within call hcall := by
    rcases List.mem_append.mp hcall with hcall | hcall
    · exact h.within call hcall
    · obtain rfl := List.mem_singleton.mp hcall
      exact ⟨n, rfl⟩
  fine call hcall := by
    rcases List.mem_append.mp hcall with hcall | hcall
    · exact h.fine call hcall
    · obtain rfl := List.mem_singleton.mp hcall
      exact ⟨m, rfl⟩

/-- The calls that were accepted have not failed. -/
theorem Sending.not_failed (h : Sending buf size n calls) : ¬ ∃ call ∈ calls, call.Failed := by
  rintro ⟨call, hcall, err, herr, -⟩
  obtain ⟨m, hm⟩ := h.fine call hcall
  rw [hm] at herr
  cases herr

/-- Everything has been sent. -/
theorem Sending.finish (h : Sending buf size n calls) (hn : ¬ (n : ℤ) < size) (s : σ) :
    Sent buf size n (⟨n, calls, s⟩ : WriteResult σ) where
  accepted := h.accepted
  within := h.within
  value _ := rfl
  short _ hlt := absurd hlt hn
  failed := by
    refine iff_of_false (fun hvalue => ?_) h.not_failed
    change (n : ℤ) = -1 at hvalue
    omega

/-- A call that fails. -/
theorem Sending.fail (h : Sending buf size n calls) (err : ℤ) (s : σ) :
    Sent buf size n
      ⟨if err ≠ wsaEWouldBlock then -1 else n,
        calls ++ [⟨(buf.take size.toNat).drop n, .error err⟩], s⟩ where
  accepted := by
    rw [acceptedBytes_append, h.accepted]
    exact List.append_nil _
  within call hcall := by
    rcases List.mem_append.mp hcall with hcall | hcall
    · exact h.within call hcall
    · obtain rfl := List.mem_singleton.mp hcall
      exact ⟨n, rfl⟩
  value hfine := by
    refine if_neg fun hhard => hfine _ (List.mem_append_right _ (List.mem_singleton_self _)) ?_
    exact ⟨err, rfl, hhard⟩
  short hfine _ := by
    refine ⟨_, List.mem_append_right _ (List.mem_singleton_self _), ?_⟩
    have hsoft : err = wsaEWouldBlock := by
      by_contra hhard
      exact hfine _ (List.mem_append_right _ (List.mem_singleton_self _)) ⟨err, rfl, hhard⟩
    rw [SendCall.Blocked, hsoft]
  failed := by
    by_cases hsoft : err = wsaEWouldBlock
    · refine iff_of_false (fun hvalue => ?_) ?_
      · rw [if_neg (not_not.mpr hsoft)] at hvalue
        change (n : ℤ) = -1 at hvalue
        omega
      · rintro ⟨call, hcall, e, he, hhard⟩
        rcases List.mem_append.mp hcall with hcall | hcall
        · exact h.not_failed ⟨call, hcall, e, he, hhard⟩
        · obtain rfl := List.mem_singleton.mp hcall
          obtain rfl := Send.error.inj he
          exact hhard hsoft
    · refine iff_of_true (if_pos hsoft) ?_
      exact ⟨_, List.mem_append_right _ (List.mem_singleton_self _), err, rfl, hsoft⟩

/-- **The loop of `WriteSome`** ends. -/
theorem Accepting.writeLoop (h : Accepting send) (hbuf : size ≤ buf.length)
    (hn : n ≤ size.toNat) (hfuel : size.toNat < n + fuel) (hcalls : Sending buf size n calls) :
    ∃ r k, SocketOpts.writeLoop send buf size fuel s n calls = some r ∧ k ≤ size.toNat ∧
      Sent buf size k r := by
  induction fuel generalizing s n calls with
  | zero => omega
  | succ fuel ih =>
    rw [SocketOpts.writeLoop]
    by_cases hlt : (n : ℤ) < size
    · rw [if_pos hlt, segment, if_pos hbuf]
      have hlen : ((buf.take size.toNat).drop n).length = size.toNat - n := by
        rw [List.length_drop, List.length_take]
        omega
      have hne : (buf.take size.toNat).drop n ≠ [] :=
        List.ne_nil_of_length_pos (by omega)
      rcases h s _ hne with ⟨m, s', hsend, hpos, hm⟩ | ⟨err, s', hsend⟩
      · obtain ⟨r, k, hr, hk, hsent⟩ :=
          @ih s' (n + m) _ (by omega) (by omega) (hcalls.accept hm)
        refine ⟨r, k, ?_, hk, hsent⟩
        simp only [hsend]
        exact hr
      · refine ⟨_, n, ?_, hn, hcalls.fail err s'⟩
        simp only [hsend]
        split <;> rfl
    · rw [if_neg hlt]
      exact ⟨_, n, rfl, hn, hcalls.finish hlt s⟩

/-- **`WriteSome` sends a prefix and reports it exactly**, for every way the socket answers: the
bytes accepted over all calls are the first `k` of the buffer, and no call reads beyond `size`; `k`
is returned unless a call fails, and is less than `size` only if a call would have blocked; -1 is
returned exactly if a call fails. -/
theorem writeSome_exact (h : Accepting send) (hbuf : size ≤ buf.length)
    (hfuel : size.toNat < fuel) :
    ∃ r k, writeSome send fuel s buf size = some r ∧ k ≤ size.toNat ∧ Sent buf size k r :=
  h.writeLoop hbuf (Nat.zero_le _) (by omega) (.begin buf size)

/-- A socket that accepts two bytes at a time, `left` times, and would then block. -/
def pairwise (left : ℕ) (bytes : List UInt8) : Send × ℕ :=
  if left = 0 then (.error wsaEWouldBlock, 0) else (.accepted (min 2 bytes.length), left - 1)

theorem writeSome_exact_pairwise :
    writeSome pairwise 6 2 [1, 2, 3, 4, 5] 5 =
      some ⟨4, [⟨[1, 2, 3, 4, 5], .accepted 2⟩, ⟨[3, 4, 5], .accepted 2⟩,
        ⟨[5], .error wsaEWouldBlock⟩], 0⟩ ∧
    ∃ r k, writeSome pairwise 6 2 [1, 2, 3, 4, 5] 5 = some r ∧ k ≤ (5 : ℤ).toNat ∧
      Sent [1, 2, 3, 4, 5] 5 k r := by
  refine ⟨by decide +kernel, writeSome_exact (fun left bytes hne => ?_) (by decide) (by decide)⟩
  unfold pairwise
  split
  · exact Or.inr ⟨_, _, rfl⟩
  · have := List.length_pos_of_ne_nil hne
    exact Or.inl ⟨_, _, rfl, by omega, by omega⟩

end SocketOpts

end WinsockTut
