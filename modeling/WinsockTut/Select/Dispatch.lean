import WinsockTut.Foundation.Sweep
import WinsockTut.Select.Retirement

/-!
# What a call of `Poll` dispatches

The loop of `Poll` performs the three tests for one entry after the other, while the callbacks add
and remove entries.  Numbered in the order of the loop, the tests are the positions of a sweep:
entries are retired in place and added at the end, so nothing behind the loop becomes ready again.
`dispatched_of_runs` is what follows: the callbacks of a call of `Poll` are made in the order of the
tests, none twice, as many as `Poll` returns, and none is left out for an entry that is still
registered when the loop ends.
-/

namespace WinsockTut

namespace SelectPoller

open Runs Sweep

variable {p : SelectPoller} {c c' t : Config} {e : Event} {es : List Event} {d d' : Dispatch}
  {ready : Ready} {count i n : ℕ} {fd : Socket} {s s' : Site}

/-- The number of a test in the body of the loop. -/
def Site.rank : Site → ℕ
  | .except => 0
  | .write => 1
  | .read => 2

/-- The number of a test in the whole loop. -/
def Dispatch.pos (d : Dispatch) : ℕ := 3 * d.i + d.site.rank

/-- The test with the number `n` succeeds for an entry that has not been retired. -/
def Due (p : SelectPoller) (ready : Ready) (n : ℕ) : Prop :=
  ∃ x s, p.fds[n / 3]? = some x ∧ s.rank = n % 3 ∧ x.fd ≠ invalidSocket ∧ x.fd ∈ ready.at s

/-- What `select` has returned, and the callbacks that were made since, in order. -/
structure Round where
  ready : Ready
  made : List Dispatch

/-- The callback control is in. -/
def Control.dispatch? : Control → Option Dispatch
  | .callback d _ _ => some d
  | _ => none

/-- The account of the current call of `Poll`. -/
def tally (_ : Config) (e : Event) (t : Config) (g : Round) : Round :=
  match e with
  | .poll => ⟨⟨[], [], []⟩, []⟩
  | .selectReturns ready => ⟨ready, t.ctl.dispatch?.toList⟩
  | .callbackReturn => { g with made := g.made ++ t.ctl.dispatch?.toList }
  | _ => g

/-! ### The tests -/

theorem rank_lt (s : Site) : s.rank < 3 := by
  cases s <;> decide

theorem rank_injective (h : s.rank = s'.rank) : s = s' := by
  cases s <;> cases s' <;> first | rfl | cases h

theorem mem_later : s' ∈ s.later ↔ s.rank < s'.rank := by
  cases s <;> cases s' <;> decide

theorem mem_all (s : Site) : s ∈ Site.all := by
  cases s <;> decide

/-- The tests are performed in the order of their numbers. -/
theorem pairwise_later (s : Site) : s.later.Pairwise fun s s' => s.rank < s'.rank := by
  cases s <;> decide

theorem pairwise_all : Site.all.Pairwise fun s s' => s.rank < s'.rank := by
  decide

/-- The tests in front of the first one that succeeds fail. -/
theorem nextSite_first {sites : List Site} (hsites : sites.Pairwise fun s s' => s.rank < s'.rank)
    (h : nextSite ready fd sites = some s) (hs' : s' ∈ sites) (hlt : s'.rank < s.rank) :
    fd ∉ ready.at s' := by
  unfold nextSite at h
  split at h
  · cases h
  · obtain ⟨-, before, after, rfl, hfail⟩ := List.find?_eq_some_iff_append.mp h
    have hmem : s' ∈ before := by
      rcases List.mem_append.mp hs' with hb | ha
      · exact hb
      · -- the tests that follow have greater numbers
        rcases List.mem_cons.mp ha with rfl | ha
        · exact absurd hlt (lt_irrefl _)
        · have hgt := (List.pairwise_cons.mp (List.pairwise_append.mp hsites).2.1).1 s' ha
          exact absurd hlt hgt.not_gt
    simpa [fdIsSet] using hfail s' hmem

theorem div_pos (d : Dispatch) : d.pos / 3 = d.i := by
  have := rank_lt d.site
  unfold Dispatch.pos
  omega

theorem mod_pos (d : Dispatch) : d.pos % 3 = d.site.rank := by
  have := rank_lt d.site
  unfold Dispatch.pos
  omega

/-- The loop skips only tests that fail. -/
theorem scan_spec {xs : List FdEntry} (h : scan ready i xs = some d) :
    ∃ k x, d.i = i + k ∧ xs[k]? = some x ∧ x.fd = d.fd ∧ d.fd ≠ invalidSocket ∧
      d.fd ∈ ready.at d.site ∧ (∀ s, s.rank < d.site.rank → d.fd ∉ ready.at s) ∧
      ∀ j < k, ∀ y, xs[j]? = some y → y.fd ≠ invalidSocket → ∀ s, y.fd ∉ ready.at s := by
  induction xs generalizing i with
  | nil => simp [scan] at h
  | cons x xs ih =>
    cases hs : nextSite ready x.fd Site.all with
    | some s =>
      simp only [scan, hs, Option.some.injEq] at h
      subst h
      obtain ⟨hfd, -, hready⟩ := nextSite_some hs
      exact ⟨0, x, rfl, rfl, rfl, hfd, hready,
        fun s' hlt => nextSite_first pairwise_all hs (mem_all s') hlt,
        fun j hj => absurd hj (Nat.not_lt_zero j)⟩
    | none =>
      simp only [scan, hs] at h
      obtain ⟨k, y, hi, hy, hyd, hfd, hready, hfirst, hskip⟩ := ih h
      refine ⟨k + 1, y, by omega, by simpa using hy, hyd, hfd, hready, hfirst, ?_⟩
      intro j hj z hz hzfd s
      cases j with
      | zero =>
        obtain rfl : x = z := by simpa using hz
        exact nextSite_none hzfd hs s (mem_all s)
      | succ j => exact hskip j (by omega) z (by simpa using hz) hzfd s

theorem scan_none {xs : List FdEntry} (h : scan ready i xs = none) :
    ∀ x ∈ xs, x.fd ≠ invalidSocket → ∀ s, x.fd ∉ ready.at s := by
  induction xs generalizing i with
  | nil => exact fun x hx => absurd hx List.not_mem_nil
  | cons x xs ih =>
    cases hs : nextSite ready x.fd Site.all with
    | some s => simp [scan, hs] at h
    | none =>
      simp only [scan, hs] at h
      intro y hy hfd s
      rcases List.mem_cons.mp hy with rfl | hy
      · exact nextSite_none hfd hs s (mem_all s)
      · exact ih h y hy hfd s

/-! ### What the loop passes over -/

/-- The entry of the callback is still there, or has been retired. -/
def Dispatch.Fits (d : Dispatch) (p : SelectPoller) : Prop :=
  ∃ x, p.fds[d.i]? = some x ∧ (x.fd = d.fd ∨ x.fd = invalidSocket)

/-- A call leaves the entry of a callback in its place. -/
theorem Dispatch.Fits.call (h : d.Fits p) (k : Call) : d.Fits (p.call k) := by
  obtain ⟨x, hx, hfd⟩ := h
  rcases getElem?_call hx k with hx' | hx'
  · exact ⟨x, hx', hfd⟩
  · exact ⟨_, hx', Or.inr rfl⟩

/-- Behind the callback, a call makes no test succeed. -/
theorem Due.of_call (hd : d.Fits p) (k : Call) (hn : n ≤ d.pos) (h : Due (p.call k) ready n) :
    Due p ready n := by
  obtain ⟨x, s, hx, hs, hfd, hready⟩ := h
  obtain ⟨y, hy, -⟩ := hd
  have hlt : n / 3 < p.fds.length := by
    have hi := (List.getElem?_eq_some_iff.mp hy).1
    have hle : n / 3 ≤ d.pos / 3 := Nat.div_le_div_right hn
    rw [div_pos] at hle
    exact hle.trans_lt hi
  rcases getElem?_call (List.getElem?_eq_getElem hlt) k with hsame | hretired
  · have hxy := hsame.symm.trans hx
    exact ⟨x, s, (List.getElem?_eq_getElem hlt).trans hxy, hs, hfd, hready⟩
  · obtain rfl := Option.some.inj (hretired.symm.trans hx)
    exact absurd rfl hfd

/-- The entries from `b` on are scanned, up to the callback that is made. -/
theorem scan_passes {b : ℕ} (h : scan ready b (p.fds.drop b) = some d) :
    3 * b ≤ d.pos ∧ d.fd ≠ invalidSocket ∧ d.fd ∈ ready.at d.site ∧ d.Fits p ∧
      ∀ n, 3 * b ≤ n → n < d.pos → ¬ Due p ready n := by
  obtain ⟨k, x, hi, hx, hxd, hfd, hready, hfirst, hskip⟩ := scan_spec h
  rw [List.getElem?_drop, ← hi] at hx
  refine ⟨by unfold Dispatch.pos; omega, hfd, hready, ⟨x, hx, Or.inl hxd⟩, fun n hb hn => ?_⟩
  rintro ⟨y, s, hy, hs, hyfd, hmem⟩
  have hle : n / 3 ≤ d.i := div_pos d ▸ Nat.div_le_div_right hn.le
  rcases hle.lt_or_eq with hlt | heq
  · have hy' : (p.fds.drop b)[n / 3 - b]? = some y := by
      rw [List.getElem?_drop, ← hy]
      congr 1
      omega
    exact hskip (n / 3 - b) (by omega) y hy' hyfd s hmem
  · -- the tests of the same entry are performed in order
    obtain rfl := Option.some.inj (hx.symm.trans (heq ▸ hy))
    refine hfirst s ?_ (hxd ▸ hmem)
    have hmod := mod_pos d
    have hdiv := div_pos d
    omega

/-- The entries from `b` on are scanned without a callback. -/
theorem scan_passes_all {b : ℕ} (h : scan ready b (p.fds.drop b) = none) (hn : 3 * b ≤ n) :
    ¬ Due p ready n := by
  rintro ⟨x, s, hx, -, hfd, hmem⟩
  have hx' : (p.fds.drop b)[n / 3 - b]? = some x := by
    rw [List.getElem?_drop, ← hx]
    congr 1
    omega
  exact scan_none h x (List.mem_of_getElem? hx') hfd s hmem

/-- Nothing is ready if `select` returns 0. -/
theorem not_due_of_total (h : ¬ ready.total > 0) : ¬ Due p ready n := by
  rintro ⟨x, s, -, -, -, hmem⟩
  have hpos := List.length_pos_of_mem hmem
  unfold Ready.total at h
  cases s with
  | except =>
    change 0 < ready.exptset.length at hpos
    omega
  | write =>
    change 0 < ready.wrset.length at hpos
    omega
  | read =>
    change 0 < ready.rdset.length at hpos
    omega

/-- A test that succeeds for the entry of the callback succeeds for the local variable `fd`. -/
theorem Due.same (hd : d.Fits p) (hn : n / 3 = d.i) (h : Due p ready n) :
    ∃ s, s.rank = n % 3 ∧ d.fd ∈ ready.at s := by
  obtain ⟨x, s, hx, hs, hfd, hmem⟩ := h
  obtain ⟨y, hy, hyd⟩ := hd
  obtain rfl := Option.some.inj (hy.symm.trans (hn ▸ hx))
  exact ⟨s, hs, hyd.resolve_right hfd ▸ hmem⟩

/-- Between two callbacks the loop passes only over tests that fail. -/
theorem resume_passes (hd : d.Fits p) (hfd : d.fd ≠ invalidSocket)
    (h : p.resume ready d = some d') :
    d.pos < d'.pos ∧ d'.fd ≠ invalidSocket ∧ d'.fd ∈ ready.at d'.site ∧ d'.Fits p ∧
      ∀ n, d.pos < n → n < d'.pos → ¬ Due p ready n := by
  unfold resume at h
  cases hs : nextSite ready d.fd d.site.later with
  | some s =>
    simp only [hs, Option.some.injEq] at h
    subst h
    obtain ⟨-, hlater, hmem⟩ := nextSite_some hs
    have hrank : d.site.rank < s.rank := mem_later.mp hlater
    have hthree := rank_lt s
    refine ⟨by simpa [Dispatch.pos] using hrank, hfd, hmem, hd, fun n hn hn' hdue => ?_⟩
    simp only [Dispatch.pos] at hn hn'
    obtain ⟨s', hs', hmem'⟩ := hdue.same hd (by omega)
    have hlater' : s' ∈ d.site.later := mem_later.mpr (by omega)
    exact nextSite_first (pairwise_later d.site) hs hlater' (by omega) hmem'
  | none =>
    simp only [hs] at h
    obtain ⟨hle, hfd', hmem, hfits, hskip⟩ := scan_passes h
    have hthree := rank_lt d.site
    refine ⟨by simp only [Dispatch.pos] at hle ⊢; omega, hfd', hmem, hfits, fun n hn hn' hdue => ?_⟩
    by_cases hnext : 3 * (d.i + 1) ≤ n
    · exact hskip n hnext hn' hdue
    · simp only [Dispatch.pos] at hn
      obtain ⟨s, hrank, hmem'⟩ := hdue.same hd (by omega)
      exact nextSite_none hfd hs s (mem_later.mpr (by omega)) hmem'

/-- After the last callback there are only tests that fail. -/
theorem resume_passes_all (hd : d.Fits p) (hfd : d.fd ≠ invalidSocket)
    (h : p.resume ready d = none) (hn : d.pos < n) : ¬ Due p ready n := by
  unfold resume at h
  cases hs : nextSite ready d.fd d.site.later with
  | some s => simp [hs] at h
  | none =>
    simp only [hs] at h
    intro hdue
    by_cases hnext : 3 * (d.i + 1) ≤ n
    · exact scan_passes_all h hnext hdue
    · simp only [Dispatch.pos] at hn
      obtain ⟨s, hrank, hmem⟩ := hdue.same hd (by omega)
      exact nextSite_none hfd hs s (mem_later.mpr (by omega)) hmem

/-! ### The account of a call of `Poll` -/

/-- What the account of the current call of `Poll` says at each place of the loop. -/
structure Dispatched (c : Config) (g : Round) : Prop where
  sorted : (g.made.map Dispatch.pos).Pairwise (· < ·)
  ready : ∀ d ∈ g.made, d.fd ∈ g.ready.at d.site
  running : ∀ d ready count, c.ctl = .callback d ready count →
    ready = g.ready ∧ g.made.length = count + 1 ∧ d.fd ≠ invalidSocket ∧ d ∈ g.made ∧
      (∀ d' ∈ g.made, d'.Fits c.poller) ∧
      Swept (Due c.poller ready) (· ≤ d.pos) (g.made.map Dispatch.pos)
  ended : ∀ count, c.ctl = .update count → g.made.length = count ∧
    (∀ d ∈ g.made, d.Fits c.poller) ∧
      ∀ n, Due c.poller g.ready n → n ∈ g.made.map Dispatch.pos
  updating : ∀ count, c.ctl = .updating count → g.made.length = count

/-- At a place outside the loop, the account only says what was done. -/
theorem Dispatched.of_outside {g : Round} (hsorted : (g.made.map Dispatch.pos).Pairwise (· < ·))
    (hready : ∀ d ∈ g.made, d.fd ∈ g.ready.at d.site)
    (hctl : c.ctl = .idle ∨ c.ctl = .crashed ∨ ∃ sets, c.ctl = .selecting sets) :
    Dispatched c g where
  sorted := hsorted
  ready := hready
  running d ready count h := by
    rcases hctl with hc | hc | ⟨sets, hc⟩ <;> cases hc.symm.trans h
  ended count h := by
    rcases hctl with hc | hc | ⟨sets, hc⟩ <;> cases hc.symm.trans h
  updating count h := by
    rcases hctl with hc | hc | ⟨sets, hc⟩ <;> cases hc.symm.trans h

/-- **The loop goes on** to its next callback, or ends. -/
theorem dispatched_of_dispatch (made : List Dispatch) {passed : ℕ → Prop} {next : Option Dispatch}
    (hdisp : dispatch c ready count next = some c') (hcount : made.length = count)
    (hready : ∀ d ∈ made, d.fd ∈ ready.at d.site) (hfits : ∀ d ∈ made, d.Fits c.poller)
    (hswept : Swept (Due c.poller ready) passed (made.map Dispatch.pos))
    (hnone : next = none → ∀ n, ¬ passed n → ¬ Due c.poller ready n)
    (hsome : ∀ d, next = some d → (∀ n, passed n → n < d.pos) ∧ d.fd ≠ invalidSocket ∧
      d.fd ∈ ready.at d.site ∧ d.Fits c.poller ∧
        ∀ n < d.pos, ¬ passed n → ¬ Due c.poller ready n) :
    Dispatched c' ⟨ready, made ++ c'.ctl.dispatch?.toList⟩ := by
  rcases dispatch_cases hdisp with ⟨hnext, rfl⟩ | ⟨d, x, hnext, hx, ⟨-, rfl⟩ | ⟨-, rfl⟩⟩
  · have hmade : made ++ (Control.update count).dispatch?.toList = made := List.append_nil made
    rw [hmade]
    refine ⟨hswept.sorted, hready, nofun, fun n hn => ?_, nofun⟩
    obtain rfl := Control.update.inj hn
    exact ⟨hcount, hfits, hswept.finish (hnone hnext)⟩
  · obtain ⟨hahead, hfd, hmem, hhere, hskip⟩ := hsome d hnext
    have hvisited := hswept.visit hahead hskip
    have hmap : (made ++ [d]).map Dispatch.pos = made.map Dispatch.pos ++ [d.pos] :=
      List.map_append
    change Dispatched _ ⟨ready, made ++ [d]⟩
    have hboth : ∀ {P : Dispatch → Prop}, (∀ d ∈ made, P d) → P d → ∀ d' ∈ made ++ [d], P d' := by
      intro P hall hd d' hd'
      rcases List.mem_append.mp hd' with hd' | hd'
      · exact hall d' hd'
      · exact List.mem_singleton.mp hd' ▸ hd
    refine ⟨hmap ▸ hvisited.sorted, hboth hready hmem, fun d' ready' n hn => ?_, nofun, nofun⟩
    obtain ⟨rfl, rfl, rfl⟩ := Control.callback.inj hn
    exact ⟨rfl, by simp [hcount], hfd, by simp, hboth hfits hhere, hmap ▸ hvisited⟩
  · have hmade : made ++ Control.crashed.dispatch?.toList = made := List.append_nil made
    rw [hmade]
    exact .of_outside hswept.sorted hready (Or.inr (Or.inl rfl))

/-- **Preservation.** -/
theorem Dispatched.step {g : Round} (h : Dispatched c g)
    (hstep : SelectPoller.step c e = some c') : Dispatched c' (tally c e c' g) := by
  cases effect_of_step hstep with
  | @called k hcall =>
    refine ⟨h.sorted, h.ready, fun d ready count hctl => ?_, fun count hctl => ?_, h.updating⟩
    · obtain ⟨hsame, hlen, hfd, hmem, hfits, hswept⟩ := h.running d ready count hctl
      refine ⟨hsame, hlen, hfd, hmem, fun d' hd' => (hfits d' hd').call k, ?_⟩
      exact hswept.of_imp fun n hn hdue => hdue.of_call (hfits d hmem) k hn
    · have hctl : c.ctl = .update count := hctl
      simp [hctl, Control.stage, Stage.canCall] at hcall
  | @ticked e timers =>
    change Dispatched _ g
    refine ⟨h.sorted, h.ready, fun d ready count hctl => ?_, fun count hctl => ?_,
      fun count hctl => ?_⟩
    · refine h.running d ready count ?_
      rcases c.ctl.afterTimer_eq e with hsame | ⟨n, hn⟩
      · exact hsame.symm.trans hctl
      · cases hn.symm.trans hctl
    · refine h.ended count ?_
      rcases c.ctl.afterTimer_eq e with hsame | ⟨n, hn⟩
      · exact hsame.symm.trans hctl
      · cases hn.symm.trans hctl
    · cases hc : c.ctl with
      | update n =>
        have hctl : Control.afterTimer c.ctl e = .updating count := hctl
        rw [hc, Control.afterTimer] at hctl
        split at hctl
        · obtain rfl := Control.updating.inj hctl
          exact (h.ended n hc).1
        · cases hctl
      | updating n =>
        have hctl : Control.afterTimer c.ctl e = .updating count := hctl
        rw [hc] at hctl
        obtain rfl := Control.updating.inj hctl
        exact h.updating n hc
      | _ =>
        have hctl : Control.afterTimer c.ctl e = .updating count := hctl
        rw [hc] at hctl
        cases hctl
  | selecting hctl hfds =>
    exact .of_outside List.Pairwise.nil (fun d hd => absurd hd List.not_mem_nil)
      (Or.inr (Or.inr ⟨_, rfl⟩))
  | slept hctl hfds =>
    refine ⟨List.Pairwise.nil, fun d hd => absurd hd List.not_mem_nil,
      fun _ _ _ hn => Control.noConfusion hn, fun n hn => ?_, fun _ hn => Control.noConfusion hn⟩
    obtain rfl := Control.update.inj hn
    refine ⟨rfl, fun d hd => absurd hd List.not_mem_nil, fun n hdue => ?_⟩
    obtain ⟨x, s, hx, -⟩ := hdue
    have hx : c.poller.fds[n / 3]? = some x := hx
    simp [hfds] at hx
  | failed hctl => exact .of_outside h.sorted h.ready (Or.inl rfl)
  | finished hctl => exact .of_outside h.sorted h.ready (Or.inl rfl)
  | @selected sets ready _ hctl hw hd =>
    refine dispatched_of_dispatch [] hd rfl (fun d hd => absurd hd List.not_mem_nil)
      (fun d hd => absurd hd List.not_mem_nil) (Swept.begin _) (fun hnext n _ => ?_)
      fun d hnext => ?_
    · unfold start at hnext
      split at hnext
      · exact scan_passes_all (b := 0) (by simpa using hnext) (Nat.zero_le n)
      · rename_i htotal
        exact not_due_of_total htotal
    · have hscan : scan ready 0 (c.poller.fds.drop 0) = some d := by
        unfold start at hnext
        split at hnext
        · simpa using hnext
        · cases hnext
      obtain ⟨-, hfd, hmem, hfits, hskip⟩ := scan_passes hscan
      exact ⟨fun _ => False.elim, hfd, hmem, hfits, fun n hn _ => hskip n (Nat.zero_le n) hn⟩
  | @resumed d ready count _ hctl hd =>
    obtain ⟨rfl, hlen, hfd, hmem, hfits, hswept⟩ := h.running d ready count hctl
    refine dispatched_of_dispatch _ hd hlen h.ready hfits hswept (fun hnext n hn => ?_)
      fun d' hnext => ?_
    · exact resume_passes_all (hfits d hmem) hfd hnext (not_le.mp hn)
    · obtain ⟨hlt, hfd', hmem', hfits', hskip⟩ := resume_passes (hfits d hmem) hfd hnext
      exact ⟨fun n hn => lt_of_le_of_lt hn hlt, hfd', hmem', hfits',
        fun n hn hn' => hskip n (not_le.mp hn') hn⟩

/-- **What `Poll` dispatches.**  In every run, the callbacks of the current call of `Poll` are made
in the order of the tests of its loop, none twice, each of them for a socket that `select` reported
at this test; `Poll` returns their number; and when the loop ends, none has been left out for an
entry that is still registered. -/
theorem dispatched_of_runs (hrun : runs es = some c) :
    ∃ g, history step tally Config.init ⟨⟨[], [], []⟩, []⟩ es = some g ∧
      (g.made.map Dispatch.pos).Pairwise (· < ·) ∧
      (∀ d ∈ g.made, d.fd ∈ g.ready.at d.site) ∧
      (∀ count, c.ctl = .updating count → g.made.length = count) ∧
      ∀ count, c.ctl = .update count → ∀ i x s, c.poller.fds[i]? = some x →
        x.fd ≠ invalidSocket → x.fd ∈ g.ready.at s → ⟨i, x.fd, s⟩ ∈ g.made := by
  have hinit : Dispatched Config.init ⟨⟨[], [], []⟩, []⟩ :=
    .of_outside List.Pairwise.nil (fun d hd => absurd hd List.not_mem_nil) (Or.inl rfl)
  obtain ⟨g, hg, h⟩ := exists_history tally hinit
    (fun t g e u h hstep => h.step hstep) hrun
  refine ⟨g, hg, h.sorted, h.ready, h.updating, fun count hctl i x s hx hfd hmem => ?_⟩
  obtain ⟨-, hfits, hall⟩ := h.ended count hctl
  have hrank := rank_lt s
  have hdue : Due c.poller g.ready (3 * i + s.rank) :=
    ⟨x, s, by rwa [show (3 * i + s.rank) / 3 = i by omega], by omega, hfd, hmem⟩
  obtain ⟨d, hd, hpos⟩ := List.mem_map.mp (hall _ hdue)
  -- the callback was made through this entry, which still has its socket
  have hi : d.i = i := by
    have := div_pos d
    omega
  have hs : d.site = s := rank_injective (by have := mod_pos d; omega)
  obtain ⟨y, hy, hyd⟩ := hfits d hd
  obtain rfl := Option.some.inj ((hi ▸ hy).symm.trans hx)
  have hsocket : d.fd = y.fd := (hyd.resolve_right hfd).symm
  rwa [show (⟨i, y.fd, s⟩ : Dispatch) = d from by rw [← hi, ← hs, ← hsocket]]

/-- Three sockets are ready; the first callback removes the third one, and adds a socket. -/
def removeThird : List Event :=
  [.call (.addFd 5 1), .call (.addFd 6 1), .call (.addFd 7 1), .call (.setPollIn 5),
    .call (.setPollIn 6), .call (.setPollIn 7), .call (.setPollOut 6), .poll,
    .selectReturns ⟨[5, 6, 7], [6], []⟩, .call (.removeFd 7), .call (.addFd 8 2), .callbackReturn,
    .callbackReturn, .callbackReturn]

theorem dispatched_removeThird : ∃ c g, runs removeThird = some c ∧
    history step tally Config.init ⟨⟨[], [], []⟩, []⟩ removeThird = some g ∧
      g.made = [⟨0, 5, .read⟩, ⟨1, 6, .write⟩, ⟨1, 6, .read⟩] ∧
        (g.made.map Dispatch.pos).Pairwise (· < ·) := by
  obtain ⟨c, hc⟩ : ∃ c, runs removeThird = some c := Option.isSome_iff_exists.mp (by decide +kernel)
  obtain ⟨g, hg, hsorted, -⟩ := dispatched_of_runs hc
  have hmade : (history step tally Config.init ⟨⟨[], [], []⟩, []⟩ removeThird).map Round.made =
      some [⟨0, 5, .read⟩, ⟨1, 6, .write⟩, ⟨1, 6, .read⟩] := by decide +kernel
  rw [hg, Option.map_some, Option.some.injEq] at hmade
  exact ⟨c, g, hc, hg, hmade, hsorted⟩

end SelectPoller

end WinsockTut
