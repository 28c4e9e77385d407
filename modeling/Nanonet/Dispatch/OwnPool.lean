import Nanonet.Dispatch.PoolsProgress

/-!
# Tasks that wait for their own pool

`dispatch_returning()` may be called from a task, and nothing keeps it from being called on the pool
that runs this task. When every thread of a pool waits in this way, no thread is left that could
take one of the tasks waited for: none of the threads ever comes back, the pool executes nothing
more, and its destructor never returns (`Pools.own_pool_blocks`). With one thread, one such call is
enough.
-/

namespace Nanonet

variable {τ : Type*}

namespace Pools

variable {P : Program τ} {s s' : Pools τ} {k : Caller} {p : Nat}

/-- Every thread of the pool waits for a task of this pool. -/
structure Blocked (P : Program τ) (p : Nat) (s : Pools τ) : Prop where
  threads : (s.crews p).threads ≠ []
  waits : ∀ i < (s.crews p).threads.length, ∃ t,
    (s.frames (.worker p i)).awaited = some t ∧ P.home t = p

theorem Blocked.current (h : Blocked P p s) (hinv : Inv P (fun _ _ => True) s) {i : Nat}
    (hi : i < (s.crews p).threads.length) : (s.crews p).current i ≠ none := by
  intro hnone
  obtain ⟨t, ht, -⟩ := h.waits i hi
  rw [hinv.idle p i hnone] at ht
  cases ht

theorem Blocked.not_idle (h : Blocked P p s) {i : Nat} (hi : i < (s.crews p).threads.length)
    {todo : List (Stmt τ)} : s.frames (.worker p i) ≠ ⟨todo, none⟩ := by
  intro hk
  obtain ⟨t, ht, -⟩ := h.waits i hi
  rw [hk] at ht
  cases ht

theorem Blocked.of_frames (h : Blocked P p s)
    (hlen : (s'.crews p).threads.length = (s.crews p).threads.length)
    (hframes : ∀ i < (s.crews p).threads.length,
      s'.frames (.worker p i) = s.frames (.worker p i)) : Blocked P p s' where
  threads := by
    rw [ne_eq, ← List.length_eq_zero_iff, hlen, List.length_eq_zero_iff]
    exact h.threads
  waits i hi := by
    rw [hlen] at hi
    rw [hframes i hi]
    exact h.waits i hi

theorem Blocked.not_awaited (h : Blocked P p s) (hinv : Inv P (fun _ _ => True) s) {q i : Nat}
    {j : Job τ} (hj : j ∈ (s.crews q).pending) (hq : q ≠ p)
    (hi : i < (s.crews p).threads.length) : j.frame ≠ some (.worker p i) := by
  intro hframe
  obtain ⟨t, ht, hhome⟩ := h.waits i hi
  obtain ⟨owed, howed, hsum⟩ := hinv.owed (.worker p i)
  obtain ⟨rest, rfl, -⟩ := howed.split q
  have hmem : j.task ∈ (s.frames (.worker p i)).owed := by
    rw [← hsum, Multiset.mem_add, Multiset.mem_add, Crew.mem_owed, ← hframe]
    exact .inl (.inl hj)
  rw [Frame.mem_owed, ht] at hmem
  cases hmem
  exact hq ((hinv.home q j hj).symm.trans hhome)

theorem Blocked.move (h : Blocked P p s) (hinv : Inv P (fun _ _ => True) s)
    (hm : Move P s k s') : Blocked P p s' ∧ (s'.crews p).executed = (s.crews p).executed := by
  -- the thread that moves is none of the blocked ones
  have hset : ∀ {todo}, s.frames k = ⟨todo, none⟩ → ∀ f, ∀ i < (s.crews p).threads.length,
      Function.update s.frames k f (.worker p i) = s.frames (.worker p i) := by
    intro todo hk f i hi
    apply Function.update_of_ne
    rintro rfl
    exact h.not_idle hi hk
  have hcrew : ∀ q c, (q = p → c.threads.length = (s.crews q).threads.length ∧
      c.executed = (s.crews q).executed) →
      (Function.update s.crews q c p).threads.length = (s.crews p).threads.length ∧
      (Function.update s.crews q c p).executed = (s.crews p).executed := by
    intro q c hc
    rw [Function.update_apply]
    split
    · next hp =>
      subst hp
      exact hc rfl
    · exact ⟨rfl, rfl⟩
  have hnot : ∀ {i c}, (s.crews p).threadFunction i = some c →
      s.frames (.worker p i) ≠ .idle := by
    intro i c hc
    apply h.not_idle
    rw [Crew.threadFunction] at hc
    by_contra hlt
    rw [List.getElem?_eq_none (by omega)] at hc
    cases hc
  have hlive : p < s.size := by
    by_contra hp
    apply h.threads
    rw [hinv.beyond p (by omega)]
    rfl
  cases hm with
  | construct hk =>
    obtain ⟨hlen, hexec⟩ := hcrew s.size (Crew.start _) fun hq => by omega
    exact ⟨h.of_frames hlen (hset hk _), hexec⟩
  | @dispatch _ b _ hk =>
    obtain ⟨hlen, hexec⟩ := hcrew (P.home b.task) ((s.crews _).dispatch (b.job k))
      fun _ => ⟨rfl, rfl⟩
    exact ⟨h.of_frames hlen (hset hk _), hexec⟩
  | execute hk _ hnil =>
    obtain ⟨hlen, hexec⟩ := hcrew _ _ fun hq => absurd (hq ▸ hnil) h.threads
    exact ⟨h.of_frames hlen (hset hk _), hexec⟩
  | @signal _ _ q _ hk =>
    obtain ⟨hlen, hexec⟩ := hcrew q (s.crews q).signal fun _ => ⟨rfl, rfl⟩
    exact ⟨h.of_frames hlen (hset hk _), hexec⟩
  | signalled hk => exact ⟨h.of_frames rfl (hset hk _), rfl⟩
  | join hk _ hjoin =>
    obtain ⟨ws, w, ws', hthreads, -, -, hc⟩ := Crew.join_cases hjoin
    obtain ⟨hlen, hexec⟩ := hcrew _ _ fun _ => ⟨(Crew.pushed_of_join hjoin).2, by rw [hc]⟩
    exact ⟨h.of_frames hlen (hset hk _), hexec⟩
  | @joined _ i q rest hk hsize hle =>
    have hnocall : ∀ b, (Stmt.joining i : Stmt τ) ≠ .call b := by
      intro b hb
      cases hb
    obtain rfl := hinv.eq_main hk hnocall
    have hmain := hinv.mainAt hk
    rw [hsize] at hmain
    have hq : q ≠ p := by
      -- a pool that was joined runs no jobs
      rintro rfl
      have hpos := List.length_pos_iff.2 h.threads
      exact h.current hinv hpos
        (hmain.joining_inv.1.current_joined (Crew.inv (hinv.crew _)) hle 0)
    obtain ⟨hlen, hexec⟩ := hcrew q (Crew.start 0) fun hq' => absurd hq' hq
    exact ⟨h.of_frames hlen (hset hk ⟨rest, none⟩), hexec⟩
  | @take q i j c hidle htake =>
    have hq : q ≠ p := by
      rintro rfl
      exact hnot htake.step hidle
    obtain ⟨hlen, hexec⟩ := hcrew q c fun hq' => absurd hq' hq
    exact ⟨h.of_frames hlen (hset hidle _), hexec⟩
  | @leave q i c hidle hleave =>
    have hq : q ≠ p := by
      rintro rfl
      exact hnot hleave.step hidle
    obtain ⟨hlen, hexec⟩ := hcrew q c fun hq' => absurd hq' hq
    exact ⟨h.of_frames hlen fun _ _ => rfl, hexec⟩
  | @finish q i j c hidle hfinish =>
    have hq : q ≠ p := by
      rintro rfl
      exact hnot hfinish.step hidle
    have hpending : j ∈ (s.crews q).pending :=
      Crew.mem_pending.2 (.inr (Crew.mem_running hfinish.before))
    obtain ⟨hlen, hexec⟩ := hcrew q c fun hq' => absurd hq' hq
    rw [crews_finish]
    refine ⟨h.of_frames ?_ fun i' hi' => ?_, hexec⟩
    · rw [crews_finish]
      exact hlen
    · rw [frames_finish, if_neg (h.not_awaited hinv hpending hq hi'), frames_setCrew]

/-- **A pool whose threads all wait for its own tasks is blocked for good**: whatever the schedule,
all of its threads go on waiting, nothing more is executed there, and the main thread does not get
to its end. -/
theorem own_pool_blocks (hs : (lts P).Reachable s) (h : Blocked P p s) {ks : List Caller}
    (hrun : ks.foldlM (fun s k => s.step P k) s = some s') :
    Blocked P p s' ∧ (s'.crews p).executed = (s.crews p).executed ∧ ¬ s'.Finished := by
  have hfin : ∀ {u : Pools τ}, (lts P).Reachable u → Blocked P p u → ¬ u.Finished := by
    intro u hu hb hfin
    apply hb.threads
    rw [((inv (.any P) hu).finished hfin).2.1 p]
    rfl
  induction ks generalizing s with
  | nil =>
    cases hrun
    exact ⟨h, rfl, hfin hs h⟩
  | cons k ks ih =>
    rw [List.foldlM_cons, Option.bind_eq_bind, Option.bind_eq_some_iff] at hrun
    obtain ⟨u, hu, hrest⟩ := hrun
    obtain ⟨hb, hexec⟩ := h.move (inv (.any P) hs) (step_cases hu)
    obtain ⟨hblocked, hsame, hnot⟩ := ih (.step hs hu) hb hrest
    exact ⟨hblocked, hsame.trans hexec, hnot⟩

/-- One thread, and one task that waits for another. -/
def ownPool : Program Bool where
  home _ := 0
  body t := if t then [⟨false, true⟩] else []
  main := [.construct 1, .call ⟨true, false⟩, .destroy]
  main_scoped := ⟨Nat.zero_lt_one, rfl⟩

/-- The thread has taken the first task and waits for the second one. -/
def waitingPool : Pools Bool :=
  (run ownPool [.main, .main, .worker 0 0, .worker 0 0]).get rfl

theorem own_pool_blocks_one : (lts ownPool).Reachable waitingPool ∧
    ∃ s', [Caller.main, .main].foldlM (fun s k => step ownPool s k) waitingPool = some s' ∧
      (s'.frames .main).todo = [.joining 0] ∧ Blocked ownPool 0 s' ∧ ¬ s'.Finished := by
  have hreach : (lts ownPool).Reachable waitingPool :=
    reachable_of_run (Option.some_get (x := run ownPool _) rfl).symm
  have hblocked : Blocked ownPool 0 waitingPool := by
    refine ⟨nofun, fun i hi => ?_⟩
    obtain rfl : i = 0 := Nat.lt_one_iff.1 hi
    exact ⟨false, rfl, rfl⟩
  have hrun : [Caller.main, .main].foldlM (fun s k => step ownPool s k) waitingPool = some _ := rfl
  obtain ⟨hb, -, hnot⟩ := own_pool_blocks hreach hblocked hrun
  exact ⟨hreach, _, hrun, rfl, hb, hnot⟩

end Pools

end Nanonet
