import Nanonet.Queue.Clients

/-!
# Channels that are queues

Whatever threads can do with channels they can do with queues: one thread after the other makes its
call, locks the mutex, does its work, unlocks it and notifies nobody, since nobody sleeps. With
`Clients.simulates` this says that queues and channels lead threads to the same states
(`Clients.reachable_iff`).
-/

namespace Nanonet

namespace SafeQueue

open QueuePc

variable {Tid α : Type*} [DecidableEq Tid] {cfg : QueueConfig} {ch : Channel α} {i : Tid} {a : α}

/-- The queue of a channel, where all threads but one are outside. -/
def busy (ch : Channel α) (i : Tid) (owner : Option Tid) (pc : QueuePc α) : SafeQueue Tid α :=
  ⟨ch.content, owner, Function.update (fun _ => .idle) i pc, ch.pushed, ch.popped⟩

@[simp] theorem busy_pc (owner : Option Tid) (pc : QueuePc α) :
    (busy ch i owner pc).pc i = pc := by
  simp [busy]

theorem busy_goto (owner : Option Tid) (pc pc' : QueuePc α) :
    (busy ch i owner pc).goto i pc' = busy ch i owner pc' := by
  simp [busy, goto]

theorem not_asleep {owner : Option Tid} {pc pc' : QueuePc α} (hpc : pc ≠ pc')
    (hidle : pc' ≠ .idle) (j : Tid) : (busy ch i owner pc).pc j ≠ pc' := by
  show Function.update (fun _ => QueuePc.idle) i pc j ≠ pc'
  rw [Function.update_apply]
  split_ifs
  · exact hpc
  · exact hidle.symm

theorem not_full_of_room (h : Channel.Room cfg.limit ch) : ¬ Full cfg ch.content := by
  rintro ⟨hbounded, hlength⟩
  have hlt := h cfg.capacity (by simp [QueueConfig.limit, hbounded])
  omega

theorem busy_lockPush : Step cfg (busy ch i none (.enterPush a false)) (i, .code)
    (busy ch i (some i) (.checkPush a false)) := by
  rw [← busy_goto (some i) (.enterPush a false)]
  exact .lockPush (by simp) rfl

theorem busy_push (hroom : Channel.Room cfg.limit ch) :
    Step cfg (busy ch i (some i) (.checkPush a false)) (i, .code)
      (busy (ch.push a) i (some i) .leavePush) := by
  have hstep : Step cfg (busy ch i (some i) (.checkPush a false)) (i, .code) _ :=
    .push (t := a) (w := false) (by simp) (not_full_of_room hroom)
  simpa [busy, goto, Channel.push] using hstep

theorem busy_unlockPush : Step cfg (busy ch i (some i) .leavePush) (i, .code)
    (busy ch i none .notifyData) := by
  rw [← busy_goto none .leavePush]
  exact .unlockPush (by simp)

theorem busy_notifyNoData : Step cfg (busy ch i none .notifyData) (i, .code)
    (busy ch i none .idle) := by
  have hstep : Step cfg (busy ch i none .notifyData) (i, .code) _ :=
    .notifyNoData (by simp) (not_asleep (by simp) (by simp))
  rw [busy_goto] at hstep
  exact hstep

theorem busy_lockPop : Step cfg (busy ch i none (.enterPop false)) (i, .code)
    (busy ch i (some i) (.checkPop false)) := by
  rw [← busy_goto (some i) (.enterPop false)]
  exact .lockPop (by simp) rfl

theorem busy_pop {ch' : Channel α} (hpop : ch.pop = some (a, ch')) :
    Step cfg (busy ch i (some i) (.checkPop false)) (i, .code)
      (busy ch' i (some i) (.leavePop a)) := by
  obtain ⟨content, hcontent, rfl⟩ := Channel.pop_eq_some hpop
  have hstep : Step cfg (busy ch i (some i) (.checkPop false)) (i, .code) _ :=
    .pop (w := false) (by simp) hcontent
  simpa [busy, goto] using hstep

theorem busy_unlockPop : Step cfg (busy ch i (some i) (.leavePop a)) (i, .code)
    (busy ch i none (.notifySpace a)) := by
  rw [← busy_goto none (.leavePop a)]
  exact .unlockPop (by simp)

theorem busy_notifyNoSpace : Step cfg (busy ch i none (.notifySpace a)) (i, .code)
    (busy ch i none .idle) := by
  have hstep : Step cfg (busy ch i none (.notifySpace a)) (i, .code) _ :=
    .notifyNoSpace (t := a) (by simp) fun _ j u => not_asleep (by simp) (by simp) j
  rw [busy_goto] at hstep
  exact hstep

end SafeQueue

namespace Clients

open QueuePc

variable {Tid ι α L : Type*} [DecidableEq Tid] [DecidableEq ι] {prog : Threads.Program Tid ι α L}
  {cfg : ι → QueueConfig} {begins : Tid → L} {t t' : Threads Tid ι α L} {i : Tid} {x : ι}
  {q q' : SafeQueue Tid α}

/-- Queues for the channels, with no thread inside. -/
def queueOf (t : Threads Tid ι α L) (x : ι) : SafeQueue Tid α :=
  ⟨(t.channel x).content, none, fun _ => .idle, (t.channel x).pushed, (t.channel x).popped⟩

/-- The threads with queues for their channels. -/
def quiet (t : Threads Tid ι α L) : Clients Tid ι α L := ⟨queueOf t, t.pc⟩

/-- All threads are outside of all queues but one. -/
def inQueue (t : Threads Tid ι α L) (x : ι) (q : SafeQueue Tid α) : Clients Tid ι α L :=
  ⟨Function.update (queueOf t) x q, t.pc⟩

omit [DecidableEq ι] in
theorem busy_idle (i : Tid) (x : ι) :
    SafeQueue.busy (t.channel x) i none .idle = queueOf t x := by
  simp [SafeQueue.busy, queueOf]

theorem inside (h : (lts prog cfg begins).Reachable (inQueue t x q))
    (hq : SafeQueue.Step (cfg x) q (i, .code) q') (hnot : q'.pc i ≠ .idle) :
    (lts prog cfg begins).Reachable (inQueue t x q') := by
  have hstep : Step prog cfg (inQueue t x q) (i, .code) _ :=
    .inside (x := x) (q := q') (by simpa [inQueue] using hq) (by simp) hnot
  simpa [inQueue] using Lts.Reachable.step h hstep

theorem returned (h : (lts prog cfg begins).Reachable (inQueue t x q)) {ch : Channel α}
    (hq : SafeQueue.Step (cfg x) q (i, .code) (SafeQueue.busy ch i none .idle)) {r : Option α}
    (hr : (q.pc i).value = r) :
    (lts prog cfg begins).Reachable (quiet
      ⟨Function.update t.channel x ch, Function.update t.pc i (prog.resume (t.pc i) r)⟩) := by
  have hstep : Step prog cfg (inQueue t x q) (i, .code) _ :=
    .returned (x := x) (by simpa [inQueue] using hq) (by simp) (by simp)
  have hqueue (pc : Tid → L) : Function.update (queueOf t) x (SafeQueue.busy ch i none .idle) =
      queueOf ⟨Function.update t.channel x ch, pc⟩ := by
    funext y
    by_cases hyx : y = x
    · subst hyx
      simp [queueOf, SafeQueue.busy]
    · simp [queueOf, hyx]
  have hreach := Lts.Reachable.step h hstep
  simp only [inQueue, Function.update_self, Function.update_idem, hr] at hreach
  rw [hqueue] at hreach
  exact hreach

theorem quiet_push (h : (lts prog cfg begins).Reachable (quiet t)) {a : α}
    (hreq : prog.request (t.pc i) = some (.call x (.push a)))
    (hroom : Channel.Room (cfg x).limit (t.channel x)) :
    (lts prog cfg begins).Reachable (quiet ⟨Function.update t.channel x ((t.channel x).push a),
      Function.update t.pc i (prog.resume (t.pc i) none)⟩) := by
  have hcall : Step prog cfg (quiet t) (i, .call)
      ⟨Function.update (queueOf t) x ((queueOf t x).goto i (.enterPush a false)), t.pc⟩ :=
    .callPush hreq rfl
  rw [← busy_idle i x, SafeQueue.busy_goto] at hcall
  have hcalled : (lts prog cfg begins).Reachable
      (inQueue t x (SafeQueue.busy (t.channel x) i none (.enterPush a false))) := .step h hcall
  have hlocked := inside hcalled SafeQueue.busy_lockPush (by simp)
  have hpushed := inside hlocked (SafeQueue.busy_push hroom) (by simp)
  have hunlocked := inside hpushed SafeQueue.busy_unlockPush (by simp)
  exact returned hunlocked SafeQueue.busy_notifyNoData (by simp [QueuePc.value])

theorem quiet_pop (h : (lts prog cfg begins).Reachable (quiet t)) {a : α} {ch : Channel α}
    (hreq : prog.request (t.pc i) = some (.call x .pop))
    (hpop : (t.channel x).pop = some (a, ch)) :
    (lts prog cfg begins).Reachable (quiet ⟨Function.update t.channel x ch,
      Function.update t.pc i (prog.resume (t.pc i) (some a))⟩) := by
  have hcall : Step prog cfg (quiet t) (i, .call)
      ⟨Function.update (queueOf t) x ((queueOf t x).goto i (.enterPop false)), t.pc⟩ :=
    .callPop hreq rfl
  rw [← busy_idle i x, SafeQueue.busy_goto] at hcall
  have hcalled : (lts prog cfg begins).Reachable
      (inQueue t x (SafeQueue.busy (t.channel x) i none (.enterPop false))) := .step h hcall
  have hlocked := inside hcalled SafeQueue.busy_lockPop (by simp)
  have hpopped := inside hlocked (SafeQueue.busy_pop hpop) (by simp)
  have hunlocked := inside hpopped SafeQueue.busy_unlockPop (by simp)
  exact returned hunlocked SafeQueue.busy_notifyNoSpace (by simp [QueuePc.value])

theorem quiet_reachable (h : (Threads.lts prog (fun x => (cfg x).limit) begins).Reachable t) :
    (lts prog cfg begins).Reachable (quiet t) := by
  induction h with
  | init hinit =>
    subst hinit
    exact .init rfl
  | step _ hstep ih =>
    cases hstep with
    | push hreq hroom => exact quiet_push ih hreq hroom
    | pop hreq hpop => exact quiet_pop ih hreq hpop
    | join hreq hreturned => exact .step ih (.joined hreq hreturned)

omit [DecidableEq Tid] [DecidableEq ι] in
theorem threads_quiet : (quiet t).threads prog = t := by
  have hplace : (quiet t).place prog = t.pc := funext fun i => place_of_idle fun _ => rfl
  rw [threads, hplace]
  rfl

/-- **Queues and channels lead to the same states**, where the steps of a call that do not count are
forgotten. -/
theorem reachable_iff : (∃ s, (lts prog cfg begins).Reachable s ∧ s.threads prog = t) ↔
    (Threads.lts prog (fun x => (cfg x).limit) begins).Reachable t := by
  constructor
  · rintro ⟨s, h, rfl⟩
    exact simulates.reachable h
  · intro h
    exact ⟨quiet t, quiet_reachable h, threads_quiet⟩

end Clients

end Nanonet
