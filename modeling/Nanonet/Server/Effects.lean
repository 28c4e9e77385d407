import Nanonet.Server.Objects

/-!
# The effect of each step

What the objects own at each place of the code, and that every step has one of the effects of
`System.Effect`. Nothing behind this module looks into the steps again, except to see when the accept
loop ends.
-/

namespace Nanonet.Server

open ConnectionThread

/-! ### What the objects own at each place -/

/-- The thread is in `operator()`, or before it. -/
def ThreadPc.Serving (pc : ThreadPc) : Prop := pc ≠ .destroyingConnection ∧ pc ≠ .done

structure Thread.Ok (t : Thread) : Prop where
  sentry : t.f.hasSentry = true ↔ t.pc.Serving
  connection : t.f.c.isSome = true ↔ t.pc ≠ .done

namespace AcceptPc

def Ok : AcceptPc → Prop
  | constructing f | startingThread f => f.hasSentry = true ∧ f.c.isSome = true
  | detaching f => f = empty
  | unwinding f => f.c.isSome = true
  | unwindingConnection f => f.hasSentry = false
  | testing | accepting | settingTimeout _ | makingSentry _ | sleeping | draining | waiting |
    complete | returned | thrown | callerReturned _ => True

end AcceptPc

structure System.Ok (s : System) : Prop where
  accept : s.accept.Ok
  threads : ∀ t ∈ s.threads, t.Ok

/-! ### What the two destructors leave -/

theorem hasSentry_destroySentry (f : ConnectionThread) (s : Shared) :
    (f.destroySentry s).1.hasSentry = false := rfl

theorem c_destroySentry (f : ConnectionThread) (s : Shared) : (f.destroySentry s).1.c = f.c := rfl

theorem destroyConnection_fst (f : ConnectionThread) (s : Shared) :
    (f.destroyConnection s).1 = ⟨none, f.sentry⟩ := by
  obtain ⟨c | c, sentry⟩ := f <;> rfl

theorem hasSentry_destroyConnection (f : ConnectionThread) (s : Shared) :
    (f.destroyConnection s).1.hasSentry = f.hasSentry := by
  rw [destroyConnection_fst]
  rfl

theorem eq_empty {f : ConnectionThread} (hsentry : f.hasSentry = false) (hc : f.c = none) :
    f = empty := by
  obtain ⟨c, ⟨h | h⟩⟩ := f
  · cases hc
    rfl
  · cases hsentry

theorem destroyConnection_eq_empty {f : ConnectionThread} (hsentry : f.hasSentry = false)
    (s : Shared) : (f.destroyConnection s).1 = empty := by
  rw [destroyConnection_fst]
  exact eq_empty hsentry rfl

/-! ### Steps of a connection thread -/

namespace Thread

variable {t t' : Thread} {s s' : Shared} {a : ThreadStep}

/-- A step goes on in `operator()`, or is one of the two steps of the destructor. -/
theorem step_cases (h : t.step s a = some (t', s')) :
    (t.pc.Serving ∧ t'.pc.Serving ∧ t'.f = t.f ∧ (s' = s ∨ s' = s.shutdown)) ∨
    (t.pc = .returning ∧ t' = ⟨.destroyingConnection, (t.f.destroySentry s).1⟩ ∧
      s' = (t.f.destroySentry s).2) ∨
    (t.pc = .destroyingConnection ∧ t' = ⟨.done, (t.f.destroyConnection s).1⟩ ∧
      s' = (t.f.destroyConnection s).2) := by
  cases a with
  | destroySentry =>
    obtain ⟨hpc, h⟩ := Option.ite_none_right_eq_some.1 h
    cases h
    exact .inr (.inl ⟨hpc, rfl, rfl⟩)
  | destroyConnection =>
    obtain ⟨hpc, h⟩ := Option.ite_none_right_eq_some.1 h
    cases h
    exact .inr (.inr ⟨hpc, rfl, rfl⟩)
  | welcome o | getline o | handle o =>
    left
    obtain ⟨hpc, h⟩ := Option.ite_none_right_eq_some.1 h
    rcases o with (_ | _) | _ | _ <;> cases h <;> simp [ThreadPc.Serving, afterHandler, hpc]
  | checkRunning | setUp | testRunning =>
    left
    obtain ⟨hpc, h⟩ := Option.ite_none_right_eq_some.1 h
    cases h
    simp only [ThreadPc.Serving, hpc]
    split_ifs <;> simp
  | log | shutdown | readByte | clientClosed | logClosing =>
    left
    obtain ⟨hpc, h⟩ := Option.ite_none_right_eq_some.1 h
    cases h
    simp [ThreadPc.Serving, hpc]

theorem step_of_not_serving (hnot : ¬ t.pc.Serving) (h : t.step s a = some (t', s')) :
    t.pc = .destroyingConnection ∧ s' = (t.f.destroyConnection s).2 := by
  obtain ⟨hserving, -⟩ | ⟨hpc, -⟩ | ⟨hpc, -, hshared⟩ := step_cases h
  · exact absurd hserving hnot
  · exact absurd (hpc ▸ ⟨nofun, nofun⟩) hnot
  · exact ⟨hpc, hshared⟩

theorem serving_of_touches (ha : a.Touches) (h : t.step s a = some (t', s')) : t.pc.Serving := by
  by_contra hnot
  have hpc := (step_of_not_serving hnot h).1
  cases a with
  | destroyConnection => exact ha
  | _ => simp [step, hpc] at h

/-- A thread that is serving can take a step that uses what the server lends it, or one to the
destructor of its sentry. -/
theorem exists_touch (t : Thread) (s : Shared) (hserving : t.pc.Serving) :
    (∃ a t' s', a.Touches ∧ t.step s a = some (t', s')) ∨
      ∃ a t', t.step s a = some (t', s) ∧ t'.pc = .returning := by
  obtain ⟨pc, f⟩ := t
  cases pc with
  | starting => exact .inl ⟨.checkRunning, _, _, trivial, rfl⟩
  | settingUp => exact .inr ⟨.setUp false, _, rfl, rfl⟩
  | logging => exact .inl ⟨.log, _, _, trivial, rfl⟩
  | welcoming => exact .inl ⟨.welcome .throws, _, _, trivial, rfl⟩
  | looping => exact .inl ⟨.testRunning, _, _, trivial, rfl⟩
  | reading => exact .inr ⟨.getline .throws, _, rfl, rfl⟩
  | handling => exact .inl ⟨.handle .throws, _, _, trivial, rfl⟩
  | shuttingDown => exact .inl ⟨.shutdown, _, _, trivial, rfl⟩
  | waitingForClient => exact .inr ⟨.clientClosed, _, rfl, rfl⟩
  | closing => exact .inr ⟨.logClosing, _, rfl, rfl⟩
  | returning => exact .inl ⟨.destroySentry, _, _, trivial, rfl⟩
  | destroyingConnection => exact absurd rfl hserving.1
  | done => exact absurd rfl hserving.2

theorem ok_step (hok : t.Ok) (h : t.step s a = some (t', s')) : t'.Ok := by
  obtain ⟨hpc, hpc', hf, -⟩ | ⟨hpc, rfl, -⟩ | ⟨hpc, rfl, -⟩ := step_cases h
  · constructor
    · rw [hf, hok.sentry]
      exact iff_of_true hpc hpc'
    · rw [hf, hok.connection]
      exact iff_of_true hpc.2 hpc'.2
  · constructor
    · exact iff_of_false nofun fun hserving => hserving.1 rfl
    · rw [c_destroySentry, hok.connection, hpc]
      exact iff_of_true nofun nofun
  · constructor
    · rw [hasSentry_destroyConnection, hok.sentry, hpc]
      exact iff_of_false (fun hserving => hserving.1 rfl) fun hserving => hserving.2 rfl
    · rw [destroyConnection_fst]
      exact iff_of_false nofun fun hdone => hdone rfl

end Thread

/-! ### Steps of the accept loop -/

namespace AcceptPc

variable {pc pc' : AcceptPc} {s s' : Shared} {a : AcceptStep} {started : Option Thread}

theorem ok_none : ∀ t ∈ (none : Option Thread), t.Ok := nofun

theorem ok_step (hok : pc.Ok) (h : pc.step s a = some (pc', s', started)) :
    pc'.Ok ∧ ∀ t ∈ started, t.Ok := by
  unfold AcceptPc.step at h
  split at h
  all_goals cases h
  -- most places promise nothing, and only one step starts a thread
  all_goals try exact ⟨trivial, ok_none⟩
  next => split_ifs <;> exact ⟨trivial, ok_none⟩
  next => exact ⟨rfl, ok_none⟩
  next => exact ⟨⟨rfl, rfl⟩, ok_none⟩
  next =>
    split_ifs
    · exact ⟨hok, ok_none⟩
    · exact ⟨hok.2, ok_none⟩
  next ct =>
    refine ⟨rfl, fun t ht => ?_⟩
    cases ht
    exact ⟨iff_of_true hok.1 ⟨nofun, nofun⟩, iff_of_true hok.2 nofun⟩
  next => exact ⟨hok.2, ok_none⟩
  next => exact ⟨rfl, ok_none⟩
  next => split_ifs <;> exact ⟨trivial, ok_none⟩
  next => split_ifs <;> exact ⟨trivial, ok_none⟩

theorem ending_cases (h : pc.step s a = some (pc', s', started)) (hstopped : pc'.Stopped) :
    s' = s ∧ started = none ∧
      (pc = testing ∧ s.running = false ∧ pc' = draining ∨
        pc = draining ∧ pc' = waiting ∨
        pc = waiting ∧ pc' = draining ∨
        pc = draining ∧ s.connectionsCurrent = 0 ∧ pc' = complete ∨
        pc = complete ∧ a = .leave ∧ pc' = returned ∨
        pc = returned ∧ pc' = callerReturned false) := by
  unfold AcceptPc.step at h
  split at h
  all_goals cases h
  all_goals simp only [Stopped, Drained, Returned, reduceCtorEq, or_self] at hstopped
  next =>
    split_ifs at hstopped ⊢ with hrunning
    · simp at hstopped
    · simp [hrunning]
  next => split_ifs at hstopped <;> simp at hstopped
  next => split_ifs with hzero <;> simp [hzero]
  all_goals try simp
  next => split_ifs at hstopped <;> simp at hstopped

theorem stopped_of_step (h : pc.step s a = some (pc', s', started)) (hstopped : pc'.Stopped) :
    pc.Stopped ∨ s.running = false := by
  obtain ⟨-, -, ⟨-, hrunning, -⟩ | ⟨rfl, -⟩ | ⟨rfl, -⟩ | ⟨rfl, -⟩ | ⟨rfl, -⟩ | ⟨rfl, -⟩⟩ :=
    ending_cases h hstopped
  · exact .inr hrunning
  · exact .inl (.inl rfl)
  · exact .inl (.inr (.inl rfl))
  · exact .inl (.inl rfl)
  · exact .inl (.inr (.inr (.inl rfl)))
  · exact .inl (.inr (.inr (.inr (.inl rfl))))

theorem drained_of_step (h : pc.step s a = some (pc', s', started)) (hdrained : pc'.Drained) :
    pc.Drained ∨ s.connectionsCurrent = 0 := by
  obtain ⟨-, -, ⟨-, -, rfl⟩ | ⟨-, rfl⟩ | ⟨-, rfl⟩ | ⟨-, hzero, -⟩ | ⟨rfl, -⟩ | ⟨rfl, -⟩⟩ :=
    ending_cases h (.inr (.inr hdrained))
  · simp [Drained, Returned] at hdrained
  · simp [Drained, Returned] at hdrained
  · simp [Drained, Returned] at hdrained
  · exact .inr hzero
  · exact .inl (.inl rfl)
  · exact .inl (.inr (.inl rfl))

theorem leave_cases (h : pc.step s .leave = some (pc', s', started)) :
    pc = complete ∧ pc' = returned ∧ s' = s ∧ started = none := by
  cases pc with
  | complete =>
    cases h
    exact ⟨rfl, rfl, rfl, rfl⟩
  | _ => cases h

theorem sleep_throws_cases (h : pc.step s (.sleep false) = some (pc', s', started)) :
    pc.objects = [] ∧ pc' = thrown ∧ s' = s ∧ started = none := by
  cases pc with
  | sleeping | waiting =>
    cases h
    exact ⟨rfl, rfl, rfl, rfl⟩
  | _ => cases h

theorem over_of_step (h : pc.step s a = some (pc', s', started)) (hover : pc.Over) :
    pc'.Over ∧ (pc.Returned → pc'.Returned) ∧ s' = s ∧ started = none := by
  obtain (rfl | rfl) | rfl | rfl := hover
  · cases a with
    | callerLeaves =>
      cases h
      exact ⟨.inl (.inr rfl), fun _ => .inr rfl, rfl, rfl⟩
    | _ => cases h
  · cases a <;> cases h
  · cases a with
    | callerLeaves =>
      cases h
      refine ⟨.inr ?_, by simp [Returned], rfl, rfl⟩
      split_ifs
      · exact .inl rfl
      · exact .inr rfl
    | _ => cases h
  · cases a <;> cases h

theorem over_cases (h : pc.step s a = some (pc', s', started)) (hover : pc'.Over) :
    pc.Over ∨ a = .leave ∨ a = .sleep false := by
  unfold AcceptPc.step at h
  split at h
  all_goals cases h
  all_goals simp only [Over, Returned, Thrown, reduceCtorEq, or_self] at hover ⊢
  all_goals try split_ifs at hover
  all_goals simp at hover ⊢

theorem accepted_of_step {c : Nat} (h : pc.step s a = some (settingTimeout c, s', started)) :
    c = s.connections.length ∧ s'.connections = s.connections ++ [⟨true, false⟩] := by
  unfold AcceptPc.step at h
  split at h
  all_goals simp only [Option.some.injEq, Prod.mk.injEq, reduceCtorEq, false_and] at h
  next => split_ifs at h <;> cases h.1
  next =>
    obtain ⟨hc, rfl, -⟩ := h
    cases hc
    exact ⟨rfl, rfl⟩
  next => split_ifs at h <;> cases h.1
  next => split_ifs at h <;> cases h.1
  next => split_ifs at h <;> cases h.1

theorem objects_of_over (h : pc.Over) : pc.objects = [] := by
  obtain (rfl | rfl) | rfl | rfl := h <;> rfl

theorem c_isSome_of_hasSentry (hok : pc.Ok) {f : ConnectionThread} (hf : f ∈ pc.objects)
    (hsentry : f.hasSentry = true) : f.c.isSome = true := by
  cases pc with
  | settingTimeout c | makingSentry c =>
    cases List.mem_singleton.1 hf
    rfl
  | constructing g | startingThread g =>
    cases List.mem_singleton.1 hf
    exact hok.2
  | detaching g =>
    cases List.mem_singleton.1 hf
    cases hok
    cases hsentry
  | unwinding g =>
    cases List.mem_singleton.1 hf
    exact hok
  | unwindingConnection g =>
    cases List.mem_singleton.1 hf
    exact absurd hsentry (Bool.eq_false_iff.1 hok)
  | _ => cases hf

end AcceptPc

/-! ### The effect of a step -/

namespace System

variable {s s' : System} {l : Label}

theorem accept_cases {a : AcceptStep} (h : s.step (.accept a) = some s') :
    ∃ pc sh started, s.accept.step s.shared a = some (pc, sh, started) ∧
      s' = ⟨pc, sh, s.threads ++ started.toList⟩ := by
  obtain ⟨⟨pc, sh, started⟩, hstep, rfl⟩ := Option.map_eq_some_iff.1 h
  exact ⟨pc, sh, started, hstep, rfl⟩

theorem thread_cases {i : Nat} {a : ThreadStep} (h : s.step (.thread i a) = some s') :
    ∃ t t' sh, s.threads[i]? = some t ∧ t.step s.shared a = some (t', sh) ∧
      s' = ⟨s.accept, sh, s.threads.set i t'⟩ := by
  obtain ⟨t, ht, h⟩ := Option.bind_eq_some_iff.1 h
  obtain ⟨⟨t', sh⟩, hstep, rfl⟩ := Option.map_eq_some_iff.1 h
  exact ⟨t, t', sh, ht, hstep, rfl⟩

theorem swaps_thread {t : Thread} {i : Nat} (ht : s.threads[i]? = some t) (t' : Thread)
    (sh : Shared) : Swaps empty s.objects (objects ⟨s.accept, sh, s.threads.set i t'⟩) t.f t'.f := by
  simp only [objects, List.map_set]
  refine (Swaps.set ?_ t'.f).prepend _
  rw [List.getElem?_map, ht]
  rfl

theorem effect_thread {i : Nat} {a : ThreadStep} (h : s.step (.thread i a) = some s') :
    s.Effect s' := by
  obtain ⟨t, t', sh, ht, hstep, rfl⟩ := thread_cases h
  have hswaps := swaps_thread ht t' sh
  obtain ⟨-, -, hf, hshared⟩ | ⟨-, rfl, hshared⟩ | ⟨-, rfl, hshared⟩ := Thread.step_cases hstep
  · rw [hf] at hswaps
    obtain rfl | rfl := hshared
    · exact .keep t.f hswaps rfl rfl rfl id
    · exact .keep t.f hswaps rfl rfl rfl nofun
  · exact .sentryDestroyed t.f hswaps hshared
  · refine .connectionDestroyed t.f ?_ hswaps hshared
    exact List.mem_append_right _ (List.mem_map_of_mem (List.mem_of_getElem? ht))

theorem effect_of_objects (hobjects : s'.objects = s.objects) (hshared : s'.shared = s.shared) :
    s.Effect s' := by
  refine .keep empty ?_ ?_ ?_ ?_ ?_
  · rw [hobjects]
    exact .refl _ _
  all_goals rw [hshared]
  exact id

theorem effect_accept {a : AcceptStep} (hok : s.accept.Ok) (h : s.step (.accept a) = some s') :
    s.Effect s' := by
  obtain ⟨pc, sh, started, hstep, rfl⟩ := accept_cases h
  obtain ⟨accept, shared, threads⟩ := s
  simp only at hstep hok ⊢
  unfold AcceptPc.step at hstep
  split at hstep
  all_goals cases hstep
  all_goals simp only [Option.toList_none, List.append_nil, moveConstruct_eq, destroy_empty]
  all_goals try exact effect_of_objects rfl rfl
  next =>
    refine effect_of_objects ?_ rfl
    simp only [objects]
    split_ifs <;> rfl
  next => exact .accepted ((Swaps.first _).append _) rfl
  next c => exact .counted c empty rfl (.refl _ _) rfl
  next c => exact .sentryMade c rfl ((Swaps.single _ _).append _) rfl
  next args ok =>
    refine effect_of_objects ?_ rfl
    simp only [objects]
    split_ifs <;> rfl
  next ct =>
    -- the functor moves to the thread; its copy in the accept loop stays behind, empty
    refine .keep empty ?_ rfl rfl rfl id
    simp only [objects, List.map_append]
    exact .move _ ct
  next ct =>
    cases hok
    exact .keep empty ((Swaps.last empty).append _) rfl rfl rfl id
  next f => exact .sentryDestroyed f ((Swaps.single _ _).append _) rfl
  next f =>
    refine .connectionDestroyed f (List.mem_cons_self ..) ?_ rfl
    rw [destroyConnection_eq_empty hok]
    exact (Swaps.last f).append _
  next =>
    refine effect_of_objects ?_ rfl
    simp only [objects]
    split_ifs <;> rfl
  next =>
    refine effect_of_objects ?_ rfl
    simp only [objects]
    split_ifs <;> rfl

theorem effect_of_step (hok : s.Ok) (h : s.step l = some s') : s.Effect s' := by
  cases l with
  | accept a => exact effect_accept hok.accept h
  | thread i a => exact effect_thread h
  | shutdown =>
    cases h
    exact .keep empty (.refl _ _) rfl rfl rfl nofun

theorem running_of_effect (h : s.Effect s') (hdown : s.shared.running = false) :
    s'.shared.running = false := by
  cases h with
  | keep f _ _ _ _ hrunning =>
    rw [Bool.eq_false_iff] at hdown ⊢
    exact mt hrunning hdown
  | accepted _ hshared => rwa [hshared]
  | counted _ _ _ _ hshared => rwa [hshared]
  | sentryMade _ _ _ hshared => rwa [hshared]
  | sentryDestroyed _ _ hshared => rwa [hshared]
  | connectionDestroyed f _ _ hshared =>
    rw [hshared]
    obtain ⟨_ | c, sentry⟩ := f <;> exact hdown

/-! ### What stays as it is -/

theorem ok_accept {a : AcceptStep} (hok : s.Ok) (h : s.step (.accept a) = some s') : s'.Ok := by
  obtain ⟨pc, sh, started, hstep, rfl⟩ := accept_cases h
  obtain ⟨haccept, hstarted⟩ := AcceptPc.ok_step hok.accept hstep
  refine ⟨haccept, fun t ht => ?_⟩
  obtain ht | ht := List.mem_append.1 ht
  · exact hok.threads t ht
  · exact hstarted t (Option.mem_toList.1 ht)

theorem ok_thread {i : Nat} {a : ThreadStep} (hok : s.Ok) (h : s.step (.thread i a) = some s') :
    s'.Ok := by
  obtain ⟨t, t', sh, ht, hstep, rfl⟩ := thread_cases h
  have hmem : t ∈ s.threads := List.mem_of_getElem? ht
  refine ⟨hok.accept, fun u hu => ?_⟩
  obtain hu | rfl := List.mem_or_eq_of_mem_set hu
  · exact hok.threads u hu
  · exact Thread.ok_step (hok.threads t hmem) hstep

theorem ok_of_step (hok : s.Ok) (h : s.step l = some s') : s'.Ok := by
  cases l with
  | accept a => exact ok_accept hok h
  | thread i a => exact ok_thread hok h
  | shutdown =>
    cases h
    exact ⟨hok.accept, hok.threads⟩

theorem ok_of_reachable (h : lts.Reachable s) : s.Ok :=
  h.invariant (fun _ hs => hs ▸ ⟨trivial, nofun⟩) fun _ _ _ _ hok hstep => ok_of_step hok hstep

end System

end Nanonet.Server
