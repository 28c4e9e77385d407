import Nanonet.Server.Effects

/-!
# The accounts of the server

The counter is the number of objects with a sentry, a connection is open while one object holds it,
and the total counts the connections that got past setting their timeout. Each account is followed
through the effects of the steps.
-/

namespace Nanonet.Server

open ConnectionThread

/-! ### The connections -/

namespace Shared

def isOpen (s : Shared) (k : Nat) : Bool := s.connections[k]?.any Connection.isOpen

theorem isOpen_lt {s : Shared} {k : Nat} (h : s.isOpen k = true) : k < s.connections.length := by
  obtain ⟨x, hx, -⟩ := (Option.any_eq_true _ _).1 h
  exact (List.getElem?_eq_some_iff.1 hx).1

theorem isOpen_accept (s : Shared) (k : Nat) :
    (isOpen { s with connections := s.connections ++ [⟨true, false⟩] } k).toNat =
      (s.isOpen k).toNat + (s.connections.length == k).toNat := by
  obtain hlt | rfl | hgt := Nat.lt_trichotomy k s.connections.length
  · rw [beq_eq_false_iff_ne.2 (Nat.ne_of_gt hlt), isOpen, List.getElem?_append_left hlt]
    rfl
  · rw [isOpen, isOpen, List.getElem?_concat_length, List.getElem?_eq_none (Nat.le_refl _),
      beq_self_eq_true]
    rfl
  · rw [beq_eq_false_iff_ne.2 (Nat.ne_of_lt hgt), isOpen, isOpen,
      List.getElem?_eq_none (Nat.le_of_lt hgt), List.getElem?_eq_none]
    · rfl
    · rw [List.length_append]
      exact hgt

theorem isOpen_release (s : Shared) (k j : Nat) :
    (s.release k).isOpen j = (s.isOpen j && k != j) := by
  rw [isOpen, isOpen, release, List.getElem?_modify]
  obtain rfl | hne := eq_or_ne k j
  · cases s.connections[k]? <;> simp
  · cases s.connections[j]? <;> simp [hne]

theorem countP_timeoutSet_release (s : Shared) (k : Nat) :
    (s.release k).connections.countP Connection.timeoutSet =
      s.connections.countP Connection.timeoutSet := by
  apply countP_modify_of_eq
  intro x
  rfl

theorem isOpen_countConnection (s : Shared) (k j : Nat) :
    (s.countConnection k).isOpen j = s.isOpen j := by
  rw [isOpen, isOpen, countConnection, List.getElem?_modify]
  cases s.connections[j]? with
  | none => rfl
  | some x =>
    simp only [Option.map_eq_map, Option.map_some, Option.any_some]
    split_ifs <;> rfl

end Shared

namespace System

variable {s s' : System} {l : Label}

/-! ### The counter -/

theorem connectionsCurrent_callInit (s : Shared) :
    Shared.connectionsCurrent { s with calls := sentryTraits.callInit (some ()) s.calls } =
      s.connectionsCurrent + 1 := by
  simp [Shared.connectionsCurrent, ResourceTraits.callInit, incrementSentryTraits]

theorem connectionsCurrent_destroyConnection (f : ConnectionThread) (s : Shared) :
    (f.destroyConnection s).2.connectionsCurrent = s.connectionsCurrent := by
  obtain ⟨c | c, sentry⟩ := f <;> rfl

theorem count_of_effect (h : s.Effect s')
    (hcount : s.shared.connectionsCurrent = s.objects.countP hasSentry) :
    s'.shared.connectionsCurrent = s'.objects.countP hasSentry := by
  have hempty : hasSentry empty = false := rfl
  cases h with
  | keep f hswaps hcalls =>
    rw [hswaps.countP_eq hempty rfl, ← hcount, Shared.connectionsCurrent, hcalls]
    rfl
  | accepted hswaps hshared =>
    rw [hswaps.countP_eq hempty rfl, ← hcount, hshared]
    rfl
  | counted k f hpc hswaps hshared =>
    rw [hswaps.countP_eq hempty rfl, ← hcount, hshared]
    rfl
  | sentryMade k hpc hswaps hshared =>
    have hnumber : s'.objects.countP hasSentry + 0 = s.objects.countP hasSentry + 1 :=
      hswaps hasSentry hempty
    rw [hshared, connectionsCurrent_callInit, hcount]
    omega
  | sentryDestroyed f hswaps hshared =>
    have hnumber := hswaps hasSentry hempty
    rw [hasSentry_destroySentry, Bool.toNat_false] at hnumber
    rw [hshared, connectionsCurrent_destroySentry, hcount]
    omega
  | connectionDestroyed f hmem hswaps hshared =>
    rw [hswaps.countP_eq hempty (hasSentry_destroyConnection f _).symm, ← hcount, hshared,
      connectionsCurrent_destroyConnection]

/-! ### The sockets -/

theorem holds_eq (k : Nat) {f g : ConnectionThread} (h : f.c = g.c) : holds k f = holds k g := by
  rw [holds, holds, h]

theorem holds_none (k : Nat) (sentry : CountSentry) : holds k ⟨none, sentry⟩ = false := rfl

theorem isOpen_destroyConnection (f : ConnectionThread) (s : Shared) (k : Nat) :
    (f.destroyConnection s).2.isOpen k = (s.isOpen k && !holds k f) := by
  obtain ⟨_ | c, sentry⟩ := f
  · rw [holds_none]
    exact (Bool.and_true _).symm
  · exact Shared.isOpen_release s c k

theorem owned_of_effect (h : s.Effect s')
    (howned : ∀ k, s.objects.countP (holds k) = (s.shared.isOpen k).toNat) (k : Nat) :
    s'.objects.countP (holds k) = (s'.shared.isOpen k).toNat := by
  have hempty : holds k empty = false := rfl
  cases h with
  | keep f hswaps hcalls hconnections =>
    rw [hswaps.countP_eq hempty rfl, howned, Shared.isOpen, Shared.isOpen, hconnections]
  | accepted hswaps hshared =>
    have hnumber := hswaps (holds k) hempty
    rw [howned k, hempty] at hnumber
    rw [hshared, Shared.isOpen_accept]
    exact hnumber
  | counted j f hpc hswaps hshared =>
    rw [hswaps.countP_eq hempty rfl, howned, hshared, Shared.isOpen_countConnection]
  | sentryMade j hpc hswaps hshared =>
    rw [hswaps.countP_eq hempty (holds_eq k rfl), howned, hshared]
    rfl
  | sentryDestroyed f hswaps hshared =>
    rw [hswaps.countP_eq hempty (holds_eq k rfl), howned, hshared]
    rfl
  | connectionDestroyed f hmem hswaps hshared =>
    have hnumber := hswaps (holds k) hempty
    have hle : (holds k f).toNat ≤ s.objects.countP (holds k) := toNat_le_countP hmem
    rw [howned k] at hnumber hle
    rw [hshared, isOpen_destroyConnection]
    rw [destroyConnection_fst, holds_none] at hnumber
    cases hholds : holds k f with
    | false =>
      rw [hholds] at hnumber
      rw [Bool.not_false, Bool.and_true]
      exact hnumber
    | true =>
      have hone : (s.shared.isOpen k).toNat ≤ 1 := Bool.toNat_le _
      rw [hholds, Bool.toNat_true] at hnumber hle
      rw [Bool.not_true, Bool.and_false]
      simp only [Bool.toNat_false] at hnumber ⊢
      omega

/-! ### The total -/

theorem total_of_effect (h : s.Effect s')
    (hunset : ∀ k, s.accept = .settingTimeout k →
      s.shared.connections[k]?.map Connection.timeoutSet = some false)
    (htotal : s.shared.connectionsTotal = s.shared.connections.countP Connection.timeoutSet) :
    s'.shared.connectionsTotal = s'.shared.connections.countP Connection.timeoutSet := by
  cases h with
  | keep f hswaps hcalls hconnections hnumber => rw [hnumber, hconnections, htotal]
  | accepted hswaps hshared =>
    rw [hshared, List.countP_append, ← htotal]
    rfl
  | counted k f hpc hswaps hshared =>
    obtain ⟨x, hx, hset⟩ := Option.map_eq_some_iff.1 (hunset k hpc)
    have hnumber := countP_modify_add Connection.timeoutSet hx
      fun x => { x with timeoutSet := true }
    rw [hset, ← htotal] at hnumber
    rw [hshared]
    exact hnumber.symm
  | sentryMade k hpc hswaps hshared => rwa [hshared]
  | sentryDestroyed f hswaps hshared => rwa [hshared]
  | connectionDestroyed f hmem hswaps hshared =>
    rw [hshared]
    obtain ⟨_ | c, sentry⟩ := f
    · exact htotal
    · exact htotal.trans (s.shared.countP_timeoutSet_release c).symm

theorem timeoutSet_destroyConnection (f : ConnectionThread) (s : Shared) (k : Nat) :
    (f.destroyConnection s).2.connections[k]?.map Connection.timeoutSet =
      s.connections[k]?.map Connection.timeoutSet := by
  obtain ⟨_ | c, sentry⟩ := f
  · rfl
  · simp only [destroyConnection, Shared.release, List.getElem?_modify]
    cases s.connections[k]? with
    | none => rfl
    | some x =>
      simp only [Option.map_eq_map, Option.map_some]
      split_ifs <;> rfl

theorem unset_of_step (h : s.step l = some s')
    (hunset : ∀ k, s.accept = .settingTimeout k →
      s.shared.connections[k]?.map Connection.timeoutSet = some false) (k : Nat)
    (hpc : s'.accept = .settingTimeout k) :
    s'.shared.connections[k]?.map Connection.timeoutSet = some false := by
  cases l with
  | accept a =>
    obtain ⟨pc, sh, started, hstep, rfl⟩ := accept_cases h
    obtain rfl : pc = .settingTimeout k := hpc
    obtain ⟨rfl, hconnections⟩ := AcceptPc.accepted_of_step hstep
    rw [hconnections, List.getElem?_concat_length]
    rfl
  | thread i a =>
    obtain ⟨t, t', sh, ht, hstep, rfl⟩ := thread_cases h
    have hprev := hunset k hpc
    obtain ⟨-, -, -, rfl | rfl⟩ | ⟨-, -, rfl⟩ | ⟨-, -, rfl⟩ := Thread.step_cases hstep
    · exact hprev
    · exact hprev
    · exact hprev
    · rwa [timeoutSet_destroyConnection]
  | shutdown =>
    cases h
    exact hunset k hpc

/-! ### All accounts together -/

structure Accounts (s : System) : Prop where
  count : s.shared.connectionsCurrent = s.objects.countP hasSentry
  owned : ∀ k, s.objects.countP (holds k) = (s.shared.isOpen k).toNat
  total : s.shared.connectionsTotal = s.shared.connections.countP Connection.timeoutSet
  unset : ∀ k, s.accept = .settingTimeout k →
    s.shared.connections[k]?.map Connection.timeoutSet = some false

theorem Accounts.isOpen_of_holds (h : s.Accounts) {f : ConnectionThread} (hf : f ∈ s.objects)
    {k : Nat} (hk : f.c = some k) : s.shared.isOpen k = true := by
  have hholds : holds k f = true := beq_iff_eq.2 hk
  have hpos : 0 < s.objects.countP (holds k) := List.countP_pos_iff.2 ⟨f, hf, hholds⟩
  rw [h.owned k] at hpos
  by_contra hclosed
  exact Nat.ne_of_gt hpos (Bool.toNat_eq_zero.2 (Bool.eq_false_iff.2 hclosed))

theorem accounts_start : start.Accounts where
  count := rfl
  owned _ := rfl
  total := rfl
  unset _ := nofun

theorem accounts_of_reachable (h : lts.Reachable s) : s.Accounts := by
  refine h.invariant (fun s hs => hs ▸ accounts_start) fun s l s' hreach hs hstep => ?_
  have heffect : s.Effect s' := effect_of_step (ok_of_reachable hreach) hstep
  exact ⟨count_of_effect heffect hs.count, owned_of_effect heffect hs.owned,
    total_of_effect heffect hs.unset hs.total, unset_of_step hstep hs.unset⟩

end System

end Nanonet.Server
