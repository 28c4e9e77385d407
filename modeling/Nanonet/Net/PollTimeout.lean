import Nanonet.Net.Connect

/-!
# The timeout of `poll`

A timeout that is not negative is a number, its milliseconds are one that is not negative, and so is
the integer that `round_to_integer` makes of them: `poll_one` waits that long or throws, and never
for ever.
-/

namespace Nanonet

open Double

theorem atLeast_zero_of_le {x : Double} (h : .ofInt 0 ≤ x) : AtLeast 0 x := by
  obtain ⟨z, hz, a, ha, hle⟩ := h
  obtain rfl : z = Extended.ofRat 0 :=
    Option.mem_unique hz (by decide +kernel : (ofInt 0).value = some (Extended.ofRat 0))
  exact ⟨a, ha, hle⟩

theorem nonneg_of_value_mul {x y : Double} {b q : ℚ} (hx : AtLeast 0 x)
    (hy : y.value = some (Extended.ofRat b)) (hb : 0 ≤ b)
    (hq : (x * y).value = some (Extended.ofRat q)) : 0 ≤ q := by
  obtain ⟨hyf, rfl⟩ := value_eq_some_iff.1 hy
  change (Double.mul x y).value = _ at hq
  rw [Double.mul, if_neg (by simp [hx.value_ne_none, hy])] at hq
  rcases hx.cases with ⟨hxf, ha⟩ | ⟨hxi, -⟩
  · have hproduct : 0 ≤ x.toRat * y.toRat := mul_nonneg ha hb
    rw [if_neg (by simp [hxf, hyf])] at hq
    split_ifs at hq with hzero
    · have hvalue : (⟨x.sign ^^ y.sign, 0, 0⟩ : Double).value = some (Extended.ofRat 0) := by
        cases x.sign ^^ y.sign <;> decide +kernel
      rw [← toRat_of_value hq, toRat_of_value hvalue]
    · have hvalue := value_ofRat_eq (x.toRat * y.toRat)
      rw [hq] at hvalue
      split_ifs at hvalue with hlt hneg
      · rw [← toRat_of_value hq, toRat_of_value (hq.trans hvalue)]
        exact rounded_nonneg hproduct
      · exact absurd hneg hproduct.not_gt
      · cases hvalue
  · rw [if_pos (.inl hxi)] at hq
    split_ifs at hq
    · cases hq
    · rw [value_infinity] at hq
      split_ifs at hq <;> cases hq

theorem timeoutMs_nonneg {timeout : Double} {ms : Int} (htimeout : .ofInt 0 ≤ timeout)
    (h : timeoutMs timeout = .ok ms) : 0 ≤ ms := by
  have hreturned : roundToInteger .int32 (timeout * .ofInt 1000) = .returned ms := by
    unfold timeoutMs at h
    split at h
    · next ms' heq =>
      rw [heq]
      exact congrArg _ (Except.ok.inj h)
    · cases h
    · cases h
  have hexact := roundToInteger_exact_iff .int32 (timeout * .ofInt 1000)
  rw [hreturned] at hexact
  have hnumber : (timeout * .ofInt 1000).value ≠ none := by
    intro hnone
    rw [roundToInteger_nan .int32 hnone] at hreturned
    cases hreturned
  obtain ⟨q, hq, rfl, -⟩ := ((hexact.2 ⟨hnumber, nofun⟩).returns ms).1 rfl
  have hthousand : (ofInt 1000).value = some (Extended.ofRat 1000) := by decide +kernel
  have hpos := nonneg_of_value_mul (atLeast_zero_of_le htimeout) hthousand (by norm_num) hq
  exact le_roundHalfAway (by exact_mod_cast hpos)

/-! ### The calls -/

section calls

variable {A : Type} (strerror : Nat → String)

theorem repeatEintr_trace (c : SysCall A) (flags : BitVec 32) (script : List SysRet)
    (trace : List (SysCall A × SysRet)) :
    ∃ made, (stateAfter (repeatEintr c flags script trace)).trace = trace ++ made ∧
      ∀ p ∈ made, p.1 = c := by
  induction script generalizing trace with
  | nil => exact ⟨[], (List.append_nil _).symm, by simp⟩
  | cons r script ih =>
    rw [repeatEintr]
    split_ifs
    · obtain ⟨made, htrace, hmade⟩ := ih (trace ++ [(c, r)])
      refine ⟨(c, r) :: made, by rw [htrace, List.append_assoc]; rfl, ?_⟩
      simpa using hmade
    · exact ⟨[(c, r)], rfl, by simp⟩

theorem pollOne_trace {timeout : Double} (htimeout : .ofInt 0 ≤ timeout) (msg : String)
    (fd : Descriptor A) :
    ∃ made, (stateAfter (pollOne strerror timeout msg fd)).trace = fd.trace ++ made ∧
      ∀ p ∈ made, ∃ ms, p.1 = .poll ms ∧ 0 ≤ ms := by
  unfold pollOne
  cases hms : timeoutMs timeout with
  | error e => exact ⟨[], (List.append_nil _).symm, by simp⟩
  | ok ms =>
    obtain ⟨made, htrace, hmade⟩ := repeatEintr_trace (.poll ms) fd.flags fd.script fd.trace
    refine ⟨made, ?_, fun p hp => ⟨ms, hmade p hp, timeoutMs_nonneg htimeout hms⟩⟩
    change (stateAfter (sysCallRepeat (.poll ms) fd)).trace = _ at htrace
    rw [← htrace]
    dsimp only
    unfold pollFor
    cases hrepeat : sysCallRepeat (.poll ms) fd with
    | error e fd' => rw [Call.bind_error hrepeat]; rfl
    | ok r fd' =>
      rw [Call.bind_ok hrepeat]
      cases r <;> rfl

/-- **`round_to_integer` rounds or throws** on the numbers, except for `2 ^ 63` and the type of 64
bits, and `poll_one` never waits for ever with a timeout that is not negative. -/
theorem roundToInteger_poll_iff (I : SignedInteger) (x : Double) :
    (RoundsOrThrows I x (roundToInteger I x) ↔
      x.value ≠ none ∧ ¬ (I = .int64 ∧ x.value = some (Extended.ofRat (2 ^ 63)))) ∧
    ∀ (timeout : Double) (msg : String) (fd : Descriptor A), .ofInt 0 ≤ timeout →
      ∃ made, (stateAfter (pollOne strerror timeout msg fd)).trace = fd.trace ++ made ∧
        ∀ p ∈ made, ∃ ms, p.1 = .poll ms ∧ 0 ≤ ms :=
  ⟨roundToInteger_exact_iff I x, fun _ msg fd htimeout => pollOne_trace strerror htimeout msg fd⟩

end calls

/-- A poll for a second that times out. -/
theorem roundToInteger_poll_second :
    ∃ made, (stateAfter (pollOne (A := Unit) (fun _ => "") (.ofInt 1) "" ⟨0, [.ok 0], []⟩)).trace =
        [] ++ made ∧
      ∀ p ∈ made, ∃ ms, p.1 = .poll ms ∧ 0 ≤ ms :=
  (roundToInteger_poll_iff (fun _ => "") .int32 (.ofInt 1)).2 (.ofInt 1) "" ⟨0, [.ok 0], []⟩
    (by decide +kernel)

/-- `2 ^ 63` at the type of 64 bits, and a NaN at any type. -/
theorem roundToInteger_unspecified :
    roundToInteger .int64 (.ofInt (2 ^ 63)) = .undefined ∧
      ¬ RoundsOrThrows .int64 (.ofInt (2 ^ 63)) (roundToInteger .int64 (.ofInt (2 ^ 63))) ∧
      ¬ RoundsOrThrows .int32 nan (roundToInteger .int32 nan) := by
  have hlast : roundToInteger .int64 (.ofInt (2 ^ 63)) = .undefined := by decide +kernel
  have hnan : roundToInteger .int32 nan = .undefined := by decide +kernel
  refine ⟨hlast, fun h => h.specified hlast, fun h => h.specified hnan⟩

end Nanonet
