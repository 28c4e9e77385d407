import Nanonet.Util.FormatBuffer
import Nanonet.Util.Fractional

/-!
# Timeouts

What `sleep`, the timeouts of a `connection` and the one of `receive` make of a `double`. The checks
of `to_fractional` bound the fraction, but nothing bounds the seconds before they are converted: from
`2 ^ 63` seconds on the conversion is undefined, and before that it is defined and the times are
normalised (`timeouts_checked_iff`). The largest double before `2 ^ 63` is not rounded up to it, and
rounding is monotone.
-/

namespace Nanonet

open Floating (literal)
open Double

instance : Truncating Double where
  toInt64 := Double.toInt64

section model

/-- `sleep( t )` up to `nanosleep`: the time it passes. -/
def sleepTime (t : Double) : Evaluated Timespec := do
  alwaysAssert (literal 0 ≤ t) "t >= 0"
  toTimespec t

/-- `time_sockopt( fd , option , t )`: the value of the option, which is the one for sending in
`send_timeout( t )` and the one for receiving in `receive_timeout( t )`. -/
def timeSockopt (t : Double) : Evaluated Timeval := toTimeval t

def timeout (t : Double) : Evaluated (Timeval × Timeval) := do
  let send ← timeSockopt t
  let receive ← timeSockopt t
  pure (send, receive)

/-- `receive_internal( .. , t , .. )` up to `select`: the time it passes, if it waits. -/
def receiveTime (t : Double) : Evaluated (Option Timeval) :=
  if literal 0 ≤ t then do
    let tv ← toTimeval t
    pure (some tv)
  else pure none

end model

/-- An assertion fails, or what is returned is as stated. -/
def Checked {α : Type} (P : α → Prop) : Evaluated α → Prop
  | .returned a => P a
  | .thrown e => ∃ what, e = .assertionFailure what
  | .undefined => False

theorem Checked.bind {α β : Type} {P : α → Prop} {Q : β → Prop} {x : Evaluated α}
    {f : α → Evaluated β} (hx : Checked P x) (hf : ∀ a, P a → Checked Q (f a)) :
    Checked Q (x >>= f) := by
  cases x with
  | returned a => exact hf a hx
  | thrown e => exact hx
  | undefined => exact hx

theorem checked_alwaysAssert (c : Prop) [Decidable c] (text : String) :
    Checked (fun _ => c) (alwaysAssert c text) := by
  unfold alwaysAssert
  split_ifs with h
  · exact h
  · exact ⟨text, rfl⟩

/-! ### What is rounded -/

/-- The time that `to_fractional` splits, for finite arguments. -/
def roundedTime (m q : ℚ) : ℚ := rounded (rounded ⌊rounded (rounded (q * m) + 1 / 2)⌋ / m)

section time

variable {m q q' : ℚ}

theorem roundedTime_mono (hm : 0 < m) (h : q ≤ q') : roundedTime m q ≤ roundedTime m q' := by
  have hproduct : rounded (q * m) ≤ rounded (q' * m) := rounded_mono (by gcongr)
  have hsum : rounded (rounded (q * m) + 1 / 2) ≤ rounded (rounded (q' * m) + 1 / 2) :=
    rounded_mono (by linarith)
  have hfloor : rounded ⌊rounded (rounded (q * m) + 1 / 2)⌋ ≤
      rounded ⌊rounded (rounded (q' * m) + 1 / 2)⌋ :=
    rounded_mono (by exact_mod_cast Int.floor_le_floor hsum)
  exact rounded_mono (by gcongr)

theorem roundedTime_nonneg (hm : 0 < m) (hq : 0 ≤ q) : 0 ≤ roundedTime m q := by
  have hproduct : 0 ≤ rounded (q * m) := rounded_nonneg (by positivity)
  have hsum : 0 ≤ rounded (rounded (q * m) + 1 / 2) := rounded_nonneg (by positivity)
  have hfloor : 0 ≤ rounded ⌊rounded (rounded (q * m) + 1 / 2)⌋ :=
    rounded_nonneg (by exact_mod_cast Int.floor_nonneg.2 hsum)
  exact rounded_nonneg (by positivity)

end time

theorem value_half : (literal (1 / 2) : Double).value = some (Extended.ofRat (1 / 2)) := by
  decide +kernel

theorem value_time {t : Double} {m : ℤ} {q : ℚ} (ht : t.value = some (Extended.ofRat q))
    (hq : 0 ≤ q) (hq' : q ≤ 2 ^ 63) (hm : 1 ≤ m) (hm' : m ≤ 2 ^ 30) :
    (Floating.floor (t * literal m + literal (1 / 2)) / literal m : Double).value =
      some (Extended.ofRat (roundedTime m q)) := by
  have hone : (1 : ℚ) ≤ m := by exact_mod_cast hm
  have hmcast : (m : ℚ) ≤ 2 ^ 30 := by exact_mod_cast hm'
  have hvalue : (literal m : Double).value = some (Extended.ofRat m) :=
    value_ofRat_intCast (by omega)
  have hproduct : |q * m| ≤ 2 ^ 93 := by
    rw [abs_of_nonneg (by positivity)]
    calc q * m ≤ 2 ^ 63 * 2 ^ 30 := by gcongr
      _ = 2 ^ 93 := by norm_num
  have hsum : |rounded (q * m) + 1 / 2| ≤ 2 ^ 94 := by
    have hround := abs_rounded_le_two_pow hproduct
    have hnonneg : 0 ≤ rounded (q * m) := rounded_nonneg (by positivity)
    rw [abs_of_nonneg hnonneg] at hround
    rw [abs_of_nonneg (by positivity)]
    linarith
  have hfloor : |(⌊rounded (rounded (q * m) + 1 / 2)⌋ : ℚ)| ≤ 2 ^ 94 := by
    have hround := abs_rounded_le_two_pow hsum
    have hnonneg : 0 ≤ rounded (rounded (q * m) + 1 / 2) :=
      rounded_nonneg (add_nonneg (rounded_nonneg (by positivity)) (by norm_num))
    rw [abs_of_nonneg hnonneg] at hround
    rw [abs_of_nonneg (by exact_mod_cast Int.floor_nonneg.2 hnonneg)]
    exact (Int.floor_le _).trans hround
  have hquot : |rounded ⌊rounded (rounded (q * m) + 1 / 2)⌋ / m| ≤ 2 ^ 94 := by
    rw [abs_div, abs_of_pos (by linarith : (0 : ℚ) < m)]
    exact (div_le_self (abs_nonneg _) hone).trans (abs_rounded_le_two_pow hfloor)
  have hmul := value_mul ht hvalue (abs_lt_of_le_two_pow hproduct (by decide))
  have hadd := value_add hmul value_half (abs_lt_of_le_two_pow hsum (by decide))
  have hfl := value_floor hadd (abs_lt_of_le_two_pow hfloor (by decide))
  exact value_div hfl hvalue (by linarith) (abs_lt_of_le_two_pow hquot (by decide))

/-- A number of parts with which the last double before `2 ^ 63` is not rounded up to it. -/
structure Resolution (m : Int64) : Prop where
  one_le : 1 ≤ m.toInt
  le : m.toInt ≤ 2 ^ 30
  last : roundedTime m.toInt (2 ^ 63 - 2 ^ 10) < 2 ^ 63

theorem resolution_nano : Resolution 1000000000 := ⟨by decide, by decide, by decide +kernel⟩

theorem resolution_micro : Resolution 1000000 := ⟨by decide, by decide, by decide +kernel⟩

section split

variable {t : Double} {m : Int64} (hres : Resolution m) (hfinite : t.exponent.val ≠ 2047)

include hres hfinite

theorem value_time_of_lt (ht : 0 ≤ t.toRat) (hlt : t.toRat < 2 ^ 63) :
    ∃ a : ℚ, (Floating.floor (t * literal m.toInt + literal (1 / 2)) / literal m.toInt :
        Double).value = some (Extended.ofRat a) ∧ 0 ≤ a ∧ a < 2 ^ 63 := by
  have hm : (0 : ℚ) < m.toInt := by exact_mod_cast (show 0 < m.toInt from hres.one_le)
  have hle : t.toRat ≤ 2 ^ 63 - 2 ^ 10 := by
    have hpred := toRat_le_pred (k := 10) ht (by norm_num at hlt ⊢; exact hlt)
    norm_num at hpred ⊢
    exact hpred
  exact ⟨_, value_time (value_eq_some_iff.2 ⟨hfinite, rfl⟩) ht hlt.le hres.one_le hres.le,
    roundedTime_nonneg hm ht, (roundedTime_mono hm hle).trans_lt hres.last⟩

end split

theorem staticCast_of_none {x : Double} (hx : x.toInt64 = none) : staticCast x = .undefined := by
  have hnone : Truncating.toInt64 x = none := hx
  rw [staticCast, hnone]

theorem staticCast_of_fits {x : Double} {a : ℚ} (hx : x.value = some (Extended.ofRat a))
    (hlow : 0 ≤ a) (hhigh : a < 2 ^ 63) :
    ∃ n : Int64, staticCast x = .returned n ∧ 0 ≤ n.toInt := by
  obtain ⟨n, hn, hvalue, htruncate, -⟩ :=
    toInt64_of_fits (FitsInt64.of_mem hx (le_trans (by norm_num) hlow) hhigh)
  have hfits : Truncating.toInt64 x = some n := hn
  have hcast : staticCast x = .returned n := by rw [staticCast, hfits]
  refine ⟨n, hcast, ?_⟩
  rw [← htruncate, toRat_of_value hx]
  exact le_truncate le_rfl (by exact_mod_cast hlow)

theorem staticCast_floor {x : Double} {a : ℚ} (hx : x.value = some (Extended.ofRat a))
    (hlow : 0 ≤ a) (hhigh : a < 2 ^ 63) :
    ∃ s : Int64, staticCast (Floating.floor x) = .returned s ∧ 0 ≤ s.toInt := by
  have hdouble : rounded a = a := by rw [← toRat_of_value hx, rounded_toRat]
  have hfloor0 : (0 : ℚ) ≤ ⌊a⌋ := by exact_mod_cast Int.floor_nonneg.2 hlow
  have hfloor1 : (⌊a⌋ : ℚ) < 2 ^ 63 := (Int.floor_le a).trans_lt hhigh
  have hbound : |(⌊a⌋ : ℚ)| ≤ 2 ^ 63 := by rw [abs_of_nonneg hfloor0]; exact hfloor1.le
  have hvalue := value_floor hx (abs_lt_of_le_two_pow hbound (by decide))
  have hround := rounded_floor hlow
  rw [hdouble] at hround
  rw [hround] at hvalue
  exact staticCast_of_fits hvalue hfloor0 hfloor1

theorem exists_value_of_mem {x y : Double} {c : ℚ} (h : literal 0 ≤ x) (h' : x < y)
    (hy : y.value = some (Extended.ofRat c)) :
    ∃ a : ℚ, x.value = some (Extended.ofRat a) ∧ 0 ≤ a ∧ a < c := by
  obtain ⟨z, hz, a, ha, hle⟩ := h
  obtain ⟨a', ha', b, hb, hlt⟩ := h'
  obtain rfl := Option.mem_unique hz value_zero
  obtain rfl := Option.mem_unique ha' ha
  obtain rfl := Option.mem_unique hb hy
  obtain ⟨d, rfl⟩ := WithBot.ne_bot_iff_exists.1 ((WithBot.bot_lt_coe _).trans_le hle).ne'
  obtain ⟨q, rfl⟩ := WithTop.ne_top_iff_exists.1 (WithBot.coe_lt_coe.1 hlt).ne_top
  exact ⟨q, ha, WithTop.coe_le_coe.1 (WithBot.coe_le_coe.1 hle),
    WithTop.coe_lt_coe.1 (WithBot.coe_lt_coe.1 hlt)⟩

theorem staticCast_part {x : Double} {m : Int64} (h : literal 0 ≤ x) (h' : x < literal m.toInt)
    (hres : Resolution m) :
    ∃ f : Int64, staticCast (x + literal (1 / 2)) = .returned f := by
  have hm : (m.toInt : ℚ) ≤ 2 ^ 30 := by exact_mod_cast hres.le
  obtain ⟨a, ha, hlow, hhigh⟩ := exists_value_of_mem h h'
    (value_ofRat_intCast (by have := hres.one_le; have := hres.le; omega))
  have hbound : |a + 1 / 2| ≤ 2 ^ 31 := by
    rw [abs_of_nonneg (by positivity)]
    linarith
  have hvalue := value_add ha value_half (abs_lt_of_le_two_pow hbound (by decide))
  have hround := abs_rounded_le_two_pow hbound
  have hnonneg : 0 ≤ rounded (a + 1 / 2) := rounded_nonneg (by positivity)
  rw [abs_of_nonneg hnonneg] at hround
  obtain ⟨f, hf, -⟩ := staticCast_of_fits hvalue hnonneg (hround.trans_lt (by norm_num))
  exact ⟨f, hf⟩

theorem Double.AtLeast.literal_zero_le {x : Double} {b : ℚ} (h : AtLeast b x) (hb : 0 ≤ b) :
    (literal 0 : Double) ≤ x := by
  obtain ⟨a, ha, hle⟩ := h
  exact ⟨_, value_zero, a, ha, le_trans (WithBot.coe_le_coe.2 (WithTop.coe_le_coe.2 hb)) hle⟩

theorem rounded_two_pow_63 : rounded (2 ^ 63 : ℤ) = (2 ^ 63 : ℤ) := by
  have h := rounded_representable (m := 1) (k := 63) (by norm_num) (by norm_num)
  norm_num at h ⊢
  exact h

/-! ### The two cases -/

/-- Seconds that are not negative, and parts of a second. -/
def SecondsAndParts (m : Int64) (p : Int64 × Int64) : Prop :=
  0 ≤ p.1.toInt ∧ 0 ≤ p.2.toInt ∧ p.2.toInt < m.toInt

section cases

variable {t : Double} {m : Int64} (hres : Resolution m) (hfinite : t.exponent.val ≠ 2047)

include hres hfinite

theorem checked_toFractional (ht : 0 ≤ t.toRat) (hlt : t.toRat < 2 ^ 63) :
    Checked (SecondsAndParts m) (toFractional t m) := by
  obtain ⟨a, ha, hlow, hhigh⟩ := value_time_of_lt hres hfinite ht hlt
  obtain ⟨s, hs, hs0⟩ := staticCast_floor ha hlow hhigh
  unfold toFractional
  refine (checked_alwaysAssert _ _).bind fun _ _ => ?_
  refine (checked_alwaysAssert _ _).bind fun _ _ => ?_
  refine (checked_alwaysAssert _ _).bind fun _ _ => ?_
  dsimp only
  rw [hs, Evaluated.returned_bind]
  refine (checked_alwaysAssert _ _).bind fun _ hff => ?_
  refine (checked_alwaysAssert _ _).bind fun _ hff' => ?_
  obtain ⟨f, hf⟩ := staticCast_part hff hff' hres
  rw [hf, Evaluated.returned_bind]
  refine (checked_alwaysAssert _ _).bind fun _ hf0 => ?_
  refine (checked_alwaysAssert _ _).bind fun _ hf1 => ?_
  exact ⟨hs0, hf0, hf1⟩

theorem atLeast_time (hge : 2 ^ 63 ≤ t.toRat) :
    AtLeast (2 ^ 63 : ℤ) (Floating.floor (t * literal m.toInt + literal (1 / 2)) /
      literal m.toInt) := by
  have hm : (0 : ℚ) < m.toInt := by exact_mod_cast (show 0 < m.toInt from hres.one_le)
  have hnat : m.toInt.natAbs ≤ 2 ^ 53 := by
    have := hres.one_le
    have := hres.le
    omega
  have hvalue : (literal m.toInt : Double).value = some (Extended.ofRat m.toInt) :=
    value_ofRat_intCast hnat
  have hpos : 0 < m.toInt * 2 ^ 63 := by
    have := hres.one_le
    positivity
  have hposCast : (0 : ℚ) < (m.toInt * 2 ^ 63 : ℤ) := by exact_mod_cast hpos
  have hbound : rounded (m.toInt * 2 ^ 63 : ℤ) = (m.toInt * 2 ^ 63 : ℤ) := by
    push_cast
    exact rounded_representable (k := 63) (by norm_num) hnat
  have hquot : ((m.toInt * 2 ^ 63 : ℤ) : ℚ) / m.toInt = (2 ^ 63 : ℤ) := by
    push_cast
    exact mul_div_cancel_left₀ _ hm.ne'
  have hproduct : ((m.toInt * 2 ^ 63 : ℤ) : ℚ) ≤ t.toRat * m.toInt := by
    rw [Int.cast_mul, Int.cast_pow, Int.cast_ofNat, mul_comm]
    exact mul_le_mul_of_nonneg_right hge hm.le
  have hmul := AtLeast.mul (value_eq_some_iff.2 ⟨hfinite, rfl⟩) hvalue hposCast hbound hproduct
  have hfloor := (hmul.add value_half hposCast hbound (by norm_num)).floor hpos hbound
  rw [← hquot]
  exact hfloor.div hvalue hposCast hm (by rw [hquot]; exact rounded_two_pow_63)

theorem toFractional_undefined (hge : 2 ^ 63 ≤ t.toRat) : toFractional t m = .undefined := by
  have htime := atLeast_time hres hfinite hge
  have hseconds := htime.floor (by norm_num) rounded_two_pow_63
  rw [Int.cast_pow, Int.cast_ofNat] at hseconds
  have hundefined := staticCast_of_none hseconds.toInt64
  have ht := atLeast_of_value (value_eq_some_iff.2 ⟨hfinite, rfl⟩) hge
  unfold toFractional
  rw [alwaysAssert_of (show 0 < m.toInt from hres.one_le), Evaluated.returned_bind,
    alwaysAssert_of (ht.literal_zero_le (by norm_num)), Evaluated.returned_bind]
  dsimp only
  rw [alwaysAssert_of (htime.literal_zero_le (by norm_num)), Evaluated.returned_bind]
  change (staticCast (Double.floor _) >>= _) = _
  rw [hundefined]
  rfl

end cases

theorem checked_toTimespec_iff {t : Double} (hfinite : t.exponent.val ≠ 2047) (ht : 0 ≤ t.toRat) :
    Checked Timespec.Normalised (toTimespec t) ↔ t.toRat < 2 ^ 63 := by
  rcases lt_or_ge t.toRat (2 ^ 63) with hlt | hge
  · have hsplit := checked_toFractional resolution_nano hfinite ht hlt
    exact iff_of_true (hsplit.bind fun p hp => hp) hlt
  · rw [toTimespec, toFractional_undefined resolution_nano hfinite hge]
    exact iff_of_false id hge.not_gt

theorem checked_toTimeval_iff {t : Double} (hfinite : t.exponent.val ≠ 2047) (ht : 0 ≤ t.toRat) :
    Checked Timeval.Normalised (toTimeval t) ↔ t.toRat < 2 ^ 63 := by
  rcases lt_or_ge t.toRat (2 ^ 63) with hlt | hge
  · have hsplit := checked_toFractional resolution_micro hfinite ht hlt
    exact iff_of_true (hsplit.bind fun p hp => hp) hlt
  · rw [toTimeval, toFractional_undefined resolution_micro hfinite hge]
    exact iff_of_false id hge.not_gt

/-- The times that are passed to the system. -/
structure TimesChecked (t : Double) : Prop where
  sleep : Checked Timespec.Normalised (sleepTime t)
  option : Checked Timeval.Normalised (timeSockopt t)
  both : Checked (fun tv : Timeval × Timeval => tv.1.Normalised ∧ tv.2.Normalised) (timeout t)
  receive : Checked (fun tv : Option Timeval => ∀ v ∈ tv, v.Normalised) (receiveTime t)

/-- **Timeouts are checked below `2 ^ 63` seconds.** -/
theorem timeouts_checked_iff {t : Double} (hfinite : t.exponent.val ≠ 2047) (ht : literal 0 ≤ t) :
    (TimesChecked t ↔ t.toRat < 2 ^ 63) ∧
      (2 ^ 63 ≤ t.toRat → sleepTime t = .undefined ∧ timeSockopt t = .undefined ∧
        timeout t = .undefined ∧ receiveTime t = .undefined) := by
  have hpos : 0 ≤ t.toRat := (le_iff value_zero (value_eq_some_iff.2 ⟨hfinite, rfl⟩)).1 ht
  have htimespec := checked_toTimespec_iff hfinite hpos
  have htimeval := checked_toTimeval_iff hfinite hpos
  refine ⟨⟨fun h => htimeval.1 h.option, fun hlt => ?_⟩, fun hge => ?_⟩
  · have hoption := htimeval.2 hlt
    refine ⟨?_, hoption, ?_, ?_⟩
    · rw [sleepTime, alwaysAssert_of ht]
      exact htimespec.2 hlt
    · exact Checked.bind hoption fun tv htv => Checked.bind hoption fun tv' htv' => ⟨htv, htv'⟩
    · rw [receiveTime, if_pos ht]
      exact Checked.bind hoption fun tv htv => fun v hv => by cases hv; exact htv
  · have hspec : toTimespec t = .undefined := by
      rw [toTimespec, toFractional_undefined resolution_nano hfinite hge]
      rfl
    have hval : toTimeval t = .undefined := by
      rw [toTimeval, toFractional_undefined resolution_micro hfinite hge]
      rfl
    refine ⟨?_, hval, ?_, ?_⟩
    · rw [sleepTime, alwaysAssert_of ht]
      exact hspec
    · rw [timeout, timeSockopt, hval]
      rfl
    · rw [receiveTime, if_pos ht, hval]
      rfl

/-- A timeout of a second, and one of `2 ^ 63`. -/
theorem timeouts_checked_one : TimesChecked (ofInt 1) :=
  (timeouts_checked_iff (t := ofInt 1) (by decide +kernel) (by decide +kernel)).1.2
    (by decide +kernel)

theorem timeouts_undefined :
    (ofInt (2 ^ 63)).exponent.val ≠ 2047 ∧ literal 0 ≤ ofInt (2 ^ 63) ∧
      ¬ TimesChecked (ofInt (2 ^ 63)) := by
  refine ⟨by decide +kernel, by decide +kernel, fun h => ?_⟩
  have hsleep : sleepTime (ofInt (2 ^ 63)) = .undefined := by decide +kernel
  have hchecked := h.sleep
  rw [hsleep] at hchecked
  exact hchecked

end Nanonet
