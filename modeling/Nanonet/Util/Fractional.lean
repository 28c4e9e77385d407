import Nanonet.Util.FormatTime

/-!
# Seconds and fractions

`to_fractional` of `util.h`, over any numbers that have what it uses of `double`, and the system's
times that `to_timespec` and `to_timeval` make with it. Over the rationals the time is rounded to a
whole number of parts, and the fraction is what is left of them after the seconds
(`toFractional_rat`), so the carry into the seconds is in the division.
-/

namespace Nanonet

/-- What the conversion of times uses of `double` in addition; there is no result where the truncated
number does not fit. -/
class Truncating (R : Type) extends Floating R where
  toInt64 : R → Option Int64

instance : Truncating ℚ where
  toInt64 q :=
    if -2 ^ 63 ≤ truncate q ∧ truncate q < 2 ^ 63 then some (Int64.ofInt (truncate q)) else none

structure Timespec where
  tvSec : Int64
  tvNsec : Int64
  deriving DecidableEq

structure Timeval where
  tvSec : Int64
  tvUsec : Int64
  deriving DecidableEq

/-- A time whose fraction is less than a second. -/
def Timespec.Normalised (t : Timespec) : Prop :=
  0 ≤ t.tvSec.toInt ∧ 0 ≤ t.tvNsec.toInt ∧ t.tvNsec.toInt < 10 ^ 9

/-- A time whose fraction is less than a second. -/
def Timeval.Normalised (t : Timeval) : Prop :=
  0 ≤ t.tvSec.toInt ∧ 0 ≤ t.tvUsec.toInt ∧ t.tvUsec.toInt < 10 ^ 6

section model

open Floating (literal floor)

variable {R : Type} [Truncating R] [DecidableLE R] [DecidableLT R]

/-- `static_cast< S >( x )`; the integral types of all callers have 64 bits. -/
def staticCast (x : R) : Evaluated Int64 :=
  match Truncating.toInt64 x with
  | some n => .returned n
  | none => .undefined

def toFractional (t : R) (m : Int64) : Evaluated (Int64 × Int64) := do
  alwaysAssert (0 < m.toInt) "m > 0"
  alwaysAssert (literal 0 ≤ t) "t >= 0"
  -- Round.
  let tt := floor (t * literal m.toInt + literal (1 / 2)) / literal m.toInt
  alwaysAssert (literal 0 ≤ tt) "tt >= 0"
  let i := floor tt
  let s ← staticCast i
  let ff := literal m.toInt * (tt - i)
  alwaysAssert (literal 0 ≤ ff) "0 <= ff"
  alwaysAssert (ff < literal m.toInt) "ff < m"
  let f ← staticCast (ff + literal (1 / 2))
  alwaysAssert (0 ≤ f.toInt) "0 <= f"
  alwaysAssert (f.toInt < m.toInt) "f < m"
  pure (s, f)

def toTimespec (t : R) : Evaluated Timespec := do
  let (s, f) ← toFractional t 1000000000
  pure ⟨s, f⟩

def toTimeval (t : R) : Evaluated Timeval := do
  let (s, f) ← toFractional t 1000000
  pure ⟨s, f⟩

def Timespec.toDouble (t : Timespec) : R :=
  literal t.tvSec.toInt + literal (1 / 10 ^ 9) * literal t.tvNsec.toInt

def Timeval.toDouble (t : Timeval) : R :=
  literal t.tvSec.toInt + literal (1 / 10 ^ 6) * literal t.tvUsec.toInt

end model

/-! ### Over the rationals -/

section rat

variable {m : Int64} {t : ℚ}

/-- The number of parts that a time is rounded to. -/
def parts (t : ℚ) (m : Int64) : ℤ := ⌊t * m.toInt + 1 / 2⌋

theorem parts_nonneg (hm : 1 ≤ m.toInt) (ht : 0 ≤ t) : 0 ≤ parts t m := by
  have hm' : (0 : ℚ) ≤ m.toInt := by exact_mod_cast (show (0 : ℤ) ≤ m.toInt by omega)
  exact Int.floor_nonneg.2 (by positivity)

theorem staticCast_intCast {n : ℤ} (hlow : -2 ^ 63 ≤ n) (hhigh : n < 2 ^ 63) :
    staticCast (n : ℚ) = .returned (Int64.ofInt n) := by
  have hfits : Truncating.toInt64 (n : ℚ) = some (Int64.ofInt n) := by
    change (if _ then _ else _) = _
    rw [truncate_intCast, if_pos ⟨hlow, hhigh⟩]
  rw [staticCast, hfits]

theorem staticCast_add_half {n : ℤ} (hlow : 0 ≤ n) (hhigh : n < 2 ^ 63) :
    staticCast ((n : ℚ) + 1 / 2) = .returned (Int64.ofInt n) := by
  have hn : (0 : ℚ) ≤ n := by exact_mod_cast hlow
  have hfloor : ⌊(n : ℚ) + 1 / 2⌋ = n := by
    rw [Int.floor_intCast_add, show ⌊(1 / 2 : ℚ)⌋ = 0 by norm_num, add_zero]
  have htruncate : truncate ((n : ℚ) + 1 / 2) = n := by
    rw [truncate, if_pos (by linarith), hfloor]
  have hfits : Truncating.toInt64 ((n : ℚ) + 1 / 2) = some (Int64.ofInt n) := by
    change (if _ then _ else _) = _
    rw [htruncate, if_pos ⟨by omega, hhigh⟩]
  rw [staticCast, hfits]

theorem floor_parts_div (t : ℚ) (hm : 1 ≤ m.toInt) :
    ⌊(parts t m : ℚ) / m.toInt⌋ = parts t m / m.toInt := by
  obtain ⟨k, hk⟩ := Int.eq_ofNat_of_zero_le (show 0 ≤ m.toInt by omega)
  rw [hk, Int.cast_natCast, Rat.floor_intCast_div_natCast]

theorem mul_parts_sub (t : ℚ) (hm : 1 ≤ m.toInt) :
    (m.toInt : ℚ) * ((parts t m : ℚ) / m.toInt - (parts t m / m.toInt : ℤ)) =
      (parts t m % m.toInt : ℤ) := by
  have hne : (m.toInt : ℚ) ≠ 0 := by exact_mod_cast (show m.toInt ≠ 0 by omega)
  rw [Int.emod_def, mul_sub, mul_div_cancel₀ _ hne]
  push_cast
  rfl

theorem seconds_bounds (hm : 1 ≤ m.toInt) (ht : 0 ≤ t)
    (hbound : t * m.toInt + 1 / 2 < m.toInt * 2 ^ 63) :
    0 ≤ parts t m / m.toInt ∧ parts t m / m.toInt < 2 ^ 63 := by
  refine ⟨Int.ediv_nonneg (parts_nonneg hm ht) (by omega), Int.ediv_lt_of_lt_mul (by omega) ?_⟩
  have hfloor := (Int.floor_le _).trans_lt hbound
  rw [mul_comm]
  exact_mod_cast hfloor

theorem rest_bounds (t : ℚ) (hm : 1 ≤ m.toInt) :
    0 ≤ parts t m % m.toInt ∧ parts t m % m.toInt < m.toInt ∧
      (Int64.ofInt (parts t m % m.toInt)).toInt = parts t m % m.toInt := by
  have hlow := Int.emod_nonneg (parts t m) (show m.toInt ≠ 0 by omega)
  have hhigh := Int.emod_lt_of_pos (parts t m) (show 0 < m.toInt by omega)
  have hm' := m.toInt_lt
  exact ⟨hlow, hhigh, Int64.toInt_ofInt_of_le (by omega) (by omega)⟩

theorem toFractional_eq (t : ℚ) (m : Int64) :
    toFractional t m = (do
      alwaysAssert (0 < m.toInt) "m > 0"
      alwaysAssert (0 ≤ t) "t >= 0"
      let tt := (parts t m : ℚ) / m.toInt
      alwaysAssert (0 ≤ tt) "tt >= 0"
      let s ← staticCast (⌊tt⌋ : ℚ)
      let ff := m.toInt * (tt - ⌊tt⌋)
      alwaysAssert (0 ≤ ff) "0 <= ff"
      alwaysAssert (ff < m.toInt) "ff < m"
      let f ← staticCast (ff + 1 / 2)
      alwaysAssert (0 ≤ f.toInt) "0 <= f"
      alwaysAssert (f.toInt < m.toInt) "f < m"
      pure (s, f)) := rfl

theorem toFractional_rat (hm : 1 ≤ m.toInt) (ht : 0 ≤ t)
    (hbound : t * m.toInt + 1 / 2 < m.toInt * 2 ^ 63) :
    toFractional t m = .returned
      (Int64.ofInt (parts t m / m.toInt), Int64.ofInt (parts t m % m.toInt)) := by
  have hmpos : 0 < m.toInt := by omega
  have hmcast : (0 : ℚ) < m.toInt := by exact_mod_cast hmpos
  have hpartsCast : (0 : ℚ) ≤ parts t m := by exact_mod_cast parts_nonneg hm ht
  obtain ⟨hsec, hsec'⟩ := seconds_bounds hm ht hbound
  obtain ⟨hpart, hpart', hto⟩ := rest_bounds t hm
  have hm' := m.toInt_lt
  have htt : (0 : ℚ) ≤ (parts t m : ℚ) / m.toInt := by positivity
  have hff : (0 : ℚ) ≤ (parts t m % m.toInt : ℤ) := by exact_mod_cast hpart
  have hff' : ((parts t m % m.toInt : ℤ) : ℚ) < m.toInt := by exact_mod_cast hpart'
  rw [toFractional_eq]
  dsimp only
  rw [floor_parts_div t hm, mul_parts_sub t hm, alwaysAssert_of hmpos, Evaluated.returned_bind,
    alwaysAssert_of ht, Evaluated.returned_bind, alwaysAssert_of htt, Evaluated.returned_bind,
    staticCast_intCast (by omega) hsec', Evaluated.returned_bind, alwaysAssert_of hff,
    Evaluated.returned_bind, alwaysAssert_of hff', Evaluated.returned_bind,
    staticCast_add_half hpart (by omega), Evaluated.returned_bind, hto, alwaysAssert_of hpart,
    Evaluated.returned_bind, alwaysAssert_of hpart']
  rfl

/-- `s` seconds and `f` parts of a second are the time, rounded; a second has `m` parts. -/
structure Splits (t : ℚ) (m s f : ℤ) : Prop where
  nonneg : 0 ≤ f
  lt : f < m
  rounds : s * m + f = ⌊t * m + 1 / 2⌋

theorem Splits.unique {t : ℚ} {m s f s' f' : ℤ} (h : Splits t m s f) (h' : Splits t m s' f') :
    s = s' ∧ f = f' := by
  have hmod : ∀ {a b : ℤ}, 0 ≤ b → b < m → (a * m + b) / m = a ∧ (a * m + b) % m = b := by
    intro a b hb hb'
    rw [add_comm, Int.add_mul_ediv_right _ _ (by omega), Int.add_mul_emod_self_right,
      Int.ediv_eq_zero_of_lt hb hb', Int.emod_eq_of_lt hb hb', zero_add]
    exact ⟨rfl, rfl⟩
  obtain ⟨hdiv, hmod₁⟩ := hmod (a := s) h.nonneg h.lt
  obtain ⟨hdiv', hmod₁'⟩ := hmod (a := s') h'.nonneg h'.lt
  rw [h.rounds] at hdiv hmod₁
  rw [h'.rounds] at hdiv' hmod₁'
  exact ⟨hdiv.symm.trans hdiv', hmod₁.symm.trans hmod₁'⟩

theorem Splits.error {t : ℚ} {m s f : ℤ} (h : Splits t m s f) :
    |t - (s + f / m)| ≤ 1 / (2 * m) := by
  have hm : (0 : ℚ) < m := by exact_mod_cast h.nonneg.trans_lt h.lt
  have hle := Int.floor_le (t * m + 1 / 2)
  have hlt := Int.lt_floor_add_one (t * m + 1 / 2)
  rw [← h.rounds] at hle hlt
  push_cast at hle hlt
  have hscaled : t - (s + f / m) = (t * m - (s * m + f)) / m := by
    field_simp
  rw [hscaled, abs_div, abs_of_pos hm, div_le_div_iff₀ hm (by positivity)]
  have habs : |t * m - (s * m + f)| ≤ 1 / 2 := abs_le.2 ⟨by linarith, by linarith⟩
  nlinarith

/-- A later time has no earlier seconds, and in the same second no fewer parts. -/
theorem Splits.monotone {t t' : ℚ} {m s f s' f' : ℤ} (h : Splits t m s f) (h' : Splits t' m s' f')
    (hle : t ≤ t') : s < s' ∨ s = s' ∧ f ≤ f' := by
  have hm : (0 : ℚ) ≤ m := by exact_mod_cast (h.nonneg.trans_lt h.lt).le
  have hparts : s * m + f ≤ s' * m + f' := by
    rw [h.rounds, h'.rounds]
    exact Int.floor_le_floor (by nlinarith)
  rcases lt_trichotomy s s' with hlt | rfl | hgt
  · exact .inl hlt
  · exact .inr ⟨rfl, by omega⟩
  · have hmul : (s' + 1) * m ≤ s * m := mul_le_mul_of_nonneg_right hgt (by exact_mod_cast hm)
    have := h.nonneg
    have := h'.lt
    linarith

theorem toFractional_splits (hm : 1 ≤ m.toInt) (ht : 0 ≤ t)
    (hbound : t * m.toInt + 1 / 2 < m.toInt * 2 ^ 63) :
    ∃ s f : Int64, toFractional t m = .returned (s, f) ∧
      Splits t m.toInt s.toInt f.toInt := by
  obtain ⟨hsec, hsec'⟩ := seconds_bounds hm ht hbound
  obtain ⟨hpart, hpart', hto⟩ := rest_bounds t hm
  refine ⟨_, _, toFractional_rat hm ht hbound, hto.symm ▸ hpart, hto.symm ▸ hpart', ?_⟩
  rw [hto, Int64.toInt_ofInt_of_le (by omega) hsec', Int.ediv_mul_add_emod]
  rfl

theorem toFractional_sum (hm : 1 ≤ m.toInt) {s f : Int64} (hs : 0 ≤ s.toInt) (hf : 0 ≤ f.toInt)
    (hf' : f.toInt < m.toInt) :
    toFractional (s.toInt + 1 / m.toInt * f.toInt : ℚ) m = .returned (s, f) := by
  have hmcast : (0 : ℚ) < m.toInt := by exact_mod_cast (show 0 < m.toInt by omega)
  have hscast : (0 : ℚ) ≤ s.toInt := by exact_mod_cast hs
  have hfcast : (0 : ℚ) ≤ f.toInt := by exact_mod_cast hf
  set t : ℚ := s.toInt + 1 / m.toInt * f.toInt with ht
  have hproduct : t * m.toInt = (s.toInt * m.toInt + f.toInt : ℤ) := by
    rw [ht]
    push_cast
    field_simp
  have hsplits : Splits t m.toInt s.toInt f.toInt := by
    refine ⟨hf, hf', ?_⟩
    rw [hproduct, Int.floor_intCast_add, show ⌊(1 / 2 : ℚ)⌋ = 0 by norm_num, add_zero]
  have hbound : t * m.toInt + 1 / 2 < m.toInt * 2 ^ 63 := by
    have hlast : s.toInt * m.toInt + f.toInt + 1 ≤ m.toInt * 2 ^ 63 := by
      have hmul : (s.toInt + 1) * m.toInt ≤ 2 ^ 63 * m.toInt :=
        mul_le_mul_of_nonneg_right s.toInt_lt (by omega)
      linarith
    have hcast : ((s.toInt * m.toInt + f.toInt : ℤ) : ℚ) + 1 ≤ m.toInt * 2 ^ 63 := by
      exact_mod_cast hlast
    rw [hproduct]
    linarith
  obtain ⟨s', f', hreturn, hsplits'⟩ := toFractional_splits hm (by positivity) hbound
  obtain ⟨hs', hf'⟩ := hsplits.unique hsplits'
  rw [hreturn, Int64.toInt_inj.1 hs', Int64.toInt_inj.1 hf']

theorem toTimespec_toDouble {ts : Timespec} (h : ts.Normalised) :
    toTimespec (ts.toDouble : ℚ) = .returned ts := by
  obtain ⟨hsec, hnsec, hnsec'⟩ := h
  have hm : (1000000000 : Int64).toInt = 10 ^ 9 := by decide
  have hsum := toFractional_sum (m := 1000000000) (by decide) hsec hnsec (by rwa [hm])
  rw [hm, Int.cast_pow, Int.cast_ofNat] at hsum
  change (toFractional (ts.tvSec.toInt + 1 / 10 ^ 9 * ts.tvNsec.toInt : ℚ) 1000000000 >>= _) = _
  rw [hsum]
  rfl

theorem toTimeval_toDouble {tv : Timeval} (h : tv.Normalised) :
    toTimeval (tv.toDouble : ℚ) = .returned tv := by
  obtain ⟨hsec, husec, husec'⟩ := h
  have hm : (1000000 : Int64).toInt = 10 ^ 6 := by decide
  have hsum := toFractional_sum (m := 1000000) (by decide) hsec husec (by rwa [hm])
  rw [hm, Int.cast_pow, Int.cast_ofNat] at hsum
  change (toFractional (tv.tvSec.toInt + 1 / 10 ^ 6 * tv.tvUsec.toInt : ℚ) 1000000 >>= _) = _
  rw [hsum]
  rfl

/-- **Times are rounded and carried.** -/
theorem toFractional_exact (m : Int64) (hm : 1 ≤ m.toInt) :
    (∀ t : ℚ, 0 ≤ t → t * m.toInt + 1 / 2 < m.toInt * 2 ^ 63 →
      ∃ s f : Int64, toFractional t m = .returned (s, f) ∧ Splits t m.toInt s.toInt f.toInt ∧
        |t - (s.toInt + f.toInt / m.toInt)| ≤ 1 / (2 * m.toInt) ∧
        (∀ s' f' : ℤ, Splits t m.toInt s' f' → s' = s.toInt ∧ f' = f.toInt) ∧
        ∀ (t' : ℚ) (s' f' : Int64), t ≤ t' → t' * m.toInt + 1 / 2 < m.toInt * 2 ^ 63 →
          toFractional t' m = .returned (s', f') →
          s.toInt < s'.toInt ∨ s = s' ∧ f.toInt ≤ f'.toInt) ∧
    (∀ ts : Timespec, ts.Normalised → toTimespec (ts.toDouble : ℚ) = .returned ts) ∧
    (∀ tv : Timeval, tv.Normalised → toTimeval (tv.toDouble : ℚ) = .returned tv) := by
  refine ⟨fun t ht hbound => ?_, fun ts => toTimespec_toDouble, fun tv => toTimeval_toDouble⟩
  obtain ⟨s, f, hreturn, hsplits⟩ := toFractional_splits hm ht hbound
  refine ⟨s, f, hreturn, hsplits, hsplits.error, fun s' f' h => h.unique hsplits, ?_⟩
  intro t' s' f' hle hbound' hreturn'
  obtain ⟨s'', f'', hreturn'', hsplits'⟩ := toFractional_splits hm (ht.trans hle) hbound'
  rw [hreturn', Evaluated.returned.injEq, Prod.mk.injEq] at hreturn''
  obtain ⟨rfl, rfl⟩ := hreturn''
  exact (hsplits.monotone hsplits' hle).imp_right fun h => ⟨Int64.toInt_inj.1 h.1, h.2⟩

/-- Almost a whole second is carried to the seconds. -/
theorem toFractional_exact_carry :
    ∃ s f : Int64, toFractional (19999999 / 10000000 : ℚ) 1000000 = .returned (s, f) ∧
      Splits (19999999 / 10000000) 1000000 s.toInt f.toInt := by
  obtain ⟨s, f, hreturn, hsplits, -⟩ := (toFractional_exact 1000000 (by decide)).1
    (19999999 / 10000000) (by norm_num) (by
      rw [show (1000000 : Int64).toInt = 1000000 by decide]
      norm_num)
  exact ⟨s, f, hreturn, hsplits⟩

end rat

end Nanonet
