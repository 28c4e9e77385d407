import Nanonet.Lib.Printf
import Nanonet.Util.Datetime
import Nanonet.Util.Split

/-!
# Hours and minutes

`format_time_hh_mm` and `format_time_hh_mmt` of `util.cpp`, over any numbers that have what they use
of `double`. Over the rationals the hour that is split off before rounding and the minutes that are
rounded afterwards, with the carry between them, make up the time rounded as a whole
(`hours_minutes_eq`).
-/

namespace Nanonet

/-- What the formatting of times uses of `double`; `printf` has the width and the precision of
`%0w.plf`. -/
class Floating (R : Type) extends Add R, Sub R, Mul R, Div R, LE R, LT R where
  literal : ℚ → R
  floor : R → R
  round : R → R
  printf : ℕ → ℕ → R → Text

instance : Floating ℚ where
  literal q := q
  floor q := ⌊q⌋
  round q := roundHalfAway q
  printf width precision q := zeroFilled width (q < 0) (pointDigits precision |q|)

section model

open Floating (literal printf)

variable {R : Type} [Floating R] [DecidableLE R] [DecidableLT R]

/-- The two functions up to the minutes that are left of the rest after the hours, and their
format. -/
def formatTimeWith (width precision : ℕ) (minutes : R → R) (dt : R) (skipHour : Bool) :
    Except Exn Text :=
  if literal 0 ≤ dt then
    let h := Floating.floor (dt / literal Units.hour)
    let m := minutes (dt - h * literal Units.hour)
    let (h, m) := if literal (5999 / 100) ≤ m then (h + literal 1, literal 0) else (h, m)
    if h < literal (1 / 10) ∧ skipHour then .ok (printf width precision m)
    else .ok (printf 0 0 h ++ ':' :: printf width precision m)
  else .error (.assertionFailure "dt >= 0")

def formatTimeHhMm (dt : R) (skipHour : Bool) : Except Exn Text :=
  formatTimeWith 2 0 (fun rest => Floating.round (rest / literal Units.minute)) dt skipHour

def formatTimeHhMmt (dt : R) (skipHour : Bool) : Except Exn Text :=
  formatTimeWith 4 1
    (fun rest => literal (1 / 10) * Floating.round (literal 10 * rest / literal Units.minute)) dt
    skipHour

end model

/-! ### Rounding and carrying -/

theorem hours_ticks_eq (k : ℕ) {dt : ℚ} (hdt : 0 ≤ dt) :
    ∃ h t : ℕ, ⌊dt / 3600⌋ = h ∧ roundHalfAway (k * ((dt - h * 3600) / 60)) = t ∧ t ≤ 60 * k ∧
      ((60 * k * h + t : ℕ) : ℤ) = ⌊k * (dt / 60) + 1 / 2⌋ := by
  obtain ⟨h, hh⟩ := Int.eq_ofNat_of_zero_le (Int.floor_nonneg.2 (div_nonneg hdt (by norm_num :
    (0 : ℚ) ≤ 3600)))
  have hle := Int.floor_le (dt / 3600)
  have hlt := Int.lt_floor_add_one (dt / 3600)
  rw [hh] at hle hlt
  push_cast at hle hlt
  set rest := (dt - h * 3600) / 60 with hrest
  have hdt' : dt / 60 = 60 * h + rest := by rw [hrest]; ring
  have hrest0 : 0 ≤ rest := by
    rw [hrest]
    apply div_nonneg _ (by norm_num)
    linarith
  have hrest60 : rest ≤ 60 := by
    rw [hrest, div_le_iff₀ (by norm_num)]
    linarith
  have hticks : 0 ≤ k * rest := mul_nonneg (Nat.cast_nonneg k) hrest0
  obtain ⟨t, ht⟩ := Int.eq_ofNat_of_zero_le
    (Int.floor_nonneg.2 (add_nonneg hticks (by norm_num : (0 : ℚ) ≤ 1 / 2)))
  refine ⟨h, t, hh, ?_, ?_, ?_⟩
  · rw [roundHalfAway, if_pos hticks, ht]
  · have hmul : k * rest ≤ k * 60 := mul_le_mul_of_nonneg_left hrest60 (Nat.cast_nonneg k)
    have hbound : ⌊k * rest + 1 / 2⌋ < (60 * k + 1 : ℤ) := by
      rw [Int.floor_lt]
      push_cast
      linarith
    rw [ht] at hbound
    omega
  · have hsum : k * (dt / 60) + 1 / 2 = (60 * k * h : ℕ) + (k * rest + 1 / 2) := by
      rw [hdt']
      push_cast
      ring
    rw [hsum, Int.floor_natCast_add, ht]
    push_cast
    rfl

theorem formatTimeWith_rat (width precision : ℕ) (minutes : ℚ → ℚ) {dt : ℚ} (hdt : 0 ≤ dt)
    (skipHour : Bool) :
    formatTimeWith width precision minutes dt skipHour =
      let h : ℚ := ⌊dt / 3600⌋
      let m := minutes (dt - h * 3600)
      let (h, m) := if 5999 / 100 ≤ m then (h + 1, 0) else (h, m)
      if h < 1 / 10 ∧ skipHour then .ok (Floating.printf width precision m)
      else .ok (Floating.printf 0 0 h ++ ':' :: Floating.printf width precision m) :=
  if_pos hdt

theorem carries_iff {k t : ℕ} (hk : 0 < k) (hk' : k < 100) (ht : t ≤ 60 * k) :
    5999 / 100 ≤ (t : ℚ) / k ↔ t = 60 * k := by
  have hk0 : (0 : ℚ) < k := Nat.cast_pos.2 hk
  rw [le_div_iff₀ hk0, div_mul_eq_mul_div, div_le_iff₀ (by norm_num)]
  constructor
  · intro h
    have hcast : 5999 * k ≤ t * 100 := by exact_mod_cast h
    omega
  · rintro rfl
    push_cast
    linarith

theorem formatTimeWith_ticks (width precision : ℕ) {k : ℕ} (hk : 0 < k) (hk' : k < 100)
    {minutes : ℚ → ℚ} (hminutes : ∀ rest, minutes rest = roundHalfAway (k * (rest / 60)) / k)
    {dt : ℚ} (hdt : 0 ≤ dt) (skipHour : Bool) :
    ∃ h t : ℕ, t < 60 * k ∧ ((60 * k * h + t : ℕ) : ℤ) = ⌊k * (dt / 60) + 1 / 2⌋ ∧
      formatTimeWith width precision minutes dt skipHour = .ok (
        if h = 0 ∧ skipHour then Floating.printf width precision ((t : ℚ) / k)
        else Floating.printf 0 0 (h : ℚ) ++
          ':' :: Floating.printf width precision ((t : ℚ) / k)) := by
  obtain ⟨h, t, hh, ht, hle, htotal⟩ := hours_ticks_eq k hdt
  have hsmall (n : ℕ) : (n : ℚ) < 1 / 10 ↔ n = 0 := by
    constructor
    · intro hn
      by_contra hne
      have hone : (1 : ℚ) ≤ n := Nat.one_le_cast.2 (Nat.pos_of_ne_zero hne)
      linarith
    · rintro rfl
      norm_num
  have hfloor : ((⌊dt / 3600⌋ : ℤ) : ℚ) = h := by
    rw [hh]
    rfl
  have hm : minutes (dt - h * 3600) = t / k := by
    rw [hminutes, ht]
    rfl
  rw [formatTimeWith_rat width precision minutes hdt]
  simp only [hfloor, hm, carries_iff hk hk' hle]
  by_cases hfull : t = 60 * k
  · refine ⟨h + 1, 0, by omega, by rw [← htotal, hfull]; ring_nf, ?_⟩
    have hnot : ¬ (h : ℚ) + 1 < 1 / 10 := by
      have hnonneg : (0 : ℚ) ≤ h := Nat.cast_nonneg h
      linarith
    simp only [hfull, if_true, hnot, Nat.succ_ne_zero, false_and, if_false, Nat.cast_add,
      Nat.cast_one, Nat.cast_zero, zero_div]
  · refine ⟨h, t, by omega, htotal, ?_⟩
    simp only [hfull, if_false, hsmall]
    split_ifs <;> rfl

/-! ### What is printed -/

def hhMm (skipHour : Bool) (h mm : ℕ) : Text :=
  if h = 0 ∧ skipHour then padded 2 mm else Nat.toDigits 10 h ++ ':' :: padded 2 mm

def hhMmt (skipHour : Bool) (h mm t : ℕ) : Text :=
  if h = 0 ∧ skipHour then padded 2 mm ++ '.' :: Nat.toDigits 10 t
  else Nat.toDigits 10 h ++ ':' :: (padded 2 mm ++ '.' :: Nat.toDigits 10 t)

theorem printf_natCast (width n : ℕ) :
    Floating.printf width 0 (n : ℚ) = padded width n := by
  have habs : |(n : ℚ)| = n := abs_of_nonneg (Nat.cast_nonneg n)
  have hneg : decide ((n : ℚ) < 0) = false := by simp
  show zeroFilled width (decide ((n : ℚ) < 0)) (pointDigits 0 |(n : ℚ)|) = _
  rw [habs, hneg, pointDigits_zero_natCast, zeroFilled_toDigits]

theorem printf_tenths (n : ℕ) :
    Floating.printf 4 1 ((n : ℚ) / 10) = padded 2 (n / 10) ++ '.' :: Nat.toDigits 10 (n % 10) := by
  have hnonneg : (0 : ℚ) ≤ n / 10 := by positivity
  have hneg : decide ((n : ℚ) / 10 < 0) = false := by simpa using hnonneg
  show zeroFilled 4 (decide ((n : ℚ) / 10 < 0)) (pointDigits 1 |(n : ℚ) / 10|) = _
  rw [abs_of_nonneg hnonneg, hneg, pointDigits_one_tenths]
  have hdigit : Nat.toDigits 10 (n % 10) = [(n % 10).digitChar] :=
    Nat.toDigits_of_lt_base (Nat.mod_lt n (by decide))
  rw [hdigit]
  exact zeroFilled_append 2 (n / 10) ['.', (n % 10).digitChar]

theorem formatTimeHhMm_eq {dt : ℚ} (hdt : 0 ≤ dt) (skipHour : Bool) :
    ∃ h mm : ℕ, formatTimeHhMm dt skipHour = .ok (hhMm skipHour h mm) ∧ mm ≤ 59 ∧
      ((60 * h + mm : ℕ) : ℤ) = ⌊dt / 60 + 1 / 2⌋ := by
  have hminutes (rest : ℚ) : Floating.round (rest / Floating.literal Units.minute) =
      (roundHalfAway ((1 : ℕ) * (rest / 60)) : ℚ) / (1 : ℕ) := by
    rw [Nat.cast_one, one_mul, div_one]
    rfl
  obtain ⟨h, mm, hlt, htotal, hprint⟩ :=
    formatTimeWith_ticks 2 0 one_pos (by decide) hminutes hdt skipHour
  refine ⟨h, mm, ?_, by omega, by simpa using htotal⟩
  rw [formatTimeHhMm, hprint, Nat.cast_one, div_one, printf_natCast, printf_natCast, padded_zero,
    hhMm]

theorem formatTimeHhMmt_eq {dt : ℚ} (hdt : 0 ≤ dt) (skipHour : Bool) :
    ∃ h mm t : ℕ, formatTimeHhMmt dt skipHour = .ok (hhMmt skipHour h mm t) ∧ t ≤ 9 ∧
      10 * mm + t ≤ 599 ∧ ((600 * h + 10 * mm + t : ℕ) : ℤ) = ⌊dt / 6 + 1 / 2⌋ := by
  have hminutes (rest : ℚ) : Floating.literal (1 / 10) *
      Floating.round (Floating.literal 10 * rest / Floating.literal Units.minute) =
      (roundHalfAway ((10 : ℕ) * (rest / 60)) : ℚ) / (10 : ℕ) := by
    show (1 / 10 : ℚ) * roundHalfAway (10 * rest / 60) = _
    rw [mul_div_assoc]
    push_cast
    ring
  obtain ⟨h, t, hlt, htotal, hprint⟩ :=
    formatTimeWith_ticks 4 1 (by decide) (by decide) hminutes hdt skipHour
  refine ⟨h, t / 10, t % 10, ?_, by omega, by omega, ?_⟩
  · rw [formatTimeHhMmt, hprint]
    push_cast
    rw [printf_tenths, printf_natCast, padded_zero, hhMmt]
  · have hsum : 600 * h + 10 * (t / 10) + t % 10 = 60 * 10 * h + t := by omega
    have hdiv : ((10 : ℕ) : ℚ) * (dt / 60) = dt / 6 := by
      push_cast
      ring
    rw [hsum, htotal, hdiv]

/-! ### What a printed time stands for -/

theorem colon_notMem_toDigits (n : ℕ) : ':' ∉ Nat.toDigits 10 n := fun h => by
  simpa using Nat.isDigit_of_mem_toDigits (by decide) (by decide) h

theorem toDigits_injective {m n : ℕ} (h : Nat.toDigits 10 m = Nat.toDigits 10 n) : m = n := by
  rw [← Nat.ofDigitChars_ten_toDigits (n := m), h, Nat.ofDigitChars_ten_toDigits]

theorem withHours_injective {skip skip' : Bool} {h h' : ℕ} {rest rest' : Text} (hrest : ':' ∉ rest)
    (hrest' : ':' ∉ rest')
    (heq : (if h = 0 ∧ skip then rest else Nat.toDigits 10 h ++ ':' :: rest) =
      if h' = 0 ∧ skip' then rest' else Nat.toDigits 10 h' ++ ':' :: rest') :
    h = h' ∧ rest = rest' := by
  split_ifs at heq with h₁ h₂ h₂
  · exact ⟨h₁.1.trans h₂.1.symm, heq⟩
  · rw [heq] at hrest
    simp at hrest
  · rw [← heq] at hrest'
    simp at hrest'
  · obtain ⟨hdigits, hrests⟩ :=
      cut_injective (colon_notMem_toDigits h) (colon_notMem_toDigits h') heq
    exact ⟨toDigits_injective hdigits, hrests⟩

theorem notMem_padded {c : Char} (hc : c.isDigit = false) (width n : ℕ) : c ∉ padded width n :=
  fun h => by simpa [hc] using isDigit_of_mem_padded h

theorem padded_injective {width m n : ℕ} (h : padded width m = padded width n) : m = n := by
  rw [← ofDigitChars_padded width m, h, ofDigitChars_padded]

theorem hhMm_injective {skip skip' : Bool} {h mm h' mm' : ℕ}
    (heq : hhMm skip h mm = hhMm skip' h' mm') : h = h' ∧ mm = mm' := by
  obtain ⟨hh, hmm⟩ := withHours_injective (notMem_padded rfl 2 mm) (notMem_padded rfl 2 mm') heq
  exact ⟨hh, padded_injective hmm⟩

theorem hhMmt_injective {skip skip' : Bool} {h mm t h' mm' t' : ℕ}
    (heq : hhMmt skip h mm t = hhMmt skip' h' mm' t') : h = h' ∧ mm = mm' ∧ t = t' := by
  have hcolon (mm t : ℕ) : ':' ∉ padded 2 mm ++ '.' :: Nat.toDigits 10 t := by
    simp [notMem_padded, colon_notMem_toDigits]
  obtain ⟨hh, hmmt⟩ := withHours_injective (hcolon mm t) (hcolon mm' t') heq
  obtain ⟨hmm, ht⟩ := cut_injective (notMem_padded rfl 2 mm) (notMem_padded rfl 2 mm') hmmt
  exact ⟨hh, padded_injective hmm, toDigits_injective ht⟩

/-- Both formats print the time rounded as a whole, and a later time is never printed as an earlier
one. -/
theorem formatTime_rounds {dt : ℚ} (hdt : 0 ≤ dt) (skipHour : Bool) :
    (∃ h mm : ℕ, formatTimeHhMm dt skipHour = .ok (hhMm skipHour h mm) ∧ mm ≤ 59 ∧
      ((60 * h + mm : ℕ) : ℤ) = ⌊dt / 60 + 1 / 2⌋) ∧
    (∃ h mm t : ℕ, formatTimeHhMmt dt skipHour = .ok (hhMmt skipHour h mm t) ∧ t ≤ 9 ∧
      10 * mm + t ≤ 599 ∧ ((600 * h + 10 * mm + t : ℕ) : ℤ) = ⌊dt / 6 + 1 / 2⌋) ∧
    ∀ dt' ≥ dt, ∀ skipHour' : Bool,
      (∀ h mm h' mm', formatTimeHhMm dt skipHour = .ok (hhMm skipHour h mm) →
        formatTimeHhMm dt' skipHour' = .ok (hhMm skipHour' h' mm') →
          60 * h + mm ≤ 60 * h' + mm') ∧
      ∀ h mm t h' mm' t', formatTimeHhMmt dt skipHour = .ok (hhMmt skipHour h mm t) →
        formatTimeHhMmt dt' skipHour' = .ok (hhMmt skipHour' h' mm' t') →
          600 * h + 10 * mm + t ≤ 600 * h' + 10 * mm' + t' := by
  refine ⟨formatTimeHhMm_eq hdt skipHour, formatTimeHhMmt_eq hdt skipHour, ?_⟩
  intro dt' hle skipHour'
  have hdt' : 0 ≤ dt' := hdt.trans hle
  constructor
  · intro h mm h' mm' hprint hprint'
    obtain ⟨H, M, hok, -, htotal⟩ := formatTimeHhMm_eq hdt skipHour
    obtain ⟨H', M', hok', -, htotal'⟩ := formatTimeHhMm_eq hdt' skipHour'
    obtain ⟨rfl, rfl⟩ := hhMm_injective (Except.ok.inj (hprint.symm.trans hok))
    obtain ⟨rfl, rfl⟩ := hhMm_injective (Except.ok.inj (hprint'.symm.trans hok'))
    have hmono : ⌊dt / 60 + 1 / 2⌋ ≤ ⌊dt' / 60 + 1 / 2⌋ := Int.floor_mono (by linarith)
    omega
  · intro h mm t h' mm' t' hprint hprint'
    obtain ⟨H, M, T, hok, -, -, htotal⟩ := formatTimeHhMmt_eq hdt skipHour
    obtain ⟨H', M', T', hok', -, -, htotal'⟩ := formatTimeHhMmt_eq hdt' skipHour'
    obtain ⟨rfl, rfl, rfl⟩ := hhMmt_injective (Except.ok.inj (hprint.symm.trans hok))
    obtain ⟨rfl, rfl, rfl⟩ := hhMmt_injective (Except.ok.inj (hprint'.symm.trans hok'))
    have hmono : ⌊dt / 6 + 1 / 2⌋ ≤ ⌊dt' / 6 + 1 / 2⌋ := Int.floor_mono (by linarith)
    omega

/-- Half a minute before the first hour is over. -/
theorem formatTime_rounds_carry :
    ∃ h mm : ℕ, formatTimeHhMm (3570 : ℚ) true = .ok (hhMm true h mm) ∧ mm ≤ 59 ∧
      ((60 * h + mm : ℕ) : ℤ) = ⌊(3570 : ℚ) / 60 + 1 / 2⌋ :=
  (formatTime_rounds (by norm_num) true).1

end Nanonet
