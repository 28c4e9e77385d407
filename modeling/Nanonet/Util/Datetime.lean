import Mathlib.Data.Rat.Floor
import Mathlib.Tactic.Linarith
import Nanonet.Base.Stream
import Nanonet.Lib.Calendar
import Nanonet.Lib.Decimal
import Nanonet.Lib.Double

/-!
# Dates and times

`format_datetime` and `parse_datetime` of `util.cpp` over the rationals; the C library's functions on
calendar times are a parameter. A time is rounded by the conversion of `t + 0.5` to an integer, which
drops the fraction: that goes down after the epoch and up before it, so there a time moves to the
nearest second only if nothing is dropped (`abs_truncate_sub_le_iff`).
-/

namespace Nanonet

/-! ### Units of time -/

namespace Units

def day : ℚ := 86400
def hour : ℚ := 3600
def minute : ℚ := 60
def year : ℚ := 365 * day

end Units

structure Tm where
  tm_sec : ℤ
  tm_min : ℤ
  tm_hour : ℤ
  tm_mday : ℤ
  tm_mon : ℤ
  tm_year : ℤ
  tm_wday : ℤ
  tm_yday : ℤ
  tm_isdst : ℤ
  deriving DecidableEq, Repr

def Tm.clear : Tm := ⟨0, 0, 0, 0, 0, 0, 0, 0, 0⟩

/-- The functions of the C library. `gmtime_r` fails with an `errno`. `strftime` gives the text that
it writes, which is empty where it returns zero, and `strptime` the number of characters it has
read. -/
structure CalendarLibrary where
  gmtimeR : ℤ → Except ℕ Tm
  timegm : Tm → ℤ
  strftime : ℕ → Text → Tm → Text
  strptime : Text → Text → Tm → Option (Tm × ℕ)

def defaultDatetimeFormat : Text := ['%', 'F', 'T', '%', 'T', 'Z']

def defaultPastLimit : ℚ := -1970 * Units.year

section model

variable (lib : CalendarLibrary) (strerror : ℕ → String)

def utcTm (t : ℚ) : Except Exn Tm :=
  let t1 := truncate (t + 1 / 2)
  match lib.gmtimeR t1 with
  | .ok ret => .ok ret
  | .error errno => .error (.runtimeError ("gmtime()" ++ ": " ++ strerror errno))

def formatDatetime (t : ℚ) (format : Text) (pastLimit : ℚ) (defaultResult : Text) :
    Except Exn Text :=
  if t < pastLimit then .ok defaultResult
  else
    match utcTm lib strerror t with
    | .error e => .error e
    | .ok t2 =>
      let ret := lib.strftime 99 format t2
      if ret = [] then .error (.runtimeError "format_datetime(): formatting failure") else .ok ret

def parseDatetime (s format : Text) : Except Exn ℚ :=
  match lib.strptime (cString s) format Tm.clear with
  | none => .error (.runtimeError ("parse_datetime(): parse error: " ++ String.ofList s))
  | some (t2, res) =>
    if s.length ≠ res then
      .error (.runtimeError ("parse_datetime(): parsing incomplete: " ++ String.ofList s))
    else .ok (lib.timegm t2)

/-- What is formatted is parsed as an integer at most half a second away. -/
def LosesHalfSecond (t pastLimit : ℚ) (defaultResult : Text) : Prop :=
  ∃ s, formatDatetime lib strerror t defaultDatetimeFormat pastLimit defaultResult = .ok s ∧
    ∃ n : ℤ, parseDatetime lib s defaultDatetimeFormat = .ok (n : ℚ) ∧ |(n : ℚ) - t| ≤ 1 / 2

end model

/-! ### The library -/

namespace CalendarLibrary

/-- At the second `n`, which is `tm`, the functions are inverse to each other. -/
structure InverseAt (lib : CalendarLibrary) (n : ℤ) (tm : Tm) : Prop where
  gmtimeR_eq : lib.gmtimeR n = .ok tm
  timegm_eq : lib.timegm tm = n
  strftime_ne : lib.strftime 99 defaultDatetimeFormat tm ≠ []
  nul_notMem : '\x00' ∉ lib.strftime 99 defaultDatetimeFormat tm
  strptime_eq :
    lib.strptime (lib.strftime 99 defaultDatetimeFormat tm) defaultDatetimeFormat Tm.clear =
      some (tm, (lib.strftime 99 defaultDatetimeFormat tm).length)

/-- They are at every one of some seconds. -/
def InverseOn (lib : CalendarLibrary) (seconds : ℤ → Prop) : Prop :=
  ∀ n, seconds n → ∃ tm, lib.InverseAt n tm

/-- The text for the second `n` is that of the second `m` to the functions that read it. -/
def ReadsBack (lib : CalendarLibrary) (n m : ℤ) : Prop :=
  ∃ tm tm', lib.gmtimeR n = .ok tm ∧ lib.strftime 99 defaultDatetimeFormat tm ≠ [] ∧
    lib.strptime (cString (lib.strftime 99 defaultDatetimeFormat tm)) defaultDatetimeFormat
      Tm.clear = some (tm', (lib.strftime 99 defaultDatetimeFormat tm).length) ∧
    lib.timegm tm' = m

theorem InverseAt.readsBack_iff {lib : CalendarLibrary} {n : ℤ} {tm : Tm} (h : lib.InverseAt n tm)
    (m : ℤ) : lib.ReadsBack n m ↔ m = n := by
  constructor
  · rintro ⟨tm₁, tm', hgmtime, -, hstrptime, rfl⟩
    obtain rfl : tm = tm₁ := Except.ok.inj (h.gmtimeR_eq.symm.trans hgmtime)
    rw [cString_eq_self h.nul_notMem, h.strptime_eq] at hstrptime
    obtain rfl : tm = tm' := congrArg Prod.fst (Option.some.inj hstrptime)
    exact h.timegm_eq
  · rintro rfl
    refine ⟨tm, tm, h.gmtimeR_eq, h.strftime_ne, ?_, h.timegm_eq⟩
    rw [cString_eq_self h.nul_notMem, h.strptime_eq]

end CalendarLibrary

theorem losesHalfSecond_iff_readsBack (lib : CalendarLibrary) (strerror : ℕ → String)
    {t pastLimit : ℚ} (hpast : pastLimit ≤ t) (defaultResult : Text) :
    LosesHalfSecond lib strerror t pastLimit defaultResult ↔
      ∃ n, lib.ReadsBack (truncate (t + 1 / 2)) n ∧ |(n : ℚ) - t| ≤ 1 / 2 := by
  constructor
  · rintro ⟨s, hformat, n, hparse, hn⟩
    refine ⟨n, ?_, hn⟩
    simp only [formatDatetime, if_neg (not_lt.2 hpast), utcTm] at hformat
    cases hgmtime : lib.gmtimeR (truncate (t + 1 / 2)) with
    | error errno =>
      rw [hgmtime] at hformat
      cases hformat
    | ok tm =>
      simp only [hgmtime] at hformat
      split_ifs at hformat with hempty
      obtain rfl := Except.ok.inj hformat
      unfold parseDatetime at hparse
      split at hparse
      · cases hparse
      · next tm' res hstrptime =>
        split_ifs at hparse with hlength
        rw [← not_not.1 hlength] at hstrptime
        exact ⟨tm, tm', hgmtime, hempty, hstrptime, Int.cast_injective (Except.ok.inj hparse)⟩
  · rintro ⟨n, ⟨tm, tm', hgmtime, hempty, hstrptime, rfl⟩, hn⟩
    refine ⟨lib.strftime 99 defaultDatetimeFormat tm, ?_, lib.timegm tm', ?_, hn⟩
    · simp only [formatDatetime, if_neg (not_lt.2 hpast), utcTm, hgmtime, if_neg hempty]
    · simp [parseDatetime, hstrptime]

/-! ### Rounding -/

theorem abs_truncate_sub_le_iff (t : ℚ) :
    |(truncate (t + 1 / 2) : ℚ) - t| ≤ 1 / 2 ↔ -1 / 2 ≤ t ∨ ∃ n : ℤ, t + 1 / 2 = n := by
  rcases le_or_gt 0 (t + 1 / 2) with hpos | hneg
  · have hle := Int.floor_le (t + 1 / 2)
    have hlt := Int.lt_floor_add_one (t + 1 / 2)
    refine iff_of_true ?_ (.inl (by linarith))
    rw [truncate, if_pos hpos, abs_le]
    constructor <;> linarith
  · have hle := Int.le_ceil (t + 1 / 2)
    have hlt := Int.ceil_lt_add_one (t + 1 / 2)
    rw [truncate, if_neg (not_le.2 hneg)]
    constructor
    · intro h
      refine .inr ⟨⌈t + 1 / 2⌉, le_antisymm hle ?_⟩
      linarith [(abs_le.1 h).2]
    · rintro (h | ⟨n, hn⟩)
      · linarith
      · rw [hn, Int.ceil_intCast, abs_le]
        constructor <;> linarith

/-- The seconds in the years from 1000 to 9999. -/
def FourDigitYear (n : ℤ) : Prop := -30610224000 ≤ n ∧ n < 253402300800

/-- A time loses at most half a second from half a second before the epoch on, and before that
exactly where it is in the middle of a second. In the last half second of the year 9999 it depends
on what the library makes of the year 10000 as well. -/
theorem losesHalfSecond_iff {lib : CalendarLibrary} (hlib : lib.InverseOn FourDigitYear)
    (strerror : ℕ → String) {t pastLimit : ℚ} (hpast : pastLimit ≤ t) (hyear : FourDigitYear ⌊t⌋)
    (defaultResult : Text) :
    LosesHalfSecond lib strerror t pastLimit defaultResult ↔
      (-1 / 2 ≤ t ∨ ∃ n : ℤ, t + 1 / 2 = n) ∧
        (t + 1 / 2 < 253402300800 ∨
          ∃ m : ℤ, lib.ReadsBack 253402300800 m ∧ |(m : ℚ) - t| ≤ 1 / 2) := by
  rw [losesHalfSecond_iff_readsBack lib strerror hpast]
  have hlow : (-30610224000 : ℚ) ≤ t := by exact_mod_cast Int.le_floor.1 hyear.1
  have hhigh : t < (253402300800 : ℚ) := by exact_mod_cast Int.floor_lt.1 hyear.2
  rcases lt_or_ge (t + 1 / 2) 253402300800 with hin | hout
  · have hn : FourDigitYear (truncate (t + 1 / 2)) :=
      ⟨le_truncate (by norm_num) (by push_cast; linarith),
        truncate_lt (by norm_num) (by exact_mod_cast hin)⟩
    obtain ⟨tm, htm⟩ := hlib _ hn
    simp only [htm.readsBack_iff, exists_eq_left, abs_truncate_sub_le_iff, hin, true_or, and_true]
  · have hn : truncate (t + 1 / 2) = 253402300800 := by
      rw [truncate, if_pos (by linarith), Int.floor_eq_iff]
      constructor <;> push_cast <;> linarith
    have hpos : -1 / 2 ≤ t := by linarith
    simp only [hn, hpos, true_or, true_and, not_lt.2 hout, false_or]

/-! ### The Gregorian calendar as such a library -/

/-- A date and a time of day; the month counts from 0. -/
structure Civil where
  year : ℕ
  month : ℕ
  mday : ℕ
  hour : ℕ
  minute : ℕ
  second : ℕ

namespace Civil

open Gregorian

/-- The day of the year, counted from 0. -/
def yday (c : Civil) : ℤ := daysBeforeMonth (isLeap c.year) c.month + c.mday - 1

def days (c : Civil) : ℤ := daysBeforeYear c.year + c.yday - 719528

def toTm (c : Civil) : Tm :=
  ⟨c.second, c.minute, c.hour, c.mday, c.month, c.year - 1900, (c.days + 4) % 7, c.yday, 0⟩

def ofTm (tm : Tm) : Civil :=
  ⟨(tm.tm_year + 1900).toNat, tm.tm_mon.toNat, tm.tm_mday.toNat, tm.tm_hour.toNat,
    tm.tm_min.toNat, tm.tm_sec.toNat⟩

def seconds (c : Civil) : ℤ := ((c.days * 24 + c.hour) * 60 + c.minute) * 60 + c.second

/-- The date and time of the second `n` after the epoch. -/
def ofSeconds (n : ℤ) : Civil :=
  let day := (n / 86400 + 719528).toNat
  let year := yearOf day
  let yday := day - daysBeforeYear year
  let month := monthOf (isLeap year) yday
  let time := (n % 86400).toNat
  ⟨year, month, yday - daysBeforeMonth (isLeap year) month + 1, time / 3600, time / 60 % 60,
    time % 60⟩

def date (c : Civil) : Text :=
  padded 4 c.year ++ '-' :: padded 2 (c.month + 1) ++ '-' :: padded 2 c.mday

def time (c : Civil) : Text :=
  padded 2 c.hour ++ ':' :: padded 2 c.minute ++ ':' :: padded 2 c.second

/-- Each part has as many digits as it is printed with. -/
structure Printable (c : Civil) : Prop where
  year_lt : c.year < 10 ^ 4
  month_lt : c.month + 1 < 10 ^ 2
  mday_lt : c.mday < 10 ^ 2
  hour_lt : c.hour < 10 ^ 2
  minute_lt : c.minute < 10 ^ 2
  second_lt : c.second < 10 ^ 2

theorem ofTm_toTm (c : Civil) : ofTm c.toTm = c := by
  simp [ofTm, toTm]

theorem seconds_ofSeconds {n : ℤ} (h : 0 ≤ n / 86400 + 719528) : (ofSeconds n).seconds = n := by
  have hyear := daysBeforeYear_yearOf_le (n / 86400 + 719528).toNat
  have hmonth := daysBeforeMonth_monthOf_le
    (isLeap (yearOf (n / 86400 + 719528).toNat))
    ((n / 86400 + 719528).toNat - daysBeforeYear (yearOf (n / 86400 + 719528).toNat))
  simp only [seconds, days, yday, ofSeconds]
  omega

theorem printable_ofSeconds {n : ℤ} (h : FourDigitYear n) : (ofSeconds n).Printable := by
  obtain ⟨hlow, hhigh⟩ := h
  have hyday := yday_lt (n / 86400 + 719528).toNat
  have hmonth := monthOf_le (isLeap (yearOf (n / 86400 + 719528).toNat))
    ((n / 86400 + 719528).toNat - daysBeforeYear (yearOf (n / 86400 + 719528).toNat))
  have hyear : yearOf (n / 86400 + 719528).toNat < 10000 := by
    refine yearOf_lt ?_
    have heq : daysBeforeYear 10000 = 3652425 := rfl
    omega
  have hmday := mday_lt hyday
  constructor <;> simp only [ofSeconds] <;> omega

end Civil

/-- The text for a format of `%F`, `%T` and other characters. -/
def expandFormat (c : Civil) : Text → Option Text
  | [] => some []
  | '%' :: 'F' :: format => (expandFormat c format).map (c.date ++ ·)
  | '%' :: 'T' :: format => (expandFormat c format).map (c.time ++ ·)
  | '%' :: _ => none
  | x :: format => (expandFormat c format).map (x :: ·)

def readChar (x : Char) : Text → Option Text
  | [] => none
  | y :: s => if x = y then some s else none

/-- The date and time that a text has for such a format, and what follows. -/
def readFormat : Text → Civil → Text → Option (Civil × Text)
  | [], c, s => some (c, s)
  | '%' :: 'F' :: format, c, s => do
    let (year, s) ← readField 4 s
    let s ← readChar '-' s
    let (month, s) ← readField 2 s
    let s ← readChar '-' s
    let (mday, s) ← readField 2 s
    readFormat format { c with year := year, month := month - 1, mday := mday } s
  | '%' :: 'T' :: format, c, s => do
    let (hour, s) ← readField 2 s
    let s ← readChar ':' s
    let (minute, s) ← readField 2 s
    let s ← readChar ':' s
    let (second, s) ← readField 2 s
    readFormat format { c with hour := hour, minute := minute, second := second } s
  | '%' :: _, _, _ => none
  | x :: format, c, s => do
    let s ← readChar x s
    readFormat format c s

namespace Civil

def text (c : Civil) : Text := c.date ++ 'T' :: (c.time ++ ['Z'])

theorem expandFormat_default (c : Civil) :
    expandFormat c defaultDatetimeFormat = some c.text := by
  simp [expandFormat, defaultDatetimeFormat, text]

theorem readFormat_char {x : Char} (hx : x ≠ '%') (format : Text) (c : Civil) (s : Text) :
    readFormat (x :: format) c (x :: s) = readFormat format c s := by
  rw [readFormat, readChar, if_pos rfl]
  · rfl
  all_goals simp [hx]

section printed

variable {c : Civil} (h : c.Printable)

include h

theorem Printable.readFormat_date (format : Text) (c₀ : Civil) (rest : Text) :
    readFormat ('%' :: 'F' :: format) c₀ (c.date ++ rest) =
      readFormat format { c₀ with year := c.year, month := c.month, mday := c.mday } rest := by
  have hyear := readField_padded (by decide) h.year_lt
  have hmonth := readField_padded (by decide) h.month_lt
  have hmday := readField_padded (by decide) h.mday_lt
  rw [readFormat]
  simp [date, readChar, hyear, hmonth, hmday]

theorem Printable.readFormat_time (format : Text) (c₀ : Civil) (rest : Text) :
    readFormat ('%' :: 'T' :: format) c₀ (c.time ++ rest) =
      readFormat format { c₀ with hour := c.hour, minute := c.minute, second := c.second } rest := by
  have hhour := readField_padded (by decide) h.hour_lt
  have hminute := readField_padded (by decide) h.minute_lt
  have hsecond := readField_padded (by decide) h.second_lt
  rw [readFormat]
  simp [time, readChar, hhour, hminute, hsecond]

theorem Printable.readFormat_text (c₀ : Civil) :
    readFormat defaultDatetimeFormat c₀ c.text = some (c, []) := by
  have hformat : defaultDatetimeFormat = '%' :: 'F' :: 'T' :: '%' :: 'T' :: ['Z'] := rfl
  rw [hformat, text, h.readFormat_date, readFormat_char (by decide), h.readFormat_time,
    readFormat_char (by decide)]
  rfl

end printed

theorem Printable.length_text {c : Civil} (h : c.Printable) : c.text.length = 20 := by
  simp [text, date, time, length_padded_of_lt (by decide : 0 < 4) h.year_lt,
    length_padded_of_lt (by decide : 0 < 2) h.month_lt,
    length_padded_of_lt (by decide : 0 < 2) h.mday_lt,
    length_padded_of_lt (by decide : 0 < 2) h.hour_lt,
    length_padded_of_lt (by decide : 0 < 2) h.minute_lt,
    length_padded_of_lt (by decide : 0 < 2) h.second_lt]

theorem nul_notMem_text (c : Civil) : '\x00' ∉ c.text := by
  have hpadded (width n : ℕ) : '\x00' ∉ padded width n := fun h => by
    simpa using isDigit_of_mem_padded h
  simp [text, date, time, hpadded]

end Civil

/-- The C library, as far as the default format needs it. -/
def gregorian : CalendarLibrary where
  gmtimeR n := if 0 ≤ n / 86400 + 719528 then .ok (Civil.ofSeconds n).toTm else .error 75
  timegm tm := (Civil.ofTm tm).seconds
  strftime size format tm :=
    match expandFormat (.ofTm tm) format with
    | some text => if text.length < size then text else []
    | none => []
  strptime s format tm :=
    (readFormat format (.ofTm tm) s).map fun (c, rest) => (c.toTm, s.length - rest.length)

theorem gregorian_inverseOn : gregorian.InverseOn FourDigitYear := by
  intro n hn
  have hday : 0 ≤ n / 86400 + 719528 := by
    have hlow := hn.1
    omega
  have hprint := Civil.printable_ofSeconds hn
  have htext : gregorian.strftime 99 defaultDatetimeFormat (Civil.ofSeconds n).toTm =
      (Civil.ofSeconds n).text := by
    simp only [gregorian, Civil.ofTm_toTm, Civil.expandFormat_default, hprint.length_text]
    rfl
  refine ⟨(Civil.ofSeconds n).toTm, if_pos hday, ?_, ?_, ?_, ?_⟩
  · simp only [gregorian, Civil.ofTm_toTm, Civil.seconds_ofSeconds hday]
  · rw [htext]
    exact List.ne_nil_of_length_eq_add_one hprint.length_text
  · rw [htext]
    exact Civil.nul_notMem_text _
  · rw [htext]
    simp [gregorian, hprint.readFormat_text]

/-- Ten seconds and a fraction before the epoch. -/
theorem losesHalfSecond_iff_gregorian :
    LosesHalfSecond gregorian (fun _ => "") (-103 / 10) defaultPastLimit [] ↔
      (-1 / 2 ≤ (-103 / 10 : ℚ) ∨ ∃ n : ℤ, (-103 / 10 : ℚ) + 1 / 2 = n) ∧
        ((-103 / 10 : ℚ) + 1 / 2 < 253402300800 ∨
          ∃ m : ℤ, gregorian.ReadsBack 253402300800 m ∧ |(m : ℚ) - (-103 / 10)| ≤ 1 / 2) :=
  losesHalfSecond_iff gregorian_inverseOn _ (by norm_num [defaultPastLimit, Units.year, Units.day])
    (by norm_num [FourDigitYear, Int.floor_eq_iff]) []

/-- At 10.3 seconds before the epoch the result is 9 seconds before it. -/
theorem tooLate_before_epoch :
    ¬ ∀ (lib : CalendarLibrary) (strerror : ℕ → String) (t pastLimit : ℚ) (defaultResult : Text),
      lib.InverseOn FourDigitYear → pastLimit ≤ t → FourDigitYear ⌊t⌋ →
        LosesHalfSecond lib strerror t pastLimit defaultResult := by
  intro h
  have hpast : defaultPastLimit ≤ -103 / 10 := by
    norm_num [defaultPastLimit, Units.year, Units.day]
  have hfloor : ⌊(-103 / 10 : ℚ)⌋ = -11 := by norm_num [Int.floor_eq_iff]
  have hloses := h gregorian (fun _ => "") (-103 / 10) defaultPastLimit [] gregorian_inverseOn hpast
    (by rw [hfloor]; norm_num [FourDigitYear])
  rw [losesHalfSecond_iff_readsBack gregorian _ hpast] at hloses
  obtain ⟨n, hreads, hn⟩ := hloses
  have htruncate : truncate (-103 / 10 + 1 / 2) = -9 := by
    norm_num [truncate, Int.ceil_eq_iff]
  obtain ⟨tm, htm⟩ := gregorian_inverseOn (-9) (by norm_num [FourDigitYear])
  rw [htruncate, htm.readsBack_iff] at hreads
  subst hreads
  norm_num [abs_le] at hn

end Nanonet
