import Mathlib.Algebra.Order.Ring.Rat
import Mathlib.Analysis.Normed.Field.Lemmas
import Mathlib.Analysis.Normed.Group.AddTorsor
import Mathlib.Algebra.Order.Field.Basic
import Mathlib.Data.Rat.Defs
import Mathlib.LinearAlgebra.AffineSpace.Ordered
import Mathlib.Tactic.Linarith
import Mathlib.Tactic.Positivity
import Mathlib.Tactic.Ring
import Nanonet.Base.Stream

/-!
# Rate estimators

`exponential_moving_average` and `rate_estimator` of `math-util.h` over the rationals, with `none` for
NaN. An average is the point of Mathlib's `AffineMap.lineMap` at the mix-in factor, so its bounds are
those of a point between two others.

`RateEstimator.Tracks` is the invariant of a run: it ties the two members of the state to the times
that were accepted.
-/

namespace Nanonet

/-- `exponential_moving_average`, with what its constructor asserts. -/
structure ExponentialMovingAverage where
  C : ℚ
  C_pos : 0 < C
  C_lt_one : C < 1

namespace ExponentialMovingAverage

def make (C : ℚ) : Except Exn ExponentialMovingAverage :=
  if hpos : 0 < C then
    if hlt : C < 1 then .ok ⟨C, hpos, hlt⟩ else .error (.assertionFailure "C < 1")
  else .error (.assertionFailure "0 < C")

/-- `update_discrete_states`: the new `x`. -/
def updateDiscreteStates (avg : ExponentialMovingAverage) (x : Option ℚ) (u : ℚ) : Option ℚ :=
  match x with
  | none => some u
  | some x => some ((1 - avg.C) * x + avg.C * u)

theorem updateDiscreteStates_some (avg : ExponentialMovingAverage) (x u : ℚ) :
    avg.updateDiscreteStates (some x) u = some (AffineMap.lineMap x u avg.C) := by
  rw [updateDiscreteStates, AffineMap.lineMap_apply_module, smul_eq_mul, smul_eq_mul]

theorem lineMap_pos (avg : ExponentialMovingAverage) {x u : ℚ} (hx : 0 < x) (hu : 0 ≤ u) :
    0 < AffineMap.lineMap x u avg.C := by
  rw [AffineMap.lineMap_apply_module, smul_eq_mul, smul_eq_mul]
  have hold : 0 < (1 - avg.C) * x := mul_pos (sub_pos.2 avg.C_lt_one) hx
  have hnew : 0 ≤ avg.C * u := mul_nonneg avg.C_pos.le hu
  linarith

theorem lineMap_between (avg : ExponentialMovingAverage) (x u : ℚ) :
    (x ≤ AffineMap.lineMap x u avg.C ∧ AffineMap.lineMap x u avg.C ≤ u) ∨
    (u ≤ AffineMap.lineMap x u avg.C ∧ AffineMap.lineMap x u avg.C ≤ x) := by
  rcases le_total x u with h | h
  · exact .inl ⟨(left_le_lineMap_iff_le avg.C_pos).2 h, (lineMap_le_right_iff_le avg.C_lt_one).2 h⟩
  · exact .inr ⟨(right_le_lineMap_iff_le avg.C_lt_one).2 h, (lineMap_le_left_iff_le avg.C_pos).2 h⟩

end ExponentialMovingAverage

structure RateEstimator where
  avg_ : ExponentialMovingAverage
  dt_estimate_ : Option ℚ
  last_update_ : Option ℚ

namespace RateEstimator

/-- `rate_estimator( C, initial_estimate )`. The quotient comes before the assertion, and is not
looked at if that fails. -/
def make (C initialEstimate : ℚ) : Except Exn RateEstimator := do
  let avg ← ExponentialMovingAverage.make C
  let dt := 1 / initialEstimate
  if 0 < initialEstimate then .ok ⟨avg, some dt, none⟩
  else .error (.assertionFailure "initial_estimate > 0")

def update (s : RateEstimator) (now : Option ℚ) : Bool × RateEstimator :=
  match now with
  | none => (false, s)
  | some now =>
    match s.last_update_ with
    | some last =>
      let dt := now - last
      if 0 ≤ dt then
        (true, { s with
          dt_estimate_ := s.avg_.updateDiscreteStates s.dt_estimate_ dt, last_update_ := some now })
      else (false, s)
    | none => (true, { s with last_update_ := some now })

/-- `estimate()`; `none` where the quotient is no number. -/
def estimate (s : RateEstimator) : Option ℚ :=
  s.dt_estimate_.bind fun dt => if dt = 0 then none else some (1 / dt)

/-- `estimate( now )`, which works on a copy. -/
def estimateAt (s : RateEstimator) (now : Option ℚ) : Option ℚ :=
  let copy := s
  let copy := (copy.update now).2
  copy.estimate

/-- The estimator after a sequence of calls of `update`. -/
def run (s : RateEstimator) (nows : List (Option ℚ)) : RateEstimator :=
  nows.foldl (fun s now => (s.update now).2) s

/-- The times that `update` returns `true` for. -/
def accepted : RateEstimator → List (Option ℚ) → List ℚ
  | _, [] => []
  | s, now :: nows =>
    let r := s.update now
    (if r.1 then now.toList else []) ++ accepted r.2 nows

/-! ### One call -/

theorem make_ok {C r : ℚ} (hC : 0 < C) (hC1 : C < 1) (hr : 0 < r) :
    make C r = .ok ⟨⟨C, hC, hC1⟩, some (1 / r), none⟩ := by
  simp [make, ExponentialMovingAverage.make, hC, hC1, hr, bind, Except.bind]

theorem update_first {s : RateEstimator} (h : s.last_update_ = none) (now : ℚ) :
    s.update (some now) = (true, { s with last_update_ := some now }) := by
  simp only [update, h]

theorem update_later {s : RateEstimator} {last now : ℚ} (h : s.last_update_ = some last)
    (hle : last ≤ now) :
    s.update (some now) = (true, { s with
      dt_estimate_ := s.avg_.updateDiscreteStates s.dt_estimate_ (now - last)
      last_update_ := some now }) := by
  simp only [update, h, if_pos (sub_nonneg.2 hle)]

theorem update_earlier {s : RateEstimator} {last now : ℚ} (h : s.last_update_ = some last)
    (hlt : now < last) : s.update (some now) = (false, s) := by
  simp only [update, h, if_neg (not_le.2 (sub_neg.2 hlt))]

theorem update_cases (s : RateEstimator) (now : Option ℚ) :
    s.update now = (false, s) ∨
    (∃ t, now = some t ∧ s.last_update_ = none ∧
      s.update now = (true, { s with last_update_ := some t })) ∨
    (∃ t last, now = some t ∧ s.last_update_ = some last ∧ last ≤ t ∧
      s.update now = (true, { s with
        dt_estimate_ := s.avg_.updateDiscreteStates s.dt_estimate_ (t - last)
        last_update_ := some t })) := by
  cases now with
  | none => exact .inl rfl
  | some t =>
    cases h : s.last_update_ with
    | none => exact .inr (.inl ⟨t, rfl, rfl, update_first h t⟩)
    | some last =>
      rcases lt_or_ge t last with hlt | hle
      · exact .inl (update_earlier h hlt)
      · exact .inr (.inr ⟨t, last, rfl, rfl, hle, update_later h hle⟩)

theorem update_ignored_iff (s : RateEstimator) (now : ℚ) :
    s.update (some now) = (false, s) ↔ ∃ last, s.last_update_ = some last ∧ now < last := by
  constructor
  · intro h
    cases hlast : s.last_update_ with
    | none => simp [update_first hlast] at h
    | some last =>
      refine ⟨last, rfl, ?_⟩
      by_contra hle
      simp [update_later hlast (not_lt.1 hle)] at h
  · rintro ⟨last, hlast, hlt⟩
    exact update_earlier hlast hlt

theorem update_false {s : RateEstimator} {now : Option ℚ} (hfalse : (s.update now).1 = false) :
    (s.update now).2 = s := by
  obtain h | ⟨t, -, -, h⟩ | ⟨t, last, -, -, -, h⟩ := s.update_cases now
  · rw [h]
  · rw [h] at hfalse
    cases hfalse
  · rw [h] at hfalse
    cases hfalse

@[simp] theorem update_avg (s : RateEstimator) (now : Option ℚ) :
    (s.update now).2.avg_ = s.avg_ := by
  obtain h | ⟨t, -, -, h⟩ | ⟨t, last, -, -, -, h⟩ := s.update_cases now <;> rw [h]

@[simp] theorem run_avg (s : RateEstimator) (nows : List (Option ℚ)) :
    (s.run nows).avg_ = s.avg_ := by
  induction nows generalizing s with
  | nil => rfl
  | cons now nows ih => exact (ih _).trans (s.update_avg now)

theorem run_concat (s : RateEstimator) (nows : List (Option ℚ)) (now : Option ℚ) :
    s.run (nows ++ [now]) = ((s.run nows).update now).2 := by
  simp [run]

/-! ### The accepted times and their intervals -/

/-- The time from each element to the next. -/
def intervals : List ℚ → List ℚ
  | a :: b :: times => (b - a) :: intervals (b :: times)
  | _ => []

theorem intervals_concat {times : List ℚ} {last : ℚ} (h : times.getLast? = some last) (t : ℚ) :
    intervals (times ++ [t]) = intervals times ++ [t - last] := by
  induction times using intervals.induct with
  | case1 a b times ih =>
    rw [List.getLast?_cons_cons] at h
    simp only [List.cons_append, intervals] at ih ⊢
    rw [ih h]
  | case2 times hshort =>
    match times, hshort with
    | [], _ => simp at h
    | [a], _ => simp_all [intervals]
    | a :: b :: times, hshort => exact absurd rfl (hshort a b times)

/-- After the times `times` were accepted, the last of them is stored and is the largest, and the
estimate is positive and between the values it has been made from. -/
structure Tracks (s : RateEstimator) (dt₀ : ℚ) (times : List ℚ) : Prop where
  last_eq : s.last_update_ = times.getLast?
  le_last : ∀ t ∈ times, ∀ last ∈ s.last_update_, t ≤ last
  dt_estimate : ∃ dt, s.dt_estimate_ = some dt ∧ 0 < dt ∧
    (∃ lo ∈ dt₀ :: intervals times, lo ≤ dt) ∧ (∃ hi ∈ dt₀ :: intervals times, dt ≤ hi)

theorem Tracks.update {s : RateEstimator} {dt₀ : ℚ} {times : List ℚ} (h : s.Tracks dt₀ times)
    (now : Option ℚ) :
    (s.update now).2.Tracks dt₀ (times ++ if (s.update now).1 then now.toList else []) := by
  obtain heq | ⟨t, rfl, hlast, heq⟩ | ⟨t, last, rfl, hlast, hle, heq⟩ := s.update_cases now
  · simpa [heq] using h
  · have htimes : times = [] := List.getLast?_eq_none_iff.1 (h.last_eq.symm.trans hlast)
    subst htimes
    rw [heq]
    exact ⟨rfl, by simp, by simpa [intervals] using h.dt_estimate⟩
  · obtain ⟨dt, hdt, hpos, ⟨lo, hlo, hlodt⟩, ⟨hi, hhi, hdthi⟩⟩ := h.dt_estimate
    have hintervals := intervals_concat (h.last_eq.symm.trans hlast) t
    rw [heq]
    refine ⟨by simp, ?_, ?_⟩
    · intro u hu last' hlast'
      obtain rfl : t = last' := by simpa using hlast'
      rcases List.mem_append.1 hu with hu | hu
      · exact (h.le_last u hu last hlast).trans hle
      · simp_all
    · refine ⟨AffineMap.lineMap dt (t - last) s.avg_.C, ?_,
        s.avg_.lineMap_pos hpos (sub_nonneg.2 hle), ?_⟩
      · rw [hdt, s.avg_.updateDiscreteStates_some]
      -- The new interval bounds the estimate on one side, and the old bound stays one on the other.
      · have hnew : t - last ∈ dt₀ :: intervals (times ++ [t]) := by simp [hintervals]
        have hold {x : ℚ} (hx : x ∈ dt₀ :: intervals times) :
            x ∈ dt₀ :: intervals (times ++ [t]) := by
          rw [hintervals, ← List.cons_append]
          exact List.mem_append_left _ hx
        rcases s.avg_.lineMap_between dt (t - last) with ⟨h1, h2⟩ | ⟨h1, h2⟩
        · exact ⟨⟨lo, hold hlo, hlodt.trans h1⟩, ⟨t - last, hnew, h2⟩⟩
        · exact ⟨⟨t - last, hnew, h1⟩, ⟨hi, hold hhi, h2.trans hdthi⟩⟩

theorem Tracks.run {s : RateEstimator} {dt₀ : ℚ} {times : List ℚ} (h : s.Tracks dt₀ times)
    (nows : List (Option ℚ)) : (s.run nows).Tracks dt₀ (times ++ s.accepted nows) := by
  induction nows generalizing s times with
  | nil => simpa [accepted, RateEstimator.run] using h
  | cons now nows ih =>
    have hrest := ih (h.update now)
    rwa [List.append_assoc] at hrest

/-! ### The same interval again and again -/

/-- `n` events after `last`, each `d` after the one before. -/
def repeated (last d : ℚ) (n : ℕ) : List (Option ℚ) :=
  (List.range n).map fun i : ℕ => some (last + (i + 1) * d)

theorem run_repeated {s : RateEstimator} {last x d : ℚ} (hlast : s.last_update_ = some last)
    (hx : s.dt_estimate_ = some x) (hd : 0 < d) (n : ℕ) :
    (s.run (repeated last d n)).last_update_ = some (last + n * d) ∧
      (s.run (repeated last d n)).dt_estimate_ = some (d + (1 - s.avg_.C) ^ n * (x - d)) := by
  induction n with
  | zero => simp [repeated, run, hlast, hx]
  | succ n ih =>
    obtain ⟨ihlast, ihx⟩ := ih
    have hle : last + n * d ≤ last + (n + 1) * d := by linarith
    have hdt : last + (n + 1) * d - (last + n * d) = d := by ring
    have hrun : s.run (repeated last d (n + 1)) =
        ((s.run (repeated last d n)).update (some (last + (n + 1) * d))).2 := by
      rw [repeated, List.range_succ, List.map_append, List.map_singleton, run_concat]
      rfl
    rw [hrun, update_later ihlast hle, hdt, ihx, run_avg,
      ExponentialMovingAverage.updateDiscreteStates]
    refine ⟨by push_cast; rfl, congrArg some ?_⟩
    ring

theorem repeated_towards {s : RateEstimator} {last x d : ℚ} (hlast : s.last_update_ = some last)
    (hx : s.dt_estimate_ = some x) (hd : 0 < d) (n : ℕ) :
    ∃ y z, (s.run (repeated last d n)).dt_estimate_ = some y ∧
      (s.run (repeated last d (n + 1))).dt_estimate_ = some z ∧
      y = d + (1 - s.avg_.C) ^ n * (x - d) ∧
      (x < d → y < z ∧ z < d) ∧ (x = d → z = d) ∧ (d < x → d < z ∧ z < y) := by
  have hfactor : 0 < (1 - s.avg_.C) ^ n := pow_pos (sub_pos.2 s.avg_.C_lt_one) n
  have hz : d + (1 - s.avg_.C) ^ (n + 1) * (x - d) =
      AffineMap.lineMap (d + (1 - s.avg_.C) ^ n * (x - d)) d s.avg_.C := by
    rw [AffineMap.lineMap_apply_module, smul_eq_mul, smul_eq_mul]
    ring
  refine ⟨_, _, (run_repeated hlast hx hd n).2, (run_repeated hlast hx hd (n + 1)).2, rfl, ?_⟩
  rw [hz]
  refine ⟨fun hlt => ?_, fun heq => by simp [heq], fun hlt => ?_⟩
  · have hy : d + (1 - s.avg_.C) ^ n * (x - d) < d := by
      linarith [mul_neg_of_pos_of_neg hfactor (sub_neg.2 hlt)]
    exact ⟨(left_lt_lineMap_iff_lt s.avg_.C_pos).2 hy, (lineMap_lt_right_iff_lt s.avg_.C_lt_one).2 hy⟩
  · have hy : d < d + (1 - s.avg_.C) ^ n * (x - d) := by
      linarith [mul_pos hfactor (sub_pos.2 hlt)]
    exact ⟨(right_lt_lineMap_iff_lt s.avg_.C_lt_one).2 hy, (lineMap_lt_left_iff_lt s.avg_.C_pos).2 hy⟩

/-! ### Whole runs -/

/-- What is promised of an estimator in the state `s`, when `times` have been accepted and the
estimate started at `dt₀`. -/
structure WithinObserved (s : RateEstimator) (dt₀ : ℚ) (times : List ℚ) : Prop where
  ignored_iff : ∀ now : ℚ,
    s.update (some now) = (false, s) ↔ ∃ last, times.getLast? = some last ∧ now < last
  false_unchanged : ∀ now, (s.update now).1 = false → (s.update now).2 = s
  last_is_max : s.last_update_ = times.getLast? ∧ s.last_update_ = times.max?
  estimate_between : ∃ dt lo hi, s.dt_estimate_ = some dt ∧ 0 < dt ∧
    (dt₀ :: intervals times).min? = some lo ∧ (dt₀ :: intervals times).max? = some hi ∧
    lo ≤ dt ∧ dt ≤ hi ∧ s.estimate = some (1 / dt) ∧ 0 < 1 / dt
  towards : ∀ d > 0, ∀ last ∈ s.last_update_, ∀ x ∈ s.dt_estimate_, ∀ n, ∃ y z,
    (s.run (repeated last d n)).dt_estimate_ = some y ∧
    (s.run (repeated last d (n + 1))).dt_estimate_ = some z ∧
    y = d + (1 - s.avg_.C) ^ n * (x - d) ∧
    (x < d → y < z ∧ z < d) ∧ (x = d → z = d) ∧ (d < x → d < z ∧ z < y)
  estimateAt_eq : ∀ now, s.estimateAt now = (s.update now).2.estimate

theorem Tracks.last_eq_max? {s : RateEstimator} {dt₀ : ℚ} {times : List ℚ}
    (h : s.Tracks dt₀ times) : s.last_update_ = times.max? := by
  cases hlast : s.last_update_ with
  | none =>
    obtain rfl := List.getLast?_eq_none_iff.1 (h.last_eq.symm.trans hlast)
    rfl
  | some last =>
    refine (List.max?_eq_some_iff.2 ⟨?_, fun t ht => h.le_last t ht last hlast⟩).symm
    exact List.mem_of_getLast? (h.last_eq.symm.trans hlast)

theorem Tracks.estimate_between {s : RateEstimator} {dt₀ : ℚ} {times : List ℚ}
    (h : s.Tracks dt₀ times) : ∃ dt lo hi, s.dt_estimate_ = some dt ∧ 0 < dt ∧
      (dt₀ :: intervals times).min? = some lo ∧ (dt₀ :: intervals times).max? = some hi ∧
      lo ≤ dt ∧ dt ≤ hi ∧ s.estimate = some (1 / dt) ∧ 0 < 1 / dt := by
  obtain ⟨dt, hdt, hpos, ⟨lo, hlo, hlodt⟩, ⟨hi, hhi, hdthi⟩⟩ := h.dt_estimate
  obtain ⟨m, hm⟩ := Option.isSome_iff_exists.1 (List.isSome_min?_of_mem hlo)
  obtain ⟨M, hM⟩ := Option.isSome_iff_exists.1 (List.isSome_max?_of_mem hhi)
  have hmlo : m ≤ lo := (List.min?_eq_some_iff.1 hm).2 lo hlo
  have hhiM : hi ≤ M := (List.max?_eq_some_iff.1 hM).2 hi hhi
  refine ⟨dt, m, M, hdt, hpos, hm, hM, hmlo.trans hlodt, hdthi.trans hhiM, ?_, one_div_pos.2 hpos⟩
  simp [estimate, hdt, hpos.ne']

theorem Tracks.withinObserved {s : RateEstimator} {dt₀ : ℚ} {times : List ℚ}
    (h : s.Tracks dt₀ times) : s.WithinObserved dt₀ times where
  ignored_iff now := by rw [update_ignored_iff, h.last_eq]
  false_unchanged now := update_false
  last_is_max := ⟨h.last_eq, h.last_eq_max?⟩
  estimate_between := h.estimate_between
  towards d hd last hlast x hx n := repeated_towards hlast hx hd n
  estimateAt_eq now := rfl

/-- Whatever the calls, the estimate stays within the intervals that were observed. -/
theorem run_withinObserved {C r : ℚ} (hC : 0 < C) (hC1 : C < 1) (hr : 0 < r) :
    ∃ s, make C r = .ok s ∧ s.avg_.C = C ∧
      ∀ nows, (s.run nows).WithinObserved (1 / r) (s.accepted nows) := by
  refine ⟨_, make_ok hC hC1 hr, rfl, fun nows => ?_⟩
  have hstart : Tracks ⟨⟨C, hC, hC1⟩, some (1 / r), none⟩ (1 / r) [] :=
    ⟨rfl, by simp, 1 / r, rfl, one_div_pos.2 hr, ⟨1 / r, by simp, le_rfl⟩, ⟨1 / r, by simp, le_rfl⟩⟩
  exact (hstart.run nows).withinObserved

theorem run_withinObserved_half : ∃ s, make (1 / 2) 1 = .ok s ∧ s.avg_.C = 1 / 2 ∧
    ∀ nows, (s.run nows).WithinObserved (1 / 1) (s.accepted nows) :=
  run_withinObserved (by norm_num) (by norm_num) one_pos

end RateEstimator

end Nanonet
