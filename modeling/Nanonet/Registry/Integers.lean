import Nanonet.Registry.Access
import Nanonet.Lib.Double

/-!
# Integers in the registry

`check_long` of `util.cpp`, the `check_long`, `check_port` and `get_default( long )` of the registry,
and what they do for every double and all bounds. The conversion to `long` has undefined behaviour
where the truncated value does not fit; the comparisons with the bounds let a NaN through, and with
the default maximum, which is rounded up to `2 ^ 63`, that value as well (`checkLong_exact_iff`).
-/

namespace Nanonet

open Double

/-- `std::numeric_limits< long >::min()` as a `double`. -/
def longMin : Double := ofInt Int64.minValue.toInt

/-- `std::numeric_limits< long >::max()` as a `double`. -/
def longMax : Double := ofInt Int64.maxValue.toInt

def staticCastLong (x : Double) : Evaluated Int64 :=
  match x.toInt64 with
  | some n => .returned n
  | none => .undefined

def checkLong (x min max : Double) : Evaluated Int64 :=
  if x < min ∨ max < x then
    .thrown (.runtimeError ("should be between " ++ min.text ++ " and " ++ max.text))
  else
    match staticCastLong x with
    | .returned n =>
      if ¬ (ofInt n.toInt).Equals x then .thrown (.runtimeError "should be an integer")
      else staticCastLong x
    | o => o

namespace Registry

variable (reg : Registry Double) (key : Text)

/-- What `check_long` and `check_port` have in common: the number is checked, and an exception of the
check gets the key and a context in front. -/
def checkLongIn (context : String) (min max : Double) : Evaluated Int64 :=
  match reg.get Double key with
  | .error e => .thrown e
  | .ok d =>
    match Nanonet.checkLong d min max with
    | .thrown e =>
      match reg.definedAt key with
      | .error e' => .thrown e'
      | .ok at_ => .thrown (e.within (String.ofList key ++ " " ++ at_ ++ ": " ++ context))
    | o => o

def checkLong (min : Double := longMin) (max : Double := longMax) : Evaluated Int64 :=
  reg.checkLongIn key "" min max

def checkPort : Evaluated Int64 :=
  reg.checkLongIn key "not a valid TCP/UDP port value: " (ofInt 0) (ofInt 65535)

def getDefaultLong (default_value : Int64) (min : Double := longMin) (max : Double := longMax) :
    Evaluated Int64 :=
  if ¬ reg.isDefined key then .returned default_value else reg.checkLong key min max

end Registry

/-! ### The range check -/

/-- A number that is an integer between the bounds. -/
structure IntegerWithin (x min max : Double) (n : Int64) : Prop where
  value : x.value = some (Extended.ofRat n.toInt)
  lower : ∃ a ∈ min.value, a ≤ Extended.ofRat n.toInt
  upper : ∃ a ∈ max.value, Extended.ofRat n.toInt ≤ a

/-- The call is defined, and it returns the integers between the bounds and throws elsewhere. -/
structure RangeChecked (x min max : Double) (o : Evaluated Int64) : Prop where
  defined : o ≠ .undefined
  returns : ∀ n, o = .returned n ↔ IntegerWithin x min max n
  throws : (∀ n, ¬ IntegerWithin x min max n) → ∃ e, o = .thrown e

/-- The number is outside of the bounds, or it fits a `long` and, where it is an integer, the bounds
are numbers. -/
def Checkable (x min max : Double) : Prop :=
  x.value ≠ none ∧ (x < min ∨ max < x ∨
    x.FitsInt64 ∧ ((∃ n : ℤ, x.toRat = n) → min.value ≠ none ∧ max.value ≠ none))

theorem rangeChecked_thrown {x min max : Double} (e : Exn) :
    RangeChecked x min max (.thrown e) ↔ ∀ n, ¬ IntegerWithin x min max n := by
  refine ⟨fun h n hn => ?_, fun h => ⟨nofun, fun n => iff_of_false nofun (h n), fun _ => ⟨e, rfl⟩⟩⟩
  cases (h.returns n).2 hn

theorem not_outside {x min max : Double} {a : Extended} (hx : x.value = some a)
    (h : ¬ (x < min ∨ max < x)) : (∀ b ∈ min.value, b ≤ a) ∧ ∀ b ∈ max.value, a ≤ b := by
  constructor
  · exact fun b hb => not_lt.1 fun hlt => h (.inl ⟨a, hx, b, hb, hlt⟩)
  · exact fun b hb => not_lt.1 fun hlt => h (.inr ⟨b, hb, a, hx, hlt⟩)

theorem IntegerWithin.not_outside {x min max : Double} {n : Int64} (h : IntegerWithin x min max n) :
    ¬ (x < min ∨ max < x) := by
  obtain ⟨hx, ⟨low, hlow, hle⟩, ⟨high, hhigh, hge⟩⟩ := h
  rintro (⟨a, ha, b, hb, hlt⟩ | ⟨b, hb, a, ha, hlt⟩)
  · obtain rfl := Option.mem_unique ha hx
    obtain rfl := Option.mem_unique hb hlow
    exact not_lt.2 hle hlt
  · obtain rfl := Option.mem_unique ha hx
    obtain rfl := Option.mem_unique hb hhigh
    exact not_lt.2 hge hlt

theorem IntegerWithin.toRat {x min max : Double} {n : Int64} (h : IntegerWithin x min max n) :
    x.toRat = n.toInt := toRat_of_value h.value

theorem integerWithin_iff {x min max : Double} {n : Int64}
    (hx : x.value = some (Extended.ofRat n.toInt)) (h : ¬ (x < min ∨ max < x)) :
    IntegerWithin x min max n ↔ min.value ≠ none ∧ max.value ≠ none := by
  obtain ⟨hlower, hupper⟩ := not_outside hx h
  constructor
  · rintro ⟨-, ⟨low, hlow, -⟩, ⟨high, hhigh, -⟩⟩
    simp [Option.mem_def.1 hlow, Option.mem_def.1 hhigh]
  · rintro ⟨hmin, hmax⟩
    obtain ⟨low, hlow⟩ := Option.ne_none_iff_exists'.1 hmin
    obtain ⟨high, hhigh⟩ := Option.ne_none_iff_exists'.1 hmax
    exact ⟨hx, ⟨low, hlow, hlower low hlow⟩, ⟨high, hhigh, hupper high hhigh⟩⟩

theorem checkLong_of_fits {x min max : Double} (hfits : x.FitsInt64)
    (hin : ¬ (x < min ∨ max < x)) : ∃ n : Int64, truncate x.toRat = n.toInt ∧
      x.value = some (Extended.ofRat x.toRat) ∧ checkLong x min max =
        if x.toRat = n.toInt then .returned n
        else .thrown (.runtimeError "should be an integer") := by
  obtain ⟨n, htoInt64, hvalue, htruncate, hback⟩ := toInt64_of_fits hfits
  have hequals : (ofInt n.toInt).Equals x ↔ x.toRat = n.toInt := by
    simp [Equals, hback, hvalue, eq_comm]
  refine ⟨n, htruncate, hvalue, ?_⟩
  rw [checkLong, if_neg hin, staticCastLong, htoInt64]
  simp only [hequals, ite_not]

theorem rangeChecked_iff (x min max : Double) :
    RangeChecked x min max (checkLong x min max) ↔ Checkable x min max := by
  by_cases hout : x < min ∨ max < x
  · have hthrown : checkLong x min max = .thrown (.runtimeError
        ("should be between " ++ min.text ++ " and " ++ max.text)) := if_pos hout
    have hnumber : x.value ≠ none := by
      obtain ⟨a, ha, -⟩ | ⟨-, -, a, ha, -⟩ := hout <;> simp [Option.mem_def.1 ha]
    have hnot : ∀ n, ¬ IntegerWithin x min max n := fun n hn => hn.not_outside hout
    rw [hthrown, rangeChecked_thrown]
    exact iff_of_true hnot ⟨hnumber, hout.imp_right .inl⟩
  · by_cases hfits : x.FitsInt64
    · obtain ⟨n, htruncate, hvalue, hcheck⟩ := checkLong_of_fits hfits hout
      have hn : ∀ k : Int64, x.toRat = k.toInt → n = k := fun k hk => by
        rw [hk, truncate_intCast] at htruncate
        exact Int64.toInt_inj.1 htruncate.symm
      by_cases hint : x.toRat = n.toInt
      · have hwithin := integerWithin_iff (hint ▸ hvalue) hout
        rw [if_pos hint] at hcheck
        rw [hcheck]
        constructor
        · intro h
          have hbounds := hwithin.1 ((h.returns n).1 rfl)
          exact ⟨by simp [hvalue], .inr (.inr ⟨hfits, fun _ => hbounds⟩)⟩
        · rintro ⟨-, hbounds⟩
          have hbounds := (or_assoc.2 hbounds).resolve_left hout
          have hreturned := hwithin.2 (hbounds.2 ⟨_, hint⟩)
          refine ⟨nofun, fun k => ⟨?_, fun hk => by rw [hn k hk.toRat]⟩, fun hno => ?_⟩
          · rintro ⟨⟩
            exact hreturned
          · exact absurd hreturned (hno n)
      · have hnot : ∀ k, ¬ IntegerWithin x min max k := fun k hk =>
          hint (hn k hk.toRat ▸ hk.toRat)
        rw [if_neg hint] at hcheck
        rw [hcheck, rangeChecked_thrown]
        refine iff_of_true hnot ⟨by simp [hvalue], .inr (.inr ⟨hfits, fun ⟨k, hk⟩ => ?_⟩)⟩
        rw [hk, truncate_intCast] at htruncate
        exact absurd (htruncate ▸ hk) hint
    · have hundefined : checkLong x min max = .undefined := by
        rw [checkLong, if_neg hout, staticCastLong, toInt64_of_not_fits hfits]
      rw [hundefined]
      refine iff_of_false (fun h => h.defined rfl) ?_
      rintro ⟨-, hlt | hlt | ⟨hfits', -⟩⟩
      · exact hout (.inl hlt)
      · exact hout (.inr hlt)
      · exact hfits hfits'

section stored

variable {reg : Registry Double} {key : Text} {x : Double} {at_ : String}

theorem checkLongIn_iff (h : reg.kvMap key = some ⟨.num x, at_⟩) (context : String)
    (min max : Double) :
    RangeChecked x min max (reg.checkLongIn key context min max) ↔ Checkable x min max := by
  have hget : reg.get Double key = .ok x := by
    simp [Registry.get, Registry.getAny, h, convert, Held.anyCast, Value.any, bind, Except.bind,
      pure, Except.pure]
  have hdefinedAt : reg.definedAt key = .ok at_ := by simp [Registry.definedAt, h]
  simp only [Registry.checkLongIn, hget, hdefinedAt]
  rw [← rangeChecked_iff]
  cases checkLong x min max with
  | thrown e => rw [rangeChecked_thrown, rangeChecked_thrown]
  | _ => rfl

end stored

theorem checkable_iff {x min max : Double} {low high : ℚ}
    (hmin : min.value = some (Extended.ofRat low)) (hmax : max.value = some (Extended.ofRat high)) :
    Checkable x min max ↔ x.value ≠ none ∧
      ∀ q : ℚ, x.value = some (Extended.ofRat q) → low ≤ q → q ≤ high → x.FitsInt64 := by
  refine and_congr_right fun hnumber => ?_
  obtain ⟨a, ha⟩ := Option.ne_none_iff_exists'.1 hnumber
  have hmin' : min.value ≠ none := by simp [hmin]
  have hmax' : max.value ≠ none := by simp [hmax]
  simp only [lt_iff ha hmin, lt_iff hmax ha, ha, hmin', hmax', ne_eq, not_false_iff, and_self,
    implies_true, and_true, Option.some.injEq]
  cases a using WithBot.recBotCoe with
  | bot => simp [Extended.ofRat]
  | coe a =>
    cases a using WithTop.recTopCoe with
    | top =>
      have hlt : Extended.ofRat high < ⊤ :=
        WithBot.coe_lt_coe.2 (WithTop.coe_lt_top high)
      simp [hlt]
    | coe q =>
      simp only [Extended.ofRat, WithBot.coe_lt_coe, WithTop.coe_lt_coe, WithBot.coe_inj,
        WithTop.coe_inj, forall_eq']
      constructor
      · rintro (hlt | hlt | hfits) hlow hhigh
        · exact absurd hlt (not_lt.2 hlow)
        · exact absurd hlt (not_lt.2 hhigh)
        · exact hfits
      · intro h
        by_cases hlow : q < low
        · exact .inl hlow
        · by_cases hhigh : high < q
          · exact .inr (.inl hhigh)
          · exact .inr (.inr (h (not_lt.1 hlow) (not_lt.1 hhigh)))

theorem value_longMin : longMin.value = some (Extended.ofRat (-2 ^ 63)) := by decide +kernel

theorem value_longMax : longMax.value = some (Extended.ofRat (2 ^ 63)) := by decide +kernel

theorem checkable_long_iff (x : Double) : Checkable x longMin longMax ↔
    x.value ≠ none ∧ x.value ≠ some (Extended.ofRat (2 ^ 63)) := by
  rw [checkable_iff value_longMin value_longMax]
  refine and_congr_right fun _ => ⟨fun h hx => ?_, fun h q hx hlow hhigh => ?_⟩
  · have hfits := (fitsInt64_iff hx).1 (h _ hx (by norm_num) le_rfl)
    have htruncate := truncate_intCast (2 ^ 63)
    rw [Int.cast_pow, Int.cast_ofNat] at htruncate
    rw [htruncate] at hfits
    exact lt_irrefl _ hfits.2
  · refine .of_mem hx hlow (lt_of_le_of_ne hhigh fun heq => h ?_)
    rw [hx, heq]

theorem checkable_port_iff (x : Double) :
    Checkable x (ofInt 0) (ofInt 65535) ↔ x.value ≠ none := by
  have hmin : (ofInt 0).value = some (Extended.ofRat 0) := by decide +kernel
  have hmax : (ofInt 65535).value = some (Extended.ofRat 65535) := by decide +kernel
  rw [checkable_iff hmin hmax]
  refine and_iff_left fun q hx hlow hhigh => .of_mem hx ?_ ?_
  · linarith
  · linarith

/-- **Range check before conversion.** The check does what it should iff the number is no NaN and is
outside of the bounds, or fits a `long` and no bound of an integer is a NaN. With the default bounds
that leaves out NaN and `2 ^ 63`, and with those of a port NaN. -/
theorem rangeChecked_registry_iff {reg : Registry Double} {key : Text} {x : Double} {at_ : String}
    (h : reg.kvMap key = some ⟨.num x, at_⟩) (default_value : Int64) :
    (∀ min max, RangeChecked x min max (reg.checkLong key min max) ↔ Checkable x min max) ∧
    (∀ min max, RangeChecked x min max (reg.getDefaultLong key default_value min max) ↔
      Checkable x min max) ∧
    (RangeChecked x longMin longMax (reg.checkLong key) ↔
      x.value ≠ none ∧ x.value ≠ some (Extended.ofRat (2 ^ 63))) ∧
    (RangeChecked x longMin longMax (reg.getDefaultLong key default_value) ↔
      x.value ≠ none ∧ x.value ≠ some (Extended.ofRat (2 ^ 63))) ∧
    (RangeChecked x (ofInt 0) (ofInt 65535) (reg.checkPort key) ↔ x.value ≠ none) := by
  have hcheck : ∀ min max, RangeChecked x min max (reg.checkLong key min max) ↔
      Checkable x min max := checkLongIn_iff h ""
  have hdefault : ∀ min max, reg.getDefaultLong key default_value min max =
      reg.checkLong key min max := fun min max => by
    simp [Registry.getDefaultLong, Registry.isDefined, h]
  refine ⟨hcheck, fun min max => ?_, ?_, ?_, ?_⟩
  · rw [hdefault]
    exact hcheck min max
  · exact (hcheck _ _).trans (checkable_long_iff x)
  · rw [hdefault]
    exact (hcheck _ _).trans (checkable_long_iff x)
  · exact (checkLongIn_iff h _ _ _).trans (checkable_port_iff x)

def oneNumber (key : Text) (x : Double) : Registry Double := Registry.empty.define key ⟨.num x, ""⟩

theorem rangeChecked_registry_iff_seven :
    RangeChecked (ofInt 7) longMin longMax ((oneNumber ['a'] (ofInt 7)).checkLong ['a']) := by
  have h : (oneNumber ['a'] (ofInt 7)).kvMap ['a'] = some ⟨.num (ofInt 7), ""⟩ := rfl
  refine (rangeChecked_registry_iff h 0).2.2.1.2 ?_
  have hvalue : (ofInt 7).value = some (Extended.ofRat 7) := by decide +kernel
  rw [hvalue]
  refine ⟨Option.some_ne_none _, fun heq => ?_⟩
  have h7 : (7 : ℚ) = 2 ^ 63 := WithTop.coe_injective (WithBot.coe_injective (Option.some.inj heq))
  norm_num at h7

/-- With the default bounds `2 ^ 63` is within them, and its conversion is undefined. -/
theorem checkLong_undefined : let reg := oneNumber ['a'] (ofInt (2 ^ 63))
    reg.checkLong ['a'] = .undefined ∧ reg.getDefaultLong ['a'] 0 = .undefined ∧
      ¬ RangeChecked (ofInt (2 ^ 63)) longMin longMax (reg.checkLong ['a']) := by
  have hundefined : (oneNumber ['a'] (ofInt (2 ^ 63))).checkLong ['a'] = .undefined := by
    decide +kernel
  exact ⟨hundefined, by decide +kernel, fun h => h.defined hundefined⟩

end Nanonet
