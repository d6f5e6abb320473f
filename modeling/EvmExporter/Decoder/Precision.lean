import EvmExporter.Config.BytesArgs
import EvmExporter.Lib.Rounding

/-! The precision-loss flag. The decoder converts the decimal quotient to `f64` and back and
compares. The division has rounded before that, and the comparison does not see it: a quotient
that is no decimal of the format is emitted unflagged whenever what it is rounded to survives
the conversion, as zero does, and every decimal that is tiny or an integer of few digits. -/

namespace EvmExporter

open Lib Reference

variable {d : Deps}

/-! ### Decimals -/

/-- The format of `rust_decimal`. -/
def decimalFormat : Format := ⟨10, by decide, 28, 2 ^ 96⟩

theorem decimalFormat_has_iff {r : ℚ} : decimalFormat.Has r ↔ ∃ x : Decimal, x.value = r := by
  constructor
  · rintro ⟨m, k, hm, hk, rfl⟩
    exact ⟨⟨m, k, hm, hk⟩, rfl⟩
  · rintro ⟨x, rfl⟩
    exact ⟨x.mantissa, x.scale, x.mantissa_lt, x.scale_le, rfl⟩

theorem Decimal.value_eq_zero_iff {x : Decimal} : x.value = 0 ↔ x.mantissa = 0 := by
  simp [Decimal.value]

/-- There is room for the values of decimals, and for their neighbours. -/
theorem Decimal.abs_value_lt (x : Decimal) : |x.value| + 1 / 2 < 2 ^ 96 := by
  have hpow : (1 : ℚ) ≤ 10 ^ x.scale := one_le_pow₀ (by norm_num)
  have hle : |x.value| ≤ |(x.mantissa : ℚ)| := by
    rw [Decimal.value, abs_div, abs_of_pos (zero_lt_one.trans_le hpow)]
    exact div_le_self (abs_nonneg _) hpow
  have hlt : (x.mantissa.natAbs : ℚ) + 1 ≤ 2 ^ 96 := by exact_mod_cast x.mantissa_lt
  rw [Nat.cast_natAbs, Int.cast_abs] at hlt
  linarith

/-- Tiny numbers, which have at most fifteen digits among the places of the format, and the
integers of at most fifteen digits. -/
def Short (r : ℚ) : Prop := |r| < 1 / 10 ^ 13 ∨ ∃ n : ℤ, n.natAbs < 10 ^ 15 ∧ r = n

/-- Integers are read exactly, if there is room for them; a quotient is rounded to the format, if
there is room for it; a short decimal survives conversion to `f64` and back. -/
structure FloatLibrary.RoundsDecimals (lib : FloatLibrary) : Prop where
  fromStr_value : ∀ (v : ℤ) x, lib.decimalFromStr (toString v) = some x → x.value = v
  fromStr_fits : ∀ v : ℤ, v.natAbs < 2 ^ 96 → ∃ x, lib.decimalFromStr (toString v) = some x
  div_rounds : ∀ x y q, y.value ≠ 0 → lib.checkedDiv x y = some q →
    decimalFormat.Rounds (x.value / y.value) q.value
  div_fits : ∀ x y : Decimal, y.value ≠ 0 → |x.value / y.value| + 1 / 2 < 2 ^ 96 →
    ∃ q, lib.checkedDiv x y = some q
  roundTrip : ∀ x : Decimal, Short x.value → ∃ f back, lib.decimalToF64 x = some f ∧
    lib.decimalFromF64 f = some back ∧ back.value = x.value

/-! ### Short quotients -/

/-- The numbers that are rounded to short decimals. -/
def NearShort (r : ℚ) : Prop :=
  |r| < 1 / 10 ^ 14 ∨ ∃ n : ℤ, n.natAbs < 10 ^ 15 ∧ |r - n| < 1 / (2 * 10 ^ 28)

theorem NearShort.abs_lt {r : ℚ} (hr : NearShort r) : |r| + 1 / 2 < 2 ^ 96 := by
  rcases hr with hr | ⟨n, hn, hr⟩
  · linarith
  · have hcast : |(n : ℚ)| < 10 ^ 15 := by
      rw [← Int.cast_abs, ← Nat.cast_natAbs]
      exact_mod_cast hn
    have htri : |r| ≤ |r - n| + |(n : ℚ)| := by simpa using abs_add_le (r - n) n
    norm_num at hr hcast ⊢
    linarith

/-- A tiny number has all the places of the format. -/
theorem places_eq_of_tiny {r : ℚ} (hr : |r| < 1 / 10 ^ 14) {m : ℤ} {k : ℕ}
    (hat : decimalFormat.RoundsAt r m k) : k = 28 := by
  have hle : k ≤ 28 := hat.places_le
  refine hat.most.resolve_right fun hroom => ?_
  have hbound : (2 : ℚ) ^ 96 ≤ |r| * 10 ^ (k + 1) + 1 / 2 := by exact_mod_cast hroom
  have hpow : (10 : ℚ) ^ (k + 1) ≤ 10 ^ 29 := pow_le_pow_right₀ (by norm_num) (by omega)
  have hmul : |r| * 10 ^ (k + 1) ≤ 1 / 10 ^ 14 * 10 ^ 29 :=
    mul_le_mul hr.le hpow (by positivity) (by positivity)
  norm_num at hbound hmul
  linarith

theorem NearShort.short {r q : ℚ} (hr : NearShort r) (h : decimalFormat.Rounds r q) : Short q := by
  rcases hr with hr | ⟨n, hn, hnear⟩
  · obtain ⟨m, k, hat, rfl⟩ := h
    have hnearest : |r * 10 ^ k - m| ≤ 1 / 2 := hat.nearest
    rw [places_eq_of_tiny hr hat] at hnearest ⊢
    have hpos : (0 : ℚ) < 10 ^ 28 := by positivity
    have hm : |(m : ℚ)| ≤ |r| * 10 ^ 28 + 1 / 2 := by
      calc |(m : ℚ)| = |r * 10 ^ 28 - (r * 10 ^ 28 - m)| := by rw [sub_sub_cancel]
        _ ≤ |r * 10 ^ 28| + |r * 10 ^ 28 - m| := abs_sub _ _
        _ ≤ |r| * 10 ^ 28 + 1 / 2 := by
          rw [abs_mul, abs_of_pos hpos]
          gcongr
    have hlt : |(m : ℚ)| < 1 / 10 ^ 13 * 10 ^ 28 := by
      have hscaled := mul_lt_mul_of_pos_right hr hpos
      norm_num at hm hscaled ⊢
      linarith
    left
    change |(m : ℚ) / 10 ^ 28| < 1 / 10 ^ 13
    rw [abs_div, abs_of_pos hpos, div_lt_iff₀ hpos]
    exact hlt
  · have hscaled : |r - n| * (10 : ℚ) ^ 28 < 1 / 2 := by
      have hmul := mul_lt_mul_of_pos_right hnear (show (0 : ℚ) < 10 ^ 28 by positivity)
      norm_num at hmul ⊢
      linarith
    exact .inr ⟨n, hn, h.eq_int hscaled⟩

/-! ### The flag -/

/-- Conversion of the decimal to `f64` and back returns its value. -/
def Decimal.Survives (d : Deps) (q : Decimal) : Prop :=
  ∃ back, d.decimalFromF64 ((d.decimalToF64 q).getD .nan) = some back ∧ back.value = q.value

/-- What is emitted unflagged is a quotient that survives the conversion. -/
theorem scaleDecimal_unflagged_iff {text : String} {scale f : F64} :
    scaleDecimal d text scale = (f, false) ↔ ∃ q, decimalQuotient d text scale = some q ∧
      f = (d.decimalToF64 q).getD .nan ∧ q.Survives d := by
  unfold scaleDecimal
  cases hq : decimalQuotient d text scale with
  | none => simp
  | some q =>
    simp only [Decimal.Survives, Option.some.injEq, exists_eq_left', Prod.mk.injEq,
      eq_comm (a := f)]
    refine and_congr_right fun _ => ?_
    cases d.decimalFromF64 ((d.decimalToF64 q).getD .nan) <;> simp

/-- If a value is emitted unflagged, the decimal quotient behind it is exact. -/
def UnflaggedExact (d : Deps) (v : ℤ) (scale : F64) (s : Decimal) : Prop :=
  ∀ f, scaleDecimal d (toString v) scale = (f, false) →
    ∃ q, decimalQuotient d (toString v) scale = some q ∧ f = (d.decimalToF64 q).getD .nan ∧
      q.value = v / s.value

section Quotient

variable {scale : F64} {s : Decimal} (hs : d.decimalFromF64 scale = some s) (hne : s.value ≠ 0)
include hs hne

theorem decimalQuotient_eq_some {v : ℤ} {q : Decimal} :
    decimalQuotient d (toString v) scale = some q ↔
      ∃ x, d.decimalFromStr (toString v) = some x ∧ d.checkedDiv x s = some q := by
  have hmantissa : s.mantissa ≠ 0 := mt Decimal.value_eq_zero_iff.mpr hne
  simp [decimalQuotient, hs, hmantissa, Option.bind_eq_some_iff]

theorem decimalQuotient_rounds (hlib : d.RoundsDecimals) {v : ℤ} {q : Decimal}
    (hq : decimalQuotient d (toString v) scale = some q) :
    decimalFormat.Rounds (v / s.value) q.value := by
  obtain ⟨x, hx, hdiv⟩ := (decimalQuotient_eq_some hs hne).mp hq
  rw [← hlib.fromStr_value v x hx]
  exact hlib.div_rounds x s q hne hdiv

theorem exists_decimalQuotient (hlib : d.RoundsDecimals) {v : ℤ} (hv : v.natAbs < 2 ^ 96)
    (hfits : |v / s.value| + 1 / 2 < 2 ^ 96) :
    ∃ q, decimalQuotient d (toString v) scale = some q := by
  obtain ⟨x, hx⟩ := hlib.fromStr_fits v hv
  rw [← hlib.fromStr_value v x hx] at hfits
  obtain ⟨q, hq⟩ := hlib.div_fits x s hne hfits
  exact ⟨q, (decimalQuotient_eq_some hs hne).mpr ⟨x, hx, hq⟩⟩

/-- What has no room is flagged. -/
theorem decimalQuotient_eq_none (hlib : d.RoundsDecimals) {v : ℤ}
    (h : 2 ^ 96 ≤ v.natAbs ∨ 2 ^ 96 ≤ |v / s.value|) :
    decimalQuotient d (toString v) scale = none := by
  rw [Option.eq_none_iff_forall_ne_some]
  intro q hq
  rcases h with hv | hlarge
  · obtain ⟨x, hx, -⟩ := (decimalQuotient_eq_some hs hne).mp hq
    have hlt := x.abs_value_lt
    rw [hlib.fromStr_value v x hx, ← Int.cast_abs, ← Nat.cast_natAbs] at hlt
    have hv : (2 : ℚ) ^ 96 ≤ v.natAbs := by exact_mod_cast hv
    linarith
  · have hlt := (decimalQuotient_rounds hs hne hlib hq).abs_lt
    exact absurd hlt (not_lt.mpr (by exact_mod_cast hlarge))

/-- A quotient near a short decimal survives. -/
theorem exists_surviving_quotient (hlib : d.RoundsDecimals) {v : ℤ} (hv : v.natAbs < 2 ^ 96)
    (hnear : NearShort (v / s.value)) :
    ∃ q, decimalQuotient d (toString v) scale = some q ∧ q.Survives d := by
  obtain ⟨q, hq⟩ := exists_decimalQuotient hs hne hlib hv hnear.abs_lt
  obtain ⟨f, back, hf, hback, hvalue⟩ :=
    hlib.roundTrip q (hnear.short (decimalQuotient_rounds hs hne hlib hq))
  refine ⟨q, hq, ?_⟩
  rw [Decimal.Survives, hf]
  exact ⟨back, hback, hvalue⟩

/-- An unflagged value is exact if the quotient is a decimal of the format, or if there is no
room for the value or for the quotient, which flags it. Of the quotients near a short decimal
there are no others. -/
theorem unflagged_exact_iff (hlib : d.RoundsDecimals) (v : ℤ) :
    (decimalFormat.Has (v / s.value) ∨ 2 ^ 96 ≤ v.natAbs ∨ 2 ^ 96 ≤ |v / s.value| →
      UnflaggedExact d v scale s) ∧
    (NearShort (v / s.value) → (UnflaggedExact d v scale s ↔
      decimalFormat.Has (v / s.value) ∨ 2 ^ 96 ≤ v.natAbs ∨ 2 ^ 96 ≤ |v / s.value|)) := by
  have henough : decimalFormat.Has (v / s.value) ∨ 2 ^ 96 ≤ v.natAbs ∨ 2 ^ 96 ≤ |v / s.value| →
      UnflaggedExact d v scale s := by
    intro h f hf
    obtain ⟨q, hq, hfq, -⟩ := scaleDecimal_unflagged_iff.mp hf
    rcases h with hhas | hlarge
    · exact ⟨q, hq, hfq, (decimalQuotient_rounds hs hne hlib hq).eq_of_has hhas⟩
    · rw [decimalQuotient_eq_none hs hne hlib hlarge] at hq
      cases hq
  refine ⟨henough, fun hnear => ⟨fun h => ?_, henough⟩⟩
  by_cases hv : v.natAbs < 2 ^ 96
  · obtain ⟨q, hq, hsurvives⟩ := exists_surviving_quotient hs hne hlib hv hnear
    obtain ⟨q', hq', -, hvalue⟩ := h _ (scaleDecimal_unflagged_iff.mpr ⟨q, hq, rfl, hsurvives⟩)
    exact .inl ((decimalQuotient_rounds hs hne hlib hq').eq_iff.mp hvalue)
  · exact .inr (.inl (not_lt.mp hv))

end Quotient

/-! ### Decimals that round -/

namespace Reference

theorem decimalFromStr_toString (v : ℤ) : decimalFromStr (toString v) = decimalOfInt v := by
  unfold decimalFromStr
  cases v with
  | ofNat n =>
    rw [Int.ofNat_eq_natCast, toString_natCast_toList]
    split
    next cs h =>
      have hdigit := Nat.isDigit_of_mem_toDigits (c := '-') (by decide) (by decide)
        (h ▸ List.mem_cons_self)
      exact absurd hdigit (by decide)
    next => rw [natOfText_toDigits, Option.bind_some]
  | negSucc n =>
    rw [toString_negSucc_toList]
    simp only [natOfText_toDigits, Option.bind_some]
    rfl

theorem decimalOfInt_value {v : ℤ} {x : Decimal} (h : decimalOfInt v = some x) : x.value = v := by
  unfold decimalOfInt at h
  split_ifs at h
  obtain rfl := Option.some.inj h
  simp [Decimal.value]

/-- A rational rounded to the format. -/
def roundDecimal (r : ℚ) : Option Decimal :=
  match h : decimalFormat.roundFrom r 28 with
  | some (m, k) =>
    some ⟨m, k, (Format.roundFrom_eq_some h).1, (Format.roundFrom_eq_some h).2.1⟩
  | none => none

theorem roundDecimal_rounds {r : ℚ} {q : Decimal} (h : roundDecimal r = some q) :
    decimalFormat.Rounds r q.value := by
  unfold roundDecimal at h
  split at h
  next m k hround =>
    obtain rfl := Option.some.inj h
    exact ⟨m, k, Format.roundFrom_roundsAt hround, rfl⟩
  next => cases h

theorem exists_roundDecimal {r : ℚ} (h : |r| + 1 / 2 < 2 ^ 96) : ∃ q, roundDecimal r = some q := by
  have hbound : |r| + 1 / 2 < decimalFormat.bound := h.trans_eq (by norm_num [decimalFormat])
  obtain ⟨⟨m, k⟩, hround⟩ := Format.exists_roundFrom hbound 28
  unfold roundDecimal
  split
  next => exact ⟨_, rfl⟩
  next hnone => cases hround.symm.trans hnone

/-- Every decimal is rounded to its own value. -/
theorem roundDecimal_value (x : Decimal) :
    ∃ back, roundDecimal x.value = some back ∧ back.value = x.value := by
  obtain ⟨back, hback⟩ := exists_roundDecimal x.abs_value_lt
  have hhas : decimalFormat.Has x.value := decimalFormat_has_iff.mpr ⟨x, rfl⟩
  exact ⟨back, hback, (roundDecimal_rounds hback).eq_of_has hhas⟩

/-- The libraries with a division that rounds and a conversion from `f64` that takes every
decimal. -/
def rounding : Deps :=
  { reference with
    checkedDiv := fun x y => if y.mantissa = 0 then none else roundDecimal (x.value / y.value)
    decimalFromF64 := fun
      | .finite q => roundDecimal q
      | _ => none }

theorem roundsDecimals : rounding.toFloatLibrary.RoundsDecimals := by
  constructor
  · intro v x hx
    exact decimalOfInt_value ((decimalFromStr_toString v).symm.trans hx)
  · intro v hv
    exact ⟨_, (decimalFromStr_toString v).trans (dif_pos hv)⟩
  · intro x y q hne hq
    change (if y.mantissa = 0 then none else roundDecimal (x.value / y.value)) = some q at hq
    rw [if_neg (mt Decimal.value_eq_zero_iff.mpr hne)] at hq
    exact roundDecimal_rounds hq
  · intro x y hne hfits
    obtain ⟨q, hq⟩ := exists_roundDecimal hfits
    exact ⟨q, (if_neg (mt Decimal.value_eq_zero_iff.mpr hne)).trans hq⟩
  · intro x _
    obtain ⟨back, hback, hvalue⟩ := roundDecimal_value x
    exact ⟨_, back, rfl, hback, hvalue⟩

end Reference

/-- One over 2^95 is rounded to zero, which is emitted unflagged. -/
theorem tiny_quotient_unflagged :
    ∃ s, rounding.decimalFromF64 (.finite (2 ^ 95)) = some s ∧
      scaleDecimal rounding (toString (1 : ℤ)) (.finite (2 ^ 95)) = (.zero, false) ∧
      ∃ q, decimalQuotient rounding (toString (1 : ℤ)) (.finite (2 ^ 95)) = some q ∧
        q.value = 0 ∧ ((1 : ℤ) : ℚ) / s.value ≠ 0 := by
  have hscale : (rounding.decimalFromF64 (.finite (2 ^ 95))).map Decimal.value = some (2 ^ 95) := by
    decide +kernel
  have hquotient : (decimalQuotient rounding (toString (1 : ℤ)) (.finite (2 ^ 95))).map
      Decimal.value = some 0 := by decide +kernel
  have hflag : scaleDecimal rounding (toString (1 : ℤ)) (.finite (2 ^ 95)) = (.zero, false) := by
    decide +kernel
  obtain ⟨s, hs, hvalue⟩ := Option.map_eq_some_iff.mp hscale
  obtain ⟨q, hq, hzero⟩ := Option.map_eq_some_iff.mp hquotient
  refine ⟨s, hs, hflag, q, hq, hzero, ?_⟩
  rw [hvalue]
  norm_num

theorem tiny_not_has : ¬ decimalFormat.Has ((1 : ℤ) / 2 ^ 95) := by
  rintro ⟨m, k, -, hk, heq⟩
  have hle : k ≤ 28 := hk
  have hbase : (decimalFormat.base : ℚ) = 10 := by norm_num [decimalFormat]
  have hpow : (10 : ℚ) ^ k ≤ 10 ^ 28 := pow_le_pow_right₀ (by norm_num) hle
  have hpos : (0 : ℚ) < 10 ^ k := by positivity
  rw [hbase, div_eq_div_iff (by positivity) hpos.ne', Int.cast_one, one_mul] at heq
  have hm : (0 : ℚ) < m := by
    by_contra hneg
    have hle : (m : ℚ) * 2 ^ 95 ≤ 0 := mul_nonpos_of_nonpos_of_nonneg (not_lt.mp hneg) (by positivity)
    linarith
  have hone : (1 : ℚ) ≤ m := by
    have hint : 0 < m := by exact_mod_cast hm
    exact_mod_cast hint
  have hlarge : (2 : ℚ) ^ 95 ≤ m * 2 ^ 95 := le_mul_of_one_le_left (by positivity) hone
  have hlt : (10 : ℚ) ^ 28 < 2 ^ 95 := by norm_num
  linarith

/-- One half is a decimal and exact; one over 2^95 is not, and is neither exact nor flagged. -/
theorem half_exact_tiny_inexact :
    ∃ s t, rounding.decimalFromF64 (.finite 2) = some s ∧
      rounding.decimalFromF64 (.finite (2 ^ 95)) = some t ∧
      UnflaggedExact rounding 1 (.finite 2) s ∧ ¬ UnflaggedExact rounding 1 (.finite (2 ^ 95)) t := by
  have hscales : (rounding.decimalFromF64 (.finite 2)).map Decimal.value = some 2 ∧
      (rounding.decimalFromF64 (.finite (2 ^ 95))).map Decimal.value = some (2 ^ 95) := by
    decide +kernel
  obtain ⟨s, hs, hsvalue⟩ := Option.map_eq_some_iff.mp hscales.1
  obtain ⟨t, ht, htvalue⟩ := Option.map_eq_some_iff.mp hscales.2
  have hs0 : s.value ≠ 0 := by simp [hsvalue]
  have ht0 : t.value ≠ 0 := by simp [htvalue]
  have hhalf : decimalFormat.Has ((1 : ℤ) / s.value) :=
    ⟨5, 1, by decide, by decide, by norm_num [hsvalue, decimalFormat]⟩
  have htiny : |((1 : ℤ) : ℚ) / t.value| < 1 / 10 ^ 14 := by
    rw [htvalue, abs_of_pos (by norm_num)]
    norm_num
  have hiff := (unflagged_exact_iff ht ht0 roundsDecimals 1).2 (.inl htiny)
  refine ⟨s, t, hs, ht, (unflagged_exact_iff hs hs0 roundsDecimals 1).1 (.inl hhalf), ?_⟩
  rw [hiff]
  rintro (hhas | hlarge | hlarge)
  · exact tiny_not_has (htvalue ▸ hhas)
  · exact absurd hlarge (by decide)
  · linarith

end EvmExporter
