import Mathlib.Algebra.Order.Round
import Mathlib.Data.Rat.Floor
import Mathlib.Tactic.Linarith
import Mathlib.Tactic.Positivity

/-! Fixed-point formats: the numbers of a bounded mantissa and a bounded number of places.
Rounding to a format takes the most places that leave room for the mantissa, and the integer
nearest there. It is exact on the numbers of the format, and on no others. -/

namespace EvmExporter.Lib

structure Format where
  base : ℕ
  base_pos : 0 < base
  places : ℕ
  bound : ℕ

namespace Format

variable (F : Format)

/-- A number of the format. -/
def Has (r : ℚ) : Prop := ∃ (m : ℤ) (k : ℕ), m.natAbs < F.bound ∧ k ≤ F.places ∧ r = m / F.base ^ k

/-- The mantissa is nearest at `k` places, and with another place it would have no room. -/
structure RoundsAt (r : ℚ) (m : ℤ) (k : ℕ) : Prop where
  mantissa_lt : m.natAbs < F.bound
  places_le : k ≤ F.places
  nearest : |r * F.base ^ k - m| ≤ 1 / 2
  most : k = F.places ∨ F.bound ≤ |r| * F.base ^ (k + 1) + 1 / 2

/-- The number of the format that another one is rounded to. -/
def Rounds (r q : ℚ) : Prop := ∃ m k, F.RoundsAt r m k ∧ q = m / F.base ^ k

variable {F}

theorem base_pow_pos (k : ℕ) : (0 : ℚ) < F.base ^ k := by
  have hbase : (0 : ℚ) < F.base := by exact_mod_cast F.base_pos
  positivity

theorem Rounds.has {r q : ℚ} (h : F.Rounds r q) : F.Has q := by
  obtain ⟨m, k, hat, rfl⟩ := h
  exact ⟨m, k, hat.mantissa_lt, hat.places_le, rfl⟩

/-- An integer within one half of another is that one. -/
theorem int_eq_of_abs_sub_le {m n : ℤ} (h : |(n : ℚ) - m| ≤ 1 / 2) : n = m := by
  have hlt : |((n - m : ℤ) : ℚ)| < 1 := by
    push_cast
    linarith
  have hzero : |n - m| < 1 := by exact_mod_cast hlt
  have := Int.abs_lt_one_iff.mp hzero
  omega

/-- Fewer places than a number has make its mantissa no larger. -/
theorem abs_div_pow_mul_le (n : ℤ) {j k : ℕ} (h : k < j) :
    |(n : ℚ) / F.base ^ j| * F.base ^ (k + 1) ≤ |(n : ℚ)| := by
  have hj := base_pow_pos (F := F) j
  have hbase : (1 : ℚ) ≤ F.base := by exact_mod_cast F.base_pos
  rw [abs_div, abs_of_pos hj, div_mul_eq_mul_div, div_le_iff₀ hj]
  exact mul_le_mul_of_nonneg_left (pow_le_pow_right₀ hbase h) (abs_nonneg _)

/-- A number of the format is rounded to itself. -/
theorem Rounds.eq_of_has {r q : ℚ} (h : F.Rounds r q) (hr : F.Has r) : q = r := by
  obtain ⟨m, k, hat, rfl⟩ := h
  obtain ⟨n, j, hn, hj, rfl⟩ := hr
  have hk := base_pow_pos (F := F) k
  -- the number needs no more places than there are: otherwise its own mantissa had no room
  have hjk : j ≤ k := by
    by_contra hlt
    have hroom := hat.most.resolve_left (by omega)
    have hle := abs_div_pow_mul_le (F := F) n (not_le.mp hlt)
    have hnq : (n.natAbs : ℚ) + 1 ≤ F.bound := by exact_mod_cast hn
    rw [Nat.cast_natAbs, Int.cast_abs] at hnq
    linarith
  have hint : (n : ℚ) / F.base ^ j * F.base ^ k = ((n * F.base ^ (k - j) : ℤ) : ℚ) := by
    push_cast
    rw [← Nat.add_sub_of_le hjk, pow_add, Nat.add_sub_cancel_left, ← mul_assoc,
      div_mul_cancel₀ _ (base_pow_pos j).ne']
  have hm : n * F.base ^ (k - j) = m := by
    refine int_eq_of_abs_sub_le ?_
    rw [← hint]
    exact hat.nearest
  rw [← hm, ← hint, mul_div_assoc, div_self hk.ne', mul_one]

/-- Rounding is exact on the numbers of the format and on no others. -/
theorem Rounds.eq_iff {r q : ℚ} (h : F.Rounds r q) : q = r ↔ F.Has r :=
  ⟨fun heq => heq ▸ h.has, h.eq_of_has⟩

/-- What is rounded has room in the format. -/
theorem Rounds.abs_lt {r q : ℚ} (h : F.Rounds r q) : |r| < F.bound := by
  obtain ⟨m, k, hat, rfl⟩ := h
  have hk : (1 : ℚ) ≤ F.base ^ k := one_le_pow₀ (by exact_mod_cast F.base_pos)
  have hm : (m.natAbs : ℚ) + 1 ≤ F.bound := by exact_mod_cast hat.mantissa_lt
  rw [Nat.cast_natAbs, Int.cast_abs] at hm
  have hscaled : |r| * F.base ^ k ≤ |(m : ℚ)| + 1 / 2 := by
    calc |r| * F.base ^ k = |r * F.base ^ k| := by rw [abs_mul, abs_of_pos (base_pow_pos k)]
      _ = |m + (r * F.base ^ k - m)| := by rw [add_sub_cancel]
      _ ≤ |(m : ℚ)| + |r * F.base ^ k - m| := abs_add_le _ _
      _ ≤ |(m : ℚ)| + 1 / 2 := by gcongr; exact hat.nearest
  have hle := le_mul_of_one_le_right (abs_nonneg r) hk
  linarith

/-- A number within half a unit of the last place of an integer is rounded to it. -/
theorem Rounds.eq_int {r q : ℚ} (h : F.Rounds r q) {n : ℤ}
    (hnear : |r - n| * F.base ^ F.places < 1 / 2) : q = n := by
  obtain ⟨m, k, hat, rfl⟩ := h
  have hk := base_pow_pos (F := F) k
  have hbase : (1 : ℚ) ≤ F.base := by exact_mod_cast F.base_pos
  have hpow : (F.base : ℚ) ^ k ≤ F.base ^ F.places := pow_le_pow_right₀ hbase hat.places_le
  have hscaled : |n * F.base ^ k - r * F.base ^ k| < 1 / 2 := by
    rw [← sub_mul, abs_mul, abs_of_pos hk, abs_sub_comm]
    exact (mul_le_mul_of_nonneg_left hpow (abs_nonneg _)).trans_lt hnear
  have hlt : |((n * F.base ^ k - m : ℤ) : ℚ)| < 1 := by
    push_cast
    calc |n * (F.base : ℚ) ^ k - m|
        ≤ |n * F.base ^ k - r * F.base ^ k| + |r * F.base ^ k - m| := abs_sub_le _ _ _
      _ < 1 := by linarith [hat.nearest]
  have hzero : |n * (F.base : ℤ) ^ k - m| < 1 := by exact_mod_cast hlt
  have hm : n * (F.base : ℤ) ^ k = m := by
    have := Int.abs_lt_one_iff.mp hzero
    omega
  rw [← hm]
  push_cast
  rw [mul_div_assoc, div_self hk.ne', mul_one]

/-! ### A rounder -/

variable (F)

/-- The nearest mantissa, at the most places up to `k` that leave room for it. -/
def roundFrom (r : ℚ) (k : ℕ) : Option (ℤ × ℕ) :=
  let m := round (r * F.base ^ k)
  if m.natAbs < F.bound then some (m, k)
  else match k with
    | 0 => none
    | k + 1 => roundFrom r k

variable {F}

theorem roundFrom_eq_some {r : ℚ} {k j : ℕ} {m : ℤ} (h : F.roundFrom r k = some (m, j)) :
    m.natAbs < F.bound ∧ j ≤ k ∧ m = round (r * F.base ^ j) ∧
      (j = k ∨ F.bound ≤ (round (r * F.base ^ (j + 1))).natAbs) := by
  induction k with
  | zero =>
    rw [roundFrom] at h
    split_ifs at h with hroom
    obtain ⟨rfl, rfl⟩ := Prod.mk.inj (Option.some.inj h)
    exact ⟨hroom, le_rfl, rfl, .inl rfl⟩
  | succ k ih =>
    rw [roundFrom] at h
    split_ifs at h with hroom
    · obtain ⟨rfl, rfl⟩ := Prod.mk.inj (Option.some.inj h)
      exact ⟨hroom, le_rfl, rfl, .inl rfl⟩
    · obtain ⟨hlt, hle, hm, hmost⟩ := ih h
      refine ⟨hlt, by omega, hm, .inr ?_⟩
      rcases hmost with rfl | hmost
      · exact not_lt.mp hroom
      · exact hmost

theorem abs_round_le (x : ℚ) : ((round x).natAbs : ℚ) ≤ |x| + 1 / 2 := by
  have htri : |((round x : ℤ) : ℚ)| - |x| ≤ |(round x : ℚ) - x| := abs_sub_abs_le_abs_sub _ _
  have hnear : |(round x : ℚ) - x| ≤ 1 / 2 := by
    rw [abs_sub_comm]
    exact abs_sub_round x
  rw [Nat.cast_natAbs, Int.cast_abs]
  linarith

/-- The rounder rounds. -/
theorem roundFrom_roundsAt {r : ℚ} {m : ℤ} {k : ℕ} (h : F.roundFrom r F.places = some (m, k)) :
    F.RoundsAt r m k := by
  obtain ⟨hlt, hle, rfl, hmost⟩ := roundFrom_eq_some h
  refine ⟨hlt, hle, abs_sub_round _, hmost.imp id fun hroom => ?_⟩
  have hround := abs_round_le (r * F.base ^ (k + 1))
  rw [abs_mul, abs_of_pos (base_pow_pos (k + 1))] at hround
  calc (F.bound : ℚ) ≤ ((round (r * F.base ^ (k + 1))).natAbs : ℚ) := by exact_mod_cast hroom
    _ ≤ |r| * F.base ^ (k + 1) + 1 / 2 := hround

/-- There is room for a number below the bound. -/
theorem exists_roundFrom {r : ℚ} (h : |r| + 1 / 2 < F.bound) (k : ℕ) :
    ∃ s, F.roundFrom r k = some s := by
  induction k with
  | zero =>
    have hroom : (round (r * F.base ^ 0)).natAbs < F.bound := by
      have hround := abs_round_le r
      rw [pow_zero, mul_one]
      exact_mod_cast hround.trans_lt h
    exact ⟨_, by rw [roundFrom, if_pos hroom]⟩
  | succ k ih =>
    by_cases hroom : (round (r * F.base ^ (k + 1))).natAbs < F.bound
    · exact ⟨_, by rw [roundFrom, if_pos hroom]⟩
    · rw [roundFrom, if_neg hroom]
      exact ih

end Format

end EvmExporter.Lib
