import Mathlib.Data.Nat.Digits.Defs
import Mathlib.Tactic.Ring

/-! Lists of digits read most significant first. Reading is a fold over the digits, and the
number it gives grows with the base as soon as a digit other than the last is not zero. -/

namespace EvmExporter.Lib

/-- The number that a list of digits denotes in a base. -/
def readDigits (b : ℕ) (ds : List ℕ) : ℕ := Nat.ofDigits b ds.reverse

@[simp] theorem readDigits_nil (b : ℕ) : readDigits b [] = 0 := rfl

theorem readDigits_cons (b v : ℕ) (ds : List ℕ) :
    readDigits b (v :: ds) = v * b ^ ds.length + readDigits b ds := by
  rw [readDigits, List.reverse_cons, Nat.ofDigits_append, List.length_reverse,
    Nat.ofDigits_singleton, readDigits]
  ring

theorem foldl_digits (b m : ℕ) (ds : List ℕ) :
    ds.foldl (fun n v => n * b + v) m = m * b ^ ds.length + readDigits b ds := by
  induction ds generalizing m with
  | nil => simp
  | cons v ds ih =>
    rw [List.foldl_cons, ih, readDigits_cons, List.length_cons]
    ring

theorem foldl_zero_digits (b : ℕ) (ds : List ℕ) :
    ds.foldl (fun n v => n * b + v) 0 = readDigits b ds := by
  rw [foldl_digits, zero_mul, zero_add]

theorem readDigits_lt_pow {b : ℕ} {ds : List ℕ} (hb : 1 < b) (h : ∀ v ∈ ds, v < b) :
    readDigits b ds < b ^ ds.length := by
  rw [← List.length_reverse]
  exact Nat.ofDigits_lt_base_pow_length hb (by simpa using h)

theorem readDigits_mono {p q : ℕ} (h : p ≤ q) (ds : List ℕ) :
    readDigits p ds ≤ readDigits q ds := Nat.ofDigits_monotone _ h

/-- Two digits or more, the first not zero, denote more in a larger base. -/
theorem readDigits_lt {p q v : ℕ} {ds : List ℕ} (h : p < q) (hv : 0 < v) (hds : ds ≠ []) :
    readDigits p (v :: ds) < readDigits q (v :: ds) := by
  have hpow : p ^ ds.length < q ^ ds.length :=
    Nat.pow_lt_pow_left h (List.length_pos_iff.mpr hds).ne'
  rw [readDigits_cons, readDigits_cons]
  calc v * p ^ ds.length + readDigits p ds
      ≤ v * p ^ ds.length + readDigits q ds := Nat.add_le_add_left (readDigits_mono h.le ds) _
    _ < v * q ^ ds.length + readDigits q ds :=
      Nat.add_lt_add_right (Nat.mul_lt_mul_of_pos_left hpow hv) _

end EvmExporter.Lib
