import Mathlib.Data.Nat.Digits.Defs
import Mathlib.Data.List.Basic

/-! Lower-case hexadecimal text of byte strings: two digits a byte, most significant
first. The text determines the bytes. -/

namespace EvmExporter.Lib

/-- The two hexadecimal digits of a byte. -/
def hexByte (b : UInt8) : List Char := [Nat.digitChar (b.toNat / 16), Nat.digitChar (b.toNat % 16)]

/-- The hexadecimal text of a byte string. -/
def hexEncode (bs : List UInt8) : String := String.ofList (bs.flatMap hexByte)

theorem digitChar_injOn {m n : ℕ} (hm : m < 16) (hn : n < 16)
    (h : Nat.digitChar m = Nat.digitChar n) : m = n := by
  revert h
  have hall : ∀ m < 16, ∀ n < 16, Nat.digitChar m = Nat.digitChar n → m = n := by decide
  exact hall m hm n hn

theorem hexByte_injective : Function.Injective hexByte := by
  intro a b h
  simp only [hexByte, List.cons.injEq, and_true] at h
  have ha := a.toNat_lt
  have hb := b.toNat_lt
  have hdiv := digitChar_injOn (by omega) (by omega) h.1
  have hmod := digitChar_injOn (by omega) (by omega) h.2
  exact UInt8.toNat_inj.mp (by omega)

theorem flatMap_hexByte_injective : Function.Injective (List.flatMap hexByte) := by
  intro as bs h
  induction as generalizing bs with
  | nil => cases bs with
    | nil => rfl
    | cons b bs => simp [hexByte] at h
  | cons a as ih => cases bs with
    | nil => simp [hexByte] at h
    | cons b bs =>
      rw [List.flatMap_cons, List.flatMap_cons] at h
      obtain ⟨hab, hrest⟩ := List.append_inj h (by simp [hexByte])
      rw [hexByte_injective hab, ih hrest]

theorem hexEncode_injective : Function.Injective hexEncode := by
  intro as bs h
  have hl : (hexEncode as).toList = (hexEncode bs).toList := by rw [h]
  simp only [hexEncode, String.toList_ofList] at hl
  exact flatMap_hexByte_injective hl

end EvmExporter.Lib
