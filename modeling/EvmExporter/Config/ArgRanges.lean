import EvmExporter.Reference

/-! The width of integer arguments. Conversion gives an integer the width its parameter
declares and parses the number it spells as a 256-bit one; it never compares the two. So a
converted integer fits its type exactly when the number that was spelled does. -/

namespace EvmExporter

open Lib Reference

variable {d : Deps}

/-! ### The number an argument spells -/

/-- The number of an unsigned literal, decimal unless a prefix names another radix. -/
def unsignedOfText : List Char → Option ℕ
  | '0' :: 'x' :: cs | '0' :: 'X' :: cs => natOfText 16 0 cs
  | '0' :: 'o' :: cs | '0' :: 'O' :: cs => natOfText 8 0 cs
  | '0' :: 'b' :: cs | '0' :: 'B' :: cs => natOfText 2 0 cs
  | cs => natOfText 10 0 cs

/-- The number of a literal with an optional sign. -/
def intOfText (s : String) : Option ℤ :=
  match s.toList with
  | '-' :: cs => (unsignedOfText cs).map fun n => -n
  | '+' :: cs => (unsignedOfText cs).map fun n => n
  | cs => (unsignedOfText cs).map fun n => n

/-- The integer parsers return the number their text spells. -/
structure NumberLibrary.ReadsNumbers (lib : NumberLibrary) : Prop where
  u256 : ∀ s radix v, radix ∈ [10, 16] → lib.u256FromStrRadix s radix = .ok v →
    natOfText radix 0 s.toList = some v.toNat
  i256 : ∀ s v, lib.i256FromStr s = .ok v → intOfText s = some v.toInt

/-- The number an argument spells for an unsigned parameter: decimal, or hexadecimal behind
`0x` in a string. -/
def spelledUint (d : Deps) : Value → Option ℕ
  | .number n => natOfText 10 0 (d.numberToString n).toList
  | .string s =>
    if (trim s).startsWith "0x" ∨ (trim s).startsWith "0X" then
      natOfText 16 0 (strip0x (trim s)).toList
    else natOfText 10 0 (trim s).toList
  | _ => none

/-- The number an argument spells for a signed parameter. -/
def spelledInt (d : Deps) : Value → Option ℤ
  | .number n => intOfText (d.numberToString n)
  | .string s => intOfText (trim s)
  | _ => none

/-- An integer argument spells a number in the range of the type. -/
def SpelledInRange (d : Deps) (v : Value) : DynSolType → Prop
  | .uint bits => ∀ n, spelledUint d v = some n → n < 2 ^ bits
  | .int bits => ∀ i, spelledInt d v = some i → -2 ^ (bits - 1) ≤ i ∧ i < 2 ^ (bits - 1)
  | _ => True

/-! ### Conversion -/

theorem asU256_eq_ok (hread : d.ReadsNumbers) {v : Value} {u : U256} (h : asU256 d v = .ok u) :
    spelledUint d v = some u.toNat := by
  cases v with
  | number n => exact hread.u256 _ 10 _ (by decide) (mapError_eq_ok.mp h)
  | string s =>
    simp only [asU256, spelledUint] at h ⊢
    split_ifs at h ⊢ with hhex
    · exact hread.u256 _ 16 _ (by decide) (mapError_eq_ok.mp h)
    · exact hread.u256 _ 10 _ (by decide) (mapError_eq_ok.mp h)
  | _ => cases h

theorem asI256_eq_ok (hread : d.ReadsNumbers) {v : Value} {i : I256} (h : asI256 d v = .ok i) :
    spelledInt d v = some i.toInt := by
  cases v with
  | number n => exact hread.i256 _ _ (mapError_eq_ok.mp h)
  | string s => exact hread.i256 _ _ (mapError_eq_ok.mp h)
  | _ => cases h

/-- A converted value lies in the range of its type exactly when the spelled number does. -/
theorem convertOne_inRange_iff (hread : d.ReadsNumbers) {ty : DynSolType} {v : Value}
    {x : DynSolValue} (h : convertOne d ty v = .ok x) : x.InRange ↔ SpelledInRange d v ty := by
  cases ty <;> simp only [convertOne, ↓check_bind_eq_ok, bind_eq_ok, pure_eq_ok, reduceCtorEq] at h
  case uint bits =>
    obtain ⟨u, hu, rfl⟩ := h
    have hspelled := asU256_eq_ok hread hu
    constructor
    · rintro (_ | _ | hlt) n hn
      obtain rfl : u.toNat = n := Option.some.inj (hspelled.symm.trans hn)
      exact hlt
    · intro hfits
      exact .uint (hfits _ hspelled)
  case int bits =>
    obtain ⟨i, hi, rfl⟩ := h
    have hspelled := asI256_eq_ok hread hi
    constructor
    · rintro (_ | ⟨hlo, hhi⟩) n hn
      obtain rfl : i.toInt = n := Option.some.inj (hspelled.symm.trans hn)
      exact ⟨hlo, hhi⟩
    · intro hfits
      exact .int (hfits _ hspelled).1 (hfits _ hspelled).2
  case fixedBytes n =>
    obtain ⟨b, -, -, rfl⟩ := h
    exact iff_of_true (.fixedBytes _ n) trivial
  all_goals
    obtain ⟨a, -, rfl⟩ := h
    exact iff_of_true (by constructor) trivial

/-- Converted integer arguments fit their declared widths exactly when every integer argument
spells a number in the range of its parameter's type. -/
theorem args_inRange_iff (hread : d.ReadsNumbers) {func : AbiFunction} {args : List Value}
    {vals : List DynSolValue} (h : convertArgs d func args = .ok vals) :
    (∀ x ∈ vals, x.InRange) ↔ ∀ (i : ℕ) param v ty, func.inputs[i]? = some param →
      args[i]? = some v → d.resolve param = .ok ty → SpelledInRange d v ty := by
  simp only [convertArgs, check_bind_eq_ok] at h
  have hconv := mapM_eq_ok.mp h.2
  have hone : ∀ {param v i x}, convertArg d ((param, v), i) = .ok x →
      ∃ ty, d.resolve param = .ok ty ∧ (x.InRange ↔ SpelledInRange d v ty) := by
    intro param v i x hx
    simp only [convertArg, bind_eq_ok, mapError_eq_ok] at hx
    obtain ⟨ty, hty, hx⟩ := hx
    exact ⟨ty, hty, convertOne_inRange_iff hread hx⟩
  constructor
  · intro hall i param v ty hparam hv hty
    have hzip : (func.inputs.zip args)[i]? = some (param, v) :=
      List.getElem?_zip_eq_some.mpr ⟨hparam, hv⟩
    have hget : (func.inputs.zip args).zipIdx[i]? = some ((param, v), i) := by
      simp [List.getElem?_zipIdx, hzip]
    obtain ⟨x, hx, hconvert⟩ := forall₂_getElem? hconv hget
    obtain ⟨ty', hty', hiff⟩ := hone hconvert
    obtain rfl := Except.ok.inj (hty.symm.trans hty')
    exact hiff.mp (hall x (List.mem_of_getElem? hx))
  · intro hfits x hx
    obtain ⟨⟨⟨param, v⟩, i⟩, ha, hconvert⟩ := exists_of_forall₂ hconv x hx
    obtain ⟨hparam, hv⟩ := List.getElem?_zip_eq_some.mp (List.mem_zipIdx_iff_getElem?.mp ha)
    obtain ⟨ty, hty, hiff⟩ := hone hconvert
    exact hiff.mpr (hfits i param v ty hparam hv hty)

/-! ### The reference parsers -/

/-- A decimal number has no radix prefix. -/
theorem unsignedOfText_of_decimal {cs : List Char} {n : ℕ} (h : natOfText 10 0 cs = some n) :
    unsignedOfText cs = some n := by
  unfold unsignedOfText
  split
  case h_7 => exact h
  all_goals simp [natOfText, hexDigit] at h

theorem Reference.readsNumbers : reference.toNumberLibrary.ReadsNumbers := by
  constructor
  · intro s radix v _ h
    change u256FromStrRadix s radix = .ok v at h
    unfold u256FromStrRadix at h
    split at h
    next n hn =>
      split_ifs at h with hlt
      obtain rfl := Except.ok.inj h
      rw [hn, BitVec.toNat_ofNat, Nat.mod_eq_of_lt hlt]
    next => cases h
  · intro s v h
    change i256FromStr s = .ok v at h
    unfold i256FromStr at h
    unfold intOfText
    split at h
    next cs hs =>
      rw [hs]
      split at h
      next n hn =>
        split_ifs at h with hle
        obtain rfl := Except.ok.inj h
        have hint : (BitVec.ofInt 256 (-(n : ℤ))).toInt = -(n : ℤ) := by
          rw [BitVec.toInt_ofInt]
          exact Int.bmod_eq_of_le (by omega) (by omega)
        simp [unsignedOfText_of_decimal hn, hint]
      next => cases h
    next cs hs =>
      split at h
      next n hn =>
        split_ifs at h with hlt
        obtain rfl := Except.ok.inj h
        have hint : (BitVec.ofNat 256 n).toInt = (n : ℤ) := by
          rw [BitVec.toInt_ofNat']
          exact Int.bmod_eq_of_le (by omega) (by omega)
        split
        next cs' hs' => exact absurd hs' (hs cs')
        next cs' hs' =>
          rw [hs'] at hn
          simp [natOfText, hexDigit] at hn
        next => simp [unsignedOfText_of_decimal hn, hint]
      next => cases h

/-- A function of an 8-bit argument. -/
def tier : AbiFunction := ⟨"tier", [⟨"uint8", "level", []⟩], [uint256 ""], .view⟩

/-- 300 is accepted for the 8-bit argument. -/
theorem tier_accepts_300 :
    ∃ u : U256, convertArgs reference tier [.number (.posInt 300)] = .ok [.uint u 8] ∧
      ¬ (DynSolValue.uint u 8).InRange := by
  have h : convertArgs reference tier [.number (.posInt 300)] = .ok [.uint 300 8] := by rfl
  refine ⟨300, h, ?_⟩
  rintro (_ | _ | hlt)
  exact absurd hlt (by decide)

theorem tier_seven_inRange :
    ∃ vals, convertArgs reference tier [.number (.posInt 7)] = .ok vals ∧ vals.length = 1 ∧
      ∀ x ∈ vals, x.InRange := by
  have h : convertArgs reference tier [.number (.posInt 7)] = .ok [.uint 7 8] := by rfl
  refine ⟨_, h, rfl, (args_inRange_iff readsNumbers h).mpr ?_⟩
  intro i param v ty hparam hv hty
  obtain rfl : i = 0 := by
    have hi := (List.getElem?_eq_some_iff.mp hv).1
    simpa using hi
  obtain rfl : (⟨"uint8", "level", []⟩ : AbiParam) = param := by simpa [tier] using hparam
  obtain rfl : Value.number (.posInt 7) = v := by simpa using hv
  obtain rfl : DynSolType.uint 8 = ty := Except.ok.inj hty
  intro n hn
  obtain rfl : 7 = n := Option.some.inj hn
  decide

end EvmExporter
