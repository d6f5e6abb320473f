import EvmExporter.Config.BytesArgs

/-! The values that arguments can be configured to. Each value that conversion can produce for a
type has a canonical spelling, and the spelling converts back to it; so a list of values is
what some configured arguments convert to exactly when each fits the type of its input. -/

namespace EvmExporter

open Lib Reference

variable {d : Deps}

/-! ### Values and their spellings -/

/-- An argument of the type can have the value: a scalar of the variant and the width, and as
fixed bytes a word of that many bytes, padded with zeros. -/
inductive DynSolType.Takes : DynSolType → DynSolValue → Prop
  | bool (b : Bool) : Takes .bool (.bool b)
  | int (v : I256) (bits : ℕ) : Takes (.int bits) (.int v bits)
  | uint (v : U256) (bits : ℕ) : Takes (.uint bits) (.uint v bits)
  | fixedBytes {b : Bytes} {n : ℕ} (hlen : b.length = n) :
    Takes (.fixedBytes n) (.fixedBytes (b ++ List.replicate (32 - n) 0) n)
  | address (a : Address) : Takes .address (.address a)
  | bytes (b : Bytes) : Takes .bytes (.bytes b)
  | string (s : String) : Takes .string (.string s)

def hexLiteral (b : Bytes) : String := "0x" ++ hexEncode b

/-- The YAML value that is written for a value: integers in decimal and bytes in hexadecimal,
as strings. Nothing is written for the values that no argument has. -/
def DynSolValue.spelling : DynSolValue → Value
  | .bool b => .bool b
  | .int v _ => .string (toString v.toInt)
  | .uint v _ => .string (toString (v.toNat : ℤ))
  | .fixedBytes word n => .string (hexLiteral (word.take n))
  | .address a => .string a.format
  | .bytes b => .string (hexLiteral b)
  | .string s => .string s
  | _ => .null

/-! ### What conversion produces -/

theorem convertOne_takes {ty : DynSolType} {v : Value} {x : DynSolValue}
    (h : convertOne d ty v = .ok x) : ty.Takes x := by
  cases ty <;> simp only [convertOne, ↓check_bind_eq_ok, bind_eq_ok, pure_eq_ok, reduceCtorEq] at h
  case fixedBytes n =>
    obtain ⟨b, -, hlen, rfl⟩ := h
    exact .fixedBytes (by simpa using hlen)
  all_goals
    obtain ⟨a, -, rfl⟩ := h
    constructor

/-! ### Reading a spelling -/

theorem hexDigit_digitChar {n : ℕ} (h : n < 16) : hexDigit n.digitChar = some n := by
  have hall : ∀ n < 16, hexDigit n.digitChar = some n := by decide
  exact hall n h

theorem hexBytes_hexEncode (bs : Bytes) : hexBytes (hexEncode bs).toList = some bs := by
  rw [hexEncode, String.toList_ofList]
  induction bs with
  | nil => rfl
  | cons b bs ih =>
    have hb := b.toNat_lt
    have hhi := hexDigit_digitChar (show b.toNat / 16 < 16 by omega)
    have hlo := hexDigit_digitChar (Nat.mod_lt b.toNat (by decide : 0 < 16))
    rw [List.flatMap_cons]
    simp only [hexByte, List.cons_append, List.nil_append, hexBytes, hhi, hlo, ih,
      Option.bind_eq_bind, Option.bind_some, Option.pure_def, Nat.div_add_mod, UInt8.ofNat_toNat]

/-- The characters of a hexadecimal literal. -/
theorem hexEncode_char {b : Bytes} {c : Char} (hc : c ∈ (hexEncode b).toList) :
    ¬ isWhitespace c ∧ c ≠ 'x' := by
  have hall : ∀ n < 16, ¬ isWhitespace n.digitChar ∧ n.digitChar ≠ 'x' := by decide
  rw [hexEncode, String.toList_ofList, List.mem_flatMap] at hc
  obtain ⟨byte, -, hc⟩ := hc
  have hbyte := byte.toNat_lt
  simp only [hexByte, List.mem_cons, List.not_mem_nil, or_false] at hc
  rcases hc with rfl | rfl
  · exact hall _ (by omega)
  · exact hall _ (by omega)

theorem trim_hexLiteral (b : Bytes) : trim (hexLiteral b) = hexLiteral b := by
  apply trim_eq_self
  intro c hc
  have hplain : ∀ c ∈ ['0', 'x'], ¬ isWhitespace c := by simp [isWhitespace]
  simp only [hexLiteral, String.toList_append, List.mem_append] at hc
  rcases hc with hc | hc
  · exact hplain c hc
  · exact (hexEncode_char hc).1

theorem strip0x_hexLiteral (b : Bytes) : strip0x (hexLiteral b) = hexEncode b := by
  have hprefixed : HexPrefixed (hexLiteral b) (hexEncode b).toList := .inl (by simp [hexLiteral])
  exact String.toList_injective hprefixed.strip0x

theorem asBytes_hexLiteral (hdecode : d.DecodesHex) (b : Bytes) :
    asBytes d (.string (hexLiteral b)) = .ok b := by
  have hplain : ¬ (hexEncode b).startsWith "0x" := by
    rw [String.startsWith_string_iff]
    rintro ⟨cs, hcs⟩
    exact (hexEncode_char (b := b) (c := 'x') (by simp [← hcs])).2 rfl
  change (d.hexDecode (strip0x (trim (hexLiteral b)))).mapError _ = _
  rw [trim_hexLiteral, strip0x_hexLiteral, mapError_eq_ok, hdecode _ _ hplain]
  exact hexBytes_hexEncode b

theorem trim_integer (v : ℤ) : trim (toString v) = toString v :=
  trim_eq_self fun c hc => (integerChar_toString v c hc).plain.1

theorem asU256_decimal (hparse : d.ParsesDigits) (v : U256) :
    asU256 d (.string (toString (v.toNat : ℤ))) = .ok v := by
  have hchars := integerChar_toString (v.toNat : ℤ)
  have hplain : ¬ ((toString (v.toNat : ℤ)).startsWith "0x" ∨
      (toString (v.toNat : ℤ)).startsWith "0X") := by
    rw [hexPrefixed_iff]
    rintro ⟨cs, hcs | hcs⟩
    · exact (hchars 'x' (by rw [hcs]; simp)).plain.2.1 rfl
    · exact (hchars 'X' (by rw [hcs]; simp)).plain.2.2 rfl
  simp only [asU256, trim_integer, if_neg hplain]
  rw [mapError_eq_ok, hparse _ 10 _ (by decide), toString_natCast_toList]
  exact natOfText_toDigits v.toNat

/-! ### The round trip -/

/-- The signed parser reads the decimal text of every 256-bit integer. -/
def NumberLibrary.ParsesSigned (lib : NumberLibrary) : Prop :=
  ∀ v : I256, lib.i256FromStr (toString v.toInt) = .ok v

/-- The address parser reads what the formatter writes. -/
def AbiLibrary.ParsesAddresses (lib : AbiLibrary) : Prop :=
  ∀ a : Address, lib.parseAddress a.format = .ok a

theorem convertOne_spelling (hparse : d.ParsesDigits) (hsigned : d.ParsesSigned)
    (hdecode : d.DecodesHex) (haddr : d.ParsesAddresses) {ty : DynSolType} {x : DynSolValue}
    (h : ty.Takes x) : convertOne d ty x.spelling = .ok x := by
  cases h with
  | bool b => rfl
  | int v bits =>
    have hv : asI256 d (.string (toString v.toInt)) = .ok v := by
      change (d.i256FromStr (trim (toString v.toInt))).mapError _ = _
      rw [trim_integer, mapError_eq_ok, hsigned]
    exact bind_eq_ok.mpr ⟨v, hv, rfl⟩
  | uint v bits => exact bind_eq_ok.mpr ⟨v, asU256_decimal hparse v, rfl⟩
  | @fixedBytes b n hlen =>
    have htake : (b ++ List.replicate (32 - n) 0).take n = b := List.take_left' hlen
    rw [DynSolValue.spelling, htake]
    refine bind_eq_ok.mpr ⟨b, asBytes_hexLiteral hdecode b, ?_⟩
    exact check_bind_eq_ok.mpr ⟨bailIf_eq_ok.mpr (not_not.mpr hlen), rfl⟩
  | address a =>
    have ha : parseAddress d (.string a.format) = .ok a := by
      change (d.toAbiLibrary.parseAddress a.format).mapError _ = _
      rw [mapError_eq_ok, haddr]
    exact bind_eq_ok.mpr ⟨a, ha, rfl⟩
  | bytes b => exact bind_eq_ok.mpr ⟨b, asBytes_hexLiteral hdecode b, rfl⟩
  | string s => rfl

/-- The values fit the inputs of the function. -/
def AbiFunction.Takes (d : Deps) (func : AbiFunction) (vals : List DynSolValue) : Prop :=
  List.Forall₂ (fun p x => ∃ ty, d.resolve p = .ok ty ∧ DynSolType.Takes ty x) func.inputs vals

theorem convertArgs_eq_ok_iff {func : AbiFunction} {args : List Value} {vals : List DynSolValue} :
    convertArgs d func args = .ok vals ↔ args.length = func.inputs.length ∧
      List.Forall₂ (fun a x => ∃ ty, d.resolve a.1 = .ok ty ∧ convertOne d ty a.2 = .ok x)
        (func.inputs.zip args) vals := by
  have hone (a : AbiParam × Value) (i : ℕ) (x : DynSolValue) : convertArg d (a, i) = .ok x ↔
      ∃ ty, d.resolve a.1 = .ok ty ∧ convertOne d ty a.2 = .ok x := by
    simp only [convertArg, bind_eq_ok, mapError_eq_ok]
  rw [convertArgs, check_bind_eq_ok, bailIf_eq_ok, not_not, mapM_zipIdx_eq_ok hone]

theorem convertArgs_takes {func : AbiFunction} {args : List Value} {vals : List DynSolValue}
    (h : convertArgs d func args = .ok vals) : func.Takes d vals := by
  obtain ⟨hlen, h⟩ := convertArgs_eq_ok_iff.mp h
  rw [AbiFunction.Takes, ← List.map_fst_zip hlen.ge, List.forall₂_map_left_iff]
  exact h.imp fun a x ⟨ty, hty, hx⟩ => ⟨ty, hty, convertOne_takes hx⟩

theorem convertArgs_spelling (hparse : d.ParsesDigits) (hsigned : d.ParsesSigned)
    (hdecode : d.DecodesHex) (haddr : d.ParsesAddresses) {func : AbiFunction}
    {vals : List DynSolValue} (h : func.Takes d vals) :
    convertArgs d func (vals.map DynSolValue.spelling) = .ok vals := by
  rw [convertArgs_eq_ok_iff, List.length_map]
  refine ⟨h.length_eq.symm, ?_⟩
  unfold AbiFunction.Takes at h
  generalize func.inputs = inputs at h
  induction h with
  | nil => exact .nil
  | cons hpx _ ih =>
    obtain ⟨ty, hty, hx⟩ := hpx
    exact .cons ⟨ty, hty, convertOne_spelling hparse hsigned hdecode haddr hx⟩ ih

/-- The values that some arguments convert to are those that fit the inputs of the function, and
their spellings convert back to them. -/
theorem args_configurable_iff (hparse : d.ParsesDigits) (hsigned : d.ParsesSigned)
    (hdecode : d.DecodesHex) (haddr : d.ParsesAddresses) (func : AbiFunction)
    (vals : List DynSolValue) :
    ((∃ args, convertArgs d func args = .ok vals) ↔ func.Takes d vals) ∧
      (convertArgs d func (vals.map DynSolValue.spelling) = .ok vals ↔ func.Takes d vals) :=
  ⟨⟨fun ⟨_, h⟩ => convertArgs_takes h,
      fun h => ⟨_, convertArgs_spelling hparse hsigned hdecode haddr h⟩⟩,
    ⟨convertArgs_takes, convertArgs_spelling hparse hsigned hdecode haddr⟩⟩

/-! ### The reference parsers -/

theorem Reference.parsesSigned : reference.toNumberLibrary.ParsesSigned := by
  intro v
  have hlo := v.le_toInt
  have hhi := v.toInt_lt
  change i256FromStr (toString v.toInt) = .ok v
  unfold i256FromStr
  cases hv : v.toInt with
  | ofNat n =>
    have hof : BitVec.ofNat 256 n = v := by
      rw [← BitVec.ofInt_toInt (x := v), hv]
      rfl
    rw [Int.ofNat_eq_natCast, toString_natCast_toList]
    split
    next cs hcs => exact absurd hcs (toDigits_ne_sign n cs)
    · rw [natOfText_toDigits]
      simp only
      rw [if_pos (by rw [hv] at hhi; simpa using hhi), hof]
  | negSucc n =>
    have hof : BitVec.ofInt 256 (-((n + 1 : ℕ) : ℤ)) = v := by
      rw [← BitVec.ofInt_toInt (x := v), hv]
      rfl
    rw [toString_negSucc_toList]
    simp only [natOfText_toDigits]
    rw [if_pos (by rw [hv] at hlo; simp [Int.negSucc_eq] at hlo; omega), hof]

theorem Reference.parsesAddresses : reference.toAbiLibrary.ParsesAddresses := by
  intro a
  change Reference.parseAddress (hexLiteral a.bytes) = .ok a
  rw [Reference.parseAddress, strip0x_hexLiteral, hexBytes_hexEncode]
  simp [a.length_eq]

/-- A function of an account, a signed change, some data and a flag. -/
def quote : AbiFunction where
  name := "quote"
  inputs := [⟨"address", "account", []⟩, ⟨"int256", "change", []⟩, ⟨"bytes", "data", []⟩,
    ⟨"bool", "exact", []⟩]
  outputs := [uint256 ""]
  stateMutability := .view

/-- A quote for a decrease by 42. -/
def decrease : List DynSolValue :=
  [.address ⟨List.replicate 20 7, rfl⟩, .int (-42) 256, .bytes [0xbe, 0xef], .bool true]

theorem decrease_configurable :
    decrease.map DynSolValue.spelling =
      [.string "0x0707070707070707070707070707070707070707", .string "-42", .string "0xbeef",
        .bool true] ∧
      convertArgs reference quote (decrease.map DynSolValue.spelling) = .ok decrease := by
  have htakes : quote.Takes reference decrease :=
    .cons ⟨.address, rfl, .address _⟩ (.cons ⟨.int 256, rfl, .int _ _⟩
      (.cons ⟨.bytes, rfl, .bytes _⟩ (.cons ⟨.bool, rfl, .bool _⟩ .nil)))
  exact ⟨by rfl, (args_configurable_iff parsesDigits parsesSigned decodesHex parsesAddresses quote
    decrease).2.mpr htakes⟩

end EvmExporter
