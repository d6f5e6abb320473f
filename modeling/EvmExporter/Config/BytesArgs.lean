import EvmExporter.Config.UintSpellings

/-! Integers given for bytes arguments. The conversion prints the integer in decimal and then
decodes the text as hexadecimal, so an integer that is accepted is always sent as other bytes
than those that denote it. -/

namespace EvmExporter

open Lib Reference

variable {d : Deps}

/-! ### Hexadecimal text -/

theorem ofBytes_eq (bs : Bytes) : ofBytes bs = readDigits 256 (bs.map UInt8.toNat) := by
  rw [ofBytes, ← foldl_zero_digits, List.foldl_map]

theorem ofBytes_cons (b : UInt8) (bs : Bytes) :
    ofBytes (b :: bs) = b.toNat * 256 ^ bs.length + ofBytes bs := by
  rw [ofBytes_eq, List.map_cons, readDigits_cons, List.length_map, ← ofBytes_eq]

theorem toNat_le_of_isDigit {c : Char} (h : c.isDigit) : c.toNat ≤ '9'.toNat := by
  simp only [Char.isDigit, Bool.and_eq_true, decide_eq_true_eq] at h
  exact h.2

theorem hexDigit_lt {c : Char} {v : ℕ} (h : hexDigit c = some v) : v < 16 := by
  unfold hexDigit at h
  split_ifs at h with hdec hlow hup
  all_goals obtain rfl := Option.some.inj h
  · have hle : c.toNat ≤ '9'.toNat := toNat_le_of_isDigit hdec
    simp only [Char.reduceToNat] at hle ⊢
    omega
  · have hle : c.toNat ≤ 'f'.toNat := hlow.2
    simp only [Char.reduceToNat] at hle ⊢
    omega
  · have hle : c.toNat ≤ 'F'.toNat := hup.2
    simp only [Char.reduceToNat] at hle ⊢
    omega

theorem DigitsOf.unique {radix radix' : ℕ} {cs : List Char} {ds ds' : List ℕ}
    (h : DigitsOf radix cs ds) (h' : DigitsOf radix' cs ds') : ds = ds' := by
  induction h generalizing ds' with
  | nil => exact (List.forall₂_nil_left_iff.mp h').symm
  | cons hc _ ih =>
    obtain ⟨v', vs', ⟨hc', -⟩, hrest, rfl⟩ := List.forall₂_cons_left_iff.mp h'
    rw [Option.some.inj (hc.1.symm.trans hc'), ih hrest]

/-- The bytes of a text denote what its hexadecimal digits do. -/
theorem hexBytes_digits {cs : List Char} {bs : Bytes} (h : hexBytes cs = some bs) :
    cs.length = 2 * bs.length ∧
      ∃ ds, DigitsOf 16 cs ds ∧ readDigits 16 ds = ofBytes bs := by
  induction cs using hexBytes.induct generalizing bs with
  | case1 =>
    obtain rfl := Option.some.inj h
    exact ⟨rfl, [], .nil, rfl⟩
  | case2 => cases h
  | case3 c c' cs ih =>
    simp only [hexBytes, Option.bind_eq_bind, Option.bind_eq_some_iff, Option.pure_def,
      Option.some.injEq] at h
    obtain ⟨hi, hhi, lo, hlo, bs, hbs, rfl⟩ := h
    obtain ⟨hlen, ds, hds, hval⟩ := ih hbs
    have hhi' := hexDigit_lt hhi
    have hlo' := hexDigit_lt hlo
    have hbyte : (UInt8.ofNat (16 * hi + lo)).toNat = 16 * hi + lo := by
      rw [UInt8.toNat_ofNat']
      exact Nat.mod_eq_of_lt (by omega)
    refine ⟨by simp [hlen]; ring, hi :: lo :: ds, .cons ⟨hhi, hhi'⟩ (.cons ⟨hlo, hlo'⟩ hds), ?_⟩
    rw [readDigits_cons, readDigits_cons, ofBytes_cons, hbyte, hval, List.length_cons,
      ← hds.length_eq, hlen, pow_succ, pow_mul]
    ring

/-- An even number of hexadecimal digits has bytes. -/
theorem exists_hexBytes {cs : List Char} {ds : List ℕ} (h : DigitsOf 16 cs ds)
    (heven : Even cs.length) : ∃ bs, hexBytes cs = some bs := by
  induction cs using hexBytes.induct generalizing ds with
  | case1 => exact ⟨[], rfl⟩
  | case2 => simp at heven
  | case3 c c' cs ih =>
    obtain ⟨hi, rest, ⟨hhi, -⟩, hrest, -⟩ := List.forall₂_cons_left_iff.mp h
    obtain ⟨lo, ds, ⟨hlo, -⟩, hds, -⟩ := List.forall₂_cons_left_iff.mp hrest
    obtain ⟨bs, hbs⟩ := ih hds (by simpa [parity_simps] using heven)
    exact ⟨UInt8.ofNat (16 * hi + lo) :: bs, by simp [hexBytes, hhi, hlo, hbs]⟩

/-! ### Decimal text -/

theorem hexDigit_of_isDigit {c : Char} (h : c.isDigit) :
    hexDigit c = some (c.toNat - '0'.toNat) ∧ c.toNat - '0'.toNat < 10 := by
  have hle : c.toNat ≤ '9'.toNat := toNat_le_of_isDigit h
  refine ⟨if_pos h, ?_⟩
  simp only [Char.reduceToNat] at hle ⊢
  omega

/-- The decimal text of a number consists of its digits. -/
theorem toDigits_digits (n : ℕ) :
    ∃ ds, DigitsOf 10 (Nat.toDigits 10 n) ds ∧ readDigits 10 ds = n := by
  refine ⟨(Nat.toDigits 10 n).map fun c => c.toNat - '0'.toNat, ?_, ?_⟩
  · refine List.forall₂_map_right_iff.mpr (List.forall₂_same.mpr ?_)
    intro c hc
    exact hexDigit_of_isDigit (Nat.isDigit_of_mem_toDigits (by decide) (by decide) hc)
  · calc readDigits 10 ((Nat.toDigits 10 n).map fun c => c.toNat - '0'.toNat)
        = Nat.ofDigitChars 10 (Nat.toDigits 10 n) 0 := by
          rw [← foldl_zero_digits, List.foldl_map]
          simp only [Nat.ofDigitChars, Nat.mul_comm]
      _ = n := Nat.ofDigitChars_ten_toDigits

/-- Digits do not start with a sign. -/
theorem toDigits_ne_sign (n : ℕ) (cs : List Char) : Nat.toDigits 10 n ≠ '-' :: cs := by
  intro h
  have hdigit := Nat.isDigit_of_mem_toDigits (c := '-') (by decide) (by decide)
    (h ▸ List.mem_cons_self)
  exact absurd hdigit (by decide)

theorem natOfText_toDigits (n : ℕ) : natOfText 10 0 (Nat.toDigits 10 n) = some n := by
  obtain ⟨ds, hds, hval⟩ := toDigits_digits n
  have hfilter : (Nat.toDigits 10 n).filter (· ≠ '_') = Nat.toDigits 10 n := by
    rw [List.filter_eq_self]
    rintro c hc
    have hne : c ≠ '_' := by
      rintro rfl
      exact Nat.underscore_not_in_toDigits hc
    simpa using hne
  refine natOfText_eq_some.mpr ⟨ds, hfilter.symm ▸ hds, ?_⟩
  rw [foldl_zero_digits, hval]

/-- Read as hexadecimal, a decimal text of two digits or more denotes a larger number. -/
theorem lt_hexadecimal {n : ℕ} {ds : List ℕ} (hds : DigitsOf 16 (Nat.toDigits 10 n) ds)
    (hlen : 1 < (Nat.toDigits 10 n).length) : n < readDigits 16 ds := by
  obtain ⟨ds', hds', hval⟩ := toDigits_digits n
  obtain rfl := hds'.unique hds
  rw [hds'.length_eq] at hlen
  obtain ⟨v, vs, rfl⟩ := List.exists_cons_of_length_pos (by omega : 0 < ds'.length)
  have hvs : 0 < vs.length := by simpa using hlen
  -- a leading zero would make the text longer than the number is
  have hv : 0 < v := by
    by_contra hzero
    obtain rfl : v = 0 := by omega
    have hlt : n < 10 ^ vs.length := by
      rw [← hval, readDigits_cons, zero_mul, zero_add]
      refine readDigits_lt_pow (by decide) fun v hv => ?_
      obtain ⟨c, -, -, hlt⟩ := exists_of_forall₂ hds' v (List.mem_cons_of_mem _ hv)
      exact hlt
    have hle := (Nat.length_toDigits_le_iff (by decide) hvs).mpr hlt
    rw [hds'.length_eq, List.length_cons] at hle
    omega
  calc n = readDigits 10 (v :: vs) := hval.symm
    _ < readDigits 16 (v :: vs) := readDigits_lt (by decide) hv (List.ne_nil_of_length_pos hvs)

/-! ### Texts without white space and without a prefix -/

theorem trim_eq_self {s : String} (h : ∀ c ∈ s.toList, ¬ isWhitespace c) : trim s = s := by
  have hdrop (cs : List Char) (hcs : ∀ c ∈ cs, ¬ isWhitespace c) :
      cs.dropWhile isWhitespace = cs := by
    cases cs with
    | nil => rfl
    | cons c cs => exact List.dropWhile_cons_of_neg (hcs c List.mem_cons_self)
  rw [trim, hdrop _ h, hdrop _ (by simpa using h), List.reverse_reverse, String.ofList_toList]

theorem strip0x_eq_self {s : String} (h : 'x' ∉ s.toList ∧ 'X' ∉ s.toList) : strip0x s = s := by
  refine if_neg fun hhex => ?_
  obtain ⟨cs, hcs | hcs⟩ := hexPrefixed_iff.mp hhex
  · exact h.1 (by simp [hcs])
  · exact h.2 (by simp [hcs])

/-- A character that integers are written in. -/
def IntegerChar (c : Char) : Prop := c = '-' ∨ c.isDigit

theorem IntegerChar.plain {c : Char} (h : IntegerChar c) :
    ¬ isWhitespace c ∧ c ≠ 'x' ∧ c ≠ 'X' := by
  have hall : ∀ n < 58, (Char.ofNat n = '-' ∨ (Char.ofNat n).isDigit) →
      ¬ isWhitespace (Char.ofNat n) ∧ Char.ofNat n ≠ 'x' ∧ Char.ofNat n ≠ 'X' := by decide
  have hc : c.toNat < 58 := by
    rcases h with rfl | hdigit
    · decide
    · exact Nat.lt_succ_of_le (toNat_le_of_isDigit hdigit)
  simpa using hall c.toNat hc (by simpa [IntegerChar] using h)

/-- The decoder reads the bytes of a text of hexadecimal digits without a prefix. -/
def NumberLibrary.DecodesHex (lib : NumberLibrary) : Prop :=
  ∀ s bs, ¬ s.startsWith "0x" → (lib.hexDecode s = .ok bs ↔ hexBytes s.toList = some bs)

theorem asBytes_integerText (hdecode : d.DecodesHex) {v : Value} {s : String} {bs : Bytes}
    (hv : asString d v = .ok s) (hs : ∀ c ∈ s.toList, IntegerChar c) :
    asBytes d v = .ok bs ↔ hexBytes s.toList = some bs := by
  have hstrip : strip0x (trim s) = s := by
    rw [trim_eq_self fun c hc => (hs c hc).plain.1]
    exact strip0x_eq_self
      ⟨fun hx => (hs _ hx).plain.2.1 rfl, fun hx => (hs _ hx).plain.2.2 rfl⟩
  have hprefix : ¬ s.startsWith "0x" := by
    rw [String.startsWith_string_iff]
    rintro ⟨cs, hcs⟩
    exact (hs 'x' (by simp [← hcs])).plain.2.1 rfl
  have hbind : asBytes d v = (d.hexDecode s).mapError (Error.invalidHexBytes s) := by
    rw [asBytes, hv]
    change (d.hexDecode (strip0x (trim s))).mapError (Error.invalidHexBytes s) = _
    rw [hstrip]
  rw [hbind, mapError_eq_ok, hdecode s bs hprefix]

/-! ### Integers -/

/-- The YAML scalar of an integer. -/
def Number.ofInt : ℤ → Number
  | .ofNat n => .posInt n
  | .negSucc n => .negInt (.negSucc n)

/-- Integers are printed in decimal. -/
def NumberLibrary.PrintsIntegers (lib : NumberLibrary) : Prop :=
  ∀ v : ℤ, lib.numberToString (.ofInt v) = toString v

theorem toString_natCast_toList (n : ℕ) : (toString (n : ℤ)).toList = Nat.toDigits 10 n :=
  Nat.toList_repr

theorem toString_negSucc_toList (n : ℕ) :
    (toString (Int.negSucc n)).toList = '-' :: Nat.toDigits 10 (n + 1) := by
  change ("-" ++ (n + 1).repr).toList = _
  rw [String.toList_append, Nat.toList_repr]
  rfl

theorem integerChar_toString (v : ℤ) : ∀ c ∈ (toString v).toList, IntegerChar c := by
  have hdigits (n : ℕ) : ∀ c ∈ Nat.toDigits 10 n, IntegerChar c :=
    fun c hc => .inr (Nat.isDigit_of_mem_toDigits (by decide) (by decide) hc)
  cases v with
  | ofNat n =>
    rw [Int.ofNat_eq_natCast, toString_natCast_toList]
    exact hdigits n
  | negSucc n =>
    rw [toString_negSucc_toList]
    exact List.forall_mem_cons.mpr ⟨.inl rfl, hdigits (n + 1)⟩

/-- The bytes of an integer are those of its decimal text, read as hexadecimal. -/
theorem asBytes_integer (hprint : d.PrintsIntegers) (hdecode : d.DecodesHex) {v : ℤ} {bs : Bytes} :
    asBytes d (.number (.ofInt v)) = .ok bs ↔ hexBytes (toString v).toList = some bs :=
  asBytes_integerText hdecode (congrArg Except.ok (hprint v)) (integerChar_toString v)

/-- The text of a negative integer starts with its sign, which is no digit. -/
theorem hexBytes_negative {v : ℤ} (h : v < 0) : hexBytes (toString v).toList = none := by
  obtain ⟨n, rfl⟩ := Int.eq_negSucc_of_lt_zero h
  rw [toString_negSucc_toList]
  cases Nat.toDigits 10 (n + 1) with
  | nil => rfl
  | cons c cs => rfl

/-- Bytes read from the text of an integer denote another number. -/
theorem hexBytes_integer_ne {v : ℤ} {bs : Bytes} (h : hexBytes (toString v).toList = some bs) :
    (ofBytes bs : ℤ) ≠ v := by
  cases v with
  | ofNat n =>
    rw [Int.ofNat_eq_natCast, toString_natCast_toList] at h
    obtain ⟨hlen, ds, hds, hval⟩ := hexBytes_digits h
    have hpos : 0 < (Nat.toDigits 10 n).length := Nat.length_toDigits_pos
    have hlt : n < ofBytes bs := hval ▸ lt_hexadecimal hds (by omega)
    rw [Int.ofNat_eq_natCast]
    exact_mod_cast hlt.ne'
  | negSucc n =>
    rw [hexBytes_negative (Int.negSucc_lt_zero n)] at h
    cases h

/-! ### Bytes arguments -/

/-- The bytes of a value, without the padding of its word. -/
def DynSolValue.payload : DynSolValue → Bytes
  | .bytes b => b
  | .fixedBytes word n => word.take n
  | _ => []

/-- `bytes`, or `bytes<n>` of any length. -/
inductive DynSolType.IsBytes : DynSolType → Prop where
  | bytes : IsBytes .bytes
  | fixedBytes (n : ℕ) : IsBytes (.fixedBytes n)

/-- A text of so many hexadecimal digits is a value of the type. -/
def DynSolType.TakesDigits : DynSolType → ℕ → Prop
  | .bytes, k => Even k
  | .fixedBytes n, k => k = 2 * n
  | _, _ => False

theorem DynSolType.TakesDigits.even {ty : DynSolType} {k : ℕ} (h : ty.TakesDigits k) : Even k := by
  cases ty with
  | bytes => exact h
  | fixedBytes n => exact even_iff_exists_two_mul.mpr ⟨n, h⟩
  | _ => exact h.elim

/-- A bytes argument is the decoded text, where it has the length of the type. -/
theorem convertOne_payload {ty : DynSolType} (hty : ty.IsBytes) {v : Value} {bs : Bytes} :
    (∃ x, convertOne d ty v = .ok x ∧ x.payload = bs) ↔
      asBytes d v = .ok bs ∧ ty.TakesDigits (2 * bs.length) := by
  cases hty with
  | bytes =>
    simp only [convertOne, bind_eq_ok, pure_eq_ok, DynSolType.TakesDigits]
    constructor
    · rintro ⟨x, ⟨b, hb, rfl⟩, rfl⟩
      exact ⟨hb, even_two_mul _⟩
    · rintro ⟨hb, -⟩
      exact ⟨_, ⟨bs, hb, rfl⟩, rfl⟩
  | fixedBytes n =>
    simp only [convertOne, ↓check_bind_eq_ok, bind_eq_ok, pure_eq_ok, bailIf_eq_ok, not_not,
      DynSolType.TakesDigits]
    constructor
    · rintro ⟨x, ⟨b, hb, rfl, rfl⟩, rfl⟩
      simp [DynSolValue.payload, hb]
    · rintro ⟨hb, hlen⟩
      obtain rfl : bs.length = n := by omega
      exact ⟨_, ⟨bs, hb, rfl, rfl⟩, by simp [DynSolValue.payload]⟩

/-- An integer and a literal that spells it in hexadecimal give the same bytes, those that
denote it, exactly when the integer is rejected: when it is negative, or when its decimal text
is not as long as the hexadecimal text of a value of the type. -/
theorem convertOne_integer_iff (hprint : d.PrintsIntegers) (hdecode : d.DecodesHex)
    {ty : DynSolType} (hty : ty.IsBytes) (v : ℤ) :
    ((∀ x, convertOne d ty (.number (.ofInt v)) = .ok x → (ofBytes x.payload : ℤ) = v) ∧
      ∀ t cs ds x y, HexPrefixed t cs → DigitsOf 16 cs ds → (readDigits 16 ds : ℤ) = v →
        convertOne d ty (.string t) = .ok x → convertOne d ty (.number (.ofInt v)) = .ok y →
        x = y) ↔
      v < 0 ∨ ¬ ty.TakesDigits (toString v).length := by
  constructor
  · rintro ⟨hvalue, -⟩
    by_contra hno
    obtain ⟨hpos, htakes⟩ : 0 ≤ v ∧ ty.TakesDigits (toString v).length := by
      simpa using hno
    obtain ⟨n, rfl⟩ := Int.eq_ofNat_of_zero_le hpos
    rw [← String.length_toList] at htakes
    obtain ⟨bs, hbs⟩ : ∃ bs, hexBytes (toString (n : ℤ)).toList = some bs := by
      obtain ⟨ds, hds, -⟩ := toDigits_digits n
      have hhex : DigitsOf 16 (toString (n : ℤ)).toList ds := by
        rw [toString_natCast_toList]
        exact hds.imp fun c v h => ⟨h.1, h.2.trans (by decide)⟩
      exact exists_hexBytes hhex htakes.even
    rw [(hexBytes_digits hbs).1] at htakes
    obtain ⟨x, hx, rfl⟩ := (convertOne_payload hty).mpr
      ⟨(asBytes_integer hprint hdecode).mpr hbs, htakes⟩
    exact hexBytes_integer_ne hbs (hvalue x hx)
  · intro hrejected
    have hno (x : DynSolValue) : convertOne d ty (.number (.ofInt v)) ≠ .ok x := by
      intro hx
      obtain ⟨hb, htakes⟩ := (convertOne_payload hty).mp ⟨x, hx, rfl⟩
      rw [asBytes_integer hprint hdecode] at hb
      rcases hrejected with hneg | hlen
      · rw [hexBytes_negative hneg] at hb
        cases hb
      · rw [← String.length_toList, (hexBytes_digits hb).1] at hlen
        exact hlen htakes
    exact ⟨fun x hx => absurd hx (hno x), fun t cs ds x y _ _ _ _ hy => absurd hy (hno y)⟩

/-! ### The reference parsers -/

theorem Reference.printsIntegers : reference.toNumberLibrary.PrintsIntegers := by
  intro v
  cases v <;> rfl

theorem Reference.decodesHex : reference.toNumberLibrary.DecodesHex := by
  intro s bs _
  rw [reference]
  cases h : hexBytes s.toList <;> simp [h]

/-- Quoted, 0x10 is the byte 0x10; unquoted it is the integer 16, sent as the byte 0x16. -/
theorem unquoted_literal_differs :
    ∃ quoted unquoted,
      convertOne reference (.fixedBytes 1) (.string "0x10") = .ok quoted ∧
      convertOne reference (.fixedBytes 1) (.number (.ofInt 0x10)) = .ok unquoted ∧
      ofBytes quoted.payload = 0x10 ∧ ofBytes unquoted.payload = 0x16 := by
  have htext : strip0x (trim "0x10") = "10" := by decide +kernel
  have hquoted : asBytes reference (.string "0x10") = .ok [0x10] := by
    change (reference.hexDecode (strip0x (trim "0x10"))).mapError _ = _
    rw [htext, mapError_eq_ok]
    exact (Reference.decodesHex "10" [0x10] (by decide +kernel)).mpr (by decide)
  have hunquoted : asBytes reference (.number (.ofInt 0x10)) = .ok [0x16] :=
    (asBytes_integer Reference.printsIntegers Reference.decodesHex).mpr (by decide)
  obtain ⟨x, hx, hxval⟩ := (convertOne_payload (.fixedBytes 1)).mpr ⟨hquoted, rfl⟩
  obtain ⟨y, hy, hyval⟩ := (convertOne_payload (.fixedBytes 1)).mpr ⟨hunquoted, rfl⟩
  exact ⟨x, y, hx, hy, by rw [hxval]; rfl, by rw [hyval]; rfl⟩

/-- Three decimal digits are no bytes. -/
theorem odd_literal_rejected :
    ¬ Even (toString (0x100 : ℤ)).length ∧
      ∀ x, convertOne reference .bytes (.number (.ofInt 0x100)) = .ok x →
        (ofBytes x.payload : ℤ) = 0x100 := by
  have hodd : ¬ Even (toString (0x100 : ℤ)).length := by decide
  refine ⟨hodd, ?_⟩
  exact ((convertOne_integer_iff Reference.printsIntegers Reference.decodesHex .bytes 0x100).mpr
    (.inr hodd)).1

end EvmExporter
