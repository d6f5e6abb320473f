import EvmExporter.Config.EnvValue
import EvmExporter.Lib.Radix
import EvmExporter.Reference

/-! The strings that unsigned arguments accept. The number parser skips underscores and takes
a text without digits for zero, so besides the spellings of numbers it accepts the texts with
nothing to read: underscores, a bare prefix, and the empty text of an unset variable. -/

namespace EvmExporter

open Lib Reference

variable {d : Deps}

/-! ### Digits of a text -/

/-- The characters are the digits `ds` of the radix. -/
def DigitsOf (radix : ℕ) (cs : List Char) (ds : List ℕ) : Prop :=
  List.Forall₂ (fun c v => hexDigit c = some v ∧ v < radix) cs ds

/-- Reading a text skips the underscores and reads the digits that remain. -/
theorem natOfText_eq_some {radix m n : ℕ} {cs : List Char} :
    natOfText radix m cs = some n ↔ ∃ ds, DigitsOf radix (cs.filter (· ≠ '_')) ds ∧
      n = ds.foldl (fun n v => n * radix + v) m := by
  induction cs generalizing m with
  | nil => simp [natOfText, DigitsOf, eq_comm]
  | cons c cs ih =>
    rw [natOfText]
    by_cases hunder : c = '_'
    · rw [if_pos hunder, ih, List.filter_cons_of_neg (by simp [hunder])]
    · rw [if_neg hunder, List.filter_cons_of_pos (by simp [hunder])]
      constructor
      · intro h
        split at h
        next v hv =>
          split_ifs at h with hlt
          obtain ⟨ds, hds, rfl⟩ := ih.mp h
          exact ⟨v :: ds, .cons ⟨hv, hlt⟩ hds, rfl⟩
        next => cases h
      · rintro ⟨ds, hds, rfl⟩
        obtain ⟨v, vs, ⟨hv, hlt⟩, hvs, rfl⟩ := List.forall₂_cons_left_iff.mp hds
        simp only [hv, if_pos hlt]
        exact ih.mpr ⟨vs, hvs, rfl⟩

/-- The text is a run of digits and underscores with a digit among them, and denotes `n`. -/
def DigitRun (radix : ℕ) (cs : List Char) (n : ℕ) : Prop :=
  ∃ ds, ds ≠ [] ∧ DigitsOf radix (cs.filter (· ≠ '_')) ds ∧ n = readDigits radix ds

/-- Nothing but underscores, if anything. -/
def Blank (cs : List Char) : Prop := ∀ c ∈ cs, c = '_'

theorem blank_iff {cs : List Char} : Blank cs ↔ cs.filter (· ≠ '_') = [] := by
  simp [Blank, List.filter_eq_nil_iff]

theorem natOfText_zero {radix n : ℕ} {cs : List Char} :
    natOfText radix 0 cs = some n ↔ DigitRun radix cs n ∨ (Blank cs ∧ n = 0) := by
  simp only [natOfText_eq_some, foldl_zero_digits, DigitRun, blank_iff]
  constructor
  · rintro ⟨ds, hds, rfl⟩
    cases ds with
    | nil => exact .inr ⟨List.forall₂_nil_right_iff.mp hds, rfl⟩
    | cons v ds => exact .inl ⟨_, List.cons_ne_nil v ds, hds, rfl⟩
  · rintro (⟨ds, -, hds, rfl⟩ | ⟨hnil, rfl⟩)
    · exact ⟨ds, hds, rfl⟩
    · exact ⟨[], hnil ▸ .nil, rfl⟩

/-- A text with nothing to read is not a number. -/
theorem DigitRun.not_blank {radix n : ℕ} {cs : List Char} (h : DigitRun radix cs n) :
    ¬ Blank cs := by
  obtain ⟨ds, hne, hds, -⟩ := h
  intro hblank
  rw [blank_iff.mp hblank] at hds
  exact hne (List.forall₂_nil_left_iff.mp hds)

/-! ### Prefixes -/

/-- The text is a prefix, `0x` or `0X`, and then `cs`. -/
def HexPrefixed (t : String) (cs : List Char) : Prop :=
  t.toList = '0' :: 'x' :: cs ∨ t.toList = '0' :: 'X' :: cs

theorem hexPrefixed_iff {t : String} :
    (t.startsWith "0x" ∨ t.startsWith "0X") ↔ ∃ cs, HexPrefixed t cs := by
  simp only [String.startsWith_string_iff, HexPrefixed, exists_or]
  exact or_congr (exists_congr fun _ => eq_comm) (exists_congr fun _ => eq_comm)

theorem HexPrefixed.strip0x {t : String} {cs : List Char} (h : HexPrefixed t cs) :
    (strip0x t).toList = cs := by
  rw [EvmExporter.strip0x, if_pos (hexPrefixed_iff.mpr ⟨cs, h⟩), String.toList_ofList]
  rcases h with h | h <;> rw [h] <;> rfl

theorem HexPrefixed.unique {t : String} {cs cs' : List Char} (h : HexPrefixed t cs)
    (h' : HexPrefixed t cs') : cs = cs' := h.strip0x.symm.trans h'.strip0x

theorem HexPrefixed.exists_iff {t : String} {cs : List Char} (h : HexPrefixed t cs)
    {P : List Char → Prop} : (∃ cs', HexPrefixed t cs' ∧ P cs') ↔ P cs :=
  ⟨fun ⟨_, h', hP⟩ => h.unique h' ▸ hP, fun hP => ⟨cs, h, hP⟩⟩

/-- A prefix does not go with decimal digits. -/
theorem HexPrefixed.not_digitRun {t : String} {cs : List Char} (h : HexPrefixed t cs) (n : ℕ) :
    ¬ DigitRun 10 t.toList n := by
  intro hrun
  have hread : natOfText 10 0 t.toList = some n := natOfText_zero.mpr (.inl hrun)
  rcases h with h | h <;> simp [h, natOfText, hexDigit] at hread

theorem HexPrefixed.not_blank {t : String} {cs : List Char} (h : HexPrefixed t cs) :
    ¬ Blank t.toList := by
  rcases h with h | h <;> simp [h, Blank]

/-! ### Unsigned arguments -/

/-- The text spells the number, below 2^256: in decimal, or in hexadecimal behind a prefix. -/
def SpellsUint (t : String) (n : ℕ) : Prop :=
  n < 2 ^ 256 ∧ (DigitRun 10 t.toList n ∨ ∃ cs, HexPrefixed t cs ∧ DigitRun 16 cs n)

/-- There is nothing to read in the text, or none behind its prefix. -/
def NothingToRead (t : String) : Prop := Blank t.toList ∨ ∃ cs, HexPrefixed t cs ∧ Blank cs

/-- The parser skips every underscore, takes a text without digits for zero, and rejects the
characters that are not digits of the radix and the numbers of 2^256 or more. -/
def NumberLibrary.ParsesDigits (lib : NumberLibrary) : Prop :=
  ∀ s radix v, radix ∈ [10, 16] →
    (lib.u256FromStrRadix s radix = .ok v ↔ natOfText radix 0 s.toList = some v.toNat)

/-- What is accepted: the spellings of numbers, and as zero the texts with nothing to read. -/
theorem asU256_string_eq_ok (hparse : d.ParsesDigits) {s : String} {n : U256} :
    asU256 d (.string s) = .ok n ↔
      SpellsUint (trim s) n.toNat ∨ (NothingToRead (trim s) ∧ n.toNat = 0) := by
  have hlt : n.toNat < 2 ^ 256 := n.isLt
  simp only [asU256, SpellsUint, NothingToRead]
  split_ifs with hhex
  · obtain ⟨cs, hcs⟩ := hexPrefixed_iff.mp hhex
    rw [mapError_eq_ok, hparse _ 16 _ (by decide), hcs.strip0x, natOfText_zero, hcs.exists_iff,
      hcs.exists_iff]
    simp only [hlt, hcs.not_digitRun, hcs.not_blank, true_and, false_or]
  · have hno (cs : List Char) : ¬ HexPrefixed (trim s) cs :=
      fun h => hhex (hexPrefixed_iff.mpr ⟨cs, h⟩)
    rw [mapError_eq_ok, hparse _ 10 _ (by decide), natOfText_zero]
    simp only [hlt, hno, true_and, false_and, exists_false, or_false]

theorem SpellsUint.not_nothingToRead {t : String} {n : ℕ} (h : SpellsUint t n) :
    ¬ NothingToRead t := by
  obtain ⟨-, hrun | ⟨cs, hcs, hrun⟩⟩ := h
  · rintro (hblank | ⟨cs, hcs, -⟩)
    · exact hrun.not_blank hblank
    · exact hcs.not_digitRun n hrun
  · rintro (hblank | hblank)
    · exact hcs.not_blank hblank
    · exact hrun.not_blank (hcs.exists_iff.mp hblank)

/-- A string is accepted exactly for the number it spells, unless there is nothing to read
in it: that is accepted as zero. -/
theorem asU256_string_iff (hparse : d.ParsesDigits) (s : String) :
    (∀ n : U256, asU256 d (.string s) = .ok n ↔ SpellsUint (trim s) n.toNat) ↔
      ¬ NothingToRead (trim s) := by
  constructor
  · intro h hnothing
    have hzero : asU256 d (.string s) = .ok 0 :=
      (asU256_string_eq_ok hparse).mpr (.inr ⟨hnothing, rfl⟩)
    exact ((h 0).mp hzero).not_nothingToRead hnothing
  · intro h n
    rw [asU256_string_eq_ok hparse]
    simp only [h, false_and, or_false]

theorem Reference.parsesDigits : reference.toNumberLibrary.ParsesDigits := by
  intro s radix v _
  change u256FromStrRadix s radix = .ok v ↔ _
  unfold u256FromStrRadix
  split
  next n hn =>
    rw [hn]
    rw [Option.some.injEq]
    split_ifs with hlt
    · rw [Except.ok.injEq, BitVec.toNat_eq, BitVec.toNat_ofNat, Nat.mod_eq_of_lt hlt]
    · have hv : v.toNat < 2 ^ 256 := v.isLt
      exact iff_of_false (by simp) (by omega)
  next hn => simp [hn]

/-- A hexadecimal amount, its digits grouped, is accepted for the number it spells. -/
theorem grouped_amount_spelled :
    asU256 reference (.string " 0x2_A ") = .ok 42 ∧ SpellsUint (trim " 0x2_A ") 42 := by
  have htrim : trim " 0x2_A " = "0x2_A" := by decide
  have hprefix : HexPrefixed "0x2_A" ['2', '_', 'A'] := .inl (by decide)
  have hdigits : DigitRun 16 ['2', '_', 'A'] 42 :=
    ⟨[2, 10], by decide, .cons (by decide) (.cons (by decide) .nil), rfl⟩
  have hspells : SpellsUint (trim " 0x2_A ") 42 := by
    rw [htrim]
    exact ⟨by decide, .inr ⟨_, hprefix, hdigits⟩⟩
  have hiff := (asU256_string_iff Reference.parsesDigits _).mpr hspells.not_nothingToRead 42
  exact ⟨hiff.mpr hspells, hspells⟩

/-- The amount of an unset variable is sent as zero. -/
theorem unset_amount_accepted :
    expandEnvValue (fun _ => .error .notPresent) (.string "$\x7bAMOUNT\x7d") =
        some (.string "") ∧
      asU256 reference (.string "") = .ok 0 ∧ ¬ SpellsUint (trim "") 0 :=
  ⟨rfl, rfl, fun h => h.not_nothingToRead (.inl (by simp [Blank, trim]))⟩

end EvmExporter
