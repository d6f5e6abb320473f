import Mathlib.Data.List.Basic
import Mathlib.Data.Nat.Notation

/-! Byte positions in a text. A program that walks a UTF-8 text by byte index slices it at
positions that may fall inside a character, where a slice is refused. The positions that do
not are the lengths of the beginnings of the text, and at such a position an ASCII byte is
an ASCII character. -/

namespace EvmExporter.Lib

/-- The UTF-8 bytes of a text. -/
def utf8Bytes (cs : List Char) : List UInt8 := cs.flatMap String.utf8EncodeChar

/-- The byte of an ASCII character. -/
def asciiByte (a : Char) : UInt8 := UInt8.ofNat a.toNat

/-- The number of bytes of a text. -/
def byteLength (cs : List Char) : ℕ := (utf8Bytes cs).length

/-- The text from a byte position on; none inside a character or behind the text. -/
def sliceFrom : List Char → ℕ → Option (List Char)
  | cs, 0 => some cs
  | [], _ + 1 => none
  | c :: cs, i + 1 => if c.utf8Size ≤ i + 1 then sliceFrom cs (i + 1 - c.utf8Size) else none

/-- The text up to a byte position. -/
def sliceTo : List Char → ℕ → Option (List Char)
  | _, 0 => some []
  | [], _ + 1 => none
  | c :: cs, i + 1 =>
    if c.utf8Size ≤ i + 1 then (sliceTo cs (i + 1 - c.utf8Size)).map (c :: ·) else none

/-- The text between two byte positions. -/
def slice (cs : List Char) (i j : ℕ) : Option (List Char) :=
  if i ≤ j then (sliceFrom cs i).bind fun tail => sliceTo tail (j - i) else none

/-- The byte position of the first occurrence of a character. -/
def findChar (a : Char) : List Char → Option ℕ
  | [] => none
  | c :: cs => if c = a then some 0 else (findChar a cs).map (c.utf8Size + ·)

@[simp] theorem byteLength_nil : byteLength [] = 0 := rfl

@[simp] theorem byteLength_cons (c : Char) (cs : List Char) :
    byteLength (c :: cs) = c.utf8Size + byteLength cs := by
  simp [byteLength, utf8Bytes]

@[simp] theorem byteLength_append (cs cs' : List Char) :
    byteLength (cs ++ cs') = byteLength cs + byteLength cs' := by
  simp [byteLength, utf8Bytes]

/-! ### Slices -/

@[simp] theorem sliceFrom_zero (cs : List Char) : sliceFrom cs 0 = some cs := by
  cases cs <;> rfl

@[simp] theorem sliceTo_zero (cs : List Char) : sliceTo cs 0 = some [] := by
  cases cs <;> rfl

theorem sliceFrom_cons_add (c : Char) (cs : List Char) (i : ℕ) :
    sliceFrom (c :: cs) (c.utf8Size + i) = sliceFrom cs i := by
  obtain ⟨k, hk⟩ := Nat.exists_eq_add_one_of_ne_zero (Nat.ne_of_gt c.utf8Size_pos)
  have hsucc : k + 1 + i = k + i + 1 := by omega
  have hrest : k + i + 1 - (k + 1) = i := by omega
  rw [hk, hsucc, sliceFrom, hk, if_pos (by omega), hrest]

theorem sliceTo_cons_add (c : Char) (cs : List Char) (i : ℕ) :
    sliceTo (c :: cs) (c.utf8Size + i) = (sliceTo cs i).map (c :: ·) := by
  obtain ⟨k, hk⟩ := Nat.exists_eq_add_one_of_ne_zero (Nat.ne_of_gt c.utf8Size_pos)
  have hsucc : k + 1 + i = k + i + 1 := by omega
  have hrest : k + i + 1 - (k + 1) = i := by omega
  rw [hk, hsucc, sliceTo, hk, if_pos (by omega), hrest]

theorem sliceFrom_byteLength_append (pre post : List Char) :
    sliceFrom (pre ++ post) (byteLength pre) = some post := by
  induction pre with
  | nil => exact sliceFrom_zero post
  | cons c pre ih => rw [byteLength_cons, List.cons_append, sliceFrom_cons_add, ih]

theorem sliceTo_byteLength_append (pre post : List Char) :
    sliceTo (pre ++ post) (byteLength pre) = some pre := by
  induction pre with
  | nil => exact sliceTo_zero post
  | cons c pre ih =>
    rw [byteLength_cons, List.cons_append, sliceTo_cons_add, ih]
    rfl

theorem findChar_append {a : Char} {pre post : List Char} (h : a ∉ pre) :
    findChar a (pre ++ a :: post) = some (byteLength pre) := by
  induction pre with
  | nil => simp [findChar]
  | cons c pre ih =>
    obtain ⟨hc, hpre⟩ := List.ne_and_not_mem_of_not_mem_cons h
    rw [List.cons_append, findChar, if_neg (Ne.symm hc), ih hpre, byteLength_cons]
    rfl

theorem findChar_eq_none {a : Char} {cs : List Char} (h : a ∉ cs) : findChar a cs = none := by
  induction cs with
  | nil => rfl
  | cons c cs ih =>
    obtain ⟨hc, hcs⟩ := List.ne_and_not_mem_of_not_mem_cons h
    rw [findChar, if_neg (Ne.symm hc), ih hcs]
    rfl

/-! ### Bytes -/

/-- The first byte of a character is an ASCII byte only for the ASCII character itself. -/
theorem utf8EncodeChar_head {c a : Char} (ha : a.toNat < 128) :
    (String.utf8EncodeChar c).head? = some (asciiByte a) ↔ c = a := by
  constructor
  · intro h
    apply Char.toNat_inj.mp
    have hv : c.val.toNat = c.toNat := rfl
    unfold String.utf8EncodeChar at h
    simp only [hv] at h
    -- the first byte of a longer encoding is at least 192
    split_ifs at h <;> simp only [List.head?_cons, Option.some.injEq, asciiByte] at h <;>
      have hn := congrArg UInt8.toNat h <;> simp only [UInt8.toNat_ofNat'] at hn <;> omega
  · rintro rfl
    have hle : c.toNat ≤ 127 := Nat.le_of_lt_succ ha
    simp [String.utf8EncodeChar, asciiByte, hle]

/-- At a position between characters an ASCII byte is the next character. -/
theorem utf8Bytes_getElem?_byteLength {a : Char} (ha : a.toNat < 128) (pre post : List Char) :
    (utf8Bytes (pre ++ post))[byteLength pre]? = some (asciiByte a) ↔ post.head? = some a := by
  have hskip : (utf8Bytes (pre ++ post))[byteLength pre]? = (utf8Bytes post).head? := by
    rw [utf8Bytes, List.flatMap_append, byteLength, utf8Bytes,
      List.getElem?_append_right (Nat.le_refl _), Nat.sub_self, List.head?_eq_getElem?]
    rfl
  rw [hskip]
  cases post with
  | nil => simp [utf8Bytes]
  | cons c cs =>
    rw [utf8Bytes, List.flatMap_cons, List.head?_append_of_ne_nil _ String.utf8EncodeChar_ne_nil,
      utf8EncodeChar_head ha, List.head?_cons, Option.some.injEq]

end EvmExporter.Lib
