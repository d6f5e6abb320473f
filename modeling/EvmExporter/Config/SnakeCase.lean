import EvmExporter.Config.Naming
import EvmExporter.Reference
import Mathlib.Data.List.Chain

/-! What `camel_to_snake` does to ASCII text. It lower-cases, and it puts an underscore
between two characters neither of which is one; so it keeps the underscores of the text where
they are, makes none that touch, and leaves a snake-case text alone. -/

namespace EvmExporter

open Lib

variable {d : Deps}

/-! ### ASCII -/

def Ascii (cs : List Char) : Prop := ∀ c ∈ cs, c.toNat < 128

/-- Lower case of an ASCII character. -/
theorem toLower_ascii {c : Char} (hc : c.toNat < 128) :
    c.toLower.toNat < 128 ∧ ¬ c.toLower.isUpper ∧ (c.toLower = '_' ↔ c = '_') := by
  have hall : ∀ n < 128, (Char.ofNat n).toLower.toNat < 128 ∧ ¬ (Char.ofNat n).toLower.isUpper ∧
      ((Char.ofNat n).toLower = '_' ↔ Char.ofNat n = '_') := by decide
  simpa using hall c.toNat hc

theorem toLower_of_not_isUpper {c : Char} (hc : c.toNat < 128) (h : ¬ c.isUpper) :
    c.toLower = c := by
  have hall : ∀ n < 128, ¬ (Char.ofNat n).isUpper → (Char.ofNat n).toLower = Char.ofNat n := by
    decide
  simpa [h] using hall c.toNat hc

/-! ### Word boundaries -/

/-- A boundary lies between two characters neither of which is an underscore. -/
theorem wordBoundary_spec {prev next : Option Char} {r : Char} (hprev : ∀ p ∈ prev, p.toNat < 128)
    (hr : r.toNat < 128) (h : wordBoundary d prev r next) :
    ∃ p, prev = some p ∧ p ≠ '_' ∧ r.isUpper := by
  cases prev with
  | none => cases h
  | some p =>
    have hp : p.toNat < 128 := hprev p rfl
    simp only [wordBoundary, d.isUppercase_ascii r hr, d.isLowercase_ascii p hp,
      d.isUppercase_ascii p hp, Bool.and_eq_true] at h
    obtain ⟨hupper, hbefore⟩ := h
    refine ⟨p, rfl, ?_, hupper⟩
    rintro rfl
    have hcase : '_'.isLower = false ∧ '_'.isDigit = false ∧ '_'.isUpper = false := by decide
    simp [hcase] at hbefore

theorem snakeFrom_cons {prev : Option Char} {c : Char} (hc : c.toNat < 128) (cs : List Char) :
    snakeFrom d prev (c :: cs) = (if wordBoundary d prev c cs.head? then ['_'] else []) ++
      c.toLower :: snakeFrom d (some c) cs := by
  rw [snakeFrom, d.toLowercase_ascii c hc, List.append_assoc, List.singleton_append]

/-- The text in front of a character: an underscore or nothing. -/
theorem mem_boundary {b : Bool} {c : Char} (h : c ∈ if b then ['_'] else []) : c = '_' := by
  split_ifs at h
  · exact List.mem_singleton.mp h
  · cases h

/-! ### The characters -/

theorem snakeFrom_lower {cs : List Char} (hcs : Ascii cs) (prev : Option Char) :
    ∀ c ∈ snakeFrom d prev cs, c.toNat < 128 ∧ ¬ c.isUpper := by
  induction cs generalizing prev with
  | nil => simp [snakeFrom]
  | cons c cs ih =>
    obtain ⟨hc, hcs⟩ := List.forall_mem_cons.mp hcs
    rw [snakeFrom_cons hc]
    intro a ha
    rcases List.mem_append.mp ha with ha | ha
    · rw [mem_boundary ha]
      decide
    · rcases List.mem_cons.mp ha with rfl | ha
      · exact ⟨(toLower_ascii hc).1, (toLower_ascii hc).2.1⟩
      · exact ih hcs (some c) a ha

/-- A text without capitals has no word boundaries. -/
theorem snakeFrom_of_lower {cs : List Char} (hcs : ∀ c ∈ cs, c.toNat < 128 ∧ ¬ c.isUpper)
    {prev : Option Char} (hprev : ∀ p ∈ prev, p.toNat < 128) : snakeFrom d prev cs = cs := by
  induction cs generalizing prev with
  | nil => rfl
  | cons c cs ih =>
    obtain ⟨⟨hc, hlower⟩, hcs⟩ := List.forall_mem_cons.mp hcs
    have hno : ¬ wordBoundary d prev c cs.head? := by
      intro h
      obtain ⟨p, -, -, hupper⟩ := wordBoundary_spec hprev hc h
      exact hlower hupper
    rw [snakeFrom_cons hc, if_neg hno, toLower_of_not_isUpper hc hlower,
      ih hcs (by rintro p ⟨⟩; exact hc), List.nil_append]

/-- Without its underscores the text is lower-cased and nothing else. -/
theorem snakeFrom_letters {cs : List Char} (hcs : Ascii cs) (prev : Option Char) :
    (snakeFrom d prev cs).filter (· ≠ '_') = (cs.map Char.toLower).filter (· ≠ '_') := by
  induction cs generalizing prev with
  | nil => rfl
  | cons c cs ih =>
    obtain ⟨hc, hcs⟩ := List.forall_mem_cons.mp hcs
    have hsep : (if wordBoundary d prev c cs.head? then ['_'] else []).filter (· ≠ '_') = [] := by
      split_ifs <;> rfl
    rw [snakeFrom_cons hc, List.filter_append, hsep, List.nil_append, List.map_cons]
    by_cases hunder : c.toLower = '_'
    · rw [List.filter_cons_of_neg (by simpa using hunder),
        List.filter_cons_of_neg (by simpa using hunder), ih hcs]
    · rw [List.filter_cons_of_pos (by simpa using hunder),
        List.filter_cons_of_pos (by simpa using hunder), ih hcs]

/-! ### The underscores -/

theorem snakeFrom_head? {cs : List Char} (hcs : Ascii cs) :
    (snakeFrom d none cs).head? = cs.head?.map Char.toLower := by
  cases cs with
  | nil => rfl
  | cons c cs =>
    rw [snakeFrom_cons (hcs c List.mem_cons_self)]
    rfl

theorem snakeFrom_getLast? {cs : List Char} (hcs : Ascii cs) (prev : Option Char) :
    (snakeFrom d prev cs).getLast? = cs.getLast?.map Char.toLower := by
  induction cs generalizing prev with
  | nil => rfl
  | cons c cs ih =>
    obtain ⟨hc, hcs⟩ := List.forall_mem_cons.mp hcs
    rw [snakeFrom_cons hc, List.getLast?_append_of_ne_nil _ (List.cons_ne_nil _ _),
      List.getLast?_cons, List.getLast?_cons, ih hcs]
    cases cs.getLast? <;> rfl

/-- Not both of them are underscores. -/
def Apart (a b : Char) : Prop := ¬ (a = '_' ∧ b = '_')

/-- Two underscores touch in a text exactly when they do in the other. -/
theorem touching_iff {cs : List Char} : ['_', '_'] <:+: cs ↔ ¬ cs.IsChain Apart := by
  constructor
  · intro h hchain
    have hpair := hchain.infix h
    simp [Apart] at hpair
  · contrapose!
    intro h
    refine (List.isChain_isInfix cs).imp ?_
    rintro a b hab ⟨rfl, rfl⟩
    exact h hab

/-- Behind a character that went into the text, no underscores come to touch: a separator has
a letter on either side. -/
theorem snakeFrom_isChain_iff {cs : List Char} (hcs : Ascii cs) {p : Char} (hp : p.toNat < 128) :
    (p.toLower :: snakeFrom d (some p) cs).IsChain Apart ↔ (p :: cs).IsChain Apart := by
  induction cs generalizing p with
  | nil => simp [snakeFrom]
  | cons c cs ih =>
    obtain ⟨hc, hcs⟩ := List.forall_mem_cons.mp hcs
    have hpl : p.toLower = '_' ↔ p = '_' := (toLower_ascii hp).2.2
    have hcl : c.toLower = '_' ↔ c = '_' := (toLower_ascii hc).2.2
    rw [snakeFrom_cons hc, List.isChain_cons_cons]
    by_cases hb : wordBoundary d (some p) c cs.head?
    · obtain ⟨q, hq, hunder, hupper⟩ := wordBoundary_spec (by rintro q ⟨⟩; exact hp) hc hb
      obtain rfl : p = q := Option.some.inj hq
      have hcunder : c ≠ '_' := by
        rintro rfl
        revert hupper
        decide
      rw [if_pos hb, List.singleton_append, List.isChain_cons_cons, List.isChain_cons_cons, ih hcs hc]
      simp [Apart, hpl, hcl, hunder, hcunder]
    · rw [if_neg hb, List.nil_append, List.isChain_cons_cons, ih hcs hc]
      simp [Apart, hpl, hcl]

theorem snakeFrom_touching {cs : List Char} (hcs : Ascii cs) :
    ['_', '_'] <:+: snakeFrom d none cs ↔ ['_', '_'] <:+: cs := by
  cases cs with
  | nil => rfl
  | cons c cs =>
    obtain ⟨hc, hcs⟩ := List.forall_mem_cons.mp hcs
    rw [snakeFrom_cons hc, touching_iff, touching_iff]
    exact not_congr (snakeFrom_isChain_iff hcs hc)

/-! ### The whole text -/

theorem camelToSnake_toList (s : String) :
    (camelToSnake d s).toList = snakeFrom d none s.toList :=
  String.toList_ofList

/-- An end of the text is an underscore when that end of the other is. -/
theorem map_toLower_eq_underscore {o : Option Char} (ho : ∀ c ∈ o, c.toNat < 128) :
    o.map Char.toLower = some '_' ↔ o = some '_' := by
  cases o with
  | none => rfl
  | some c => simpa using (toLower_ascii (ho c rfl)).2.2

/-- Snake case lower-cases and separates: the capitals go, the letters and the underscores of
the text stay, and an underscore that is put in has letters around it. -/
theorem camelToSnake_ascii {s : String} (hs : ∀ c ∈ s.toList, c.toNat < 128) :
    (∀ c ∈ (camelToSnake d s).toList, ¬ c.isUpper) ∧
    camelToSnake d (camelToSnake d s) = camelToSnake d s ∧
    (camelToSnake d s).toList.filter (· ≠ '_') =
      (s.toList.map Char.toLower).filter (· ≠ '_') ∧
    ((camelToSnake d s).toList.head? = some '_' ↔ s.toList.head? = some '_') ∧
    ((camelToSnake d s).toList.getLast? = some '_' ↔ s.toList.getLast? = some '_') ∧
    (['_', '_'] <:+: (camelToSnake d s).toList ↔ ['_', '_'] <:+: s.toList) := by
  have hlower := snakeFrom_lower (d := d) hs none
  refine ⟨?_, ?_, ?_, ?_, ?_, ?_⟩
  · rw [camelToSnake_toList]
    exact fun c hc => (hlower c hc).2
  · rw [← String.toList_inj, camelToSnake_toList, camelToSnake_toList,
      snakeFrom_of_lower hlower (by simp)]
  · rw [camelToSnake_toList]
    exact snakeFrom_letters hs none
  · rw [camelToSnake_toList, snakeFrom_head? hs]
    exact map_toLower_eq_underscore fun c hc => hs c (List.mem_of_mem_head? hc)
  · rw [camelToSnake_toList, snakeFrom_getLast? hs]
    exact map_toLower_eq_underscore fun c hc => hs c (List.mem_of_mem_getLast? hc)
  · rw [camelToSnake_toList]
    exact snakeFrom_touching hs

/-- An acronym, a camel-case word and an underscore of the text's own. -/
theorem fee_apr_lowered : camelToSnake reference "feeAPR_V2" = "fee_apr_v2" ∧
    camelToSnake reference (camelToSnake reference "feeAPR_V2") =
      camelToSnake reference "feeAPR_V2" :=
  ⟨by decide, (camelToSnake_ascii (by simp)).2.1⟩

end EvmExporter
