import Mathlib.Data.List.Basic
import Mathlib.Data.List.Infix

/-! Expansion of references in a text. A reference is a word that begins with a mark found
nowhere else in it, so two of them never overlap and none is the beginning of another. A text
is expanded from left to right: a reference is replaced by its value, which is not read again,
and any other letter is copied. Every text has exactly one expansion, and a reference in the
middle of a text splits it into two that expand on their own. -/

namespace EvmExporter.Lib

/-- A word that is closed by a letter not in it can be told from what follows. -/
theorem append_cons_inj_left {α : Type*} {a : α} {x y r r' : List α} (hx : a ∉ x) (hy : a ∉ y)
    (h : x ++ a :: r = y ++ a :: r') : x = y := by
  induction x generalizing y with
  | nil =>
    cases y with
    | nil => rfl
    | cons b y =>
      obtain rfl : a = b := (List.cons.inj h).1
      exact absurd List.mem_cons_self hy
  | cons c x ih =>
    cases y with
    | nil =>
      obtain rfl : c = a := (List.cons.inj h).1
      exact absurd List.mem_cons_self hx
    | cons b y =>
      obtain ⟨rfl, hrest⟩ := List.cons.inj h
      rw [ih (List.not_mem_of_not_mem_cons hx) (List.not_mem_of_not_mem_cons hy) hrest]

/-- The words that stand for references, over letters `α` and names `ν`. -/
structure References (α ν : Type*) where
  mark : α
  body : ν → List α
  mark_notMem : ∀ n, mark ∉ body n
  unique : ∀ n m r r', body n ++ r = body m ++ r' → n = m

namespace References

variable {α ν : Type*}

/-- The reference to a name. -/
def word (R : References α ν) (n : ν) : List α := R.mark :: R.body n

/-- The text contains a reference. -/
def Occurs (R : References α ν) (s : List α) : Prop := ∃ n, R.word n <:+: s

variable (R : References α ν) (value : ν → List α)

/-- A text and its expansion. -/
inductive Expands : List α → List α → Prop where
  | nil : Expands [] []
  | reference (n : ν) {s t : List α} (h : Expands s t) : Expands (R.word n ++ s) (value n ++ t)
  | copy (c : α) {s t : List α} (hno : ∀ n, ¬ R.word n <+: c :: s) (h : Expands s t) :
      Expands (c :: s) (c :: t)

variable {R value}

/-- A reference at the head of a text has one name and one rest. -/
theorem word_append_inj {n m : ν} {s s' : List α} (h : R.word n ++ s = R.word m ++ s') :
    n = m ∧ s = s' := by
  have hbody : R.body n ++ s = R.body m ++ s' := (List.cons.inj h).2
  obtain rfl := R.unique n m s s' hbody
  exact ⟨rfl, List.append_cancel_left hbody⟩

/-- A reference that begins in front of another one ends there. -/
theorem word_prefix_append {n m : ν} {a s : List α} (ha : a ≠ [])
    (h : R.word n <+: a ++ (R.word m ++ s)) : R.word n <+: a := by
  obtain ⟨rest, hrest⟩ := h
  rcases List.append_eq_append_iff.mp hrest with ⟨tail, rfl, -⟩ | ⟨extra, hextra, hrest⟩
  · exact List.prefix_append _ _
  -- the part of the first reference that reaches into the second would hold its mark
  · cases extra with
    | nil => exact (hextra.trans (List.append_nil a)).symm ▸ List.prefix_refl a
    | cons c extra =>
      obtain rfl : R.mark = c := (List.cons.inj hrest).1
      cases a with
      | nil => exact absurd rfl ha
      | cons b a =>
        have hmem : R.mark ∈ R.body n := by
          rw [(List.cons.inj hextra).2]
          simp
        exact absurd hmem (R.mark_notMem n)

/-- A text has at most one expansion. -/
theorem Expands.unique {s t t' : List α} (h : R.Expands value s t) (h' : R.Expands value s t') :
    t = t' := by
  induction h generalizing t' with
  | nil =>
    cases h' with
    | nil => rfl
  | @reference n s t _ ih =>
    generalize hs : R.word n ++ s = s₀ at h'
    cases h' with
    | nil => cases hs
    | reference m h' =>
      obtain ⟨rfl, rfl⟩ := word_append_inj hs
      rw [ih h']
    | copy c hno h' => exact absurd ⟨s, hs⟩ (hno n)
  | @copy c s t hno _ ih =>
    generalize hs : c :: s = s₀ at h'
    cases h' with
    | nil => cases hs
    | @reference m s' t' h' => exact absurd ⟨s', hs.symm⟩ (hno m)
    | copy c' hno' h' =>
      obtain ⟨rfl, rfl⟩ := List.cons.inj hs
      rw [ih h']

/-- Every text has an expansion. -/
theorem exists_expands (R : References α ν) (value : ν → List α) (s : List α) :
    ∃ t, R.Expands value s t := by
  induction hlen : s.length using Nat.strong_induction_on generalizing s with
  | _ len ih =>
    subst hlen
    cases s with
    | nil => exact ⟨[], .nil⟩
    | cons c s =>
      by_cases hword : ∃ n, R.word n <+: c :: s
      · obtain ⟨n, rest, hrest⟩ := hword
        have hlt : rest.length < (c :: s).length := by
          rw [← hrest, List.length_append, word, List.length_cons]
          omega
        obtain ⟨t, ht⟩ := ih _ hlt rest rfl
        exact ⟨value n ++ t, hrest ▸ .reference n ht⟩
      · obtain ⟨t, ht⟩ := ih s.length (by simp) s rfl
        exact ⟨c :: t, .copy c (not_exists.mp hword) ht⟩

/-- A reference splits a text into two that expand on their own. -/
theorem Expands.append_word {a ea b eb : List α} (ha : R.Expands value a ea)
    (hb : R.Expands value b eb) (n : ν) :
    R.Expands value (a ++ (R.word n ++ b)) (ea ++ (value n ++ eb)) := by
  induction ha with
  | nil => exact .reference n hb
  | reference m _ ih =>
    rw [List.append_assoc, List.append_assoc]
    exact .reference m ih
  | copy c hno _ ih =>
    refine .copy c (fun m hm => ?_) ih
    exact hno m (word_prefix_append (List.cons_ne_nil _ _) hm)

/-- A text without references is its own expansion. -/
theorem expands_self {s : List α} (h : ¬ R.Occurs s) : R.Expands value s s := by
  induction s with
  | nil => exact .nil
  | cons c s ih =>
    refine .copy c (fun n hn => h ⟨n, hn.isInfix⟩) (ih fun ⟨n, hn⟩ => h ⟨n, ?_⟩)
    exact hn.trans (List.suffix_cons c s).isInfix

/-- A text with references gets shorter when all of them stand for nothing. -/
theorem Expands.length_lt {s t : List α} (h : R.Expands (fun _ => []) s t) (hs : R.Occurs s) :
    t.length < s.length := by
  have hle : ∀ {s t : List α}, R.Expands (fun _ => []) s t → t.length ≤ s.length := by
    intro s t h
    induction h with
    | nil => exact le_rfl
    | reference n _ ih => exact ih.trans (by simp)
    | copy c hno _ ih => exact Nat.succ_le_succ ih
  obtain ⟨n, a, b, rfl⟩ := hs
  obtain ⟨ea, hea⟩ := exists_expands R (fun _ => []) a
  obtain ⟨eb, heb⟩ := exists_expands R (fun _ => []) b
  rw [List.append_assoc] at h
  obtain rfl := h.unique (hea.append_word heb n)
  have ha := hle hea
  have hb := hle heb
  simp only [List.length_append, word, List.length_cons, List.length_nil]
  omega

end References

end EvmExporter.Lib
