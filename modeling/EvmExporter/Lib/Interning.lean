import Mathlib.Data.List.AList
import Mathlib.Data.List.Induction

/-! Interning: a growing vector of distinct items and an index from an item's key
to its position. `intern` returns the old position of a known item and appends an
unknown one. The invariant ties the index to the vector; from it, interning a
sequence lists its distinct items in order of first occurrence, and hands out the
position of each. -/

namespace EvmExporter.Lib

variable {α κ : Type*}

/-- The vector of items and the index into it. -/
structure Interner (α κ : Type*) where
  items : List α
  index : AList (fun _ : κ => ℕ)

namespace Interner

/-- The interner that has seen nothing. -/
def empty : Interner α κ := ⟨[], ∅⟩

variable [DecidableEq κ]

/-- The position of `a`, which is appended when its key is new. -/
def intern (key : α → κ) (t : Interner α κ) (a : α) : Interner α κ × ℕ :=
  match t.index.lookup (key a) with
  | some i => (t, i)
  | none => (⟨t.items ++ [a], t.index.insert (key a) t.items.length⟩, t.items.length)

/-- The vector after interning every element of `l`. -/
def internAll (key : α → κ) (t : Interner α κ) (l : List α) : Interner α κ :=
  l.foldl (fun t a => (t.intern key a).1) t

theorem internAll_append (key : α → κ) (t : Interner α κ) (l l' : List α) :
    t.internAll key (l ++ l') = (t.internAll key l).internAll key l' := List.foldl_append

variable [DecidableEq α]

/-- The items are distinct and the index holds the position of each. -/
structure Coherent (key : α → κ) (t : Interner α κ) : Prop where
  nodup : t.items.Nodup
  lookup_key : ∀ a, t.index.lookup (key a) = if a ∈ t.items then some (t.items.idxOf a) else none

variable {key : α → κ} {t : Interner α κ}

theorem coherent_empty (key : α → κ) : Coherent key (empty : Interner α κ) :=
  ⟨List.nodup_nil, fun a => by simp [empty]⟩

/-- On a coherent interner the key lookup is a membership test. -/
theorem intern_eq (h : t.Coherent key) (a : α) :
    ((t.intern key a).1.items = if a ∈ t.items then t.items else t.items ++ [a]) ∧
      (t.intern key a).2 = (t.intern key a).1.items.idxOf a := by
  unfold intern
  rw [h.lookup_key a]
  by_cases ha : a ∈ t.items
  · simp [ha]
  · simp [ha, List.idxOf_append_of_notMem]

theorem intern_items (h : t.Coherent key) (a : α) :
    (t.intern key a).1.items = if a ∈ t.items then t.items else t.items ++ [a] :=
  (intern_eq h a).1

theorem intern_position (h : t.Coherent key) (a : α) :
    (t.intern key a).2 = (t.intern key a).1.items.idxOf a :=
  (intern_eq h a).2

theorem intern_coherent (hkey : Function.Injective key) (h : t.Coherent key) (a : α) :
    (t.intern key a).1.Coherent key := by
  unfold intern
  rw [h.lookup_key a]
  by_cases ha : a ∈ t.items
  · simpa [ha] using h
  · simp only [ha, ↓reduceIte]
    refine ⟨List.nodup_append.mpr ⟨h.nodup, by simp, ?_⟩, fun b => ?_⟩
    · exact fun b hb c hc => by rintro rfl; exact ha (List.mem_singleton.mp hc ▸ hb)
    by_cases hb : b = a
    · subst hb
      simp [AList.lookup_insert, ha, List.idxOf_append_of_notMem]
    · rw [AList.lookup_insert_ne (hkey.ne hb), h.lookup_key b]
      by_cases hm : b ∈ t.items <;> simp [hm, hb, List.idxOf_append_of_mem]

/-! ### Interning a sequence -/

theorem internAll_coherent (hkey : Function.Injective key) (h : t.Coherent key) (l : List α) :
    (t.internAll key l).Coherent key := by
  induction l generalizing t with
  | nil => exact h
  | cons a l ih => exact ih (intern_coherent hkey h a)

/-- The items are those of the sequence, distinct, in order of first occurrence. -/
theorem internAll_items (hkey : Function.Injective key) (l : List α) :
    ((empty : Interner α κ).internAll key l).items = l.eraseDups := by
  induction l using List.reverseRecOn with
  | nil => rfl
  | append_singleton l a ih =>
    have hc := internAll_coherent hkey (coherent_empty key) l
    have hs : (empty.internAll key (l ++ [a])).items =
        (((empty : Interner α κ).internAll key l).intern key a).1.items := by
      rw [internAll_append]; rfl
    rw [hs, intern_items hc, ih, List.eraseDups_append]
    by_cases ha : a ∈ l
    · simp [ha, List.removeAll]
    · simp [ha, List.removeAll, List.eraseDups_cons]

end Interner

/-! ### First occurrences -/

variable [DecidableEq α]

theorem nodup_eraseDups (l : List α) : l.eraseDups.Nodup := by
  have hid := Function.injective_id (α := α)
  rw [← Interner.internAll_items hid l]
  exact (Interner.internAll_coherent hid (Interner.coherent_empty id) l).nodup

/-- The position of a listed item does not change when the list grows. -/
theorem idxOf_eraseDups_append {l : List α} {a : α} (ha : a ∈ l) (l' : List α) :
    (l ++ l').eraseDups.idxOf a = l.eraseDups.idxOf a := by
  rw [List.eraseDups_append, List.idxOf_append_of_mem (List.mem_eraseDups.mpr ha)]

/-- Looking a listed item up at its own position in the distinct items finds it. -/
theorem getElem?_idxOf_eraseDups {l : List α} {a : α} (ha : a ∈ l) :
    l.eraseDups[l.eraseDups.idxOf a]? = some a := by
  have hlt := List.idxOf_lt_length_of_mem (List.mem_eraseDups.mpr ha)
  rw [List.getElem?_eq_getElem hlt, List.getElem_idxOf hlt]

end EvmExporter.Lib
