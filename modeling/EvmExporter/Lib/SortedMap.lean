import Mathlib.Data.List.Sort
import Mathlib.Data.String.Basic

/-! Finite maps as association lists in strictly increasing key order: the ordered
map of a language library, whose iteration order is the key order. The order is a
field, so no key is listed twice and the keys of a map need no sorting. -/

namespace EvmExporter.Lib

/-- A map from `κ` to `ν`, listed in strictly increasing key order. -/
structure SortedMap (κ ν : Type*) [LinearOrder κ] where
  entries : List (κ × ν)
  sorted : entries.Pairwise (fun a b => a.1 < b.1)

namespace SortedMap

variable {κ ν : Type*} [LinearOrder κ]

/-- Insert a binding, replacing an older one for the same key. -/
def insertEntry (k : κ) (v : ν) : List (κ × ν) → List (κ × ν)
  | [] => [(k, v)]
  | a :: l =>
    if k < a.1 then (k, v) :: a :: l
    else if k = a.1 then (k, v) :: l
    else a :: insertEntry k v l

theorem mem_insertEntry {k : κ} {v : ν} {a : κ × ν} {l : List (κ × ν)}
    (h : a ∈ insertEntry k v l) : a = (k, v) ∨ a ∈ l := by
  induction l with
  | nil => simpa [insertEntry] using h
  | cons b l ih =>
    simp only [insertEntry] at h
    split_ifs at h <;> simp only [List.mem_cons] at h ⊢
    · exact h
    · exact h.imp_right Or.inr
    · rcases h with h | h
      · exact .inr (.inl h)
      · exact (ih h).imp_right Or.inr

theorem insertEntry_sorted (k : κ) (v : ν) {l : List (κ × ν)}
    (h : l.Pairwise (fun a b => a.1 < b.1)) :
    (insertEntry k v l).Pairwise (fun a b => a.1 < b.1) := by
  induction l with
  | nil => simp [insertEntry]
  | cons b l ih =>
    obtain ⟨hb, hl⟩ := List.pairwise_cons.mp h
    simp only [insertEntry]
    split_ifs with h₁ h₂
    · refine List.pairwise_cons.mpr ⟨fun c hc => ?_, h⟩
      rcases List.mem_cons.mp hc with rfl | hc
      · exact h₁
      · exact h₁.trans (hb c hc)
    · exact List.pairwise_cons.mpr ⟨fun c hc => h₂ ▸ hb c hc, hl⟩
    · refine List.pairwise_cons.mpr ⟨fun c hc => ?_, ih hl⟩
      rcases mem_insertEntry hc with rfl | hc
      · exact lt_of_le_of_ne (not_lt.mp h₁) (Ne.symm h₂)
      · exact hb c hc

/-- The map with no bindings. -/
def empty : SortedMap κ ν := ⟨[], .nil⟩

/-- The map with one binding. -/
def single (k : κ) (v : ν) : SortedMap κ ν := ⟨[(k, v)], List.pairwise_singleton _ _⟩

instance : EmptyCollection (SortedMap κ ν) := ⟨empty⟩

instance : Inhabited (SortedMap κ ν) := ⟨∅⟩

def insert (m : SortedMap κ ν) (k : κ) (v : ν) : SortedMap κ ν :=
  ⟨insertEntry k v m.entries, insertEntry_sorted k v m.sorted⟩

/-- The value bound to a key. -/
def get? (m : SortedMap κ ν) (k : κ) : Option ν := m.entries.lookup k

/-- The keys in increasing order. -/
def keys (m : SortedMap κ ν) : List κ := m.entries.map Prod.fst

/-- Insert every binding of `m'` into `m`, in key order. -/
def insertAll (m m' : SortedMap κ ν) : SortedMap κ ν :=
  m'.entries.foldl (fun acc e => acc.insert e.1 e.2) m

/-! ### Lookup -/

@[simp] theorem get?_empty (k : κ) : (∅ : SortedMap κ ν).get? k = none := rfl

theorem lookup_cons_eq_ite (k : κ) (a : κ × ν) (l : List (κ × ν)) :
    (a :: l).lookup k = if k = a.1 then some a.2 else l.lookup k := by
  obtain ⟨c, w⟩ := a
  by_cases h : k = c
  · simp [h]
  · have hb : (k == c) = false := by simpa using h
    simp [List.lookup_cons, h, hb]

theorem lookup_insertEntry (k k' : κ) (v : ν) (l : List (κ × ν)) :
    (insertEntry k v l).lookup k' = if k' = k then some v else l.lookup k' := by
  induction l with
  | nil => simp [insertEntry, lookup_cons_eq_ite]
  | cons b l ih =>
    simp only [insertEntry]
    split_ifs with h₁ h₂ h₃ <;> simp only [lookup_cons_eq_ite, ih] <;> grind

@[simp] theorem get?_insert (m : SortedMap κ ν) (k k' : κ) (v : ν) :
    (m.insert k v).get? k' = if k' = k then some v else m.get? k' :=
  lookup_insertEntry k k' v m.entries

theorem lookup_eq_some_iff {l : List (κ × ν)} (h : l.Pairwise (fun a b => a.1 < b.1)) {k : κ}
    {v : ν} : l.lookup k = some v ↔ (k, v) ∈ l := by
  induction l with
  | nil => simp
  | cons b l ih =>
    obtain ⟨c, w⟩ := b
    obtain ⟨hb, hl⟩ := List.pairwise_cons.mp h
    rw [lookup_cons_eq_ite, List.mem_cons]
    by_cases hk : k = c
    · subst hk
      have hn : (k, v) ∉ l := fun hm => lt_irrefl k (hb (k, v) hm)
      simp [hn, eq_comm]
    · simp [hk, ih hl]

theorem get?_eq_some_iff {m : SortedMap κ ν} {k : κ} {v : ν} :
    m.get? k = some v ↔ (k, v) ∈ m.entries :=
  lookup_eq_some_iff m.sorted

theorem get?_insertAll (m m' : SortedMap κ ν) (k : κ) :
    (m.insertAll m').get? k = (m'.get? k).or (m.get? k) := by
  obtain ⟨l, hl⟩ := m'
  simp only [insertAll, get?]
  induction l generalizing m with
  | nil => rfl
  | cons b l ih =>
    obtain ⟨c, w⟩ := b
    obtain ⟨hb, hl'⟩ := List.pairwise_cons.mp hl
    have hi := ih (m.insert c w) hl'
    have hg : (m.insert c w).entries.lookup k = if k = c then some w else m.entries.lookup k :=
      get?_insert m c k w
    rw [List.foldl_cons, hi, lookup_cons_eq_ite, hg]
    by_cases hk : k = c
    · subst hk
      have hn : l.lookup k = none := by
        rw [Option.eq_none_iff_forall_ne_some]
        intro v hv
        exact lt_irrefl k (hb (k, v) ((lookup_eq_some_iff hl').mp hv))
      simp [hn]
    · simp [hk]

/-! ### Keys -/

@[simp] theorem keys_empty : (∅ : SortedMap κ ν).keys = [] := rfl

theorem keys_sorted (m : SortedMap κ ν) : m.keys.Pairwise (· < ·) :=
  List.pairwise_map.mpr m.sorted

theorem keys_nodup (m : SortedMap κ ν) : m.keys.Nodup :=
  m.keys_sorted.imp ne_of_lt

theorem mem_keys_iff {m : SortedMap κ ν} {k : κ} : k ∈ m.keys ↔ ∃ v, m.get? k = some v := by
  simp only [keys, List.mem_map, Prod.exists, get?_eq_some_iff]
  exact ⟨fun ⟨_, v, h, hk⟩ => ⟨v, hk ▸ h⟩, fun ⟨v, h⟩ => ⟨k, v, h, rfl⟩⟩

theorem mem_keys_iff_ne_none {m : SortedMap κ ν} {k : κ} : k ∈ m.keys ↔ m.get? k ≠ none :=
  mem_keys_iff.trans Option.ne_none_iff_exists'.symm

@[simp] theorem mem_keys_insert {m : SortedMap κ ν} {k k' : κ} {v : ν} :
    k' ∈ (m.insert k v).keys ↔ k' = k ∨ k' ∈ m.keys := by
  simp only [mem_keys_iff, get?_insert]
  by_cases h : k' = k <;> simp [h]

@[simp] theorem mem_keys_insertAll {m m' : SortedMap κ ν} {k : κ} :
    k ∈ (m.insertAll m').keys ↔ k ∈ m'.keys ∨ k ∈ m.keys := by
  simp only [mem_keys_iff_ne_none, get?_insertAll, ne_eq, Option.or_eq_none_iff]
  tauto

end SortedMap

/-! ### Sorted sets -/

/-- A set listed in strictly increasing order: a map to the unit type. -/
abbrev SortedSet (κ : Type*) [LinearOrder κ] := SortedMap κ Unit

namespace SortedSet

variable {κ : Type*} [LinearOrder κ]

def insert (s : SortedSet κ) (k : κ) : SortedSet κ := SortedMap.insert s k ()

/-- Insert every element of a list. -/
def insertMany (s : SortedSet κ) (l : List κ) : SortedSet κ := l.foldl SortedSet.insert s

@[simp] theorem mem_insertMany {s : SortedSet κ} {l : List κ} {k : κ} :
    k ∈ (s.insertMany l).keys ↔ k ∈ l ∨ k ∈ s.keys := by
  induction l generalizing s with
  | nil => simp [insertMany]
  | cons a l ih =>
    have hi := @ih (SortedSet.insert s a)
    simp only [insertMany, List.foldl_cons] at hi ⊢
    rw [hi, SortedSet.insert, SortedMap.mem_keys_insert, List.mem_cons]
    tauto

/-- A set is known by its elements. -/
theorem ext {s t : SortedSet κ} (h : ∀ k, k ∈ s.keys ↔ k ∈ t.keys) : s = t := by
  have hkeys : SortedMap.keys s = SortedMap.keys t :=
    ((List.perm_ext_iff_of_nodup s.keys_nodup t.keys_nodup).mpr h).eq_of_pairwise
      (fun _ _ _ _ hab hba => absurd hab hba.asymm) s.keys_sorted t.keys_sorted
  have hentries : s.entries = t.entries :=
    List.map_injective_iff.mpr (fun a b hab => Prod.ext hab rfl) hkeys
  cases s
  cases t
  cases hentries
  rfl

end SortedSet

end EvmExporter.Lib
