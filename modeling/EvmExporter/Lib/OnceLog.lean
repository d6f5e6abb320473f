import Mathlib.Data.Finset.Insert
import Mathlib.Data.List.Count
import Mathlib.Data.List.Nodup

/-! A log that takes one item for each key. It keeps the set of keys it has seen and drops an
item whose key is in it, so whatever comes in, each key that does is logged once. -/

namespace EvmExporter.Lib

variable {κ α : Type*} [DecidableEq κ]

structure OnceLog (κ α : Type*) where
  seen : Finset κ
  items : List α

namespace OnceLog

variable (key : α → κ)

def empty : OnceLog κ α := ⟨∅, []⟩

/-- Log an item, unless one of its key has been logged. -/
def add (l : OnceLog κ α) (a : α) : OnceLog κ α :=
  if key a ∈ l.seen then l else ⟨insert (key a) l.seen, l.items ++ [a]⟩

def addAll (l : OnceLog κ α) (as : List α) : OnceLog κ α := as.foldl (add key) l

/-- The keys seen are those of the items, each of one item. -/
structure Coherent (l : OnceLog κ α) : Prop where
  mem_seen : ∀ k, k ∈ l.seen ↔ k ∈ l.items.map key
  nodup : (l.items.map key).Nodup

variable {key}

omit [DecidableEq κ] in
theorem coherent_empty : (empty : OnceLog κ α).Coherent key := ⟨by simp [empty], List.nodup_nil⟩

theorem mem_seen_add {l : OnceLog κ α} {a : α} {k : κ} :
    k ∈ (l.add key a).seen ↔ k ∈ l.seen ∨ key a = k := by
  unfold add
  split_ifs with h
  · exact ⟨.inl, fun hk => hk.elim id fun hk => hk ▸ h⟩
  · rw [Finset.mem_insert, or_comm, eq_comm]

theorem Coherent.add {l : OnceLog κ α} (h : l.Coherent key) (a : α) :
    (l.add key a).Coherent key := by
  unfold OnceLog.add
  split_ifs with hseen
  · exact h
  · have hnew : key a ∉ l.items.map key := mt (h.mem_seen _).mpr hseen
    constructor
    · intro k
      rw [Finset.mem_insert, h.mem_seen, List.map_append, List.mem_append, or_comm]
      simp
    · rw [List.map_append]
      exact List.nodup_append'.mpr ⟨h.nodup, List.nodup_singleton _, by simpa using hnew⟩

theorem addAll_append (l : OnceLog κ α) (as bs : List α) :
    l.addAll key (as ++ bs) = (l.addAll key as).addAll key bs := List.foldl_append

theorem mem_seen_addAll {l : OnceLog κ α} {as : List α} {k : κ} :
    k ∈ (l.addAll key as).seen ↔ k ∈ l.seen ∨ k ∈ as.map key := by
  induction as generalizing l with
  | nil => simp [addAll]
  | cons a as ih =>
    rw [addAll, List.foldl_cons, ← addAll, ih, mem_seen_add, List.map_cons, List.mem_cons, or_assoc,
      eq_comm]

/-- What is logged was logged before or has come in. -/
theorem mem_items_addAll {l : OnceLog κ α} {as : List α} {a : α}
    (h : a ∈ (l.addAll key as).items) : a ∈ l.items ∨ a ∈ as := by
  induction as generalizing l with
  | nil => exact .inl h
  | cons b as ih =>
    rcases ih h with h | h
    · unfold add at h
      split_ifs at h
      · exact .inl h
      · rcases List.mem_append.mp h with h | h
        · exact .inl h
        · exact .inr (List.mem_singleton.mp h ▸ List.mem_cons_self)
    · exact .inr (List.mem_cons_of_mem b h)

theorem Coherent.addAll {l : OnceLog κ α} (h : l.Coherent key) (as : List α) :
    (l.addAll key as).Coherent key := by
  induction as generalizing l with
  | nil => exact h
  | cons a as ih => exact ih (h.add a)

/-- A key is logged once if it was seen, and otherwise not. -/
theorem Coherent.countP {l : OnceLog κ α} (h : l.Coherent key) (k : κ) :
    l.items.countP (fun a => key a = k) = if k ∈ l.seen then 1 else 0 := by
  have hcount : l.items.countP (fun a => key a = k) = (l.items.map key).count k := by
    rw [List.count, List.countP_map]
    rfl
  rw [hcount, h.nodup.count, if_congr (h.mem_seen k) rfl rfl]

/-- Of all that comes in, each key is logged once. -/
theorem countP_addAll (as : List α) (k : κ) :
    ((empty : OnceLog κ α).addAll key as).items.countP (fun a => key a = k) =
      if k ∈ as.map key then 1 else 0 := by
  rw [(coherent_empty.addAll as).countP, if_congr mem_seen_addAll rfl rfl]
  simp [empty]

end OnceLog

end EvmExporter.Lib
