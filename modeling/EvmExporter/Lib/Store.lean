import Mathlib.Logic.Function.Basic
import Mathlib.Data.List.Basic

/-! A store of last writes: a partial function updated one key at a time. After any
sequence of writes a key holds the last value written to it, or what it held before. -/

namespace EvmExporter.Lib

variable {κ ν : Type*} [DecidableEq κ]

/-- Perform the writes in order. -/
def writeAll (m : κ → Option ν) (ws : List (κ × ν)) : κ → Option ν :=
  ws.foldl (fun m w => Function.update m w.1 (some w.2)) m

/-- The last value a sequence of writes gives a key. -/
def lastWrite (k : κ) (ws : List (κ × ν)) : Option ν :=
  ((ws.filter (fun w => w.1 = k)).map Prod.snd).getLast?

theorem lastWrite_cons (k : κ) (w : κ × ν) (ws : List (κ × ν)) :
    lastWrite k (w :: ws) = (lastWrite k ws).or (if w.1 = k then some w.2 else none) := by
  unfold lastWrite
  by_cases h : w.1 = k
  · rw [List.filter_cons_of_pos (by simpa using h), List.map_cons, List.getLast?_cons]
    cases ((ws.filter (fun w => w.1 = k)).map Prod.snd).getLast? <;> simp [h]
  · rw [List.filter_cons_of_neg (by simpa using h)]
    simp [h]

/-- A key holds its last write, or else what it held before. -/
theorem writeAll_apply (m : κ → Option ν) (ws : List (κ × ν)) (k : κ) :
    writeAll m ws k = (lastWrite k ws).or (m k) := by
  induction ws generalizing m with
  | nil => rfl
  | cons w ws ih =>
    have hi := ih (Function.update m w.1 (some w.2))
    simp only [writeAll, List.foldl_cons] at hi ⊢
    rw [hi, lastWrite_cons, Option.or_assoc]
    by_cases h : w.1 = k
    · subst h; simp
    · simp [h, Function.update_of_ne (Ne.symm h)]

end EvmExporter.Lib
