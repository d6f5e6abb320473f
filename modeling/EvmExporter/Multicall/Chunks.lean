import EvmExporter.Planner

/-! The chunk loop on machine words. With each addition checked against 64 bits the loop
still completes for every slice length, and it makes as many chunks as the planner
announces with its ceiling division. -/

namespace EvmExporter

open Lib

namespace Multicall

/-! ### Checked additions -/

/-- An addition of two `usize` words: none when the sum does not fit. -/
def checkedAdd (a b : ℕ) : Option ℕ := if a + b < 2 ^ 64 then some (a + b) else none

theorem checkedAdd_eq_some {a b c : ℕ} : checkedAdd a b = some c ↔ a + b < 2 ^ 64 ∧ c = a + b := by
  unfold checkedAdd
  split_ifs with h
  · rw [Option.some.injEq, eq_comm]
    exact (and_iff_right h).symm
  · exact iff_of_false nofun fun hc => h hc.1

/-- The loop of `chunk_ranges`; both additions of a round are `start + chunk`. -/
def checkedRangesFrom (len chunk : ℕ) (hchunk : 0 < chunk) (start : ℕ) : Option (List (ℕ × ℕ)) :=
  if start < len then
    match _h : checkedAdd start chunk with
    | none => none
    | some next => (checkedRangesFrom len chunk hchunk next).map fun rest =>
      (start, min next len) :: rest
  else some []
termination_by len - start
decreasing_by
  obtain ⟨-, rfl⟩ := checkedAdd_eq_some.mp _h
  omega

/-- `chunk_ranges`, none when an addition overflows. -/
def checkedChunkRanges (len max : ℕ) : Option (List (ℕ × ℕ)) :=
  if h : len = 0 then some []
  else checkedRangesFrom len (chunkSize len max) (chunkSize_pos h max) 0

/-- No addition overflows while a chunk fits behind every start before the end. -/
theorem checkedRangesFrom_eq {len chunk : ℕ} (hchunk : 0 < chunk) (hfit : len + chunk ≤ 2 ^ 64)
    (start : ℕ) : checkedRangesFrom len chunk hchunk start =
      some (rangesFrom len chunk hchunk start) := by
  induction hn : len - start using Nat.strong_induction_on generalizing start with
  | _ n ih =>
    rw [checkedRangesFrom, rangesFrom]
    by_cases hlt : start < len
    · have hadd : checkedAdd start chunk = some (start + chunk) :=
        checkedAdd_eq_some.mpr ⟨by omega, rfl⟩
      have hrest := ih (len - (start + chunk)) (by omega) (start + chunk) rfl
      rw [if_pos hlt, if_pos hlt]
      split
      next h => rw [hadd] at h; cases h
      next next h =>
        obtain rfl := Option.some.inj (hadd.symm.trans h)
        rw [hrest, Option.map_some]
    · rw [if_neg hlt, if_neg hlt]

theorem chunkSize_le (len max : ℕ) : chunkSize len max ≤ len := by
  unfold chunkSize
  split_ifs <;> omega

/-! ### The number of chunks -/

/-- Ceiling division takes one divisor off at a time. -/
theorem divCeil_step {n c : ℕ} (hc : 0 < c) (hn : 0 < n) : divCeil n c = divCeil (n - c) c + 1 := by
  unfold divCeil
  by_cases hle : c ≤ n
  · rw [Nat.mod_eq_sub_mod hle, Nat.div_eq_sub_div hc hle]
    split_ifs <;> rfl
  · have hlt : n < c := by omega
    have hsub : n - c = 0 := by omega
    rw [Nat.mod_eq_of_lt hlt, Nat.div_eq_of_lt hlt, hsub, if_neg (by omega)]
    simp

theorem rangesFrom_length {len chunk : ℕ} (hchunk : 0 < chunk) (start : ℕ) :
    (rangesFrom len chunk hchunk start).length = divCeil (len - start) chunk := by
  induction hn : len - start using Nat.strong_induction_on generalizing start with
  | _ n ih =>
    rw [rangesFrom]
    split_ifs with hlt
    · have hrest := ih (len - (start + chunk)) (by omega) (start + chunk) rfl
      have hsub : len - (start + chunk) = n - chunk := by omega
      rw [List.length_cons, hrest, hsub, ← divCeil_step hchunk (by omega)]
    · obtain rfl : n = 0 := by omega
      simp [divCeil]

/-- The driver makes as many chunks as the planner announces. -/
theorem chunkRanges_length (len max : ℕ) : (chunkRanges len max).length = chunkCount len max := by
  unfold chunkRanges chunkCount
  split_ifs with hlen hmax
  · rfl
  · rw [rangesFrom_length, Nat.sub_zero, chunkSize, if_pos (.inl hmax)]
  · rw [rangesFrom_length, Nat.sub_zero, chunkSize]
    split_ifs with hlarge
    · -- one chunk either way: of the length itself, or of a limit above it
      have hlt : len < max := by omega
      rw [divCeil_step (by omega) (by omega), divCeil_step (c := max) (by omega) (by omega),
        Nat.sub_self, Nat.sub_eq_zero_of_le hlt.le]
      simp [divCeil]
    · rfl

/-! ### The cover -/

/-- The positions of consecutive ranges, in order. -/
theorem Covers.positions {len chunk start : ℕ} {ranges : List (ℕ × ℕ)}
    (h : Covers len chunk start ranges) :
    start ≤ len ∧ ranges.flatMap (fun r => List.range' r.1 (r.2 - r.1)) =
      List.range' start (len - start) := by
  induction ranges generalizing start with
  | nil =>
    obtain rfl : start = len := h
    simp
  | cons r ranges ih =>
    obtain ⟨a, b⟩ := r
    obtain ⟨rfl, hab, hb, -, hrest⟩ := h
    obtain ⟨-, hpos⟩ := ih hrest
    constructor
    · omega
    · have hsplit : len - a = (b - a) + (len - b) := by omega
      have hjoin := List.range'_append_1 (s := a) (m := b - a) (n := len - b)
      rw [Nat.add_sub_cancel' hab.le] at hjoin
      rw [List.flatMap_cons, hpos, hsplit]
      exact hjoin

theorem Covers.nonempty {len chunk start : ℕ} {ranges : List (ℕ × ℕ)}
    (h : Covers len chunk start ranges) : ∀ r ∈ ranges, r.1 < r.2 := by
  induction ranges generalizing start with
  | nil => simp
  | cons r ranges ih =>
    obtain ⟨rfl, hab, -, -, hrest⟩ := h
    exact List.forall_mem_cons.mpr ⟨hab, ih hrest⟩

/-- Chunking a slice of any length overflows no addition, cuts `[0, len)` into consecutive
non-empty ranges and makes as many of them as the planner announces. -/
theorem chunk_ranges_exact {len : ℕ} (hlen : len ≤ 2 ^ 63 - 1) (max : ℕ) :
    checkedChunkRanges len max = some (chunkRanges len max) ∧
      (∀ r ∈ chunkRanges len max, r.1 < r.2) ∧
      (chunkRanges len max).flatMap (fun r => List.range' r.1 (r.2 - r.1)) = List.range len ∧
      (chunkRanges len max).length = chunkCount len max := by
  have hcovers := chunkRanges_covers len max
  refine ⟨?_, hcovers.nonempty, ?_, chunkRanges_length len max⟩
  · unfold checkedChunkRanges chunkRanges
    split_ifs with h
    · rfl
    · have hsize := chunkSize_le len max
      exact checkedRangesFrom_eq _ (by omega) 0
  · rw [hcovers.positions.2, List.range_eq_range', Nat.sub_zero]

theorem chunk_ranges_of_five :
    checkedChunkRanges 5 2 = some (chunkRanges 5 2) ∧ (chunkRanges 5 2).length = chunkCount 5 2 :=
  have h := chunk_ranges_exact (by norm_num : 5 ≤ 2 ^ 63 - 1) 2
  ⟨h.1, h.2.2.2⟩

end Multicall

/-- The chunk count of a plan is the number of calls the driver makes for it. -/
theorem build_chunkCount {d : Deps} {cfg : Config} {registry registry' : Registry} {plan : Plan}
    (h : build d cfg registry = .ok (plan, registry')) :
    plan.chunkCount =
      (Multicall.chunkRanges plan.calls.length cfg.scrape.maxCallsPerBatch).length := by
  simp only [build, bind_eq_ok, pure_eq_ok] at h
  obtain ⟨acc, -, s, -, entries, -, hplan⟩ := h
  obtain ⟨rfl, -⟩ := Prod.mk.inj hplan
  exact (Multicall.chunkRanges_length _ _).symm

end EvmExporter
