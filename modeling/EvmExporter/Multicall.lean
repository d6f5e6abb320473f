import EvmExporter.Deps
import EvmExporter.Lib.Future
import Mathlib.Tactic.Ring.RingNF

/-! The Multicall3 driver: `multicall.rs`. A request list is cut into chunks, each
chunk is one `aggregate3` call at the pinned block, and the replies are joined. The
node is arbitrary: each reply is an error or a list of any length. -/

namespace EvmExporter

open Lib

/-- A planned view call: opaque calldata to a target address. -/
structure CallRequest where
  target : Address
  callData : Bytes
  deriving DecidableEq

/-- The outcome of one call. -/
structure CallResult where
  success : Bool
  returnData : Bytes
  deriving DecidableEq

namespace Multicall

/-! ### Chunk ranges -/

/-- The loop of `chunk_ranges` from `start` on. -/
def rangesFrom (len chunk : ℕ) (hchunk : 0 < chunk) (start : ℕ) : List (ℕ × ℕ) :=
  if start < len then
    (start, min (start + chunk) len) :: rangesFrom len chunk hchunk (start + chunk)
  else []
termination_by len - start

/-- The size of a chunk; `max = 0` disables chunking. -/
def chunkSize (len max : ℕ) : ℕ := if max = 0 ∨ len < max then len else max

theorem chunkSize_pos {len : ℕ} (h : len ≠ 0) (max : ℕ) : 0 < chunkSize len max := by
  unfold chunkSize; split_ifs <;> omega

/-- The (start, end) ranges of the chunks. -/
def chunkRanges (len max : ℕ) : List (ℕ × ℕ) :=
  if h : len = 0 then [] else rangesFrom len (chunkSize len max) (chunkSize_pos h max) 0

/-- Consecutive non-empty ranges of at most `chunk` positions from `start` up to `len`. -/
def Covers (len chunk : ℕ) : ℕ → List (ℕ × ℕ) → Prop
  | start, [] => start = len
  | start, (a, b) :: rest => a = start ∧ a < b ∧ b ≤ len ∧ b - a ≤ chunk ∧ Covers len chunk b rest

theorem rangesFrom_covers {len chunk : ℕ} (hchunk : 0 < chunk) (start : ℕ) (h : start ≤ len) :
    Covers len chunk start (rangesFrom len chunk hchunk start) := by
  induction hn : len - start using Nat.strong_induction_on generalizing start with
  | _ n ih =>
    rw [rangesFrom]
    split_ifs with hlt
    · refine ⟨rfl, by omega, by omega, by omega, ?_⟩
      by_cases hlast : start + chunk ≤ len
      · rw [Nat.min_eq_left hlast]
        exact ih _ (by omega) (start + chunk) hlast rfl
      · -- the last step overshoots, so the next test ends the loop
        rw [rangesFrom, if_neg (by omega), Nat.min_eq_right (by omega)]
        rfl
    · exact (by omega : start = len)

theorem chunkRanges_covers (len max : ℕ) :
    Covers len (chunkSize len max) 0 (chunkRanges len max) := by
  unfold chunkRanges
  split_ifs with h
  · exact h.symm
  · exact rangesFrom_covers (chunkSize_pos h max) 0 (Nat.zero_le len)

/-! ### The driver -/

/-- An element of the argument of `aggregate3`. -/
structure Call3 where
  target : Address
  allowFailure : Bool
  callData : Bytes
  deriving DecidableEq

/-- An element of the value `aggregate3` returns. -/
structure Result3 where
  success : Bool
  returnData : Bytes
  deriving DecidableEq

/-- One `aggregate3` call: the contract it goes to, the block it is pinned to, its calls. -/
structure Aggregate3 where
  contract : Address
  block : ℕ
  calls : List Call3

/-- What a node answers to an `aggregate3` call. -/
abbrev Reply := Except String (List Result3)

structure Driver where
  address : Address
  maxCallsPerBatch : ℕ

/-- A computation that calls the node; it shares no state. -/
abbrev NodeIO (α : Type) := Future Unit Aggregate3 (fun _ => Reply) α

def toCall3 (r : CallRequest) : Call3 := ⟨r.target, true, r.callData⟩

def ofResult3 (r : Result3) : CallResult := ⟨r.success, r.returnData⟩

/-- The requests at positions `start` to `stop`. -/
def slice (reqs : List CallRequest) (start stop : ℕ) : List CallRequest :=
  (reqs.take stop).drop start

variable (drv : Driver) (block : ℕ) (reqs : List CallRequest)

def callChunk (chunk : List CallRequest) : NodeIO (Except Error (List CallResult)) :=
  .await ⟨drv.address, block, chunk.map toCall3⟩ fun
    | .error e => .done (.error (.rpc e))
    | .ok returned => .done (.ok (returned.map ofResult3))

/-- The loop of `call` over the chunk ranges. -/
def callRanges : List (ℕ × ℕ) → List CallResult → NodeIO (Except Error (List CallResult))
  | [], results => return .ok results
  | (start, stop) :: rest, results => do
    match ← callChunk drv block (slice reqs start stop) with
    | .error e => return .error e
    | .ok chunk =>
      if chunk.length ≠ stop - start then
        return .error (.chunkLength start stop chunk.length)
      else callRanges rest (results ++ chunk)

def call : NodeIO (Except Error (List CallResult)) :=
  if reqs.isEmpty then return .ok []
  else callRanges drv block reqs (chunkRanges reqs.length drv.maxCallsPerBatch) []

/-! ### Alignment of requests and results -/

/-- The node's reply to the `i`-th call it receives. -/
abbrev Node := ℕ → Aggregate3 → Reply

/-- The reply has one result for each request of the chunk. -/
def Full (node : Node) (i : ℕ) (q : Aggregate3) : Prop :=
  ∃ rs, node i q = .ok rs ∧ rs.length = q.calls.length

/-- Every chunk, the first of which is the `n`-th call, is answered in full. -/
def AllFull (node : Node) : ℕ → List Aggregate3 → Prop
  | _, [] => True
  | n, q :: qs => Full node n q ∧ AllFull node (n + 1) qs

/-- The results of a reply, none for an error. -/
def replyResults : Reply → List CallResult
  | .ok rs => rs.map ofResult3
  | .error _ => []

/-- The results of the replies to the chunks, joined. -/
def joined (node : Node) : ℕ → List Aggregate3 → List CallResult
  | _, [] => []
  | n, q :: qs => replyResults (node n q) ++ joined node (n + 1) qs

/-- A chunk of the request list: pinned to the block, not empty and not too long. -/
structure IsChunk (limit : ℕ) (q : Aggregate3) : Prop where
  contract_eq : q.contract = drv.address
  block_eq : q.block = block
  calls_ne : q.calls ≠ []
  length_le : q.calls.length ≤ limit

/-- What one run of the loop sends and returns, from a position between two chunks. -/
structure Aligned (node : Node) (limit start n : ℕ) (results : List CallResult)
    (o : Future.Outcome Unit Aggregate3 (Except Error (List CallResult))) : Prop where
  chunks : ∀ q ∈ o.asked, IsChunk drv block limit q
  sent : ∃ rest, o.asked.flatMap Aggregate3.calls ++ rest = (reqs.drop start).map toCall3
  outcome :
    (AllFull node n o.asked ∧ o.asked.flatMap Aggregate3.calls = (reqs.drop start).map toCall3 ∧
      o.result = some (.ok (results ++ joined node n o.asked))) ∨
    (¬ AllFull node n o.asked ∧ ∃ e, o.result = some (.error e))

variable {drv block reqs} {node : Node} {n : ℕ}

theorem slice_length {start stop : ℕ} (h : stop ≤ reqs.length) :
    (slice reqs start stop).length = stop - start := by
  simp [slice, Nat.min_eq_left h]

theorem slice_append_drop {start stop : ℕ} (h : start ≤ stop) (hs : stop ≤ reqs.length) :
    slice reqs start stop ++ reqs.drop stop = reqs.drop start := by
  unfold slice
  conv_rhs => rw [← List.take_append_drop stop reqs, List.drop_append]
  rw [List.length_take, Nat.min_eq_left hs, Nat.sub_eq_zero_of_le h, List.drop_zero]

/-- A chunk that is answered, in time, has the results of the reply. -/
theorem callChunk_answered {answer : ℕ → Aggregate3 → Option Reply} {chunk : List CallRequest}
    {reply : Reply} (h : answer n ⟨drv.address, block, chunk.map toCall3⟩ = some reply) :
    (callChunk drv block chunk).run answer n () =
      ⟨(), some ((reply.mapError .rpc).map (List.map ofResult3)),
        [⟨drv.address, block, chunk.map toCall3⟩]⟩ := by
  unfold callChunk
  rw [Future.run_await_some h]
  cases reply <;> rfl

/-- The joined results of chunks answered in full are as many as their requests. -/
theorem joined_length {qs : List Aggregate3} (h : AllFull node n qs) :
    (joined node n qs).length = (qs.flatMap Aggregate3.calls).length := by
  induction qs generalizing n with
  | nil => rfl
  | cons q qs ih =>
    obtain ⟨⟨rs, hrs, hlen⟩, hqs⟩ := h
    simp [joined, replyResults, hrs, hlen, ih hqs]

/-- One chunk at a time: a full reply extends the results by its own, anything else
ends the loop with an error. -/
theorem callRanges_aligned {limit start : ℕ} {ranges : List (ℕ × ℕ)} {results : List CallResult}
    (h : Covers reqs.length limit start ranges) :
    Aligned drv block reqs node limit start n results
      ((callRanges drv block reqs ranges results).run (fun i q => some (node i q)) n ()) := by
  induction ranges generalizing start n results with
  | nil =>
    obtain rfl : start = reqs.length := h
    exact ⟨by simp [callRanges], ⟨[], by simp [callRanges]⟩,
      .inl ⟨trivial, by simp [callRanges], by simp [callRanges, joined]⟩⟩
  | cons r ranges ih =>
    obtain ⟨a, b⟩ := r
    obtain ⟨rfl, hab, hb, hlim, hrest⟩ := h
    have hlen : (slice reqs a b).length = b - a := slice_length hb
    set q : Aggregate3 := ⟨drv.address, block, (slice reqs a b).map toCall3⟩ with hq
    have hcalls : q.calls.length = b - a := by simp [hq, hlen]
    have hchunk : IsChunk drv block limit q :=
      ⟨rfl, rfl, fun hnil => by simp [hnil] at hcalls; omega, by omega⟩
    have hsent : q.calls ++ (reqs.drop b).map toCall3 = (reqs.drop a).map toCall3 := by
      rw [hq, ← List.map_append, slice_append_drop hab.le hb]
    have hanswered : (fun i q => some (node i q)) n q = some (node n q) := rfl
    rw [callRanges, Future.run_bind (callChunk_answered hanswered)]
    cases hreply : node n q with
    | error e =>
      refine ⟨by simpa [← hq, hreply, Except.mapError, Except.map] using hchunk, ?_, .inr ⟨?_, ?_⟩⟩
      · exact ⟨(reqs.drop b).map toCall3,
          by simpa [← hq, hreply, Except.mapError, Except.map] using hsent⟩
      · rintro ⟨⟨rs, hrs, -⟩, -⟩
        exact absurd (hreply.symm.trans hrs) (by simp)
      · exact ⟨.rpc e, by simp [← hq, Except.mapError, Except.map]⟩
    | ok rs =>
      by_cases hfull : rs.length = b - a
      · have ih' := @ih (n + 1) b (results ++ rs.map ofResult3) hrest
        simp only [← hq, Except.mapError, Except.map, List.length_map, hfull, ne_eq,
          not_true_eq_false, ↓reduceIte, List.length_singleton, List.singleton_append]
        refine ⟨List.forall_mem_cons.mpr ⟨hchunk, ih'.chunks⟩, ?_, ?_⟩
        · obtain ⟨rest, hr⟩ := ih'.sent
          exact ⟨rest, by rw [List.flatMap_cons, List.append_assoc, hr, hsent]⟩
        · rcases ih'.outcome with ⟨hall, hcov, hres⟩ | ⟨hnot, he⟩
          · refine .inl ⟨⟨⟨rs, hreply, by omega⟩, hall⟩, ?_, ?_⟩
            · rw [List.flatMap_cons, hcov, hsent]
            · simp [hres, joined, hreply, replyResults]
          · exact .inr ⟨fun hall => hnot hall.2, he⟩
      · simp only [← hq, Except.mapError, Except.map, List.length_map, hfull, ne_eq,
          not_false_eq_true, ↓reduceIte, Future.run_pure, List.append_nil]
        refine ⟨by simpa using hchunk, ⟨_, by simpa using hsent⟩, .inr ⟨?_, _, rfl⟩⟩
        rintro ⟨⟨rs', hrs', hlen'⟩, -⟩
        rw [hreply] at hrs'
        obtain rfl := Except.ok.inj hrs'
        omega

theorem allFull_iff {qs : List Aggregate3} :
    AllFull node n qs ↔ ∀ i q, qs[i]? = some q → Full node (n + i) q := by
  induction qs generalizing n with
  | nil => simp [AllFull]
  | cons q qs ih =>
    rw [AllFull, ih]
    constructor
    · rintro ⟨hq, hqs⟩ i p hp
      cases i with
      | zero => obtain rfl : q = p := by simpa using hp
                exact hq
      | succ i => have := hqs i p (by simpa using hp)
                  rwa [Nat.add_assoc, Nat.add_comm 1] at this
    · intro h
      constructor
      · exact h 0 q rfl
      · intro i p hp
        have := h (i + 1) p (by simpa using hp)
        rwa [Nat.add_comm i, ← Nat.add_assoc] at this

theorem joined_append (pre qs : List Aggregate3) :
    joined node n (pre ++ qs) = joined node n pre ++ joined node (n + pre.length) qs := by
  induction pre generalizing n with
  | nil => rfl
  | cons q pre ih =>
    simp only [List.cons_append, joined, ih, List.append_assoc, List.length_cons]
    rw [Nat.add_assoc, Nat.add_comm 1]

/-- The result at the position of a request is the reply element at its position in its chunk. -/
theorem joined_getElem? {pre post : List Aggregate3} {q : Aggregate3} {rs : List Result3} {p : ℕ}
    (hall : AllFull node n (pre ++ q :: post)) (hrs : node (n + pre.length) q = .ok rs)
    (hp : p < q.calls.length) :
    (joined node n (pre ++ q :: post))[(pre.flatMap Aggregate3.calls).length + p]? =
      (rs[p]?).map ofResult3 := by
  have hpre : AllFull node n pre := allFull_iff.mpr fun i r hr =>
    allFull_iff.mp hall i r (by rw [List.getElem?_append_left (by grind)]; exact hr)
  obtain ⟨rs', hrs', hlen⟩ := allFull_iff.mp hall pre.length q (by simp)
  obtain rfl := Except.ok.inj (hrs.symm.trans hrs')
  rw [joined_append, ← joined_length hpre, List.getElem?_append_right (by omega),
    Nat.add_sub_cancel_left, joined, hrs, replyResults,
    List.getElem?_append_left (by simpa [hlen] using hp), List.getElem?_map]

theorem call_run_aligned :
    Aligned drv block reqs node
      (chunkSize reqs.length drv.maxCallsPerBatch) 0 0 []
      ((call drv block reqs).run (fun i q => some (node i q)) 0 ()) := by
  unfold call
  split_ifs with h
  · obtain rfl : reqs = [] := by simpa using h
    exact ⟨by simp, ⟨[], by simp⟩, .inl ⟨trivial, by simp, by simp [joined]⟩⟩
  · exact callRanges_aligned (chunkRanges_covers reqs.length drv.maxCallsPerBatch)

/-- A position in the joined calls lies in one of the chunks. -/
theorem exists_chunk_of_lt {qs : List Aggregate3} {i : ℕ}
    (hi : i < (qs.flatMap Aggregate3.calls).length) :
    ∃ pre q post p, qs = pre ++ q :: post ∧ p < q.calls.length ∧
      i = (pre.flatMap Aggregate3.calls).length + p := by
  induction qs generalizing i with
  | nil => simp at hi
  | cons q qs ih =>
    by_cases hlt : i < q.calls.length
    · exact ⟨[], q, qs, i, rfl, hlt, by simp⟩
    · rw [List.flatMap_cons, List.length_append] at hi
      obtain ⟨pre, q', post, p, rfl, hp, hsub⟩ := ih (i := i - q.calls.length) (by omega)
      refine ⟨q :: pre, q', post, p, rfl, hp, ?_⟩
      rw [List.flatMap_cons, List.length_append]
      omega

/-- Requests and results stay aligned against any node: the result at the position of a request
has the success and the data that the node returned for it, at its position in its chunk. -/
theorem call_aligned (drv : Driver) (block : ℕ) (reqs : List CallRequest) (node : Node) :
    let o := (call drv block reqs).run (fun i q => some (node i q)) 0 ()
    let calls := reqs.map fun r => (⟨r.target, true, r.callData⟩ : Call3)
    (∀ q ∈ o.asked, q.contract = drv.address ∧ q.block = block ∧ q.calls ≠ [] ∧
      (drv.maxCallsPerBatch ≠ 0 → q.calls.length ≤ drv.maxCallsPerBatch)) ∧
    (∃ rest, o.asked.flatMap Aggregate3.calls ++ rest = calls) ∧
    ((∃ results, o.result = some (.ok results)) ↔
      ∀ i q, o.asked[i]? = some q → ∃ rs, node i q = .ok rs ∧ rs.length = q.calls.length) ∧
    (∀ results, o.result = some (.ok results) →
      o.asked.flatMap Aggregate3.calls = calls ∧ results.length = reqs.length ∧
      ∀ i r, reqs[i]? = some r → ∃ pre q post p rs, ∃ returned : Result3,
        o.asked = pre ++ q :: post ∧ i = (pre.flatMap Aggregate3.calls).length + p ∧
        q.calls[p]? = some ⟨r.target, true, r.callData⟩ ∧
        node pre.length q = .ok rs ∧ rs[p]? = some returned ∧
        results[i]? = some ⟨returned.success, returned.returnData⟩) ∧
    ((¬ ∃ results, o.result = some (.ok results)) → ∃ e, o.result = some (.error e)) := by
  intro o calls
  have ho : Aligned drv block reqs node _ 0 0 [] o :=
    call_run_aligned
  have hfull : (∃ results, o.result = some (.ok results)) ↔ AllFull node 0 o.asked := by
    rcases ho.outcome with ⟨hall, -, hres⟩ | ⟨hnot, e, he⟩
    · exact ⟨fun _ => hall, fun _ => ⟨_, hres⟩⟩
    · exact ⟨fun ⟨results, hr⟩ => by simp [he] at hr, fun hall => absurd hall hnot⟩
  refine ⟨?chunks, ho.sent, ?complete, ?positions, ?failed⟩
  case chunks =>
    intro q hq
    have hc := ho.chunks q hq
    have hlimit : drv.maxCallsPerBatch ≠ 0 →
        chunkSize reqs.length drv.maxCallsPerBatch ≤ drv.maxCallsPerBatch := by
      intro hmax
      unfold chunkSize
      split_ifs <;> omega
    exact ⟨hc.contract_eq, hc.block_eq, hc.calls_ne, fun hmax => hc.length_le.trans (hlimit hmax)⟩
  case complete =>
    rw [hfull, allFull_iff]
    simp only [Full, Nat.zero_add]
  case positions =>
    intro results hres
    rcases ho.outcome with ⟨hall, hcov, hr⟩ | ⟨-, e, he⟩
    · obtain rfl : joined node 0 o.asked = results := by
        simpa using (Option.some.inj (hr.symm.trans hres))
      have hcov' : o.asked.flatMap Aggregate3.calls = calls := hcov
      have hlen : (joined node 0 o.asked).length = reqs.length := by
        rw [joined_length hall, hcov', List.length_map]
      apply And.intro hcov'
      apply And.intro hlen
      intro i r hi
      have hcall : calls[i]? = some ⟨r.target, true, r.callData⟩ := by
        rw [List.getElem?_map, hi, Option.map_some]
      have hlt : i < (o.asked.flatMap Aggregate3.calls).length := by
        rw [hcov']
        exact (List.getElem?_eq_some_iff.mp hcall).1
      obtain ⟨pre, q, post, p, hsplit, hp, rfl⟩ := exists_chunk_of_lt hlt
      obtain ⟨rs, hrs, hrslen⟩ := allFull_iff.mp hall pre.length q (by simp [hsplit])
      have hplt : p < rs.length := hrslen ▸ hp
      refine ⟨pre, q, post, p, rs, rs[p], hsplit, rfl, ?_, by simpa using hrs,
        List.getElem?_eq_getElem hplt, ?_⟩
      · rw [← hcall, ← hcov', hsplit, List.flatMap_append, List.flatMap_cons,
          List.getElem?_append_right (by omega), Nat.add_sub_cancel_left,
          List.getElem?_append_left hp]
      · rw [hsplit] at hall ⊢
        rw [joined_getElem? hall hrs hp, List.getElem?_eq_getElem hplt]
        rfl
    · exact absurd (he.symm.trans hres) (by simp)
  case failed =>
    intro hno
    rcases ho.outcome with ⟨-, -, hr⟩ | ⟨-, he⟩
    · exact absurd ⟨_, hr⟩ hno
    · exact he

/-- Three requests to one contract. -/
def threeRequests : List CallRequest :=
  let contract : Address := ⟨List.replicate 20 170, rfl⟩
  [⟨contract, [1]⟩, ⟨contract, [2]⟩, ⟨contract, [3]⟩]

/-- The first chunk succeeds and returns the data of its calls, any other reverts. -/
def firstChunkNode : Node := fun i q => .ok (q.calls.map fun c => ⟨i = 0, c.callData⟩)

/-- Two chunks for three requests: the third result is the first one of the second chunk. -/
theorem three_requests_two_chunks :
    let drv : Driver := ⟨⟨List.replicate 20 202, rfl⟩, 2⟩
    let o := (call drv 7 threeRequests).run (fun i q => some (firstChunkNode i q)) 0 ()
    o.asked.map (fun q => q.calls.length) = [2, 1] ∧
      ∃ results, o.result = some (.ok results) ∧ results.length = 3 ∧
        results[1]? = some ⟨true, [2]⟩ ∧ results[2]? = some ⟨false, [3]⟩ := by
  intro drv o
  have hlengths : o.asked.map (fun q => q.calls.length) = [2, 1] := by decide +kernel
  obtain ⟨-, -, hok, hpositions, -⟩ := call_aligned drv 7 threeRequests firstChunkNode
  obtain ⟨results, hres⟩ := hok.mpr fun i q _ => ⟨_, rfl, List.length_map _⟩
  obtain ⟨-, hlen, hresults⟩ := hpositions results hres
  have hfirst : ∀ i r, threeRequests[i]? = some r →
      results[i]? = some (⟨decide (i < 2), r.callData⟩ : CallResult) := by
    intro i r hi
    obtain ⟨pre, q, post, p, rs, returned, hsplit, rfl, hcall, hrs, hp, hget⟩ := hresults i r hi
    have hplt : p < q.calls.length := (List.getElem?_eq_some_iff.mp hcall).1
    obtain rfl := Except.ok.inj hrs
    rw [List.getElem?_map, hcall, Option.map_some] at hp
    obtain rfl := Option.some.inj hp
    rw [hget]
    rw [hsplit] at hlengths
    cases pre with
    | nil =>
      have htwo : q.calls.length = 2 := (List.cons.inj hlengths).1
      simp
      omega
    | cons q₀ pre =>
      have htwo : q₀.calls.length = 2 := (List.cons.inj hlengths).1
      simp
      omega
  exact ⟨hlengths, results, hres, hlen, hfirst 1 _ rfl, hfirst 2 _ rfl⟩

end Multicall

end EvmExporter
