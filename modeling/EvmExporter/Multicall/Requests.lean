import EvmExporter.Multicall.Deadline

/-! What a multicall sends, however it ends, and what it is told. The chunks sent are the
ranges of the request list in order; a multicall that ends with results has sent all of
them, and against a node that runs the calls of a chunk on a chain its results are what
the chain answers to each request on its own. -/

namespace EvmExporter

open Lib

namespace Multicall

/-! ### What is sent -/

/-- The chunks a multicall has sent from a position of the request list on. -/
structure Sent (drv : Driver) (block : ℕ) (reqs : List CallRequest) (limit start count : ℕ)
    (o : Future.Outcome Unit Aggregate3 (Except Error (List CallResult))) : Prop where
  chunks : ∀ q ∈ o.asked, IsChunk drv block limit q
  requests : o.asked.flatMap Aggregate3.calls <+: (reqs.drop start).map toCall3
  length_le : o.asked.length ≤ count
  all_sent : ∀ results, o.result = some (.ok results) →
    o.asked.length = count ∧ o.asked.flatMap Aggregate3.calls = (reqs.drop start).map toCall3

variable {drv : Driver} {block : ℕ} {reqs : List CallRequest} {node : TimedNode} {n : ℕ}

/-- A chunk that ends the multicall is the last one sent. -/
theorem Sent.last {limit a b count : ℕ} {q : Aggregate3} (hchunk : IsChunk drv block limit q)
    (hcalls : q.calls = (slice reqs a b).map toCall3) (hab : a ≤ b) (hb : b ≤ reqs.length)
    {result : Option (Except Error (List CallResult))}
    (hresult : ∀ results, result ≠ some (.ok results)) :
    Sent drv block reqs limit a (count + 1) ⟨(), result, [q]⟩ := by
  constructor
  case chunks => simpa using hchunk
  case requests =>
    refine ⟨(reqs.drop b).map toCall3, ?_⟩
    simp only [List.flatMap_cons, List.flatMap_nil, List.append_nil]
    rw [hcalls, ← List.map_append, slice_append_drop hab hb]
  case length_le => simp
  case all_sent =>
    intro results h
    exact absurd h (hresult results)

/-- A chunk in front of what the rest of the loop sends. -/
theorem Sent.cons {limit a b count : ℕ} {q : Aggregate3} (hchunk : IsChunk drv block limit q)
    (hcalls : q.calls = (slice reqs a b).map toCall3) (hab : a ≤ b) (hb : b ≤ reqs.length)
    {o : Future.Outcome Unit Aggregate3 (Except Error (List CallResult))}
    (h : Sent drv block reqs limit b count o) :
    Sent drv block reqs limit a (count + 1) { o with asked := q :: o.asked } := by
  have hsplit : (reqs.drop a).map toCall3 = q.calls ++ (reqs.drop b).map toCall3 := by
    rw [hcalls, ← List.map_append, slice_append_drop hab hb]
  constructor
  case chunks => exact List.forall_mem_cons.mpr ⟨hchunk, h.chunks⟩
  case requests =>
    rw [List.flatMap_cons, hsplit]
    exact (List.prefix_append_right_inj _).mpr h.requests
  case length_le => exact Nat.succ_le_succ h.length_le
  case all_sent =>
    intro results hresult
    obtain ⟨hlen, hall⟩ := h.all_sent results hresult
    exact ⟨congrArg (· + 1) hlen, by rw [List.flatMap_cons, hall, hsplit]⟩

theorem callRanges_sent {limit start : ℕ} {ranges : List (ℕ × ℕ)} {results : List CallResult}
    (h : Covers reqs.length limit start ranges) :
    Sent drv block reqs limit start ranges.length
      ((callRanges drv block reqs ranges results).run node n ()) := by
  induction ranges generalizing start n results with
  | nil =>
    obtain rfl : start = reqs.length := h
    exact ⟨by simp [callRanges], by simp [callRanges], by simp [callRanges], by simp [callRanges]⟩
  | cons r ranges ih =>
    obtain ⟨a, b⟩ := r
    obtain ⟨rfl, hab, hb, hlim, hrest⟩ := h
    set q : Aggregate3 := ⟨drv.address, block, (slice reqs a b).map toCall3⟩ with hq
    have hcalls : q.calls = (slice reqs a b).map toCall3 := rfl
    have hlen : q.calls.length = b - a := by simp [hcalls, slice_length hb]
    have hchunk : IsChunk drv block limit q :=
      ⟨rfl, rfl, fun hnil => by simp [hnil] at hlen; omega, by omega⟩
    rw [callRanges, List.length_cons]
    cases hreply : node n q with
    | none =>
      rw [Future.run_bind_dropped (callChunk_dropped hreply)]
      exact .last hchunk hcalls hab.le hb (by simp)
    | some reply =>
      rw [Future.run_bind (callChunk_answered hreply)]
      cases reply with
      | error e => exact .last hchunk hcalls hab.le hb (by simp [Except.mapError, Except.map])
      | ok rs =>
        by_cases hfull : rs.length = b - a
        · have hlater : Sent drv block reqs limit b ranges.length
              ((callRanges drv block reqs ranges (results ++ rs.map ofResult3)).run node (n + 1) ()) :=
            ih hrest
          have hnext := Sent.cons hchunk hcalls hab.le hb hlater
          simpa [Except.mapError, Except.map, hfull] using hnext
        · simp only [Except.mapError, Except.map, List.length_map, hfull, ne_eq, not_false_eq_true,
            ↓reduceIte, Future.run_pure, List.append_nil]
          exact .last hchunk hcalls hab.le hb (by simp)

/-- The chunks a multicall sends against a node that may miss the deadline. -/
theorem call_sent (drv : Driver) (block : ℕ) (reqs : List CallRequest) (node : TimedNode) :
    Sent drv block reqs (chunkSize reqs.length drv.maxCallsPerBatch) 0
      (chunkRanges reqs.length drv.maxCallsPerBatch).length
      ((call drv block reqs).run node 0 ()) := by
  unfold call
  split_ifs with h
  · obtain rfl : reqs = [] := by simpa using h
    exact ⟨by simp, by simp, by simp, by simp [chunkRanges]⟩
  · exact callRanges_sent (chunkRanges_covers reqs.length drv.maxCallsPerBatch)

/-! ### Chains -/

/-- What the view calls of a chain return at its blocks. -/
abbrev Chain := ℕ → CallRequest → CallResult

def Chain.result3 (chain : Chain) (block : ℕ) (c : Call3) : Result3 :=
  let r := chain block ⟨c.target, c.callData⟩
  ⟨r.success, r.returnData⟩

/-- `aggregate3` of the Multicall3 contract: the calls are made one by one, and one that
fails and may not takes the others with it. -/
def Chain.aggregate3 (chain : Chain) (q : Aggregate3) : Reply :=
  if q.calls.all fun c => c.allowFailure || (chain.result3 q.block c).success then
    .ok (q.calls.map (chain.result3 q.block))
  else .error "Multicall3: call failed"

/-- Every full reply of the node is what the contract returns on the chain. Errors, short
replies and silence are as the node likes. -/
def TimedNode.Truthful (node : TimedNode) (chain : Chain) : Prop :=
  ∀ i q rs, node i q = some (.ok rs) → rs.length = q.calls.length → chain.aggregate3 q = .ok rs

/-- Calls that may fail never take the others with them. -/
theorem aggregate3_requests (chain : Chain) (contract : Address) (block : ℕ)
    (reqs : List CallRequest) :
    chain.aggregate3 ⟨contract, block, reqs.map toCall3⟩ =
      .ok ((reqs.map toCall3).map (chain.result3 block)) := by
  simp [Chain.aggregate3, toCall3]

theorem callRanges_reads {chain : Chain} (hnode : node.Truthful chain) {limit start : ℕ}
    {ranges : List (ℕ × ℕ)} {results out : List CallResult}
    (h : Covers reqs.length limit start ranges)
    (hout : ((callRanges drv block reqs ranges results).run node n ()).result = some (.ok out)) :
    out = results ++ (reqs.drop start).map (chain block) := by
  induction ranges generalizing start n results with
  | nil =>
    obtain rfl : start = reqs.length := h
    simpa [callRanges, eq_comm] using hout
  | cons r ranges ih =>
    obtain ⟨a, b⟩ := r
    obtain ⟨rfl, hab, hb, -, hrest⟩ := h
    set q : Aggregate3 := ⟨drv.address, block, (slice reqs a b).map toCall3⟩ with hq
    have hlen : q.calls.length = b - a := by simp [hq, slice_length hb]
    rw [callRanges] at hout
    cases hreply : node n q with
    | none => simp [Future.run_bind_dropped (callChunk_dropped hreply)] at hout
    | some reply =>
      rw [Future.run_bind (callChunk_answered hreply)] at hout
      cases reply with
      | error e => simp [Except.mapError, Except.map] at hout
      | ok rs =>
        by_cases hfull : rs.length = b - a
        · have hrs := hnode n q rs hreply (hfull.trans hlen.symm)
          rw [hq, aggregate3_requests] at hrs
          obtain rfl := Except.ok.inj hrs
          simp only [Except.mapError, Except.map, List.length_map, slice_length hb, ne_eq,
            not_true_eq_false, ↓reduceIte, List.map_map] at hout
          rw [ih hrest hout, ← slice_append_drop hab.le hb, List.map_append, List.append_assoc]
          rfl
        · simp [Except.mapError, Except.map, hfull] at hout

/-- A node that runs every call it receives on a chain, in time. -/
def TimedNode.Serves (node : TimedNode) (chain : Chain) : Prop :=
  ∀ i q, node i q = some (chain.aggregate3 q)

theorem TimedNode.Serves.truthful {chain : Chain} (h : node.Serves chain) : node.Truthful chain :=
  fun i q _ hq _ => Option.some.inj ((h i q).symm.trans hq)

/-- However the requests are cut into chunks, a truthful node gives each request what the
chain answers to it alone. -/
theorem call_reads {chain : Chain} (hnode : node.Truthful chain) {out : List CallResult}
    (hout : ((call drv block reqs).run node 0 ()).result = some (.ok out)) :
    out = reqs.map (chain block) := by
  unfold call at hout
  split_ifs at hout with h
  · obtain rfl : reqs = [] := by simpa using h
    simpa [eq_comm] using hout
  · exact callRanges_reads hnode (chunkRanges_covers reqs.length drv.maxCallsPerBatch) hout

/-- A chunk of requests is answered in full by the contract. -/
theorem Sent.aggregate3_full {limit count : ℕ} (chain : Chain)
    {o : Future.Outcome Unit Aggregate3 (Except Error (List CallResult))}
    (h : Sent drv block reqs limit 0 count o) {q : Aggregate3} (hq : q ∈ o.asked) :
    (chain.aggregate3 q).FullFor q := by
  have hallow : ∀ c ∈ q.calls, c.allowFailure = true := by
    intro c hc
    have hmem : c ∈ (reqs.drop 0).map toCall3 :=
      h.requests.subset (List.mem_flatMap.mpr ⟨q, hq, hc⟩)
    obtain ⟨r, -, rfl⟩ := List.mem_map.mp hmem
    rfl
  refine ⟨q.calls.map (chain.result3 q.block), if_pos ?_, List.length_map _⟩
  rw [List.all_eq_true]
  intro c hc
  rw [hallow c hc, Bool.true_or]

/-- A node that serves the chain lets the multicall complete, whatever the batch size. -/
theorem call_served {chain : Chain} (hnode : node.Serves chain) (drv : Driver) (block : ℕ)
    (reqs : List CallRequest) :
    ((call drv block reqs).run node 0 ()).result = some (.ok (reqs.map (chain block))) := by
  have hsent := call_sent drv block reqs node
  have hin : ∀ {i : ℕ} {q : Aggregate3},
      ((call drv block reqs).run node 0 ()).asked[i]? = some q →
        ∃ reply, node i q = some reply ∧ reply.FullFor q := by
    intro i q hq
    exact ⟨_, hnode i q, hsent.aggregate3_full chain (List.mem_of_getElem? hq)⟩
  cases hres : ((call drv block reqs).run node 0 ()).result with
  | none =>
    obtain ⟨i, q, hq, hnone⟩ := call_dropped_iff.mp hres
    obtain ⟨reply, hreply, -⟩ := hin hq
    rw [hnone] at hreply
    cases hreply
  | some result =>
    cases result with
    | error e =>
      obtain ⟨i, q, reply, hq, hreply, hbad⟩ := call_failed_iff.mp ⟨e, hres⟩
      obtain ⟨reply', hreply', hfull⟩ := hin hq
      obtain rfl := Option.some.inj (hreply.symm.trans hreply')
      exact absurd hfull hbad
    | ok out => rw [call_reads hnode.truthful hres]

end Multicall

end EvmExporter
