import EvmExporter.Multicall

/-! A multicall that may be dropped: a node that answers some calls and misses the deadline
on others. All chunks before the last one sent were answered in full; how the last one was
answered decides how the multicall ends. -/

namespace EvmExporter

open Lib

namespace Multicall

/-- The reply has one result for each call of the chunk. -/
def Reply.FullFor (reply : Reply) (q : Aggregate3) : Prop :=
  ∃ rs, reply = .ok rs ∧ rs.length = q.calls.length

/-- A node under a deadline: its reply to the `i`-th call it receives, `none` for a call it
does not answer in time. -/
abbrev TimedNode := ℕ → Aggregate3 → Option Reply

/-- Every chunk, the first of which is the `n`-th call, is answered in full and in time. -/
def AnsweredInFull (node : TimedNode) (n : ℕ) (qs : List Aggregate3) : Prop :=
  ∀ (i : ℕ) q, qs[i]? = some q → ∃ reply, node (n + i) q = some reply ∧ reply.FullFor q

/-- How a multicall whose results are `len` ends, by the chunks it has sent. -/
inductive Ends (node : TimedNode) (n len : ℕ) :
    List Aggregate3 → Option (Except Error (List CallResult)) → Prop where
  | completed {asked results} (hall : AnsweredInFull node n asked) (hlen : results.length = len) :
      Ends node n len asked (some (.ok results))
  | dropped (pre q) (hpre : AnsweredInFull node n pre) (hq : node (n + pre.length) q = none) :
      Ends node n len (pre ++ [q]) none
  | failed (pre q) {reply e} (hpre : AnsweredInFull node n pre)
      (hq : node (n + pre.length) q = some reply) (hbad : ¬ reply.FullFor q) :
      Ends node n len (pre ++ [q]) (some (.error e))

variable {drv : Driver} {block : ℕ} {reqs : List CallRequest} {node : TimedNode} {n len : ℕ}

theorem answeredInFull_nil : AnsweredInFull node n [] := by
  intro i q hq
  cases hq

theorem answeredInFull_cons {q : Aggregate3} {qs : List Aggregate3} {reply : Reply}
    (hq : node n q = some reply) (hfull : reply.FullFor q) (hqs : AnsweredInFull node (n + 1) qs) :
    AnsweredInFull node n (q :: qs) := by
  intro i q' hq'
  cases i with
  | zero =>
    obtain rfl := Option.some.inj hq'
    exact ⟨reply, hq, hfull⟩
  | succ i =>
    obtain ⟨reply', hreply', hfull'⟩ := hqs i q' hq'
    exact ⟨reply', by rwa [Nat.add_right_comm] at hreply', hfull'⟩

/-- A full reply in front does not change how the rest ends. -/
theorem Ends.cons {q : Aggregate3} {reply : Reply} {asked : List Aggregate3}
    {result : Option (Except Error (List CallResult))} (hq : node n q = some reply)
    (hfull : reply.FullFor q) (h : Ends node (n + 1) len asked result) :
    Ends node n len (q :: asked) result := by
  cases h with
  | completed hall hlen => exact .completed (answeredInFull_cons hq hfull hall) hlen
  | dropped pre q' hpre hq' =>
    refine .dropped (q :: pre) q' (answeredInFull_cons hq hfull hpre) ?_
    rw [List.length_cons, Nat.add_comm pre.length, ← Nat.add_assoc]
    exact hq'
  | failed pre q' hpre hq' hbad =>
    refine .failed (q :: pre) q' (answeredInFull_cons hq hfull hpre) ?_ hbad
    rw [List.length_cons, Nat.add_comm pre.length, ← Nat.add_assoc]
    exact hq'

theorem callChunk_dropped {chunk : List CallRequest}
    (h : node n ⟨drv.address, block, chunk.map toCall3⟩ = none) :
    (callChunk drv block chunk).run node n () =
      ⟨(), none, [⟨drv.address, block, chunk.map toCall3⟩]⟩ :=
  Future.run_await_none h

/-- One chunk at a time, by how the node answers it. -/
theorem callRanges_ends {limit start : ℕ} {ranges : List (ℕ × ℕ)} {results : List CallResult}
    (h : Covers reqs.length limit start ranges) (hlen : results.length = start) :
    Ends node n reqs.length ((callRanges drv block reqs ranges results).run node n ()).asked
      ((callRanges drv block reqs ranges results).run node n ()).result := by
  induction ranges generalizing start n results with
  | nil =>
    obtain rfl : start = reqs.length := h
    exact .completed answeredInFull_nil hlen
  | cons r ranges ih =>
    obtain ⟨a, b⟩ := r
    obtain ⟨rfl, hab, hb, -, hrest⟩ := h
    set q : Aggregate3 := ⟨drv.address, block, (slice reqs a b).map toCall3⟩ with hq
    have hcalls : q.calls.length = b - a := by simp [hq, slice_length hb]
    rw [callRanges]
    cases hreply : node n q with
    | none =>
      rw [Future.run_bind_dropped (callChunk_dropped hreply)]
      exact .dropped [] q answeredInFull_nil hreply
    | some reply =>
      rw [Future.run_bind (callChunk_answered hreply)]
      cases reply with
      | error e =>
        refine .failed [] q answeredInFull_nil hreply ?_
        rintro ⟨rs, hrs, -⟩
        cases hrs
      | ok rs =>
        by_cases hfull : rs.length = b - a
        · have hone : Reply.FullFor (.ok rs) q := ⟨rs, rfl, hfull.trans hcalls.symm⟩
          have hsum : (results ++ rs.map ofResult3).length = b := by
            rw [List.length_append, List.length_map]
            omega
          have ih' := (ih (n := n + 1) hrest hsum).cons hreply hone
          simpa [Except.mapError, Except.map, hfull] using ih'
        · have hbad : ¬ Reply.FullFor (.ok rs) q := by
            rintro ⟨rs', hrs', hlen'⟩
            obtain rfl := Except.ok.inj hrs'
            exact hfull (hlen'.trans hcalls)
          simp only [Except.mapError, Except.map, List.length_map, hfull, ne_eq, not_false_eq_true,
            ↓reduceIte, Future.run_pure, List.append_nil]
          exact .failed [] q answeredInFull_nil hreply hbad

theorem call_ends (drv : Driver) (block : ℕ) (reqs : List CallRequest) (node : TimedNode) :
    Ends node 0 reqs.length ((call drv block reqs).run node 0 ()).asked
      ((call drv block reqs).run node 0 ()).result := by
  unfold call
  split_ifs with h
  · obtain rfl : reqs = [] := by simpa using h
    exact .completed answeredInFull_nil rfl
  · exact callRanges_ends (chunkRanges_covers reqs.length drv.maxCallsPerBatch) rfl

/-- What was answered in full is neither unanswered nor answered otherwise. -/
theorem getElem?_concat_cases {pre : List Aggregate3} {q p : Aggregate3} {i : ℕ}
    (hpre : AnsweredInFull node n pre) (hp : (pre ++ [q])[i]? = some p) :
    (∃ reply, node (n + i) p = some reply ∧ reply.FullFor p) ∨ i = pre.length ∧ p = q := by
  rcases Nat.lt_trichotomy i pre.length with hlt | rfl | hgt
  · rw [List.getElem?_append_left hlt] at hp
    exact .inl (hpre i p hp)
  · exact .inr ⟨rfl, by simpa using hp.symm⟩
  · rw [List.getElem?_eq_none (by simp; omega)] at hp
    cases hp

/-- The multicall is dropped exactly when one of the calls it sends is not answered in time. -/
theorem Ends.dropped_iff {asked : List Aggregate3}
    {result : Option (Except Error (List CallResult))} (h : Ends node n len asked result) :
    result = none ↔ ∃ (i : ℕ) (q : Aggregate3), asked[i]? = some q ∧ node (n + i) q = none := by
  cases h with
  | completed hall hlen =>
    simp only [reduceCtorEq, false_iff, not_exists, not_and]
    intro i q hq hnone
    obtain ⟨reply, hreply, -⟩ := hall i q hq
    rw [hnone] at hreply
    cases hreply
  | dropped pre q hpre hq => exact ⟨fun _ => ⟨pre.length, q, by simp, hq⟩, fun _ => rfl⟩
  | failed pre q hpre hq hbad =>
    simp only [reduceCtorEq, false_iff, not_exists, not_and]
    intro i p hp hnone
    rcases getElem?_concat_cases hpre hp with ⟨reply', hreply', -⟩ | ⟨rfl, rfl⟩
    · rw [hnone] at hreply'
      cases hreply'
    · rw [hnone] at hq
      cases hq

/-- The multicall fails exactly when one of the calls it sends is answered by an error or by the
wrong number of results. -/
theorem Ends.failed_iff {asked : List Aggregate3}
    {result : Option (Except Error (List CallResult))} (h : Ends node n len asked result) :
    (∃ e, result = some (.error e)) ↔ ∃ (i : ℕ) (q : Aggregate3) (reply : Reply),
      asked[i]? = some q ∧ node (n + i) q = some reply ∧ ¬ reply.FullFor q := by
  cases h with
  | completed hall hlen =>
    simp only [Option.some.injEq, reduceCtorEq, exists_false, false_iff, not_exists, not_and,
      not_not]
    intro i q reply hq hreply
    obtain ⟨reply', hreply', hfull⟩ := hall i q hq
    obtain rfl := Option.some.inj (hreply.symm.trans hreply')
    exact hfull
  | dropped pre q hpre hq =>
    simp only [reduceCtorEq, exists_false, false_iff, not_exists, not_and, not_not]
    intro i p reply hp hreply
    rcases getElem?_concat_cases hpre hp with ⟨reply', hreply', hfull⟩ | ⟨rfl, rfl⟩
    · obtain rfl := Option.some.inj (hreply.symm.trans hreply')
      exact hfull
    · rw [hq] at hreply
      cases hreply
  | failed pre q hpre hq hbad =>
    exact ⟨fun _ => ⟨pre.length, q, _, by simp, hq, hbad⟩, fun _ => ⟨_, rfl⟩⟩

theorem call_dropped_iff : ((call drv block reqs).run node 0 ()).result = none ↔
    ∃ (i : ℕ) (q : Aggregate3), ((call drv block reqs).run node 0 ()).asked[i]? = some q ∧
      node i q = none := by
  simpa only [Nat.zero_add] using (call_ends drv block reqs node).dropped_iff

theorem call_failed_iff : (∃ e, ((call drv block reqs).run node 0 ()).result = some (.error e)) ↔
    ∃ (i : ℕ) (q : Aggregate3) (reply : Reply),
      ((call drv block reqs).run node 0 ()).asked[i]? = some q ∧ node i q = some reply ∧
        ¬ reply.FullFor q := by
  simpa only [Nat.zero_add] using (call_ends drv block reqs node).failed_iff

theorem Ends.length {asked : List Aggregate3} {results : List CallResult}
    (h : Ends node n len asked (some (.ok results))) : results.length = len := by
  cases h with
  | completed _ hlen => exact hlen

end Multicall

end EvmExporter
