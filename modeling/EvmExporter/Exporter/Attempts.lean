import EvmExporter.Exporter

/-! What one attempt can do. It completes, and then its writes are the events of the
entries followed by the self-metrics; or it counts one reason and leaves everything
else but the duration as it was. -/

namespace EvmExporter

open Lib

variable (d : Deps)

/-- The events of all entries, in plan order. -/
def planEvents (results : List CallResult) (entries : List Entry) : Except Panic (List Event) :=
  (entries.mapM (entryEvents d results)).map List.flatten

/-- The block number and the results of an attempt that reaches the loop over the entries:
both awaits were answered in time, with one result for each call. -/
def Attempt.results (a : Attempt) (x : Exporter) : Option (ℕ × List CallResult) :=
  match a.answer 0 (.blockNumberForTag x.cfg.chain.blockTag) with
  | some (.ok blockNumber) =>
    match a.answer 1 (.call blockNumber x.plan.calls) with
    | some (.ok results) =>
      if results.length = x.plan.calls.length then some (blockNumber, results) else none
    | _ => none
  | _ => none

/-- The metrics after a failed attempt. -/
def Metrics.failed (w : Metrics) (reason : String) (elapsed : F64) : Metrics :=
  { w.incScrapeErrors reason with scrapeDurationSeconds := elapsed }

variable {d} {x : Exporter} {a : Attempt} {w : Metrics}

/-- An attempt with results was answered in time, with one result for each call. -/
theorem Attempt.results_eq_some {n : ℕ} {results : List CallResult}
    (h : a.results x = some (n, results)) :
    a.answer 0 (.blockNumberForTag x.cfg.chain.blockTag) = some (.ok n) ∧
      a.answer 1 (.call n x.plan.calls) = some (.ok results) ∧
      results.length = x.plan.calls.length := by
  unfold Attempt.results at h
  split at h
  next n' h₀ =>
    split at h
    next results' h₁ =>
      split_ifs at h with hlen
      obtain ⟨rfl, rfl⟩ := Prod.mk.inj (Option.some.inj h)
      exact ⟨h₀, h₁, hlen⟩
    next => cases h
  next => cases h

theorem Attempt.results_length {n : ℕ} {results : List CallResult}
    (h : a.results x = some (n, results)) : results.length = x.plan.calls.length :=
  (Attempt.results_eq_some h).2.2

/-! ### The loop over the entries -/

section Loop

variable {answer : ℕ → (q : Query) → Option (Answer q)} {n : ℕ} {results : List CallResult}

/-- The loop performs the events of the entries in order. -/
theorem scrapeEntries_run {entries : List Entry} {events : List Event}
    (h : planEvents d results entries = .ok events) :
    (scrapeEntries d results entries).run answer n w =
      ⟨events.foldl Metrics.apply w, some (.ok ()), []⟩ := by
  induction entries generalizing events w with
  | nil =>
    obtain rfl := Except.ok.inj h
    rfl
  | cons e entries ih =>
    rw [planEvents, List.mapM_cons] at h
    cases he : entryEvents d results e with
    | error p => simp [he, bind, Except.bind, Except.map] at h
    | ok evs =>
      cases hes : entries.mapM (entryEvents d results) with
      | error p => simp [he, hes, bind, Except.bind, Except.map] at h
      | ok evss =>
        obtain rfl : evs ++ evss.flatten = events := by
          simpa [he, hes, bind, Except.bind, Except.map, pure, Except.pure] using h
        simp only [scrapeEntries, he, Future.run_act, List.foldl_append]
        exact ih (by rw [planEvents, hes]; rfl)

/-- An entry that panics ends the loop. -/
theorem scrapeEntries_panic (answer : ℕ → (q : Query) → Option (Answer q)) (n : ℕ) (w : Metrics)
    {entries : List Entry} {p : Panic} (h : planEvents d results entries = .error p) :
    ∃ w', (scrapeEntries d results entries).run answer n w = ⟨w', some (.error p), []⟩ := by
  induction entries generalizing w with
  | nil => cases h
  | cons e entries ih =>
    rw [planEvents, List.mapM_cons] at h
    cases he : entryEvents d results e with
    | error p' =>
      obtain rfl : p' = p := by simpa [he, bind, Except.bind, Except.map] using h
      exact ⟨w, by simp [scrapeEntries, he]⟩
    | ok evs =>
      simp only [scrapeEntries, he, Future.run_act]
      apply ih (evs.foldl Metrics.apply w)
      cases hes : entries.mapM (entryEvents d results) with
      | error p' => simpa [he, hes, bind, Except.bind, Except.map, planEvents] using h
      | ok evss => simp [he, hes, bind, Except.bind, Except.map, pure, Except.pure] at h

end Loop

/-! ### The attempt -/

/-- The timeout strikes while the attempt waits for the block number or for the results. -/
def Attempt.Dropped (x : Exporter) (a : Attempt) : Prop :=
  a.answer 0 (.blockNumberForTag x.cfg.chain.blockTag) = none ∨
    ∃ n, a.answer 0 (.blockNumberForTag x.cfg.chain.blockTag) = some (.ok n) ∧
      a.answer 1 (.call n x.plan.calls) = none

theorem runScrape_dropped (h : a.Dropped x) (w : Metrics) :
    runScrape d x a w = (w.incScrapeErrors "timeout", .elapsed) := by
  unfold runScrape scrapeOnce
  rcases h with h₀ | ⟨n, h₀, h₁⟩
  · rw [Future.run_await_none h₀]
  · rw [Future.run_await_some h₀]
    simp only [Nat.zero_add, Future.run_await_none h₁]

theorem runScrape_block_error {e : Error}
    (h : a.answer 0 (.blockNumberForTag x.cfg.chain.blockTag) = some (.error e)) (w : Metrics) :
    runScrape d x a w = (w.failed "block_not_available" a.clock.elapsed, .failed e) := by
  unfold runScrape scrapeOnce
  rw [Future.run_await_some h]
  rfl

section Answered

variable {n : ℕ} {results : List CallResult}

theorem runScrape_call_error {e : Error}
    (h₀ : a.answer 0 (.blockNumberForTag x.cfg.chain.blockTag) = some (.ok n))
    (h₁ : a.answer 1 (.call n x.plan.calls) = some (.error e)) (w : Metrics) :
    runScrape d x a w = (w.failed "chunk_failed" a.clock.elapsed, .failed e) := by
  unfold runScrape scrapeOnce
  rw [Future.run_await_some h₀]
  simp only [Nat.zero_add, Future.run_await_some h₁]
  rfl

theorem runScrape_result_count
    (h₀ : a.answer 0 (.blockNumberForTag x.cfg.chain.blockTag) = some (.ok n))
    (h₁ : a.answer 1 (.call n x.plan.calls) = some (.ok results))
    (hlen : results.length ≠ x.plan.calls.length) (w : Metrics) :
    runScrape d x a w = (w.failed "chunk_failed" a.clock.elapsed,
      .failed (.resultCount results.length x.plan.calls.length)) := by
  unfold runScrape scrapeOnce
  rw [Future.run_await_some h₀]
  simp only [Nat.zero_add, Future.run_await_some h₁, hlen, ne_eq, not_false_eq_true, ↓reduceIte]
  rfl

theorem runScrape_completed {events : List Event} (h : a.results x = some (n, results))
    (hev : planEvents d results x.plan.entries = .ok events) (w : Metrics) :
    runScrape d x a w = ((events.foldl Metrics.apply w).finish x a.clock n, .completed) := by
  obtain ⟨h₀, h₁, hlen⟩ := Attempt.results_eq_some h
  unfold runScrape scrapeOnce
  rw [Future.run_await_some h₀]
  simp only [Nat.zero_add, Future.run_await_some h₁, hlen, ne_eq, not_true_eq_false, ↓reduceIte]
  rw [Future.run_bind (scrapeEntries_run hev)]
  rfl

theorem runScrape_panicked {p : Panic} (h : a.results x = some (n, results))
    (hev : planEvents d results x.plan.entries = .error p) (w : Metrics) :
    (runScrape d x a w).2 = .panicked p := by
  obtain ⟨h₀, h₁, hlen⟩ := Attempt.results_eq_some h
  obtain ⟨w', hw'⟩ := scrapeEntries_panic a.answer 2 w hev
  unfold runScrape scrapeOnce
  rw [Future.run_await_some h₀]
  simp only [Nat.zero_add, Future.run_await_some h₁, hlen, ne_eq, not_true_eq_false, ↓reduceIte]
  rw [Future.run_bind hw']
  rfl

theorem Attempt.results_of_dropped (h : a.Dropped x) : a.results x = none := by
  rcases h with h₀ | ⟨n, h₀, h₁⟩ <;> simp [Attempt.results, *]

/-- The answers an attempt can get: it is dropped, it fails in one of three ways, or it has a
result for each call. -/
theorem Attempt.answers_cases (x : Exporter) (a : Attempt) :
    a.Dropped x ∨
    (∃ e, a.answer 0 (.blockNumberForTag x.cfg.chain.blockTag) = some (.error e)) ∨
    (∃ n, a.answer 0 (.blockNumberForTag x.cfg.chain.blockTag) = some (.ok n) ∧
      ((∃ e, a.answer 1 (.call n x.plan.calls) = some (.error e)) ∨
        ∃ results, a.answer 1 (.call n x.plan.calls) = some (.ok results) ∧
          results.length ≠ x.plan.calls.length)) ∨
    ∃ n results, a.results x = some (n, results) := by
  cases h₀ : a.answer 0 (.blockNumberForTag x.cfg.chain.blockTag) with
  | none => exact .inl (.inl h₀)
  | some block =>
    cases block with
    | error e => exact .inr (.inl ⟨e, rfl⟩)
    | ok n =>
      cases h₁ : a.answer 1 (.call n x.plan.calls) with
      | none => exact .inl (.inr ⟨n, h₀, h₁⟩)
      | some reply =>
        cases reply with
        | error e => exact .inr (.inr (.inl ⟨n, rfl, .inl ⟨e, h₁⟩⟩))
        | ok results =>
          by_cases hlen : results.length = x.plan.calls.length
          · exact .inr (.inr (.inr ⟨n, results, by simp [Attempt.results, h₀, h₁, hlen]⟩))
          · exact .inr (.inr (.inl ⟨n, rfl, .inr ⟨results, h₁, hlen⟩⟩))

end Answered

/-- The ways an attempt ends, each with all it has changed. -/
theorem runScrape_cases (d : Deps) (x : Exporter) (a : Attempt) (w : Metrics) :
    (∃ n results events, a.results x = some (n, results) ∧
      planEvents d results x.plan.entries = .ok events ∧
      runScrape d x a w = ((events.foldl Metrics.apply w).finish x a.clock n, .completed)) ∨
    (∃ n results p, a.results x = some (n, results) ∧
      planEvents d results x.plan.entries = .error p ∧ (runScrape d x a w).2 = .panicked p) ∨
    (∃ reason e, reason ∈ ["block_not_available", "chunk_failed"] ∧ a.results x = none ∧
      runScrape d x a w = (w.failed reason a.clock.elapsed, .failed e)) ∨
    (a.Dropped x ∧ runScrape d x a w = (w.incScrapeErrors "timeout", .elapsed)) := by
  rcases a.answers_cases x with hdrop | ⟨e, h₀⟩ | ⟨n, h₀, ⟨e, h₁⟩ | ⟨results, h₁, hlen⟩⟩ |
    ⟨n, results, hres⟩
  · exact .inr (.inr (.inr ⟨hdrop, runScrape_dropped hdrop w⟩))
  · exact .inr (.inr (.inl ⟨_, e, by simp, by simp [Attempt.results, h₀],
      runScrape_block_error h₀ w⟩))
  · exact .inr (.inr (.inl ⟨_, e, by simp, by simp [Attempt.results, h₀, h₁],
      runScrape_call_error h₀ h₁ w⟩))
  · exact .inr (.inr (.inl ⟨_, _, by simp, by simp [Attempt.results, h₀, h₁, hlen],
      runScrape_result_count h₀ h₁ hlen w⟩))
  · cases hev : planEvents d results x.plan.entries with
    | ok events => exact .inl ⟨n, results, events, hres, hev, runScrape_completed hres hev w⟩
    | error p => exact .inr (.inl ⟨n, results, p, hres, hev, runScrape_panicked hres hev w⟩)

end EvmExporter
