import EvmExporter.Exporter.CallErrors
import EvmExporter.Exporter.Requests
import EvmExporter.Exporter.Shutdown
import EvmExporter.Exporter.Warnings
import EvmExporter.Planner.Success
import Mathlib.Data.Set.Card

/-! The books of a run. Every attempt completes or is counted under one of three reasons, so
the counters of the scrape errors and the completed attempts add up to the attempts made;
the counters of the call errors are sums over the completed ones. Whatever the node answers,
the series that exist are among those of the plan, as are the labels of the counters. -/

namespace EvmExporter

open Lib

variable {d : Deps} {cfg : Config} {plan : Plan} {registry registry' : Registry} {x : Exporter}
  {w : Metrics}

/-- The reason an attempt is counted under, by the answers it gets; none when it completes. -/
def Attempt.reason (x : Exporter) (a : Attempt) : Option String :=
  match a.answer 0 (.blockNumberForTag x.cfg.chain.blockTag) with
  | none => some "timeout"
  | some (.error _) => some "block_not_available"
  | some (.ok n) =>
    match a.answer 1 (.call n x.plan.calls) with
    | none => some "timeout"
    | some (.error _) => some "chunk_failed"
    | some (.ok results) =>
      if results.length = x.plan.calls.length then none else some "chunk_failed"

def scrapeReasons : List String := ["timeout", "block_not_available", "chunk_failed"]

/-- How many entries of the labels a completed attempt fails to read. -/
def Attempt.callErrors (d : Deps) (x : Exporter) (labels : String × String × String)
    (a : Attempt) : ℕ :=
  match a.results x with
  | some (_, results) => ((x.plan.entriesOf labels).filter (Entry.fails d results)).length
  | none => 0

/-! ### One attempt -/

theorem Attempt.reason_mem {a : Attempt} {reason : String} (h : a.reason x = some reason) :
    reason ∈ scrapeReasons := by
  unfold Attempt.reason at h
  split at h
  · simp [← Option.some.inj h, scrapeReasons]
  · simp [← Option.some.inj h, scrapeReasons]
  · split at h
    · simp [← Option.some.inj h, scrapeReasons]
    · simp [← Option.some.inj h, scrapeReasons]
    · split_ifs at h
      simp [← Option.some.inj h, scrapeReasons]

/-- An attempt counts its reason, and a completed one counts none. -/
theorem runScrape_scrapeErrors (hwf : x.plan.WellFormed) (a : Attempt) (w : Metrics) :
    (runScrape d x a w).1.scrapeErrorsTotal = match a.reason x with
      | some reason => (w.incScrapeErrors reason).scrapeErrorsTotal
      | none => w.scrapeErrorsTotal := by
  rcases a.answers_cases x with (h₀ | ⟨n, h₀, h₁⟩) | ⟨e, h₀⟩ | ⟨n, h₀, ⟨e, h₁⟩ | ⟨results, h₁, hlen⟩⟩ |
    ⟨n, results, hres⟩
  · rw [runScrape_dropped (.inl h₀), Attempt.reason, h₀]
  · rw [runScrape_dropped (.inr ⟨n, h₀, h₁⟩), Attempt.reason, h₀]
    simp only [h₁]
  · rw [runScrape_block_error h₀, Attempt.reason, h₀]
    rfl
  · rw [runScrape_call_error h₀ h₁, Attempt.reason, h₀]
    simp only [h₁]
    rfl
  · rw [runScrape_result_count h₀ h₁ hlen, Attempt.reason, h₀]
    simp only [h₁, hlen, ↓reduceIte]
    rfl
  · have hev := planEvents_eq (d := d) hwf (Attempt.results_length hres)
    obtain ⟨h₀, h₁, hlen⟩ := Attempt.results_eq_some hres
    rw [runScrape_completed hres hev, Attempt.reason, h₀]
    simp only [h₁, hlen, ↓reduceIte]
    exact foldl_apply_frame _ w

/-- An attempt has a reason exactly when it has no results. -/
theorem Attempt.reason_eq_none_iff {a : Attempt} : a.reason x = none ↔ (a.results x).isSome := by
  rcases a.answers_cases x with (h₀ | ⟨n, h₀, h₁⟩) | ⟨e, h₀⟩ | ⟨n, h₀, ⟨e, h₁⟩ | ⟨results, h₁, hlen⟩⟩ |
    ⟨n, results, hres⟩
  · simp [Attempt.reason, Attempt.results, h₀]
  · simp [Attempt.reason, Attempt.results, h₀, h₁]
  · simp [Attempt.reason, Attempt.results, h₀]
  · simp [Attempt.reason, Attempt.results, h₀, h₁]
  · simp [Attempt.reason, Attempt.results, h₀, h₁, hlen]
  · obtain ⟨h₀, h₁, hlen⟩ := Attempt.results_eq_some hres
    simp [Attempt.reason, Attempt.results, h₀, h₁, hlen]

theorem runScrape_callErrorsTotal (hwf : x.plan.WellFormed) (a : Attempt) (w : Metrics)
    (labels : String × String × String) :
    (runScrape d x a w).1.callErrorsTotal labels =
      w.callErrorsTotal labels + a.callErrors d x labels := by
  unfold Attempt.callErrors
  cases hres : a.results x with
  | some r =>
    obtain ⟨n, results⟩ := r
    exact runScrape_callErrors hwf hres w labels
  | none =>
    rw [runScrape_reading hwf a w (fun w => w.callErrorsTotal labels) (fun _ _ => rfl) rfl, hres]
    rfl

/-! ### Runs -/

theorem run_scrapeErrors (hwf : x.plan.WellFormed) (attempts : List Attempt) (w : Metrics)
    (reason : String) : (run d x attempts w).scrapeErrorsTotal reason =
      w.scrapeErrorsTotal reason + attempts.countP fun a => a.reason x = some reason := by
  induction attempts generalizing w with
  | nil => rfl
  | cons a attempts ih =>
    rw [run_cons hwf, ih, runScrape_scrapeErrors hwf, List.countP_cons]
    cases hreason : a.reason x with
    | none => simp
    | some r =>
      by_cases hr : reason = r
      · subst hr
        simp [Metrics.incScrapeErrors]
        omega
      · simp [Metrics.incScrapeErrors, hr, Ne.symm hr]

theorem run_callErrors (hwf : x.plan.WellFormed) (attempts : List Attempt) (w : Metrics)
    (labels : String × String × String) : (run d x attempts w).callErrorsTotal labels =
      w.callErrorsTotal labels + (attempts.map (Attempt.callErrors d x labels)).sum := by
  induction attempts generalizing w with
  | nil => rfl
  | cons a attempts ih =>
    rw [run_cons hwf, ih, runScrape_callErrorsTotal hwf, List.map_cons, List.sum_cons,
      Nat.add_assoc]

/-- Every attempt completes or has one of the reasons. -/
theorem length_eq_completed_add (attempts : List Attempt) :
    attempts.length = attempts.countP (fun a => (a.results x).isSome) +
      (scrapeReasons.map fun reason => attempts.countP fun a => a.reason x = some reason).sum := by
  induction attempts with
  | nil => rfl
  | cons a attempts ih =>
    simp only [scrapeReasons, List.map_cons, List.map_nil, List.sum_cons, List.sum_nil,
      List.countP_cons, List.length_cons] at ih ⊢
    have hone : (if (a.results x).isSome then 1 else 0) +
        ((if decide (a.reason x = some "timeout") then 1 else 0) +
          ((if decide (a.reason x = some "block_not_available") then 1 else 0) +
            (if decide (a.reason x = some "chunk_failed") then 1 else 0))) = 1 := by
      cases hreason : a.reason x with
      | none => simp [Attempt.reason_eq_none_iff.mp hreason]
      | some reason =>
        have hsome : (a.results x).isSome = false := by
          rw [← Bool.not_eq_true, ← Attempt.reason_eq_none_iff, hreason]
          simp
        have hmem := Attempt.reason_mem hreason
        simp only [scrapeReasons, List.mem_cons, List.not_mem_nil, or_false] at hmem
        rcases hmem with rfl | rfl | rfl <;> simp [hsome]
    omega

/-- In every interleaving the counters of the scrape errors count the attempts that failed for
their reason, and with the completed attempts they add up to the attempts made; the
counters of the call errors sum up what the completed attempts failed to read; and no
counter ever goes back. -/
theorem errors_accounted (hb : build d cfg registry = .ok (plan, registry')) {acts : List RunAct}
    {s : RunState} (h : execute (RunState.step d ⟨cfg, plan⟩) .initial acts = some s) :
    let attempts := acts.filterMap RunAct.attempt?
    (∀ reason, s.metrics.scrapeErrorsTotal reason =
      attempts.countP fun a => a.reason ⟨cfg, plan⟩ = some reason) ∧
    attempts.length = attempts.countP (fun a => (a.results ⟨cfg, plan⟩).isSome) +
      (scrapeReasons.map s.metrics.scrapeErrorsTotal).sum ∧
    (∀ labels, s.metrics.callErrorsTotal labels =
      (attempts.map (Attempt.callErrors d ⟨cfg, plan⟩ labels)).sum) ∧
    ∀ post s', execute (RunState.step d ⟨cfg, plan⟩) s post = some s' →
      (∀ reason, s.metrics.scrapeErrorsTotal reason ≤ s'.metrics.scrapeErrorsTotal reason) ∧
      ∀ labels, s.metrics.callErrorsTotal labels ≤ s'.metrics.callErrorsTotal labels := by
  intro attempts
  have hwf : (⟨cfg, plan⟩ : Exporter).plan.WellFormed := build_wellFormed hb
  have hreasons : ∀ reason, s.metrics.scrapeErrorsTotal reason =
      attempts.countP fun a => a.reason ⟨cfg, plan⟩ = some reason := by
    intro reason
    rw [execute_metrics h, run_scrapeErrors hwf]
    exact Nat.zero_add _
  refine ⟨hreasons, ?_, ?_, ?_⟩
  · rw [show s.metrics.scrapeErrorsTotal = fun reason =>
      attempts.countP fun a => a.reason ⟨cfg, plan⟩ = some reason from funext hreasons]
    exact length_eq_completed_add attempts
  · intro labels
    rw [execute_metrics h, run_callErrors hwf]
    exact Nat.zero_add _
  · intro post s' hpost
    rw [execute_metrics hpost]
    constructor
    · intro reason
      rw [run_scrapeErrors hwf]
      exact Nat.le_add_right _ _
    · intro labels
      rw [run_callErrors hwf]
      exact Nat.le_add_right _ _

/-- One attempt times out, one is refused the block and one completes. -/
def threeAttempts : List RunAct :=
  [.scrapeReturned unanswered, .firstTick, .intervalElapsed, .selectTick,
    .scrapeReturned ((blockAttempt (.error "connection refused")).attempt multicall3),
    .intervalElapsed, .selectTick,
    .scrapeReturned ((servedAttempt sevenChain 200).attempt multicall3)]

theorem three_attempts_accounted :
    ∃ cfg plan registry s, build reference cfg [] = .ok (plan, registry) ∧
      execute (RunState.step reference ⟨cfg, plan⟩) .initial threeAttempts = some s ∧
      s.metrics.scrapeErrorsTotal "timeout" = 1 ∧
      (threeAttempts.filterMap RunAct.attempt?).length =
        (threeAttempts.filterMap RunAct.attempt?).countP (fun a => (a.results ⟨cfg, plan⟩).isSome) +
          (scrapeReasons.map s.metrics.scrapeErrorsTotal).sum := by
  obtain ⟨cfg, plan, registry, -, hb, h⟩ := Reference.of_check halfMinuteConfig
    (fun cfg plan => (execute (RunState.step reference ⟨cfg, plan⟩) .initial threeAttempts).any
      fun s => s.metrics.scrapeErrorsTotal "timeout" = 1) (by decide +kernel)
  obtain ⟨s, hs, htimeout⟩ := (Option.any_eq_true _ _).mp h
  exact ⟨cfg, plan, registry, s, hb, hs, of_decide_eq_true htimeout, (errors_accounted hb hs).2.1⟩

/-! ### The size of the metrics -/

theorem encard_le_length {α : Type*} {S : Set α} (l : List α) (h : ∀ a ∈ S, a ∈ l) :
    S.encard ≤ l.length := by
  classical
  calc S.encard
      ≤ (l.toFinset : Set α).encard := Set.encard_le_encard fun a ha => by simpa using h a ha
    _ = l.toFinset.card := Set.encard_coe_eq_coe_finsetCard _
    _ ≤ l.length := Nat.cast_le.mpr (List.toFinset_card_le l)

/-- Only the labels of an entry have a counter. -/
theorem Attempt.callErrors_eq_zero {labels : String × String × String}
    (h : labels ∉ x.plan.entries.map Entry.errorLabels) (a : Attempt) :
    a.callErrors d x labels = 0 := by
  have hnone : x.plan.entriesOf labels = [] := by
    refine List.filter_eq_nil_iff.mpr fun e he => ?_
    rw [decide_eq_true_eq]
    rintro rfl
    exact h (List.mem_map_of_mem he)
  unfold Attempt.callErrors
  split
  · rw [hnone]
    rfl
  · rfl

/-- Every name has a registered gauge. -/
theorem build_registers (hb : build d cfg registry = .ok (plan, registry')) :
    ∀ e ∈ plan.entries, e.gauge ∈ registry' := by
  obtain ⟨sites, names, -, -, rfl, -, hnames, rfl⟩ := build_outcome hb
  intro e he
  obtain ⟨r, hr, rfl⟩ := List.mem_map.mp he
  refine List.mem_append_left _ (List.mem_reverse.mpr (List.mem_map.mpr ⟨r.name, ?_, rfl⟩))
  exact (hnames r.name).mpr (List.mem_map_of_mem hr)

/-- However long a run and whatever the node answers, there are no more time series, call error
counters and seen warnings than the plan has entries, and no scrape error counters but
those of the three reasons; every series is of a registered gauge and has a value for each
of its labels. -/
theorem metrics_bounded (hb : build d cfg registry = .ok (plan, registry')) {acts : List RunAct}
    {s : RunState} (h : execute (RunState.step d ⟨cfg, plan⟩) .initial acts = some s) :
    {series | s.metrics.gauges series ≠ none}.encard ≤ plan.entries.length ∧
      {labels | s.metrics.callErrorsTotal labels ≠ 0}.encard ≤ plan.entries.length ∧
      s.metrics.precisionLossSeen.card ≤ plan.entries.length ∧
      (∀ reason, s.metrics.scrapeErrorsTotal reason ≠ 0 → reason ∈ scrapeReasons) ∧
      ∀ series, s.metrics.gauges series ≠ none → ∃ gauge ∈ registry', gauge.name = series.1 ∧
        series.2.length = gauge.variableLabels.length := by
  set x : Exporter := ⟨cfg, plan⟩ with hx
  have hwf : x.plan.WellFormed := build_wellFormed hb
  have hnames : x.plan.NamesGauges := build_namesGauges hb
  have hseries : ∀ series, s.metrics.gauges series ≠ none →
      ∃ e ∈ plan.entries, (e.metricName, e.labelValues) = series := by
    intro series hlive
    by_contra hno
    push Not at hno
    rw [execute_metrics h] at hlive
    exact hlive (run_gauges_of_absent hwf hnames hno _)
  refine ⟨?_, ?_, ?_, ?_, ?_⟩
  · have hbound := encard_le_length (S := {series | s.metrics.gauges series ≠ none})
      (plan.entries.map fun e => (e.metricName, e.labelValues))
      fun series hlive => List.mem_map.mpr (hseries series hlive)
    simpa using hbound
  · have hbound := encard_le_length (S := {labels | s.metrics.callErrorsTotal labels ≠ 0})
      (plan.entries.map Entry.errorLabels) ?_
    · simpa using hbound
    · intro labels hcount
      by_contra hno
      refine hcount ?_
      rw [execute_metrics h, run_callErrors hwf]
      refine (Nat.zero_add _).trans (List.sum_eq_zero fun n hn => ?_)
      obtain ⟨a, -, rfl⟩ := List.mem_map.mp hn
      exact Attempt.callErrors_eq_zero hno a
  · have hseen : ∀ k ∈ s.metrics.precisionLossSeen,
        k ∈ plan.entries.map fun e => s!"{e.metricName}:{e.address.format}" := by
      intro k hk
      change k ∈ s.metrics.warningLog.seen at hk
      rw [execute_metrics h, run_warningLog hwf, OnceLog.mem_seen_addAll] at hk
      obtain hk | hk := hk
      · simp [RunState.initial, Metrics.initial, Metrics.warningLog] at hk
      · obtain ⟨p, hp, rfl⟩ := List.mem_map.mp hk
        obtain ⟨a, -, hp⟩ := List.mem_flatMap.mp hp
        obtain ⟨-, -, -, e, he, rfl, -⟩ := Attempt.mem_losses.mp hp
        exact List.mem_map.mpr ⟨e, he, rfl⟩
    calc s.metrics.precisionLossSeen.card
        ≤ (plan.entries.map fun e => s!"{e.metricName}:{e.address.format}").toFinset.card :=
          Finset.card_le_card fun k hk => List.mem_toFinset.mpr (hseen k hk)
      _ ≤ _ := List.toFinset_card_le _
      _ = plan.entries.length := List.length_map _
  · intro reason hcount
    by_contra hno
    refine hcount ?_
    rw [execute_metrics h, run_scrapeErrors hwf]
    refine (Nat.zero_add _).trans (List.countP_eq_zero.mpr fun a _ => ?_)
    rw [decide_eq_true_eq]
    exact fun hreason => hno (Attempt.reason_mem hreason)
  · intro series hlive
    obtain ⟨e, he, rfl⟩ := hseries series hlive
    exact ⟨e.gauge, build_registers hb e he, hnames e he, hwf.cardinality e he⟩

/-- The supply is the only series. -/
theorem supply_bounded :
    let acts : List RunAct := [.scrapeReturned ((servedAttempt sevenChain 100).attempt multicall3)]
    ∃ cfg plan registry s, build reference cfg [] = .ok (plan, registry) ∧
      execute (RunState.step reference ⟨cfg, plan⟩) .initial acts = some s ∧
      s.metrics.gauges ("token_total_supply", [Reference.tokenAddress, "1"]) ≠ none ∧
      {series | s.metrics.gauges series ≠ none}.encard ≤ (1 : ℕ) := by
  intro acts
  obtain ⟨cfg, plan, registry, -, hb, h⟩ := Reference.of_check halfMinuteConfig
    (fun cfg plan => plan.entries.length = 1 &&
      (execute (RunState.step reference ⟨cfg, plan⟩) .initial acts).any fun s =>
        s.metrics.gauges ("token_total_supply", [Reference.tokenAddress, "1"]) ≠ none)
    (by decide +kernel)
  rw [Bool.and_eq_true, Option.any_eq_true] at h
  obtain ⟨hone, s, hs, hlive⟩ := h
  have hbound := (metrics_bounded hb hs).1
  rw [of_decide_eq_true hone] at hbound
  exact ⟨cfg, plan, registry, s, hb, hs, of_decide_eq_true hlive, hbound⟩

end EvmExporter
