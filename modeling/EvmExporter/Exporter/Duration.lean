import EvmExporter.Exporter.Runs

/-! The duration gauge. Every exit of an attempt sets it except the one the timeout takes,
which drops the attempt at an await; so it reports each attempt of a run exactly when no
attempt of the run is dropped. -/

namespace EvmExporter

open Lib

variable {d : Deps} {cfg : Config} {plan : Plan} {registry registry' : Registry}

/-- An attempt that is not dropped reports its own duration. -/
theorem runScrape_duration {x : Exporter} (hx : x.plan.WellFormed) {a : Attempt}
    (ha : ¬ a.Dropped x) (w : Metrics) :
    (runScrape d x a w).1.scrapeDurationSeconds = a.clock.elapsed := by
  rcases runScrape_cases d x a w with ⟨n, results, events, -, -, hrun⟩ |
    ⟨n, results, p, -, -, hpanic⟩ | ⟨reason, e, -, -, hrun⟩ | ⟨hdrop, -⟩
  · rw [hrun]
    rfl
  · exact absurd hpanic (runScrape_not_panicked hx a w p)
  · rw [hrun]
    rfl
  · exact absurd hdrop ha

/-- A dropped attempt leaves the duration of an earlier one. -/
theorem runScrape_duration_of_dropped {x : Exporter} {a : Attempt} (ha : a.Dropped x)
    (w : Metrics) : (runScrape d x a w).1.scrapeDurationSeconds = w.scrapeDurationSeconds := by
  rw [runScrape_dropped ha]
  rfl

/-- Whatever was reported before, the attempt reports a duration of its own. -/
def ReportsDuration (d : Deps) (x : Exporter) (a : Attempt) : Prop :=
  ∃ v, ∀ w, (runScrape d x a w).1.scrapeDurationSeconds = v

theorem reportsDuration_iff {x : Exporter} (hx : x.plan.WellFormed) (a : Attempt) :
    ReportsDuration d x a ↔ ¬ a.Dropped x := by
  constructor
  · rintro ⟨v, hv⟩ hdrop
    have hzero : F64.zero = v := by
      rw [← hv .initial, runScrape_duration_of_dropped hdrop]
      rfl
    have hone : F64.one = v := by
      rw [← hv { Metrics.initial with scrapeDurationSeconds := .one },
        runScrape_duration_of_dropped hdrop]
    exact absurd (hzero.trans hone.symm) (by decide)
  · intro hdrop
    exact ⟨a.clock.elapsed, runScrape_duration hx hdrop⟩

theorem run_append {x : Exporter} (hx : x.plan.WellFormed) (attempts : List Attempt) (a : Attempt)
    (w : Metrics) :
    run d x (attempts ++ [a]) w = (runScrape d x a (run d x attempts w)).1 := by
  induction attempts generalizing w with
  | nil =>
    rw [List.nil_append, run_cons hx]
    rfl
  | cons b attempts ih => rw [List.cons_append, run_cons hx, run_cons hx, ih]

/-- In a run without dropped attempts, the duration after each attempt is the one that attempt
set. An attempt reports its duration whatever the metrics before it exactly when it is not
dropped; after a dropped one the gauge still holds the value of an earlier attempt. -/
theorem duration_reported (hb : build d cfg registry = .ok (plan, registry')) :
    (∀ attempts, (∀ a ∈ attempts, ¬ a.Dropped ⟨cfg, plan⟩) →
      ∀ pre a post, attempts = pre ++ a :: post →
        (run d ⟨cfg, plan⟩ (pre ++ [a]) .initial).scrapeDurationSeconds = a.clock.elapsed) ∧
    (∀ a, ReportsDuration d ⟨cfg, plan⟩ a ↔ ¬ a.Dropped ⟨cfg, plan⟩) ∧
    ∀ pre a, a.Dropped ⟨cfg, plan⟩ →
      (run d ⟨cfg, plan⟩ (pre ++ [a]) .initial).scrapeDurationSeconds =
        (run d ⟨cfg, plan⟩ pre .initial).scrapeDurationSeconds := by
  have hwf : (⟨cfg, plan⟩ : Exporter).plan.WellFormed := build_wellFormed hb
  refine ⟨?_, reportsDuration_iff hwf, ?_⟩
  · rintro attempts hdrop pre a post rfl
    rw [run_append hwf]
    exact runScrape_duration hwf (hdrop a (by simp)) _
  · intro pre a ha
    rw [run_append hwf]
    exact runScrape_duration_of_dropped ha _

/-- An attempt dropped while it waits for the block, half a minute after it started. -/
def hungAttempt : Attempt := ⟨fun _ _ => none, ⟨.finite 30, .zero⟩⟩

/-- The duration of an attempt of one second outlives one that hung until the timeout. -/
theorem hung_attempt_unreported :
    ∃ cfg plan registry, build reference cfg [] = .ok (plan, registry) ∧
      let attempts := [steadyAttempt ⟨true, Reference.toBytes 32 7⟩ .one, hungAttempt]
      (run reference ⟨cfg, plan⟩ attempts .initial).scrapeDurationSeconds = .one ∧
        hungAttempt.clock.elapsed = .finite 30 ∧ hungAttempt.Dropped ⟨cfg, plan⟩ ∧
        ¬ ReportsDuration reference ⟨cfg, plan⟩ hungAttempt := by
  obtain ⟨cfg, plan, registry, -, hb, h⟩ := Reference.of_check Reference.supplyConfig
    (fun cfg plan => (run reference ⟨cfg, plan⟩
      [steadyAttempt ⟨true, Reference.toBytes 32 7⟩ .one, hungAttempt]
      .initial).scrapeDurationSeconds = .one) (by decide +kernel)
  have hdrop : hungAttempt.Dropped ⟨cfg, plan⟩ := .inl rfl
  have hnot : ¬ ReportsDuration reference ⟨cfg, plan⟩ hungAttempt :=
    fun hrep => (reportsDuration_iff (build_wellFormed hb) _).mp hrep hdrop
  exact ⟨cfg, plan, registry, hb, of_decide_eq_true h, rfl, hdrop, hnot⟩

/-- An attempt that completes after the given time. -/
def timedAttempt (elapsed : F64) : Attempt :=
  { steadyAttempt ⟨true, Reference.toBytes 32 7⟩ .one with clock := ⟨elapsed, .one⟩ }

/-- Of two attempts of two and of three seconds each reports its own. -/
theorem timed_attempts_reported :
    ∃ cfg plan registry, build reference cfg [] = .ok (plan, registry) ∧
      (run reference ⟨cfg, plan⟩ [timedAttempt (.finite 2)] .initial).scrapeDurationSeconds =
        .finite 2 ∧
      (run reference ⟨cfg, plan⟩ [timedAttempt (.finite 2), timedAttempt (.finite 3)]
        .initial).scrapeDurationSeconds = .finite 3 := by
  obtain ⟨cfg, plan, registry, -, hb, -⟩ := Reference.supply_planned
  have hdrop : ∀ a ∈ [timedAttempt (.finite 2), timedAttempt (.finite 3)],
      ¬ a.Dropped ⟨cfg, plan⟩ := by
    have htimed (t : F64) : ¬ (timedAttempt t).Dropped ⟨cfg, plan⟩ := by
      rintro (h | ⟨n, -, h⟩) <;> cases h
    simp [htimed]
  have hreported := (duration_reported hb).1 _ hdrop
  exact ⟨cfg, plan, registry, hb, hreported [] _ [timedAttempt (.finite 3)] rfl,
    hreported [timedAttempt (.finite 2)] _ [] rfl⟩

end EvmExporter
