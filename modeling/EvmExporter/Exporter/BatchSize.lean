import EvmExporter.Exporter.Reasons
import EvmExporter.Multicall.Requests

/-! The batch size is invisible. It decides how the calls are cut into chunks and nothing
else: another size gives the same plan and the same collectors, and on a node that answers
every chunk a run leaves the same metrics, but for the number of chunks. -/

namespace EvmExporter

open Lib

variable {d : Deps} {cfg : Config} {plan : Plan} {registry registry' : Registry} {x : Exporter}

/-- The configuration with another batch size. -/
def Config.withBatch (cfg : Config) (max : ℕ) : Config :=
  { cfg with scrape := { cfg.scrape with maxCallsPerBatch := max } }

/-- The plan with the number of chunks of another batch size. -/
def Plan.withBatch (plan : Plan) (max : ℕ) : Plan :=
  { plan with chunkCount := EvmExporter.chunkCount plan.calls.length max }

/-- The metrics but for the number of chunks. -/
def Metrics.chunkless (w : Metrics) : Metrics := { w with chunksTotal := .zero }

/-! ### The plan -/

theorem buildContract_withBatch (d : Deps) (cfg : Config) (max : ℕ) :
    buildContract d (cfg.withBatch max) = buildContract d cfg := rfl

theorem build_withBatch (d : Deps) (cfg : Config) (max : ℕ) (registry : Registry) :
    build d (cfg.withBatch max) registry =
      (build d cfg registry).map fun p => (p.1.withBatch max, p.2) := by
  have hcontracts : (cfg.withBatch max).contracts = cfg.contracts := rfl
  have hchain : (cfg.withBatch max).chain = cfg.chain := rfl
  unfold build
  rw [hcontracts, hchain, buildContract_withBatch]
  cases cfg.contracts.foldlM (buildContract d cfg) .empty with
  | error e => rfl
  | ok acc =>
    simp only [bind, Except.bind]
    cases (d.hashOrder acc.keysByMetric.keys).foldlM (registerGauge d acc) (registry, ∅) with
    | error e => rfl
    | ok gauges =>
      simp only
      cases acc.drafts.mapM (buildEntry cfg.chain.chainId gauges.2) with
      | error e => rfl
      | ok entries => rfl

/-! ### One attempt -/

/-- The node answers every chunk of the attempt from a chain. Requests for the block it may
answer as it likes. -/
def LiveAttempt.Served (l : LiveAttempt) (chain : Multicall.Chain) : Prop :=
  Multicall.TimedNode.Serves l.chunk chain

/-- On a node that answers every chunk, drivers that differ in their batch size tell an
attempt the same. -/
theorem LiveAttempt.Served.attempt_eq {l : LiveAttempt} {chain : Multicall.Chain}
    (h : l.Served chain) (drv drv' : Multicall.Driver) : l.attempt drv = l.attempt drv' := by
  unfold LiveAttempt.attempt
  congr 1
  funext i q
  cases q with
  | blockNumberForTag tag => rfl
  | call n calls =>
    have hsame := (Multicall.call_served h drv n calls).trans
      (Multicall.call_served h drv' n calls).symm
    exact hsame

/-- The exporter with another batch size. -/
def Exporter.withBatch (x : Exporter) (max : ℕ) : Exporter :=
  ⟨x.cfg.withBatch max, x.plan.withBatch max⟩

theorem Exporter.withBatch_wellFormed (h : x.plan.WellFormed) (max : ℕ) :
    (x.withBatch max).plan.WellFormed := ⟨h.index_lt, h.cardinality⟩

theorem chunkless_foldl_apply (events : List Event) {w w' : Metrics}
    (h : w'.chunkless = w.chunkless) :
    (events.foldl Metrics.apply w').chunkless = (events.foldl Metrics.apply w).chunkless := by
  induction events generalizing w w' with
  | nil => exact h
  | cons ev events ih =>
    apply ih
    have happly : ∀ w : Metrics, (w.apply ev).chunkless = w.chunkless.apply ev := by
      intro w
      cases ev with
      | setGauge series value => rfl
      | callError contract function address => rfl
      | precisionLoss p =>
        simp only [Metrics.apply, Metrics.warnPrecisionLossOnce]
        by_cases hseen : s!"{p.metric}:{p.address}" ∈ w.precisionLossSeen
        · have hseen' : s!"{p.metric}:{p.address}" ∈ w.chunkless.precisionLossSeen := hseen
          rw [if_pos hseen, if_pos hseen']
        · have hseen' : s!"{p.metric}:{p.address}" ∉ w.chunkless.precisionLossSeen := hseen
          rw [if_neg hseen, if_neg hseen']
          rfl
    rw [happly, happly, h]

theorem Attempt.results_of {a : Attempt} {n : ℕ} {results : List CallResult}
    (h₀ : a.answer 0 (.blockNumberForTag x.cfg.chain.blockTag) = some (.ok n))
    (h₁ : a.answer 1 (.call n x.plan.calls) = some (.ok results))
    (hlen : results.length = x.plan.calls.length) : a.results x = some (n, results) := by
  simp [Attempt.results, h₀, h₁, hlen]

/-- An attempt ends alike with either batch size. -/
theorem runScrape_withBatch (hwf : x.plan.WellFormed) (a : Attempt) (max : ℕ) {w w' : Metrics}
    (h : w'.chunkless = w.chunkless) :
    (runScrape d (x.withBatch max) a w').1.chunkless = (runScrape d x a w).1.chunkless := by
  have hwf' := x.withBatch_wellFormed hwf max
  have hfailed : ∀ reason elapsed,
      (w'.failed reason elapsed).chunkless = (w.failed reason elapsed).chunkless := by
    intro reason elapsed
    exact congrArg (fun v : Metrics => v.failed reason elapsed) h
  rcases a.answers_cases x with hdrop | ⟨e, h₀⟩ | ⟨n, h₀, ⟨e, h₁⟩ | ⟨results, h₁, hlen⟩⟩ |
    ⟨n, results, hres⟩
  · rw [runScrape_dropped hdrop, runScrape_dropped (x := x.withBatch max) hdrop]
    exact congrArg (fun v : Metrics => v.incScrapeErrors "timeout") h
  · rw [runScrape_block_error h₀, runScrape_block_error (x := x.withBatch max) h₀]
    exact hfailed _ _
  · rw [runScrape_call_error h₀ h₁, runScrape_call_error (x := x.withBatch max) h₀ h₁]
    exact hfailed _ _
  · rw [runScrape_result_count h₀ h₁ hlen,
      runScrape_result_count (x := x.withBatch max) h₀ h₁ hlen]
    exact hfailed _ _
  · have hev := planEvents_eq (d := d) hwf (Attempt.results_length hres)
    obtain ⟨h₀, h₁, hlen⟩ := Attempt.results_eq_some hres
    have hres' : a.results (x.withBatch max) = some (n, results) := Attempt.results_of h₀ h₁ hlen
    rw [runScrape_completed hres hev, runScrape_completed (x := x.withBatch max) hres' hev]
    have hevents := chunkless_foldl_apply (x.plan.entries.flatMap (Entry.events d results)) h
    have hfinish := congrArg (fun v : Metrics => (v.finish x a.clock n).chunkless) hevents
    exact hfinish

/-! ### Runs -/

theorem run_withBatch (hwf : x.plan.WellFormed) (attempts : List Attempt) (max : ℕ)
    {w w' : Metrics} (h : w'.chunkless = w.chunkless) :
    (run d (x.withBatch max) attempts w').chunkless = (run d x attempts w).chunkless := by
  induction attempts generalizing w w' with
  | nil => exact h
  | cons a attempts ih =>
    rw [run_cons hwf, run_cons (x.withBatch_wellFormed hwf max)]
    exact ih (runScrape_withBatch hwf a max h)

/-- With another batch size the planner builds the same plan and registers the same
collectors; and on a node that serves every chunk from a chain, every run of attempts leaves
the same metrics, but for the number of chunks. -/
theorem batch_size_invisible (hb : build d cfg registry = .ok (plan, registry'))
    (contract : Address) (chain : Multicall.Chain) (max : ℕ) :
    build d (cfg.withBatch max) registry = .ok (plan.withBatch max, registry') ∧
      ∀ lives : List LiveAttempt, (∀ l ∈ lives, l.Served chain) →
        (run d ⟨cfg.withBatch max, plan.withBatch max⟩
            (lives.map fun l => l.attempt ⟨contract, max⟩) .initial).chunkless =
          (run d ⟨cfg, plan⟩ (lives.map fun l =>
            l.attempt ⟨contract, cfg.scrape.maxCallsPerBatch⟩) .initial).chunkless := by
  have hwf : (⟨cfg, plan⟩ : Exporter).plan.WellFormed := build_wellFormed hb
  constructor
  · rw [build_withBatch, hb]
    rfl
  · intro lives hlives
    have hattempts : (lives.map fun l => l.attempt ⟨contract, max⟩) =
        lives.map fun l => l.attempt ⟨contract, cfg.scrape.maxCallsPerBatch⟩ :=
      List.map_congr_left fun l hl => (hlives l hl).attempt_eq _ _
    rw [hattempts]
    exact run_withBatch (x := ⟨cfg, plan⟩) hwf _ max rfl

/-- A node that answers every request in time, at one block of the chain. -/
def servedAttempt (chain : Multicall.Chain) (block : ℕ) : LiveAttempt :=
  ⟨fun _ => some (.ok (some block)), fun _ q => some (chain.aggregate3 q), ⟨.one, .one⟩⟩

theorem servedAttempt_served (chain : Multicall.Chain) (block : ℕ) :
    (servedAttempt chain block).Served chain := fun _ _ => rfl

/-- A chain on which every call returns seven, or reverts from block 200 on. -/
def sevenChain : Multicall.Chain := fun n _ =>
  if n < 200 then ⟨true, Reference.toBytes 32 7⟩ else ⟨false, []⟩

/-- Two calls, in batches of at most 500. -/
def twoCallConfig : Config :=
  Reference.tokenConfig [{ function := "totalSupply" }, { function := "decimals" }]

/-- Two calls in one chunk or in two: the metrics are the same. -/
theorem two_calls_unbatched :
    ∃ cfg plan registry, build reference cfg [] = .ok (plan, registry) ∧
      cfg.scrape.maxCallsPerBatch = 500 ∧ plan.chunkCount = 1 ∧ (plan.withBatch 1).chunkCount = 2 ∧
      build reference (cfg.withBatch 1) [] = .ok (plan.withBatch 1, registry) ∧
      (run reference ⟨cfg.withBatch 1, plan.withBatch 1⟩
          [(servedAttempt sevenChain 100).attempt ⟨multicall3.address, 1⟩] .initial).chunkless =
        (run reference ⟨cfg, plan⟩
          [(servedAttempt sevenChain 100).attempt ⟨multicall3.address, 500⟩] .initial).chunkless := by
  obtain ⟨cfg, plan, registry, -, hb, h⟩ := Reference.of_check twoCallConfig
    (fun cfg plan => cfg.scrape.maxCallsPerBatch = 500 ∧ plan.chunkCount = 1 ∧
      (plan.withBatch 1).chunkCount = 2) (by decide +kernel)
  obtain ⟨hmax, hone, htwo⟩ := of_decide_eq_true h
  obtain ⟨hbuild, hrun⟩ := batch_size_invisible hb multicall3.address sevenChain 1
  have hlives := hrun [servedAttempt sevenChain 100] (by simp [servedAttempt_served])
  rw [hmax] at hlives
  exact ⟨cfg, plan, registry, hb, hmax, hone, htwo, hbuild, hlives⟩

end EvmExporter
