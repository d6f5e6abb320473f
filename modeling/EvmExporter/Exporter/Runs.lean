import EvmExporter.Exporter.Events

/-! Runs of scrape attempts. A failed attempt changes nothing but one error counter and
the duration. A completed one writes the values its entries read, so after a run a
gauge holds the last value of the most recent attempt that read one for its series. -/

namespace EvmExporter

open Lib

variable {d : Deps} {cfg : Config} {plan : Plan} {registry registry' : Registry}

/-! ### Frames -/

/-- The events of the loop leave the scrape-level metrics alone. -/
theorem foldl_apply_frame (events : List Event) (w : Metrics) :
    (events.foldl Metrics.apply w).scrapeErrorsTotal = w.scrapeErrorsTotal := by
  induction events generalizing w with
  | nil => rfl
  | cons ev events ih =>
    rw [List.foldl_cons, ih]
    cases ev with
    | setGauge series value => rfl
    | callError contract function address => rfl
    | precisionLoss p => exact warnPrecisionLossOnce_scrapeErrorsTotal w p

/-- The metrics of two moments differ at most in the error counter and the duration. -/
structure Metrics.SameReadings (w w' : Metrics) : Prop where
  gauges : w'.gauges = w.gauges
  callErrorsTotal : w'.callErrorsTotal = w.callErrorsTotal
  lastScrapeSuccessTimestamp : w'.lastScrapeSuccessTimestamp = w.lastScrapeSuccessTimestamp
  rpcBlockNumber : w'.rpcBlockNumber = w.rpcBlockNumber
  callsTotal : w'.callsTotal = w.callsTotal
  chunksTotal : w'.chunksTotal = w.chunksTotal
  precisionLossSeen : w'.precisionLossSeen = w.precisionLossSeen

/-- The readings stay, and exactly this reason is counted, once. -/
structure Metrics.CountsOnly (w : Metrics) (reason : String) (w' : Metrics) : Prop where
  readings : w.SameReadings w'
  scrapeErrorsTotal : w'.scrapeErrorsTotal =
    Function.update w.scrapeErrorsTotal reason (w.scrapeErrorsTotal reason + 1)

theorem Metrics.failed_countsOnly (w : Metrics) (reason : String) (elapsed : F64) :
    w.CountsOnly reason (w.failed reason elapsed) := ⟨⟨rfl, rfl, rfl, rfl, rfl, rfl, rfl⟩, rfl⟩

theorem Metrics.incScrapeErrors_countsOnly (w : Metrics) (reason : String) :
    w.CountsOnly reason (w.incScrapeErrors reason) := ⟨⟨rfl, rfl, rfl, rfl, rfl, rfl, rfl⟩, rfl⟩

/-- A failed attempt is atomic. Whether the block, the driver or the number of results fails it
or the timeout drops it at either await, the readings stay and exactly one reason is counted,
once; an attempt with one result for each call completes and counts none. -/
theorem failed_attempt_atomic (hb : build d cfg registry = .ok (plan, registry')) (a : Attempt)
    (w : Metrics) :
    let r := runScrape d ⟨cfg, plan⟩ a w
    let block := a.answer 0 (.blockNumberForTag cfg.chain.blockTag)
    (∀ e, block = some (.error e) → r.2 = .failed e ∧ w.CountsOnly "block_not_available" r.1) ∧
    (∀ n e, block = some (.ok n) → a.answer 1 (.call n plan.calls) = some (.error e) →
      r.2 = .failed e ∧ w.CountsOnly "chunk_failed" r.1) ∧
    (∀ n results, block = some (.ok n) → a.answer 1 (.call n plan.calls) = some (.ok results) →
      results.length ≠ plan.calls.length →
      r.2 = .failed (.resultCount results.length plan.calls.length) ∧
        w.CountsOnly "chunk_failed" r.1) ∧
    (block = none → r.2 = .elapsed ∧ w.CountsOnly "timeout" r.1) ∧
    (∀ n, block = some (.ok n) → a.answer 1 (.call n plan.calls) = none →
      r.2 = .elapsed ∧ w.CountsOnly "timeout" r.1) ∧
    (∀ n results, block = some (.ok n) → a.answer 1 (.call n plan.calls) = some (.ok results) →
      results.length = plan.calls.length →
      r.2 = .completed ∧ r.1.scrapeErrorsTotal = w.scrapeErrorsTotal) ∧
    (r.2 ≠ .completed → ∃ reason, w.CountsOnly reason r.1) := by
  intro r block
  have hwf : (⟨cfg, plan⟩ : Exporter).plan.WellFormed := build_wellFormed hb
  have hblock : ∀ e, block = some (.error e) →
      r.2 = .failed e ∧ w.CountsOnly "block_not_available" r.1 := by
    intro e h₀
    have hrun : r = _ := runScrape_block_error (x := ⟨cfg, plan⟩) h₀ w
    rw [hrun]
    exact ⟨rfl, w.failed_countsOnly _ _⟩
  have hdriver : ∀ n e, block = some (.ok n) → a.answer 1 (.call n plan.calls) = some (.error e) →
      r.2 = .failed e ∧ w.CountsOnly "chunk_failed" r.1 := by
    intro n e h₀ h₁
    have hrun : r = _ := runScrape_call_error (x := ⟨cfg, plan⟩) h₀ h₁ w
    rw [hrun]
    exact ⟨rfl, w.failed_countsOnly _ _⟩
  have hcount : ∀ n results, block = some (.ok n) →
      a.answer 1 (.call n plan.calls) = some (.ok results) →
      results.length ≠ plan.calls.length →
      r.2 = .failed (.resultCount results.length plan.calls.length) ∧
        w.CountsOnly "chunk_failed" r.1 := by
    intro n results h₀ h₁ hlen
    have hrun : r = _ := runScrape_result_count (x := ⟨cfg, plan⟩) h₀ h₁ hlen w
    rw [hrun]
    exact ⟨rfl, w.failed_countsOnly _ _⟩
  have hdropped : Attempt.Dropped ⟨cfg, plan⟩ a → r.2 = .elapsed ∧ w.CountsOnly "timeout" r.1 := by
    intro hdrop
    have hrun : r = _ := runScrape_dropped hdrop w
    rw [hrun]
    exact ⟨rfl, w.incScrapeErrors_countsOnly _⟩
  refine ⟨hblock, hdriver, hcount, fun h₀ => hdropped (.inl h₀),
    fun n h₀ h₁ => hdropped (.inr ⟨n, h₀, h₁⟩), ?completed, ?failed⟩
  case completed =>
    intro n results h₀ h₁ hlen
    have hres : a.results ⟨cfg, plan⟩ = some (n, results) := by
      have hblock : a.answer 0 (.blockNumberForTag cfg.chain.blockTag) = some (.ok n) := h₀
      simp [Attempt.results, hblock, h₁, hlen]
    have hrun : r = _ := runScrape_completed (d := d) hres (planEvents_eq hwf hlen) w
    rw [hrun]
    exact ⟨rfl, foldl_apply_frame _ w⟩
  case failed =>
    intro hend
    rcases a.answers_cases ⟨cfg, plan⟩ with hdrop | ⟨e, h₀⟩ |
      ⟨n, h₀, ⟨e, h₁⟩ | ⟨results, h₁, hlen⟩⟩ | ⟨n, results, hres⟩
    · exact ⟨_, (hdropped hdrop).2⟩
    · exact ⟨_, (hblock e h₀).2⟩
    · exact ⟨_, (hdriver n e h₀ h₁).2⟩
    · exact ⟨_, (hcount n results h₀ h₁ hlen).2⟩
    · have hev := planEvents_eq (d := d) hwf (Attempt.results_length hres)
      have hrun : r = _ := runScrape_completed hres hev w
      exact absurd (congrArg Prod.snd hrun) hend

/-- An attempt with these answers. -/
def scriptedAttempt (block : Option (Except Error ℕ))
    (reply : Option (Except Error (List CallResult))) : Attempt where
  answer
    | _, .blockNumberForTag _ => block
    | _, .call _ _ => reply
  clock := ⟨.one, .one⟩

/-- The five failing exits on the supply plan, and an attempt that completes. -/
theorem supply_exits_atomic :
    ∃ cfg plan registry, build reference cfg [] = .ok (plan, registry) ∧
      ∀ w : Metrics, let exit block reply :=
          (runScrape reference ⟨cfg, plan⟩ (scriptedAttempt block reply) w).1
        w.CountsOnly "block_not_available" (exit (some (.error (.rpc "refused"))) none) ∧
        w.CountsOnly "chunk_failed" (exit (some (.ok 100)) (some (.error (.rpc "refused")))) ∧
        w.CountsOnly "chunk_failed" (exit (some (.ok 100)) (some (.ok []))) ∧
        w.CountsOnly "timeout" (exit none none) ∧
        w.CountsOnly "timeout" (exit (some (.ok 100)) none) ∧
        (exit (some (.ok 100)) (some (.ok [⟨false, []⟩]))).scrapeErrorsTotal =
          w.scrapeErrorsTotal := by
  obtain ⟨cfg, plan, registry, -, hb, h⟩ := Reference.of_check Reference.supplyConfig
    (fun _ plan => plan.calls.length = 1) (by decide +kernel)
  have hone : plan.calls.length = 1 := of_decide_eq_true h
  use cfg, plan, registry, hb
  intro w exit
  have hatomic block reply := failed_attempt_atomic hb (scriptedAttempt block reply) w
  exact ⟨((hatomic _ _).1 _ rfl).2, ((hatomic _ _).2.1 100 _ rfl rfl).2,
    ((hatomic _ _).2.2.1 100 [] rfl rfl (by simp [hone])).2, ((hatomic _ _).2.2.2.1 rfl).2,
    ((hatomic _ _).2.2.2.2.1 100 rfl rfl).2,
    ((hatomic _ _).2.2.2.2.2.1 100 [⟨false, []⟩] rfl rfl (by simp [hone])).2⟩

/-! ### Gauges -/

/-- The gauge write of an event. -/
def Event.write : Event → Option (Series × F64)
  | .setGauge series value => some (series, value)
  | _ => none

theorem foldl_apply_gauges (events : List Event) (w : Metrics) :
    (events.foldl Metrics.apply w).gauges = writeAll w.gauges (events.filterMap Event.write) := by
  induction events generalizing w with
  | nil => rfl
  | cons ev events ih =>
    rw [List.foldl_cons, ih]
    cases ev with
    | setGauge series value => rfl
    | callError contract function address => rfl
    | precisionLoss p => simp [Metrics.apply, Event.write, List.filterMap_cons]

/-- The writes of an entry: the value it reads, if any. -/
theorem events_writes (results : List CallResult) (e : Entry) :
    (e.events d results).filterMap Event.write =
      ((e.sample d results).map fun p => (e.series, p.1)).toList := by
  unfold Entry.events
  split
  next value loss h => cases loss <;> simp [h, Event.write]
  next h => simp [h, Event.write, Entry.callErrorEvent]

/-- The value the results give to a series: that of the last entry of the series, in plan
order, whose call succeeded and decoded. -/
def lastGood (d : Deps) (plan : Plan) (results : List CallResult) (s : Series) : Option F64 :=
  (plan.entries.filterMap fun e =>
    if (e.metricName, e.labelValues) = s then (e.sample d results).map Prod.fst else none).getLast?

/-- The gauge of an entry goes by the entry's metric name. -/
def Plan.NamesGauges (plan : Plan) : Prop := ∀ e ∈ plan.entries, e.gauge.name = e.metricName

theorem build_namesGauges (h : build d cfg registry = .ok (plan, registry')) :
    plan.NamesGauges := by
  obtain ⟨sites, -, rfl⟩ := build_eq_planOf h
  intro e he
  obtain ⟨r, -, rfl⟩ := List.mem_map.mp he
  rfl

theorem lastWrite_events (hplan : plan.NamesGauges) (results : List CallResult) (s : Series) :
    lastWrite s ((plan.entries.flatMap (Entry.events d results)).filterMap Event.write) =
      lastGood d plan results s := by
  have hwrites : (plan.entries.flatMap (Entry.events d results)).filterMap Event.write =
      plan.entries.filterMap fun e => (e.sample d results).map fun p => (e.series, p.1) := by
    rw [List.filterMap_flatMap]
    simp only [events_writes]
    rw [List.filterMap_eq_flatMap_toList]
  unfold lastWrite lastGood
  rw [hwrites, List.filter_filterMap, List.map_filterMap]
  congr 1
  apply List.filterMap_congr
  intro e he
  rw [Entry.series, hplan e he]
  cases e.sample d results <;> by_cases hs : (e.metricName, e.labelValues) = s <;> simp [hs]

/-- The value an attempt gives to a series; none when it does not complete. -/
def Attempt.lastGood (d : Deps) (x : Exporter) (s : Series) (a : Attempt) : Option F64 :=
  (a.results x).bind fun p => EvmExporter.lastGood d x.plan p.2 s

/-- What one attempt does to a gauge. -/
theorem runScrape_gauges {x : Exporter} (hwf : x.plan.WellFormed) (hnames : x.plan.NamesGauges)
    (a : Attempt) (w : Metrics) (s : Series) :
    (runScrape d x a w).1.gauges s = (a.lastGood d x s).or (w.gauges s) := by
  rw [runScrape_reading hwf a w (fun w => w.gauges s) (fun _ _ => rfl) rfl, Attempt.lastGood]
  cases a.results x with
  | none => rfl
  | some r =>
    obtain ⟨n, results⟩ := r
    rw [Option.bind_some, ← lastWrite_events hnames]
    change ((x.plan.entries.flatMap (Entry.events d results)).foldl Metrics.apply w).gauges s = _
    rw [foldl_apply_gauges, writeAll_apply]

/-- No attempt on a well-formed plan panics, so every attempt of a run is made. -/
theorem run_cons {x : Exporter} (hwf : x.plan.WellFormed) (a : Attempt) (attempts : List Attempt)
    (w : Metrics) : run d x (a :: attempts) w = run d x attempts (runScrape d x a w).1 := by
  rw [run]
  rcases runScrape_wellFormed hwf a w with ⟨n, results, -, hrun⟩ | ⟨reason, e, -, -, hrun⟩ |
    ⟨-, hrun⟩ <;> rw [hrun]

theorem run_gauges {x : Exporter} (hwf : x.plan.WellFormed) (hnames : x.plan.NamesGauges)
    (attempts : List Attempt) (w : Metrics) (s : Series) :
    (run d x attempts w).gauges s =
      (attempts.reverse.findSome? (Attempt.lastGood d x s)).or (w.gauges s) := by
  induction attempts generalizing w with
  | nil => rfl
  | cons a attempts ih =>
    rw [run_cons hwf, ih, runScrape_gauges hwf hnames, List.reverse_cons, List.findSome?_append,
      Option.or_assoc]
    congr 1
    cases h : a.lastGood d x s <;> simp [h]

/-- After a run the gauge of a series holds the decoded value of the last entry, in plan order,
among those of the series whose call succeeded and decoded, in the most recent completed
attempt that has one; without one the series is absent. -/
theorem gauges_hold_last_good (hb : build d cfg registry = .ok (plan, registry'))
    (attempts : List Attempt) (s : Series) :
    (run d ⟨cfg, plan⟩ attempts .initial).gauges s =
      attempts.reverse.findSome? fun a => (a.results ⟨cfg, plan⟩).bind fun p =>
        (plan.entries.filterMap fun e =>
          if (e.metricName, e.labelValues) = s then (e.sample d p.2).map Prod.fst
          else none).getLast? := by
  rw [run_gauges (x := ⟨cfg, plan⟩) (build_wellFormed hb) (build_namesGauges hb)]
  exact Option.or_none

/-- An attempt at block 100 in which every call returns the same. -/
def steadyAttempt (r : CallResult) (now : F64) : Attempt where
  answer
    | _, .blockNumberForTag _ => some (.ok 100)
    | _, .call _ calls => some (.ok (calls.map fun _ => r))
  clock := ⟨.one, now⟩

/-- The supply that was read outlives an attempt whose call reverts. -/
theorem supply_survives_revert :
    ∃ cfg plan registry, build reference cfg [] = .ok (plan, registry) ∧
      (run reference ⟨cfg, plan⟩ [steadyAttempt ⟨true, Reference.toBytes 32 7⟩ .one,
          steadyAttempt ⟨false, []⟩ (.finite 2)] .initial).gauges
        ("token_total_supply", [Reference.tokenAddress, "1"]) = some (.finite 7) := by
  obtain ⟨cfg, plan, registry, -, hb, h⟩ := Reference.of_check Reference.supplyConfig
    (fun cfg plan => ([steadyAttempt ⟨true, Reference.toBytes 32 7⟩ .one,
        steadyAttempt ⟨false, []⟩ (.finite 2)].reverse.findSome? fun a =>
      (a.results ⟨cfg, plan⟩).bind fun p => (plan.entries.filterMap fun e =>
        if (e.metricName, e.labelValues) = ("token_total_supply", [Reference.tokenAddress, "1"])
        then (e.sample reference p.2).map Prod.fst else none).getLast?) = some (.finite 7))
    (by decide +kernel)
  use cfg, plan, registry, hb
  rw [gauges_hold_last_good hb]
  exact of_decide_eq_true h

end EvmExporter
