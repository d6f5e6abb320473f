import EvmExporter.Exporter.Requests
import EvmExporter.Exporter.Shutdown
import EvmExporter.Exporter.Warnings

/-! What the exporter is for, without how it does it. A direct reader has no table of calls,
no chunks and no positions: at a block it asks the chain for the outputs of a configuration
one by one, each with its own call, and remembers the last value of each series, the
failures and the losses of precision. The exporter shows what the direct reader has read
at the blocks of its completed attempts, for any driver and any truthful node. -/

namespace EvmExporter

open Lib

variable (d : Deps)

/-! ### The direct reader -/

/-- What has been read of a chain. -/
structure Readings where
  values : Series → Option F64
  failures : String × String × String → ℕ
  losses : List PrecisionLoss

namespace Readings

def empty : Readings := ⟨fun _ => none, fun _ => 0, []⟩

def set (o : Readings) (series : Series) (value : F64) : Readings :=
  { o with values := Function.update o.values series (some value) }

def fail (o : Readings) (labels : String × String × String) : Readings :=
  { o with failures := Function.update o.failures labels (o.failures labels + 1) }

/-- A metric at an address is reported once. -/
def lose (o : Readings) (p : PrecisionLoss) : Readings :=
  if ∃ q ∈ o.losses, q.metric = p.metric ∧ q.address = p.address then o
  else { o with losses := o.losses ++ [p] }

end Readings

/-- The value of a row at a block: the row's own call, decoded. -/
def Row.sample (chain : Multicall.Chain) (n : ℕ) (r : Row) : Option (F64 × Bool) :=
  if (chain n r.site.request).success then
    (EvmExporter.decode d (chain n r.site.request).returnData r.decode).toOption
  else none

/-- The series of a row among the rows of a configuration. -/
def Row.series (cfg : Config) (rs : List Row) (r : Row) : Series :=
  (r.name, (familyOf cfg rs r.name).keys.map
    (labelValue cfg.chain.chainId r.site.address (r.labels cfg)))

def Row.place (r : Row) : String × String × String :=
  (r.site.contract.name, r.site.subcall.function, r.site.address.format)

def Row.loss (r : Row) : PrecisionLoss :=
  ⟨r.name, r.site.contract.name, r.site.subcall.function, r.site.address.format⟩

/-- Read a row at a block. -/
def Readings.read (cfg : Config) (rs : List Row) (chain : Multicall.Chain) (n : ℕ) (o : Readings)
    (r : Row) : Readings :=
  match r.sample d chain n with
  | some (value, true) => (o.set (r.series cfg rs) value).lose r.loss
  | some (value, false) => o.set (r.series cfg rs) value
  | none => o.fail r.place

/-- Read the rows, in order, at each of the blocks. -/
def Readings.readAt (cfg : Config) (rs : List Row) (chain : Multicall.Chain) (o : Readings)
    (blocks : List ℕ) : Readings :=
  blocks.foldl (fun o n => rs.foldl (Readings.read d cfg rs chain n) o) o

/-! ### What the metrics show -/

/-- The metrics show these readings, and have warned of just these losses. -/
structure Metrics.Shows (w : Metrics) (o : Readings) : Prop where
  gauges : w.gauges = o.values
  callErrorsTotal : w.callErrorsTotal = o.failures
  warnings : w.precisionLossWarnings = o.losses
  seen : ∀ k, k ∈ w.precisionLossSeen ↔ k ∈ o.losses.map PrecisionLoss.key
  addresses : ∀ p ∈ o.losses, ∃ a : Address, p.address = a.format

variable {d} {cfg : Config} {plan : Plan} {registry registry' : Registry} {w : Metrics}
  {o : Readings} {chain : Multicall.Chain} {drv : Multicall.Driver} {n : ℕ}

theorem shows_initial : Metrics.initial.Shows .empty :=
  ⟨rfl, rfl, rfl, fun k => by simp [Metrics.initial, Readings.empty],
    fun p hp => by simp [Readings.empty] at hp⟩

namespace Metrics.Shows

theorem setGauge (h : w.Shows o) (series : Series) (value : F64) :
    (w.apply (.setGauge series value)).Shows (o.set series value) := by
  refine ⟨?_, h.callErrorsTotal, h.warnings, h.seen, h.addresses⟩
  change Function.update w.gauges series (some value) = _
  rw [h.gauges]
  rfl

theorem callError (h : w.Shows o) (contract function address : String) :
    (w.apply (.callError contract function address)).Shows
      (o.fail (contract, function, address)) := by
  refine ⟨h.gauges, ?_, h.warnings, h.seen, h.addresses⟩
  simp only [Metrics.apply, Readings.fail, h.callErrorsTotal]

/-- The key seen stands for the metric and the address. -/
theorem precisionLoss (h : w.Shows o) {p : PrecisionLoss} {a : Address} (hp : p.address = a.format) :
    (w.apply (.precisionLoss p)).Shows (o.lose p) := by
  have hkey : p.key ∈ w.precisionLossSeen ↔
      ∃ q ∈ o.losses, q.metric = p.metric ∧ q.address = p.address := by
    rw [h.seen, List.mem_map]
    constructor
    · rintro ⟨q, hq, hqp⟩
      obtain ⟨b, hb⟩ := h.addresses q hq
      exact ⟨q, hq, (PrecisionLoss.key_eq_iff hb hp).mp hqp⟩
    · rintro ⟨q, hq, hqp⟩
      obtain ⟨b, hb⟩ := h.addresses q hq
      exact ⟨q, hq, (PrecisionLoss.key_eq_iff hb hp).mpr hqp⟩
  rw [Metrics.apply, Metrics.warnPrecisionLossOnce, Readings.lose]
  change (if p.key ∈ w.precisionLossSeen then _ else _ : Metrics).Shows _
  by_cases hseen : p.key ∈ w.precisionLossSeen
  · rw [if_pos hseen, if_pos (hkey.mp hseen)]
    exact h
  · rw [if_neg hseen, if_neg (mt hkey.mpr hseen)]
    refine ⟨h.gauges, h.callErrorsTotal, congrArg (· ++ [p]) h.warnings, ?_, ?_⟩
    · intro k
      change k ∈ insert p.key w.precisionLossSeen ↔ _
      rw [Finset.mem_insert, h.seen, List.map_append, List.mem_append, or_comm]
      simp
    · intro q hq
      rcases List.mem_append.mp hq with hq | hq
      · exact h.addresses q hq
      · exact ⟨a, List.mem_singleton.mp hq ▸ hp⟩

/-- The self-metrics and the error counter are no readings. -/
theorem of_readings {w' : Metrics} (h : w.Shows o) (hgauges : w'.gauges = w.gauges)
    (herrors : w'.callErrorsTotal = w.callErrorsTotal)
    (hseen : w'.precisionLossSeen = w.precisionLossSeen)
    (hwarnings : w'.precisionLossWarnings = w.precisionLossWarnings) : w'.Shows o :=
  ⟨hgauges.trans h.gauges, herrors.trans h.callErrorsTotal, hwarnings.trans h.warnings,
    fun k => by rw [hseen, h.seen], h.addresses⟩

end Metrics.Shows

/-! ### One attempt -/

/-- An entry whose call holds what the chain answers to its row reads that row. -/
theorem shows_entry {results : List CallResult} {sites : List Site} {r : Row} {i : ℕ}
    (hres : results[i]? = some (chain n r.site.request)) (h : w.Shows o) :
    (((r.entry cfg (familyOf cfg (rows sites) r.name) i).events d results).foldl
      Metrics.apply w).Shows (o.read d cfg (rows sites) chain n r) := by
  set e := r.entry cfg (familyOf cfg (rows sites) r.name) i with he
  have hsample : e.sample d results = r.sample d chain n := by
    simp only [he, Entry.sample, Row.entry, hres, Option.bind_some, Row.sample]
  rw [Readings.read, Entry.events, hsample]
  split
  next value loss hvalue =>
    rw [hvalue]
    cases loss with
    | true => exact (h.setGauge (r.series cfg (rows sites)) value).precisionLoss rfl
    | false => exact h.setGauge (r.series cfg (rows sites)) value
  next hnone =>
    rw [hnone]
    exact h.callError _ _ _

/-- The loop over the entries reads the rows in order. -/
theorem shows_entries (cfg : Config) (sites : List Site) (n : ℕ) (h : w.Shows o) :
    (((planOf cfg sites).entries.flatMap
        (Entry.events d ((planOf cfg sites).calls.map (chain n)))).foldl Metrics.apply w).Shows
      ((rows sites).foldl (Readings.read d cfg (rows sites) chain n) o) := by
  have hrow : ∀ r ∈ rows sites, ((distinctCalls sites).map (chain n))[(distinctCalls sites).idxOf
      r.site.request]? = some (chain n r.site.request) := by
    intro r hr
    rw [List.getElem?_map, distinctCalls_getElem? hr, Option.map_some]
  have hloop : ∀ rs : List Row, (∀ r ∈ rs, r ∈ rows sites) → ∀ w o, Metrics.Shows w o →
      ((rs.flatMap fun r => (r.entry cfg (familyOf cfg (rows sites) r.name)
        ((distinctCalls sites).idxOf r.site.request)).events d
          ((distinctCalls sites).map (chain n))).foldl Metrics.apply w).Shows
        (rs.foldl (Readings.read d cfg (rows sites) chain n) o) := by
    intro rs
    induction rs with
    | nil => exact fun _ w o h => h
    | cons r rs ih =>
      intro hrs w o h
      rw [List.flatMap_cons, List.foldl_append, List.foldl_cons]
      exact ih (fun r hr => hrs r (List.mem_cons_of_mem _ hr)) _ _
        (shows_entry (hrow r (hrs r List.mem_cons_self)) h)
  have hall := hloop (rows sites) (fun _ => id) w o h
  rw [← List.flatMap_map] at hall
  exact hall

/-- The results of a completed attempt are what the chain answers to the calls of the plan. -/
theorem LiveAttempt.results_of_truthful {l : LiveAttempt} {x : Exporter} {results : List CallResult}
    (hnode : Multicall.TimedNode.Truthful l.chunk chain)
    (hres : (l.attempt drv).results x = some (n, results)) :
    results = x.plan.calls.map (chain n) :=
  Multicall.call_reads hnode (Attempt.results_eq_some hres).2.1

/-- An attempt that completes reads at its block, and any other reads nothing. -/
theorem shows_runScrape {sites : List Site} {l : LiveAttempt}
    (hnode : Multicall.TimedNode.Truthful l.chunk chain) (h : w.Shows o) :
    (runScrape d ⟨cfg, planOf cfg sites⟩ (l.attempt drv) w).1.Shows
      (o.readAt d cfg (rows sites) chain
        (l.completedAt drv ⟨cfg, planOf cfg sites⟩).toList) := by
  have hwf : (⟨cfg, planOf cfg sites⟩ : Exporter).plan.WellFormed := planOf_wellFormed cfg sites
  rw [LiveAttempt.completedAt]
  rcases runScrape_wellFormed (d := d) hwf (l.attempt drv) w with ⟨n, results, hres, hrun⟩ |
    ⟨reason, e, -, hres, hrun⟩ | ⟨hres, hrun⟩
  · rw [hrun, hres]
    obtain rfl := LiveAttempt.results_of_truthful hnode hres
    exact (shows_entries cfg sites n h).of_readings rfl rfl rfl rfl
  · rw [hrun, hres]
    exact h.of_readings rfl rfl rfl rfl
  · rw [hrun, hres]
    exact h.of_readings rfl rfl rfl rfl

/-! ### Runs -/

theorem shows_run {sites : List Site} {lives : List LiveAttempt}
    (hnode : ∀ l ∈ lives, Multicall.TimedNode.Truthful l.chunk chain) (h : w.Shows o) :
    (run d ⟨cfg, planOf cfg sites⟩ (lives.map fun l => l.attempt drv) w).Shows
      (o.readAt d cfg (rows sites) chain
        (lives.filterMap fun l => l.completedAt drv ⟨cfg, planOf cfg sites⟩)) := by
  have hwf : (⟨cfg, planOf cfg sites⟩ : Exporter).plan.WellFormed := planOf_wellFormed cfg sites
  induction lives generalizing w o with
  | nil => exact h
  | cons l lives ih =>
    have hone : (runScrape d ⟨cfg, planOf cfg sites⟩ (l.attempt drv) w).1.Shows
        (o.readAt d cfg (rows sites) chain
          (l.completedAt drv ⟨cfg, planOf cfg sites⟩).toList) :=
      shows_runScrape (hnode l List.mem_cons_self) h
    have hrest := ih (fun l hl => hnode l (List.mem_cons_of_mem _ hl)) hone
    rw [List.map_cons, run_cons hwf]
    cases hblock : l.completedAt drv ⟨cfg, planOf cfg sites⟩ with
    | none =>
      rw [hblock] at hrest
      simp only [List.filterMap_cons, hblock]
      exact hrest
    | some n =>
      rw [hblock] at hrest
      simp only [List.filterMap_cons, hblock]
      exact hrest

/-- The metrics at the end of a run show what has been read at the blocks it completed at. -/
theorem execution_shows {sites : List Site} {acts : List RunAct} {s : RunState}
    (h : execute (RunState.step d ⟨cfg, planOf cfg sites⟩) .initial acts = some s)
    {lives : List LiveAttempt}
    (hlives : acts.filterMap RunAct.attempt? = lives.map fun l => l.attempt drv)
    (hnode : ∀ l ∈ lives, Multicall.TimedNode.Truthful l.chunk chain) :
    s.metrics.Shows (Readings.empty.readAt d cfg (rows sites) chain
      (lives.filterMap fun l => l.completedAt drv ⟨cfg, planOf cfg sites⟩)) := by
  rw [execute_metrics h, hlives]
  exact shows_run hnode shows_initial

/-- The exporter refines the direct reader. However scrapes, ticks, the cancellation and the
server interleave, whatever calls are shared, however they are cut into chunks and
whichever attempts fail, the metrics show what the direct reader reads of the chain at the
blocks of the completed attempts. -/
theorem metrics_show_direct_reads (hb : build d cfg registry = .ok (plan, registry'))
    (drv : Multicall.Driver) (chain : Multicall.Chain) {acts : List RunAct} {s : RunState}
    (h : execute (RunState.step d ⟨cfg, plan⟩) .initial acts = some s) {lives : List LiveAttempt}
    (hlives : acts.filterMap RunAct.attempt? = lives.map fun l => l.attempt drv)
    (hnode : ∀ l ∈ lives, Multicall.TimedNode.Truthful l.chunk chain) :
    ∃ sites, sitesOf d cfg = .ok sites ∧ sites.map Site.toPlace = places cfg ∧
      s.metrics.Shows (Readings.empty.readAt d cfg (rows sites) chain
        (lives.filterMap fun l => l.completedAt drv ⟨cfg, plan⟩)) := by
  obtain ⟨sites, hsites, rfl⟩ := build_eq_planOf hb
  exact ⟨sites, hsites, sitesOf_places hsites, execution_shows h hlives hnode⟩

/-- The supply is read at block 100 and its call reverts at block 200. -/
theorem seven_shown :
    ∃ cfg plan registry s sites, build reference cfg [] = .ok (plan, registry) ∧
      execute (RunState.step reference ⟨cfg, plan⟩) .initial
        [.scrapeReturned ((servedAttempt sevenChain 100).attempt multicall3), .firstTick,
          .intervalElapsed, .selectTick,
          .scrapeReturned ((servedAttempt sevenChain 200).attempt multicall3)] = some s ∧
      sitesOf reference cfg = .ok sites ∧ (rows sites).length = 1 ∧
      s.metrics.Shows (Readings.empty.readAt reference cfg (rows sites) sevenChain [100, 200]) ∧
      s.metrics.gauges ("token_total_supply", [Reference.tokenAddress, "1"]) =
        some (.finite 7) := by
  obtain ⟨cfg, plan, registry, -, hb, h⟩ := Reference.of_check halfMinuteConfig
    (fun cfg plan => match execute (RunState.step reference ⟨cfg, plan⟩) .initial
        [.scrapeReturned ((servedAttempt sevenChain 100).attempt multicall3), .firstTick,
          .intervalElapsed, .selectTick,
          .scrapeReturned ((servedAttempt sevenChain 200).attempt multicall3)] with
      | some s => s.metrics.gauges ("token_total_supply", [Reference.tokenAddress, "1"]) =
            some (.finite 7) ∧
          (servedAttempt sevenChain 100).completedAt multicall3 ⟨cfg, plan⟩ = some 100 ∧
          (servedAttempt sevenChain 200).completedAt multicall3 ⟨cfg, plan⟩ = some 200 ∧
          plan.entries.length = 1
      | none => False) (by decide +kernel)
  split at h
  next s hs =>
    obtain ⟨hgauge, h100, h200, hone⟩ := of_decide_eq_true h
    have hnode : ∀ l ∈ [servedAttempt sevenChain 100, servedAttempt sevenChain 200],
        Multicall.TimedNode.Truthful l.chunk sevenChain := by
      simp [(servedAttempt_served sevenChain _).truthful]
    obtain ⟨sites, hsites, -, hshows⟩ :=
      metrics_show_direct_reads hb multicall3 sevenChain hs rfl hnode
    obtain ⟨sites', hsites', rfl⟩ := build_eq_planOf hb
    obtain rfl := Except.ok.inj (hsites.symm.trans hsites')
    simp only [List.filterMap_cons, List.filterMap_nil, h100, h200] at hshows
    exact ⟨cfg, _, registry, s, sites, hb, hs, hsites, by simpa [planOf] using hone, hshows, hgauge⟩
  next => cases h

end EvmExporter
