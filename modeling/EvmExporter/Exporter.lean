import EvmExporter.Lib.Store
import EvmExporter.Planner
import Mathlib.Data.Finset.Insert

/-! The scrape loop: `exporter.rs` and the metrics of `metrics.rs` it writes. One attempt
is a future with two awaits, the block number and the multicall, driven under a
timeout that may drop it at either; all its writes come after the second one. -/

namespace EvmExporter

open Lib

variable (d : Deps)

/-! ### The metrics -/

/-- A time series: metric name and label values. -/
abbrev Series := String × List String

/-- A precision-loss warning. -/
structure PrecisionLoss where
  metric : String
  contract : String
  function : String
  address : String
  deriving DecidableEq

/-- What a scrape attempt reads and writes: the contract gauges, the self-metrics, the
set of series already warned about and the warnings logged. -/
structure Metrics where
  gauges : Series → Option F64
  scrapeErrorsTotal : String → ℕ
  callErrorsTotal : String × String × String → ℕ
  lastScrapeSuccessTimestamp : F64
  rpcBlockNumber : F64
  callsTotal : F64
  chunksTotal : F64
  scrapeDurationSeconds : F64
  precisionLossSeen : Finset String
  precisionLossWarnings : List PrecisionLoss

/-- The metrics of a new exporter. -/
def Metrics.initial : Metrics where
  gauges _ := none
  scrapeErrorsTotal _ := 0
  callErrorsTotal _ := 0
  lastScrapeSuccessTimestamp := .zero
  rpcBlockNumber := .zero
  callsTotal := .zero
  chunksTotal := .zero
  scrapeDurationSeconds := .zero
  precisionLossSeen := ∅
  precisionLossWarnings := []

def Metrics.incScrapeErrors (w : Metrics) (reason : String) : Metrics :=
  { w with scrapeErrorsTotal :=
      Function.update w.scrapeErrorsTotal reason (w.scrapeErrorsTotal reason + 1) }

/-- Log a warning unless one with the same key has been logged. -/
def Metrics.warnPrecisionLossOnce (w : Metrics) (p : PrecisionLoss) : Metrics :=
  if s!"{p.metric}:{p.address}" ∈ w.precisionLossSeen then w
  else { w with
    precisionLossSeen := insert s!"{p.metric}:{p.address}" w.precisionLossSeen
    precisionLossWarnings := w.precisionLossWarnings ++ [p] }

@[simp] theorem warnPrecisionLossOnce_gauges (w : Metrics) (p : PrecisionLoss) :
    (w.warnPrecisionLossOnce p).gauges = w.gauges := by
  unfold Metrics.warnPrecisionLossOnce
  split_ifs <;> rfl

@[simp] theorem warnPrecisionLossOnce_scrapeErrorsTotal (w : Metrics) (p : PrecisionLoss) :
    (w.warnPrecisionLossOnce p).scrapeErrorsTotal = w.scrapeErrorsTotal := by
  unfold Metrics.warnPrecisionLossOnce
  split_ifs <;> rfl

@[simp] theorem warnPrecisionLossOnce_callErrorsTotal (w : Metrics) (p : PrecisionLoss) :
    (w.warnPrecisionLossOnce p).callErrorsTotal = w.callErrorsTotal := by
  unfold Metrics.warnPrecisionLossOnce
  split_ifs <;> rfl

/-! ### One entry -/

/-- What the scrape loop does for an entry. -/
inductive Event where
  | setGauge (series : Series) (value : F64)
  | callError (contract function address : String)
  | precisionLoss (p : PrecisionLoss)

def Metrics.apply (w : Metrics) : Event → Metrics
  | .setGauge series value => { w with gauges := Function.update w.gauges series (some value) }
  | .callError contract function address =>
    let key := (contract, function, address)
    { w with callErrorsTotal := Function.update w.callErrorsTotal key (w.callErrorsTotal key + 1) }
  | .precisionLoss p => w.warnPrecisionLossOnce p

/-- The panics of the loop: `results[i]` and `with_label_values`. -/
inductive Panic where
  | indexOutOfBounds (index length : ℕ)
  | labelCardinality (expected got : ℕ)

def Entry.series (e : Entry) : Series := (e.gauge.name, e.labelValues)

def Entry.callErrorEvent (e : Entry) : Event :=
  .callError e.contractName e.functionName e.address.format

/-- The body of the loop over the entries. -/
def entryEvents (results : List CallResult) (e : Entry) : Except Panic (List Event) :=
  match results[e.callIndex]? with
  | none => .error (.indexOutOfBounds e.callIndex results.length)
  | some r =>
    if ¬ r.success then .ok [e.callErrorEvent]
    else
      match decode d r.returnData e.decode with
      | .ok (value, precisionLoss) =>
        if e.labelValues.length ≠ e.gauge.variableLabels.length then
          .error (.labelCardinality e.gauge.variableLabels.length e.labelValues.length)
        else .ok (.setGauge e.series value ::
          if precisionLoss then
            [.precisionLoss ⟨e.metricName, e.contractName, e.functionName, e.address.format⟩]
          else [])
      | .error _ => .ok [e.callErrorEvent]

/-! ### One attempt -/

/-- The two things an attempt waits for. -/
inductive Query where
  | blockNumberForTag (tag : String)
  | call (block : ℕ) (calls : List CallRequest)

abbrev Answer : Query → Type
  | .blockNumberForTag _ => Except Error ℕ
  | .call _ _ => Except Error (List CallResult)

abbrev ScrapeIO (α : Type) := Future Metrics Query Answer α

/-- The clock readings of an attempt. -/
structure Clock where
  elapsed : F64
  now : F64

/-- The parts of an exporter a scrape reads. -/
structure Exporter where
  cfg : Config
  plan : Plan

inductive Failure where
  | error (e : Error)
  | panic (p : Panic)

/-- The loop over the entries. -/
def scrapeEntries (results : List CallResult) : List Entry → ScrapeIO (Except Panic Unit)
  | [] => .done (.ok ())
  | e :: entries =>
    match entryEvents d results e with
    | .error p => .done (.error p)
    | .ok events => .act (fun w => events.foldl Metrics.apply w) fun _ =>
      scrapeEntries results entries

/-- Count a failed scrape, report its duration and return the error. -/
def failScrape (clock : Clock) (reason : String) (e : Error) : ScrapeIO (Except Failure Unit) :=
  .act (fun w => w.incScrapeErrors reason) fun _ =>
    .act (fun w => { w with scrapeDurationSeconds := clock.elapsed }) fun _ =>
      .done (.error (.error e))

/-- The self-metrics of a scrape that reached the end of the loop. -/
def Metrics.finish (w : Metrics) (x : Exporter) (clock : Clock) (blockNumber : ℕ) : Metrics :=
  { w with
    lastScrapeSuccessTimestamp := clock.now
    rpcBlockNumber := F64.ofNat blockNumber
    callsTotal := F64.ofNat x.plan.calls.length
    chunksTotal := F64.ofNat x.plan.chunkCount
    scrapeDurationSeconds := clock.elapsed }

def scrapeOnce (x : Exporter) (clock : Clock) : ScrapeIO (Except Failure Unit) :=
  .await (.blockNumberForTag x.cfg.chain.blockTag) fun
    | .error e => failScrape clock "block_not_available" e
    | .ok blockNumber => .await (.call blockNumber x.plan.calls) fun
      | .error e => failScrape clock "chunk_failed" e
      | .ok results =>
        if results.length ≠ x.plan.calls.length then
          failScrape clock "chunk_failed" (.resultCount results.length x.plan.calls.length)
        else do
          match ← scrapeEntries d results x.plan.entries with
          | .error p => .done (.error (.panic p))
          | .ok () => .act (fun w => w.finish x clock blockNumber) fun _ => .done (.ok ())

/-- One attempt's environment: the answers to its awaits, `none` where the timeout
strikes, and its clock readings. -/
structure Attempt where
  answer : ℕ → (q : Query) → Option (Answer q)
  clock : Clock

inductive AttemptEnd where
  | completed
  | failed (e : Error)
  | elapsed
  | panicked (p : Panic)

/-- One attempt under the timeout. -/
def runScrape (x : Exporter) (a : Attempt) (w : Metrics) : Metrics × AttemptEnd :=
  let o := (scrapeOnce d x a.clock).run a.answer 0 w
  match o.result with
  | some (.ok ()) => (o.state, .completed)
  | some (.error (.error e)) => (o.state, .failed e)
  | some (.error (.panic p)) => (o.state, .panicked p)
  | none => (o.state.incScrapeErrors "timeout", .elapsed)

/-- The attempts of a run, one after the other; a panic ends it. -/
def run (x : Exporter) : List Attempt → Metrics → Metrics
  | [], w => w
  | a :: attempts, w =>
    match runScrape d x a w with
    | (w', .panicked _) => w'
    | (w', _) => run x attempts w'

end EvmExporter
