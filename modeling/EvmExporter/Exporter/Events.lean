import EvmExporter.Exporter.Attempts
import EvmExporter.Planner.Schema
import EvmExporter.Reference

/-! Plans the scrape loop cannot trip over. In a well-formed plan every entry reads an
existing call and has one label value for each label of its gauge; its loop never panics
and its events are a function of the results. The planner builds well-formed plans. -/

namespace EvmExporter

open Lib

variable (d : Deps)

structure Plan.WellFormed (plan : Plan) : Prop where
  index_lt : ∀ e ∈ plan.entries, e.callIndex < plan.calls.length
  cardinality : ∀ e ∈ plan.entries, e.labelValues.length = e.gauge.variableLabels.length

/-- The value an entry reads from the results, with its precision-loss flag: none when the
call reverted or its data does not decode. -/
def Entry.sample (results : List CallResult) (e : Entry) : Option (F64 × Bool) :=
  (results[e.callIndex]?).bind fun r =>
    if r.success then (EvmExporter.decode d r.returnData e.decode).toOption else none

/-- What the loop does for an entry that does not panic. -/
def Entry.events (results : List CallResult) (e : Entry) : List Event :=
  match e.sample d results with
  | some (value, precisionLoss) =>
    .setGauge e.series value ::
      if precisionLoss then
        [.precisionLoss ⟨e.metricName, e.contractName, e.functionName, e.address.format⟩]
      else []
  | none => [e.callErrorEvent]

variable {d} {cfg : Config}

theorem entryEvents_eq {results : List CallResult} {e : Entry} (hidx : e.callIndex < results.length)
    (hcard : e.labelValues.length = e.gauge.variableLabels.length) :
    entryEvents d results e = .ok (e.events d results) := by
  unfold entryEvents Entry.events Entry.sample
  rw [List.getElem?_eq_getElem hidx]
  simp only [Option.bind_some]
  by_cases hs : results[e.callIndex].success
  · cases hd : decode d results[e.callIndex].returnData e.decode with
    | ok v =>
      obtain ⟨value, loss⟩ := v
      simp [hs, hcard, Except.toOption]
    | error err => simp [hs, Except.toOption]
  · simp [hs]

theorem planEvents_eq {plan : Plan} (hplan : plan.WellFormed) {results : List CallResult}
    (hlen : results.length = plan.calls.length) :
    planEvents d results plan.entries = .ok (plan.entries.flatMap (Entry.events d results)) := by
  rw [planEvents, mapM_eq_ok_map (g := Entry.events d results) fun e he =>
    entryEvents_eq (hlen ▸ hplan.index_lt e he) (hplan.cardinality e he)]
  rw [List.flatMap_def]
  rfl

/-! ### Plans of configurations -/

theorem request_mem {sites : List Site} {r : Row} (hr : r ∈ rows sites) :
    r.site.request ∈ sites.map Site.request :=
  List.mem_map_of_mem (mem_rows.mp hr).1

theorem planOf_wellFormed (cfg : Config) (sites : List Site) : (planOf cfg sites).WellFormed := by
  constructor
  · intro e he
    obtain ⟨r, hr, rfl⟩ := List.mem_map.mp he
    have hmem := List.mem_eraseDups.mpr (request_mem hr)
    exact List.idxOf_lt_length_of_mem hmem
  · intro e he
    obtain ⟨r, -, rfl⟩ := List.mem_map.mp he
    simp [Row.entry]

theorem build_wellFormed {registry registry' : Registry} {plan : Plan}
    (h : build d cfg registry = .ok (plan, registry')) : plan.WellFormed := by
  obtain ⟨sites, -, rfl⟩ := build_eq_planOf h
  exact planOf_wellFormed cfg sites

/-- The ways an attempt on a well-formed plan ends. -/
theorem runScrape_wellFormed {x : Exporter} (hx : x.plan.WellFormed) (a : Attempt) (w : Metrics) :
    (∃ n results, a.results x = some (n, results) ∧ runScrape d x a w =
      (((x.plan.entries.flatMap (Entry.events d results)).foldl Metrics.apply w).finish x a.clock n,
        .completed)) ∨
    (∃ reason e, reason ∈ ["block_not_available", "chunk_failed"] ∧ a.results x = none ∧
      runScrape d x a w = (w.failed reason a.clock.elapsed, .failed e)) ∨
    (a.results x = none ∧ runScrape d x a w = (w.incScrapeErrors "timeout", .elapsed)) := by
  rcases runScrape_cases d x a w with ⟨n, results, events, hres, hev, hrun⟩ |
    ⟨n, results, p, hres, hev, -⟩ | h | ⟨hdrop, hrun⟩
  · rw [planEvents_eq hx (Attempt.results_length hres)] at hev
    obtain rfl := Except.ok.inj hev
    exact .inl ⟨n, results, hres, hrun⟩
  · rw [planEvents_eq hx (Attempt.results_length hres)] at hev
    cases hev
  · exact .inr (.inl h)
  · exact .inr (.inr ⟨Attempt.results_of_dropped hdrop, hrun⟩)

/-- What failures leave alone changes in an attempt only if it completes. -/
theorem runScrape_reading {x : Exporter} (hx : x.plan.WellFormed) (a : Attempt) (w : Metrics)
    {β : Type*} (view : Metrics → β)
    (hfailed : ∀ reason elapsed, view (w.failed reason elapsed) = view w)
    (htimeout : view (w.incScrapeErrors "timeout") = view w) :
    view (runScrape d x a w).1 = match a.results x with
      | some (n, results) => view
          (((x.plan.entries.flatMap (Entry.events d results)).foldl Metrics.apply w).finish x
            a.clock n)
      | none => view w := by
  rcases runScrape_wellFormed hx a w with ⟨n, results, hres, hrun⟩ | ⟨reason, e, -, hres, hrun⟩ |
    ⟨hres, hrun⟩
  · rw [hrun, hres]
  · rw [hrun, hres]
    exact hfailed reason _
  · rw [hrun, hres]
    exact htimeout

/-! ### The schema -/

/-- The label schema of an entry: the sorted keys that any level sets for any output of its name,
then `address` and `chain_id`, each key once and with one value. A key that only other outputs of
the name have is empty. -/
structure SchemaOf (cfg : Config) (sites : List Site) (r : Row) (e : Entry) : Prop where
  name_eq : e.metricName = r.name
  address_eq : e.address = r.site.address
  keys_eq : ∃ users, e.labelKeys = users ++ ["address", "chain_id"] ∧ users.Pairwise (· < ·) ∧
    (∀ k, k ∈ users ↔ ∃ r' ∈ rows sites, r'.name = r.name ∧ r'.site.toPlace.SetsLabel cfg k) ∧
    ∀ k ∈ users, e.label k = some ((r.site.toPlace.label cfg k).getD "")
  keys_nodup : e.labelKeys.Nodup
  values_length : e.labelValues.length = e.labelKeys.length
  address_label : e.label "address" = some e.address.format
  chainId_label : e.label "chain_id" = some (toString cfg.chain.chainId)

theorem schemaOf_produced (hv : cfg.Valid d) {sites : List Site} (h : sitesOf d cfg = .ok sites)
    {r : Row} {e : Entry} (he : (r, e) ∈ (planOf cfg sites).produced sites) :
    SchemaOf cfg sites r e := by
  obtain ⟨hr, rfl⟩ := mem_produced.mp he
  constructor
  case name_eq => rfl
  case address_eq => rfl
  case keys_eq =>
    refine ⟨_, rfl, SortedMap.keys_sorted _, fun k => ?_, fun k hk => ?_⟩
    · simp only [mem_labelUnion, Row.labels, Site.labels, mem_keys_mergeLabels]
    · obtain ⟨r', hr', -, hk'⟩ := mem_labelUnion.mp hk
      have hfree : k ∉ reservedLabelKeys := rows_labels_free hv h r' hr' k hk'
      rw [entry_label, if_pos (by simp [hk]), labelValue_of_not_reserved hfree, Row.labels,
        Site.labels, mergeLabels_get?_eq_label]
  case keys_nodup => exact familyOf_keys_nodup (rows_labels_free hv h) r.name
  case values_length => simp [Row.entry]
  case address_label =>
    rw [entry_label]
    simp [Row.entry]
  case chainId_label =>
    rw [entry_label]
    simp

/-- No answers and no deadline make an attempt on a well-formed plan panic. -/
theorem runScrape_not_panicked {x : Exporter} (hx : x.plan.WellFormed) (a : Attempt) (w : Metrics)
    (p : Panic) : (runScrape d x a w).2 ≠ .panicked p := by
  intro hp
  rcases runScrape_wellFormed hx a w with ⟨n, results, -, hrun⟩ | ⟨reason, e, -, -, hrun⟩ |
    ⟨-, hrun⟩
  all_goals rw [hrun] at hp; cases hp

/-- Entries of one name share their label keys, and no driver outcome makes a scrape panic. -/
theorem gauge_schema {raw : Config} {baseDir : String} {plan : Plan} {registry registry' : Registry}
    (hv : validate d baseDir raw = .ok cfg) (hb : build d cfg registry = .ok (plan, registry')) :
    (∃ sites, sitesOf d cfg = .ok sites ∧ (plan.produced sites).map Prod.snd = plan.entries ∧
      ∀ r e, (r, e) ∈ plan.produced sites → SchemaOf cfg sites r e) ∧
    (∀ e ∈ plan.entries, ∀ e' ∈ plan.entries, e.metricName = e'.metricName →
      e.labelKeys = e'.labelKeys) ∧
    ∀ a w p, (runScrape d ⟨cfg, plan⟩ a w).2 ≠ .panicked p := by
  have hwf : (⟨cfg, plan⟩ : Exporter).plan.WellFormed := build_wellFormed hb
  have hpanic := runScrape_not_panicked (d := d) hwf
  obtain ⟨sites, hsites, rfl⟩ := build_eq_planOf hb
  have hschema : ∀ r e, (r, e) ∈ (planOf cfg sites).produced sites → SchemaOf cfg sites r e := by
    intro r e he
    exact schemaOf_produced (validate_valid hv) hsites he
  have hkeys : ∀ e ∈ (planOf cfg sites).entries, ∀ e' ∈ (planOf cfg sites).entries,
      e.metricName = e'.metricName → e.labelKeys = e'.labelKeys := by
    intro e he e' he' hname
    obtain ⟨r, -, rfl⟩ := List.mem_map.mp he
    obtain ⟨r', -, rfl⟩ := List.mem_map.mp he'
    have hn : r.name = r'.name := hname
    simp [Row.entry, hn]
  exact ⟨⟨sites, hsites, produced_entries sites, hschema⟩, hkeys, hpanic⟩

/-- Two call sets of one metric, each with a label the other does not have. -/
def gradedSupply : Config := Reference.tokenConfig [{
  function := "totalSupply"
  calls := [
    { labels := .single "tier" "gold" },
    { labels := .single "grade" "silver" }] }]

/-- Both entries have both keys, and an empty value for the one they do not set. -/
theorem graded_supply_schema :
    ∃ cfg plan registry sites, validate reference "." gradedSupply = .ok cfg ∧
      build reference cfg [] = .ok (plan, registry) ∧ sitesOf reference cfg = .ok sites ∧
      plan.entries.map Entry.metricName = ["token_total_supply", "token_total_supply"] ∧
      plan.entries.map (fun e => e.label "tier") = [some "gold", some ""] ∧
      plan.entries.map (fun e => e.label "grade") = [some "", some "silver"] ∧
      (plan.produced sites).map Prod.snd = plan.entries ∧
      (∀ r e, (r, e) ∈ plan.produced sites → SchemaOf cfg sites r e) ∧
      (∀ e ∈ plan.entries, ∀ e' ∈ plan.entries, e.labelKeys = e'.labelKeys) ∧
      ∀ a w p, (runScrape reference ⟨cfg, plan⟩ a w).2 ≠ .panicked p := by
  obtain ⟨cfg, plan, registry, hv, hb, h⟩ := Reference.of_check gradedSupply
    (fun _ plan =>
      plan.entries.map Entry.metricName = ["token_total_supply", "token_total_supply"] ∧
      plan.entries.map (fun e => e.label "tier") = [some "gold", some ""] ∧
      plan.entries.map (fun e => e.label "grade") = [some "", some "silver"] ∧
      ∀ e ∈ plan.entries, e.metricName = "token_total_supply") (by decide +kernel)
  obtain ⟨hnames, htiers, hgrades, hname⟩ := of_decide_eq_true h
  obtain ⟨⟨sites, hsites, hentries, hschema⟩, hkeys, hpanic⟩ := gauge_schema hv hb
  exact ⟨cfg, plan, registry, sites, hv, hb, hsites, hnames, htiers, hgrades, hentries, hschema,
    fun e he e' he' => hkeys e he e' he' ((hname e he).trans (hname e' he').symm), hpanic⟩

end EvmExporter
