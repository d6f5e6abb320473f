import EvmExporter.Exporter
import EvmExporter.Planner.GaugeNames

/-! The start of an exporter: `Exporter::new_with_deps` and `SelfMetrics::new`. The plan's
gauges and the self-metrics share one registry. A self-metric has the top-level labels as
constant labels beside its own variable ones, which the reserved keys do not all cover. -/

namespace EvmExporter

open Lib

variable (d : Deps)

/-! ### Self-metrics -/

/-- A self-metric carries the top-level labels as constant labels. -/
def selfMetric (labels : Labels) (name help : String) (variableLabels : List String) : Desc :=
  ⟨name, help, labels, variableLabels⟩

namespace SelfMetrics

variable (labels : Labels)

def scrapeDurationSeconds : Desc :=
  selfMetric labels "evm_exporter_scrape_duration_seconds"
    "Wall-clock time of the most recent scrape attempt, in seconds." []

def scrapeErrorsTotal : Desc :=
  selfMetric labels "evm_exporter_scrape_errors_total"
    ("Total scrape-level failures (rpc_error, block_not_available, chunk_failed, " ++
      "timeout, ...).") ["reason"]

def callErrorsTotal : Desc :=
  selfMetric labels "evm_exporter_call_errors_total" "Per-call decode or revert failures."
    ["contract", "function", "address"]

def lastScrapeSuccessTimestamp : Desc :=
  selfMetric labels "evm_exporter_last_scrape_success_timestamp_seconds"
    "Unix timestamp of the last fully successful scrape." []

def rpcBlockNumber : Desc :=
  selfMetric labels "evm_exporter_rpc_block_number"
    "Block number used at the most recent scrape." []

def callsTotal : Desc :=
  selfMetric labels "evm_exporter_calls_total"
    "Number of view-function calls planned per scrape." []

def chunksTotal : Desc :=
  selfMetric labels "evm_exporter_chunks_total"
    ("Number of aggregate3 invocations per scrape (calls / max_calls_per_batch, " ++
      "rounded up).") []

def buildInfo : Desc :=
  selfMetric labels "evm_exporter_build_info" "Exporter build information. Constant 1."
    ["version", "commit", "rust_version"]

/-- The self-metrics in the order in which they are created and registered. -/
def descs : List Desc :=
  [scrapeDurationSeconds labels, scrapeErrorsTotal labels, callErrorsTotal labels,
    lastScrapeSuccessTimestamp labels, rpcBlockNumber labels, callsTotal labels,
    chunksTotal labels, buildInfo labels]

/-- The plain gauges go through a closure that puts a context on its error. -/
def create (desc : Desc) : Except Error Unit :=
  (d.newDesc desc).mapError fun cause =>
    if desc.variableLabels.isEmpty then .createSelfMetric desc.name cause else .prometheus cause

def register (registry : Registry) (desc : Desc) : Except Error Registry := do
  (d.register registry desc).mapError .prometheus
  return desc :: registry

/-- All self-metrics are created first, and then registered. -/
def new (registry : Registry) : Except Error Registry := do
  (descs labels).forM (create d)
  (descs labels).foldlM (register d) registry

end SelfMetrics

/-! ### The exporter -/

/-- `Exporter::new_with_deps`, given the answers to its two probes. -/
def newWithDeps (cfg : Config) (chainId block : Except Error ℕ) :
    Except Error (Exporter × Registry) := do
  let got ← chainId.mapError (.context .chainIdProbe)
  bailIf (got ≠ cfg.chain.chainId) (.chainIdMismatch cfg.chain.chainId got)
  let _ ← block.mapError (.context (.blockTagProbe cfg.chain.blockTag))
  let (plan, registry) ← (build d cfg []).mapError (.context .plannerBuild)
  let registry ← (SelfMetrics.new d cfg.labels registry).mapError (.context .selfMetrics)
  return (⟨cfg, plan⟩, registry)

/-- The descriptors the Prometheus library is handed when an exporter starts: the gauges of the
names the planner comes to and, once the plan is made, the self-metrics up to the first one
refused. -/
inductive HandedToPrometheus (cfg : Config) : Desc → Prop where
  | gauge {acc : Acc} {name : String}
      (hacc : cfg.contracts.foldlM (buildContract d cfg) .empty = .ok acc)
      (h : HandedToGaugeVec d cfg [] name) : HandedToPrometheus cfg (acc.family name).gauge
  | selfMetric {planned : Plan × Registry} {pre post : List Desc} {desc : Desc}
      (hplan : build d cfg [] = .ok planned) (h : SelfMetrics.descs cfg.labels = pre ++ desc :: post)
      (hpre : pre.forM (SelfMetrics.create d) = .ok ()) : HandedToPrometheus cfg desc

/-- The label names of a collector, the constant ones first. -/
def Desc.labelNames (desc : Desc) : List String := desc.constLabels.keys ++ desc.variableLabels

/-- No label name of the collector is repeated, and all are in the grammar. -/
def Desc.GoodLabels (desc : Desc) : Prop :=
  desc.labelNames.Nodup ∧ ∀ k ∈ desc.labelNames, isValidLabelName k

variable {d} {cfg : Config}

theorem SelfMetrics.register_eq_ok {descs : List Desc} {registry registry' : Registry}
    (h : descs.foldlM (SelfMetrics.register d) registry = .ok registry') :
    registry' = descs.reverse ++ registry := by
  refine foldlM_invariant (fun pre registry' => registry' = pre.reverse ++ registry) rfl ?_ h
  rintro pre desc s s' rfl hstep
  simp only [SelfMetrics.register, check_bind_eq_ok, pure_eq_ok] at hstep
  simp [← hstep.2]

/-- The collectors of a started exporter have all been handed to the library. -/
theorem newWithDeps_handed {chainId block : Except Error ℕ} {x : Exporter} {registry : Registry}
    (h : newWithDeps d cfg chainId block = .ok (x, registry)) :
    ∀ desc ∈ registry, HandedToPrometheus d cfg desc := by
  simp only [newWithDeps, SelfMetrics.new, ↓check_bind_eq_ok, bind_eq_ok, pure_eq_ok,
    mapError_eq_ok] at h
  obtain ⟨-, -, -, -, -, planned, hplan, registry₂, ⟨hcreate, hself⟩, hx⟩ := h
  obtain ⟨-, rfl⟩ := Prod.mk.inj hx
  intro desc hdesc
  rw [SelfMetrics.register_eq_ok hself, List.mem_append, List.mem_reverse] at hdesc
  rcases hdesc with hdesc | hdesc
  · obtain ⟨pre, post, hdescs⟩ := List.append_of_mem hdesc
    refine .selfMetric hplan hdescs (forM_eq_ok.mpr fun other hother => ?_)
    exact forM_eq_ok.mp hcreate other (by simp [hdescs, hother])
  · obtain ⟨plan, registry'⟩ := planned
    simp only [build, bind_eq_ok, pure_eq_ok] at hplan
    obtain ⟨acc, hacc, ⟨registry'', families⟩, hreg, entries, -, hplanned⟩ := hplan
    obtain ⟨-, rfl⟩ := Prod.mk.inj hplanned
    rw [show registry'' = _ from (registerGauges_eq_ok hreg).1, List.append_nil,
      List.mem_reverse, List.mem_map] at hdesc
    obtain ⟨name, hname, rfl⟩ := hdesc
    obtain ⟨pre, post, horder⟩ := List.append_of_mem hname
    rw [horder, List.foldlM_append] at hreg
    obtain ⟨s, hs, -⟩ := bind_eq_ok.mp hreg
    exact .gauge hacc ⟨acc, pre, post, s, hacc, horder, hs⟩

/-! ### Label names -/

theorem selfMetric_nodup_iff {labels : Labels} {name help : String} {variableLabels : List String}
    (hvar : variableLabels.Nodup) :
    (selfMetric labels name help variableLabels).labelNames.Nodup ↔
      ∀ k ∈ labels.keys, k ∉ variableLabels := by
  have hkeys := labels.keys_nodup
  change (labels.keys ++ variableLabels).Nodup ↔ _
  rw [List.nodup_append]
  constructor
  · rintro ⟨-, -, hne⟩ k hk hmem
    exact hne k hk k hmem rfl
  · intro h
    refine ⟨hkeys, hvar, ?_⟩
    rintro k hk k' hk' rfl
    exact h k hk hk'

/-- The variable labels of the self-metrics that a configuration may use as label keys. -/
def unreservedVariableLabels : List String :=
  ["reason", "contract", "function", "version", "commit", "rust_version"]

/-- Self-metrics repeat no label name exactly when the top level uses none of theirs. -/
theorem selfMetrics_nodup_iff {labels : Labels} (hfree : ReservedFree labels) :
    (∀ desc ∈ SelfMetrics.descs labels, desc.labelNames.Nodup) ↔
      ∀ k ∈ labels.keys, k ∉ unreservedVariableLabels := by
  have haddress : ∀ k ∈ labels.keys, k ≠ "address" := by
    rintro k hk rfl
    exact hfree "address" hk (by decide)
  simp only [SelfMetrics.descs, List.forall_mem_cons, SelfMetrics.scrapeDurationSeconds,
    SelfMetrics.scrapeErrorsTotal, SelfMetrics.callErrorsTotal,
    SelfMetrics.lastScrapeSuccessTimestamp, SelfMetrics.rpcBlockNumber, SelfMetrics.callsTotal,
    SelfMetrics.chunksTotal, SelfMetrics.buildInfo]
  simp (disch := decide) only [selfMetric_nodup_iff]
  constructor
  · rintro ⟨-, hreason, hcall, -, -, -, -, hbuild, -⟩ k hk hmem
    have h₁ := hreason k hk
    have h₂ := hcall k hk
    have h₃ := hbuild k hk
    simp only [unreservedVariableLabels, List.mem_cons, List.not_mem_nil, or_false] at hmem h₁ h₂ h₃
    tauto
  · intro h
    have hkey : ∀ k ∈ labels.keys, ∀ l : List String,
        (∀ k ∈ l, k ∈ "address" :: unreservedVariableLabels) → k ∉ l := by
      intro k hk l hl hmem
      rcases List.mem_cons.mp (hl k hmem) with rfl | hmem
      · exact haddress _ hk rfl
      · exact h k hk hmem
    exact ⟨by simp, fun k hk => hkey k hk _ (by decide), fun k hk => hkey k hk _ (by decide),
      by simp, by simp, by simp, by simp, fun k hk => hkey k hk _ (by decide), by simp⟩

theorem familyOf_labelNames_nodup (hv : cfg.Valid d) {sites : List Site}
    (h : sitesOf d cfg = .ok sites) (name : String) :
    (familyOf cfg (rows sites) name).gauge.labelNames.Nodup :=
  familyOf_keys_nodup (rows_labels_free hv h) name

/-- The labels of a gauge are in the grammar when those set where its name is emitted are. -/
theorem familyOf_labelNames_valid_iff (hv : cfg.Valid d) {sites : List Site}
    (h : sitesOf d cfg = .ok sites) (name : String) :
    (∀ k ∈ (familyOf cfg (rows sites) name).gauge.labelNames, isValidLabelName k) ↔
      ∀ p ∈ places cfg, p.Emits d name → ∀ k, p.SetsLabel cfg k → isValidLabelName k := by
  have hnames : (familyOf cfg (rows sites) name).gauge.labelNames =
      (labelUnion cfg (rows sites) name).keys ++ ["address", "chain_id"] := rfl
  rw [hnames]
  constructor
  · intro hgood p hp hname k hk
    obtain ⟨r, hr, rfl, rfl⟩ := exists_row_of_emits hv h hp hname
    refine hgood k (List.mem_append_left _ (mem_labelUnion.mpr ⟨r, hr, rfl, ?_⟩))
    exact mem_keys_mergeLabels.mpr hk
  · intro hgood k hk
    rcases List.mem_append.mp hk with hk | hk
    · obtain ⟨r, hr, rfl, hkr⟩ := mem_labelUnion.mp hk
      obtain ⟨hp, hname⟩ := row_emits hv h hr
      exact hgood _ hp hname k (mem_keys_mergeLabels.mp hkr)
    · have hreserved : ∀ k ∈ ["address", "chain_id"], isValidLabelName k := by decide
      exact hreserved k hk

/-- The gauge of a name has good labels exactly when those set where it is emitted are in the
grammar. -/
theorem gauge_goodLabels_iff (hv : cfg.Valid d) {acc : Acc}
    (h : cfg.contracts.foldlM (buildContract d cfg) .empty = .ok acc) (name : String) :
    (acc.family name).gauge.GoodLabels ↔
      ∀ p ∈ places cfg, p.Emits d name → ∀ k, p.SetsLabel cfg k → isValidLabelName k := by
  obtain ⟨sites, hsites, hr⟩ := reflects_of_contracts h
  rw [hr.family_eq, ← familyOf_labelNames_valid_iff hv hsites name]
  exact and_iff_right (familyOf_labelNames_nodup hv hsites name)

/-- Of the names, help texts and variable labels of the self-metrics none can be refused. -/
theorem selfMetrics_wellFormed {labels : Labels} {desc : Desc}
    (h : desc ∈ SelfMetrics.descs labels) : desc.constLabels = labels ∧ desc.help ≠ "" ∧
      isValidPromName desc.name ∧ ∀ k ∈ desc.variableLabels, isValidLabelName k := by
  have hfixed : ∀ desc ∈ SelfMetrics.descs ∅, desc.help ≠ "" ∧ isValidPromName desc.name ∧
      ∀ k ∈ desc.variableLabels, isValidLabelName k := by
    decide
  have hmap : SelfMetrics.descs labels =
      (SelfMetrics.descs ∅).map fun desc => { desc with constLabels := labels } := rfl
  rw [hmap] at h
  obtain ⟨desc, hdesc, rfl⟩ := List.mem_map.mp h
  exact ⟨rfl, hfixed desc hdesc⟩

/-- All self-metrics have good labels exactly when the top-level ones are in the grammar and
clash with none of theirs. -/
theorem selfMetrics_goodLabels_iff {labels : Labels} (hfree : ReservedFree labels) :
    (∀ desc ∈ SelfMetrics.descs labels, desc.GoodLabels) ↔
      ∀ k ∈ labels.keys, isValidLabelName k ∧ k ∉ unreservedVariableLabels := by
  constructor
  · intro h k hk
    have hfirst := (h (SelfMetrics.scrapeDurationSeconds labels) (by simp [SelfMetrics.descs])).2
    have hnodup := (selfMetrics_nodup_iff hfree).mp fun desc hdesc => (h desc hdesc).1
    exact ⟨hfirst k (List.mem_append_left _ hk), hnodup k hk⟩
  · intro h desc hdesc
    obtain ⟨hconst, -, -, hvariable⟩ := selfMetrics_wellFormed hdesc
    refine ⟨(selfMetrics_nodup_iff hfree).mpr (fun k hk => (h k hk).2) desc hdesc, fun k hk => ?_⟩
    rcases List.mem_append.mp hk with hk | hk
    · exact (h k (hconst ▸ hk)).1
    · exact hvariable k hk

/-! ### Descriptors -/

theorem HandedToPrometheus.help_ne {desc : Desc} (h : HandedToPrometheus d cfg desc) :
    desc.help ≠ "" := by
  cases h with
  | gauge hacc h => exact helpText_ne _ _
  | selfMetric hplan h hpre => exact (selfMetrics_wellFormed (by rw [h]; simp)).2.1

/-- With good labels a descriptor can be refused for the name of its metric only. -/
theorem newDesc_error_of_goodLabels (hlib : d.toPrometheusLibrary.Lawful) {desc : Desc}
    (hhelp : desc.help ≠ "") (hgood : desc.GoodLabels) {cause : String}
    (h : d.newDesc desc = .error cause) : ¬ isValidPromName desc.name := by
  rcases hlib.newDesc_error desc cause h with hempty | hdup | hname | ⟨k, hk, hbad⟩
  · exact absurd hempty hhelp
  · exact absurd hgood.1 hdup
  · exact hname
  · exact absurd (hgood.2 k hk) hbad

/-- A library that finds good labels on every self-metric it is handed is handed all of them. -/
theorem selfMetrics_handed (hlib : d.toPrometheusLibrary.Lawful) {planned : Plan × Registry}
    (hplan : build d cfg [] = .ok planned)
    (hgood : ∀ desc, HandedToPrometheus d cfg desc → desc.GoodLabels) :
    ∀ desc ∈ SelfMetrics.descs cfg.labels, HandedToPrometheus d cfg desc := by
  have hcreate : (SelfMetrics.descs cfg.labels).forM (SelfMetrics.create d) = .ok () := by
    cases h : (SelfMetrics.descs cfg.labels).forM (SelfMetrics.create d) with
    | ok u => rfl
    | error e =>
      obtain ⟨pre, desc, post, hdescs, hpre, hdesc⟩ := forM_eq_error h
      have hhanded := HandedToPrometheus.selfMetric hplan hdescs (forM_eq_ok.mpr hpre)
      have hmem : desc ∈ SelfMetrics.descs cfg.labels := by rw [hdescs]; simp
      obtain ⟨-, hhelp, hname, -⟩ := selfMetrics_wellFormed hmem
      obtain ⟨cause, hcause, -⟩ := mapError_eq_error.mp hdesc
      exact absurd hname (newDesc_error_of_goodLabels hlib hhelp (hgood desc hhanded) hcause)
  intro desc hdesc
  obtain ⟨pre, post, hdescs⟩ := List.append_of_mem hdesc
  refine .selfMetric hplan hdescs (forM_eq_ok.mpr fun other hother => ?_)
  exact forM_eq_ok.mp hcreate other (by simp [hdescs, hother])

/-- A configuration that is planned is plannable, and the names it emits are in the grammar. -/
theorem build_eq_ok_names (hv : cfg.Valid d) (hrefuses : d.toPrometheusLibrary.RefusesNames)
    {order : List String → List String} {hperm : ∀ keys, (order keys).Perm keys}
    {planned : Plan × Registry}
    (h : build (d.withHashOrder order hperm) cfg [] = .ok planned) :
    cfg.Plannable d ∧ ∀ p ∈ places cfg, ∀ name, p.Emits d name → isValidPromName name := by
  simp only [build, bind_eq_ok] at h
  obtain ⟨acc, hacc, s, hreg, -⟩ := h
  rw [buildContract_withHashOrder] at hacc
  refine ⟨(contracts_succeed_iff hv).mp ⟨acc, hacc⟩, fun p hp name hname => ?_⟩
  have hmem := (mem_keysByMetric_iff hv hacc).mpr ⟨p, hp, hname⟩
  obtain ⟨pre, post, horder⟩ :=
    List.append_of_mem (mem_hashOrder (d := d.withHashOrder order hperm).mpr hmem)
  rw [horder, List.foldlM_append] at hreg
  obtain ⟨s', -, hreg⟩ := bind_eq_ok.mp hreg
  rw [List.foldlM_cons] at hreg
  obtain ⟨s'', hstep, -⟩ := bind_eq_ok.mp hreg
  simp only [registerGauge, check_bind_eq_ok, mapError_eq_ok] at hstep
  exact hrefuses _ hstep.1

/-- A plannable configuration is planned if its names and label keys are in their grammars. -/
theorem build_succeeds (hv : cfg.Valid d) (hlib : d.toPrometheusLibrary.Lawful)
    (hplan : cfg.Plannable d)
    (hnames : ∀ p ∈ places cfg, ∀ name, p.Emits d name → isValidPromName name)
    (hlabels : ∀ p ∈ places cfg, (∃ name, p.Emits d name) →
      ∀ k, p.SetsLabel cfg k → isValidLabelName k) :
    ∃ planned, build d cfg [] = .ok planned := by
  obtain ⟨acc, hacc⟩ := (contracts_succeed_iff hv).mpr hplan
  have hensures : Ensures (fun _ => True) (fun _ => False) (build d cfg []) := by
    refine build_of_contracts hlib hacc fun n hn cause hcause => ?_
    obtain ⟨p, hp, hname⟩ := (mem_keysByMetric_iff hv hacc).mp hn
    have hgood : (acc.family n).gauge.GoodLabels :=
      (gauge_goodLabels_iff hv hacc n).mpr fun p hp hname => hlabels p hp ⟨n, hname⟩
    exact newDesc_error_of_goodLabels hlib (helpText_ne _ _) hgood hcause (hnames p hp n hname)
  cases hbuild : build d cfg [] with
  | error e => exact absurd (hensures.error hbuild) id
  | ok planned => exact ⟨planned, rfl⟩

/-- Whatever the order of iteration, the descriptors handed to the library repeat no label name
and stay in the grammar exactly when, if the planner comes to make gauges, the labels of every
emitted output are in the grammar and, where all metric names are in theirs too, no top-level
label has the name of a variable label of a self-metric. Then the library refuses none but for
the name of a metric. -/
theorem label_names_distinct_iff {baseDir : String} {raw : Config}
    (hv : validate d baseDir raw = .ok cfg) (hlib : d.toPrometheusLibrary.Lawful)
    (hrefuses : d.toPrometheusLibrary.RefusesNames) :
    ((∀ order hperm desc, HandedToPrometheus (d.withHashOrder order hperm) cfg desc →
        desc.GoodLabels) ↔
      (cfg.Plannable d →
        (∀ p ∈ places cfg, (∃ name, p.Emits d name) →
          ∀ k, p.SetsLabel cfg k → isValidLabelName k) ∧
        ((∀ p ∈ places cfg, ∀ name, p.Emits d name → isValidPromName name) →
          ∀ k ∈ cfg.labels.keys, isValidLabelName k ∧ k ∉ unreservedVariableLabels))) ∧
    (∀ desc cause, HandedToPrometheus d cfg desc → desc.GoodLabels →
      d.newDesc desc = .error cause → ¬ isValidPromName desc.name) ∧
    ∀ chainId block x registry, newWithDeps d cfg chainId block = .ok (x, registry) →
      ∀ desc ∈ registry, HandedToPrometheus d cfg desc := by
  have hvalid := validate_valid hv
  have hself := selfMetrics_goodLabels_iff hvalid.labels_free
  refine ⟨⟨fun h hplan => ?_, ?_⟩, fun desc cause hhanded hgood =>
    newDesc_error_of_goodLabels hlib hhanded.help_ne hgood,
    fun chainId block x registry => newWithDeps_handed⟩
  · have hlabels : ∀ p ∈ places cfg, (∃ name, p.Emits d name) →
        ∀ k, p.SetsLabel cfg k → isValidLabelName k := by
      rintro p hp ⟨name, hname⟩
      -- the name is handed over in the order that starts with it
      obtain ⟨acc, pre, post, s, hacc, horder, hpre⟩ :=
        exists_order_handed hvalid hplan [] ⟨p, hp, hname⟩
      have hgood := h _ _ _ (.gauge hacc ⟨acc, pre, post, s, hacc, horder, hpre⟩)
      rw [buildContract_withHashOrder] at hacc
      exact (gauge_goodLabels_iff hvalid hacc name).mp hgood p hp hname
    refine ⟨hlabels, fun hnames => ?_⟩
    obtain ⟨planned, hbuild⟩ := build_succeeds hvalid hlib hplan hnames hlabels
    have hall := selfMetrics_handed hlib hbuild (h d.hashOrder d.hashOrder_perm)
    exact hself.mp fun desc hdesc => h d.hashOrder d.hashOrder_perm desc (hall desc hdesc)
  · intro hcond order hperm desc hhanded
    cases hhanded with
    | gauge hacc h =>
      obtain ⟨hplan, -⟩ := h.emitted hvalid
      rw [buildContract_withHashOrder] at hacc
      exact (gauge_goodLabels_iff hvalid hacc _).mpr fun p hp hname =>
        (hcond hplan).1 p hp ⟨_, hname⟩
    | selfMetric hbuild h hpre =>
      obtain ⟨hplan, hnames⟩ := build_eq_ok_names hvalid hrefuses hbuild
      exact hself.mpr ((hcond hplan).2 hnames) desc (by rw [h]; simp)

/-- The token under one top-level label. -/
def topLabelConfig (key : String) : Config :=
  { Reference.supplyConfig with labels := .single key "all" }

/-- The collectors of an exporter that starts on the configuration. -/
def Reference.started (raw : Config) : Except Error (Config × Exporter × Registry) := do
  let cfg ← validate reference "." raw
  let started ← newWithDeps reference cfg (.ok 1) (.ok 100)
  return (cfg, started)

theorem Reference.of_started (raw : Config) (test : Config → Registry → Bool)
    (h : ((started raw).toOption.map fun s => test s.1 s.2.2) = some true) :
    ∃ cfg x registry, validate reference "." raw = .ok cfg ∧
      newWithDeps reference cfg (.ok 1) (.ok 100) = .ok (x, registry) ∧ test cfg registry = true := by
  obtain ⟨⟨cfg, x, registry⟩, hstarted, htest⟩ := Option.map_eq_some_iff.mp h
  obtain ⟨cfg', hv, hnew⟩ := bind_eq_ok.mp (toOption_eq_some.mp hstarted)
  obtain ⟨started, hnew, hpair⟩ := bind_eq_ok.mp hnew
  obtain ⟨rfl, rfl⟩ := Prod.mk.inj (pure_eq_ok.mp hpair)
  exact ⟨_, x, registry, hv, hnew, htest⟩

/-- The key of a variable label of `evm_exporter_call_errors_total`. -/
theorem contract_label_repeated :
    ∃ cfg x registry, validate reference "." (topLabelConfig "contract") = .ok cfg ∧
      newWithDeps reference cfg (.ok 1) (.ok 100) = .ok (x, registry) ∧
      ∃ desc ∈ registry, ¬ desc.labelNames.Nodup := by
  obtain ⟨cfg, x, registry, hv, hnew, h⟩ := Reference.of_started (topLabelConfig "contract")
    (fun _ registry => registry.any fun desc => ¬ desc.labelNames.Nodup) (by decide +kernel)
  exact ⟨cfg, x, registry, hv, hnew, by simpa using h⟩

/-- A key that clashes with none, and one outside the grammar. -/
theorem env_label_good :
    (∃ cfg x registry, validate reference "." (topLabelConfig "env") = .ok cfg ∧
      newWithDeps reference cfg (.ok 1) (.ok 100) = .ok (x, registry) ∧ registry.length = 9 ∧
      ∀ desc ∈ registry, desc.GoodLabels) ∧
    ∃ cfg, validate reference "." (topLabelConfig "my-label") = .ok cfg ∧
      ∃ order hperm desc, HandedToPrometheus (reference.withHashOrder order hperm) cfg desc ∧
        ¬ desc.GoodLabels := by
  constructor
  · obtain ⟨cfg, x, registry, hv, hnew, h⟩ := Reference.of_started (topLabelConfig "env")
      (fun cfg registry => registry.length = 9 ∧ cfg.labels.keys = ["env"] ∧
        ∀ p ∈ places cfg, ∀ k ∈ (mergeLabels cfg p).keys, isValidLabelName k) (by decide +kernel)
    obtain ⟨hlength, hkeys, hlabels⟩ := of_decide_eq_true h
    obtain ⟨hiff, -, hhanded⟩ :=
      label_names_distinct_iff hv Reference.prometheus_lawful Reference.refusesNames
    have hgood := hiff.mpr fun _ => ⟨fun p hp _ k hk => hlabels p hp k (mem_keys_mergeLabels.mpr hk),
      fun _ => by rw [hkeys]; decide⟩
    exact ⟨cfg, x, registry, hv, hnew, hlength, fun desc hdesc =>
      hgood reference.hashOrder reference.hashOrder_perm desc
        (hhanded _ _ x registry hnew desc hdesc)⟩
  · obtain ⟨cfg, acc, hv, hacc, h⟩ := Reference.of_gaugeNames (topLabelConfig "my-label")
      (fun cfg names => names = ["token_total_supply"] ∧ cfg.labels.keys = ["my-label"])
      (by decide +kernel)
    obtain ⟨hnames, hkeys⟩ := of_decide_eq_true h
    have hvalid := validate_valid hv
    have hplan : cfg.Plannable reference := (contracts_succeed_iff hvalid).mp ⟨acc, hacc⟩
    obtain ⟨p, hp, hname⟩ := (mem_keysByMetric_iff hvalid hacc).mp
      (AList.mem_keys.mpr (by rw [hnames]; exact List.mem_singleton_self _))
    obtain ⟨hiff, -, -⟩ :=
      label_names_distinct_iff hv Reference.prometheus_lawful Reference.refusesNames
    refine ⟨cfg, hv, ?_⟩
    by_contra hno
    push Not at hno
    have hbad := (hiff.mp hno hplan).1 p hp ⟨_, hname⟩ "my-label" (.inl (by simp [hkeys]))
    exact absurd hbad (by decide)

end EvmExporter
