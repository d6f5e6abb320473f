import EvmExporter.Exporter.Events

/-! Sharing calls preserves meaning. The planner issues one call for all places with the
same target and calldata; the plan that issues one call for each place performs the same
gauge writes and error increments, whatever the contracts answer. -/

namespace EvmExporter

open Lib

variable {d : Deps} {cfg raw : Config} {baseDir : String} {plan : Plan}
  {registry registry' : Registry}

/-- The rows of the sites, each with the position of its site. -/
def indexedRows (sites : List Site) : List (Row × ℕ) :=
  sites.zipIdx.flatMap fun a => a.1.emits.map fun e => (⟨a.1, e⟩, a.2)

/-- The plan that issues one call for each contract, instance, metric and call set. -/
def naivePlan (cfg : Config) (sites : List Site) : Plan where
  calls := sites.map Site.request
  entries := (indexedRows sites).map fun a =>
    a.1.entry cfg (familyOf cfg (rows sites) a.1.name) a.2
  chunkCount := chunkCount sites.length cfg.scrape.maxCallsPerBatch

theorem indexedRows_map_fst (sites : List Site) :
    (indexedRows sites).map Prod.fst = rows sites := by
  rw [indexedRows, rows, List.map_flatMap]
  conv_rhs => rw [← List.zipIdx_map_fst 0 sites, List.flatMap_map]
  simp only [List.map_map]
  rfl

theorem mem_indexedRows {sites : List Site} {r : Row} {i : ℕ} (h : (r, i) ∈ indexedRows sites) :
    r ∈ rows sites ∧ sites[i]? = some r.site := by
  constructor
  · rw [← indexedRows_map_fst]
    exact List.mem_map_of_mem h
  · obtain ⟨⟨s, j⟩, hs, he⟩ := List.mem_flatMap.mp h
    obtain ⟨e, -, heq⟩ := List.mem_map.mp he
    obtain ⟨rfl, rfl⟩ := Prod.mk.inj heq
    exact List.mem_zipIdx_iff_getElem?.mp hs

theorem naivePlan_wellFormed (cfg : Config) (sites : List Site) :
    (naivePlan cfg sites).WellFormed := by
  constructor
  · intro e he
    obtain ⟨⟨r, i⟩, hr, rfl⟩ := List.mem_map.mp he
    have hi := (List.getElem?_eq_some_iff.mp (mem_indexedRows hr).2).1
    simpa [Row.entry, naivePlan] using hi
  · intro e he
    obtain ⟨a, -, rfl⟩ := List.mem_map.mp he
    simp [Row.entry]

/-- An entry reads nothing but the result its index points to. -/
theorem entry_events_congr {results results' : List CallResult} {i i' : ℕ}
    (h : results[i]? = results'[i']?) (r : Row) (fam : Family) :
    (r.entry cfg fam i).events d results = (r.entry cfg fam i').events d results' := by
  have hs : (r.entry cfg fam i).sample d results = (r.entry cfg fam i').sample d results' := by
    simp only [Entry.sample, Row.entry, h]
  simp only [Entry.events, hs]
  rfl

theorem distinctCalls_getElem? {sites : List Site} {r : Row} (hr : r ∈ rows sites) :
    (distinctCalls sites)[(distinctCalls sites).idxOf r.site.request]? = some r.site.request :=
  getElem?_idxOf_eraseDups (request_mem hr)

/-- Both plans perform the same events on the answers of the same contracts. -/
theorem planEvents_shared (sites : List Site) (R : CallRequest → CallResult) :
    planEvents d ((planOf cfg sites).calls.map R) (planOf cfg sites).entries =
      planEvents d ((naivePlan cfg sites).calls.map R) (naivePlan cfg sites).entries := by
  have hindexed (f : Row → List Event) :
      (rows sites).flatMap f = (indexedRows sites).flatMap fun a => f a.1 := by
    rw [← indexedRows_map_fst sites, List.flatMap_map]
  rw [planEvents_eq (planOf_wellFormed cfg sites) (by simp),
    planEvents_eq (naivePlan_wellFormed cfg sites) (by simp)]
  congr 1
  rw [planOf, naivePlan, List.flatMap_map, List.flatMap_map, hindexed]
  apply List.flatMap_congr
  rintro ⟨r, i⟩ ha
  obtain ⟨hr, hi⟩ := mem_indexedRows ha
  -- both positions hold the request of the row's site
  have hanswer : ((distinctCalls sites).map R)[(distinctCalls sites).idxOf r.site.request]? =
      ((sites.map Site.request).map R)[i]? := by
    rw [List.getElem?_map, distinctCalls_getElem? hr, List.getElem?_map, List.getElem?_map, hi]
    rfl
  exact entry_events_congr hanswer r _

/-- The loops over the entries of both plans run through, with the same events. -/
theorem scrapes_shared (sites : List Site) (R : CallRequest → CallResult) : ∃ events,
    planEvents d ((planOf cfg sites).calls.map R) (planOf cfg sites).entries = .ok events ∧
      planEvents d ((naivePlan cfg sites).calls.map R) (naivePlan cfg sites).entries = .ok events ∧
      ∀ answer n w,
        (scrapeEntries d ((planOf cfg sites).calls.map R) (planOf cfg sites).entries).run answer n w =
          ⟨events.foldl Metrics.apply w, some (.ok ()), []⟩ ∧
        (scrapeEntries d ((naivePlan cfg sites).calls.map R) (naivePlan cfg sites).entries).run
          answer n w = ⟨events.foldl Metrics.apply w, some (.ok ()), []⟩ := by
  have hlength : ((planOf cfg sites).calls.map R).length = (planOf cfg sites).calls.length := by simp
  have hev := planEvents_eq (d := d) (planOf_wellFormed cfg sites) hlength
  have hev' := (planEvents_shared sites R).symm.trans hev
  exact ⟨_, hev, hev', fun _ _ _ => ⟨scrapeEntries_run hev, scrapeEntries_run hev'⟩⟩

/-! ### Entries and their calls -/

/-- The entry of a row: it reads the call that encodes the row's own function and arguments
at the row's own address, and decodes the row's own output. -/
structure ReadsOwnCall (d : Deps) (calls : List CallRequest) (r : Row) (e : Entry) : Prop where
  index_lt : e.callIndex < calls.length
  address_eq : instanceAddress d r.site.contract r.site.inst = .ok e.address
  function_eq : ∃ abi, contractAbi r.site.contract = .ok abi ∧
    lookupFunction abi r.site.toPlace = .ok e.decode.function
  request_eq : ∃ vals data, convertArgs d e.decode.function r.site.subcall.args = .ok vals ∧
    d.abiEncodeInput e.decode.function vals = .ok data ∧
    calls[e.callIndex]? = some ⟨e.address, data⟩
  output_eq : e.decode.outputIndex = r.emit.output.index
  contract_eq : e.contractName = r.site.contract.name
  functionName_eq : e.functionName = r.site.subcall.function

theorem encodeCall_eq_ok {func : AbiFunction} {p : Place} {data : Bytes}
    (h : encodeCall d func p = .ok data) : ∃ vals, convertArgs d func p.subcall.args = .ok vals ∧
      d.abiEncodeInput func vals = .ok data := by
  simpa [encodeCall, bind_eq_ok] using h

theorem readsOwnCall {sites : List Site} (hsites : sitesOf d cfg = .ok sites) {r : Row} {e : Entry}
    (he : (r, e) ∈ (planOf cfg sites).produced sites) :
    ReadsOwnCall d (planOf cfg sites).calls r e := by
  obtain ⟨hr, rfl⟩ := mem_produced.mp he
  have hres := (mem_sites hsites (mem_rows.mp hr).1).2
  obtain ⟨vals, hvals, hdata⟩ := encodeCall_eq_ok hres.callData_eq
  have hcall := distinctCalls_getElem? hr
  exact ⟨(List.getElem?_eq_some_iff.mp hcall).1, hres.address_eq, hres.function_eq,
    ⟨vals, _, hvals, hdata, hcall⟩, rfl, rfl, rfl⟩

/-- Deduplicating calls preserves the meaning of a plan: whatever the contracts answer, its loop
performs the events of the plan that issues one call for each place. -/
theorem shared_calls (hv : validate d baseDir raw = .ok cfg)
    (hb : build d cfg registry = .ok (plan, registry')) :
    ∃ sites, sitesOf d cfg = .ok sites ∧ sites.map Site.toPlace = places cfg ∧
      (∀ s ∈ sites, s.emits.map Emit.output = selectedOutputs s.metric.outputs s.func) ∧
      (plan.calls.Nodup ∧ plan.calls = (sites.map Site.request).eraseDups) ∧
      ((plan.produced sites).map Prod.fst = rows sites ∧
        (plan.produced sites).map Prod.snd = plan.entries ∧
        ∀ r e, (r, e) ∈ plan.produced sites → ReadsOwnCall d plan.calls r e) ∧
      ∀ R : CallRequest → CallResult, ∃ events,
        planEvents d (plan.calls.map R) plan.entries = .ok events ∧
        planEvents d ((naivePlan cfg sites).calls.map R) (naivePlan cfg sites).entries =
          .ok events ∧
        ∀ answer n w,
          (scrapeEntries d (plan.calls.map R) plan.entries).run answer n w =
            ⟨events.foldl Metrics.apply w, some (.ok ()), []⟩ ∧
          (scrapeEntries d ((naivePlan cfg sites).calls.map R) (naivePlan cfg sites).entries).run
            answer n w = ⟨events.foldl Metrics.apply w, some (.ok ()), []⟩ := by
  obtain ⟨sites, hsites, rfl⟩ := build_eq_planOf hb
  have houtputs : ∀ s ∈ sites,
      s.emits.map Emit.output = selectedOutputs s.metric.outputs s.func := by
    intro s hs
    obtain ⟨-, -, -, -, houtputs, -⟩ := site_emits (validate_valid hv) hsites hs
    exact houtputs
  have hrows : ((planOf cfg sites).produced sites).map Prod.fst = rows sites :=
    List.map_fst_zip (by simp [planOf])
  exact ⟨sites, hsites, sitesOf_places hsites, houtputs, ⟨nodup_eraseDups _, rfl⟩,
    ⟨hrows, produced_entries sites, fun r e he => readsOwnCall hsites he⟩,
    scrapes_shared sites⟩

/-- Two metrics that read the same value, hence one call. -/
def supplyTwice : Config := Reference.tokenConfig
  [{ function := "totalSupply" }, { name := "supply_again", function := "totalSupply" }]

theorem supply_twice_shared :
    ∃ cfg plan registry sites, validate reference "." supplyTwice = .ok cfg ∧
      build reference cfg [] = .ok (plan, registry) ∧ sitesOf reference cfg = .ok sites ∧
      plan.calls.length = 1 ∧ (naivePlan cfg sites).calls.length = 2 ∧ plan.entries.length = 2 ∧
      ∀ (R : CallRequest → CallResult) answer n w,
        (scrapeEntries reference (plan.calls.map R) plan.entries).run answer n w =
          (scrapeEntries reference ((naivePlan cfg sites).calls.map R)
            (naivePlan cfg sites).entries).run answer n w := by
  obtain ⟨cfg, plan, registry, hv, hb, h⟩ := Reference.of_check supplyTwice
    (fun cfg plan => plan.calls.length = 1 ∧ plan.entries.length = 2 ∧ (places cfg).length = 2)
    (by decide +kernel)
  obtain ⟨hcalls, hentries, hplaces⟩ := of_decide_eq_true h
  obtain ⟨sites, hsites, hsame, -, -, -, hshared⟩ := shared_calls hv hb
  have hnaive : (naivePlan cfg sites).calls.length = 2 := by
    rw [naivePlan, List.length_map, ← List.length_map (f := Site.toPlace), hsame, hplaces]
  refine ⟨cfg, plan, registry, sites, hv, hb, hsites, hcalls, hnaive, hentries, ?_⟩
  intro R answer n w
  obtain ⟨events, -, -, hruns⟩ := hshared R
  exact (hruns answer n w).1.trans (hruns answer n w).2.symm

end EvmExporter
