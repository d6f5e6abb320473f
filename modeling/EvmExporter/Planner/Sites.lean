import EvmExporter.Planner

/-! What a plan is, without the loops. A configuration is a list of places in nested
order; a resolved place is a site, with its call and the outputs it emits; the plan
is a function of the list of sites. `build_eq_planOf` says that the planner computes
it: the table of calls holds the distinct requests in order of first occurrence, the
entries are the rows of the sites in order, and each metric name has one schema. -/

namespace EvmExporter

open Lib

variable (d : Deps)

/-- The places of a configuration in nested order. -/
def places (cfg : Config) : List Place :=
  cfg.contracts.flatMap fun ct => ct.instances.flatMap fun inst => ct.metrics.flatMap fun m =>
    (expandMetricCalls m).map fun sc => ⟨ct, inst, m, sc⟩

/-- An emitted output: its full metric name, its selector and the position of the
selected tuple component. -/
structure Emit where
  name : String
  output : Output
  fieldIndex : Option ℕ

/-- A place with its call and the outputs read from it. -/
structure Site extends Place where
  address : Address
  func : AbiFunction
  callData : Bytes
  emits : List Emit

def resolveEmit (p : Place) (func : AbiFunction) (a : String × Output) : Except Error Emit := do
  let fi ← (fieldIndex func a.2).mapError p.context
  return ⟨a.1, a.2, fi⟩

/-- Everything the planner computes about a place before it touches its state. -/
def resolveSite (p : Place) : Except Error Site := do
  let abi ← contractAbi p.contract
  let address ← instanceAddress d p.contract p.inst
  let func ← lookupFunction abi p
  let callData ← encodeCall d func p
  let (names, outputs) ← (resolveOutputs d p.metric p.subcall func).mapError p.context
  let emits ← ((names.map (qualify p.contract)).zip outputs).mapM (resolveEmit p func)
  return { p with address, func, callData, emits }

/-- The sites of a configuration. -/
def sitesOf (cfg : Config) : Except Error (List Site) := (places cfg).mapM (resolveSite d)

/-! ### The plan of a list of sites -/

def Site.request (s : Site) : CallRequest := ⟨s.address, s.callData⟩

def Site.labels (cfg : Config) (s : Site) : Labels := mergeLabels cfg s.toPlace

/-- One emitted output of one site. -/
structure Row where
  site : Site
  emit : Emit

def rows (sites : List Site) : List Row := sites.flatMap fun s => s.emits.map (Row.mk s)

def Row.name (r : Row) : String := r.emit.name

def Row.labels (cfg : Config) (r : Row) : Labels := r.site.labels cfg

def Row.decode (r : Row) : DecodeTarget :=
  ⟨r.site.func, r.emit.output.index, r.emit.fieldIndex, r.emit.output.effectiveScale⟩

/-- The label keys of all rows of a name. -/
def labelUnion (cfg : Config) (rs : List Row) (name : String) : SortedSet String :=
  SortedSet.insertMany ∅ ((rs.filter fun r => r.name = name).flatMap fun r => (r.labels cfg).keys)

/-- The first non-empty help text among the rows of a name. -/
def helpOf (rs : List Row) (name : String) : Option String :=
  ((rs.filter fun r => r.name = name).map fun r => r.site.metric.help).find? fun h => ¬ h.isEmpty

def familyOf (cfg : Config) (rs : List Row) (name : String) : Family :=
  family name (helpOf rs name) (labelUnion cfg rs name)

/-- The entry of a row, reading the call at the given position. -/
def Row.entry (cfg : Config) (fam : Family) (callIndex : ℕ) (r : Row) : Entry where
  callIndex
  decode := r.decode
  metricName := r.name
  gauge := fam.gauge
  labelKeys := fam.keys
  labelValues := fam.keys.map (labelValue cfg.chain.chainId r.site.address (r.labels cfg))
  contractName := r.site.contract.name
  functionName := r.site.subcall.function
  address := r.site.address

def distinctCalls (sites : List Site) : List CallRequest := (sites.map Site.request).eraseDups

def planOf (cfg : Config) (sites : List Site) : Plan where
  calls := distinctCalls sites
  entries := (rows sites).map fun r =>
    r.entry cfg (familyOf cfg (rows sites) r.name) ((distinctCalls sites).idxOf r.site.request)
  chunkCount := chunkCount (distinctCalls sites).length cfg.scrape.maxCallsPerBatch

/-! ### One loop over the places -/

/-- Fold an emitted output into the state. -/
def addEmit (p : Place) (addr : Address) (func : AbiFunction) (merged : Labels) (callIndex : ℕ)
    (acc : Acc) (e : Emit) : Except Error Acc := do
  let helps ← noteHelp e.name p.metric.help acc.helpByMetric
  return { acc with
    helpByMetric := helps
    keysByMetric := noteKeys e.name merged acc.keysByMetric
    drafts := acc.drafts ++ [⟨callIndex, ⟨func, e.output.index, e.fieldIndex,
      e.output.effectiveScale⟩, e.name, merged, addr, p.contract.name, p.subcall.function⟩] }

/-- Fold a site into the state. -/
def addSite (cfg : Config) (acc : Acc) (s : Site) : Except Error Acc :=
  s.emits.foldlM
    (addEmit s.toPlace s.address s.func (s.labels cfg) (acc.calls.intern requestKey s.request).2)
    { acc with calls := (acc.calls.intern requestKey s.request).1 }

variable {d} {cfg : Config}

theorem buildOutput_eq (p : Place) (addr : Address) (func : AbiFunction) (merged : Labels)
    (callIndex : ℕ) :
    buildOutput p addr func merged callIndex = fun acc a =>
      resolveEmit p func a >>= addEmit p addr func merged callIndex acc := by
  funext acc ⟨name, out⟩
  simp only [buildOutput, resolveEmit]
  cases (fieldIndex func out).mapError p.context <;> rfl

theorem buildCall_eq_ok {abi : JsonAbi} {addr : Address} {p : Place} {acc acc' : Acc}
    (habi : contractAbi p.contract = .ok abi)
    (haddr : instanceAddress d p.contract p.inst = .ok addr) :
    buildCall d cfg abi addr p acc = .ok acc' ↔ resolveSite d p >>= addSite cfg acc = .ok acc' := by
  unfold buildCall resolveSite
  simp only [bind_eq_ok, buildOutput_eq, foldlM_bind_eq_ok, pure_eq_ok]
  constructor
  · rintro ⟨func, hfunc, callData, hdata, ⟨names, outputs⟩, hout, emits, hemits, hfold⟩
    exact ⟨_, ⟨abi, habi, addr, haddr, func, hfunc, callData, hdata, (names, outputs), hout, emits,
      hemits, rfl⟩, hfold⟩
  · rintro ⟨_, ⟨abi', habi', addr', haddr', func, hfunc, callData, hdata, ⟨names, outputs⟩, hout,
      emits, hemits, rfl⟩, hfold⟩
    obtain rfl := Except.ok.inj (habi.symm.trans habi')
    obtain rfl := Except.ok.inj (haddr.symm.trans haddr')
    exact ⟨func, hfunc, callData, hdata, (names, outputs), hout, emits, hemits, hfold⟩

/-- The nested loops are one loop over the places, which resolves each place and folds
its site into the state. -/
theorem buildContracts_eq_ok {acc acc' : Acc}
    (h : cfg.contracts.foldlM (buildContract d cfg) acc = .ok acc') :
    (places cfg).foldlM (fun acc p => resolveSite d p >>= addSite cfg acc) acc = .ok acc' := by
  refine foldlM_flatMap (fun ct acc acc' hct => ?_) h
  obtain ⟨abi, habi, hct⟩ := bind_eq_ok.mp hct
  refine foldlM_flatMap (fun inst acc acc' hinst => ?_) hct
  obtain ⟨addr, haddr, hinst⟩ := bind_eq_ok.mp hinst
  refine foldlM_flatMap (fun m acc acc' hm => ?_) hinst
  rw [← List.flatMap_pure_eq_map]
  refine foldlM_flatMap (fun sc acc acc' hsc => ?_) hm
  exact bind_eq_ok.mpr ⟨acc', (buildCall_eq_ok (p := ⟨ct, inst, m, sc⟩) habi haddr).mp hsc, rfl⟩

/-! ### The state of the loop -/

def Row.draft (cfg : Config) (callIndex : ℕ) (r : Row) : Draft :=
  ⟨callIndex, r.decode, r.name, r.labels cfg, r.site.address, r.site.contract.name,
    r.site.subcall.function⟩

/-- The state after the requests have been interned and the rows folded in. -/
structure Acc.Reflects (cfg : Config) (reqs : List CallRequest) (rs : List Row) (acc : Acc) :
    Prop where
  calls : acc.calls = Interner.empty.internAll requestKey reqs
  requests : ∀ r ∈ rs, r.site.request ∈ reqs
  drafts : acc.drafts = rs.map fun r => r.draft cfg (reqs.eraseDups.idxOf r.site.request)
  names : ∀ n, n ∈ acc.keysByMetric ↔ n ∈ rs.map Row.name
  keys : ∀ n, (acc.keysByMetric.lookup n).getD ∅ = labelUnion cfg rs n
  help : ∀ n, nonEmpty (acc.helpByMetric.lookup n) = helpOf rs n

theorem labelUnion_append_singleton (rs : List Row) (r : Row) (n : String) :
    labelUnion cfg (rs ++ [r]) n =
      if r.name = n then SortedSet.insertMany (labelUnion cfg rs n) (r.labels cfg).keys
      else labelUnion cfg rs n := by
  simp only [labelUnion, List.filter_append, List.flatMap_append]
  split_ifs with h <;> simp [SortedSet.insertMany, h]

theorem helpOf_append_singleton (rs : List Row) (r : Row) (n : String) :
    helpOf (rs ++ [r]) n =
      if r.name = n then (helpOf rs n).or (nonEmpty (some r.site.metric.help))
      else helpOf rs n := by
  simp only [helpOf, List.filter_append, List.map_append, List.find?_append]
  split_ifs with h
  · by_cases hh : r.site.metric.help = "" <;> simp [h, hh, -List.find?_map]
  · simp [h]

/-- A name keeps its first non-empty help text. -/
theorem noteHelp_eq_ok {name help : String} {helps helps' : AList fun _ : String => String}
    (h : noteHelp name help helps = .ok helps') (n : String) :
    nonEmpty (helps'.lookup n) =
      if name = n then (nonEmpty (helps.lookup n)).or (nonEmpty (some help))
      else nonEmpty (helps.lookup n) := by
  have hcases : (helps' = helps.insert name help ∧ nonEmpty (helps.lookup name) = none) ∨
      (helps' = helps ∧ ∃ existing, helps.lookup name = some existing ∧
        (help = "" ∨ existing ≠ "")) := by
    unfold noteHelp at h
    split at h
    next hl => exact .inl ⟨(Except.ok.inj h).symm, by rw [hl]; rfl⟩
    next existing hl =>
      split_ifs at h with h₁ h₂ <;> obtain rfl := Except.ok.inj h
      · exact .inl ⟨rfl, by simpa [hl] using h₂.1⟩
      · have hkeep : help = "" ∨ existing ≠ "" := by
          simpa [or_iff_not_imp_left, imp_not_comm] using h₂
        exact .inr ⟨rfl, existing, hl, hkeep⟩
  by_cases hn : name = n
  · subst hn
    rw [if_pos rfl]
    rcases hcases with ⟨rfl, hnone⟩ | ⟨rfl, existing, hl, he⟩
    · rw [AList.lookup_insert, hnone, Option.none_or]
    · rcases he with he | he <;> simp [hl, he]
  · rw [if_neg hn]
    rcases hcases with ⟨rfl, -⟩ | ⟨rfl, -⟩
    · rw [AList.lookup_insert_ne (Ne.symm hn)]
    · rfl

theorem reflects_empty : Acc.empty.Reflects cfg [] [] :=
  ⟨rfl, by simp, rfl, by simp [Acc.empty], fun n => rfl, fun n => rfl⟩

/-- Interning a request moves no position handed out before. -/
theorem Acc.Reflects.intern {reqs : List CallRequest} {rs : List Row} {acc : Acc}
    (h : acc.Reflects cfg reqs rs) (req : CallRequest) :
    { acc with calls := (acc.calls.intern requestKey req).1 }.Reflects cfg (reqs ++ [req]) rs ∧
      (acc.calls.intern requestKey req).2 = (reqs ++ [req]).eraseDups.idxOf req := by
  have hstep : (acc.calls.intern requestKey req).1 =
      Interner.empty.internAll requestKey (reqs ++ [req]) := by
    rw [Interner.internAll_append, h.calls]
    rfl
  constructor
  · have hrequests : ∀ r ∈ rs, r.site.request ∈ reqs ++ [req] := by
      intro r hr
      exact List.mem_append_left _ (h.requests r hr)
    have hdrafts : acc.drafts =
        rs.map fun r => r.draft cfg ((reqs ++ [req]).eraseDups.idxOf r.site.request) := by
      rw [h.drafts]
      exact List.map_congr_left fun r hr => by rw [idxOf_eraseDups_append (h.requests r hr)]
    exact ⟨hstep, hrequests, hdrafts, h.names, h.keys, h.help⟩
  · have hcoh : acc.calls.Coherent requestKey := by
      rw [h.calls]
      exact Interner.internAll_coherent requestKey_injective (Interner.coherent_empty _) reqs
    rw [Interner.intern_position hcoh, hstep, Interner.internAll_items requestKey_injective]

theorem Acc.Reflects.addEmit {reqs : List CallRequest} {rs : List Row} {acc acc' : Acc}
    {s : Site} {e : Emit} (h : acc.Reflects cfg reqs rs) (hreq : s.request ∈ reqs)
    (hadd : addEmit s.toPlace s.address s.func (s.labels cfg) (reqs.eraseDups.idxOf s.request)
      acc e = .ok acc') : acc'.Reflects cfg reqs (rs ++ [⟨s, e⟩]) := by
  simp only [EvmExporter.addEmit, bind_eq_ok, pure_eq_ok] at hadd
  obtain ⟨helps, hhelps, rfl⟩ := hadd
  constructor
  case calls => exact h.calls
  case requests => simpa [or_imp, forall_and] using ⟨h.requests, hreq⟩
  case drafts => simp [h.drafts, Row.draft, Row.decode, Row.name, Row.labels]
  case names =>
    intro n
    simp [noteKeys, AList.mem_insert, h.names, Row.name, or_comm, eq_comm]
  case keys =>
    intro n
    rw [labelUnion_append_singleton, ← h.keys]
    by_cases hn : e.name = n
    · subst hn; simp [noteKeys, Row.name, Row.labels, AList.lookup_insert]
    · simp [noteKeys, hn, Row.name, AList.lookup_insert_ne (Ne.symm hn)]
  case help =>
    intro n
    rw [noteHelp_eq_ok hhelps, h.help, helpOf_append_singleton]
    rfl

theorem Acc.Reflects.addSite {reqs : List CallRequest} {rs : List Row} {acc acc' : Acc}
    {s : Site} (h : acc.Reflects cfg reqs rs) (hadd : addSite cfg acc s = .ok acc') :
    acc'.Reflects cfg (reqs ++ [s.request]) (rs ++ s.emits.map (Row.mk s)) := by
  obtain ⟨hint, hpos⟩ := h.intern s.request
  rw [EvmExporter.addSite, hpos] at hadd
  refine foldlM_invariant
    (fun es acc => acc.Reflects cfg (reqs ++ [s.request]) (rs ++ es.map (Row.mk s)))
    (by simpa using hint) (fun es e acc acc' hacc hstep => ?_) hadd
  have hnext := hacc.addEmit (by simp) hstep
  simpa using hnext

/-- The loop of the planner has folded in every row of every site. -/
theorem reflects_of_sites {sites : List Site} {acc : Acc}
    (h : sites.foldlM (addSite cfg) .empty = .ok acc) :
    acc.Reflects cfg (sites.map Site.request) (rows sites) := by
  refine foldlM_invariant (fun ss acc => acc.Reflects cfg (ss.map Site.request) (rows ss))
    reflects_empty (fun ss s acc acc' hacc hstep => ?_) h
  have hnext := hacc.addSite hstep
  simpa [rows] using hnext

/-- A completed loop over the contracts has resolved every place and folded in its site. -/
theorem reflects_of_contracts {acc : Acc}
    (h : cfg.contracts.foldlM (buildContract d cfg) .empty = .ok acc) :
    ∃ sites, sitesOf d cfg = .ok sites ∧
      acc.Reflects cfg (sites.map Site.request) (rows sites) := by
  obtain ⟨sites, hsites, hfold⟩ := foldlM_bind_eq_ok.mp (buildContracts_eq_ok h)
  exact ⟨sites, hsites, reflects_of_sites hfold⟩

/-! ### Gauges and entries -/

theorem mem_hashOrder {keys : AList fun _ : String => SortedSet String} {n : String} :
    n ∈ d.hashOrder keys.keys ↔ n ∈ keys := by
  rw [(d.hashOrder_perm _).mem_iff, AList.mem_keys]

/-- The schema a completed loop assigns to a name. -/
def Acc.family (acc : Acc) (name : String) : Family :=
  EvmExporter.family name (acc.helpByMetric.lookup name) ((acc.keysByMetric.lookup name).getD ∅)

theorem family_nonEmpty (name : String) (help : Option String) (keys : SortedSet String) :
    family name (nonEmpty help) keys = family name help keys := by
  simp [family, helpText, nonEmpty, Option.filter_filter]

theorem Acc.Reflects.family_eq {reqs : List CallRequest} {rs : List Row} {acc : Acc}
    (h : acc.Reflects cfg reqs rs) (name : String) : acc.family name = familyOf cfg rs name := by
  rw [Acc.family, familyOf, ← h.keys, ← h.help, family_nonEmpty]

/-- Registration gives every name its own family and adds their gauges to the registry. -/
theorem registerGauges_eq_ok {acc : Acc} {names : List String} {registry : Registry}
    {s : Registry × AList fun _ : String => Family}
    (h : names.foldlM (registerGauge d acc) (registry, ∅) = .ok s) :
    s.1 = (names.map fun n => (acc.family n).gauge).reverse ++ registry ∧
      ∀ n ∈ names, s.2.lookup n = some (acc.family n) := by
  let I (pre : List String) (s : Registry × AList fun _ : String => Family) : Prop :=
    s.1 = (pre.map fun n => (acc.family n).gauge).reverse ++ registry ∧
      ∀ n ∈ pre, s.2.lookup n = some (acc.family n)
  refine foldlM_invariant I ⟨rfl, by simp⟩ ?_ h
  rintro pre name ⟨reg, fams⟩ s' ⟨hreg, hfams⟩ hstep
  simp only [registerGauge, ↓check_bind_eq_ok, pure_eq_ok] at hstep
  obtain ⟨-, -, rfl⟩ := hstep
  constructor
  · rw [List.map_append, List.reverse_append, show reg = _ from hreg]
    rfl
  · intro n hn
    by_cases hname : n = name
    · subst hname; simp [Acc.family, AList.lookup_insert]
    · rw [AList.lookup_insert_ne hname]
      exact hfams n (by simpa [hname] using hn)

/-- With a family for every name noted, each draft becomes the entry of its row. -/
theorem Acc.Reflects.entries_eq {sites : List Site} {acc : Acc}
    {families : AList fun _ : String => Family}
    (h : acc.Reflects cfg (sites.map Site.request) (rows sites))
    (hfam : ∀ n ∈ acc.keysByMetric, families.lookup n = some (acc.family n)) :
    acc.drafts.mapM (buildEntry cfg.chain.chainId families) = .ok (planOf cfg sites).entries := by
  rw [h.drafts, List.mapM_map]
  apply mapM_eq_ok_map
  intro r hr
  have hlookup := hfam r.name ((h.names r.name).mpr (List.mem_map_of_mem hr))
  simp only [Function.comp_apply, buildEntry, Row.draft, hlookup, h.family_eq]
  rfl

/-- The planner computes the plan of the sites. -/
theorem build_eq_planOf {registry registry' : Registry} {plan : Plan}
    (h : build d cfg registry = .ok (plan, registry')) :
    ∃ sites, sitesOf d cfg = .ok sites ∧ plan = planOf cfg sites := by
  simp only [build, bind_eq_ok, pure_eq_ok] at h
  obtain ⟨acc, hacc, ⟨registry'', families⟩, hreg, entries, hentries, hplan⟩ := h
  obtain ⟨sites, hsites, hr⟩ := reflects_of_contracts hacc
  have hitems : acc.calls.items = distinctCalls sites := by
    rw [hr.calls, Interner.internAll_items requestKey_injective]
    rfl
  have hfam : ∀ n ∈ acc.keysByMetric, families.lookup n = some (acc.family n) := by
    intro n hn
    exact (registerGauges_eq_ok hreg).2 n (mem_hashOrder.mpr hn)
  have hmap := hr.entries_eq hfam
  rw [hentries] at hmap
  obtain ⟨rfl, -⟩ := Prod.mk.inj hplan
  rw [hitems, Except.ok.inj hmap]
  exact ⟨sites, hsites, rfl⟩

end EvmExporter
