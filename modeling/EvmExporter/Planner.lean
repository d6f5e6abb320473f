import EvmExporter.Config.Validate
import EvmExporter.Decoder
import EvmExporter.Lib.Interning
import EvmExporter.Multicall

/-! The planner: `planner.rs`. Four nested loops over contracts, instances, metrics and
call sets fill a table of distinct calls, a list of drafts and, for each metric name,
its help text and the union of its label keys; then one gauge is registered for each
name and the drafts become entries. -/

namespace EvmExporter

open Lib

variable (d : Deps)

/-! ### Call sets and outputs -/

/-- One call of a metric: a call set, or the metric's own arguments. -/
structure Subcall where
  function : String
  args : List Value
  callLabels : Labels
  outputs : List Output

def expandMetricCalls (m : Metric) : List Subcall :=
  if ¬ m.calls.isEmpty then
    m.calls.map fun c => ⟨m.function, c.args, c.labels, m.outputs⟩
  else [⟨m.function, m.args, ∅, m.outputs⟩]

/-- The loop variables of one round of the innermost loop. -/
structure Place where
  contract : Contract
  inst : Instance
  metric : Metric
  subcall : Subcall

/-- The context of an error raised at the place. -/
def Place.context (p : Place) (e : Error) : Error :=
  .context (.planner p.contract.name (metricDescriptor p.metric)) e

/-- The planner's own default for an empty list of outputs. -/
def plannedOutputs (outputs : List Output) (func : AbiFunction) : List Output :=
  if outputs.isEmpty then
    if func.outputs.length = 1 then [{ index := 0 }]
    else (List.range func.outputs.length).map fun i => { index := i }
  else outputs

def resolveOutputs (m : Metric) (sc : Subcall) (func : AbiFunction) :
    Except Error (List String × List Output) := do
  let surrogate : Metric := { name := m.name, help := m.help, outputs := sc.outputs }
  let names ← inferMetricNames d surrogate func
  let outs := plannedOutputs sc.outputs func
  bailIf (names.length ≠ outs.length) (.outputCountMismatch names.length outs.length)
  return (names, outs)

/-! ### One round of the loop -/

def contractAbi (ct : Contract) : Except Error JsonAbi :=
  match ct.parsedAbi with
  | some abi => .ok abi
  | none => .error (.noParsedAbi ct.name)

def instanceAddress (ct : Contract) (inst : Instance) : Except Error Address :=
  (d.toAbiLibrary.parseAddress (trim inst.address)).mapError fun _ =>
    .invalidInstanceAddress ct.name inst.address

/-- The first overload, whatever its mutability. -/
def lookupFunction (abi : JsonAbi) (p : Place) : Except Error AbiFunction :=
  match abi.function p.subcall.function with
  | none => .error (.functionMissing p.contract.name (metricDescriptor p.metric) p.subcall.function)
  | some overloads =>
    match overloads.head? with
    | some func => .ok func
    | none => .error (.noOverload p.subcall.function)

def encodeCall (func : AbiFunction) (p : Place) : Except Error Bytes := do
  let packed ← (convertArgs d func p.subcall.args).mapError p.context
  (d.abiEncodeInput func packed).mapError
    (.pack p.contract.name (metricDescriptor p.metric) p.subcall.function)

/-- The key of a request in `call_by_key`. -/
def requestKey (r : CallRequest) : String × String :=
  (r.target.format, "0x" ++ hexEncode r.callData)

/-- A metric name behind the contract's prefix. -/
def qualify (ct : Contract) (name : String) : String :=
  if ct.effectiveMetricPrefix.isEmpty then name else s!"{ct.effectiveMetricPrefix}_{name}"

/-- The labels of a call set: top-level, then contract, instance and call labels. -/
def mergeLabels (cfg : Config) (p : Place) : Labels :=
  (((SortedMap.insertAll ∅ cfg.labels).insertAll p.contract.labels).insertAll
    p.inst.labels).insertAll p.subcall.callLabels

def fieldIndex (func : AbiFunction) (out : Output) : Except Error (Option ℕ) :=
  if out.field.isEmpty then .ok none
  else do
    let (fi, _) ← resolveTupleField func out.index out.field
    return some fi

structure Draft where
  callIndex : ℕ
  decode : DecodeTarget
  metricName : String
  userLabels : Labels
  address : Address
  contractName : String
  functionName : String

/-- What the loop builds: `calls` with `call_by_key`, `drafts`, `help_by_metric` and
`keys_by_metric`. -/
structure Acc where
  calls : Interner CallRequest (String × String)
  drafts : List Draft
  helpByMetric : AList fun _ : String => String
  keysByMetric : AList fun _ : String => SortedSet String

def Acc.empty : Acc := ⟨.empty, [], ∅, ∅⟩

/-- A help text, unless it is empty. -/
def nonEmpty (help : Option String) : Option String := help.filter fun h => ¬ h.isEmpty

/-- Keep the first non-empty help text of a name and refuse a different one. -/
def noteHelp (name help : String) (helps : AList fun _ : String => String) :
    Except Error (AList fun _ : String => String) :=
  match helps.lookup name with
  | none => .ok (helps.insert name help)
  | some existing =>
    if ¬ help.isEmpty ∧ ¬ existing.isEmpty ∧ existing ≠ help then .error (.conflictingHelp name)
    else if existing.isEmpty ∧ ¬ help.isEmpty then .ok (helps.insert name help)
    else .ok helps

/-- Add label keys to those of a name. -/
def noteKeys (name : String) (labels : Labels) (keys : AList fun _ : String => SortedSet String) :
    AList fun _ : String => SortedSet String :=
  keys.insert name (SortedSet.insertMany ((keys.lookup name).getD ∅) labels.keys)

/-- One output of a call set. -/
def buildOutput (p : Place) (addr : Address) (func : AbiFunction) (merged : Labels)
    (callIndex : ℕ) (acc : Acc) (a : String × Output) : Except Error Acc := do
  let (name, out) := a
  let fi ← (fieldIndex func out).mapError p.context
  let helps ← noteHelp name p.metric.help acc.helpByMetric
  return { acc with
    helpByMetric := helps
    keysByMetric := noteKeys name merged acc.keysByMetric
    drafts := acc.drafts ++ [{
      callIndex
      decode := ⟨func, out.index, fi, out.effectiveScale⟩
      metricName := name
      userLabels := merged
      address := addr
      contractName := p.contract.name
      functionName := p.subcall.function }] }

/-- One call set of a metric at an instance. -/
def buildCall (cfg : Config) (abi : JsonAbi) (addr : Address) (p : Place) (acc : Acc) :
    Except Error Acc := do
  let func ← lookupFunction abi p
  let callData ← encodeCall d func p
  let (calls, callIndex) := acc.calls.intern requestKey ⟨addr, callData⟩
  let (names, outputs) ← (resolveOutputs d p.metric p.subcall func).mapError p.context
  ((names.map (qualify p.contract)).zip outputs).foldlM
    (buildOutput p addr func (mergeLabels cfg p) callIndex) { acc with calls }

def buildMetric (cfg : Config) (abi : JsonAbi) (addr : Address) (ct : Contract) (inst : Instance)
    (acc : Acc) (m : Metric) : Except Error Acc :=
  (expandMetricCalls m).foldlM (fun acc sc => buildCall d cfg abi addr ⟨ct, inst, m, sc⟩ acc) acc

def buildInstance (cfg : Config) (abi : JsonAbi) (ct : Contract) (acc : Acc) (inst : Instance) :
    Except Error Acc := do
  let addr ← instanceAddress d ct inst
  ct.metrics.foldlM (buildMetric d cfg abi addr ct inst) acc

def buildContract (cfg : Config) (acc : Acc) (ct : Contract) : Except Error Acc := do
  let abi ← contractAbi ct
  ct.instances.foldlM (buildInstance d cfg abi ct) acc

/-! ### Gauges and entries -/

/-- A gauge vector is known by its descriptor. -/
abbrev GaugeVec := Desc

/-- The label keys and the gauge of a metric name: `final_keys` and `gauges`. -/
structure Family where
  keys : List String
  gauge : GaugeVec

/-- The help text of a name, or the default when it has none. -/
def helpText (name : String) (help : Option String) : String :=
  (nonEmpty help).getD s!"EVM contract metric {name}"

def family (name : String) (help : Option String) (keys : SortedSet String) : Family :=
  let keys := SortedMap.keys keys ++ ["address", "chain_id"]
  ⟨keys, ⟨name, helpText name help, ∅, keys⟩⟩

/-- Create and register the gauge of one name. -/
def registerGauge (acc : Acc) (s : Registry × AList fun _ : String => Family) (name : String) :
    Except Error (Registry × AList fun _ : String => Family) := do
  let (registry, families) := s
  let fam := family name (acc.helpByMetric.lookup name) ((acc.keysByMetric.lookup name).getD ∅)
  (d.newDesc fam.gauge).mapError (.createGauge name)
  (d.register registry fam.gauge).mapError (.registerGauge name)
  return (fam.gauge :: registry, families.insert name fam)

/-- A single emitted metric series: one gauge sample per scrape. -/
structure Entry where
  callIndex : ℕ
  decode : DecodeTarget
  metricName : String
  gauge : GaugeVec
  labelKeys : List String
  labelValues : List String
  contractName : String
  functionName : String
  address : Address

/-- The value of a label key. -/
def labelValue (chainId : ℕ) (addr : Address) (userLabels : Labels) (key : String) : String :=
  if key = "address" then addr.format
  else if key = "chain_id" then toString chainId
  else (userLabels.get? key).getD ""

def buildEntry (chainId : ℕ) (families : AList fun _ : String => Family) (dr : Draft) :
    Except Error Entry :=
  match families.lookup dr.metricName with
  | none => .error (.missingGauge dr.metricName)
  | some fam => .ok {
      callIndex := dr.callIndex
      decode := dr.decode
      metricName := dr.metricName
      gauge := fam.gauge
      labelKeys := fam.keys
      labelValues := fam.keys.map (labelValue chainId dr.address dr.userLabels)
      contractName := dr.contractName
      functionName := dr.functionName
      address := dr.address }

structure Plan where
  calls : List CallRequest
  entries : List Entry
  chunkCount : ℕ

/-- `usize::div_ceil`. -/
def divCeil (a b : ℕ) : ℕ := if a % b = 0 then a / b else a / b + 1

def chunkCount (len maxCallsPerBatch : ℕ) : ℕ :=
  if len = 0 then 0
  else divCeil len (if maxCallsPerBatch = 0 then len else maxCallsPerBatch)

/-- Build the plan of a validated configuration and register its gauges. -/
def build (cfg : Config) (registry : Registry) : Except Error (Plan × Registry) := do
  let acc ← cfg.contracts.foldlM (buildContract d cfg) .empty
  let (registry, families) ←
    (d.hashOrder acc.keysByMetric.keys).foldlM (registerGauge d acc) (registry, ∅)
  let entries ← acc.drafts.mapM (buildEntry cfg.chain.chainId families)
  let calls := acc.calls.items
  return (⟨calls, entries, chunkCount calls.length cfg.scrape.maxCallsPerBatch⟩, registry)

/-! ### What the pieces do -/

variable {d}

theorem requestKey_injective : Function.Injective requestKey := by
  rintro ⟨t, c⟩ ⟨t', c'⟩ h
  obtain ⟨ht, hc⟩ := Prod.mk.inj h
  have hl := congrArg String.toList hc
  simp only [String.toList_append, List.append_cancel_left_eq] at hl
  obtain rfl : t = t' := Address.format_injective ht
  obtain rfl : c = c' := hexEncode_injective (String.toList_injective hl)
  rfl

@[simp] theorem nonEmpty_some (help : String) :
    nonEmpty (some help) = if help = "" then none else some help := by
  by_cases h : help = "" <;> simp [nonEmpty, Option.filter, h]

/-- The planner's default outputs are those the validator named. -/
theorem plannedOutputs_eq (outputs : List Output) (func : AbiFunction) :
    plannedOutputs outputs func = selectedOutputs outputs func := by
  unfold plannedOutputs selectedOutputs
  split_ifs with h₁ h₂
  · simp [h₂]
  · rfl
  · rfl

/-- The planner infers the very names the validator inferred, one for each output. -/
theorem resolveOutputs_eq (m : Metric) (sc : Subcall) (func : AbiFunction)
    (hsc : sc.outputs = m.outputs) :
    resolveOutputs d m sc func =
      (inferMetricNames d m func).map fun names => (names, selectedOutputs m.outputs func) := by
  unfold resolveOutputs
  simp only [plannedOutputs_eq, hsc]
  rw [show inferMetricNames d { name := m.name, help := m.help, outputs := m.outputs } func =
    inferMetricNames d m func from inferMetricNames_congr rfl rfl func]
  cases h : inferMetricNames d m func with
  | error e => rfl
  | ok names =>
    have hlen := inferMetricNames_length h
    simp [bailIf, hlen, bind, Except.bind, pure, Except.pure, Except.map]

/-- The labels of a call set, the most specific level first. -/
theorem mergeLabels_get? (cfg : Config) (p : Place) (k : String) :
    (mergeLabels cfg p).get? k =
      (p.subcall.callLabels.get? k).or ((p.inst.labels.get? k).or
        ((p.contract.labels.get? k).or (cfg.labels.get? k))) := by
  simp [mergeLabels, SortedMap.get?_insertAll]

theorem expandMetricCalls_function {m : Metric} {sc : Subcall} (h : sc ∈ expandMetricCalls m) :
    sc.function = m.function ∧ sc.outputs = m.outputs := by
  unfold expandMetricCalls at h
  split_ifs at h
  · obtain rfl := List.mem_singleton.mp h
    exact ⟨rfl, rfl⟩
  · obtain ⟨c, -, rfl⟩ := List.mem_map.mp h
    exact ⟨rfl, rfl⟩

end EvmExporter
