import EvmExporter.Config.Args
import EvmExporter.Config.Naming

/-! Offline validation of a configuration: `Config::validate`. The checks come first, in
the source's order; after them stands what an accepted configuration satisfies, as the
structures `Metric.Valid`, `Contract.Valid` and `Config.Valid`. -/

namespace EvmExporter

open Lib

variable (d : Deps)

/-! ### The checks -/

def isPromNameStart (c : Char) : Bool := c = '_' || c = ':' || c.isAlpha

def isPromNameRest (c : Char) : Bool := c = '_' || c = ':' || c.isAlphanum

/-- The name matches `^[a-zA-Z_:][a-zA-Z0-9_:]*$`. -/
def isValidPromName (name : String) : Bool :=
  match name.toList with
  | [] => false
  | c :: cs => isPromNameStart c && cs.all isPromNameRest

def reservedLabelKeys : List String := ["address", "chain_id"]

def checkReservedLabels (ctx : String) (labels : Labels) : Except Error Unit :=
  labels.keys.forM fun k => bailIf (k ∈ reservedLabelKeys) (.reservedLabel ctx k)

/-- `base_dir.join(path)`, which is `path` itself when that is absolute. -/
def joinPath (baseDir path : String) : String :=
  if path.startsWith "/" ∨ baseDir.isEmpty then path
  else if baseDir.endsWith "/" then baseDir ++ path
  else baseDir ++ "/" ++ path

def loadAbi (ct : Contract) (baseDir : String) : Except Error JsonAbi := do
  let raw ← if ¬ ct.abiInline.isEmpty then pure ct.abiInline
    else (d.readToString (joinPath baseDir ct.abiPath)).mapError (.readAbi ct.abiPath)
  (d.parseAbi raw).mapError .parseAbi

/-- The component of a field selector, which `resolveTupleField` finds in range. -/
def tupleComponent (func : AbiFunction) (outputIndex fieldIndex : ℕ) : Option AbiParam :=
  (func.outputs[outputIndex]?).bind fun param => param.components[fieldIndex]?

/-- A field selector must name a component of a numeric or boolean type. -/
def validateField (func : AbiFunction) (i : ℕ) (o : Output) : Except Error Unit :=
  if o.field.isEmpty then .ok ()
  else do
    let (fi, _) ← resolveTupleField func o.index o.field
    match tupleComponent func o.index fi with
    | none => .error (.outputIndexRange o.index)
    | some component =>
      let ty ← (d.resolve component).mapError (.resolveField o.field)
      bailIf (¬ outputScalarIsNumeric ty) (.fieldNotScalar i o.field component.ty)

/-- Check the `i`-th output against the pairs (index, field) listed before it. -/
def validateOutput (func : AbiFunction) (seen : List (ℕ × String)) (a : Output × ℕ) :
    Except Error (List (ℕ × String)) := do
  let (o, i) := a
  bailIf (func.outputs.length ≤ o.index)
    (.outputRange i o.index func.name func.outputs.length)
  bailIf ((o.index, o.field) ∈ seen) (.duplicateOutput i o.index o.field)
  validateField d func i o
  return (o.index, o.field) :: seen

def validateOutputs (func : AbiFunction) (outputs : List Output) : Except Error Unit := do
  let _ ← outputs.zipIdx.foldlM (validateOutput d func) []
  return ()

def validateCall (func : AbiFunction) (a : Call × ℕ) : Except Error Unit := do
  let (call, i) := a
  checkReservedLabels s!"calls[{i}].labels" call.labels
  bailIf (call.args.length ≠ func.inputs.length)
    (.callArity i func.name func.inputs.length call.args.length)

/-- Every call set, or the single argument list, has one argument for each input. -/
def validateArity (func : AbiFunction) (m : Metric) : Except Error Unit :=
  if ¬ m.calls.isEmpty then m.calls.zipIdx.forM (validateCall func)
  else
    bailIf (m.args.length ≠ func.inputs.length)
      (.arity func.name func.inputs.length m.args.length)

def validateMetric (abi : JsonAbi) (m : Metric) : Except Error Unit := do
  checkReservedLabels "labels" m.labels
  bailIf m.function.isEmpty .functionRequired
  bailIf (¬ m.args.isEmpty ∧ ¬ m.calls.isEmpty) .argsAndCalls
  let func ← resolveFunction abi m.function
  validateOutputs d func m.outputs
  validateArity func m
  bailIf (¬ m.name.isEmpty ∧ ¬ isValidPromName m.name) (.badMetricName m.name)
  let names ← inferMetricNames d m func
  names.forM fun name => bailIf (¬ isValidPromName name) (.badInferredName name)

def validateInstance (a : Instance × ℕ) : Except Error Unit := do
  let (inst, j) := a
  bailIf inst.address.isEmpty (.addressRequired j)
  checkReservedLabels s!"instances[{j}].labels" inst.labels

/-- Check a contract and attach its parsed ABI. -/
def validateContract (baseDir : String) (ct : Contract) : Except Error Contract := do
  bailIf ct.name.isEmpty .contractNameRequired
  checkReservedLabels "labels" ct.labels
  bailIf (ct.abiPath.isEmpty ∧ ct.abiInline.isEmpty) .abiRequired
  bailIf (¬ ct.abiPath.isEmpty ∧ ¬ ct.abiInline.isEmpty) .abiExclusive
  let parsed ← loadAbi d ct baseDir
  bailIf ct.instances.isEmpty .noInstances
  ct.instances.zipIdx.forM validateInstance
  bailIf ct.metrics.isEmpty .noMetrics
  ct.metrics.zipIdx.forM fun (m, mi) =>
    (validateMetric d parsed m).mapError (.context (.metric mi (metricDescriptor m)))
  return { ct with parsedAbi := some parsed }

/-- All offline checks. The configuration that is returned holds the parsed ABIs. -/
def validate (baseDir : String) (cfg : Config) : Except Error Config := do
  bailIf cfg.chain.rpcUrl.isEmpty .rpcUrlRequired
  bailIf (cfg.chain.chainId = 0) .chainIdRequired
  bailIf cfg.contracts.isEmpty .noContracts
  checkReservedLabels "labels" cfg.labels
  let contracts ← cfg.contracts.zipIdx.mapM fun (ct, i) =>
    (validateContract d baseDir ct).mapError (.context (.contract i ct.name))
  return { cfg with contracts }

/-! ### What is accepted -/

/-- No key is one the exporter sets itself. -/
def ReservedFree (labels : Labels) : Prop := ∀ k ∈ labels.keys, k ∉ reservedLabelKeys

/-- What `validate_outputs` establishes of one output. -/
structure Output.Valid (func : AbiFunction) (o : Output) : Prop where
  index_lt : o.index < func.outputs.length
  field_numeric : o.field ≠ "" → ∃ fi name component ty,
    resolveTupleField func o.index o.field = .ok (fi, name) ∧
    tupleComponent func o.index fi = some component ∧ d.resolve component = .ok ty ∧
    outputScalarIsNumeric ty

/-- What `validate_metric` establishes, for the function the metric resolves to. -/
structure Metric.Valid (abi : JsonAbi) (m : Metric) (func : AbiFunction) : Prop where
  resolves : resolveFunction abi m.function = .ok func
  labels_free : ReservedFree m.labels
  exclusive : m.args = [] ∨ m.calls = []
  outputs_valid : ∀ o ∈ m.outputs, o.Valid d func
  outputs_nodup : (m.outputs.map fun o => (o.index, o.field)).Nodup
  calls_free : ∀ c ∈ m.calls, ReservedFree c.labels
  calls_arity : ∀ c ∈ m.calls, c.args.length = func.inputs.length
  args_arity : m.calls = [] → m.args.length = func.inputs.length
  names_valid : ∃ names, inferMetricNames d m func = .ok names ∧
    ∀ n ∈ names, isValidPromName n

/-- What `validate_contract` establishes. -/
structure Contract.Valid (ct : Contract) : Prop where
  name_ne : ct.name ≠ ""
  labels_free : ReservedFree ct.labels
  instances_ne : ct.instances ≠ []
  instances_free : ∀ inst ∈ ct.instances, ReservedFree inst.labels
  metrics_ne : ct.metrics ≠ []
  metrics_valid : ∃ abi, ct.parsedAbi = some abi ∧
    ∀ m ∈ ct.metrics, ∃ func, Metric.Valid d abi m func

/-- What `Config::validate` establishes. -/
structure Config.Valid (cfg : Config) : Prop where
  labels_free : ReservedFree cfg.labels
  contracts_valid : ∀ ct ∈ cfg.contracts, ct.Valid d

variable {d}

theorem checkReservedLabels_eq_ok {ctx : String} {labels : Labels}
    (h : checkReservedLabels ctx labels = .ok ()) : ReservedFree labels := by
  intro k hk
  simpa using forM_eq_ok.mp h k hk

theorem validateField_eq_ok {func : AbiFunction} {i : ℕ} {o : Output}
    (h : validateField d func i o = .ok ()) (hne : o.field ≠ "") :
    ∃ fi name component ty, resolveTupleField func o.index o.field = .ok (fi, name) ∧
      tupleComponent func o.index fi = some component ∧ d.resolve component = .ok ty ∧
      outputScalarIsNumeric ty := by
  rw [validateField, if_neg (by simpa using hne)] at h
  simp only [bind_eq_ok] at h
  obtain ⟨⟨fi, name⟩, hfi, h⟩ := h
  split at h
  · cases h
  next component hc =>
    obtain ⟨ty, hty, h⟩ := bind_eq_ok.mp h
    exact ⟨fi, name, component, ty, hfi, hc, mapError_eq_ok.mp hty, by simpa using h⟩

theorem validateOutput_eq_ok {func : AbiFunction} {seen seen' : List (ℕ × String)} {o : Output}
    {i : ℕ} (h : validateOutput d func seen (o, i) = .ok seen') :
    o.Valid d func ∧ (o.index, o.field) ∉ seen ∧ seen' = (o.index, o.field) :: seen := by
  simp only [validateOutput, check_bind_eq_ok, bailIf_eq_ok, pure_eq_ok] at h
  obtain ⟨hidx, hseen, hfield, rfl⟩ := h
  exact ⟨⟨by omega, validateField_eq_ok hfield⟩, hseen, rfl⟩

/-- Accepted outputs are valid one by one and select distinct (index, field) pairs. -/
theorem validateOutputs_eq_ok {func : AbiFunction} {outputs : List Output}
    (h : validateOutputs d func outputs = .ok ()) :
    (∀ o ∈ outputs, o.Valid d func) ∧ (outputs.map fun o => (o.index, o.field)).Nodup := by
  simp only [validateOutputs, bind_eq_ok] at h
  obtain ⟨seen, hseen, -⟩ := h
  -- the pairs seen so far are those of the outputs visited, last first
  let I (pre : List (Output × ℕ)) (seen : List (ℕ × String)) : Prop :=
    seen = (pre.map fun a => (a.1.index, a.1.field)).reverse ∧ seen.Nodup ∧
      ∀ a ∈ pre, a.1.Valid d func
  have hstep : ∀ pre a s s', I pre s → validateOutput d func s a = .ok s' → I (pre ++ [a]) s' := by
    rintro pre ⟨o, i⟩ s s' ⟨rfl, hnd, hval⟩ hs
    obtain ⟨ho, hnot, rfl⟩ := validateOutput_eq_ok hs
    have hvals : ∀ a ∈ pre ++ [(o, i)], a.1.Valid d func := by
      intro a ha
      rcases List.mem_append.mp ha with ha | ha
      · exact hval a ha
      · rw [List.mem_singleton.mp ha]; exact ho
    exact ⟨by simp, List.nodup_cons.mpr ⟨hnot, hnd⟩, hvals⟩
  have hI : I outputs.zipIdx seen := foldlM_invariant I ⟨rfl, .nil, by simp⟩ hstep hseen
  obtain ⟨hs, hnd, hval⟩ := hI
  have hmap : outputs.zipIdx.map (fun a => (a.1.index, a.1.field)) =
      outputs.map fun o => (o.index, o.field) := by
    conv_rhs => rw [← List.zipIdx_map_fst 0 outputs, List.map_map]
    rfl
  constructor
  · intro o ho
    rw [← List.zipIdx_map_fst 0 outputs] at ho
    obtain ⟨a, ha, rfl⟩ := List.mem_map.mp ho
    exact hval a ha
  · rw [← hmap]
    exact List.nodup_reverse.mp (hs ▸ hnd)

theorem validateCall_eq_ok {func : AbiFunction} {c : Call} {i : ℕ}
    (h : validateCall func (c, i) = .ok ()) :
    ReservedFree c.labels ∧ c.args.length = func.inputs.length := by
  simp only [validateCall, check_bind_eq_ok, bailIf_eq_ok, not_not] at h
  exact ⟨checkReservedLabels_eq_ok h.1, h.2⟩

theorem validateArity_eq_ok {func : AbiFunction} {m : Metric}
    (h : validateArity func m = .ok ()) :
    (∀ c ∈ m.calls, ReservedFree c.labels ∧ c.args.length = func.inputs.length) ∧
      (m.calls = [] → m.args.length = func.inputs.length) := by
  unfold validateArity at h
  by_cases hnil : m.calls = []
  · rw [if_neg (by simp [hnil])] at h
    exact ⟨by simp [hnil], fun _ => by simpa using h⟩
  · rw [if_pos (by simpa using hnil)] at h
    exact ⟨forM_zipIdx_eq_ok h fun c i hc => validateCall_eq_ok hc, fun h => absurd h hnil⟩

theorem validateMetric_valid {abi : JsonAbi} {m : Metric} (h : validateMetric d abi m = .ok ()) :
    ∃ func, m.Valid d abi func := by
  unfold validateMetric at h
  simp only [↓check_bind_eq_ok, bind_eq_ok, bailIf_eq_ok] at h
  obtain ⟨hlabels, -, hexcl, func, hfunc, houtputs, harity, -, names, hnames, hvalid⟩ := h
  obtain ⟨hval, hnd⟩ := validateOutputs_eq_ok houtputs
  obtain ⟨hcalls, hargs⟩ := validateArity_eq_ok harity
  have hone : m.args = [] ∨ m.calls = [] := by simpa [or_iff_not_imp_left] using hexcl
  have hgood : ∀ n ∈ names, isValidPromName n := by
    intro n hn
    simpa using forM_eq_ok.mp hvalid n hn
  exact ⟨func, hfunc, checkReservedLabels_eq_ok hlabels, hone, hval, hnd,
    fun c hc => (hcalls c hc).1, fun c hc => (hcalls c hc).2, hargs, names, hnames, hgood⟩

theorem validateContract_valid {baseDir : String} {ct ct' : Contract}
    (h : validateContract d baseDir ct = .ok ct') : ct'.Valid d := by
  unfold validateContract at h
  simp only [↓check_bind_eq_ok, bind_eq_ok, bailIf_eq_ok, pure_eq_ok] at h
  obtain ⟨hname, hlabels, -, -, parsed, -, hinst, hinsts, hmet, hmets, rfl⟩ := h
  have hfree : ∀ inst ∈ ct.instances, ReservedFree inst.labels := by
    refine forM_zipIdx_eq_ok hinsts fun inst j hj => ?_
    simp only [validateInstance, check_bind_eq_ok, bailIf_eq_ok] at hj
    exact checkReservedLabels_eq_ok hj.2
  have hmetrics : ∀ m ∈ ct.metrics, ∃ func, Metric.Valid d parsed m func :=
    forM_zipIdx_eq_ok hmets fun m mi hm => validateMetric_valid (mapError_eq_ok.mp hm)
  exact ⟨by simpa using hname, checkReservedLabels_eq_ok hlabels, by simpa using hinst, hfree,
    by simpa using hmet, parsed, rfl, hmetrics⟩

/-- An accepted configuration is valid. -/
theorem validate_valid {baseDir : String} {raw cfg : Config}
    (h : validate d baseDir raw = .ok cfg) : cfg.Valid d := by
  unfold validate at h
  simp only [↓check_bind_eq_ok, bind_eq_ok, bailIf_eq_ok, pure_eq_ok] at h
  obtain ⟨-, -, -, hlabels, contracts, hcts, rfl⟩ := h
  have hvalid : ∀ ct ∈ contracts, ct.Valid d := by
    intro ct hct
    obtain ⟨⟨ct₀, i⟩, -, hct₀⟩ := mapM_exists hcts ct hct
    exact validateContract_valid (mapError_eq_ok.mp hct₀)
  exact ⟨checkReservedLabels_eq_ok hlabels, hvalid⟩

end EvmExporter
