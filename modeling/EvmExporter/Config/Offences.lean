import EvmExporter.Config.Acceptable
import EvmExporter.Reference

/-! Why validation rejects. An offence is a fault of a part of the configuration, with the error
that reports it. A rejected configuration has the offence its error reports, and the contract
and the metric the error points to are the first that are not acceptable; a configuration with
an offence is rejected. -/

namespace EvmExporter

open Lib

variable (d : Deps)

/-! ### Offences -/

/-- A label whose key the exporter sets itself. -/
inductive LabelOffence (ctx : String) (labels : Labels) : Error → Prop
  | reserved {key : String} (hkey : key ∈ labels.keys) (hreserved : key ∈ reservedLabelKeys) :
    LabelOffence ctx labels (.reservedLabel ctx key)

/-- A fault of the output that is listed after those in `pre`. -/
inductive Output.Offence (func : AbiFunction) (pre : List Output) (o : Output) : Error → Prop
  | range (hrange : func.outputs.length ≤ o.index) :
    Offence func pre o (.outputRange pre.length o.index func.name func.outputs.length)
  | duplicate {o' : Output} (hmem : o' ∈ pre) (hindex : o'.index = o.index)
      (hfield : o'.field = o.field) :
    Offence func pre o (.duplicateOutput pre.length o.index o.field)
  | notTuple {param : AbiParam} (hfield : o.field ≠ "") (hparam : func.outputs[o.index]? = some param)
      (hty : ¬ param.ty.startsWith "tuple" ∨ param.components = []) :
    Offence func pre o (.notTuple o.field o.index func.name param.ty)
  | fieldNotFound {param : AbiParam} (hfield : o.field ≠ "")
      (hparam : func.outputs[o.index]? = some param)
      (hnone : ∀ c ∈ param.components, c.name ≠ o.field) :
    Offence func pre o
      (.fieldNotFound o.field o.index func.name (param.components.map AbiParam.name))
  | resolveField {fi : ℕ} {name cause : String} {component : AbiParam} (hfield : o.field ≠ "")
      (hfi : resolveTupleField func o.index o.field = .ok (fi, name))
      (hcomponent : tupleComponent func o.index fi = some component)
      (hty : d.resolve component = .error cause) :
    Offence func pre o (.resolveField o.field cause)
  | fieldNotScalar {fi : ℕ} {name : String} {component : AbiParam} {ty : DynSolType}
      (hfield : o.field ≠ "") (hfi : resolveTupleField func o.index o.field = .ok (fi, name))
      (hcomponent : tupleComponent func o.index fi = some component)
      (hty : d.resolve component = .ok ty) (hnumeric : ¬ outputScalarIsNumeric ty) :
    Offence func pre o (.fieldNotScalar pre.length o.field component.ty)

inductive Metric.Offence (abi : JsonAbi) (m : Metric) : Error → Prop
  | labels {e : Error} (h : LabelOffence "labels" m.labels e) : Offence abi m e
  | functionRequired (h : m.function = "") : Offence abi m .functionRequired
  | argsAndCalls (hargs : m.args ≠ []) (hcalls : m.calls ≠ []) : Offence abi m .argsAndCalls
  | functionNotFound (h : ∀ overloads, abi.function m.function = some overloads → overloads = []) :
    Offence abi m (.functionNotFound m.function)
  | notView {f : AbiFunction} {overloads : List AbiFunction}
      (hfunc : abi.function m.function = some (f :: overloads))
      (hview : f.stateMutability ≠ .view) (hpure : f.stateMutability ≠ .pure) :
    Offence abi m (.notView m.function f.stateMutability)
  | output {func : AbiFunction} {pre post : List Output} {o : Output} {e : Error}
      (hfunc : resolveFunction abi m.function = .ok func) (houtputs : m.outputs = pre ++ o :: post)
      (h : o.Offence d func pre e) : Offence abi m e
  | callLabels {i : ℕ} {c : Call} {e : Error} (hc : m.calls[i]? = some c)
      (h : LabelOffence s!"calls[{i}].labels" c.labels e) : Offence abi m e
  | callArity {func : AbiFunction} {i : ℕ} {c : Call}
      (hfunc : resolveFunction abi m.function = .ok func) (hc : m.calls[i]? = some c)
      (harity : c.args.length ≠ func.inputs.length) :
    Offence abi m (.callArity i func.name func.inputs.length c.args.length)
  | arity {func : AbiFunction} (hfunc : resolveFunction abi m.function = .ok func)
      (hcalls : m.calls = []) (harity : m.args.length ≠ func.inputs.length) :
    Offence abi m (.arity func.name func.inputs.length m.args.length)
  | badMetricName (hne : m.name ≠ "") (hbad : ¬ isValidPromName m.name) :
    Offence abi m (.badMetricName m.name)
  | badInferredName {func : AbiFunction} {names : List String} {name : String}
      (hfunc : resolveFunction abi m.function = .ok func)
      (hnames : inferMetricNames d m func = .ok names) (hname : name ∈ names)
      (hbad : ¬ isValidPromName name) : Offence abi m (.badInferredName name)

inductive Contract.Offence (baseDir : String) (ct : Contract) : Error → Prop
  | nameRequired (h : ct.name = "") : Offence baseDir ct .contractNameRequired
  | labels {e : Error} (h : LabelOffence "labels" ct.labels e) : Offence baseDir ct e
  | abiRequired (hpath : ct.abiPath = "") (hinline : ct.abiInline = "") :
    Offence baseDir ct .abiRequired
  | abiExclusive (hpath : ct.abiPath ≠ "") (hinline : ct.abiInline ≠ "") :
    Offence baseDir ct .abiExclusive
  | readAbi {cause : String} (hpath : ct.abiPath ≠ "") (hinline : ct.abiInline = "")
      (h : d.readToString (joinPath baseDir ct.abiPath) = .error cause) :
    Offence baseDir ct (.readAbi ct.abiPath cause)
  | parseAbi {text cause : String} (htext : ct.AbiText d baseDir text)
      (h : d.parseAbi text = .error cause) : Offence baseDir ct (.parseAbi cause)
  | noInstances (h : ct.instances = []) : Offence baseDir ct .noInstances
  | addressRequired {j : ℕ} {inst : Instance} (hinst : ct.instances[j]? = some inst)
      (h : inst.address = "") : Offence baseDir ct (.addressRequired j)
  | instanceLabels {j : ℕ} {inst : Instance} {e : Error} (hinst : ct.instances[j]? = some inst)
      (h : LabelOffence s!"instances[{j}].labels" inst.labels e) : Offence baseDir ct e
  | noMetrics (h : ct.metrics = []) : Offence baseDir ct .noMetrics
  | metric {text : String} {abi : JsonAbi} {pre post : List Metric} {m : Metric} {cause : Error}
      (htext : ct.AbiText d baseDir text) (habi : d.parseAbi text = .ok abi)
      (hmetrics : ct.metrics = pre ++ m :: post) (hpre : ∀ m' ∈ pre, m'.Acceptable d abi)
      (h : m.Offence d abi cause) :
    Offence baseDir ct (.context (.metric pre.length (metricDescriptor m)) cause)

inductive Config.Offence (baseDir : String) (raw : Config) : Error → Prop
  | rpcUrlRequired (h : raw.chain.rpcUrl = "") : Offence baseDir raw .rpcUrlRequired
  | chainIdRequired (h : raw.chain.chainId = 0) : Offence baseDir raw .chainIdRequired
  | noContracts (h : raw.contracts = []) : Offence baseDir raw .noContracts
  | labels {e : Error} (h : LabelOffence "labels" raw.labels e) : Offence baseDir raw e
  | contract {pre post : List Contract} {ct : Contract} {cause : Error}
      (hcontracts : raw.contracts = pre ++ ct :: post)
      (hpre : ∀ ct' ∈ pre, ∃ abi, ct'.Acceptable d baseDir abi)
      (h : ct.Offence d baseDir cause) :
    Offence baseDir raw (.context (.contract pre.length ct.name) cause)

variable {d}

/-! ### A rejection has its offence -/

theorem checkReservedLabels_eq_error {ctx : String} {labels : Labels} {e : Error}
    (h : checkReservedLabels ctx labels = .error e) : LabelOffence ctx labels e := by
  obtain ⟨pre, key, post, hkeys, -, hkey⟩ := forM_eq_error h
  obtain ⟨hreserved, rfl⟩ := bailIf_eq_error.mp hkey
  exact .reserved (hkeys ▸ List.mem_append_right pre List.mem_cons_self) hreserved

theorem resolveTupleField_eq_error {func : AbiFunction} {o : Output} {pre : List Output} {e : Error}
    (hlt : o.index < func.outputs.length) (hfield : o.field ≠ "")
    (h : resolveTupleField func o.index o.field = .error e) : o.Offence d func pre e := by
  unfold resolveTupleField at h
  split at h
  next hnone => exact absurd (List.getElem?_eq_none_iff.mp hnone) (not_le.mpr hlt)
  next param hparam =>
    split_ifs at h with hty
    · cases h
      exact .notTuple hfield hparam (by simpa using hty)
    · split at h
      · cases h
      next hfind =>
        cases h
        refine .fieldNotFound hfield hparam fun c hc hname => ?_
        obtain ⟨i, hi⟩ := List.mem_iff_getElem?.mp hc
        have hnot := List.find?_eq_none.mp hfind (c, i) (List.mem_zipIdx_iff_getElem?.mpr hi)
        exact hnot (by simpa using hname)

theorem validateField_eq_error {func : AbiFunction} {o : Output} {pre : List Output} {e : Error}
    (hlt : o.index < func.outputs.length) (h : validateField d func pre.length o = .error e) :
    o.Offence d func pre e := by
  unfold validateField at h
  split_ifs at h with hempty
  have hfield : o.field ≠ "" := by simpa using hempty
  rcases bind_eq_error.mp h with h | ⟨⟨fi, name⟩, hfi, h⟩
  · exact resolveTupleField_eq_error hlt hfield h
  · obtain ⟨-, param, component, hparam, hc, -⟩ := resolveTupleField_eq_ok hfi
    have hcomponent : tupleComponent func o.index fi = some component := by
      simp [tupleComponent, hparam, hc]
    simp only [hcomponent] at h
    rcases bind_eq_error.mp h with h | ⟨ty, hty, h⟩
    · obtain ⟨cause, hcause, rfl⟩ := mapError_eq_error.mp h
      exact .resolveField hfield hfi hcomponent hcause
    · obtain ⟨hnumeric, rfl⟩ := bailIf_eq_error.mp h
      exact .fieldNotScalar hfield hfi hcomponent (mapError_eq_ok.mp hty) hnumeric

/-- The pair of a position and a field that an output selects. -/
def Output.selector (o : Output) : ℕ × String := (o.index, o.field)

theorem validateOutput_eq_error {func : AbiFunction} {pre : List Output} {o : Output} {e : Error}
    (h : validateOutput d func (pre.map Output.selector).reverse (o, pre.length) = .error e) :
    o.Offence d func pre e := by
  unfold validateOutput at h
  rcases check_bind_eq_error.mp h with h | ⟨hrange, h⟩
  · obtain ⟨hrange, rfl⟩ := bailIf_eq_error.mp h
    exact .range hrange
  rcases check_bind_eq_error.mp h with h | ⟨-, h⟩
  · obtain ⟨hseen, rfl⟩ := bailIf_eq_error.mp h
    obtain ⟨o', hmem, heq⟩ := List.mem_map.mp (List.mem_reverse.mp hseen)
    obtain ⟨hindex, hfield⟩ := Prod.mk.inj heq
    exact .duplicate hmem hindex hfield
  rcases check_bind_eq_error.mp h with h | ⟨-, h⟩
  · exact validateField_eq_error (not_le.mp (bailIf_eq_ok.mp hrange)) h
  · cases h

/-- What the loop has seen are the selectors of the outputs it has visited, last first. -/
theorem validateOutput_foldlM {func : AbiFunction} {pre : List (Output × ℕ)}
    {seen : List (ℕ × String)} (h : pre.foldlM (validateOutput d func) [] = .ok seen) :
    seen = ((pre.map Prod.fst).map Output.selector).reverse := by
  refine foldlM_invariant (fun pre seen => seen = ((pre.map Prod.fst).map Output.selector).reverse)
    rfl ?_ h
  rintro pre ⟨o, i⟩ s s' rfl hs
  obtain ⟨-, -, rfl⟩ := validateOutput_eq_ok hs
  simp [Output.selector]

theorem validateOutputs_eq_error {func : AbiFunction} {outputs : List Output} {e : Error}
    (h : validateOutputs d func outputs = .error e) :
    ∃ pre o post, outputs = pre ++ o :: post ∧ o.Offence d func pre e := by
  unfold validateOutputs at h
  rcases bind_eq_error.mp h with h | ⟨_, -, h⟩
  · obtain ⟨pre, ⟨o, i⟩, post, seen, hl, hpre, ho⟩ := foldlM_eq_error h
    obtain ⟨hsplit, rfl⟩ := zipIdx_eq_append hl
    obtain rfl := validateOutput_foldlM hpre
    exact ⟨pre.map Prod.fst, o, post.map Prod.fst, hsplit,
      validateOutput_eq_error (by simpa using ho)⟩
  · cases h

theorem resolveFunction_eq_error {abi : JsonAbi} {m : Metric} {e : Error}
    (h : resolveFunction abi m.function = .error e) : m.Offence d abi e := by
  unfold resolveFunction at h
  split at h
  next hnone =>
    cases h
    exact .functionNotFound (by simp [hnone])
  next overloads hsome =>
    cases overloads with
    | nil =>
      cases h
      exact .functionNotFound (by simp [hsome])
    | cons f overloads =>
      simp only [List.head?_cons] at h
      split at h
      · cases h
      · cases h
      next hview hpure =>
        cases h
        exact .notView hsome hview hpure

/-- Every selected output of valid outputs has a name. -/
theorem outputMetricName_ok (base : String) {func : AbiFunction} {o : Output}
    (ho : o.Valid d func) : ∃ name, outputMetricName d base func o = .ok name := by
  obtain ⟨out, hout⟩ : ∃ out, func.outputs[o.index]? = some out :=
    ⟨_, List.getElem?_eq_getElem ho.index_lt⟩
  unfold outputMetricName
  simp only [hout]
  by_cases hfield : o.field = ""
  · simp only [hfield, ↓reduceIte, String.isEmpty_iff, not_true_eq_false]
    split_ifs <;> exact ⟨_, rfl⟩
  · obtain ⟨fi, fname, -, -, hfi, -⟩ := ho.field_numeric hfield
    by_cases hname : o.name = "" <;>
      simp [hfield, hname, hfi, bind, Except.bind, pure, Except.pure]

theorem inferMetricNames_ok {m : Metric} {func : AbiFunction}
    (hvalid : ∀ o ∈ m.outputs, o.Valid d func) : ∃ names, inferMetricNames d m func = .ok names := by
  unfold inferMetricNames
  split_ifs
  · exact ⟨_, rfl⟩
  · by_contra hno
    cases hm : (selectedOutputs m.outputs func).mapM (outputMetricName d (metricBase d m func) func)
      with
    | ok names => exact hno ⟨names, hm⟩
    | error e =>
      obtain ⟨pre, o, post, hsel, -, ho⟩ := mapM_eq_error hm
      have hmem : o ∈ selectedOutputs m.outputs func :=
        hsel ▸ List.mem_append_right pre List.mem_cons_self
      have hgood : o.Valid d func := by
        rcases mem_selectedOutputs hmem with hmem | ⟨i, hi, rfl⟩
        · exact hvalid o hmem
        · exact ⟨hi, fun hfield => absurd rfl hfield⟩
      obtain ⟨name, hname⟩ := outputMetricName_ok (metricBase d m func) hgood
      rw [hname] at ho
      cases ho

theorem validateArity_eq_error {abi : JsonAbi} {func : AbiFunction} {m : Metric} {e : Error}
    (hfunc : resolveFunction abi m.function = .ok func) (h : validateArity func m = .error e) :
    m.Offence d abi e := by
  unfold validateArity at h
  by_cases hcalls : m.calls = []
  · rw [if_neg (by simp [hcalls])] at h
    obtain ⟨harity, rfl⟩ := bailIf_eq_error.mp h
    exact .arity hfunc hcalls harity
  · rw [if_pos (by simpa using hcalls)] at h
    obtain ⟨pre, c, post, hsplit, -, hc⟩ := forM_zipIdx_eq_error h
    have hget : m.calls[pre.length]? = some c := by simp [hsplit]
    rcases check_bind_eq_error.mp hc with hc | ⟨-, hc⟩
    · exact .callLabels hget (checkReservedLabels_eq_error hc)
    · obtain ⟨harity, rfl⟩ := bailIf_eq_error.mp hc
      exact .callArity hfunc hget harity

/-- The checks of a metric, in their order. -/
theorem validateMetric_eq_error {abi : JsonAbi} {m : Metric} {e : Error}
    (h : validateMetric d abi m = .error e) : m.Offence d abi e := by
  unfold validateMetric at h
  rcases check_bind_eq_error.mp h with h | ⟨-, h⟩
  · exact .labels (checkReservedLabels_eq_error h)
  rcases check_bind_eq_error.mp h with h | ⟨-, h⟩
  · obtain ⟨hfunction, rfl⟩ := bailIf_eq_error.mp h
    exact .functionRequired (by simpa using hfunction)
  rcases check_bind_eq_error.mp h with h | ⟨-, h⟩
  · obtain ⟨⟨hargs, hcalls⟩, rfl⟩ := bailIf_eq_error.mp h
    exact .argsAndCalls (by simpa using hargs) (by simpa using hcalls)
  rcases bind_eq_error.mp h with h | ⟨func, hfunc, h⟩
  · exact resolveFunction_eq_error h
  rcases check_bind_eq_error.mp h with h | ⟨houtputs, h⟩
  · obtain ⟨pre, o, post, hsplit, ho⟩ := validateOutputs_eq_error h
    exact .output hfunc hsplit ho
  rcases check_bind_eq_error.mp h with h | ⟨-, h⟩
  · exact validateArity_eq_error hfunc h
  rcases check_bind_eq_error.mp h with h | ⟨-, h⟩
  · obtain ⟨⟨hne, hbad⟩, rfl⟩ := bailIf_eq_error.mp h
    exact .badMetricName (by simpa using hne) hbad
  -- inference cannot fail once the outputs have passed
  obtain ⟨names, hnames⟩ := inferMetricNames_ok (m := m) (validateOutputs_eq_ok houtputs).1
  rw [hnames] at h
  obtain ⟨pre, name, post, hsplit, -, hname⟩ := forM_eq_error h
  obtain ⟨hbad, rfl⟩ := bailIf_eq_error.mp hname
  exact .badInferredName hfunc hnames (hsplit ▸ List.mem_append_right pre List.mem_cons_self) hbad

theorem validateInstance_eq_error {baseDir : String} {ct : Contract} {inst : Instance} {j : ℕ}
    {e : Error} (hinst : ct.instances[j]? = some inst)
    (h : validateInstance (inst, j) = .error e) : ct.Offence d baseDir e := by
  rcases check_bind_eq_error.mp h with h | ⟨-, h⟩
  · obtain ⟨haddr, rfl⟩ := bailIf_eq_error.mp h
    exact .addressRequired hinst (by simpa using haddr)
  · exact .instanceLabels hinst (checkReservedLabels_eq_error h)

theorem loadAbi_eq_error {baseDir : String} {ct : Contract} {e : Error}
    (hone : ¬ (ct.abiPath.isEmpty ∧ ct.abiInline.isEmpty))
    (hboth : ¬ (¬ ct.abiPath.isEmpty ∧ ¬ ct.abiInline.isEmpty))
    (h : loadAbi d ct baseDir = .error e) : ct.Offence d baseDir e := by
  unfold loadAbi at h
  by_cases hinline : ct.abiInline = ""
  · have hpath : ct.abiPath ≠ "" := by simpa [hinline] using hone
    rw [if_neg (by simp [hinline])] at h
    rcases bind_eq_error.mp h with h | ⟨text, htext, h⟩
    · obtain ⟨cause, hcause, rfl⟩ := mapError_eq_error.mp h
      exact .readAbi hpath hinline hcause
    · obtain ⟨cause, hcause, rfl⟩ := mapError_eq_error.mp h
      exact .parseAbi (.inr ⟨hpath, hinline, mapError_eq_ok.mp htext⟩) hcause
  · have hpath : ct.abiPath = "" := by simpa [hinline] using hboth
    rw [if_pos (by simpa using hinline)] at h
    obtain ⟨cause, hcause, rfl⟩ := mapError_eq_error.mp h
    exact .parseAbi (.inl ⟨hpath, hinline, rfl⟩) hcause

/-- The checks of a contract, in their order. -/
theorem validateContract_eq_error {baseDir : String} {ct : Contract} {e : Error}
    (h : validateContract d baseDir ct = .error e) : ct.Offence d baseDir e := by
  unfold validateContract at h
  rcases check_bind_eq_error.mp h with h | ⟨-, h⟩
  · obtain ⟨hname, rfl⟩ := bailIf_eq_error.mp h
    exact .nameRequired (by simpa using hname)
  rcases check_bind_eq_error.mp h with h | ⟨-, h⟩
  · exact .labels (checkReservedLabels_eq_error h)
  rcases check_bind_eq_error.mp h with h | ⟨hone, h⟩
  · obtain ⟨⟨hpath, hinline⟩, rfl⟩ := bailIf_eq_error.mp h
    exact .abiRequired (by simpa using hpath) (by simpa using hinline)
  rcases check_bind_eq_error.mp h with h | ⟨hboth, h⟩
  · obtain ⟨⟨hpath, hinline⟩, rfl⟩ := bailIf_eq_error.mp h
    exact .abiExclusive (by simpa using hpath) (by simpa using hinline)
  have hone := bailIf_eq_ok.mp hone
  have hboth := bailIf_eq_ok.mp hboth
  rcases bind_eq_error.mp h with h | ⟨abi, habi, h⟩
  · exact loadAbi_eq_error hone hboth h
  rcases check_bind_eq_error.mp h with h | ⟨-, h⟩
  · obtain ⟨hnil, rfl⟩ := bailIf_eq_error.mp h
    exact .noInstances (by simpa using hnil)
  rcases check_bind_eq_error.mp h with h | ⟨-, h⟩
  · obtain ⟨pre, inst, post, hsplit, -, hinst⟩ := forM_zipIdx_eq_error h
    exact validateInstance_eq_error (by simp [hsplit]) hinst
  rcases check_bind_eq_error.mp h with h | ⟨-, h⟩
  · obtain ⟨hnil, rfl⟩ := bailIf_eq_error.mp h
    exact .noMetrics (by simpa using hnil)
  rcases check_bind_eq_error.mp h with h | ⟨-, h⟩
  · obtain ⟨pre, m, post, hsplit, hpre, hm⟩ := forM_zipIdx_eq_error h
    obtain ⟨cause, hcause, rfl⟩ := mapError_eq_error.mp hm
    obtain ⟨text, htext, hparse⟩ := loadAbi_eq_ok_iff.mpr ⟨hone, hboth, habi⟩
    refine .metric htext hparse hsplit (fun m' hm' => ?_) (validateMetric_eq_error hcause)
    obtain ⟨i, hi⟩ := hpre m' hm'
    exact validateMetric_eq_ok_iff.mp (mapError_eq_ok.mp hi)
  · cases h

/-- A rejected configuration has the offence its error reports, in the first contract and the
first metric that are not acceptable. -/
theorem rejection_has_offence {baseDir : String} {raw : Config} {e : Error}
    (h : validate d baseDir raw = .error e) : raw.Offence d baseDir e := by
  unfold validate at h
  rcases check_bind_eq_error.mp h with h | ⟨-, h⟩
  · obtain ⟨hurl, rfl⟩ := bailIf_eq_error.mp h
    exact .rpcUrlRequired (by simpa using hurl)
  rcases check_bind_eq_error.mp h with h | ⟨-, h⟩
  · obtain ⟨hchain, rfl⟩ := bailIf_eq_error.mp h
    exact .chainIdRequired hchain
  rcases check_bind_eq_error.mp h with h | ⟨-, h⟩
  · obtain ⟨hnil, rfl⟩ := bailIf_eq_error.mp h
    exact .noContracts (by simpa using hnil)
  rcases check_bind_eq_error.mp h with h | ⟨-, h⟩
  · exact .labels (checkReservedLabels_eq_error h)
  rcases bind_eq_error.mp h with h | ⟨_, -, h⟩
  · obtain ⟨pre, ct, post, hsplit, hpre, hct⟩ := mapM_zipIdx_eq_error h
    obtain ⟨cause, hcause, rfl⟩ := mapError_eq_error.mp hct
    refine .contract hsplit (fun ct' hct' => ?_) (validateContract_eq_error hcause)
    obtain ⟨i, accepted, hi⟩ := hpre ct' hct'
    obtain ⟨abi, habi, -⟩ := validateContract_eq_ok_iff.mp (mapError_eq_ok.mp hi)
    exact ⟨abi, habi⟩
  · cases h

/-- A token whose second metric lists one return value twice. -/
def repeatedOutput : Config :=
  Reference.tokenConfig [{ function := "totalSupply" },
    { function := "totalSupply", outputs := [{ index := 0 }, { index := 0 }] }]

/-- The messages of the error, outermost first; none for a result. -/
def messages (q : DebugText) : Except Error Config → List String
  | .ok _ => []
  | .error e => e.chain q

/-- The second metric of the first contract is named, and its second output. -/
theorem repeated_output_rejected :
    ∃ e, validate reference "." repeatedOutput = .error e ∧
      e.chain reference.toDebugText = ["contracts[0] (token)", "metrics[1] (totalSupply)",
        "outputs[1]: duplicate index 0"] ∧
      repeatedOutput.Offence reference "." e := by
  have hmessages : messages reference.toDebugText (validate reference "." repeatedOutput) =
      ["contracts[0] (token)", "metrics[1] (totalSupply)", "outputs[1]: duplicate index 0"] := by
    decide +kernel
  cases hv : validate reference "." repeatedOutput with
  | ok cfg =>
    rw [hv] at hmessages
    cases hmessages
  | error e =>
    rw [hv] at hmessages
    exact ⟨e, rfl, hmessages, rejection_has_offence hv⟩

/-! ### An offence is a rejection -/

theorem LabelOffence.not_free {ctx : String} {labels : Labels} {e : Error}
    (h : LabelOffence ctx labels e) : ¬ ReservedFree labels := by
  obtain ⟨hkey, hreserved⟩ := h
  exact fun hfree => hfree _ hkey hreserved

theorem Output.Offence.not_valid {func : AbiFunction} {pre post : List Output} {o : Output}
    {e : Error} (h : o.Offence d func pre e) (hvalid : ∀ o' ∈ pre ++ o :: post, o'.Valid d func)
    (hnodup : ((pre ++ o :: post).map Output.selector).Nodup) : False := by
  have ho : o.Valid d func := hvalid o (List.mem_append_right pre List.mem_cons_self)
  cases h with
  | range hrange => exact absurd ho.index_lt (not_lt.mpr hrange)
  | @duplicate o' hmem hindex hfield =>
    rw [List.map_append, List.map_cons] at hnodup
    have hsame : o'.selector = o.selector := Prod.ext hindex hfield
    exact (List.nodup_append.mp hnodup).2.2 _ (List.mem_map_of_mem hmem) _ List.mem_cons_self hsame
  | @notTuple param hfield hparam hty =>
    obtain ⟨fi, name, component, ty, hfi, -⟩ := ho.field_numeric hfield
    simp only [resolveTupleField, hparam] at hfi
    rw [if_pos (by simpa using hty)] at hfi
    cases hfi
  | @fieldNotFound param hfield hparam hnone =>
    obtain ⟨fi, name, component, ty, hfi, -⟩ := ho.field_numeric hfield
    obtain ⟨-, param', c, hparam', hc, hname⟩ := resolveTupleField_eq_ok hfi
    obtain rfl : param = param' := Option.some.inj (hparam.symm.trans hparam')
    exact hnone c (List.mem_of_getElem? hc) hname
  | resolveField hfield hfi hcomponent hty =>
    obtain ⟨fi', name', component', ty, hfi', hcomponent', hty', -⟩ := ho.field_numeric hfield
    obtain ⟨rfl, rfl⟩ := Prod.mk.inj (Except.ok.inj (hfi.symm.trans hfi'))
    obtain rfl := Option.some.inj (hcomponent.symm.trans hcomponent')
    rw [hty] at hty'
    cases hty'
  | fieldNotScalar hfield hfi hcomponent hty hnumeric =>
    obtain ⟨fi', name', component', ty', hfi', hcomponent', hty', hnum⟩ := ho.field_numeric hfield
    obtain ⟨rfl, rfl⟩ := Prod.mk.inj (Except.ok.inj (hfi.symm.trans hfi'))
    obtain rfl := Option.some.inj (hcomponent.symm.trans hcomponent')
    obtain rfl := Except.ok.inj (hty.symm.trans hty')
    exact hnumeric hnum

theorem Metric.Offence.not_acceptable {abi : JsonAbi} {m : Metric} {e : Error}
    (h : m.Offence d abi e) : ¬ m.Acceptable d abi := by
  rintro ⟨hfunction, hname, func, hv⟩
  have hsame : ∀ {func'}, resolveFunction abi m.function = .ok func' → func' = func :=
    fun h' => Except.ok.inj (h'.symm.trans hv.resolves)
  cases h with
  | labels h => exact h.not_free hv.labels_free
  | functionRequired h => exact hfunction h
  | argsAndCalls hargs hcalls => exact hv.exclusive.elim hargs hcalls
  | functionNotFound h =>
    obtain ⟨overloads, hsome, hhead⟩ := resolveFunction_eq_ok hv.resolves
    rw [h overloads hsome] at hhead
    cases hhead
  | notView hfunc hview hpure =>
    have hres := hv.resolves
    simp only [resolveFunction, hfunc, List.head?_cons] at hres
    cases hres
  | output hfunc houtputs h =>
    obtain rfl := hsame hfunc
    refine h.not_valid (fun o' ho' => hv.outputs_valid o' (houtputs ▸ ho')) ?_
    exact houtputs ▸ hv.outputs_nodup
  | callLabels hc h => exact h.not_free (hv.calls_free _ (List.mem_of_getElem? hc))
  | callArity hfunc hc harity =>
    obtain rfl := hsame hfunc
    exact harity (hv.calls_arity _ (List.mem_of_getElem? hc))
  | arity hfunc hcalls harity =>
    obtain rfl := hsame hfunc
    exact harity (hv.args_arity hcalls)
  | badMetricName hne hbad => exact hbad (hname hne)
  | badInferredName hfunc hnames hmem hbad =>
    obtain rfl := hsame hfunc
    obtain ⟨names, hnames', hgood⟩ := hv.names_valid
    obtain rfl := Except.ok.inj (hnames.symm.trans hnames')
    exact hbad (hgood _ hmem)

/-- A contract has one ABI text at most. -/
theorem Contract.AbiText.unique {baseDir : String} {ct : Contract} {text text' : String}
    (h : ct.AbiText d baseDir text) (h' : ct.AbiText d baseDir text') : text = text' := by
  rcases h with ⟨hpath, -, rfl⟩ | ⟨hpath, -, hread⟩ <;>
    rcases h' with ⟨hpath', -, rfl⟩ | ⟨hpath', -, hread'⟩
  · rfl
  · exact absurd hpath hpath'
  · exact absurd hpath' hpath
  · exact Except.ok.inj (hread.symm.trans hread')

theorem Contract.Offence.not_acceptable {baseDir : String} {ct : Contract} {e : Error}
    (h : ct.Offence d baseDir e) (abi : JsonAbi) : ¬ ct.Acceptable d baseDir abi := by
  intro hct
  obtain ⟨text, htext, hparse⟩ := hct.hasAbi
  cases h with
  | nameRequired h => exact hct.name_ne h
  | labels h => exact h.not_free hct.labels_free
  | abiRequired hpath hinline => rcases htext with ⟨-, h, -⟩ | ⟨h, -⟩ <;> contradiction
  | abiExclusive hpath hinline => rcases htext with ⟨h, -⟩ | ⟨-, h, -⟩ <;> contradiction
  | readAbi hpath hinline h =>
    rcases htext with ⟨hempty, -⟩ | ⟨-, -, hread⟩
    · exact hpath hempty
    · rw [h] at hread
      cases hread
  | parseAbi htext' h =>
    rw [htext'.unique htext, hparse] at h
    cases h
  | noInstances h => exact hct.instances_ne h
  | addressRequired hinst h => exact (hct.instances _ (List.mem_of_getElem? hinst)).address_ne h
  | instanceLabels hinst h =>
    exact h.not_free (hct.instances _ (List.mem_of_getElem? hinst)).labels_free
  | noMetrics h => exact hct.metrics_ne h
  | @metric _ _ pre _ m _ htext' habi hmetrics _ h =>
    rw [htext'.unique htext, hparse] at habi
    obtain rfl := Except.ok.inj habi
    have hmem : m ∈ ct.metrics := hmetrics ▸ List.mem_append_right pre List.mem_cons_self
    exact h.not_acceptable (hct.metrics m hmem)

/-- A configuration with an offence is rejected, with this error or an earlier one. -/
theorem Config.Offence.rejected {baseDir : String} {raw : Config} {e : Error}
    (h : raw.Offence d baseDir e) : ∃ e', validate d baseDir raw = .error e' := by
  cases hv : validate d baseDir raw with
  | error e' => exact ⟨e', rfl⟩
  | ok cfg =>
    exfalso
    unfold validate at hv
    simp only [↓check_bind_eq_ok, bind_eq_ok, bailIf_eq_ok, checkReservedLabels_eq_ok_iff,
      validateContracts_eq_ok_iff] at hv
    obtain ⟨hurl, hchain, hne, hfree, contracts, hcts, -⟩ := hv
    cases h with
    | rpcUrlRequired h => simp [h] at hurl
    | chainIdRequired h => exact hchain h
    | noContracts h => simp [h] at hne
    | labels h => exact h.not_free hfree
    | @contract pre _ ct _ hcontracts _ h =>
      have hmem : ct ∈ raw.contracts := hcontracts ▸ List.mem_append_right pre List.mem_cons_self
      obtain ⟨i, hi⟩ := List.mem_iff_getElem?.mp hmem
      obtain ⟨ct', -, abi, habi, -⟩ := forall₂_getElem? hcts hi
      exact h.not_acceptable abi habi

end EvmExporter
