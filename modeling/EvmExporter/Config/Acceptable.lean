import EvmExporter.Config.Validate

/-! What validation accepts, said without the order of its checks. A metric, a contract and a
configuration are acceptable by conditions on their parts; validation succeeds exactly on
the acceptable ones, and all it changes is that each contract gets its parsed ABI. -/

namespace EvmExporter

open Lib

variable (d : Deps)

/-! ### Acceptable parts -/

structure Metric.Acceptable (abi : JsonAbi) (m : Metric) : Prop where
  function_ne : m.function ≠ ""
  name_valid : m.name ≠ "" → isValidPromName m.name
  valid : ∃ func, m.Valid d abi func

structure Instance.Acceptable (inst : Instance) : Prop where
  address_ne : inst.address ≠ ""
  labels_free : ReservedFree inst.labels

/-- The text of the ABI stands in the contract or in the file it names, but not in both. -/
def Contract.AbiText (baseDir : String) (ct : Contract) (text : String) : Prop :=
  (ct.abiPath = "" ∧ ct.abiInline ≠ "" ∧ text = ct.abiInline) ∨
    (ct.abiPath ≠ "" ∧ ct.abiInline = "" ∧
      d.readToString (joinPath baseDir ct.abiPath) = .ok text)

structure Contract.Acceptable (baseDir : String) (ct : Contract) (abi : JsonAbi) : Prop where
  name_ne : ct.name ≠ ""
  labels_free : ReservedFree ct.labels
  hasAbi : ∃ text, ct.AbiText d baseDir text ∧ d.parseAbi text = .ok abi
  instances_ne : ct.instances ≠ []
  instances : ∀ inst ∈ ct.instances, inst.Acceptable
  metrics_ne : ct.metrics ≠ []
  metrics : ∀ m ∈ ct.metrics, m.Acceptable d abi

/-- The contract is accepted as this one, which holds its ABI. -/
def Contract.AcceptedAs (baseDir : String) (ct ct' : Contract) : Prop :=
  ∃ abi, ct.Acceptable d baseDir abi ∧ ct' = { ct with parsedAbi := some abi }

structure Config.AcceptedAs (baseDir : String) (raw cfg : Config) : Prop where
  rpcUrl_ne : raw.chain.rpcUrl ≠ ""
  chainId_ne : raw.chain.chainId ≠ 0
  contracts_ne : raw.contracts ≠ []
  labels_free : ReservedFree raw.labels
  contracts : List.Forall₂ (Contract.AcceptedAs d baseDir) raw.contracts cfg.contracts
  rest_eq : cfg = { raw with contracts := cfg.contracts }

variable {d}

/-! ### Labels and outputs -/

theorem checkReservedLabels_eq_ok_iff {ctx : String} {labels : Labels} :
    checkReservedLabels ctx labels = .ok () ↔ ReservedFree labels := by
  rw [checkReservedLabels, forM_eq_ok]
  simp only [bailIf_eq_ok, ReservedFree]

theorem validateField_of_valid {func : AbiFunction} {o : Output} (ho : o.Valid d func) (i : ℕ) :
    validateField d func i o = .ok () := by
  unfold validateField
  by_cases hfield : o.field = ""
  · simp [hfield]
  · obtain ⟨fi, name, component, ty, hfi, hcomponent, hty, hnum⟩ := ho.field_numeric hfield
    simp [hfield, hfi, hcomponent, hty, hnum, bailIf, Except.mapError, bind, Except.bind]

theorem validateOutput_of_valid {func : AbiFunction} {o : Output} (ho : o.Valid d func)
    {seen : List (ℕ × String)} (hnew : (o.index, o.field) ∉ seen) (i : ℕ) :
    validateOutput d func seen (o, i) = .ok ((o.index, o.field) :: seen) := by
  have hlt : ¬ func.outputs.length ≤ o.index := not_le.mpr ho.index_lt
  simp [validateOutput, bailIf, hlt, hnew, validateField_of_valid ho, bind, Except.bind, pure,
    Except.pure]

theorem validateOutputs_of_valid {func : AbiFunction} {outputs : List Output}
    (hvalid : ∀ o ∈ outputs, o.Valid d func)
    (hnd : (outputs.map fun o => (o.index, o.field)).Nodup) :
    validateOutputs d func outputs = .ok () := by
  have hloop : ∀ (outputs : List Output) (k : ℕ) (seen : List (ℕ × String)),
      (∀ o ∈ outputs, o.Valid d func) → (outputs.map fun o => (o.index, o.field)).Nodup →
      (∀ o ∈ outputs, (o.index, o.field) ∉ seen) →
      ∃ seen', (outputs.zipIdx k).foldlM (validateOutput d func) seen = .ok seen' := by
    intro outputs
    induction outputs with
    | nil => exact fun k seen _ _ _ => ⟨seen, rfl⟩
    | cons o outputs ih =>
      intro k seen hvalid hnd hnew
      obtain ⟨hfirst, hnd⟩ := List.nodup_cons.mp hnd
      obtain ⟨ho, hvalid⟩ := List.forall_mem_cons.mp hvalid
      obtain ⟨hone, hnew⟩ := List.forall_mem_cons.mp hnew
      rw [List.zipIdx_cons, List.foldlM_cons, validateOutput_of_valid ho hone]
      refine ih (k + 1) _ hvalid hnd fun o' ho' hmem => ?_
      rcases List.mem_cons.mp hmem with heq | hmem
      · exact hfirst (List.mem_map.mpr ⟨o', ho', heq⟩)
      · exact hnew o' ho' hmem
  obtain ⟨seen, hseen⟩ := hloop outputs 0 [] hvalid hnd (by simp)
  rw [validateOutputs, hseen]
  rfl

/-! ### Metrics -/

theorem validateCall_eq_ok_iff {func : AbiFunction} {c : Call} {i : ℕ} :
    validateCall func (c, i) = .ok () ↔
      ReservedFree c.labels ∧ c.args.length = func.inputs.length := by
  simp only [validateCall, check_bind_eq_ok, bailIf_eq_ok, not_not, checkReservedLabels_eq_ok_iff]

theorem validateArity_eq_ok_iff {func : AbiFunction} {m : Metric} :
    validateArity func m = .ok () ↔
      (∀ c ∈ m.calls, ReservedFree c.labels ∧ c.args.length = func.inputs.length) ∧
        (m.calls = [] → m.args.length = func.inputs.length) := by
  refine ⟨validateArity_eq_ok, ?_⟩
  rintro ⟨hcalls, hargs⟩
  unfold validateArity
  by_cases hnil : m.calls = []
  · simp [hnil, hargs hnil]
  · rw [if_pos (by simpa using hnil)]
    exact (forM_zipIdx_eq_ok_iff fun c i => validateCall_eq_ok_iff).mpr hcalls

theorem validateMetric_eq_ok_iff {abi : JsonAbi} {m : Metric} :
    validateMetric d abi m = .ok () ↔ m.Acceptable d abi := by
  constructor
  · intro h
    have hvalid := validateMetric_valid h
    unfold validateMetric at h
    simp only [↓check_bind_eq_ok, bind_eq_ok, bailIf_eq_ok] at h
    obtain ⟨-, hfunction, -, -, -, -, -, hname, -⟩ := h
    refine ⟨by simpa using hfunction, fun hne => ?_, hvalid⟩
    by_contra hbad
    exact hname ⟨by simpa using hne, hbad⟩
  · rintro ⟨hfunction, hname, func, hv⟩
    obtain ⟨names, hnames, hgood⟩ := hv.names_valid
    have hexclusive : ¬ (¬ m.args.isEmpty ∧ ¬ m.calls.isEmpty) := by
      rcases hv.exclusive with h | h <;> simp [h]
    have harity := validateArity_eq_ok_iff.mpr
      ⟨fun c hc => ⟨hv.calls_free c hc, hv.calls_arity c hc⟩, hv.args_arity⟩
    unfold validateMetric
    simp only [↓check_bind_eq_ok, bind_eq_ok, bailIf_eq_ok, checkReservedLabels_eq_ok_iff,
      forM_eq_ok]
    refine ⟨hv.labels_free, by simpa using hfunction, hexclusive, func, hv.resolves,
      validateOutputs_of_valid hv.outputs_valid hv.outputs_nodup, harity, ?_, names, hnames, ?_⟩
    · rintro ⟨hne, hbad⟩
      exact hbad (hname (by simpa using hne))
    · exact fun n hn hbad => hbad (hgood n hn)

theorem validateMetrics_eq_ok_iff {abi : JsonAbi} {metrics : List Metric} :
    (metrics.zipIdx.forM fun a => (validateMetric d abi a.1).mapError
      (Error.context (.metric a.2 (metricDescriptor a.1)))) = .ok () ↔
      ∀ m ∈ metrics, m.Acceptable d abi := by
  apply forM_zipIdx_eq_ok_iff
  exact fun m mi => mapError_eq_ok.trans validateMetric_eq_ok_iff

/-! ### Contracts -/

theorem validateInstance_eq_ok_iff {inst : Instance} {j : ℕ} :
    validateInstance (inst, j) = .ok () ↔ inst.Acceptable := by
  simp only [validateInstance, check_bind_eq_ok, bailIf_eq_ok, checkReservedLabels_eq_ok_iff]
  constructor
  · rintro ⟨haddr, hfree⟩
    exact ⟨by simpa using haddr, hfree⟩
  · rintro ⟨haddr, hfree⟩
    exact ⟨by simpa using haddr, hfree⟩

theorem validateInstances_eq_ok_iff {instances : List Instance} :
    instances.zipIdx.forM validateInstance = .ok () ↔ ∀ inst ∈ instances, inst.Acceptable :=
  forM_zipIdx_eq_ok_iff fun _ _ => validateInstance_eq_ok_iff

theorem loadAbi_eq_ok_iff {baseDir : String} {ct : Contract} {abi : JsonAbi} :
    (∃ text, ct.AbiText d baseDir text ∧ d.parseAbi text = .ok abi) ↔
      ¬ (ct.abiPath.isEmpty ∧ ct.abiInline.isEmpty) ∧
        ¬ (¬ ct.abiPath.isEmpty ∧ ¬ ct.abiInline.isEmpty) ∧ loadAbi d ct baseDir = .ok abi := by
  unfold Contract.AbiText loadAbi
  by_cases hpath : ct.abiPath = "" <;> by_cases hinline : ct.abiInline = "" <;>
    simp [hpath, hinline, bind_eq_ok]

theorem validateContract_eq_ok_iff {baseDir : String} {ct ct' : Contract} :
    validateContract d baseDir ct = .ok ct' ↔ ct.AcceptedAs d baseDir ct' := by
  unfold validateContract
  simp only [↓check_bind_eq_ok, bind_eq_ok, bailIf_eq_ok, pure_eq_ok, checkReservedLabels_eq_ok_iff,
    validateInstances_eq_ok_iff, validateMetrics_eq_ok_iff]
  constructor
  · rintro ⟨hname, hfree, hone, hboth, abi, habi, hinst, hinsts, hmet, hmets, rfl⟩
    exact ⟨abi, ⟨by simpa using hname, hfree, loadAbi_eq_ok_iff.mpr ⟨hone, hboth, habi⟩,
      by simpa using hinst, hinsts, by simpa using hmet, hmets⟩, rfl⟩
  · rintro ⟨abi, hct, rfl⟩
    obtain ⟨hone, hboth, habi⟩ := loadAbi_eq_ok_iff.mp hct.hasAbi
    exact ⟨by simpa using hct.name_ne, hct.labels_free, hone, hboth, abi, habi,
      by simpa using hct.instances_ne, hct.instances, by simpa using hct.metrics_ne, hct.metrics,
      rfl⟩

/-! ### Configurations -/

theorem validateContracts_eq_ok_iff {baseDir : String} {cts cts' : List Contract} :
    (cts.zipIdx.mapM fun a => (validateContract d baseDir a.1).mapError
      (Error.context (.contract a.2 a.1.name))) = .ok cts' ↔
      List.Forall₂ (Contract.AcceptedAs d baseDir) cts cts' := by
  apply mapM_zipIdx_eq_ok
  exact fun ct i ct' => mapError_eq_ok.trans validateContract_eq_ok_iff

/-- Validation accepts exactly the acceptable configurations, and returns them with the parsed
ABIs in place and nothing else changed. -/
theorem validate_accepts_iff {baseDir : String} {raw cfg : Config} :
    validate d baseDir raw = .ok cfg ↔ raw.AcceptedAs d baseDir cfg := by
  unfold validate
  simp only [↓check_bind_eq_ok, bind_eq_ok, bailIf_eq_ok, pure_eq_ok, checkReservedLabels_eq_ok_iff,
    validateContracts_eq_ok_iff]
  constructor
  · rintro ⟨hurl, hchain, hne, hfree, contracts, hcts, rfl⟩
    exact ⟨by simpa using hurl, hchain, by simpa using hne, hfree, hcts, rfl⟩
  · rintro ⟨hurl, hchain, hne, hfree, hcts, hrest⟩
    exact ⟨by simpa using hurl, hchain, by simpa using hne, hfree, cfg.contracts, hcts, hrest.symm⟩

end EvmExporter
