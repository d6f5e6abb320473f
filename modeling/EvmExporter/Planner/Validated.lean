import EvmExporter.Planner.Sites

/-! Sites of an accepted configuration. The planner looks up the function the
validator resolved, infers the names it checked and finds the components it found; no
label level carries a reserved key. -/

namespace EvmExporter

open Lib

variable {d : Deps} {cfg : Config}

/-! ### Places -/

theorem mem_places {p : Place} :
    p ∈ places cfg ↔ p.contract ∈ cfg.contracts ∧ p.inst ∈ p.contract.instances ∧
      p.metric ∈ p.contract.metrics ∧ p.subcall ∈ expandMetricCalls p.metric := by
  simp only [places, List.mem_flatMap, List.mem_map]
  constructor
  · rintro ⟨ct, hct, inst, hinst, m, hm, sc, hsc, rfl⟩
    exact ⟨hct, hinst, hm, hsc⟩
  · rintro ⟨hct, hinst, hm, hsc⟩
    exact ⟨_, hct, _, hinst, _, hm, _, hsc, rfl⟩

/-- What validation establishes of a place: the function of its metric, the number of
its arguments and labels free of reserved keys. -/
structure Place.Valid (d : Deps) (cfg : Config) (p : Place) (abi : JsonAbi) (func : AbiFunction) :
    Prop where
  abi_eq : contractAbi p.contract = .ok abi
  function_eq : lookupFunction abi p = .ok func
  metric_valid : p.metric.Valid d abi func
  outputs_eq : p.subcall.outputs = p.metric.outputs
  arity : p.subcall.args.length = func.inputs.length
  labels_free : ReservedFree (mergeLabels cfg p)

theorem expandMetricCalls_valid {abi : JsonAbi} {m : Metric} {func : AbiFunction}
    (hm : m.Valid d abi func) {sc : Subcall} (hsc : sc ∈ expandMetricCalls m) :
    sc.args.length = func.inputs.length ∧ ReservedFree sc.callLabels := by
  unfold expandMetricCalls at hsc
  split_ifs at hsc with h
  · obtain rfl := List.mem_singleton.mp hsc
    exact ⟨hm.args_arity (by simpa using h), by simp [ReservedFree]⟩
  · obtain ⟨c, hc, rfl⟩ := List.mem_map.mp hsc
    exact ⟨hm.calls_arity c hc, hm.calls_free c hc⟩

theorem mergeLabels_reservedFree {p : Place} (htop : ReservedFree cfg.labels)
    (hct : ReservedFree p.contract.labels) (hinst : ReservedFree p.inst.labels)
    (hcall : ReservedFree p.subcall.callLabels) : ReservedFree (mergeLabels cfg p) := by
  intro k hk
  simp only [mergeLabels, SortedMap.mem_keys_insertAll, SortedMap.keys_empty, List.not_mem_nil,
    or_false] at hk
  rcases hk with hk | hk | hk | hk
  · exact hcall k hk
  · exact hinst k hk
  · exact hct k hk
  · exact htop k hk

theorem place_valid (hv : cfg.Valid d) {p : Place} (hp : p ∈ places cfg) :
    ∃ abi func, p.Valid d cfg abi func := by
  obtain ⟨hct, hinst, hm, hsc⟩ := mem_places.mp hp
  have hctv := hv.contracts_valid _ hct
  obtain ⟨abi, habi, hmetrics⟩ := hctv.metrics_valid
  obtain ⟨func, hfunc⟩ := hmetrics _ hm
  obtain ⟨overloads, ho, hhead⟩ := resolveFunction_eq_ok hfunc.resolves
  obtain ⟨hfunction, houtputs⟩ := expandMetricCalls_function hsc
  obtain ⟨harity, hfree⟩ := expandMetricCalls_valid hfunc hsc
  have hcontract : contractAbi p.contract = .ok abi := by rw [contractAbi, habi]
  have hlookup : lookupFunction abi p = .ok func := by
    simp only [lookupFunction, hfunction, ho, hhead]
  have hmerged : ReservedFree (mergeLabels cfg p) := mergeLabels_reservedFree hv.labels_free
    hctv.labels_free (hctv.instances_free _ hinst) hfree
  exact ⟨abi, func, hcontract, hlookup, hfunc, houtputs, harity, hmerged⟩

/-! ### Outputs -/

/-- The default outputs select return values too. -/
theorem selectedOutputs_valid {abi : JsonAbi} {m : Metric} {func : AbiFunction}
    (hm : m.Valid d abi func) {o : Output} (ho : o ∈ selectedOutputs m.outputs func) :
    o.Valid d func := by
  rcases mem_selectedOutputs ho with ho | ⟨i, hi, rfl⟩
  · exact hm.outputs_valid o ho
  · exact ⟨hi, fun hfield => absurd rfl hfield⟩

/-- The planner finds the field of a valid output. -/
theorem Output.Valid.fieldIndex_eq_ok {func : AbiFunction} {o : Output} (ho : o.Valid d func) :
    ∃ fi, fieldIndex func o = .ok fi := by
  by_cases hfield : o.field = ""
  · exact ⟨none, by simp [fieldIndex, hfield]⟩
  · obtain ⟨fi, name, -, -, hfi, -⟩ := ho.field_numeric hfield
    exact ⟨some fi, by simp [fieldIndex, hfield, hfi, bind, Except.bind, pure, Except.pure]⟩

/-- A field that was found is a component of the output. -/
theorem fieldIndex_eq_some {func : AbiFunction} {o : Output} {fi : ℕ}
    (h : fieldIndex func o = .ok (some fi)) :
    ∃ param, func.outputs[o.index]? = some param ∧ fi < param.components.length := by
  unfold fieldIndex at h
  split_ifs at h
  · cases h
  · obtain ⟨⟨i, name⟩, hi, hfi⟩ := bind_eq_ok.mp h
    obtain rfl := Option.some.inj (pure_eq_ok.mp hfi)
    obtain ⟨-, param, component, hparam, hcomp, -⟩ := resolveTupleField_eq_ok hi
    exact ⟨param, hparam, (List.getElem?_eq_some_iff.mp hcomp).1⟩

/-! ### Sites -/

/-- What resolving a place has found. -/
structure Site.Resolved (d : Deps) (s : Site) : Prop where
  address_eq : instanceAddress d s.contract s.inst = .ok s.address
  function_eq : ∃ abi, contractAbi s.contract = .ok abi ∧ lookupFunction abi s.toPlace = .ok s.func
  callData_eq : encodeCall d s.func s.toPlace = .ok s.callData
  emits_eq : ∃ names outputs, resolveOutputs d s.metric s.subcall s.func = .ok (names, outputs) ∧
    List.Forall₂ (fun a e => resolveEmit s.toPlace s.func a = .ok e)
      ((names.map (qualify s.contract)).zip outputs) s.emits

theorem resolveSite_eq_ok {p : Place} {s : Site} (h : resolveSite d p = .ok s) :
    s.toPlace = p ∧ s.Resolved d := by
  simp only [resolveSite, bind_eq_ok, pure_eq_ok, mapError_eq_ok] at h
  obtain ⟨abi, habi, addr, haddr, func, hfunc, callData, hdata, ⟨names, outputs⟩, hout, emits,
    hemits, rfl⟩ := h
  exact ⟨rfl, haddr, ⟨abi, habi, hfunc⟩, hdata, names, outputs, hout, mapM_eq_ok.mp hemits⟩

theorem resolveEmit_eq_ok {p : Place} {func : AbiFunction} {a : String × Output} {e : Emit}
    (h : resolveEmit p func a = .ok e) :
    e.name = a.1 ∧ e.output = a.2 ∧ fieldIndex func a.2 = .ok e.fieldIndex := by
  simp only [resolveEmit, bind_eq_ok, pure_eq_ok, mapError_eq_ok] at h
  obtain ⟨fi, hfi, rfl⟩ := h
  exact ⟨rfl, rfl, hfi⟩

/-- The sites are those of the places, in order. -/
theorem sitesOf_eq_ok {sites : List Site} (h : sitesOf d cfg = .ok sites) :
    List.Forall₂ (fun p s => s.toPlace = p ∧ s.Resolved d) (places cfg) sites :=
  (mapM_eq_ok.mp h).imp fun _ _ => resolveSite_eq_ok

theorem sitesOf_places {sites : List Site} (h : sitesOf d cfg = .ok sites) :
    sites.map Site.toPlace = places cfg := by
  have hp := map_eq_map_of_forall₂ ((sitesOf_eq_ok h).imp fun p s hs => hs.1.symm)
  rw [← hp]
  exact List.map_id _

theorem mem_sites {sites : List Site} (h : sitesOf d cfg = .ok sites) {s : Site} (hs : s ∈ sites) :
    s.toPlace ∈ places cfg ∧ s.Resolved d := by
  obtain ⟨p, hp, hps⟩ := mapM_exists h s hs
  obtain ⟨rfl, hres⟩ := resolveSite_eq_ok hps
  exact ⟨hp, hres⟩

/-- A site of an accepted configuration calls the function its metric was validated for. -/
theorem site_valid (hv : cfg.Valid d) {sites : List Site} (h : sitesOf d cfg = .ok sites)
    {s : Site} (hs : s ∈ sites) : ∃ abi, s.toPlace.Valid d cfg abi s.func := by
  obtain ⟨hp, hres⟩ := mem_sites h hs
  obtain ⟨abi, func, hval⟩ := place_valid hv hp
  obtain ⟨abi', habi', hfunc'⟩ := hres.function_eq
  obtain rfl := Except.ok.inj (hval.abi_eq.symm.trans habi')
  obtain rfl := Except.ok.inj (hval.function_eq.symm.trans hfunc')
  exact ⟨abi, hval⟩

/-- The emitted outputs carry the validated names, prefixed, in the order of the selection. -/
theorem site_emits (hv : cfg.Valid d) {sites : List Site} (h : sitesOf d cfg = .ok sites)
    {s : Site} (hs : s ∈ sites) : ∃ names, inferMetricNames d s.metric s.func = .ok names ∧
      (∀ n ∈ names, isValidPromName n) ∧
      s.emits.map Emit.name = names.map (qualify s.contract) ∧
      s.emits.map Emit.output = selectedOutputs s.metric.outputs s.func ∧
      ∀ e ∈ s.emits, fieldIndex s.func e.output = .ok e.fieldIndex := by
  obtain ⟨abi, hval⟩ := site_valid hv h hs
  obtain ⟨names, hnames, hgood⟩ := hval.metric_valid.names_valid
  obtain ⟨names', outputs, hout, hemits⟩ := (mem_sites h hs).2.emits_eq
  rw [resolveOutputs_eq _ _ _ hval.outputs_eq, hnames] at hout
  obtain ⟨rfl, rfl⟩ := Prod.mk.inj (Except.ok.inj hout)
  have hlen : (names.map (qualify s.contract)).length =
      (selectedOutputs s.metric.outputs s.func).length := by
    simpa using inferMetricNames_length hnames
  have hproj := hemits.imp fun a e he => resolveEmit_eq_ok he
  have hfst := map_eq_map_of_forall₂ (hproj.imp fun a e he => he.1.symm)
  have hsnd := map_eq_map_of_forall₂ (hproj.imp fun a e he => he.2.1.symm)
  have hfield : ∀ e ∈ s.emits, fieldIndex s.func e.output = .ok e.fieldIndex := by
    intro e he
    obtain ⟨a, -, ha⟩ := exists_of_forall₂ hproj e he
    rw [ha.2.1]
    exact ha.2.2
  rw [List.map_fst_zip hlen.le] at hfst
  rw [List.map_snd_zip hlen.ge] at hsnd
  exact ⟨names, hnames, hgood, hfst.symm, hsnd.symm, hfield⟩

end EvmExporter
