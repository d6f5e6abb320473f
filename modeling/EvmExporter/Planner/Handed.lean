import EvmExporter.Planner.Help

/-! The names the planner comes to make a gauge for. It makes the gauges in the order in which
a hash map is iterated and stops at the first one that is refused, so which names it comes to
depends on that order. In one order or another it comes to every name the places emit,
provided every place resolves and no help texts conflict, and to no other name. -/

namespace EvmExporter

open Lib

/-- The same libraries, with hash maps iterated in another order. -/
def Deps.withHashOrder (d : Deps) (order : List String → List String)
    (hperm : ∀ keys, (order keys).Perm keys) : Deps :=
  { d with hashOrder := order, hashOrder_perm := hperm }

variable {d : Deps} {order : List String → List String} {hperm : ∀ keys, (order keys).Perm keys}
  {cfg : Config}

/-! ### What never looks at the order -/

theorem snakeFrom_withHashOrder (prev : Option Char) (cs : List Char) :
    snakeFrom (d.withHashOrder order hperm) prev cs = snakeFrom d prev cs := by
  induction cs generalizing prev with
  | nil => rfl
  | cons c cs ih =>
    rw [snakeFrom, snakeFrom, ih]
    rfl

theorem outputMetricName_withHashOrder :
    outputMetricName (d.withHashOrder order hperm) = outputMetricName d := by
  funext base func o
  simp only [outputMetricName, camelToSnake, snakeFrom_withHashOrder]

theorem resolveOutputs_withHashOrder :
    resolveOutputs (d.withHashOrder order hperm) = resolveOutputs d := by
  funext m sc func
  simp only [resolveOutputs, inferMetricNames, metricBase, camelToSnake, snakeFrom_withHashOrder,
    outputMetricName_withHashOrder]

theorem buildCall_withHashOrder : buildCall (d.withHashOrder order hperm) = buildCall d := by
  funext cfg abi addr p acc
  simp only [buildCall, resolveOutputs_withHashOrder]
  rfl

theorem buildContract_withHashOrder (cfg : Config) :
    buildContract (d.withHashOrder order hperm) cfg = buildContract d cfg := by
  have hmetric : buildMetric (d.withHashOrder order hperm) cfg = buildMetric d cfg := by
    funext abi addr ct inst acc m
    simp only [buildMetric, buildCall_withHashOrder]
  have hinstance : buildInstance (d.withHashOrder order hperm) cfg = buildInstance d cfg := by
    funext abi ct acc inst
    simp only [buildInstance, hmetric]
    rfl
  funext acc ct
  simp only [buildContract, hinstance]

/-! ### The loop over the contracts -/

/-- What validation leaves open at a place: its address parses, and its arguments convert and
encode. -/
def Place.Resolves (d : Deps) (p : Place) : Prop :=
  (∃ addr, instanceAddress d p.contract p.inst = .ok addr) ∧
    ∃ abi func data, contractAbi p.contract = .ok abi ∧ lookupFunction abi p = .ok func ∧
      encodeCall d func p = .ok data

/-- The configurations with a plan, as far as the gauges have no say in it. -/
structure Config.Plannable (d : Deps) (cfg : Config) : Prop where
  resolves : ∀ p ∈ places cfg, p.Resolves d
  agrees : ¬ ∃ name, HelpConflict d cfg name

theorem resolveSite_succeeds_iff (hv : cfg.Valid d) {p : Place} (hp : p ∈ places cfg) :
    (∃ s, resolveSite d p = .ok s) ↔ p.Resolves d := by
  constructor
  · rintro ⟨s, h⟩
    obtain ⟨rfl, hres⟩ := resolveSite_eq_ok h
    obtain ⟨abi, habi, hfunc⟩ := hres.function_eq
    exact ⟨⟨_, hres.address_eq⟩, abi, _, _, habi, hfunc, hres.callData_eq⟩
  · rintro ⟨⟨addr, haddr⟩, abi, func, data, habi, hfunc, hdata⟩
    obtain ⟨abi', func', hval⟩ := place_valid hv hp
    obtain rfl := Except.ok.inj (hval.abi_eq.symm.trans habi)
    obtain rfl := Except.ok.inj (hval.function_eq.symm.trans hfunc)
    obtain ⟨names, hnames, -⟩ := hval.metric_valid.names_valid
    have hout : resolveOutputs d p.metric p.subcall func' =
        .ok (names, selectedOutputs p.metric.outputs func') := by
      rw [resolveOutputs_eq _ _ _ hval.outputs_eq, hnames]
      rfl
    have hfields : ∀ a ∈ (names.map (qualify p.contract)).zip
        (selectedOutputs p.metric.outputs func'), ∃ e, resolveEmit p func' a = .ok e := by
      intro a ha
      obtain ⟨fi, hfi⟩ :=
        (selectedOutputs_valid hval.metric_valid (List.of_mem_zip ha).2).fieldIndex_eq_ok
      exact ⟨_, bind_eq_ok.mpr ⟨fi, mapError_eq_ok.mpr hfi, rfl⟩⟩
    obtain ⟨emits, hemits⟩ := mapM_succeeds_iff.mpr hfields
    simp only [resolveSite, bind_eq_ok, pure_eq_ok, mapError_eq_ok]
    exact ⟨_, abi', habi, addr, haddr, func', hfunc, data, hdata, _, hout, emits, hemits, rfl⟩

/-- The loop completes exactly on the plannable configurations. -/
theorem contracts_succeed_iff (hv : cfg.Valid d) :
    (∃ acc, cfg.contracts.foldlM (buildContract d cfg) .empty = .ok acc) ↔ cfg.Plannable d := by
  have hsites : (∃ sites, sitesOf d cfg = .ok sites) ↔ ∀ p ∈ places cfg, p.Resolves d :=
    mapM_succeeds_iff.trans (forall₂_congr fun p hp => resolveSite_succeeds_iff hv hp)
  constructor
  · rintro ⟨acc, h⟩
    obtain ⟨sites, hok, hfold⟩ := foldlM_bind_eq_ok.mp (buildContracts_eq_ok h)
    exact ⟨hsites.mp ⟨sites, hok⟩,
      (helpsAgree_iff hv hok).mp (addSites_succeeds_iff.mp ⟨acc, hfold⟩)⟩
  · rintro ⟨hresolves, hagree⟩
    obtain ⟨sites, hok⟩ := hsites.mpr hresolves
    obtain ⟨acc, hfold⟩ := addSites_succeeds_iff.mpr ((helpsAgree_iff hv hok).mpr hagree)
    exact ⟨acc, buildContracts_of_places hv.populated
      (foldlM_bind_eq_ok.mpr ⟨sites, hok, hfold⟩)⟩

/-! ### The loop over the names -/

/-- The names noted by the loop over the contracts are those the places emit. -/
theorem mem_keysByMetric_iff (hv : cfg.Valid d) {acc : Acc}
    (h : cfg.contracts.foldlM (buildContract d cfg) .empty = .ok acc) {name : String} :
    name ∈ acc.keysByMetric ↔ ∃ p ∈ places cfg, p.Emits d name := by
  obtain ⟨sites, hsites, hr⟩ := reflects_of_contracts h
  rw [hr.names, mem_rowNames_iff hv hsites]

/-- The planner hands the name to `GaugeVec::new`: the loop over the contracts completes,
and the loop over the names gets as far as this one. -/
def HandedToGaugeVec (d : Deps) (cfg : Config) (registry : Registry) (name : String) : Prop :=
  ∃ acc pre post s, cfg.contracts.foldlM (buildContract d cfg) .empty = .ok acc ∧
    d.hashOrder acc.keysByMetric.keys = pre ++ name :: post ∧
    pre.foldlM (registerGauge d acc) (registry, ∅) = .ok s

/-- The order that starts with the name, where the name is among the keys. -/
def startingWith (name : String) (keys : List String) : List String :=
  if name ∈ keys then name :: keys.erase name else keys

theorem startingWith_perm (name : String) (keys : List String) :
    (startingWith name keys).Perm keys := by
  unfold startingWith
  split_ifs with h
  · exact (List.perm_cons_erase h).symm
  · exact .refl _

/-- A name handed to `GaugeVec::new` is one that the places of a plannable configuration emit. -/
theorem HandedToGaugeVec.emitted (hv : cfg.Valid d) {registry : Registry} {name : String}
    (h : HandedToGaugeVec (d.withHashOrder order hperm) cfg registry name) :
    cfg.Plannable d ∧ ∃ p ∈ places cfg, p.Emits d name := by
  obtain ⟨acc, pre, post, s, hacc, horder, -⟩ := h
  rw [buildContract_withHashOrder] at hacc
  have hmem : name ∈ acc.keysByMetric := mem_hashOrder.mp (by rw [horder]; simp)
  exact ⟨(contracts_succeed_iff hv).mp ⟨acc, hacc⟩, (mem_keysByMetric_iff hv hacc).mp hmem⟩

/-- In some order of iteration every emitted name is the first to be handed over. -/
theorem exists_order_handed (hv : cfg.Valid d) (hplan : cfg.Plannable d) (registry : Registry)
    {name : String} (hname : ∃ p ∈ places cfg, p.Emits d name) :
    HandedToGaugeVec (d.withHashOrder (startingWith name) (startingWith_perm name)) cfg registry
      name := by
  obtain ⟨acc, hacc⟩ := (contracts_succeed_iff hv).mpr hplan
  have hmem := (mem_keysByMetric_iff hv hacc).mpr hname
  refine ⟨acc, [], acc.keysByMetric.keys.erase name, _, ?_, ?_, rfl⟩
  · rw [buildContract_withHashOrder]
    exact hacc
  · exact if_pos (AList.mem_keys.mp hmem)

end EvmExporter
