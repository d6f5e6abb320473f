import EvmExporter.Planner.Schema
import EvmExporter.Reference

/-! Why planning an accepted configuration can fail. The planner derives a second time
what validation checked: the overload, the arity, the outputs, their names and fields.
On an accepted configuration it derives the same, so of its errors only those remain
that validation does not look for: an address or an argument that does not parse, two
help texts for one name, and names that Prometheus refuses. -/

namespace EvmExporter

open Lib

variable {d : Deps} {cfg : Config}

/-! ### Places -/

/-- The planner finds at the place what validation found there, and its own checks pass. -/
structure Place.Covered (d : Deps) (p : Place) (abi : JsonAbi) (func : AbiFunction)
    (names : List String) : Prop where
  abi_eq : contractAbi p.contract = .ok abi
  resolves : resolveFunction abi p.metric.function = .ok func
  function_eq : lookupFunction abi p = .ok func
  arity : p.subcall.args.length = func.inputs.length
  packs : ∀ vals, convertArgs d func p.subcall.args = .ok vals →
    ∃ data, d.abiEncodeInput func vals = .ok data
  names_eq : inferMetricNames d p.metric func = .ok names
  names_valid : ∀ n ∈ names, isValidPromName n
  outputs_eq : resolveOutputs d p.metric p.subcall func =
    .ok (names, selectedOutputs p.metric.outputs func)
  outputs_valid : ∀ o ∈ selectedOutputs p.metric.outputs func, o.Valid d func

theorem place_covered (hv : cfg.Valid d) (hencode : d.EncodesMatching) {p : Place}
    (hp : p ∈ places cfg) : ∃ abi func names, p.Covered d abi func names := by
  obtain ⟨abi, func, hval⟩ := place_valid hv hp
  have hm := hval.metric_valid
  obtain ⟨names, hnames, hgood⟩ := hm.names_valid
  have hpacks : ∀ vals, convertArgs d func p.subcall.args = .ok vals →
      ∃ data, d.abiEncodeInput func vals = .ok data := by
    intro vals hvals
    exact hencode func vals (convertArgs_matches hvals)
  have houtputs : resolveOutputs d p.metric p.subcall func =
      .ok (names, selectedOutputs p.metric.outputs func) := by
    rw [resolveOutputs_eq _ _ _ hval.outputs_eq, hnames]
    rfl
  exact ⟨abi, func, names, hval.abi_eq, hm.resolves, hval.function_eq, hval.arity, hpacks, hnames,
    hgood, houtputs, fun o ho => selectedOutputs_valid hm ho⟩

/-- The place has an output of that full metric name. -/
def Place.Emits (d : Deps) (p : Place) (name : String) : Prop :=
  ∃ abi func names, contractAbi p.contract = .ok abi ∧ lookupFunction abi p = .ok func ∧
    inferMetricNames d p.metric func = .ok names ∧ name ∈ names.map (qualify p.contract)

theorem row_emits (hv : cfg.Valid d) {sites : List Site} (h : sitesOf d cfg = .ok sites) {r : Row}
    (hr : r ∈ rows sites) : r.site.toPlace ∈ places cfg ∧ r.site.toPlace.Emits d r.name := by
  obtain ⟨hs, he⟩ := mem_rows.mp hr
  obtain ⟨hp, hres⟩ := mem_sites h hs
  obtain ⟨abi, habi, hfunc⟩ := hres.function_eq
  obtain ⟨names, hnames, -, hemits, -⟩ := site_emits hv h hs
  exact ⟨hp, abi, r.site.func, names, habi, hfunc, hnames, hemits ▸ List.mem_map_of_mem he⟩

/-- Every output a place emits is a row of the sites. -/
theorem exists_row_of_emits (hv : cfg.Valid d) {sites : List Site} (h : sitesOf d cfg = .ok sites)
    {p : Place} (hp : p ∈ places cfg) {name : String} (hname : p.Emits d name) :
    ∃ r ∈ rows sites, r.site.toPlace = p ∧ r.name = name := by
  rw [← sitesOf_places h] at hp
  obtain ⟨s, hs, rfl⟩ := List.mem_map.mp hp
  obtain ⟨abi, hval⟩ := site_valid hv h hs
  obtain ⟨abi', func, names, habi, hfunc, hnames, hmem⟩ := hname
  obtain rfl := Except.ok.inj (hval.abi_eq.symm.trans habi)
  obtain rfl := Except.ok.inj (hval.function_eq.symm.trans hfunc)
  obtain ⟨names', hnames', -, hemits, -⟩ := site_emits hv h hs
  obtain rfl := Except.ok.inj (hnames.symm.trans hnames')
  rw [← hemits] at hmem
  obtain ⟨e, he, rfl⟩ := List.mem_map.mp hmem
  exact ⟨⟨s, e⟩, mem_rows.mpr ⟨hs, he⟩, rfl, rfl⟩

/-- The names of the rows are those the places emit. -/
theorem mem_rowNames_iff (hv : cfg.Valid d) {sites : List Site} (h : sitesOf d cfg = .ok sites)
    {name : String} : name ∈ (rows sites).map Row.name ↔ ∃ p ∈ places cfg, p.Emits d name := by
  rw [List.mem_map]
  constructor
  · rintro ⟨r, hmem, rfl⟩
    exact ⟨_, row_emits hv h hmem⟩
  · rintro ⟨p, hp, hname⟩
    obtain ⟨r, hmem, -, rfl⟩ := exists_row_of_emits hv h hp hname
    exact ⟨r, hmem, rfl⟩

/-! ### Failures -/

/-- Why planning an accepted configuration may fail, with the error each cause raises. -/
inductive BuildFailure (d : Deps) (cfg : Config) : Error → Prop where
  | address {ct : Contract} {inst : Instance} {cause : String} (hct : ct ∈ cfg.contracts)
      (hinst : inst ∈ ct.instances)
      (h : d.toAbiLibrary.parseAddress (trim inst.address) = .error cause) :
      BuildFailure d cfg (.invalidInstanceAddress ct.name inst.address)
  | argument {p : Place} {abi : JsonAbi} {func : AbiFunction} {e : Error} (hp : p ∈ places cfg)
      (habi : contractAbi p.contract = .ok abi) (hfunc : lookupFunction abi p = .ok func)
      (h : ArgFailure d func p.subcall.args e) : BuildFailure d cfg (p.context e)
  | help {p p' : Place} {name : String} (hp : p ∈ places cfg) (hp' : p' ∈ places cfg)
      (hname : p.Emits d name) (hname' : p'.Emits d name) (hhelp : p.metric.help ≠ "")
      (hhelp' : p'.metric.help ≠ "") (h : p.metric.help ≠ p'.metric.help) :
      BuildFailure d cfg (.conflictingHelp name)
  | metricName {p : Place} {desc : Desc} {cause : String} (hp : p ∈ places cfg)
      (hname : p.Emits d desc.name) (hbad : ¬ isValidPromName desc.name)
      (h : d.newDesc desc = .error cause) : BuildFailure d cfg (.createGauge desc.name cause)
  | labelName {p : Place} {desc : Desc} {cause k : String} (hp : p ∈ places cfg)
      (hname : p.Emits d desc.name) (hk : k ∈ (mergeLabels cfg p).keys)
      (hbad : ¬ isValidLabelName k) (h : d.newDesc desc = .error cause) :
      BuildFailure d cfg (.createGauge desc.name cause)

/-- The errors of the planner's own checks, which an accepted configuration never meets. -/
inductive Unvalidated : Error → Prop where
  | noParsedAbi (ct : String) : Unvalidated (.noParsedAbi ct)
  | functionMissing (ct descriptor f : String) : Unvalidated (.functionMissing ct descriptor f)
  | noOverload (f : String) : Unvalidated (.noOverload f)
  | arity (ctx : Context) (f : String) (expected got : ℕ) :
      Unvalidated (.context ctx (.arity f expected got))
  | pack (ct descriptor f cause : String) : Unvalidated (.pack ct descriptor f cause)
  | outputIndexRange (ctx : Context) (i : ℕ) : Unvalidated (.context ctx (.outputIndexRange i))
  | notTuple (ctx : Context) (field : String) (i : ℕ) (f ty : String) :
      Unvalidated (.context ctx (.notTuple field i f ty))
  | fieldNotFound (ctx : Context) (field : String) (i : ℕ) (f : String) (available : List String) :
      Unvalidated (.context ctx (.fieldNotFound field i f available))
  | outputCountMismatch (ctx : Context) (names outputs : ℕ) :
      Unvalidated (.context ctx (.outputCountMismatch names outputs))
  | registerGauge (name cause : String) : Unvalidated (.registerGauge name cause)
  | missingGauge (name : String) : Unvalidated (.missingGauge name)

theorem BuildFailure.not_unvalidated {e : Error} (h : BuildFailure d cfg e) : ¬ Unvalidated e := by
  intro hu
  cases h with
  | address => cases hu
  | help => cases hu
  | metricName => cases hu
  | labelName => cases hu
  | argument hp habi hfunc harg =>
    -- the context wraps a failure of one argument, and no check of the planner is one
    cases harg <;> cases hu

/-! ### The loops -/

/-- Every help text noted is that of a place with an output of the name. -/
def HelpsFrom (d : Deps) (cfg : Config) (helps : AList fun _ : String => String) : Prop :=
  ∀ name help, helps.lookup name = some help →
    ∃ p ∈ places cfg, p.Emits d name ∧ p.metric.help = help

theorem HelpsFrom.insert {helps : AList fun _ : String => String} (h : HelpsFrom d cfg helps)
    {p : Place} (hp : p ∈ places cfg) {name : String} (hname : p.Emits d name) :
    HelpsFrom d cfg (helps.insert name p.metric.help) := by
  intro n help hn
  by_cases heq : n = name
  · subst heq
    rw [AList.lookup_insert, Option.some.injEq] at hn
    exact ⟨p, hp, hname, hn⟩
  · rw [AList.lookup_insert_ne heq] at hn
    exact h n help hn

/-- Places with outputs of the name have different help texts. -/
def HelpConflict (d : Deps) (cfg : Config) (name : String) : Prop :=
  ∃ p ∈ places cfg, ∃ p' ∈ places cfg, p.Emits d name ∧ p'.Emits d name ∧
    p.metric.help ≠ "" ∧ p'.metric.help ≠ "" ∧ p.metric.help ≠ p'.metric.help

theorem noteHelp_ensures {helps : AList fun _ : String => String} (h : HelpsFrom d cfg helps)
    {p : Place} (hp : p ∈ places cfg) {name : String} (hname : p.Emits d name) :
    Ensures (HelpsFrom d cfg) (fun e => e = .conflictingHelp name ∧ HelpConflict d cfg name)
      (noteHelp name p.metric.help helps) := by
  unfold noteHelp
  split
  next => exact h.insert hp hname
  next existing hl =>
    split_ifs with hconflict hempty
    · obtain ⟨p', hp', hname', rfl⟩ := h name existing hl
      obtain ⟨hhelp, hhelp', hne⟩ := hconflict
      exact ⟨rfl, p, hp, p', hp', hname, hname', by simpa using hhelp, by simpa using hhelp',
        hne.symm⟩
    · exact h.insert hp hname
    · exact h

/-- The same of the state of the loop. -/
def Acc.HelpsFrom (d : Deps) (cfg : Config) (acc : Acc) : Prop :=
  EvmExporter.HelpsFrom d cfg acc.helpByMetric

section Reports

variable {E : Error → Prop}

/-- The loop over the contracts reports what its rounds report. -/
theorem buildContracts_ensures
    (habi : ∀ ct ∈ cfg.contracts, Ensures (fun _ => True) E (contractAbi ct))
    (haddr : ∀ ct ∈ cfg.contracts, ∀ inst ∈ ct.instances,
      Ensures (fun _ => True) E (instanceAddress d ct inst))
    (hcall : ∀ p ∈ places cfg, ∀ abi addr acc, contractAbi p.contract = .ok abi →
      acc.HelpsFrom d cfg → Ensures (Acc.HelpsFrom d cfg) E (buildCall d cfg abi addr p acc)) :
    Ensures (Acc.HelpsFrom d cfg) E (cfg.contracts.foldlM (buildContract d cfg) .empty) := by
  have hempty : Acc.HelpsFrom d cfg .empty := by
    intro name help h
    simp [Acc.empty] at h
  apply ensures_foldlM hempty
  intro ct hct acc hacc
  apply (habi ct hct).bind
  intro abi hcontract _
  apply ensures_foldlM hacc
  intro inst hinst acc hacc
  apply (haddr ct hct inst hinst).bind
  intro addr _ _
  apply ensures_foldlM hacc
  intro m hm acc hacc
  apply ensures_foldlM hacc
  intro sc hsc acc hacc
  exact hcall ⟨ct, inst, m, sc⟩ (mem_places.mpr ⟨hct, hinst, hm, hsc⟩) abi addr acc hcontract hacc

variable (hconflict : ∀ name, HelpConflict d cfg name → E (.conflictingHelp name))
include hconflict

theorem buildOutput_ensures {p : Place} (hp : p ∈ places cfg) {addr : Address} {func : AbiFunction}
    {merged : Labels} {callIndex : ℕ} {acc : Acc} {a : String × Output} (hname : p.Emits d a.1)
    (hfield : Ensures (fun _ => True) E ((fieldIndex func a.2).mapError p.context))
    (hacc : acc.HelpsFrom d cfg) :
    Ensures (Acc.HelpsFrom d cfg) E (buildOutput p addr func merged callIndex acc a) := by
  have hhelp : Ensures (HelpsFrom d cfg) E (noteHelp a.1 p.metric.help acc.helpByMetric) :=
    (noteHelp_ensures hacc hp hname).mono (fun _ h => h) fun _ h => h.1 ▸ hconflict _ h.2
  unfold buildOutput
  apply hfield.bind
  intro fi _ _
  exact hhelp.bind fun helps _ hhelps => hhelps

/-- A round of the loop reports a conflict of help texts, or what its steps report. -/
theorem buildCall_ensures {p : Place} (hp : p ∈ places cfg) {abi : JsonAbi}
    (habi : contractAbi p.contract = .ok abi)
    (hfunc : Ensures (fun _ => True) E (lookupFunction abi p))
    (hencode : ∀ func, lookupFunction abi p = .ok func →
      Ensures (fun _ => True) E (encodeCall d func p))
    (houtputs : ∀ func, lookupFunction abi p = .ok func →
      Ensures (fun r => ∀ o ∈ r.2, Ensures (fun _ => True) E ((fieldIndex func o).mapError p.context))
        E ((resolveOutputs d p.metric p.subcall func).mapError p.context))
    {addr : Address} {acc : Acc} (hacc : acc.HelpsFrom d cfg) :
    Ensures (Acc.HelpsFrom d cfg) E (buildCall d cfg abi addr p acc) := by
  unfold buildCall
  apply hfunc.bind
  intro func hfunc _
  apply (hencode func hfunc).bind
  intro callData _ _
  apply (houtputs func hfunc).bind
  rintro ⟨names, outputs⟩ hres hfields
  have hnames : inferMetricNames d p.metric func = .ok names := by
    have hsc := expandMetricCalls_function (mem_places.mp hp).2.2.2
    rw [mapError_eq_ok, resolveOutputs_eq _ _ _ hsc.2] at hres
    cases hinfer : inferMetricNames d p.metric func with
    | error e => simp [hinfer, Except.map] at hres
    | ok names' =>
      rw [hinfer] at hres
      exact congrArg Except.ok (Prod.mk.inj (Except.ok.inj hres)).1
  refine ensures_foldlM (I := Acc.HelpsFrom d cfg) hacc ?_
  intro a ha acc hacc
  obtain ⟨hname, hout⟩ := List.of_mem_zip ha
  exact buildOutput_ensures hconflict hp ⟨abi, func, names, habi, hfunc, hnames, hname⟩
    (hfields _ hout) hacc

end Reports

/-- On an accepted configuration a round fails on an argument or on a help text, and on nothing
else. -/
theorem buildCall_failure (hv : cfg.Valid d) (hencode : d.EncodesMatching) {p : Place}
    (hp : p ∈ places cfg) {abi : JsonAbi} (habi : contractAbi p.contract = .ok abi)
    {addr : Address} {acc : Acc} (hacc : acc.HelpsFrom d cfg) :
    Ensures (Acc.HelpsFrom d cfg) (BuildFailure d cfg) (buildCall d cfg abi addr p acc) := by
  obtain ⟨abi', func, names, hc⟩ := place_covered hv hencode hp
  obtain rfl := Except.ok.inj (habi.symm.trans hc.abi_eq)
  have hfunc := hc.function_eq
  have hconvert := (convertArgs_error (d := d) hc.arity).mapError (g := p.context)
    fun e he => BuildFailure.argument hp habi hfunc he
  have hencoded : Ensures (fun _ => True) (BuildFailure d cfg) (encodeCall d func p) := by
    apply hconvert.bind
    intro vals hvals _
    obtain ⟨data, hdata⟩ := hc.packs vals (mapError_eq_ok.mp hvals)
    simp [hdata, Except.mapError]
  have hfields : ∀ o ∈ selectedOutputs p.metric.outputs func,
      Ensures (fun _ => True) (BuildFailure d cfg) ((fieldIndex func o).mapError p.context) := by
    intro o ho
    obtain ⟨fi, hfi⟩ := (hc.outputs_valid o ho).fieldIndex_eq_ok
    rw [mapError_eq_ok.mpr hfi]
    trivial
  have hconflict : ∀ name, HelpConflict d cfg name → BuildFailure d cfg (.conflictingHelp name) := by
    rintro name ⟨p, hp, p', hp', hname, hname', hhelp, hhelp', hne⟩
    exact .help hp hp' hname hname' hhelp hhelp' hne
  refine buildCall_ensures hconflict hp habi (by rw [hfunc]; trivial) ?_ ?_ hacc
  · intro func' hfunc'
    obtain rfl := Except.ok.inj (hfunc.symm.trans hfunc')
    exact hencoded
  · intro func' hfunc'
    obtain rfl := Except.ok.inj (hfunc.symm.trans hfunc')
    rw [hc.outputs_eq]
    exact hfields

theorem instanceAddress_ensures {ct : Contract} (hct : ct ∈ cfg.contracts) {inst : Instance}
    (hinst : inst ∈ ct.instances) :
    Ensures (fun _ => True) (BuildFailure d cfg) (instanceAddress d ct inst) := by
  unfold instanceAddress
  cases h : d.toAbiLibrary.parseAddress (trim inst.address) with
  | ok addr => trivial
  | error cause => exact BuildFailure.address hct hinst h

theorem buildContracts_failure (hv : cfg.Valid d) (hencode : d.EncodesMatching) :
    Ensures (Acc.HelpsFrom d cfg) (BuildFailure d cfg)
      (cfg.contracts.foldlM (buildContract d cfg) .empty) := by
  refine buildContracts_ensures (fun ct hct => ?_)
    (fun ct hct inst hinst => instanceAddress_ensures hct hinst)
    fun p hp abi addr acc habi hacc => buildCall_failure hv hencode hp habi hacc
  obtain ⟨abi, habi, -⟩ := (hv.contracts_valid ct hct).metrics_valid
  rw [contractAbi, habi]
  trivial

/-! ### Gauges -/

/-- On a fresh registry, registering distinct names fails only where a descriptor is refused. -/
theorem registerGauges_ensures (hprom : d.toPrometheusLibrary.Lawful) {acc : Acc}
    {names : List String} (hnodup : names.Nodup) {E : Error → Prop}
    (hdesc : ∀ n ∈ names, ∀ cause, d.newDesc (acc.family n).gauge = .error cause →
      E (.createGauge n cause)) :
    Ensures (fun _ => True) E (names.foldlM (registerGauge d acc) ([], ∅)) := by
  let I (pre : List String) (s : Registry × AList fun _ : String => Family) : Prop :=
    ∀ other ∈ s.1, other.name ∈ pre
  suffices Ensures (I names) E (names.foldlM (registerGauge d acc) ([], ∅)) from
    this.mono (fun _ _ => trivial) (fun _ h => h)
  apply ensures_foldlM_indexed
  · simp [I]
  rintro pre n post ⟨registry, families⟩ rfl hreg
  have hnew : n ∉ pre := by
    intro hn
    exact (List.nodup_append.mp hnodup).2.2 n hn n (by simp) rfl
  have hfresh : ∀ other ∈ registry, other.name ≠ n := by
    rintro other hother rfl
    exact hnew (hreg other hother)
  have hregister : d.register registry (acc.family n).gauge = .ok () :=
    hprom.register_ok registry _ hfresh
  change Ensures _ E ((d.newDesc (acc.family n).gauge).mapError (.createGauge n) >>= fun _ =>
    (d.register registry (acc.family n).gauge).mapError (.registerGauge n) >>= fun _ =>
      pure ((acc.family n).gauge :: registry, families.insert n (acc.family n)))
  rw [hregister]
  cases h : d.newDesc (acc.family n).gauge with
  | error cause => exact hdesc n (by simp) cause h
  | ok =>
    have hold : ∀ other ∈ registry, other.name ∈ pre ++ [n] := by
      intro other hother
      exact List.mem_append_left _ (hreg other hother)
    exact List.forall_mem_cons.mpr ⟨by simp [Acc.family, family], hold⟩

theorem helpText_ne (name : String) (help : Option String) : helpText name help ≠ "" := by
  unfold helpText nonEmpty
  cases h : help.filter fun h => ¬ h.isEmpty with
  | none => simp [toString]
  | some text => simpa using (Option.filter_eq_some_iff.mp h).2

/-- The descriptor of a name is refused only for the name or for a label key of its rows. -/
theorem newDesc_family_error (hv : cfg.Valid d) (hprom : d.toPrometheusLibrary.Lawful)
    {sites : List Site} (h : sitesOf d cfg = .ok sites) {r : Row} (hr : r ∈ rows sites)
    {cause : String} (hdesc : d.newDesc (familyOf cfg (rows sites) r.name).gauge = .error cause) :
    BuildFailure d cfg (.createGauge r.name cause) := by
  obtain ⟨hp, hname⟩ := row_emits hv h hr
  rcases hprom.newDesc_error _ _ hdesc with hhelp | hdup | hbad | ⟨k, hk, hbad⟩
  · exact absurd hhelp (helpText_ne _ _)
  · exact absurd (familyOf_keys_nodup (rows_labels_free hv h) r.name) hdup
  · exact .metricName hp hname hbad hdesc
  · have hk : k ∈ (labelUnion cfg (rows sites) r.name).keys ∨ k = "address" ∨ k = "chain_id" := by
      simpa using hk
    rcases hk with hk | rfl | rfl
    · obtain ⟨r', hr', heq, hkr⟩ := mem_labelUnion.mp hk
      obtain ⟨hp', hname'⟩ := row_emits hv h hr'
      exact .labelName hp' (heq ▸ hname') hkr hbad hdesc
    · exact absurd (by decide) hbad
    · exact absurd (by decide) hbad

/-- Once the loop over the contracts has completed, the planner fails only where the descriptor
of a name is refused. -/
theorem build_of_contracts (hprom : d.toPrometheusLibrary.Lawful) {acc : Acc}
    (hacc : cfg.contracts.foldlM (buildContract d cfg) .empty = .ok acc) {E : Error → Prop}
    (hdesc : ∀ n ∈ acc.keysByMetric, ∀ cause, d.newDesc (acc.family n).gauge = .error cause →
      E (.createGauge n cause)) :
    Ensures (fun _ => True) E (build d cfg []) := by
  obtain ⟨sites, -, hr⟩ := reflects_of_contracts hacc
  have hnodup : (d.hashOrder acc.keysByMetric.keys).Nodup :=
    (d.hashOrder_perm _).nodup_iff.mpr acc.keysByMetric.keys_nodup
  have hreg := registerGauges_ensures hprom hnodup
    fun n hn cause h => hdesc n (mem_hashOrder.mp hn) cause h
  unfold build
  rw [hacc]
  apply hreg.bind
  rintro ⟨registry, families⟩ hs _
  have hfam : ∀ n ∈ acc.keysByMetric, families.lookup n = some (acc.family n) := by
    intro n hn
    exact (registerGauges_eq_ok hs).2 n (mem_hashOrder.mpr hn)
  change Ensures _ _ (acc.drafts.mapM (buildEntry cfg.chain.chainId families) >>= _)
  rw [hr.entries_eq hfam]
  trivial

/-- The planner of an accepted configuration fails only for one of the listed causes. -/
theorem build_ensures (hv : cfg.Valid d) (hencode : d.EncodesMatching)
    (hprom : d.toPrometheusLibrary.Lawful) :
    Ensures (fun _ => True) (BuildFailure d cfg) (build d cfg []) := by
  cases hacc : cfg.contracts.foldlM (buildContract d cfg) .empty with
  | error e =>
    have hbuild : build d cfg [] = .error e := by
      unfold build
      rw [hacc]
      rfl
    rw [hbuild]
    exact (buildContracts_failure hv hencode).error hacc
  | ok acc =>
    obtain ⟨sites, hsites, hr⟩ := reflects_of_contracts hacc
    refine build_of_contracts hprom hacc fun n hn cause h => ?_
    rw [hr.family_eq] at h
    obtain ⟨r, hmem, rfl⟩ := List.mem_map.mp ((hr.names n).mp hn)
    exact newDesc_family_error hv hprom hsites hmem h

/-! ### Entries -/

/-- An entry of an accepted configuration selects a return value, and a component of it. -/
theorem entry_inRange (hv : cfg.Valid d) {plan : Plan} {registry registry' : Registry}
    (h : build d cfg registry = .ok (plan, registry')) {e : Entry} (he : e ∈ plan.entries) :
    e.decode.outputIndex < e.decode.function.outputs.length ∧
      ∀ fi, e.decode.fieldIndex = some fi → ∃ param,
        e.decode.function.outputs[e.decode.outputIndex]? = some param ∧
        fi < param.components.length := by
  obtain ⟨sites, hsites, rfl⟩ := build_eq_planOf h
  obtain ⟨r, hr, rfl⟩ := List.mem_map.mp he
  obtain ⟨hs, hemit⟩ := mem_rows.mp hr
  obtain ⟨abi, hval⟩ := site_valid hv hsites hs
  obtain ⟨-, -, -, -, houtputs, hfield⟩ := site_emits hv hsites hs
  have ho : r.emit.output ∈ selectedOutputs r.site.metric.outputs r.site.func :=
    houtputs ▸ List.mem_map_of_mem hemit
  constructor
  · exact (selectedOutputs_valid hval.metric_valid ho).index_lt
  · intro fi hfi
    have hfound : fieldIndex r.site.func r.emit.output = .ok (some fi) :=
      (hfield _ hemit).trans (congrArg Except.ok hfi)
    exact fieldIndex_eq_some hfound

/-- Validation covers the planner. -/
theorem build_failure {baseDir : String} {raw : Config}
    (hvalid : validate d baseDir raw = .ok cfg) (hencode : d.EncodesMatching)
    (hprom : d.toPrometheusLibrary.Lawful) :
    (∀ e, build d cfg [] = .error e → BuildFailure d cfg e ∧ ¬ Unvalidated e) ∧
      (∀ p ∈ places cfg, ∃ abi func names, p.Covered d abi func names) ∧
      ∀ plan registry, build d cfg [] = .ok (plan, registry) → ∀ e ∈ plan.entries,
        e.decode.outputIndex < e.decode.function.outputs.length ∧
        ∀ fi, e.decode.fieldIndex = some fi → ∃ param,
          e.decode.function.outputs[e.decode.outputIndex]? = some param ∧
          fi < param.components.length := by
  have hv := validate_valid hvalid
  have hfail : ∀ e, build d cfg [] = .error e → BuildFailure d cfg e ∧ ¬ Unvalidated e := by
    intro e he
    have h := (build_ensures hv hencode hprom).error he
    exact ⟨h, h.not_unvalidated⟩
  exact ⟨hfail, fun p hp => place_covered hv hencode hp,
    fun plan registry h e he => entry_inRange hv h he⟩

/-- The token at an address of one byte, which validation does not parse. -/
def Reference.shortAddressConfig : Config :=
  { supplyConfig with contracts := supplyConfig.contracts.map fun ct =>
      { ct with instances := [{ address := "0x12" }] } }

theorem short_address_failure :
    (∃ cfg e, validate reference "." Reference.shortAddressConfig = .ok cfg ∧
      build reference cfg [] = .error e ∧ BuildFailure reference cfg e) ∧
    ∃ cfg plan registry, validate reference "." Reference.supplyConfig = .ok cfg ∧
      build reference cfg [] = .ok (plan, registry) ∧ plan.entries ≠ [] ∧
      (∀ p ∈ places cfg, ∃ abi func names, p.Covered reference abi func names) ∧
      ∀ e ∈ plan.entries, e.decode.outputIndex < e.decode.function.outputs.length := by
  have hencode := Reference.encodesMatching
  have hprom := Reference.prometheus_lawful
  constructor
  · obtain ⟨cfg, hvalid, e, hbuild⟩ :=
      Reference.of_refused Reference.shortAddressConfig (by decide +kernel)
    exact ⟨cfg, e, hvalid, hbuild, ((build_failure hvalid hencode hprom).1 e hbuild).1⟩
  · obtain ⟨cfg, plan, registry, hvalid, hbuild, -, hone⟩ := Reference.supply_planned
    obtain ⟨-, hcovered, hentries⟩ := build_failure hvalid hencode hprom
    refine ⟨cfg, plan, registry, hvalid, hbuild, ?_, hcovered,
      fun e he => (hentries plan registry hbuild e he).1⟩
    exact List.ne_nil_of_length_pos (by omega)

end EvmExporter
