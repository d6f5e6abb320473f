import EvmExporter.Planner.Handed

/-! The names of the gauges. Validation checks the names a metric infers; the planner puts
the prefix of the contract in front of them. The prefix, by default the free-form name of
the contract, is not checked, so a gauge name is valid exactly when its prefix is. -/

namespace EvmExporter

open Lib

variable {d : Deps} {cfg : Config}

theorem isPromNameRest_of_start {c : Char} (h : isPromNameStart c) : isPromNameRest c := by
  simp only [isPromNameStart, isPromNameRest, Char.isAlphanum, Bool.or_eq_true] at h ⊢
  tauto

/-- A valid name behind a prefix is valid exactly when the prefix is. -/
theorem isValidPromName_prefixed {pre name : String} (hpre : pre ≠ "")
    (hname : isValidPromName name) : isValidPromName s!"{pre}_{name}" ↔ isValidPromName pre := by
  have hchars : name.toList.all isPromNameRest := by
    unfold isValidPromName at hname
    split at hname
    next => cases hname
    next c cs hl =>
      rw [hl, List.all_cons, Bool.and_eq_true]
      rw [Bool.and_eq_true] at hname
      exact ⟨isPromNameRest_of_start hname.1, hname.2⟩
  have hlist : s!"{pre}_{name}".toList = pre.toList ++ '_' :: name.toList := by
    simp [toString]
  unfold isValidPromName
  rw [hlist]
  cases hp : pre.toList with
  | nil => exact absurd (String.toList_injective (hp.trans String.toList_empty.symm)) hpre
  | cons c cs =>
    have hunderscore : isPromNameRest '_' := by decide
    simp [hchars, hunderscore]

theorem effectiveMetricPrefix_ne {ct : Contract} (hct : ct.Valid d) :
    ct.effectiveMetricPrefix ≠ "" := by
  unfold Contract.effectiveMetricPrefix
  split_ifs with h
  · exact hct.name_ne
  · simpa using h

/-- An emitted name is valid exactly when the prefix of its contract is. -/
theorem emitted_name_valid_iff (hv : cfg.Valid d) {p : Place} (hp : p ∈ places cfg) {name : String}
    (hname : p.Emits d name) :
    isValidPromName name ↔ isValidPromName p.contract.effectiveMetricPrefix := by
  obtain ⟨abi, func, names, habi, hfunc, hnames, hmem⟩ := hname
  obtain ⟨abi', func', hval⟩ := place_valid hv hp
  obtain rfl := Except.ok.inj (hval.abi_eq.symm.trans habi)
  obtain rfl := Except.ok.inj (hval.function_eq.symm.trans hfunc)
  obtain ⟨names', hnames', hgood⟩ := hval.metric_valid.names_valid
  obtain rfl := Except.ok.inj (hnames.symm.trans hnames')
  obtain ⟨n, hn, rfl⟩ := List.mem_map.mp hmem
  have hne := effectiveMetricPrefix_ne (hv.contracts_valid _ (mem_places.mp hp).1)
  rw [qualify, if_neg (by simpa using hne)]
  exact isValidPromName_prefixed hne (hgood n hn)

/-- A name handed to `GaugeVec::new` is valid exactly when the prefixes of the contracts that
emit it are. All names handed over, whatever the order of iteration, are valid exactly when
the prefix of every contract with an emitted output is, or when the planner does not come to
make gauges at all. -/
theorem gauge_names_valid_iff {baseDir : String} {raw : Config}
    (hv : validate d baseDir raw = .ok cfg) (registry : Registry) :
    (∀ name, HandedToGaugeVec d cfg registry name →
      (isValidPromName name ↔ ∀ p ∈ places cfg, p.Emits d name →
        isValidPromName p.contract.effectiveMetricPrefix)) ∧
    ((∀ order hperm name, HandedToGaugeVec (d.withHashOrder order hperm) cfg registry name →
        isValidPromName name) ↔
      (cfg.Plannable d → ∀ p ∈ places cfg, (∃ name, p.Emits d name) →
        isValidPromName p.contract.effectiveMetricPrefix)) := by
  have hvalid := validate_valid hv
  constructor
  · intro name hhanded
    have hhanded : HandedToGaugeVec (d.withHashOrder d.hashOrder d.hashOrder_perm) cfg registry
      name := hhanded
    constructor
    · intro hname p hp hemits
      exact (emitted_name_valid_iff hvalid hp hemits).mp hname
    · intro h
      obtain ⟨-, p, hp, hemits⟩ := hhanded.emitted hvalid
      exact (emitted_name_valid_iff hvalid hp hemits).mpr (h p hp hemits)
  · constructor
    · rintro h hplan p hp ⟨name, hemits⟩
      have hhanded := exists_order_handed hvalid hplan registry ⟨p, hp, hemits⟩
      exact (emitted_name_valid_iff hvalid hp hemits).mp (h _ _ name hhanded)
    · intro h order hperm name hhanded
      obtain ⟨hplan, p, hp, hemits⟩ := hhanded.emitted hvalid
      exact (emitted_name_valid_iff hvalid hp hemits).mpr (h hplan p hp ⟨name, hemits⟩)

/-- An accepted configuration and the names the planner makes gauges for. -/
def Reference.gaugeNames (raw : Config) : Except Error (Config × List String) := do
  let cfg ← validate reference "." raw
  let acc ← cfg.contracts.foldlM (buildContract reference cfg) .empty
  return (cfg, acc.keysByMetric.keys)

theorem Reference.of_gaugeNames (raw : Config) (test : Config → List String → Bool)
    (h : ((gaugeNames raw).toOption.map fun s => test s.1 s.2) = some true) :
    ∃ cfg acc, validate reference "." raw = .ok cfg ∧
      cfg.contracts.foldlM (buildContract reference cfg) .empty = .ok acc ∧
      test cfg acc.keysByMetric.keys = true := by
  obtain ⟨⟨cfg, names⟩, hnames, htest⟩ := Option.map_eq_some_iff.mp h
  obtain ⟨cfg', hv, hnames⟩ := bind_eq_ok.mp (toOption_eq_some.mp hnames)
  obtain ⟨acc, hacc, hpair⟩ := bind_eq_ok.mp hnames
  obtain ⟨rfl, rfl⟩ := Prod.mk.inj (pure_eq_ok.mp hpair)
  exact ⟨_, acc, hv, hacc, htest⟩

/-- The token under a name with a space in it. -/
def spacedConfig : Config :=
  { Reference.supplyConfig with contracts := Reference.supplyConfig.contracts.map fun ct =>
      { ct with name := "my token" } }

theorem spaced_name_handed :
    ∃ cfg, validate reference "." spacedConfig = .ok cfg ∧
      HandedToGaugeVec reference cfg [] "my token_total_supply" ∧
      ¬ isValidPromName "my token_total_supply" := by
  obtain ⟨cfg, acc, hv, hacc, hkeys⟩ :=
    Reference.of_gaugeNames spacedConfig (fun _ names => names = ["my token_total_supply"])
      (by decide +kernel)
  have horder : reference.hashOrder acc.keysByMetric.keys = [] ++ "my token_total_supply" :: [] :=
    of_decide_eq_true hkeys
  exact ⟨cfg, hv, ⟨acc, [], [], _, hacc, horder, rfl⟩, by decide⟩

theorem supply_prefix_valid :
    ∃ cfg, validate reference "." Reference.supplyConfig = .ok cfg ∧ cfg.Plannable reference ∧
      (∃ p ∈ places cfg, p.Emits reference "token_total_supply") ∧
      ∀ p ∈ places cfg, (∃ name, p.Emits reference name) →
        isValidPromName p.contract.effectiveMetricPrefix := by
  obtain ⟨cfg, acc, hv, hacc, hkeys⟩ :=
    Reference.of_gaugeNames Reference.supplyConfig (fun _ names => names = ["token_total_supply"])
      (by decide +kernel)
  have hvalid := validate_valid hv
  have hplan : cfg.Plannable reference := (contracts_succeed_iff hvalid).mp ⟨acc, hacc⟩
  have hnames : ∀ name, (∃ p ∈ places cfg, p.Emits reference name) ↔
      name = "token_total_supply" := by
    intro name
    rw [← mem_keysByMetric_iff hvalid hacc, AList.mem_keys, of_decide_eq_true hkeys,
      List.mem_singleton]
  refine ⟨cfg, hv, hplan, (hnames _).mpr rfl, ((gauge_names_valid_iff hv []).2.mp ?_) hplan⟩
  intro order hperm name hhanded
  obtain rfl := (hnames name).mp (hhanded.emitted hvalid).2
  decide

end EvmExporter
