import EvmExporter.Exporter.ContractValues
import EvmExporter.Planner.Reorder

/-! Contracts do not disturb each other. An exporter of some contracts of a configuration reads
for them what the exporter of all its contracts reads, at the same blocks: the same values,
failures and losses of precision. For that the contracts that are left out must not share a
metric name with the others, as the label keys of a name are those of all its rows. -/

namespace EvmExporter

open Lib

/-- The configuration with the contracts of some names only. -/
def Config.restrict (cfg : Config) (keep : String → Bool) : Config :=
  { cfg with contracts := cfg.contracts.filter fun ct => keep ct.name }

def Row.kept (keep : String → Bool) (r : Row) : Bool := keep r.site.contract.name

/-- No row that is kept shares its metric name with one that is not. -/
def Separated (keep : String → Bool) (rs : List Row) : Prop :=
  ∀ r ∈ rs, ∀ r' ∈ rs, r.kept keep → ¬ r'.kept keep → r.name ≠ r'.name

variable {d : Deps} {cfg : Config} {keep : String → Bool} {sites : List Site} {rs : List Row}
  {r : Row} {o o' : Readings} {chain : Multicall.Chain} {n : ℕ}

/-! ### The restricted plan -/

theorem places_restrict (cfg : Config) (keep : String → Bool) :
    places (cfg.restrict keep) = (places cfg).filter fun p => keep p.contract.name := by
  refine flatMap_filter (fun ct p hp => ?_) cfg.contracts
  simp only [List.mem_flatMap, List.mem_map] at hp
  obtain ⟨inst, -, m, -, sc, -, rfl⟩ := hp
  rfl

theorem sitesOf_restrict (h : sitesOf d cfg = .ok sites) :
    sitesOf d (cfg.restrict keep) = .ok (sites.filter fun s => keep s.contract.name) := by
  rw [sitesOf, places_restrict]
  refine mapM_filter (fun p s hs => ?_) h
  obtain ⟨rfl, -⟩ := resolveSite_eq_ok hs
  rfl

theorem rows_restrict (keep : String → Bool) (sites : List Site) :
    rows (sites.filter fun s => keep s.contract.name) = (rows sites).filter (Row.kept keep) := by
  refine flatMap_filter (fun s r hr => ?_) sites
  obtain ⟨e, -, rfl⟩ := List.mem_map.mp hr
  rfl

/-- The rows of a name that is kept are all kept. -/
theorem Separated.filter_name (hsep : Separated keep rs) (hr : r ∈ rs) (hkept : r.kept keep) :
    (rs.filter (Row.kept keep)).filter (fun r' => r'.name = r.name) =
      rs.filter fun r' => r'.name = r.name := by
  rw [List.filter_filter]
  refine List.filter_congr fun r' hr' => ?_
  by_cases hname : r'.name = r.name
  · have hkept' : r'.kept keep := by
      by_contra hnot
      exact hsep r hr r' hr' hkept hnot hname.symm
    simp [hname, hkept']
  · simp [hname]

theorem Separated.familyOf_eq (cfg : Config) (hsep : Separated keep rs) (hr : r ∈ rs) (hkept : r.kept keep) :
    familyOf (cfg.restrict keep) (rs.filter (Row.kept keep)) r.name = familyOf cfg rs r.name := by
  have hname := hsep.filter_name hr hkept
  have hhelp : helpOf (rs.filter (Row.kept keep)) r.name = helpOf rs r.name := by
    rw [helpOf, hname, helpOf]
  have hkeys : labelUnion (cfg.restrict keep) (rs.filter (Row.kept keep)) r.name =
      labelUnion cfg rs r.name := by
    rw [labelUnion, hname, labelUnion]
    rfl
  rw [familyOf, hhelp, hkeys, familyOf]

theorem Separated.series_eq (cfg : Config) (hsep : Separated keep rs) (hr : r ∈ rs) (hkept : r.kept keep) :
    r.series (cfg.restrict keep) (rs.filter (Row.kept keep)) = r.series cfg rs := by
  rw [Row.series, hsep.familyOf_eq cfg hr hkept, Row.series]
  rfl

/-- If the planner accepts all contracts it accepts those that are kept. -/
theorem build_restrict (hprom : d.IgnoresOtherNames) (hpop : cfg.Populated) {plan : Plan}
    {registry registry' : Registry} (hb : build d cfg registry = .ok (plan, registry'))
    (hsites : sitesOf d cfg = .ok sites) (hsep : Separated keep (rows sites)) :
    ∃ planned, build d (cfg.restrict keep) registry = .ok planned := by
  obtain ⟨sites', hsites', hagree, haccepts⟩ := (build_succeeds_iff hprom hpop).mp ⟨_, hb⟩
  obtain rfl := Except.ok.inj (hsites.symm.trans hsites')
  have hpop' : (cfg.restrict keep).Populated :=
    fun ct hct => hpop ct (List.mem_of_mem_filter hct)
  refine (build_succeeds_iff hprom hpop').mpr ⟨_, sitesOf_restrict hsites, ?_, ?_⟩
  · rw [rows_restrict]
    exact fun r hr r' hr' =>
      hagree r (List.mem_of_mem_filter hr) r' (List.mem_of_mem_filter hr')
  · rw [rows_restrict]
    intro name hname
    obtain ⟨r, hr, rfl⟩ := List.mem_map.mp hname
    obtain ⟨hr, hkept⟩ := List.mem_filter.mp hr
    rw [hsep.familyOf_eq cfg hr hkept]
    exact haccepts _ (List.mem_map_of_mem hr)

/-! ### Readings that agree -/

/-- The readings of the rows that are kept are among those of all rows, and the same. -/
structure Agrees (keep : String → Bool) (rs : List Row) (o o' : Readings) : Prop where
  values : ∀ r ∈ rs, r.kept keep → ∀ labels, o.values (r.name, labels) = o'.values (r.name, labels)
  failures : ∀ labels, keep labels.1 → o.failures labels = o'.failures labels
  losses : o'.losses = o.losses.filter fun p => keep p.contract
  origin : ∀ p ∈ o.losses, ∃ r ∈ rs, p.metric = r.name ∧ p.contract = r.site.contract.name

namespace Agrees

theorem empty : Agrees keep rs .empty .empty :=
  ⟨fun _ _ _ _ => rfl, fun _ _ => rfl, rfl, by simp [Readings.empty]⟩

theorem set (h : Agrees keep rs o o') (series : Series) (value : F64) :
    Agrees keep rs (o.set series value) (o'.set series value) := by
  refine ⟨fun r hr hkept labels => ?_, h.failures, h.losses, h.origin⟩
  simp only [Readings.set, Function.update_apply, h.values r hr hkept labels]

theorem set_dropped (h : Agrees keep rs o o') (hsep : Separated keep rs) (hr : r ∈ rs)
    (hdropped : ¬ r.kept keep) (labels : List String) (value : F64) :
    Agrees keep rs (o.set (r.name, labels) value) o' := by
  refine ⟨fun r' hr' hkept labels' => ?_, h.failures, h.losses, h.origin⟩
  have hne : (r'.name, labels') ≠ (r.name, labels) :=
    fun heq => hsep r' hr' r hr hkept hdropped (congrArg Prod.fst heq)
  exact (Function.update_of_ne hne _ _).trans (h.values r' hr' hkept labels')

theorem fail (h : Agrees keep rs o o') (hkept : r.kept keep) :
    Agrees keep rs (o.fail r.place) (o'.fail r.place) := by
  refine ⟨h.values, fun labels hlabels => ?_, h.losses, h.origin⟩
  simp only [Readings.fail, Function.update_apply, h.failures labels hlabels,
    h.failures r.place hkept]

theorem fail_dropped (h : Agrees keep rs o o') (hdropped : ¬ r.kept keep) :
    Agrees keep rs (o.fail r.place) o' := by
  refine ⟨h.values, fun labels hlabels => ?_, h.losses, h.origin⟩
  have hne : labels ≠ r.place := by
    rintro rfl
    exact hdropped hlabels
  exact (Function.update_of_ne hne _ _).trans (h.failures labels hlabels)

/-- A loss of a kept row is new among all losses exactly when it is new among the kept ones. -/
theorem lost_iff (h : Agrees keep rs o o') (hsep : Separated keep rs) (hr : r ∈ rs)
    (hkept : r.kept keep) :
    (∃ q ∈ o.losses, q.metric = r.loss.metric ∧ q.address = r.loss.address) ↔
      ∃ q ∈ o'.losses, q.metric = r.loss.metric ∧ q.address = r.loss.address := by
  constructor
  · rintro ⟨q, hq, hmetric, haddr⟩
    obtain ⟨r', hr', hname, hcontract⟩ := h.origin q hq
    have hkept' : keep q.contract := by
      by_contra hnot
      rw [hcontract] at hnot
      exact hsep r hr r' hr' hkept hnot (hmetric.symm.trans hname)
    exact ⟨q, h.losses ▸ List.mem_filter.mpr ⟨hq, hkept'⟩, hmetric, haddr⟩
  · rintro ⟨q, hq, heq⟩
    rw [h.losses] at hq
    exact ⟨q, List.mem_of_mem_filter hq, heq⟩

theorem origin_lose (h : Agrees keep rs o o') (hr : r ∈ rs) :
    ∀ p ∈ (o.lose r.loss).losses, ∃ r ∈ rs, p.metric = r.name ∧ p.contract = r.site.contract.name := by
  intro p hp
  unfold Readings.lose at hp
  split_ifs at hp
  · exact h.origin p hp
  · rcases List.mem_append.mp hp with hp | hp
    · exact h.origin p hp
    · obtain rfl := List.mem_singleton.mp hp
      exact ⟨r, hr, rfl, rfl⟩

theorem lose (h : Agrees keep rs o o') (hsep : Separated keep rs) (hr : r ∈ rs)
    (hkept : r.kept keep) : Agrees keep rs (o.lose r.loss) (o'.lose r.loss) := by
  have horigin := h.origin_lose hr
  unfold Readings.lose at horigin ⊢
  rw [if_congr (h.lost_iff hsep hr hkept).symm rfl rfl]
  by_cases hlost : ∃ q ∈ o.losses, q.metric = r.loss.metric ∧ q.address = r.loss.address
  · rw [if_pos hlost, if_pos hlost]
    exact h
  · rw [if_neg hlost] at horigin ⊢
    rw [if_neg hlost]
    refine ⟨h.values, h.failures, ?_, horigin⟩
    have hone : [r.loss].filter (fun p => keep p.contract) = [r.loss] :=
      List.filter_cons_of_pos hkept
    rw [List.filter_append, hone, ← h.losses]

theorem lose_dropped (h : Agrees keep rs o o') (hr : r ∈ rs) (hdropped : ¬ r.kept keep) :
    Agrees keep rs (o.lose r.loss) o' := by
  have horigin := h.origin_lose hr
  unfold Readings.lose at horigin ⊢
  split_ifs at horigin ⊢
  · exact h
  · refine ⟨h.values, h.failures, ?_, horigin⟩
    have hnone : [r.loss].filter (fun p => keep p.contract) = [] :=
      List.filter_cons_of_neg hdropped
    rw [List.filter_append, hnone, List.append_nil]
    exact h.losses

theorem read (h : Agrees keep rs o o') (hsep : Separated keep rs) (hr : r ∈ rs)
    (hkept : r.kept keep) : Agrees keep rs (o.read d cfg rs chain n r)
      (o'.read d (cfg.restrict keep) (rs.filter (Row.kept keep)) chain n r) := by
  unfold Readings.read
  rw [hsep.series_eq cfg hr hkept]
  split
  · exact (h.set _ _).lose hsep hr hkept
  · exact h.set _ _
  · exact h.fail hkept

theorem read_dropped (h : Agrees keep rs o o') (hsep : Separated keep rs) (hr : r ∈ rs)
    (hdropped : ¬ r.kept keep) : Agrees keep rs (o.read d cfg rs chain n r) o' := by
  unfold Readings.read
  split
  · exact (h.set_dropped hsep hr hdropped _ _).lose_dropped hr hdropped
  · exact h.set_dropped hsep hr hdropped _ _
  · exact h.fail_dropped hdropped

/-- Reading all rows and reading those that are kept stay in agreement. -/
theorem readAt (h : Agrees keep rs o o') (hsep : Separated keep rs) (blocks : List ℕ) :
    Agrees keep rs (o.readAt d cfg rs chain blocks)
      (o'.readAt d (cfg.restrict keep) (rs.filter (Row.kept keep)) chain blocks) := by
  induction blocks generalizing o o' with
  | nil => exact h
  | cons n blocks ih =>
    refine ih (foldl_filter_related (fun r hr hkept o o' h => ?_) (fun r hr hdropped o o' h => ?_) h)
    · exact h.read hsep hr hkept
    · exact h.read_dropped hsep hr hdropped

end Agrees

/-! ### Runs -/

/-- The entries of a plan know which contract they read. -/
theorem separated_of_entries (hsep : ∀ e ∈ (planOf cfg sites).entries,
    ∀ e' ∈ (planOf cfg sites).entries, keep e.contractName → ¬ keep e'.contractName →
      e.metricName ≠ e'.metricName) : Separated keep (rows sites) := by
  intro r hr r' hr'
  exact hsep _ (List.mem_map_of_mem hr) _ (List.mem_map_of_mem hr')

/-- Leaving out the contracts of some names, or adding them, changes nothing for the others. If
the contracts of a planned configuration share no metric name with those left out, they are
planned without them, and in any two runs against truthful nodes of one chain that complete at the same
blocks both exporters show the same value in each series of theirs, count the same call
errors for them and log the same losses of precision, in the same order. -/
theorem contracts_isolated {raw : Config} {baseDir : String}
    (hv : validate d baseDir raw = .ok cfg) (hprom : d.IgnoresOtherNames) {plan : Plan}
    {registry registry' : Registry} (hb : build d cfg registry = .ok (plan, registry'))
    (hsep : ∀ e ∈ plan.entries, ∀ e' ∈ plan.entries,
      keep e.contractName → ¬ keep e'.contractName → e.metricName ≠ e'.metricName) :
    ∃ plan' registry'', build d (cfg.restrict keep) registry = .ok (plan', registry'') ∧
      ∀ (chain : Multicall.Chain) (drv drv' : Multicall.Driver) (acts acts' : List RunAct)
        (s s' : RunState) (lives lives' : List LiveAttempt),
        execute (RunState.step d ⟨cfg, plan⟩) .initial acts = some s →
        execute (RunState.step d ⟨cfg.restrict keep, plan'⟩) .initial acts' = some s' →
        (acts.filterMap RunAct.attempt? = lives.map fun l => l.attempt drv) →
        (acts'.filterMap RunAct.attempt? = lives'.map fun l => l.attempt drv') →
        (∀ l ∈ lives, Multicall.TimedNode.Truthful l.chunk chain) →
        (∀ l ∈ lives', Multicall.TimedNode.Truthful l.chunk chain) →
        (lives.filterMap fun l => l.completedAt drv ⟨cfg, plan⟩) =
          (lives'.filterMap fun l => l.completedAt drv' ⟨cfg.restrict keep, plan'⟩) →
        (∀ e ∈ plan'.entries, s.metrics.gauges e.series = s'.metrics.gauges e.series) ∧
        (∀ labels : String × String × String, keep labels.1 →
          s.metrics.callErrorsTotal labels = s'.metrics.callErrorsTotal labels) ∧
        s'.metrics.precisionLossWarnings =
          s.metrics.precisionLossWarnings.filter fun p => keep p.contract := by
  obtain ⟨sites, hsites, rfl⟩ := build_eq_planOf hb
  have hsep := separated_of_entries hsep
  obtain ⟨⟨plan', registry''⟩, hb'⟩ :=
    build_restrict hprom (validate_valid hv).populated hb hsites hsep
  refine ⟨plan', registry'', hb', ?_⟩
  obtain ⟨sites', hsites', rfl⟩ := build_eq_planOf hb'
  obtain rfl := Except.ok.inj ((sitesOf_restrict hsites).symm.trans hsites')
  intro chain drv drv' acts acts' s s' lives lives' h h' hlives hlives' hnode hnode' hblocks
  have hshows := execution_shows h hlives hnode
  have hshows' := execution_shows h' hlives' hnode'
  generalize (lives.filterMap fun l => l.completedAt drv ⟨cfg, planOf cfg sites⟩) = blocks
    at hshows hblocks
  rw [← hblocks, rows_restrict] at hshows'
  have hagrees : Agrees keep (rows sites)
      (Readings.empty.readAt d cfg (rows sites) chain blocks)
      (Readings.empty.readAt d (cfg.restrict keep) ((rows sites).filter (Row.kept keep)) chain
        blocks) := Agrees.empty.readAt hsep blocks
  refine ⟨fun e he => ?_, fun labels hlabels => ?_, ?_⟩
  · obtain ⟨r, hr, rfl⟩ := List.mem_map.mp he
    rw [rows_restrict] at hr
    obtain ⟨hr, hkept⟩ := List.mem_filter.mp hr
    rw [hshows.gauges, hshows'.gauges]
    exact hagrees.values r hr hkept _
  · rw [hshows.callErrorsTotal, hshows'.callErrorsTotal]
    exact hagrees.failures labels hlabels
  · rw [hshows.warnings, hshows'.warnings]
    exact hagrees.losses

/-! ### Two tokens -/

/-- The supply of the token and of another one at the same address, read as a vault. -/
def tokenAndVault : Config :=
  { halfMinuteConfig with contracts := halfMinuteConfig.contracts ++
      halfMinuteConfig.contracts.map fun ct => { ct with name := "vault" } }

def isToken (name : String) : Bool := name = "token"

/-- An accepted configuration, planned with all its contracts and with some of them. -/
def planBoth (d : Deps) (raw : Config) (keep : String → Bool) :
    Except Error (Config × (Plan × Registry) × Plan × Registry) := do
  let cfg ← validate d "." raw
  let planned ← build d cfg []
  let planned' ← build d (cfg.restrict keep) []
  return (cfg, planned, planned')

theorem planBoth_eq_ok {raw : Config} {planned planned' : Plan × Registry}
    (h : planBoth d raw keep = .ok (cfg, planned, planned')) :
    validate d "." raw = .ok cfg ∧ build d cfg [] = .ok planned ∧
      build d (cfg.restrict keep) [] = .ok planned' := by
  simp only [planBoth, bind_eq_ok, pure_eq_ok, Prod.mk.injEq] at h
  obtain ⟨_, hv, _, hb, _, hb', rfl, rfl, rfl⟩ := h
  exact ⟨hv, hb, hb'⟩

/-- The supply of the token is read and shown as it is without the vault. -/
theorem vault_left_out :
    ∃ cfg plan registry plan' registry' s s',
      build reference cfg [] = .ok (plan, registry) ∧ plan.entries.length = 2 ∧
      build reference (cfg.restrict isToken) [] = .ok (plan', registry') ∧
      plan'.entries.map Entry.series = [("token_total_supply", [Reference.tokenAddress, "1"])] ∧
      execute (RunState.step reference ⟨cfg, plan⟩) .initial sevenActs = some s ∧
      execute (RunState.step reference ⟨cfg.restrict isToken, plan'⟩) .initial sevenActs =
        some s' ∧
      s.metrics.gauges ("token_total_supply", [Reference.tokenAddress, "1"]) =
        s'.metrics.gauges ("token_total_supply", [Reference.tokenAddress, "1"]) := by
  have hplans : (planBoth reference tokenAndVault isToken).toOption.any
      (fun (cfg, (plan, _), plan', _) => plan.entries.length = 2 &&
        plan'.entries.map Entry.series = [("token_total_supply", [Reference.tokenAddress, "1"])] &&
        (∀ e ∈ plan.entries, ∀ e' ∈ plan.entries,
          isToken e.contractName → ¬ isToken e'.contractName → e.metricName ≠ e'.metricName) &&
        (execute (RunState.step reference ⟨cfg, plan⟩) .initial sevenActs).isSome &&
        (execute (RunState.step reference ⟨cfg.restrict isToken, plan'⟩) .initial
          sevenActs).isSome &&
        [100, 200].all (fun n => (servedAttempt sevenChain n).completedAt multicall3 ⟨cfg, plan⟩ =
            some n ∧
          (servedAttempt sevenChain n).completedAt multicall3
            ⟨cfg.restrict isToken, plan'⟩ = some n)) = true := by
    decide +kernel
  obtain ⟨⟨cfg, ⟨plan, registry⟩, plan', registry'⟩, hok, h⟩ := (Option.any_eq_true _ _).mp hplans
  obtain ⟨hv, hb, hb'⟩ := planBoth_eq_ok (toOption_eq_some.mp hok)
  simp only [Bool.and_eq_true, decide_eq_true_eq, List.all_eq_true] at h
  obtain ⟨⟨⟨⟨⟨htwo, hone⟩, hsep⟩, hs⟩, hs'⟩, hblocks⟩ := h
  obtain ⟨s, hs⟩ := Option.isSome_iff_exists.mp hs
  obtain ⟨s', hs'⟩ := Option.isSome_iff_exists.mp hs'
  have hnode : ∀ l ∈ [servedAttempt sevenChain 100, servedAttempt sevenChain 200],
      Multicall.TimedNode.Truthful l.chunk sevenChain := by
    simp [(servedAttempt_served sevenChain _).truthful]
  obtain ⟨planned, _, hbuilt, hruns⟩ := contracts_isolated hv Reference.ignoresOtherNames hb
    hsep
  obtain ⟨rfl, rfl⟩ := Prod.mk.inj (Except.ok.inj (hbuilt.symm.trans hb'))
  obtain ⟨hgauges, -, -⟩ := hruns sevenChain multicall3 multicall3 _ _ s s' _ _ hs hs' rfl rfl hnode
    hnode (by simp [hblocks])
  obtain ⟨e, hentries, hseries⟩ := List.map_eq_singleton_iff.mp hone
  refine ⟨cfg, plan, registry, _, _, s, s', hb, htwo, hb', hone, hs, hs', ?_⟩
  rw [← hseries]
  exact hgauges e (by simp [hentries])

end EvmExporter
