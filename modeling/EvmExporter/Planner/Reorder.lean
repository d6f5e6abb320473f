import EvmExporter.Planner.Success
import EvmExporter.Reference

/-! The plan of a reordered configuration. A site does not depend on the lists its contract is
part of, so reordering contracts, instances and metrics permutes the sites; and what the plan
makes of the rows of all sites, the help texts, the label keys and the distinct calls, is
the same for every order of them. -/

namespace EvmExporter

open Lib

/-! ### Reordering -/

/-- A contract without its instances and metrics. -/
def Contract.core (ct : Contract) : Contract := { ct with instances := [], metrics := [] }

/-- The same contract with its instances and its metrics in another order. -/
structure Contract.Reordered (ct ct' : Contract) : Prop where
  instances : ct.instances.Perm ct'.instances
  metrics : ct.metrics.Perm ct'.metrics
  core_eq : ct.core = ct'.core

/-- The same configuration with its contracts in another order, each of them reordered. -/
structure Config.Reordered (cfg cfg' : Config) : Prop where
  contracts : ∃ contracts, cfg.contracts.Perm contracts ∧
    List.Forall₂ Contract.Reordered contracts cfg'.contracts
  rest_eq : cfg' = { cfg with contracts := cfg'.contracts }

theorem Contract.Reordered.symm {ct ct' : Contract} (h : ct.Reordered ct') : ct'.Reordered ct :=
  ⟨h.instances.symm, h.metrics.symm, h.core_eq.symm⟩

theorem Config.Reordered.symm {cfg cfg' : Config} (h : cfg.Reordered cfg') :
    cfg'.Reordered cfg := by
  obtain ⟨contracts, hperm, hcontracts⟩ := h.contracts
  obtain ⟨contracts', hcontracts', hperm'⟩ := List.perm_comp_forall₂ hperm hcontracts
  constructor
  · exact ⟨contracts', hperm'.symm, hcontracts'.flip.imp fun _ _ => Contract.Reordered.symm⟩
  · rw [h.rest_eq]

theorem Config.Reordered.populated {cfg cfg' : Config} (h : cfg.Reordered cfg')
    (hpop : cfg.Populated) : cfg'.Populated := by
  obtain ⟨contracts, hperm, hcontracts⟩ := h.contracts
  intro ct' hct'
  obtain ⟨ct, hct, hre⟩ := exists_of_forall₂ hcontracts ct' hct'
  obtain ⟨hinsts, hmetrics⟩ := hpop ct (hperm.mem_iff.mpr hct)
  exact ⟨fun h => hinsts (List.perm_nil.mp (h ▸ hre.instances)),
    fun h => hmetrics (List.perm_nil.mp (h ▸ hre.metrics))⟩

/-! ### Sites -/

/-- A place without the lists its contract holds. -/
def Place.core (p : Place) : Place := { p with contract := p.contract.core }

def Site.core (s : Site) : Site := { s with toPlace := s.toPlace.core }

def Row.core (r : Row) : Row := ⟨r.site.core, r.emit⟩

variable {d : Deps} {cfg cfg' : Config}

/-- Resolving a place does not look at those lists. -/
theorem resolveSite_core {p : Place} {s' : Site} : resolveSite d p.core = .ok s' ↔
    ∃ s, resolveSite d p = .ok s ∧ s.core = s' := by
  simp only [resolveSite, bind_eq_ok, pure_eq_ok]
  constructor
  · rintro ⟨abi, habi, addr, haddr, func, hfunc, callData, hdata, ⟨names, outputs⟩, hout, emits,
      hemits, rfl⟩
    exact ⟨_, ⟨abi, habi, addr, haddr, func, hfunc, callData, hdata, ⟨names, outputs⟩, hout, emits,
      hemits, rfl⟩, rfl⟩
  · rintro ⟨_, ⟨abi, habi, addr, haddr, func, hfunc, callData, hdata, ⟨names, outputs⟩, hout, emits,
      hemits, rfl⟩, rfl⟩
    exact ⟨abi, habi, addr, haddr, func, hfunc, callData, hdata, ⟨names, outputs⟩, hout, emits,
      hemits, rfl⟩

/-- The places of a contract, without its lists. -/
def corePlaces (ct : Contract) : List Place :=
  ct.instances.flatMap fun inst => ct.metrics.flatMap fun m =>
    (expandMetricCalls m).map fun sc => ⟨ct.core, inst, m, sc⟩

theorem places_core (cfg : Config) :
    (places cfg).map Place.core = cfg.contracts.flatMap corePlaces := by
  simp only [places, List.map_flatMap, List.map_map]
  rfl

theorem Contract.Reordered.corePlaces_perm {ct ct' : Contract} (h : ct.Reordered ct') :
    (corePlaces ct).Perm (corePlaces ct') := by
  unfold corePlaces
  rw [h.core_eq]
  exact h.instances.flatMap fun inst _ => h.metrics.flatMap_right _

theorem Config.Reordered.places_perm (h : cfg.Reordered cfg') :
    ((places cfg).map Place.core).Perm ((places cfg').map Place.core) := by
  obtain ⟨contracts, hperm, hcontracts⟩ := h.contracts
  rw [places_core, places_core]
  refine (hperm.flatMap_right _).trans (flatMap_perm_of_forall₂ ?_)
  exact hcontracts.imp fun _ _ => Contract.Reordered.corePlaces_perm

/-- The sites of a reordered configuration are those of the original, permuted. -/
theorem Config.Reordered.sites_perm (h : cfg.Reordered cfg') {sites : List Site}
    (hsites : sitesOf d cfg = .ok sites) : ∃ sites', sitesOf d cfg' = .ok sites' ∧
      (sites.map Site.core).Perm (sites'.map Site.core) := by
  have hcore : ((places cfg).map Place.core).mapM (resolveSite d) = .ok (sites.map Site.core) := by
    rw [mapM_eq_ok, List.forall₂_map_left_iff, List.forall₂_map_right_iff]
    exact (mapM_eq_ok.mp hsites).imp fun p s hs => resolveSite_core.mpr ⟨s, hs, rfl⟩
  obtain ⟨cores, hcores, hperm⟩ := mapM_perm h.places_perm hcore
  rw [mapM_eq_ok, List.forall₂_map_left_iff] at hcores
  obtain ⟨sites', hsites', hmap⟩ := mapM_of_forall₂ (f := resolveSite d)
    (hcores.imp fun p s' hs => resolveSite_core.mp hs)
  obtain rfl : sites'.map Site.core = cores := by
    simpa using map_eq_map_of_forall₂ (g := id) hmap
  exact ⟨sites', hsites', hperm⟩

/-! ### Rows -/

theorem rows_core (sites : List Site) :
    (rows sites).map Row.core = rows (sites.map Site.core) := by
  simp only [rows, List.map_flatMap, List.flatMap_map, List.map_map]
  rfl

theorem rows_perm {sites sites' : List Site}
    (h : (sites.map Site.core).Perm (sites'.map Site.core)) :
    ((rows sites).map Row.core).Perm ((rows sites').map Row.core) := by
  rw [rows_core, rows_core]
  exact h.flatMap_right _

section Rows

variable {rs rs' : List Row} (hperm : (rs.map Row.core).Perm (rs'.map Row.core))

include hperm

/-- Every row has a partner of its name, help text and labels. -/
theorem exists_row (cfg : Config) {r : Row} (hr : r ∈ rs) :
    ∃ r' ∈ rs', r'.name = r.name ∧ r'.help = r.help ∧ r'.labels cfg = r.labels cfg := by
  obtain ⟨r', hr', hcore⟩ := List.mem_map.mp (hperm.mem_iff.mp (List.mem_map_of_mem hr))
  have hname : r'.core.name = r.core.name := congrArg Row.name hcore
  have hhelp : r'.core.help = r.core.help := congrArg Row.help hcore
  have hlabels : r'.core.labels cfg = r.core.labels cfg := congrArg (Row.labels cfg) hcore
  exact ⟨r', hr', hname, hhelp, hlabels⟩

theorem mem_names_of_perm {n : String} (hn : n ∈ rs.map Row.name) : n ∈ rs'.map Row.name := by
  obtain ⟨r, hr, rfl⟩ := List.mem_map.mp hn
  obtain ⟨r', hr', hname, -⟩ := exists_row hperm {} hr
  exact List.mem_map.mpr ⟨r', hr', hname⟩

theorem HelpsAgree.of_perm (h : HelpsAgree rs) : HelpsAgree rs' := by
  intro a ha b hb hname hne hne'
  obtain ⟨a', ha', haname, hahelp, -⟩ := exists_row hperm.symm {} ha
  obtain ⟨b', hb', hbname, hbhelp, -⟩ := exists_row hperm.symm {} hb
  rw [← hahelp, ← hbhelp]
  exact h a' ha' b' hb' (by rw [haname, hbname, hname]) (hahelp ▸ hne) (hbhelp ▸ hne')

theorem helpOf_of_perm (h : HelpsAgree rs) {n help : String} (hn : helpOf rs n = some help) :
    helpOf rs' n = some help := by
  obtain ⟨hne, r, hr, rfl, rfl⟩ := helpOf_mem hn
  obtain ⟨r', hr', hname, hhelp, -⟩ := exists_row hperm {} hr
  rw [← hname, ← hhelp]
  exact helpOf_of_mem (h.of_perm hperm) hr' (hhelp ▸ hne)

theorem mem_labelUnion_of_perm {n k : String} (hk : k ∈ (labelUnion cfg rs n).keys) :
    k ∈ (labelUnion cfg rs' n).keys := by
  obtain ⟨r, hr, hname, hk⟩ := mem_labelUnion.mp hk
  obtain ⟨r', hr', hname', -, hlabels⟩ := exists_row hperm cfg hr
  exact mem_labelUnion.mpr ⟨r', hr', hname'.trans hname, hlabels ▸ hk⟩

/-- The schema of a name does not depend on the order of the rows. -/
theorem familyOf_perm (h : HelpsAgree rs) : familyOf cfg rs' = familyOf cfg rs := by
  funext n
  have hhelp : helpOf rs' n = helpOf rs n := by
    ext help
    exact ⟨helpOf_of_perm hperm.symm (h.of_perm hperm), helpOf_of_perm hperm h⟩
  have hkeys : labelUnion cfg rs' n = labelUnion cfg rs n :=
    SortedSet.ext fun k => ⟨mem_labelUnion_of_perm hperm.symm, mem_labelUnion_of_perm hperm⟩
  rw [familyOf, familyOf, hhelp, hkeys]

end Rows

/-! ### Plans -/

/-- The entries of a plan, each with the request it reads in place of its position. -/
def Plan.located (plan : Plan) : List (Option CallRequest × Entry) :=
  plan.entries.map fun e => (plan.calls[e.callIndex]?, { e with callIndex := 0 })

theorem located_planOf (sites : List Site) : (planOf cfg sites).located =
    ((rows sites).map Row.core).map fun r =>
      (some r.site.request, r.entry cfg (familyOf cfg (rows sites) r.name) 0) := by
  simp only [Plan.located, planOf, List.map_map]
  apply List.map_congr_left
  intro r hr
  have hreq : r.site.request ∈ sites.map Site.request :=
    List.mem_map_of_mem (mem_rows.mp hr).1
  have hcall : (distinctCalls sites)[(distinctCalls sites).idxOf r.site.request]? =
      some r.site.request := getElem?_idxOf_eraseDups hreq
  simp only [Function.comp_apply, Row.entry, hcall]
  rfl

theorem distinctCalls_perm {sites sites' : List Site}
    (h : (sites.map Site.core).Perm (sites'.map Site.core)) :
    (distinctCalls sites).Perm (distinctCalls sites') := by
  have hreqs : (sites.map Site.request).Perm (sites'.map Site.request) := by
    have hmap := h.map Site.request
    rwa [List.map_map, List.map_map] at hmap
  refine (List.perm_ext_iff_of_nodup (nodup_eraseDups _) (nodup_eraseDups _)).mpr fun req => ?_
  rw [List.mem_eraseDups, List.mem_eraseDups, hreqs.mem_iff]

/-- The schemas and the entries are made with the rest of the configuration. -/
theorem Config.Reordered.familyOf_eq (h : cfg.Reordered cfg') : familyOf cfg' = familyOf cfg := by
  obtain ⟨contracts, rfl⟩ : ∃ contracts, cfg' = { cfg with contracts } := ⟨_, h.rest_eq⟩
  rfl

theorem Config.Reordered.planOf_eq (h : cfg.Reordered cfg') : planOf cfg' = planOf cfg := by
  obtain ⟨contracts, rfl⟩ : ∃ contracts, cfg' = { cfg with contracts } := ⟨_, h.rest_eq⟩
  rfl

theorem located_perm {sites sites' : List Site} (hagree : HelpsAgree (rows sites))
    (h : (sites.map Site.core).Perm (sites'.map Site.core)) :
    (planOf cfg sites).located.Perm (planOf cfg sites').located := by
  rw [located_planOf, located_planOf, familyOf_perm (rows_perm h) hagree]
  exact (rows_perm h).map _

theorem Config.Reordered.builds (h : cfg.Reordered cfg') (hprom : d.IgnoresOtherNames)
    (hpop : cfg.Populated) {registry : Registry}
    (hb : ∃ planned, build d cfg registry = .ok planned) :
    ∃ planned, build d cfg' registry = .ok planned := by
  obtain ⟨sites, hsites, hagree, haccepts⟩ := (build_succeeds_iff hprom hpop).mp hb
  obtain ⟨sites', hsites', hperm⟩ := h.sites_perm hsites
  have hrows := rows_perm hperm
  refine (build_succeeds_iff hprom (h.populated hpop)).mpr
    ⟨sites', hsites', hagree.of_perm hrows, fun n hn => ?_⟩
  rw [h.familyOf_eq, familyOf_perm hrows hagree]
  exact haccepts n (mem_names_of_perm hrows.symm hn)

/-- Reordering a validated configuration changes neither whether it is planned nor, up to the
order of the calls, what is registered, called and read. -/
theorem build_reordered (hprom : d.IgnoresOtherNames) {baseDir : String} {raw : Config}
    (hv : validate d baseDir raw = .ok cfg) (hre : cfg.Reordered cfg') (registry : Registry) :
    ((∃ planned, build d cfg registry = .ok planned) ↔
      ∃ planned, build d cfg' registry = .ok planned) ∧
    ∀ plan plan' registered registered', build d cfg registry = .ok (plan, registered) →
      build d cfg' registry = .ok (plan', registered') →
      (∃ gauges gauges' : List GaugeVec, registered = gauges ++ registry ∧
        registered' = gauges' ++ registry ∧ gauges.Perm gauges') ∧
      plan.calls.Perm plan'.calls ∧ plan.chunkCount = plan'.chunkCount ∧
      plan.located.Perm plan'.located := by
  have hpop := (validate_valid hv).populated
  constructor
  · exact ⟨hre.builds hprom hpop, hre.symm.builds hprom (hre.populated hpop)⟩
  · intro plan plan' registered registered' hb hb'
    obtain ⟨sites, names, hsites, hagree, rfl, hnd, hnames, rfl⟩ := build_outcome hb
    obtain ⟨sites', names', hsites', -, rfl, hnd', hnames', rfl⟩ := build_outcome hb'
    obtain ⟨sites'', hsites'', hperm⟩ := hre.sites_perm hsites
    obtain rfl := Except.ok.inj (hsites'.symm.trans hsites'')
    have hrows := rows_perm hperm
    have hcalls := distinctCalls_perm hperm
    rw [hre.planOf_eq, hre.familyOf_eq, familyOf_perm hrows hagree]
    refine ⟨⟨_, _, rfl, rfl, ?_⟩, hcalls, ?_, located_perm hagree hperm⟩
    · have hsame : names.Perm names' := by
        refine (List.perm_ext_iff_of_nodup hnd hnd').mpr fun n => ?_
        rw [hnames, hnames']
        exact ⟨mem_names_of_perm hrows, mem_names_of_perm hrows.symm⟩
      exact ((List.reverse_perm _).trans (hsame.map _)).trans (List.reverse_perm _).symm
    · rw [planOf, planOf, hcalls.length_eq]

theorem Reference.ignoresOtherNames : reference.toPrometheusLibrary.IgnoresOtherNames := by
  intro registry desc other hne
  change Reference.register (other :: registry) desc = .ok () ↔
    Reference.register registry desc = .ok ()
  simp [Reference.register, hne]

/-- The supply of a token and its decimals. -/
def supplyAndDecimals : Config :=
  Reference.tokenConfig [{ function := "totalSupply" }, { function := "decimals" }]

/-- The configuration with the metrics of its contracts in reverse. -/
def Config.reverseMetrics (cfg : Config) : Config :=
  { cfg with contracts := cfg.contracts.map fun ct => { ct with metrics := ct.metrics.reverse } }

theorem Config.reverseMetrics_reordered (cfg : Config) : cfg.Reordered cfg.reverseMetrics := by
  refine ⟨⟨cfg.contracts, .refl _, ?_⟩, rfl⟩
  rw [Config.reverseMetrics, List.forall₂_map_right_iff, List.forall₂_same]
  exact fun ct _ => ⟨.refl _, (List.reverse_perm _).symm, rfl⟩

/-- With its metrics in reverse the token is planned too, and reads the same two calls. -/
theorem decimals_first_planned :
    ∃ cfg plan registered plan' registered', validate reference "." supplyAndDecimals = .ok cfg ∧
      build reference cfg [] = .ok (plan, registered) ∧
      build reference cfg.reverseMetrics [] = .ok (plan', registered') ∧
      plan.calls.Perm plan'.calls ∧ plan.calls.length = 2 ∧ plan.located.Perm plan'.located := by
  obtain ⟨cfg, plan, registered, hv, hb, hlen⟩ := Reference.of_check supplyAndDecimals
    (fun _ plan => plan.calls.length = 2) (by decide +kernel)
  obtain ⟨hiff, hsame⟩ :=
    build_reordered Reference.ignoresOtherNames hv cfg.reverseMetrics_reordered []
  obtain ⟨⟨plan', registered'⟩, hb'⟩ := hiff.mp ⟨_, hb⟩
  obtain ⟨-, hcalls, -, hlocated⟩ := hsame plan plan' registered registered' hb hb'
  exact ⟨cfg, plan, registered, plan', registered', hv, hb, hb', hcalls, of_decide_eq_true hlen,
    hlocated⟩

end EvmExporter
