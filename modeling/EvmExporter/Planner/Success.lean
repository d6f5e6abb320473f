import EvmExporter.Laws
import EvmExporter.Planner.Schema

/-! When planning succeeds: every place resolves, the rows of one name agree on its help
text, and Prometheus accepts the gauge of every name. None of the three mentions an order:
the help table of the loop is filled first come first served, but it refuses a row exactly
when two rows of one name have different help texts. -/

namespace EvmExporter

open Lib

variable {d : Deps} {cfg : Config}

/-! ### Help texts -/

def Row.help (r : Row) : String := r.site.metric.help

/-- Rows of one name have one help text, but for empty ones. -/
def HelpsAgree (rs : List Row) : Prop :=
  ∀ r ∈ rs, ∀ r' ∈ rs, r.name = r'.name → r.help ≠ "" → r'.help ≠ "" → r.help = r'.help

theorem helpOf_mem {rs : List Row} {name help : String} (h : helpOf rs name = some help) :
    help ≠ "" ∧ ∃ r ∈ rs, r.name = name ∧ r.help = help := by
  have hne : help ≠ "" := by simpa using List.find?_some h
  obtain ⟨r, hr, hhelp⟩ := List.mem_map.mp (List.mem_of_find?_eq_some h)
  obtain ⟨hr, hname⟩ := List.mem_filter.mp hr
  exact ⟨hne, r, hr, of_decide_eq_true hname, hhelp⟩

/-- In agreement the help text of a name is that of any of its rows that has one. -/
theorem helpOf_of_mem {rs : List Row} (hagree : HelpsAgree rs) {r : Row} (hr : r ∈ rs)
    (hne : r.help ≠ "") : helpOf rs r.name = some r.help := by
  cases h : helpOf rs r.name with
  | none =>
    have hmem : r.help ∈ (rs.filter fun r' => r'.name = r.name).map fun r => r.site.metric.help :=
      List.mem_map_of_mem (List.mem_filter.mpr ⟨hr, by simp⟩)
    exact absurd (List.find?_eq_none.mp h r.help hmem) (by simpa using hne)
  | some help =>
    obtain ⟨hne', r', hr', hname, rfl⟩ := helpOf_mem h
    exact congrArg some (hagree r' hr' r hr hname hne' hne)

/-- A help text is refused only for a different one that is noted. -/
theorem noteHelp_succeeds_iff {name help : String} {helps : AList fun _ : String => String} :
    (∃ helps', noteHelp name help helps = .ok helps') ↔
      ∀ noted, nonEmpty (helps.lookup name) = some noted → help = "" ∨ noted = help := by
  unfold noteHelp
  cases hl : helps.lookup name with
  | none => simp [nonEmpty]
  | some noted =>
    by_cases hhelp : help = ""
    · simp [hhelp]
    · by_cases hnoted : noted = ""
      · simp [hhelp, hnoted]
      · by_cases heq : noted = help <;> simp [hhelp, hnoted, heq]

/-- Note the help text of a row. -/
def noteRow (helps : AList fun _ : String => String) (r : Row) :
    Except Error (AList fun _ : String => String) :=
  noteHelp r.name r.help helps

theorem noteRows_help {rs : List Row} {helps : AList fun _ : String => String}
    (h : rs.foldlM noteRow ∅ = .ok helps) (n : String) :
    nonEmpty (helps.lookup n) = helpOf rs n := by
  refine foldlM_invariant (fun pre helps => ∀ n, nonEmpty (helps.lookup n) = helpOf pre n)
    (fun n => rfl) (fun pre r helps helps' hI hstep n => ?_) h n
  rw [noteHelp_eq_ok hstep, hI, helpOf_append_singleton]
  rfl

theorem helpsAgree_append_singleton {rs : List Row} {r : Row} : HelpsAgree (rs ++ [r]) ↔
    HelpsAgree rs ∧ ∀ r' ∈ rs, r'.name = r.name → r'.help ≠ "" → r.help ≠ "" →
      r'.help = r.help := by
  constructor
  · intro h
    exact ⟨fun a ha b hb => h a (List.mem_append_left _ ha) b (List.mem_append_left _ hb),
      fun r' hr' => h r' (List.mem_append_left _ hr') r (by simp)⟩
  · rintro ⟨hrs, hr⟩ a ha b hb hname hne hne'
    rcases List.mem_append.mp ha with ha' | ha' <;> rcases List.mem_append.mp hb with hb' | hb'
    · exact hrs a ha' b hb' hname hne hne'
    · obtain rfl := List.mem_singleton.mp hb'
      exact hr a ha' hname hne hne'
    · obtain rfl := List.mem_singleton.mp ha'
      exact (hr b hb' hname.symm hne' hne).symm
    · rw [List.mem_singleton.mp ha', List.mem_singleton.mp hb']

/-- The help table takes in all rows exactly when they agree. -/
theorem noteRows_succeeds_iff {rs : List Row} :
    (∃ helps, rs.foldlM noteRow ∅ = .ok helps) ↔ HelpsAgree rs := by
  induction rs using List.reverseRecOn with
  | nil => exact ⟨fun _ r hr => absurd hr (by simp), fun _ => ⟨∅, rfl⟩⟩
  | append_singleton rs r ih =>
    rw [helpsAgree_append_singleton, ← ih]
    constructor
    · rintro ⟨helps', h⟩
      rw [List.foldlM_append] at h
      obtain ⟨helps, hrs, h⟩ := bind_eq_ok.mp h
      refine ⟨⟨helps, hrs⟩, fun r' hr' hname hne hne' => ?_⟩
      rw [List.foldlM_cons] at h
      obtain ⟨t, ht, -⟩ := bind_eq_ok.mp h
      have hnoted := noteHelp_succeeds_iff.mp ⟨t, ht⟩ r'.help
      rw [noteRows_help hrs, ← hname, helpOf_of_mem (ih.mp ⟨helps, hrs⟩) hr' hne] at hnoted
      exact (hnoted rfl).resolve_left hne'
    · rintro ⟨⟨helps, hrs⟩, hr⟩
      have hstep : ∃ helps', noteRow helps r = .ok helps' := by
        refine noteHelp_succeeds_iff.mpr fun noted hnoted => ?_
        rw [noteRows_help hrs] at hnoted
        obtain ⟨hne, r', hr', hname, rfl⟩ := helpOf_mem hnoted
        exact or_iff_not_imp_left.mpr fun hhelp => hr r' hr' hname hne hhelp
      obtain ⟨helps', hhelps'⟩ := hstep
      use helps'
      rw [List.foldlM_append, hrs]
      exact bind_eq_ok.mpr ⟨helps, rfl, bind_eq_ok.mpr ⟨helps', hhelps', rfl⟩⟩

/-! ### The loop over the sites -/

/-- Folding a site in notes the help texts of its rows. -/
theorem addSite_helps (cfg : Config) (acc : Acc) (s : Site) :
    (addSite cfg acc s).map Acc.helpByMetric =
      (s.emits.map (Row.mk s)).foldlM noteRow acc.helpByMetric := by
  rw [List.foldlM_map, addSite]
  refine map_foldlM (fun acc e => ?_) s.emits _
  simp only [addEmit, noteRow, Row.name, Row.help]
  cases noteHelp e.name s.metric.help acc.helpByMetric <;> rfl

/-- The loop completes exactly when the rows of the sites agree on their help texts. -/
theorem addSites_succeeds_iff {sites : List Site} :
    (∃ acc, sites.foldlM (addSite cfg) .empty = .ok acc) ↔ HelpsAgree (rows sites) := by
  have hmap := map_foldlM (p := Acc.helpByMetric) (g := fun helps s =>
    (s.emits.map (Row.mk s)).foldlM noteRow helps) (addSite_helps cfg) sites .empty
  rw [← noteRows_succeeds_iff]
  constructor
  · rintro ⟨acc, h⟩
    rw [h] at hmap
    exact ⟨acc.helpByMetric, foldlM_flatMap (fun s helps helps' hs => hs) hmap.symm⟩
  · rintro ⟨helps, h⟩
    have hnested := foldlM_of_flatMap (fun s _ helps helps' hs => hs) h
    cases hsites : sites.foldlM (addSite cfg) .empty with
    | ok acc => exact ⟨acc, rfl⟩
    | error e =>
      rw [hsites] at hmap
      cases hmap.trans hnested

/-- A place that resolves has an ABI and an address. -/
theorem resolveSite_finds {p : Place} {s : Site} (h : resolveSite d p = .ok s) :
    (∃ abi, contractAbi p.contract = .ok abi) ∧
      ∃ addr, instanceAddress d p.contract p.inst = .ok addr := by
  obtain ⟨rfl, hres⟩ := resolveSite_eq_ok h
  obtain ⟨abi, habi, -⟩ := hres.function_eq
  exact ⟨⟨abi, habi⟩, _, hres.address_eq⟩

/-- Every contract has instances and metrics. -/
def Config.Populated (cfg : Config) : Prop :=
  ∀ ct ∈ cfg.contracts, ct.instances ≠ [] ∧ ct.metrics ≠ []

theorem Config.Valid.populated (hv : cfg.Valid d) : cfg.Populated := by
  intro ct hct
  exact ⟨(hv.contracts_valid ct hct).instances_ne, (hv.contracts_valid ct hct).metrics_ne⟩

theorem expandMetricCalls_ne_nil (m : Metric) : expandMetricCalls m ≠ [] := by
  unfold expandMetricCalls
  split_ifs with h
  · simp
  · simpa using h

/-- Without empty loops the nested loops are the loop over the places. -/
theorem buildContracts_of_places (hpop : cfg.Populated) {acc acc' : Acc}
    (h : (places cfg).foldlM (fun acc p => resolveSite d p >>= addSite cfg acc) acc = .ok acc') :
    cfg.contracts.foldlM (buildContract d cfg) acc = .ok acc' := by
  refine foldlM_of_flatMap (fun ct hct acc acc' hloop => ?_) h
  obtain ⟨hinsts, hmetrics⟩ := hpop ct hct
  have hround : ∀ inst ∈ ct.instances, (∃ abi, contractAbi ct = .ok abi) ∧
      ∃ addr, instanceAddress d ct inst = .ok addr := by
    intro inst hinst
    obtain ⟨m, hm⟩ := List.exists_mem_of_ne_nil _ hmetrics
    obtain ⟨sc, hsc⟩ := List.exists_mem_of_ne_nil _ (expandMetricCalls_ne_nil m)
    obtain ⟨t, t', ht⟩ := exists_round_of_foldlM hloop ⟨ct, inst, m, sc⟩
      (List.mem_flatMap.mpr ⟨inst, hinst, List.mem_flatMap.mpr ⟨m, hm, List.mem_map_of_mem hsc⟩⟩)
    obtain ⟨s, hs, -⟩ := bind_eq_ok.mp ht
    exact resolveSite_finds hs
  obtain ⟨inst₀, hinst₀⟩ := List.exists_mem_of_ne_nil _ hinsts
  obtain ⟨⟨abi, habi⟩, -⟩ := hround inst₀ hinst₀
  refine bind_eq_ok.mpr ⟨abi, habi, foldlM_of_flatMap (fun inst hinst acc acc' hloop => ?_) hloop⟩
  obtain ⟨-, addr, haddr⟩ := hround inst hinst
  refine bind_eq_ok.mpr ⟨addr, haddr, foldlM_of_flatMap (fun m _ acc acc' hloop => ?_) hloop⟩
  rw [← List.flatMap_pure_eq_map] at hloop
  refine foldlM_of_flatMap (fun sc _ acc acc' hsc => ?_) hloop
  obtain ⟨t, ht, hsc⟩ := bind_eq_ok.mp hsc
  obtain rfl := pure_eq_ok.mp hsc
  exact (buildCall_eq_ok (p := ⟨ct, inst, m, sc⟩) habi haddr).mpr ht

/-! ### Registration -/

/-- Prometheus makes a gauge of the descriptor and adds it to the registry. -/
def Accepts (d : Deps) (registry : Registry) (gauge : GaugeVec) : Prop :=
  d.newDesc gauge = .ok () ∧ d.register registry gauge = .ok ()

/-- The gauges of distinct names do not get in each other's way. -/
theorem registerGauges_succeeds_iff (hprom : d.IgnoresOtherNames) {acc : Acc} {names : List String}
    (hnd : names.Nodup) {registry : Registry} {families : AList fun _ : String => Family} :
    (∃ s, names.foldlM (registerGauge d acc) (registry, families) = .ok s) ↔
      ∀ n ∈ names, Accepts d registry (acc.family n).gauge := by
  induction names generalizing registry families with
  | nil => exact ⟨fun _ n hn => absurd hn (by simp), fun _ => ⟨_, rfl⟩⟩
  | cons a names ih =>
    obtain ⟨ha, hnd⟩ := List.nodup_cons.mp hnd
    have hother : ∀ n ∈ names, (Accepts d ((acc.family a).gauge :: registry) (acc.family n).gauge ↔
        Accepts d registry (acc.family n).gauge) := by
      intro n hn
      have hne : (acc.family a).gauge.name ≠ (acc.family n).gauge.name := by
        rintro rfl
        exact ha hn
      exact and_congr_right fun _ => hprom registry _ _ hne
    have hstep : ∀ s, registerGauge d acc (registry, families) a = .ok s ↔
        Accepts d registry (acc.family a).gauge ∧
          s = ((acc.family a).gauge :: registry, families.insert a (acc.family a)) := by
      intro s
      simp only [registerGauge, ↓check_bind_eq_ok, pure_eq_ok, mapError_eq_ok, Accepts, and_assoc,
        eq_comm (a := s)]
      rfl
    rw [List.forall_mem_cons, List.foldlM_cons]
    constructor
    · rintro ⟨s, hs⟩
      obtain ⟨t, ht, hs⟩ := bind_eq_ok.mp hs
      obtain ⟨hok, rfl⟩ := (hstep t).mp ht
      exact ⟨hok, fun n hn => (hother n hn).mp ((ih hnd).mp ⟨s, hs⟩ n hn)⟩
    · rintro ⟨hok, hall⟩
      obtain ⟨s, hs⟩ := (ih hnd).mpr fun n hn => (hother n hn).mpr (hall n hn)
      exact ⟨s, bind_eq_ok.mpr ⟨_, (hstep _).mpr ⟨hok, rfl⟩, hs⟩⟩

/-! ### The planner -/

theorem hashOrder_nodup (acc : Acc) : (d.hashOrder acc.keysByMetric.keys).Nodup :=
  (d.hashOrder_perm _).nodup_iff.mpr acc.keysByMetric.keys_nodup

theorem Acc.Reflects.mem_hashOrder {reqs : List CallRequest} {rs : List Row} {acc : Acc}
    (h : acc.Reflects cfg reqs rs) {n : String} :
    n ∈ d.hashOrder acc.keysByMetric.keys ↔ n ∈ rs.map Row.name :=
  EvmExporter.mem_hashOrder.trans (h.names n)

/-- What planning has done when it completes: the help texts agree, and each name of a row has
its gauge registered once. -/
theorem build_outcome {registry registry' : Registry} {plan : Plan}
    (h : build d cfg registry = .ok (plan, registry')) :
    ∃ sites, ∃ names : List String, sitesOf d cfg = .ok sites ∧ HelpsAgree (rows sites) ∧
      plan = planOf cfg sites ∧ names.Nodup ∧ (∀ n, n ∈ names ↔ n ∈ (rows sites).map Row.name) ∧
      registry' = (names.map fun n => (familyOf cfg (rows sites) n).gauge).reverse ++ registry := by
  obtain ⟨sites, hsites, hplan⟩ := build_eq_planOf h
  simp only [build, bind_eq_ok, pure_eq_ok] at h
  obtain ⟨acc, hacc, ⟨registry'', families⟩, hreg, entries, -, hres⟩ := h
  obtain ⟨sites', hsites', hfold⟩ := foldlM_bind_eq_ok.mp (buildContracts_eq_ok hacc)
  obtain rfl := Except.ok.inj (hsites.symm.trans hsites')
  have hr := reflects_of_sites hfold
  obtain ⟨-, rfl⟩ := Prod.mk.inj hres
  refine ⟨sites, d.hashOrder acc.keysByMetric.keys, hsites, addSites_succeeds_iff.mp ⟨acc, hfold⟩,
    hplan, hashOrder_nodup acc, fun n => hr.mem_hashOrder, ?_⟩
  simpa only [hr.family_eq] using (registerGauges_eq_ok hreg).1

/-- A populated configuration is planned exactly when its places resolve, its help texts agree
and Prometheus accepts its gauges. -/
theorem build_succeeds_iff (hprom : d.IgnoresOtherNames) (hpop : cfg.Populated)
    {registry : Registry} : (∃ planned, build d cfg registry = .ok planned) ↔
      ∃ sites, sitesOf d cfg = .ok sites ∧ HelpsAgree (rows sites) ∧
        ∀ n ∈ (rows sites).map Row.name,
          Accepts d registry (familyOf cfg (rows sites) n).gauge := by
  constructor
  · rintro ⟨planned, h⟩
    simp only [build, bind_eq_ok] at h
    obtain ⟨acc, hacc, s, hreg, -⟩ := h
    obtain ⟨sites, hsites, hfold⟩ := foldlM_bind_eq_ok.mp (buildContracts_eq_ok hacc)
    have hr := reflects_of_sites hfold
    have haccepts := (registerGauges_succeeds_iff hprom (hashOrder_nodup acc)).mp ⟨s, hreg⟩
    simp only [hr.family_eq, hr.mem_hashOrder] at haccepts
    exact ⟨sites, hsites, addSites_succeeds_iff.mp ⟨acc, hfold⟩, haccepts⟩
  · rintro ⟨sites, hsites, hagree, haccepts⟩
    obtain ⟨acc, hfold⟩ := addSites_succeeds_iff.mpr hagree
    have hr := reflects_of_sites hfold
    have hacc := buildContracts_of_places hpop (foldlM_bind_eq_ok.mpr ⟨sites, hsites, hfold⟩)
    have hnames : ∀ n ∈ d.hashOrder acc.keysByMetric.keys,
        Accepts d registry (acc.family n).gauge := by
      intro n hn
      rw [hr.family_eq]
      exact haccepts n (hr.mem_hashOrder.mp hn)
    obtain ⟨s, hreg⟩ : ∃ s, (d.hashOrder acc.keysByMetric.keys).foldlM (registerGauge d acc)
        (registry, ∅) = .ok s :=
      (registerGauges_succeeds_iff hprom (hashOrder_nodup acc)).mpr hnames
    have hfam : ∀ n ∈ acc.keysByMetric, s.2.lookup n = some (acc.family n) := by
      intro n hn
      exact (registerGauges_eq_ok hreg).2 n (mem_hashOrder.mpr hn)
    simp only [build, bind_eq_ok]
    exact ⟨_, acc, hacc, s, hreg, _, hr.entries_eq hfam, rfl⟩

end EvmExporter
