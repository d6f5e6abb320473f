import EvmExporter.Planner.Schema
import EvmExporter.Reference

/-! Which labels identify a series, and which of the configured ones they are. An entry is
told apart by its name, its address and the labels merged from the top level, the
contract, the instance and the call set. The labels of a metric take no part in the
merge, so they are honoured only where another level makes up for it. -/

namespace EvmExporter

open Lib

variable {d : Deps} {cfg raw : Config} {baseDir : String} {plan : Plan}
  {registry registry' : Registry}

/-! ### Series -/

/-- Two entries write the same series exactly when their metric names and their addresses agree
and the configured levels give every label the same value, an absent one being empty. -/
theorem entries_same_series_iff (hv : validate d baseDir raw = .ok cfg)
    (hb : build d cfg registry = .ok (plan, registry')) :
    ∃ sites, sitesOf d cfg = .ok sites ∧ (plan.produced sites).map Prod.snd = plan.entries ∧
      ∀ r e r' e', (r, e) ∈ plan.produced sites → (r', e') ∈ plan.produced sites →
        ((e.metricName, e.labelValues) = (e'.metricName, e'.labelValues) ↔
          e.metricName = e'.metricName ∧ e.address = e'.address ∧
            ∀ k, (r.site.toPlace.label cfg k).getD "" = (r'.site.toPlace.label cfg k).getD "") := by
  obtain ⟨sites, hsites, rfl⟩ := build_eq_planOf hb
  have hfree := rows_labels_free (validate_valid hv) hsites
  use sites, hsites, produced_entries sites
  intro r e r' e' he he'
  obtain ⟨hr, rfl⟩ := mem_produced.mp he
  obtain ⟨hr', rfl⟩ := mem_produced.mp he'
  rw [Prod.mk.injEq]
  apply and_congr_right
  intro (hname : r.name = r'.name)
  have hiff := labelValues_eq_iff hr hr' hfree hname
  simp only [Row.entry, ← hname, ← mergeLabels_get?_eq_label]
  exact hiff

/-- Two holders of a token, told apart by nothing but the argument of the call. -/
def twoHolders : Config := Reference.tokenConfig [{
  function := "balanceOf"
  calls := [
    { args := [.string "0x0000000000000000000000000000000000000010"] },
    { args := [.string "0x0000000000000000000000000000000000000011"] }] }]

/-- Two different calls of one plan write the same series. -/
theorem two_holders_one_series :
    ∃ cfg plan registry, validate reference "." twoHolders = .ok cfg ∧
      build reference cfg [] = .ok (plan, registry) ∧
      ∃ e ∈ plan.entries, ∃ e' ∈ plan.entries, e.callIndex ≠ e'.callIndex ∧
        (e.metricName, e.labelValues) = (e'.metricName, e'.labelValues) := by
  obtain ⟨cfg, plan, registry, hv, hb, h⟩ := Reference.of_check twoHolders
    (fun _ plan => plan.entries.any fun e => plan.entries.any fun e' =>
      e.callIndex ≠ e'.callIndex ∧
        (e.metricName, e.labelValues) = (e'.metricName, e'.labelValues)) (by decide +kernel)
  exact ⟨cfg, plan, registry, hv, hb, by simpa using h⟩

/-- Three holders, two of them under one label. -/
def labelledHolders : Config := Reference.tokenConfig [{
  function := "balanceOf"
  calls := [
    { args := [.string "0x0000000000000000000000000000000000000010"]
      labels := .single "holder" "team" },
    { args := [.string "0x0000000000000000000000000000000000000011"]
      labels := .single "holder" "team" },
    { args := [.string "0x0000000000000000000000000000000000000012"]
      labels := .single "holder" "pool" }] }]

/-- Entries of different calls that nothing but their labels can tell apart. -/
def Competing (e e' : Entry) : Prop :=
  e.callIndex ≠ e'.callIndex ∧ e.metricName = e'.metricName ∧ e.address = e'.address

instance (e e' : Entry) : Decidable (Competing e e') := inferInstanceAs (Decidable (_ ∧ _ ∧ _))

/-- Holders under one label share a series, and those under two labels do not. -/
theorem labelled_holders_series :
    ∃ cfg plan registry sites, validate reference "." labelledHolders = .ok cfg ∧
      build reference cfg [] = .ok (plan, registry) ∧
      (plan.produced sites).map Prod.snd = plan.entries ∧
      (∃ p ∈ plan.produced sites, ∃ p' ∈ plan.produced sites, Competing p.2 p'.2 ∧
        (p.2.metricName, p.2.labelValues) = (p'.2.metricName, p'.2.labelValues)) ∧
      ∃ p ∈ plan.produced sites, ∃ p' ∈ plan.produced sites, Competing p.2 p'.2 ∧
        (p.2.metricName, p.2.labelValues) ≠ (p'.2.metricName, p'.2.labelValues) := by
  obtain ⟨cfg, plan, registry, hv, hb, h⟩ := Reference.of_check labelledHolders
    (fun cfg plan => match sitesOf reference cfg with
      | .ok sites =>
        (∃ p ∈ plan.produced sites, ∃ p' ∈ plan.produced sites, Competing p.2 p'.2 ∧
          (p.1.labels cfg).entries = (p'.1.labels cfg).entries) ∧
        ∃ p ∈ plan.produced sites, ∃ p' ∈ plan.produced sites, Competing p.2 p'.2 ∧
          (p.1.site.toPlace.label cfg "holder").getD "" ≠
            (p'.1.site.toPlace.label cfg "holder").getD ""
      | .error _ => false) (by decide +kernel)
  obtain ⟨sites, hsites, hcover, hiff⟩ := entries_same_series_iff hv hb
  rw [hsites] at h
  obtain ⟨⟨p, hp, p', hp', hcompete, hsame⟩, q, hq, q', hq', hcompete', hother⟩ :=
    of_decide_eq_true h
  refine ⟨cfg, plan, registry, sites, hv, hb, hcover, ⟨p, hp, p', hp', hcompete, ?_⟩,
    q, hq, q', hq', hcompete', fun heq => ?_⟩
  · refine (hiff _ _ _ _ hp hp').mpr ⟨hcompete.2.1, hcompete.2.2, fun k => ?_⟩
    rw [← mergeLabels_get?_eq_label, ← mergeLabels_get?_eq_label]
    exact congrArg (fun entries => (List.lookup k entries).getD "") hsame
  · exact hother (((hiff _ _ _ _ hq hq').mp heq).2.2 "holder")

/-! ### Levels -/

/-- The labels of the levels the planner merges below the call set. -/
def lowerLabel (cfg : Config) (p : Place) (k : String) : Option String :=
  (p.inst.labels.get? k).or ((p.contract.labels.get? k).or (cfg.labels.get? k))

/-- The documented value of a label: call, then metric, instance, contract, top level. -/
def documentedLabel (cfg : Config) (p : Place) (k : String) : Option String :=
  (p.subcall.callLabels.get? k).or ((p.metric.labels.get? k).or (lowerLabel cfg p k))

theorem mergeLabels_get?_eq (p : Place) (k : String) :
    (mergeLabels cfg p).get? k = (p.subcall.callLabels.get? k).or (lowerLabel cfg p k) :=
  mergeLabels_get? cfg p k

/-- Every entry carries the documented value of every key some level defines, and the empty
string for a key that only other entries of its name define. -/
def LabelsHonoured (cfg : Config) (sites : List Site) (plan : Plan) : Prop :=
  ∀ r e, (r, e) ∈ plan.produced sites → ∀ k,
    (∀ v, documentedLabel cfg r.site.toPlace k = some v → e.label k = some v) ∧
    (documentedLabel cfg r.site.toPlace k = none →
      (∃ r' ∈ rows sites, r'.name = r.name ∧ documentedLabel cfg r'.site.toPlace k ≠ none) →
      e.label k = some "")

/-- Some level other than the metric gives the key a value. -/
def OtherLevelSets (cfg : Config) (p : Place) (k : String) : Prop :=
  p.subcall.callLabels.get? k ≠ none ∨ lowerLabel cfg p k ≠ none

instance (p : Place) (k : String) : Decidable (OtherLevelSets cfg p k) :=
  inferInstanceAs (Decidable (_ ∨ _))

theorem mergeLabels_get?_ne_none (p : Place) (k : String) :
    (mergeLabels cfg p).get? k ≠ none ↔ OtherLevelSets cfg p k := by
  rw [mergeLabels_get?_eq, OtherLevelSets, ne_eq, Option.or_eq_none_iff, not_and_or]

/-- Another level makes up for the label `k = v` of the row's metric: the call set overrides
it, a lower level gives the same value, or it is empty, no lower level gives it and
another output of the same name has the key from another level than its metric. -/
def MetricLabelCovered (cfg : Config) (sites : List Site) (r : Row) (k v : String) : Prop :=
  r.site.subcall.callLabels.get? k ≠ none ∨ lowerLabel cfg r.site.toPlace k = some v ∨
    (lowerLabel cfg r.site.toPlace k = none ∧ v = "" ∧
      ∃ r' ∈ rows sites, r'.name = r.name ∧ OtherLevelSets cfg r'.site.toPlace k)

/-- The label an entry of the plan has for a key that is not reserved. -/
theorem produced_label {sites : List Site} {r : Row} {e : Entry} {k : String}
    (he : (r, e) ∈ (planOf cfg sites).produced sites) (hk : k ∉ reservedLabelKeys) :
    e.label k = if ∃ r' ∈ rows sites, r'.name = r.name ∧ OtherLevelSets cfg r'.site.toPlace k then
      some (((mergeLabels cfg r.site.toPlace).get? k).getD "") else none := by
  obtain ⟨hr, rfl⟩ := mem_produced.mp he
  have hmem : k ∈ (familyOf cfg (rows sites) r.name).keys ↔ ∃ r' ∈ rows sites,
      r'.name = r.name ∧ OtherLevelSets cfg r'.site.toPlace k := by
    rw [familyOf_keys, List.mem_append, mem_labelUnion]
    simp only [SortedMap.mem_keys_iff_ne_none, ← mergeLabels_get?_ne_none]
    exact or_iff_left hk
  rw [entry_label, labelValue_of_not_reserved hk]
  simp only [hmem]
  rfl

theorem documentedLabel_not_reserved {p : Place} {abi : JsonAbi} {func : AbiFunction}
    (hp : p.Valid d cfg abi func) {k : String} (h : documentedLabel cfg p k ≠ none) :
    k ∉ reservedLabelKeys := by
  by_cases hm : p.metric.labels.get? k = none
  · rw [documentedLabel, hm, Option.none_or, ← mergeLabels_get?_eq] at h
    exact hp.labels_free k (SortedMap.mem_keys_iff_ne_none.mpr h)
  · exact hp.metric_valid.labels_free k (SortedMap.mem_keys_iff_ne_none.mpr hm)

/-- With all metric labels covered, a key with a documented value is merged somewhere. -/
theorem exists_merged_of_documented {sites : List Site} {k : String}
    (hcov : ∀ r ∈ rows sites, ∀ v, r.site.metric.labels.get? k = some v →
      MetricLabelCovered cfg sites r k v) {r : Row} (hr : r ∈ rows sites)
    (hdoc : documentedLabel cfg r.site.toPlace k ≠ none) :
    ∃ r' ∈ rows sites, r'.name = r.name ∧ OtherLevelSets cfg r'.site.toPlace k := by
  by_cases hother : OtherLevelSets cfg r.site.toPlace k
  · exact ⟨r, hr, rfl, hother⟩
  · obtain ⟨hcall, hlow⟩ : r.site.subcall.callLabels.get? k = none ∧
        lowerLabel cfg r.site.toPlace k = none := by simpa [OtherLevelSets] using hother
    obtain ⟨v, hm⟩ : ∃ v, r.site.metric.labels.get? k = some v := by
      simpa [documentedLabel, hcall, hlow, Option.ne_none_iff_exists'] using hdoc
    rcases hcov r hr v hm with hc | hl | ⟨-, -, hex⟩
    · exact absurd hcall hc
    · exact absurd (hlow.symm.trans hl) (by simp)
    · exact hex

/-- With the metric label covered, the merge gives the documented value, or no value when
that is the empty string. -/
theorem getD_mergeLabels_of_covered {sites : List Site} {r : Row} {k v : String}
    (hcov : ∀ v, r.site.metric.labels.get? k = some v → MetricLabelCovered cfg sites r k v)
    (hdoc : documentedLabel cfg r.site.toPlace k = some v) :
    ((mergeLabels cfg r.site.toPlace).get? k).getD "" = v := by
  rw [mergeLabels_get?_eq]
  unfold documentedLabel at hdoc
  cases hcall : r.site.subcall.callLabels.get? k with
  | some c => simpa [hcall] using hdoc
  | none =>
    rw [hcall, Option.none_or] at hdoc
    rw [Option.none_or]
    cases hm : r.site.metric.labels.get? k with
    | none => rw [hm, Option.none_or] at hdoc; rw [hdoc]; rfl
    | some m =>
      obtain rfl : m = v := by simpa [hm] using hdoc
      rcases hcov m hm with hc | hl | ⟨hl, rfl, -⟩
      · exact absurd hcall hc
      · rw [hl]; rfl
      · rw [hl]; rfl

/-- A row whose entry carries the documented values has its metric labels covered. -/
theorem metricLabel_covered {sites : List Site} {r : Row} {e : Entry}
    (he : (r, e) ∈ (planOf cfg sites).produced sites) {k v : String} (hk : k ∉ reservedLabelKeys)
    (hm : r.site.metric.labels.get? k = some v)
    (hlabel : ∀ v, documentedLabel cfg r.site.toPlace k = some v → e.label k = some v) :
    MetricLabelCovered cfg sites r k v := by
  by_cases hcall : r.site.subcall.callLabels.get? k = none
  · have hdoc : documentedLabel cfg r.site.toPlace k = some v := by
      simp [documentedLabel, hcall, hm]
    have hval := hlabel v hdoc
    rw [produced_label he hk, mergeLabels_get?_eq, hcall, Option.none_or] at hval
    split_ifs at hval with hex
    cases hlow : lowerLabel cfg r.site.toPlace k with
    | none =>
      have hempty : v = "" := by simpa [hlow, eq_comm] using hval
      exact .inr (.inr ⟨hlow, hempty, hex⟩)
    | some u =>
      have hsame : u = v := by simpa [hlow] using hval
      exact .inr (.inl (hsame ▸ hlow))
  · exact .inl hcall

/-- The plan honours the documented levels exactly when every metric label is covered. -/
theorem labels_honoured_iff (hv : validate d baseDir raw = .ok cfg)
    (hb : build d cfg registry = .ok (plan, registry')) :
    ∃ sites, sitesOf d cfg = .ok sites ∧ (plan.produced sites).map Prod.snd = plan.entries ∧
      (LabelsHonoured cfg sites plan ↔
        ∀ r ∈ rows sites, ∀ k v, r.site.metric.labels.get? k = some v →
          MetricLabelCovered cfg sites r k v) := by
  obtain ⟨sites, hsites, rfl⟩ := build_eq_planOf hb
  have hvalid (r : Row) (hr : r ∈ rows sites) :=
    site_valid (validate_valid hv) hsites (mem_rows.mp hr).1
  have hreserved : ∀ r ∈ rows sites, ∀ k, documentedLabel cfg r.site.toPlace k ≠ none →
      k ∉ reservedLabelKeys := by
    intro r hr k hk
    obtain ⟨abi, hval⟩ := hvalid r hr
    exact documentedLabel_not_reserved hval hk
  use sites, hsites, produced_entries sites
  constructor
  · intro h r hr k v hm
    obtain ⟨abi, hval⟩ := hvalid r hr
    obtain ⟨e, he⟩ := exists_produced cfg hr
    have hk : k ∉ reservedLabelKeys :=
      hval.metric_valid.labels_free k (SortedMap.mem_keys_iff.mpr ⟨v, hm⟩)
    exact metricLabel_covered he hk hm (h r e he k).1
  · intro h r e he k
    have hr := (mem_produced.mp he).1
    have hkey (r' : Row) (hr' : r' ∈ rows sites) :=
      exists_merged_of_documented (fun r hr v => h r hr k v) hr'
    constructor
    · intro v hdoc
      have hne : documentedLabel cfg r.site.toPlace k ≠ none := by simp [hdoc]
      rw [produced_label he (hreserved r hr k hne), if_pos (hkey r hr hne),
        getD_mergeLabels_of_covered (h r hr k) hdoc]
    · rintro hnone ⟨r', hr', hname, hdoc'⟩
      obtain ⟨hcall, hrest⟩ := Option.or_eq_none_iff.mp hnone
      have hlow := (Option.or_eq_none_iff.mp hrest).2
      rw [produced_label he (hreserved r' hr' k hdoc'), if_pos (hname ▸ hkey r' hr' hdoc'),
        mergeLabels_get?_eq, hcall, hlow]
      rfl

/-- A metric that sets a label of its own. -/
def goldSupply : Config := Reference.tokenConfig
  [{ function := "totalSupply", labels := .single "tier" "gold" }]

/-- The label set by the metric is missing from its entry. -/
theorem gold_supply_label_lost :
    ∃ cfg plan registry sites, validate reference "." goldSupply = .ok cfg ∧
      build reference cfg [] = .ok (plan, registry) ∧ sitesOf reference cfg = .ok sites ∧
      (∃ r e, (r, e) ∈ plan.produced sites ∧
        documentedLabel cfg r.site.toPlace "tier" = some "gold" ∧ e.label "tier" = none) ∧
      ¬ LabelsHonoured cfg sites plan := by
  obtain ⟨cfg, plan, registry, hv, hb, h⟩ := Reference.of_check goldSupply
    (fun cfg plan => match sitesOf reference cfg with
      | .ok sites => (plan.produced sites).any fun p =>
        documentedLabel cfg p.1.site.toPlace "tier" = some "gold" ∧ p.2.label "tier" = none
      | .error _ => false) (by decide +kernel)
  split at h
  next sites hsites =>
    obtain ⟨r, e, he, hdoc, hlost⟩ : ∃ r e, (r, e) ∈ plan.produced sites ∧
        documentedLabel cfg r.site.toPlace "tier" = some "gold" ∧ e.label "tier" = none := by
      simpa using h
    have hnot : ¬ LabelsHonoured cfg sites plan := by
      intro hall
      have hgold := (hall r e he "tier").1 "gold" hdoc
      rw [hlost] at hgold
      cases hgold
    exact ⟨cfg, plan, registry, sites, hv, hb, hsites, ⟨r, e, he, hdoc, hlost⟩, hnot⟩
  next => cases h

/-- The same metric, with a call set that overrides the label. -/
def silverSupply : Config := Reference.tokenConfig [{
  function := "totalSupply"
  labels := .single "tier" "gold"
  calls := [{ labels := .single "tier" "silver" }] }]

theorem silver_supply_labels_honoured :
    ∃ cfg plan registry sites, validate reference "." silverSupply = .ok cfg ∧
      build reference cfg [] = .ok (plan, registry) ∧ sitesOf reference cfg = .ok sites ∧
      LabelsHonoured cfg sites plan := by
  obtain ⟨cfg, plan, registry, hv, hb, h⟩ := Reference.of_check silverSupply
    (fun cfg _ => match sitesOf reference cfg with
      | .ok sites => (rows sites).all fun r => r.site.metric.labels.keys.all fun k =>
        r.site.subcall.callLabels.get? k ≠ none
      | .error _ => false) (by decide +kernel)
  obtain ⟨sites, hsites, -, hiff⟩ := labels_honoured_iff hv hb
  simp only [hsites, List.all_eq_true, decide_eq_true_eq] at h
  exact ⟨cfg, plan, registry, sites, hv, hb, hsites, hiff.mpr fun r hr k v hm =>
    .inl (h r hr k (SortedMap.mem_keys_iff.mpr ⟨v, hm⟩))⟩

end EvmExporter
