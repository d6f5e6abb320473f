import EvmExporter.Exporter.Runs

/-! The freshness signal. The loop swallows the failure of an entry and goes on, and the
success timestamp is set whenever the loop ends; so it certifies a snapshot only in
runs whose completed attempts meet no reverted call and no undecodable data. -/

namespace EvmExporter

open Lib

variable {d : Deps} {cfg : Config} {plan : Plan} {registry registry' : Registry}

/-- If the attempt reaches the loop, every call an entry reads has succeeded and returned
data that decodes. -/
def Attempt.Clean (d : Deps) (x : Exporter) (a : Attempt) : Prop :=
  ∀ n results, a.results x = some (n, results) → ∀ e ∈ x.plan.entries,
    ∀ r, results[e.callIndex]? = some r →
      r.success ∧ ∃ v, decode d r.returnData e.decode = .ok v

/-- The metrics are those of a fully successful scrape: every entry was read and its gauge
set, and all gauges hold what was read at the block in `rpc_block_number`. -/
def Certified (d : Deps) (x : Exporter) (a : Attempt) (w : Metrics) : Prop :=
  ∃ n results, a.results x = some (n, results) ∧ w.rpcBlockNumber = F64.ofNat n ∧
    (∀ e ∈ x.plan.entries, ∃ v loss, e.sample d results = some (v, loss) ∧
      .setGauge e.series v ∈ x.plan.entries.flatMap (Entry.events d results)) ∧
    ∀ s, w.gauges s = lastGood d x.plan results s

theorem Attempt.Clean.sample {x : Exporter} {a : Attempt} (h : a.Clean d x)
    (hwf : x.plan.WellFormed) {n : ℕ} {results : List CallResult}
    (hres : a.results x = some (n, results)) {e : Entry} (he : e ∈ x.plan.entries) :
    ∃ v loss, e.sample d results = some (v, loss) := by
  have hlt : e.callIndex < results.length :=
    (Attempt.results_length hres).symm ▸ hwf.index_lt e he
  have hget := List.getElem?_eq_getElem hlt
  obtain ⟨hs, ⟨v, loss⟩, hdec⟩ := h n results hres e he _ hget
  exact ⟨v, loss, by simp [Entry.sample, hget, hs, hdec, Except.toOption]⟩

theorem setGauge_mem_events {results : List CallResult} {e : Entry} {v : F64} {loss : Bool}
    (h : e.sample d results = some (v, loss)) : .setGauge e.series v ∈ e.events d results := by
  simp [Entry.events, h]

/-- A series no entry writes is never set. -/
theorem lastGood_of_absent {s : Series}
    (h : ∀ e ∈ plan.entries, (e.metricName, e.labelValues) ≠ s) (results : List CallResult) :
    lastGood d plan results s = none := by
  rw [lastGood, List.getLast?_eq_none_iff, List.filterMap_eq_nil_iff]
  exact fun e he => if_neg (h e he)

/-- When every entry is read, a series without a value has no entry. -/
theorem absent_of_lastGood {results : List CallResult} {s : Series}
    (hall : ∀ e ∈ plan.entries, ∃ v loss, e.sample d results = some (v, loss))
    (h : lastGood d plan results s = none) :
    ∀ e ∈ plan.entries, (e.metricName, e.labelValues) ≠ s := by
  intro e he hs
  rw [lastGood, List.getLast?_eq_none_iff, List.filterMap_eq_nil_iff] at h
  obtain ⟨v, loss, hsample⟩ := hall e he
  simpa [hs, hsample] using h e he

theorem run_gauges_of_absent {x : Exporter} (hwf : x.plan.WellFormed) (hnames : x.plan.NamesGauges)
    {s : Series} (h : ∀ e ∈ x.plan.entries, (e.metricName, e.labelValues) ≠ s)
    (attempts : List Attempt) : (run d x attempts .initial).gauges s = none := by
  have hnone : ∀ a : Attempt, a.lastGood d x s = none := by
    intro a
    cases hres : a.results x with
    | none => rw [Attempt.lastGood, hres]; rfl
    | some p => rw [Attempt.lastGood, hres, Option.bind_some, lastGood_of_absent h]
  have hrun : attempts.reverse.findSome? (Attempt.lastGood d x s) = none :=
    List.findSome?_eq_none_iff.mpr fun a _ => hnone a
  rw [run_gauges hwf hnames, hrun]
  rfl

/-- The attempt advances the success timestamp. -/
def Advances (d : Deps) (x : Exporter) (a : Attempt) (w : Metrics) : Prop :=
  (runScrape d x a w).1.lastScrapeSuccessTimestamp ≠ w.lastScrapeSuccessTimestamp

/-- One attempt of a run: a clean one that advances the timestamp certifies its snapshot. -/
theorem advance_certified {x : Exporter} (hwf : x.plan.WellFormed) (hnames : x.plan.NamesGauges)
    {a : Attempt} (ha : a.Clean d x) {w : Metrics}
    (hw : ∀ s, (∀ e ∈ x.plan.entries, (e.metricName, e.labelValues) ≠ s) → w.gauges s = none)
    (hadv : Advances d x a w) : Certified d x a (runScrape d x a w).1 := by
  have hg := runScrape_gauges (d := d) hwf hnames a w
  rcases runScrape_wellFormed hwf a w with ⟨n, results, hres, hrun⟩ | ⟨reason, e, -, -, hrun⟩ |
    ⟨-, hrun⟩
  · have hall (e : Entry) (he : e ∈ x.plan.entries) := ha.sample hwf hres he
    have hblock : (runScrape d x a w).1.rpcBlockNumber = F64.ofNat n := by rw [hrun]; rfl
    have hset : ∀ e ∈ x.plan.entries, ∃ v loss, e.sample d results = some (v, loss) ∧
        .setGauge e.series v ∈ x.plan.entries.flatMap (Entry.events d results) := by
      intro e he
      obtain ⟨v, loss, hsample⟩ := hall e he
      exact ⟨v, loss, hsample, List.mem_flatMap.mpr ⟨e, he, setGauge_mem_events hsample⟩⟩
    have hgauges : ∀ s, (runScrape d x a w).1.gauges s = lastGood d x.plan results s := by
      intro s
      rw [hg, Attempt.lastGood, hres, Option.bind_some]
      cases hs : lastGood d x.plan results s with
      | some v => rfl
      | none => rw [Option.none_or, hw s (absent_of_lastGood hall hs)]
    exact ⟨n, results, hres, hblock, hset, hgauges⟩
  -- a failed attempt leaves the timestamp as it was
  · exact absurd (by rw [hrun]; rfl) hadv
  · exact absurd (by rw [hrun]; rfl) hadv

theorem Attempt.clean_of_certified {x : Exporter} {a : Attempt} {w : Metrics}
    (h : Certified d x a w) : a.Clean d x := by
  obtain ⟨n, results, hres, -, hset, -⟩ := h
  intro n' results' hres' e he r hr
  rw [hres] at hres'
  obtain ⟨rfl, rfl⟩ := Prod.mk.inj (Option.some.inj hres')
  obtain ⟨v, loss, hsample, -⟩ := hset e he
  rw [Entry.sample, hr, Option.bind_some] at hsample
  split_ifs at hsample with hs
  apply And.intro hs
  cases hdec : decode d r.returnData e.decode with
  | ok p => exact ⟨p, rfl⟩
  | error err => simp [hdec, Except.toOption] at hsample

/-- Every attempt of the run that advances the success timestamp is certified. -/
def TimestampCertifies (d : Deps) (x : Exporter) (attempts : List Attempt) : Prop :=
  ∀ pre a post, attempts = pre ++ a :: post → Advances d x a (run d x pre .initial) →
    Certified d x a (runScrape d x a (run d x pre .initial)).1

/-- In a run of clean attempts the success timestamp certifies a fully successful scrape: each
attempt that advances it has read every entry and leaves one snapshot of its block. In
any run, an attempt that advances it is certified exactly when it is clean. -/
theorem timestamp_certifies (hb : build d cfg registry = .ok (plan, registry'))
    (attempts : List Attempt) :
    ((∀ a ∈ attempts, a.Clean d ⟨cfg, plan⟩) → TimestampCertifies d ⟨cfg, plan⟩ attempts) ∧
    ∀ pre a post, attempts = pre ++ a :: post →
      Advances d ⟨cfg, plan⟩ a (run d ⟨cfg, plan⟩ pre .initial) →
      (Certified d ⟨cfg, plan⟩ a (runScrape d ⟨cfg, plan⟩ a (run d ⟨cfg, plan⟩ pre .initial)).1 ↔
        a.Clean d ⟨cfg, plan⟩) := by
  have hwf : (⟨cfg, plan⟩ : Exporter).plan.WellFormed := build_wellFormed hb
  have hnames : (⟨cfg, plan⟩ : Exporter).plan.NamesGauges := build_namesGauges hb
  have hcertified (pre : List Attempt) (a : Attempt) (ha : a.Clean d ⟨cfg, plan⟩)
      (hadv : Advances d ⟨cfg, plan⟩ a (run d ⟨cfg, plan⟩ pre .initial)) :
      Certified d ⟨cfg, plan⟩ a
        (runScrape d ⟨cfg, plan⟩ a (run d ⟨cfg, plan⟩ pre .initial)).1 := by
    have hpre : ∀ s, (∀ e ∈ plan.entries, (e.metricName, e.labelValues) ≠ s) →
        (run d ⟨cfg, plan⟩ pre .initial).gauges s = none := by
      intro s hs
      exact run_gauges_of_absent hwf hnames hs pre
    exact advance_certified hwf hnames ha hpre hadv
  constructor
  · rintro hclean pre a post rfl hadv
    exact hcertified pre a (hclean a (by simp)) hadv
  · rintro pre a post - hadv
    constructor
    · exact Attempt.clean_of_certified
    · intro ha
      exact hcertified pre a ha hadv

/-- The only call of the supply plan reverts, and the timestamp advances all the same. -/
theorem supply_revert_advances :
    ∃ cfg plan registry, validate reference "." Reference.supplyConfig = .ok cfg ∧
      build reference cfg [] = .ok (plan, registry) ∧
      (runScrape reference ⟨cfg, plan⟩ (steadyAttempt ⟨false, []⟩ .one)
          .initial).1.lastScrapeSuccessTimestamp ≠ Metrics.initial.lastScrapeSuccessTimestamp ∧
      ∃ e ∈ plan.entries, (runScrape reference ⟨cfg, plan⟩ (steadyAttempt ⟨false, []⟩ .one)
          .initial).1.gauges e.series = none := by
  obtain ⟨cfg, plan, registry, hv, hb, h⟩ := Reference.of_check Reference.supplyConfig
    (fun cfg plan =>
      let w := (runScrape reference ⟨cfg, plan⟩ (steadyAttempt ⟨false, []⟩ .one) .initial).1
      w.lastScrapeSuccessTimestamp ≠ Metrics.initial.lastScrapeSuccessTimestamp ∧
        plan.entries.any fun e => w.gauges e.series = none) (by decide +kernel)
  obtain ⟨hadv, hany⟩ := of_decide_eq_true h
  exact ⟨cfg, plan, registry, hv, hb, hadv, by simpa using hany⟩

/-- The call returns a supply of seven: the timestamp advances and certifies it. -/
theorem supply_read_certified :
    ∃ cfg plan registry, build reference cfg [] = .ok (plan, registry) ∧
      Certified reference ⟨cfg, plan⟩ (steadyAttempt ⟨true, Reference.toBytes 32 7⟩ .one)
        (runScrape reference ⟨cfg, plan⟩ (steadyAttempt ⟨true, Reference.toBytes 32 7⟩ .one)
          .initial).1 := by
  obtain ⟨cfg, plan, registry, -, hb, h⟩ := Reference.of_check Reference.supplyConfig
    (fun cfg plan =>
      let a := steadyAttempt ⟨true, Reference.toBytes 32 7⟩ .one
      (runScrape reference ⟨cfg, plan⟩ a .initial).1.lastScrapeSuccessTimestamp ≠
          Metrics.initial.lastScrapeSuccessTimestamp ∧
        ((a.results ⟨cfg, plan⟩).all fun p => plan.entries.all fun e =>
          (p.2[e.callIndex]?).all fun r =>
            r.success && (decode reference r.returnData e.decode).toBool) = true)
    (by decide +kernel)
  obtain ⟨hadv, hclean⟩ := of_decide_eq_true h
  have hread : Attempt.Clean reference ⟨cfg, plan⟩
      (steadyAttempt ⟨true, Reference.toBytes 32 7⟩ .one) := by
    intro n results hres e he r hr
    rw [hres, Option.all_some, List.all_eq_true] at hclean
    have hboth := hclean e he
    simp only [hr, Option.all_some, Bool.and_eq_true] at hboth
    apply And.intro hboth.1
    cases hdec : decode reference r.returnData e.decode with
    | ok v => exact ⟨v, rfl⟩
    | error err => simp [hdec, Except.toBool] at hboth
  use cfg, plan, registry, hb
  exact (timestamp_certifies hb [_]).1 (by simpa using hread) [] _ [] rfl hadv

end EvmExporter
