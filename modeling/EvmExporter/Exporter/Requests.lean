import EvmExporter.Exporter.BatchSize
import EvmExporter.Exporter.Duration
import EvmExporter.Exporter.SharedCalls
import EvmExporter.Multicall.Chunks

/-! What a run asks the node, and what it says about it. Every request pins the block of its
attempt and holds only calls of view and pure functions that the configuration asks for;
an attempt that completes has asked for all of them, none twice. The block, the number of
calls and the number of chunks in the metrics are those of the last completed attempt. -/

namespace EvmExporter

open Lib

variable {d : Deps} {cfg raw : Config} {baseDir : String} {plan : Plan}
  {registry registry' : Registry} {x : Exporter} {drv : Multicall.Driver} {l : LiveAttempt}

/-! ### View calls -/

theorem resolveFunction_readOnly {abi : JsonAbi} {name : String} {func : AbiFunction}
    (h : resolveFunction abi name = .ok func) :
    func.stateMutability = .view ∨ func.stateMutability = .pure := by
  unfold resolveFunction at h
  split at h
  · cases h
  · split at h
    · cases h
    next f _ =>
      split at h
      next hview => exact .inl (Except.ok.inj h ▸ hview)
      next hpure => exact .inr (Except.ok.inj h ▸ hpure)
      next => cases h

/-- The call is the place's own: its view or pure function, with its arguments, at the address
of its instance, and allowed to fail. -/
structure Place.Asks (d : Deps) (p : Place) (c : Multicall.Call3) : Prop where
  target_eq : instanceAddress d p.contract p.inst = .ok c.target
  allowFailure : c.allowFailure = true
  function : ∃ abi func vals, contractAbi p.contract = .ok abi ∧
    resolveFunction abi p.metric.function = .ok func ∧
    (func.stateMutability = .view ∨ func.stateMutability = .pure) ∧
    convertArgs d func p.subcall.args = .ok vals ∧ d.abiEncodeInput func vals = .ok c.callData

theorem site_asks (hv : cfg.Valid d) {sites : List Site} (h : sitesOf d cfg = .ok sites) {s : Site}
    (hs : s ∈ sites) : s.toPlace.Asks d (Multicall.toCall3 s.request) := by
  obtain ⟨abi, hval⟩ := site_valid hv h hs
  have hres := (mem_sites h hs).2
  obtain ⟨vals, hvals, hdata⟩ := encodeCall_eq_ok hres.callData_eq
  have hfunc := hval.metric_valid.resolves
  exact ⟨hres.address_eq, rfl, abi, s.func, vals, hval.abi_eq, hfunc,
    resolveFunction_readOnly hfunc, hvals, hdata⟩

/-- A call of the plan is asked for by some place. -/
theorem call_asked (hv : cfg.Valid d) {sites : List Site} (h : sitesOf d cfg = .ok sites)
    {c : Multicall.Call3} (hc : c ∈ (distinctCalls sites).map Multicall.toCall3) :
    ∃ p ∈ places cfg, p.Asks d c := by
  obtain ⟨r, hr, rfl⟩ := List.mem_map.mp hc
  obtain ⟨s, hs, rfl⟩ := List.mem_map.mp (List.mem_eraseDups.mp hr)
  exact ⟨s.toPlace, (mem_sites h hs).1, site_asks hv h hs⟩

/-- Every place has its call in the plan. -/
theorem place_asked (hv : cfg.Valid d) {sites : List Site} (h : sitesOf d cfg = .ok sites) {p : Place}
    (hp : p ∈ places cfg) : ∃ c ∈ (distinctCalls sites).map Multicall.toCall3, p.Asks d c := by
  rw [← sitesOf_places h] at hp
  obtain ⟨s, hs, rfl⟩ := List.mem_map.mp hp
  have hmem : s.request ∈ distinctCalls sites := List.mem_eraseDups.mpr (List.mem_map_of_mem hs)
  exact ⟨_, List.mem_map_of_mem hmem, site_asks hv h hs⟩

theorem toCall3_injective : Function.Injective Multicall.toCall3 := by
  rintro ⟨t, c⟩ ⟨t', c'⟩ h
  obtain ⟨rfl, -, rfl⟩ := Multicall.Call3.mk.inj h
  rfl

/-- An accepted and planned configuration has the exporter send nothing but the view and pure
calls it asks for, to the multicall contract and at the block of the attempt, however the
attempt ends; and one that gets its results has asked for every place, and for nothing
twice. -/
theorem requests_read_only (hv : validate d baseDir raw = .ok cfg)
    (hb : build d cfg registry = .ok (plan, registry')) (drv : Multicall.Driver) (l : LiveAttempt)
    (n : ℕ) :
    let o := l.multicall drv ⟨cfg, plan⟩ n
    (∀ q ∈ o.asked, q.contract = drv.address ∧ q.block = n ∧ q.calls ≠ [] ∧
      ∀ c ∈ q.calls, ∃ p ∈ places cfg, p.Asks d c) ∧
    ∀ results, o.result = some (.ok results) → (o.asked.flatMap Multicall.Aggregate3.calls).Nodup ∧
      ∀ p ∈ places cfg, ∃ c ∈ o.asked.flatMap Multicall.Aggregate3.calls, p.Asks d c := by
  intro o
  obtain ⟨sites, hsites, rfl⟩ := build_eq_planOf hb
  have hvalid := validate_valid hv
  have hsent := Multicall.call_sent drv n (distinctCalls sites) l.chunk
  constructor
  · intro q hq
    have hchunk := hsent.chunks q hq
    refine ⟨hchunk.contract_eq, hchunk.block_eq, hchunk.calls_ne, fun c hc => ?_⟩
    have hmem := hsent.requests.subset (List.mem_flatMap.mpr ⟨q, hq, hc⟩)
    rw [List.drop_zero] at hmem
    exact call_asked hvalid hsites hmem
  · intro results hres
    have hall : o.asked.flatMap Multicall.Aggregate3.calls =
        (distinctCalls sites).map Multicall.toCall3 := (hsent.all_sent results hres).2
    rw [hall]
    constructor
    · exact (nodup_eraseDups _).map toCall3_injective
    · exact fun p hp => place_asked hvalid hsites hp

/-- Two places of one call are asked for once. -/
theorem supply_twice_requested :
    ∃ cfg plan registry, validate reference "." supplyTwice = .ok cfg ∧
      build reference cfg [] = .ok (plan, registry) ∧ (places cfg).length = 2 ∧
      let o := (servedAttempt sevenChain 100).multicall multicall3 ⟨cfg, plan⟩ 100
      (o.asked.flatMap Multicall.Aggregate3.calls).length = 1 ∧
      ∀ q ∈ o.asked, q.contract = multicall3.address ∧ q.block = 100 ∧ q.calls ≠ [] ∧
        ∀ c ∈ q.calls, ∃ p ∈ places cfg, p.Asks reference c := by
  obtain ⟨cfg, plan, registry, hv, hb, h⟩ := Reference.of_check supplyTwice
    (fun cfg plan => (places cfg).length = 2 ∧ (((servedAttempt sevenChain 100).multicall multicall3
      ⟨cfg, plan⟩ 100).asked.flatMap Multicall.Aggregate3.calls).length = 1) (by decide +kernel)
  obtain ⟨hplaces, hone⟩ := of_decide_eq_true h
  exact ⟨cfg, plan, registry, hv, hb, hplaces, hone,
    (requests_read_only hv hb multicall3 (servedAttempt sevenChain 100) 100).1⟩

/-! ### Self-metrics -/

/-- The block of an attempt that completes. -/
def LiveAttempt.completedAt (l : LiveAttempt) (drv : Multicall.Driver) (x : Exporter) : Option ℕ :=
  ((l.attempt drv).results x).map Prod.fst

/-- The metrics tell what the attempt has done: its block, the calls and the chunks it has sent,
all of them at that block, and when it was done. -/
structure LiveAttempt.Reported (l : LiveAttempt) (drv : Multicall.Driver) (x : Exporter) (n : ℕ)
    (w : Metrics) : Prop where
  block : l.completedAt drv x = some n
  rpcBlockNumber : w.rpcBlockNumber = F64.ofNat n
  timestamp : w.lastScrapeSuccessTimestamp = l.clock.now
  callsTotal : w.callsTotal =
    F64.ofNat ((l.multicall drv x n).asked.flatMap Multicall.Aggregate3.calls).length
  chunksTotal : w.chunksTotal = F64.ofNat (l.multicall drv x n).asked.length
  pinned : ∀ q ∈ (l.multicall drv x n).asked, q.block = n

theorem run_append_all (hwf : x.plan.WellFormed) (attempts attempts' : List Attempt)
    (w : Metrics) :
    run d x (attempts ++ attempts') w = run d x attempts' (run d x attempts w) := by
  induction attempts generalizing w with
  | nil => rfl
  | cons a attempts ih => rw [List.cons_append, run_cons hwf, run_cons hwf, ih]

/-- What a failure leaves alone is the same after any number of failed attempts. -/
theorem run_reading_of_incomplete {β : Type*} (hwf : x.plan.WellFormed) (view : Metrics → β)
    (hfailed : ∀ w reason elapsed, view (Metrics.failed w reason elapsed) = view w)
    (htimeout : ∀ w, view (Metrics.incScrapeErrors w "timeout") = view w) {attempts : List Attempt}
    (hnone : ∀ a ∈ attempts, a.results x = none) (w : Metrics) :
    view (run d x attempts w) = view w := by
  induction attempts generalizing w with
  | nil => rfl
  | cons a attempts ih =>
    rw [run_cons hwf, ih fun b hb => hnone b (List.mem_cons_of_mem a hb),
      runScrape_reading hwf a w view (hfailed w) (htimeout w), hnone a List.mem_cons_self]

/-- An attempt that completes reports its own requests. -/
theorem runScrape_reported (hwf : x.plan.WellFormed)
    (hcount : x.plan.chunkCount =
      (Multicall.chunkRanges x.plan.calls.length drv.maxCallsPerBatch).length)
    {n : ℕ} (hblock : l.completedAt drv x = some n) (w : Metrics) :
    l.Reported drv x n (runScrape d x (l.attempt drv) w).1 := by
  obtain ⟨⟨n', results⟩, hres, rfl⟩ := Option.map_eq_some_iff.mp hblock
  have hcall : (l.multicall drv x n').result = some (.ok results) :=
    (Attempt.results_eq_some hres).2.1
  have hsent := Multicall.call_sent drv n' x.plan.calls l.chunk
  obtain ⟨hchunks, hcalls⟩ := hsent.all_sent results hcall
  have hev := planEvents_eq (d := d) hwf (Attempt.results_length hres)
  rw [runScrape_completed hres hev]
  constructor
  case block => exact hblock
  case rpcBlockNumber => rfl
  case timestamp => rfl
  case callsTotal =>
    change F64.ofNat x.plan.calls.length = _
    rw [LiveAttempt.multicall, hcalls, List.drop_zero, List.length_map]
  case chunksTotal =>
    change F64.ofNat x.plan.chunkCount = _
    rw [LiveAttempt.multicall, hchunks, hcount]
  case pinned => exact fun q hq => (hsent.chunks q hq).block_eq

/-- After any run the self-metrics tell the truth about its last completed attempt: the block all
its requests were pinned to, how many calls and how many chunks it has sent, and when it
ended. As long as none has completed they are zero. -/
theorem self_metrics_truthful (hb : build d cfg registry = .ok (plan, registry'))
    (contract : Address) :
    let drv : Multicall.Driver := ⟨contract, cfg.scrape.maxCallsPerBatch⟩
    let x : Exporter := ⟨cfg, plan⟩
    (∀ (pre post : List LiveAttempt) (l : LiveAttempt) n, l.completedAt drv x = some n →
      (∀ l' ∈ post, l'.completedAt drv x = none) →
      l.Reported drv x n (run d x ((pre ++ l :: post).map fun l => l.attempt drv) .initial)) ∧
    ∀ lives : List LiveAttempt, (∀ l ∈ lives, l.completedAt drv x = none) →
      let w := run d x (lives.map fun l => l.attempt drv) .initial
      w.rpcBlockNumber = .zero ∧ w.lastScrapeSuccessTimestamp = .zero ∧ w.callsTotal = .zero ∧
        w.chunksTotal = .zero := by
  intro drv x
  have hwf : x.plan.WellFormed := build_wellFormed hb
  have hcount : x.plan.chunkCount =
      (Multicall.chunkRanges x.plan.calls.length drv.maxCallsPerBatch).length :=
    build_chunkCount hb
  -- what the four gauges show is written by completed attempts alone
  let view (w : Metrics) : F64 × F64 × F64 × F64 :=
    (w.rpcBlockNumber, w.lastScrapeSuccessTimestamp, w.callsTotal, w.chunksTotal)
  have hkept : ∀ lives : List LiveAttempt, (∀ l ∈ lives, l.completedAt drv x = none) → ∀ w,
      view (run d x (lives.map fun l => l.attempt drv) w) = view w := by
    intro lives hlives w
    refine run_reading_of_incomplete hwf view (fun _ _ _ => rfl) (fun _ => rfl) ?_ w
    intro a ha
    obtain ⟨l, hl, rfl⟩ := List.mem_map.mp ha
    exact Option.map_eq_none_iff.mp (hlives l hl)
  constructor
  · intro pre post l n hblock hpost
    have hone := runScrape_reported (d := d) hwf hcount hblock
      (run d x (pre.map fun l => l.attempt drv) .initial)
    have hrun : run d x ((pre ++ l :: post).map fun l => l.attempt drv) .initial =
        run d x (post.map fun l => l.attempt drv) (runScrape d x (l.attempt drv)
          (run d x (pre.map fun l => l.attempt drv) .initial)).1 := by
      rw [List.map_append, List.map_cons, run_append_all hwf, run_cons hwf]
    have hview := hkept post hpost (runScrape d x (l.attempt drv)
      (run d x (pre.map fun l => l.attempt drv) .initial)).1
    rw [← hrun] at hview
    obtain ⟨hrpc, htime, hcalls, hchunks⟩ : _ ∧ _ ∧ _ ∧ _ := by
      simpa only [view, Prod.mk.injEq] using hview
    exact ⟨hblock, hrpc.trans hone.rpcBlockNumber, htime.trans hone.timestamp,
      hcalls.trans hone.callsTotal, hchunks.trans hone.chunksTotal, hone.pinned⟩
  · intro lives hlives w
    have hview : view w = view .initial := hkept lives hlives .initial
    simp only [view, Prod.mk.injEq] at hview
    exact hview

/-- An attempt at block 100 that completes, then one whose node refuses the connection. -/
theorem refused_after_completed_reported :
    ∃ cfg plan registry, build reference cfg [] = .ok (plan, registry) ∧ plan.calls.length = 2 ∧
      (servedAttempt sevenChain 100).Reported ⟨multicall3.address, cfg.scrape.maxCallsPerBatch⟩
        ⟨cfg, plan⟩ 100 (run reference ⟨cfg, plan⟩
          ([servedAttempt sevenChain 100, blockAttempt (.error "connection refused")].map
            fun l => l.attempt ⟨multicall3.address, cfg.scrape.maxCallsPerBatch⟩) .initial) := by
  obtain ⟨cfg, plan, registry, -, hb, h⟩ := Reference.of_check twoCallConfig
    (fun cfg plan => plan.calls.length = 2 ∧ (servedAttempt sevenChain 100).completedAt
        ⟨multicall3.address, cfg.scrape.maxCallsPerBatch⟩ ⟨cfg, plan⟩ = some 100 ∧
      (blockAttempt (.error "connection refused")).completedAt
        ⟨multicall3.address, cfg.scrape.maxCallsPerBatch⟩ ⟨cfg, plan⟩ = none) (by decide +kernel)
  obtain ⟨htwo, hblock, hnone⟩ := of_decide_eq_true h
  exact ⟨cfg, plan, registry, hb, htwo, (self_metrics_truthful hb multicall3.address).1 []
    [blockAttempt (.error "connection refused")] _ 100 hblock (by simpa using hnone)⟩

end EvmExporter
