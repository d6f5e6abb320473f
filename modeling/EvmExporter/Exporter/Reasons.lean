import EvmExporter.Exporter.Duration
import EvmExporter.Multicall.Deadline

/-! The reasons that failed scrapes are counted under, against what the node answered. The
client of `block_number_for_tag` folds a request that errored and a block that does not
exist into one error, and the scrape counts both as `block_not_available`; the runbook and
the help text of the counter have `rpc_error` for the first. -/

namespace EvmExporter

open Lib

/-! ### The RPC client -/

/-- The reply to `eth_getBlockByNumber`: the number of the block, if there is one. -/
abbrev BlockReply := Except String (Option ℕ)

def parseBlockTag : String → Except Error BlockNumberOrTag
  | "" | "latest" => .ok .latest
  | "finalized" => .ok .finalized
  | "safe" => .ok .safe
  | other => .error (.unsupportedBlockTag other)

def blockNumberForTag (tag : String) :
    Future Unit BlockNumberOrTag (fun _ => BlockReply) (Except Error ℕ) :=
  match parseBlockTag tag with
  | .error e => .done (.error e)
  | .ok tag => .await tag fun
    | .error e => .done (.error (.rpc e))
    | .ok none => .done (.error (.noBlock tag))
    | .ok (some n) => .done (.ok n)

/-! ### Attempts against a node -/

/-- What a node answers during one attempt, `none` where the deadline passes first. -/
structure LiveAttempt where
  block : BlockNumberOrTag → Option BlockReply
  chunk : Multicall.TimedNode
  clock : Clock

/-- The multicall of an attempt at a block. -/
def LiveAttempt.multicall (l : LiveAttempt) (drv : Multicall.Driver) (x : Exporter) (n : ℕ) :
    Future.Outcome Unit Multicall.Aggregate3 (Except Error (List CallResult)) :=
  (Multicall.call drv n x.plan.calls).run l.chunk 0 ()

/-- The attempt over the RPC client and the multicall driver. -/
def LiveAttempt.attempt (l : LiveAttempt) (drv : Multicall.Driver) : Attempt where
  answer _ q :=
    match q with
    | .blockNumberForTag tag => ((blockNumberForTag tag).run (fun _ => l.block) 0 ()).result
    | .call n calls => ((Multicall.call drv n calls).run l.chunk 0 ()).result
  clock := l.clock

/-- The reason the runbook gives for what happened in an attempt. -/
inductive LiveAttempt.Documented (l : LiveAttempt) (drv : Multicall.Driver) (x : Exporter) :
    String → Prop where
  | rpcError {tag e} (htag : parseBlockTag x.cfg.chain.blockTag = .ok tag)
      (hblock : l.block tag = some (.error e)) : Documented l drv x "rpc_error"
  | blockNotAvailable {tag} (htag : parseBlockTag x.cfg.chain.blockTag = .ok tag)
      (hblock : l.block tag = some (.ok none)) : Documented l drv x "block_not_available"
  | chunkFailed {tag n q reply} {i : ℕ} (htag : parseBlockTag x.cfg.chain.blockTag = .ok tag)
      (hblock : l.block tag = some (.ok (some n))) (hq : (l.multicall drv x n).asked[i]? = some q)
      (hreply : l.chunk i q = some reply) (hbad : ¬ Multicall.Reply.FullFor reply q) :
      Documented l drv x "chunk_failed"
  | blockTimeout {tag} (htag : parseBlockTag x.cfg.chain.blockTag = .ok tag)
      (hblock : l.block tag = none) : Documented l drv x "timeout"
  | chunkTimeout {tag n q} {i : ℕ} (htag : parseBlockTag x.cfg.chain.blockTag = .ok tag)
      (hblock : l.block tag = some (.ok (some n))) (hq : (l.multicall drv x n).asked[i]? = some q)
      (hreply : l.chunk i q = none) : Documented l drv x "timeout"

/-- The request for the block itself errors. -/
def LiveAttempt.BlockErrored (l : LiveAttempt) (x : Exporter) : Prop :=
  ∃ tag e, parseBlockTag x.cfg.chain.blockTag = .ok tag ∧ l.block tag = some (.error e)

/-- The attempt counts this reason once, and no other. -/
def CountsReason (d : Deps) (x : Exporter) (a : Attempt) (reason : String) : Prop :=
  ∀ w, (runScrape d x a w).1.scrapeErrorsTotal = (w.incScrapeErrors reason).scrapeErrorsTotal

variable {d : Deps} {x : Exporter} {l : LiveAttempt} {drv : Multicall.Driver}

/-! ### What the attempt is told -/

theorem attempt_block (l : LiveAttempt) (drv : Multicall.Driver) {tag : BlockNumberOrTag}
    (htag : parseBlockTag x.cfg.chain.blockTag = .ok tag) :
    (l.attempt drv).answer 0 (.blockNumberForTag x.cfg.chain.blockTag) =
      (l.block tag).map fun
        | .error e => .error (.rpc e)
        | .ok none => .error (.noBlock tag)
        | .ok (some n) => .ok n := by
  simp only [LiveAttempt.attempt, blockNumberForTag, htag]
  cases h : l.block tag with
  | none =>
    rw [Future.run_await_none h]
    rfl
  | some reply =>
    rw [Future.run_await_some h]
    rcases reply with e | _ | n <;> rfl

/-- An attempt whose request for the block errors counts `block_not_available`. -/
theorem countsReason_of_blockErrored (h : l.BlockErrored x) :
    CountsReason d x (l.attempt drv) "block_not_available" := by
  obtain ⟨tag, e, htag, hblock⟩ := h
  intro w
  rw [runScrape_block_error (e := .rpc e) (by rw [attempt_block l drv htag, hblock]; rfl)]
  rfl

/-- Every other failure is counted under its documented reason. -/
theorem countsReason_of_documented {reason : String} (hreason : l.Documented drv x reason)
    (hok : ¬ l.BlockErrored x) : CountsReason d x (l.attempt drv) reason := by
  intro w
  cases hreason with
  | @rpcError tag e htag hblock => exact absurd ⟨tag, e, htag, hblock⟩ hok
  | @blockNotAvailable tag htag hblock =>
    rw [runScrape_block_error (e := .noBlock tag) (by rw [attempt_block l drv htag, hblock]; rfl)]
    rfl
  | @chunkFailed tag n q reply i htag hblock hq hreply hbad =>
    obtain ⟨e, he⟩ := Multicall.call_failed_iff.mpr ⟨i, q, reply, hq, hreply, hbad⟩
    rw [runScrape_call_error (n := n) (by rw [attempt_block l drv htag, hblock]; rfl) he]
    rfl
  | @blockTimeout tag htag hblock =>
    have hdrop : (l.attempt drv).Dropped x := .inl (by rw [attempt_block l drv htag, hblock]; rfl)
    rw [runScrape_dropped hdrop]
  | @chunkTimeout tag n q i htag hblock hq hreply =>
    have hresult := Multicall.call_dropped_iff.mpr ⟨i, q, hq, hreply⟩
    have hdrop : (l.attempt drv).Dropped x :=
      .inr ⟨n, by rw [attempt_block l drv htag, hblock]; rfl, hresult⟩
    rw [runScrape_dropped hdrop]

/-- The attempt fails: it ends with an error or is dropped. -/
def FailsScrape (d : Deps) (x : Exporter) (a : Attempt) : Prop :=
  ∃ w, (∃ e, (runScrape d x a w).2 = .failed e) ∨ (runScrape d x a w).2 = .elapsed

theorem results_of_fails {a : Attempt} (h : FailsScrape d x a) : a.results x = none := by
  obtain ⟨w, hw⟩ := h
  rcases runScrape_cases d x a w with ⟨_, _, _, _, _, hrun⟩ | ⟨_, _, p, _, _, hrun⟩ |
    ⟨_, _, _, hnone, _⟩ | ⟨hdrop, _⟩
  · simp [hrun] at hw
  · simp [hrun] at hw
  · exact hnone
  · exact Attempt.results_of_dropped hdrop

/-- The runbook has a reason for every failed attempt at a supported tag. -/
theorem documented_of_fails {tag : BlockNumberOrTag}
    (htag : parseBlockTag x.cfg.chain.blockTag = .ok tag)
    (h : FailsScrape d x (l.attempt drv)) : ∃ reason, l.Documented drv x reason := by
  have hblock := attempt_block l drv htag
  cases hl : l.block tag with
  | none => exact ⟨_, .blockTimeout htag hl⟩
  | some reply =>
    rcases reply with e | _ | n
    · exact ⟨_, .rpcError htag hl⟩
    · exact ⟨_, .blockNotAvailable htag hl⟩
    · have h₀ : (l.attempt drv).answer 0 (.blockNumberForTag x.cfg.chain.blockTag) =
          some (.ok n) := by rw [hblock, hl]; rfl
      have hends := Multicall.call_ends drv n x.plan.calls l.chunk
      cases hres : (l.multicall drv x n).result with
      | none =>
        obtain ⟨i, q, hq, hreply⟩ := Multicall.call_dropped_iff.mp hres
        exact ⟨_, .chunkTimeout htag hl hq hreply⟩
      | some result =>
        cases result with
        | error e =>
          obtain ⟨i, q, reply, hq, hreply, hbad⟩ := Multicall.call_failed_iff.mp ⟨e, hres⟩
          exact ⟨_, .chunkFailed htag hl hq hreply hbad⟩
        | ok results =>
          -- one result for each call, so the attempt does not fail
          rw [LiveAttempt.multicall] at hres
          rw [hres] at hends
          have h₁ : (l.attempt drv).answer 1 (.call n x.plan.calls) = some (.ok results) := hres
          have hresults : (l.attempt drv).results x = some (n, results) := by
            simp [Attempt.results, h₀, h₁, hends.length]
          rw [results_of_fails h] at hresults
          cases hresults

variable {cfg : Config} {registry registry' : Registry} {plan : Plan}

/-- In a run in which no request for a block errors, every failed attempt adds one to its
documented reason and to no other. An attempt counts its documented reasons whatever the
counters exactly when its request for the block does not itself error; and at a supported tag
every failed attempt has a documented reason. -/
theorem failure_reasons (hb : build d cfg registry = .ok (plan, registry')) :
    (∀ lives : List LiveAttempt, (∀ l ∈ lives, ¬ l.BlockErrored ⟨cfg, plan⟩) →
      ∀ pre l post reason, lives = pre ++ l :: post → l.Documented drv ⟨cfg, plan⟩ reason →
        (run d ⟨cfg, plan⟩ ((pre ++ [l]).map fun l => l.attempt drv) .initial).scrapeErrorsTotal =
          ((run d ⟨cfg, plan⟩ (pre.map fun l => l.attempt drv) .initial).incScrapeErrors
            reason).scrapeErrorsTotal) ∧
    (∀ l : LiveAttempt, (∀ reason, l.Documented drv ⟨cfg, plan⟩ reason →
        CountsReason d ⟨cfg, plan⟩ (l.attempt drv) reason) ↔ ¬ l.BlockErrored ⟨cfg, plan⟩) ∧
    ∀ (l : LiveAttempt) tag, parseBlockTag cfg.chain.blockTag = .ok tag →
      FailsScrape d ⟨cfg, plan⟩ (l.attempt drv) →
      ∃ reason, l.Documented drv ⟨cfg, plan⟩ reason := by
  have hwf : (⟨cfg, plan⟩ : Exporter).plan.WellFormed := build_wellFormed hb
  refine ⟨?_, ?_, fun l tag htag => documented_of_fails htag⟩
  · rintro lives hlives pre l post reason rfl hreason
    rw [List.map_append, List.map_singleton, run_append hwf]
    exact countsReason_of_documented hreason (hlives l (by simp)) _
  · intro l
    constructor
    · rintro hall ⟨tag, e, htag, hblock⟩
      have hrpc := hall "rpc_error" (.rpcError htag hblock) .initial
      rw [countsReason_of_blockErrored ⟨tag, e, htag, hblock⟩ .initial] at hrpc
      have hzero := congrFun hrpc "rpc_error"
      exact absurd hzero (by decide)
    · intro hok reason hreason
      exact countsReason_of_documented hreason hok

/-! ### A node that refuses, and one without the block -/

def multicall3 : Multicall.Driver := ⟨⟨List.replicate 20 0xca, rfl⟩, 500⟩

/-- The node answers the request for the block with `reply`. -/
def blockAttempt (reply : BlockReply) : LiveAttempt :=
  ⟨fun _ => some reply, fun _ _ => none, ⟨.zero, .zero⟩⟩

theorem finalized_plan : ∃ cfg plan registry, build reference cfg [] = .ok (plan, registry) ∧
    parseBlockTag cfg.chain.blockTag = .ok .finalized := by
  obtain ⟨cfg, plan, registry, -, hb, htag, -⟩ := Reference.supply_planned
  exact ⟨cfg, plan, registry, hb, by rw [htag]; rfl⟩

/-- The connection for the block is refused: the documented reason stays at zero. -/
theorem refused_request_miscounted :
    ∃ cfg plan registry, build reference cfg [] = .ok (plan, registry) ∧
      let l := blockAttempt (.error "connection refused")
      l.Documented multicall3 ⟨cfg, plan⟩ "rpc_error" ∧
      FailsScrape reference ⟨cfg, plan⟩ (l.attempt multicall3) ∧
      let w := run reference ⟨cfg, plan⟩ [l.attempt multicall3] .initial
      w.scrapeErrorsTotal "rpc_error" = 0 ∧ w.scrapeErrorsTotal "block_not_available" = 1 := by
  obtain ⟨cfg, plan, registry, hb, htag⟩ := finalized_plan
  have hblock := attempt_block (x := ⟨cfg, plan⟩) (blockAttempt (.error "connection refused"))
    multicall3 htag
  have hscrape := runScrape_block_error (d := reference) hblock
  refine ⟨cfg, plan, registry, hb, .rpcError htag rfl, ⟨.initial, .inl ⟨_, by rw [hscrape]⟩⟩, ?_⟩
  simp only [run, hscrape]
  decide

/-- A block that does not exist is counted as such. -/
theorem missing_block_counted :
    ∃ cfg plan registry, build reference cfg [] = .ok (plan, registry) ∧
      CountsReason reference ⟨cfg, plan⟩ ((blockAttempt (.ok none)).attempt multicall3)
        "block_not_available" := by
  obtain ⟨cfg, plan, registry, hb, htag⟩ := finalized_plan
  have hok : ¬ (blockAttempt (.ok none)).BlockErrored ⟨cfg, plan⟩ := by
    rintro ⟨tag, e, -, hblock⟩
    cases hblock
  exact ⟨cfg, plan, registry, hb,
    ((failure_reasons hb).2.1 _).mpr hok _ (.blockNotAvailable htag rfl)⟩

end EvmExporter
