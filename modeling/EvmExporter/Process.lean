import EvmExporter.Config.Load
import EvmExporter.Exporter.Reasons
import EvmExporter.Exporter.Shutdown
import EvmExporter.Exporter.Startup

/-! The process: `main.rs` and the production constructor `Exporter::new`. The configuration is
loaded, the client and the driver are made, the node is probed, and then either the process
ends or its exporter runs until it is cancelled. -/

namespace EvmExporter

open Lib

/-- The parsers of a log filter and of an endpoint. -/
structure ProcessDeps extends LoadDeps where
  tryFilter : String → Bool
  parseUrl : String → Except String String

structure Cli where
  config : String
  logLevel : String := "info"
  logFormat : String := "json"
  validateOnly : Bool := false

/-- The errors of `Exporter::new`. -/
inductive InitError where
  | parseRpcUrl (cause : String)
  | parseMulticall3Address (cause : String)
  | multicall3AddressRequired
  | start (cause : Error)

inductive ProcessError where
  | logLevel (level : String)
  | logFormat (format : String)
  | configLoad (path : String) (cause : LoadError)
  | init (cause : InitError)
  | run (cause : Error)

def InitError.chain (q : DebugText) : InitError → List String
  | .parseRpcUrl cause => ["parse rpc_url", cause]
  | .parseMulticall3Address cause => ["parse multicall3_address", cause]
  | .multicall3AddressRequired => ["multicall: multicall3 address is required"]
  | .start cause => cause.chain q

def ProcessError.chain (q : DebugText) : ProcessError → List String
  | .logLevel level => [s!"invalid log level: {q.str level}"]
  | .logFormat format => [s!"invalid log format: {q.str format} (expected json or text)"]
  | .configLoad path cause => s!"config load failed: {path}" :: cause.chain q
  | .init cause => "exporter init failed" :: cause.chain q
  | .run cause => cause.chain q

/-! ### The exporter -/

/-- What the start asks the node. -/
inductive Probe where
  | chainId
  | block (tag : BlockNumberOrTag)
  deriving DecidableEq

abbrev ProbeReply : Probe → Type
  | .chainId => Except String ℕ
  | .block _ => BlockReply

abbrev ProbeIO (α : Type) := Future Unit Probe ProbeReply α

def Address.zero : Address := ⟨List.replicate 20 0, rfl⟩

/-- `Multicall3Driver::new`. -/
def Multicall.Driver.new (address : Address) (maxCallsPerBatch : ℕ) :
    Except InitError Multicall.Driver :=
  if address = .zero then .error .multicall3AddressRequired else .ok ⟨address, maxCallsPerBatch⟩

variable (d : ProcessDeps)

/-- `Exporter::new_with_deps` over the RPC client: the block is asked for when the chain is the
configured one. -/
def probeAndBuild (cfg : Config) : ProbeIO (Except Error (Exporter × Registry)) :=
  .await .chainId fun
    | .error cause => .done (.error (.context .chainIdProbe (.rpc cause)))
    | .ok got =>
      if got ≠ cfg.chain.chainId then .done (.error (.chainIdMismatch cfg.chain.chainId got))
      else do
        let block ← (blockNumberForTag cfg.chain.blockTag).embed Probe.block fun _ => id
        pure (newWithDeps d.toDeps cfg (.ok got) block)

/-- The client and the driver. -/
def dial (cfg : Config) : Except InitError Multicall.Driver := do
  let _ ← (d.parseUrl cfg.chain.rpcUrl).mapError .parseRpcUrl
  let addr ← (d.toAbiLibrary.parseAddress cfg.chain.multicall3Address).mapError
    .parseMulticall3Address
  Multicall.Driver.new addr cfg.scrape.maxCallsPerBatch

/-- `Exporter::new`. -/
def Exporter.new (cfg : Config) :
    ProbeIO (Except InitError (Exporter × Multicall.Driver × Registry)) :=
  match dial d cfg with
  | .error e => .done (.error e)
  | .ok drv => do
    let started ← probeAndBuild d cfg
    pure ((started.mapError .start).map fun (x, registry) => (x, drv, registry))

/-! ### The process -/

def initLogging (level format : String) : Except ProcessError Unit := do
  bailIf (¬ d.tryFilter level) (.logLevel level)
  bailIf (format ≠ "json" ∧ format ≠ "text") (.logFormat format)

/-- The configuration, once logging is set up. -/
def prepare (cli : Cli) : Except ProcessError Config := do
  initLogging d cli.logLevel cli.logFormat
  (load d.toLoadDeps cli.config).mapError (.configLoad cli.config)

/-- A process has ended, or its exporter runs. -/
inductive Launched where
  | ended (result : Except ProcessError Unit)
  | running (x : Exporter) (drv : Multicall.Driver) (registry : Registry)

/-- `run` of `main.rs` up to `Exporter::run`. -/
def launch (cli : Cli) : ProbeIO Launched :=
  match prepare d cli with
  | .error e => .done (.ended (.error e))
  | .ok cfg => do
    match ← Exporter.new d cfg with
    | .error e => pure (.ended (.error (.init e)))
    | .ok (x, drv, registry) =>
      pure (if cli.validateOnly then .ended (.ok ()) else .running x drv registry)

/-- What `main` makes of a result: the exit status, and what it prints. -/
def report (q : DebugText) : Except ProcessError Unit → ℕ × Option String
  | .ok () => (0, none)
  | .error e => (1, some ("evm-contract-exporter: " ++ ": ".intercalate (e.chain q)))

/-- The exit status of a process whose exporter, if it runs, is in a state; none as long as it
runs. A panic of the main task has its own. -/
def Launched.status (q : DebugText) (s : RunState) : Launched → Option ℕ
  | .ended result => some (report q result).1
  | .running _ _ _ =>
    match s.phase with
    | .returned result => some (report q (result.mapError .run)).1
    | .panicked => some 101
    | _ => none

variable {d : ProcessDeps} {cfg : Config} {cli : Cli} {answers : (q : Probe) → ProbeReply q}

/-! ### The start -/

/-- What the client makes of the node's answer about a block tag. -/
def blockAnswer (answers : (q : Probe) → ProbeReply q) (tag : String) : Except Error ℕ :=
  match parseBlockTag tag with
  | .error e => .error e
  | .ok tag =>
    match answers (.block tag) with
    | .error e => .error (.rpc e)
    | .ok none => .error (.noBlock tag)
    | .ok (some n) => .ok n

/-- The questions of the start: the chain, and the block when the chain is the configured one. -/
def probesOf (answers : (q : Probe) → ProbeReply q) (cfg : Config) : List Probe :=
  .chainId :: if (answers .chainId).toOption = some cfg.chain.chainId then
    ((parseBlockTag cfg.chain.blockTag).toOption.map Probe.block).toList else []

theorem blockProbe_run (answers : (q : Probe) → ProbeReply q) (tag : String) (n : ℕ) :
    ((blockNumberForTag tag).embed Probe.block fun _ => id : ProbeIO (Except Error ℕ)).run
        (fun _ q => some (answers q)) n () =
      ⟨(), some (blockAnswer answers tag),
        ((parseBlockTag tag).toOption.map Probe.block).toList⟩ := by
  rw [Future.run_embed, blockNumberForTag, blockAnswer]
  cases parseBlockTag tag with
  | error e => rfl
  | ok tag =>
    simp only [Option.map_some, id_eq]
    rw [Future.run_await_some rfl]
    rcases answers (.block tag) with e | _ | n <;> rfl

theorem newWithDeps_eq_ok {d : Deps} {chainId block : Except Error ℕ} {x : Exporter}
    {registry : Registry} : newWithDeps d cfg chainId block = .ok (x, registry) ↔
      chainId = .ok cfg.chain.chainId ∧ (∃ n, block = .ok n) ∧ x.cfg = cfg ∧
        ∃ gauges, build d cfg [] = .ok (x.plan, gauges) ∧
          SelfMetrics.new d cfg.labels gauges = .ok registry := by
  simp only [newWithDeps, ↓check_bind_eq_ok, bind_eq_ok, pure_eq_ok, mapError_eq_ok, bailIf_eq_ok,
    not_not]
  constructor
  · rintro ⟨got, hgot, rfl, n, hn, ⟨plan, gauges⟩, hb, r, hr, hx⟩
    obtain ⟨rfl, rfl⟩ := Prod.mk.inj hx
    exact ⟨hgot, ⟨n, hn⟩, rfl, gauges, hb, hr⟩
  · rintro ⟨hgot, ⟨n, hn⟩, rfl, gauges, hb, hr⟩
    exact ⟨_, hgot, rfl, n, hn, ⟨x.plan, gauges⟩, hb, registry, hr, rfl⟩

/-- The start probes the node step by step and ends as it would with all answers at hand. -/
theorem probeAndBuild_run (answers : (q : Probe) → ProbeReply q) :
    (probeAndBuild d cfg).run (fun _ q => some (answers q)) 0 () =
      ⟨(), some (newWithDeps d.toDeps cfg ((answers .chainId).mapError .rpc)
        (blockAnswer answers cfg.chain.blockTag)), probesOf answers cfg⟩ := by
  rw [probeAndBuild, Future.run_await_some rfl, probesOf]
  cases hchain : answers .chainId with
  | error cause => rfl
  | ok got =>
    by_cases hgot : got = cfg.chain.chainId
    · have hsome : (Except.ok got : Except String ℕ).toOption = some cfg.chain.chainId := by
        rw [hgot]
        rfl
      simp only [hgot, ne_eq, not_true_eq_false, ↓reduceIte]
      rw [Future.run_bind (blockProbe_run answers _ _)]
      simp [Except.mapError, Except.toOption]
    · have hnone : (Except.ok got : Except String ℕ).toOption ≠ some cfg.chain.chainId := by
        simpa [Except.toOption] using hgot
      simp only [hgot, ne_eq, not_false_eq_true, ↓reduceIte, if_neg hnone, Future.run_done]
      simp [newWithDeps, Except.mapError, bailIf, hgot, bind, Except.bind]

/-- What the start of the exporter comes to. -/
def started (d : ProcessDeps) (cfg : Config) (answers : (q : Probe) → ProbeReply q) :
    Except InitError (Exporter × Multicall.Driver × Registry) := do
  let drv ← dial d cfg
  let (x, registry) ← (newWithDeps d.toDeps cfg ((answers .chainId).mapError .rpc)
    (blockAnswer answers cfg.chain.blockTag)).mapError .start
  return (x, drv, registry)

theorem Exporter.new_run (answers : (q : Probe) → ProbeReply q) :
    (Exporter.new d cfg).run (fun _ q => some (answers q)) 0 () =
      ⟨(), some (started d cfg answers),
        match dial d cfg with
        | .error _ => []
        | .ok _ => probesOf answers cfg⟩ := by
  rw [Exporter.new, started]
  cases dial d cfg with
  | error e => rfl
  | ok drv =>
    simp only
    rw [Future.run_bind (probeAndBuild_run answers)]
    simp only [Future.run_pure, List.append_nil]
    cases newWithDeps d.toDeps cfg ((answers .chainId).mapError .rpc)
      (blockAnswer answers cfg.chain.blockTag) <;> rfl

theorem launch_run (answers : (q : Probe) → ProbeReply q) :
    (launch d cli).run (fun _ q => some (answers q)) 0 () =
      ⟨(), some (match prepare d cli with
        | .error e => .ended (.error e)
        | .ok cfg => match started d cfg answers with
          | .error e => .ended (.error (.init e))
          | .ok (x, drv, registry) =>
            if cli.validateOnly then .ended (.ok ()) else .running x drv registry),
        match prepare d cli with
        | .error _ => []
        | .ok cfg => match dial d cfg with
          | .error _ => []
          | .ok _ => probesOf answers cfg⟩ := by
  rw [launch]
  cases prepare d cli with
  | error e => rfl
  | ok cfg =>
    simp only
    rw [Future.run_bind (Exporter.new_run answers)]
    cases started d cfg answers with
    | error e => simp
    | ok p => simp

theorem started_eq_ok {x : Exporter} {drv : Multicall.Driver} {registry : Registry} :
    started d cfg answers = .ok (x, drv, registry) ↔ dial d cfg = .ok drv ∧
      newWithDeps d.toDeps cfg ((answers .chainId).mapError .rpc)
        (blockAnswer answers cfg.chain.blockTag) = .ok (x, registry) := by
  simp only [started, bind_eq_ok, pure_eq_ok, mapError_eq_ok]
  constructor
  · rintro ⟨drv', hdial, ⟨x', registry'⟩, hnew, h⟩
    simp only [Prod.mk.injEq] at h
    obtain ⟨rfl, rfl, rfl⟩ := h
    exact ⟨hdial, hnew⟩
  · rintro ⟨hdial, hnew⟩
    exact ⟨drv, hdial, (x, registry), hnew, rfl⟩

theorem dial_eq_ok {drv : Multicall.Driver} : dial d cfg = .ok drv ↔
    (∃ url, d.parseUrl cfg.chain.rpcUrl = .ok url) ∧
      d.toAbiLibrary.parseAddress cfg.chain.multicall3Address = .ok drv.address ∧
      drv.address ≠ .zero ∧ drv.maxCallsPerBatch = cfg.scrape.maxCallsPerBatch := by
  simp only [dial, bind_eq_ok, mapError_eq_ok, Multicall.Driver.new]
  constructor
  · rintro ⟨url, hurl, addr, haddr, hnew⟩
    split_ifs at hnew with hzero
    obtain rfl := Except.ok.inj hnew
    exact ⟨⟨url, hurl⟩, haddr, hzero, rfl⟩
  · rintro ⟨⟨url, hurl⟩, haddr, hzero, hmax⟩
    refine ⟨url, hurl, drv.address, haddr, ?_⟩
    rw [if_neg hzero, ← hmax]

theorem blockAnswer_eq_ok {tag : String} : (∃ n, blockAnswer answers tag = .ok n) ↔
    ∃ t n, parseBlockTag tag = .ok t ∧ answers (.block t) = .ok (some n) := by
  unfold blockAnswer
  constructor
  · rintro ⟨n, h⟩
    split at h
    · cases h
    next t ht =>
      split at h
      · cases h
      · cases h
      next m hm => exact ⟨t, m, ht, hm⟩
  · rintro ⟨t, n, ht, hn⟩
    exact ⟨n, by simp [ht, hn]⟩

theorem prepare_eq_ok : prepare d cli = .ok cfg ↔ d.tryFilter cli.logLevel = true ∧
    (cli.logFormat = "json" ∨ cli.logFormat = "text") ∧
      load d.toLoadDeps cli.config = .ok cfg := by
  simp only [prepare, initLogging, ↓check_bind_eq_ok, mapError_eq_ok, bailIf_eq_ok, not_not,
    and_assoc, not_and_or]

/-- What has to be in order for an exporter to start: the log options, the configuration, the
addresses, the node's chain and its block, the plan and the registration. -/
structure Starts (d : ProcessDeps) (cli : Cli) (answers : (q : Probe) → ProbeReply q)
    (x : Exporter) (drv : Multicall.Driver) (registry : Registry) : Prop where
  level : d.tryFilter cli.logLevel = true
  format : cli.logFormat = "json" ∨ cli.logFormat = "text"
  loads : load d.toLoadDeps cli.config = .ok x.cfg
  url : ∃ url, d.parseUrl x.cfg.chain.rpcUrl = .ok url
  address : d.toAbiLibrary.parseAddress x.cfg.chain.multicall3Address = .ok drv.address
  address_ne : drv.address ≠ .zero
  batch : drv.maxCallsPerBatch = x.cfg.scrape.maxCallsPerBatch
  chain : answers .chainId = .ok x.cfg.chain.chainId
  block : ∃ tag n, parseBlockTag x.cfg.chain.blockTag = .ok tag ∧
    answers (.block tag) = .ok (some n)
  registers : ∃ gauges, build d.toDeps x.cfg [] = .ok (x.plan, gauges) ∧
    SelfMetrics.new d.toDeps x.cfg.labels gauges = .ok registry

theorem starts_iff {x : Exporter} {drv : Multicall.Driver} {registry : Registry} :
    Starts d cli answers x drv registry ↔
      ∃ cfg, prepare d cli = .ok cfg ∧ started d cfg answers = .ok (x, drv, registry) := by
  simp only [prepare_eq_ok, started_eq_ok, dial_eq_ok, newWithDeps_eq_ok, mapError_eq_ok,
    blockAnswer_eq_ok]
  constructor
  · intro h
    exact ⟨x.cfg, ⟨h.level, h.format, h.loads⟩, ⟨h.url, h.address, h.address_ne, h.batch⟩, h.chain,
      h.block, rfl, h.registers⟩
  · rintro ⟨_, ⟨hlevel, hformat, hloads⟩, ⟨hurl, haddr, hne, hbatch⟩, hchain, hblock, rfl, hregs⟩
    exact ⟨hlevel, hformat, hloads, hurl, haddr, hne, hbatch, hchain, hblock, hregs⟩

theorem running_iff (answers : (q : Probe) → ProbeReply q) {x : Exporter} {drv : Multicall.Driver}
    {registry : Registry} :
    ((launch d cli).run (fun _ q => some (answers q)) 0 ()).result =
        some (.running x drv registry) ↔
      cli.validateOnly = false ∧ Starts d cli answers x drv registry := by
  rw [launch_run, starts_iff]
  cases hprep : prepare d cli with
  | error e => simp
  | ok cfg =>
    cases hstart : started d cfg answers with
    | error e => simp [hstart]
    | ok p =>
      obtain ⟨x', drv', registry'⟩ := p
      cases cli.validateOnly <;> simp [hstart]

theorem validated_iff (answers : (q : Probe) → ProbeReply q) :
    ((launch d cli).run (fun _ q => some (answers q)) 0 ()).result = some (.ended (.ok ())) ↔
      cli.validateOnly = true ∧ ∃ x drv registry, Starts d cli answers x drv registry := by
  simp only [launch_run, starts_iff]
  cases hprep : prepare d cli with
  | error e => simp
  | ok cfg =>
    cases hstart : started d cfg answers with
    | error e => simp [hstart]
    | ok p =>
      obtain ⟨x', drv', registry'⟩ := p
      cases cli.validateOnly <;> simp [hstart]

/-- A process comes to run an exporter exactly when everything is in order and it is not only to
validate, and a validating one succeeds exactly when everything is in order. Either way it
asks the node nothing unless the configuration loads, then for its chain, and for the block
of the configured tag when the chain is the configured one, and for nothing else. -/
theorem launch_iff (answers : (q : Probe) → ProbeReply q) :
    let o := (launch d cli).run (fun _ q => some (answers q)) 0 ()
    (∀ x drv registry, o.result = some (.running x drv registry) ↔
      cli.validateOnly = false ∧ Starts d cli answers x drv registry) ∧
    (o.result = some (.ended (.ok ())) ↔
      cli.validateOnly = true ∧ ∃ x drv registry, Starts d cli answers x drv registry) ∧
    (o.asked ≠ [] → ∃ cfg, load d.toLoadDeps cli.config = .ok cfg ∧
      (o.asked = [.chainId] ∨ answers .chainId = .ok cfg.chain.chainId ∧
        ∃ tag, parseBlockTag cfg.chain.blockTag = .ok tag ∧ o.asked = [.chainId, .block tag])) := by
  intro o
  refine ⟨fun x drv registry => running_iff answers, validated_iff answers, ?_⟩
  have ho : o = _ := launch_run answers
  rw [ho]
  cases hprep : prepare d cli with
  | error e => simp
  | ok cfg =>
    intro hasked
    refine ⟨cfg, (prepare_eq_ok.mp hprep).2.2, ?_⟩
    simp only at hasked ⊢
    split at hasked
    · exact absurd rfl hasked
    · rw [probesOf]
      split_ifs with hchain
      · cases htag : parseBlockTag cfg.chain.blockTag with
        | error e => exact .inl rfl
        | ok tag => exact .inr ⟨toOption_eq_some.mp hchain, tag, rfl, rfl⟩
      · exact .inl rfl

end EvmExporter
