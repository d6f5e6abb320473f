import EvmExporter.Config.EnvValue
import EvmExporter.Config.Validate

/-! Loading a configuration: `load`, `parse_str` and `apply_defaults` of `config.rs`. The file is
parsed as YAML, its strings are expanded, the tree is decoded, the fields left empty get
their defaults, and the result is validated. A loaded configuration is valid, and none of
the fields with a default is empty. -/

namespace EvmExporter

open Lib

/-- The YAML library and the environment of the process. -/
structure LoadDeps extends Deps where
  fromStr : String → Except String Value
  fromValue : Value → Except String Config
  env : Environment

inductive LoadError where
  | readConfig (path cause : String)
  | parseYaml (cause : String)
  | decodeConfig (cause : String)
  | invalid (e : Error)
  -- the panic of `expand_env`
  | charBoundary

/-- The messages of the error and of its causes, outermost first. -/
def LoadError.chain (q : DebugText) : LoadError → List String
  | .readConfig path cause => [s!"read config: {path}", cause]
  | .parseYaml cause => ["parse yaml", cause]
  | .decodeConfig cause => ["decode config", cause]
  | .invalid e => e.chain q
  | .charBoundary => ["char boundary"]

/-! ### Defaults -/

def defaultMulticall3Address : String := "0xcA11bde05977b3631167028862bE2a173976CA11"

def defaultBlockTag : String := "finalized"

def defaultRequestTimeout : ℕ := 10 * 10 ^ 9

def defaultScrapeInterval : ℕ := 30 * 10 ^ 9

def defaultScrapeTimeout : ℕ := 25 * 10 ^ 9

def defaultMaxCallsPerBatch : ℕ := 500

def defaultListenAddress : String := "0.0.0.0:9100"

def defaultMetricsPath : String := "/metrics"

def defaultHealthPath : String := "/healthz"

/-- A text, or its default when it is empty. -/
def orDefault (s default : String) : String := if s.isEmpty then default else s

/-- A number, or its default when it is zero. -/
def orDefaultNat (n default : ℕ) : ℕ := if n = 0 then default else n

def applyDefaults (cfg : Config) : Config :=
  { cfg with
    chain := { cfg.chain with
      multicall3Address := orDefault cfg.chain.multicall3Address defaultMulticall3Address
      blockTag := orDefault cfg.chain.blockTag defaultBlockTag
      requestTimeout := orDefaultNat cfg.chain.requestTimeout defaultRequestTimeout }
    scrape := {
      interval := orDefaultNat cfg.scrape.interval defaultScrapeInterval
      timeout := orDefaultNat cfg.scrape.timeout defaultScrapeTimeout
      maxCallsPerBatch := orDefaultNat cfg.scrape.maxCallsPerBatch defaultMaxCallsPerBatch }
    server := {
      listenAddress := orDefault cfg.server.listenAddress defaultListenAddress
      metricsPath := orDefault cfg.server.metricsPath defaultMetricsPath
      healthPath := orDefault cfg.server.healthPath defaultHealthPath } }

/-! ### Paths -/

/-- How many characters of a path come before its first component: the root, or a leading
`.` component. -/
def pathPrefix : List Char → ℕ
  | '/' :: _ => 1
  | ['.'] => 1
  | '.' :: '/' :: _ => 1
  | _ => 0

/-- Drop the empty and `.` components at the end of a path, which is given last character
first. -/
def trimComponents : List Char → List Char
  | '/' :: cs => trimComponents cs
  | '.' :: '/' :: cs => trimComponents cs
  | ['.'] => []
  | cs => cs

/-- `Path::parent`. -/
def parentPath (path : String) : Option String :=
  let cs := path.toList
  let n := pathPrefix cs
  match trimComponents (cs.drop n).reverse with
  | [] => if cs.head? = some '/' ∨ cs = [] then none else some ""
  | body =>
    let rest := trimComponents ((body.dropWhile (· ≠ '/')).drop 1)
    some (.ofList (cs.take n ++ rest.reverse))

example : ["config.yaml", "/etc/exporter/config.yaml", "./conf//config.yaml", "/config.yaml", "a/.",
      "/"].map parentPath =
    [some "", some "/etc/exporter", some "./conf", some "/", some "", none] := by decide

/-! ### Loading -/

variable (d : LoadDeps)

/-- Parse, expand, decode and fill in. -/
def parseStr (raw : String) : Except LoadError Config := do
  let value ← (d.fromStr raw).mapError .parseYaml
  match expandEnvValue d.env value with
  | none => .error .charBoundary
  | some value =>
    let cfg ← (d.fromValue value).mapError .decodeConfig
    return applyDefaults cfg

def load (path : String) : Except LoadError Config := do
  let raw ← (d.readToString path).mapError (.readConfig path)
  let cfg ← parseStr d raw
  (validate d.toDeps ((parentPath path).getD ".") cfg).mapError .invalid

/-! ### What is loaded -/

/-- No field that has a default is empty. -/
structure Config.Filled (cfg : Config) : Prop where
  multicall3Address_ne : cfg.chain.multicall3Address ≠ ""
  blockTag_ne : cfg.chain.blockTag ≠ ""
  requestTimeout_pos : 0 < cfg.chain.requestTimeout
  interval_pos : 0 < cfg.scrape.interval
  timeout_pos : 0 < cfg.scrape.timeout
  maxCallsPerBatch_pos : 0 < cfg.scrape.maxCallsPerBatch
  listenAddress_ne : cfg.server.listenAddress ≠ ""
  metricsPath_ne : cfg.server.metricsPath ≠ ""
  healthPath_ne : cfg.server.healthPath ≠ ""

theorem orDefault_ne {s default : String} (h : default ≠ "") : orDefault s default ≠ "" := by
  unfold orDefault
  split_ifs with hs
  · exact h
  · simpa using hs

theorem orDefaultNat_pos {n default : ℕ} (h : 0 < default) : 0 < orDefaultNat n default := by
  unfold orDefaultNat
  split_ifs <;> omega

theorem applyDefaults_filled (cfg : Config) : (applyDefaults cfg).Filled where
  multicall3Address_ne := orDefault_ne (by decide)
  blockTag_ne := orDefault_ne (by decide)
  requestTimeout_pos := orDefaultNat_pos (by decide)
  interval_pos := orDefaultNat_pos (by decide)
  timeout_pos := orDefaultNat_pos (by decide)
  maxCallsPerBatch_pos := orDefaultNat_pos (by decide)
  listenAddress_ne := orDefault_ne (by decide)
  metricsPath_ne := orDefault_ne (by decide)
  healthPath_ne := orDefault_ne (by decide)

/-- Validation changes the contracts alone, so what it accepts is as filled as what it got. -/
theorem validate_fields {d : Deps} {baseDir : String} {raw cfg : Config}
    (h : validate d baseDir raw = .ok cfg) :
    cfg.chain = raw.chain ∧ cfg.server = raw.server ∧ cfg.scrape = raw.scrape ∧
      cfg.labels = raw.labels := by
  unfold validate at h
  simp only [↓check_bind_eq_ok, bind_eq_ok, pure_eq_ok] at h
  obtain ⟨-, -, -, -, contracts, -, rfl⟩ := h
  exact ⟨rfl, rfl, rfl, rfl⟩

variable {d}

/-- The ways a configuration text is parsed. -/
theorem parseStr_eq_ok {raw : String} {cfg : Config} : parseStr d raw = .ok cfg ↔
    ∃ value expanded decoded, d.fromStr raw = .ok value ∧
      expandEnvValue d.env value = some expanded ∧ d.fromValue expanded = .ok decoded ∧
      cfg = applyDefaults decoded := by
  simp only [parseStr, bind_eq_ok, mapError_eq_ok]
  constructor
  · rintro ⟨value, hvalue, h⟩
    split at h
    next => cases h
    next expanded hexpand =>
      obtain ⟨decoded, hdecoded, hcfg⟩ := bind_eq_ok.mp h
      exact ⟨value, expanded, decoded, hvalue, hexpand, mapError_eq_ok.mp hdecoded,
        (pure_eq_ok.mp hcfg).symm⟩
  · rintro ⟨value, expanded, decoded, hvalue, hexpand, hdecoded, rfl⟩
    refine ⟨value, hvalue, ?_⟩
    rw [hexpand]
    simp [hdecoded, Except.mapError, bind, Except.bind]

/-- A loaded configuration is valid and filled. -/
theorem load_eq_ok {path : String} {cfg : Config} (h : load d path = .ok cfg) :
    cfg.Valid d.toDeps ∧ cfg.Filled ∧ ∃ text raw, d.readToString path = .ok text ∧
      parseStr d text = .ok raw ∧
      validate d.toDeps ((parentPath path).getD ".") raw = .ok cfg := by
  simp only [load, bind_eq_ok, mapError_eq_ok] at h
  obtain ⟨text, htext, raw, hraw, hvalid⟩ := h
  have hfilled : raw.Filled := by
    obtain ⟨-, -, decoded, -, -, -, rfl⟩ := parseStr_eq_ok.mp hraw
    exact applyDefaults_filled decoded
  obtain ⟨hchain, hserver, hscrape, -⟩ := validate_fields hvalid
  refine ⟨validate_valid hvalid, ?_, text, raw, htext, hraw, hvalid⟩
  constructor
  case multicall3Address_ne => exact hchain ▸ hfilled.multicall3Address_ne
  case blockTag_ne => exact hchain ▸ hfilled.blockTag_ne
  case requestTimeout_pos => exact hchain ▸ hfilled.requestTimeout_pos
  case interval_pos => exact hscrape ▸ hfilled.interval_pos
  case timeout_pos => exact hscrape ▸ hfilled.timeout_pos
  case maxCallsPerBatch_pos => exact hscrape ▸ hfilled.maxCallsPerBatch_pos
  case listenAddress_ne => exact hserver ▸ hfilled.listenAddress_ne
  case metricsPath_ne => exact hserver ▸ hfilled.metricsPath_ne
  case healthPath_ne => exact hserver ▸ hfilled.healthPath_ne

end EvmExporter
