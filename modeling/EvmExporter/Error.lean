import EvmExporter.Config.Types

/-! The errors of the exporter, one constructor for each place that raises one. A
constructor carries what its message prints; `Error.text` is the message and
`Error.chain` the messages of an error and of its causes, outermost first. The
message of a library error is the `cause` string of the constructor that wraps it. -/

namespace EvmExporter

/-- What `with_context` puts in front of a cause. -/
inductive Context where
  | contract (i : ℕ) (name : String)
  | metric (i : ℕ) (descriptor : String)
  | planner (contract descriptor : String)
  | arg (i : ℕ) (ty : String)
  | chainIdProbe
  | blockTagProbe (tag : String)
  | plannerBuild
  | selfMetrics

/-- The block tags of the RPC that the exporter asks for. -/
inductive BlockNumberOrTag where
  | latest | finalized | safe
  deriving DecidableEq

inductive Error where
  -- `config.rs`
  | rpcUrlRequired
  | chainIdRequired
  | noContracts
  | reservedLabel (ctx key : String)
  | contractNameRequired
  | abiRequired
  | abiExclusive
  | readAbi (path cause : String)
  | parseAbi (cause : String)
  | noInstances
  | addressRequired (j : ℕ)
  | noMetrics
  | functionRequired
  | argsAndCalls
  | callArity (i : ℕ) (function : String) (expected got : ℕ)
  | arity (function : String) (expected got : ℕ)
  | badMetricName (name : String)
  | badInferredName (name : String)
  | outputRange (i index : ℕ) (function : String) (n : ℕ)
  | duplicateOutput (i index : ℕ) (field : String)
  | resolveField (field cause : String)
  | fieldNotScalar (i : ℕ) (field ty : String)
  -- `config/abi.rs` and `config/naming.rs`
  | functionNotFound (name : String)
  | notView (name : String) (mutability : StateMutability)
  | outputIndexRange (index : ℕ)
  | notTuple (field : String) (index : ℕ) (function ty : String)
  | fieldNotFound (field : String) (index : ℕ) (function : String) (available : List String)
  -- `config/args.rs`
  | resolveArg (i : ℕ) (ty cause : String)
  | fixedBytesLength (n got : ℕ)
  | unsupportedArg (ty : DynSolType)
  | invalidAddress (s cause : String)
  | expectedScalar (kind : String) (got : Value)
  | invalidUint (text cause : String)
  | invalidHexUint (s cause : String)
  | invalidInt (s cause : String)
  | invalidHexBytes (s cause : String)
  -- `planner.rs`
  | noParsedAbi (contract : String)
  | invalidInstanceAddress (contract address : String)
  | functionMissing (contract descriptor function : String)
  | pack (contract descriptor function cause : String)
  | conflictingHelp (name : String)
  | outputCountMismatch (names outputs : ℕ)
  | createGauge (name cause : String)
  | registerGauge (name cause : String)
  -- the panics of `overloads[0]` and of indexing a `HashMap` by an absent key
  | noOverload (function : String)
  | missingGauge (name : String)
  -- `decoder.rs`
  | noOutputs (function : String)
  | decodeIndexRange (index : ℕ) (function : String) (n : ℕ)
  | unpack (function cause : String)
  | unpackedTooFew (got index : ℕ)
  | tupleFieldRange (field : ℕ) (function : String)
  | decodedNotTuple (index : ℕ) (function : String) (got : DynSolValue)
  | unsupportedType (got : DynSolValue)
  -- `multicall.rs` and `exporter.rs`
  | chunkLength (start stop got : ℕ)
  | resultCount (got expected : ℕ)
  | rpc (cause : String)
  | unsupportedBlockTag (tag : String)
  | noBlock (tag : BlockNumberOrTag)
  | chainIdMismatch (config got : ℕ)
  -- `metrics.rs` and `server.rs`
  | createSelfMetric (name cause : String)
  | prometheus (cause : String)
  | bind (address cause : String)
  | httpServer (cause : String)
  | serverTaskJoin (cause : String)
  | context (ctx : Context) (cause : Error)

/-- `{:?}` of the values an error message quotes. -/
structure DebugText where
  str : String → String
  value : Value → String
  ty : DynSolType → String
  dyn : DynSolValue → String
  blockTag : BlockNumberOrTag → String

def StateMutability.debug : StateMutability → String
  | .pure => "Pure"
  | .view => "View"
  | .nonPayable => "NonPayable"
  | .payable => "Payable"

def Context.text (q : DebugText) : Context → String
  | .contract i name => s!"contracts[{i}] ({name})"
  | .metric i descriptor => s!"metrics[{i}] ({descriptor})"
  | .planner ct descriptor => s!"contract {q.str ct} metric {q.str descriptor}"
  | .arg i ty => s!"args[{i}] ({ty})"
  | .chainIdProbe => "eth_chainId probe"
  | .blockTagProbe tag => s!"probe block_tag={q.str tag}"
  | .plannerBuild => "planner.build"
  | .selfMetrics => "self metrics"

/-- `PROM_NAME_RE_NOTE`. -/
def promNameNote : String := "Prometheus metric name grammar: ^[a-zA-Z_:][a-zA-Z0-9_:]*$"

/-- The message of the outermost error. -/
def Error.text (q : DebugText) : Error → String
  | .rpcUrlRequired => "chain.rpc_url is required"
  | .chainIdRequired => "chain.chain_id is required and must be non-zero"
  | .noContracts => "at least one contract must be configured"
  | .reservedLabel ctx key => s!"{ctx}: label {q.str key} is reserved and set by the exporter"
  | .contractNameRequired => "name is required"
  | .abiRequired => "one of abi_path or abi_inline is required"
  | .abiExclusive => "abi_path and abi_inline are mutually exclusive"
  | .readAbi path _ => s!"read abi_path {q.str path}"
  | .parseAbi _ => "parse abi"
  | .noInstances => "at least one instance is required"
  | .addressRequired j => s!"instances[{j}]: address is required"
  | .noMetrics => "at least one metric is required"
  | .functionRequired => "function is required"
  | .argsAndCalls => "args and calls are mutually exclusive"
  | .callArity i function expected got =>
    s!"calls[{i}]: function {q.str function} expects {expected} argument(s), got {got}"
  | .arity function expected got =>
    s!"function {q.str function} expects {expected} argument(s), got {got}"
  | .badMetricName name => s!"metric name {q.str name} does not match {promNameNote}"
  | .badInferredName name => s!"inferred metric name {q.str name} does not match {promNameNote}"
  | .outputRange i index function n =>
    s!"outputs[{i}].index {index} out of range (function {q.str function} has {n} output(s))"
  | .duplicateOutput i index field =>
    if ¬ field.isEmpty then s!"outputs[{i}]: duplicate index {index} field {q.str field}"
    else s!"outputs[{i}]: duplicate index {index}"
  | .resolveField field _ => s!"resolve tuple field type for {q.str field}"
  | .fieldNotScalar i field ty =>
    s!"outputs[{i}]: tuple field {q.str field} has type {ty}, not a numeric/bool scalar"
  | .functionNotFound name => s!"function {q.str name} not found in ABI"
  | .notView name mutability =>
    s!"function {q.str name} must be view or pure (got {mutability.debug})"
  | .outputIndexRange index => s!"output index {index} out of range"
  | .notTuple field index function ty =>
    s!"field {q.str field} selected but output {index} of {q.str function} is {ty}, not a tuple"
  | .fieldNotFound field index function available =>
    s!"tuple field {q.str field} not found in output {index} of {q.str function}; available: [" ++
      ", ".intercalate (available.map q.str) ++ "]"
  | .resolveArg i ty _ => s!"resolve type of args[{i}] ({ty})"
  | .fixedBytesLength n got => s!"bytes{n} expects {n} bytes, got {got}"
  | .unsupportedArg ty => s!"unsupported argument type {q.ty ty}"
  | .invalidAddress s _ => s!"invalid address {q.str s}"
  | .expectedScalar kind got => s!"expected {kind}, got {q.value got}"
  | .invalidUint text cause => s!"invalid uint {text}: {cause}"
  | .invalidHexUint s cause => s!"invalid hex uint {q.str s}: {cause}"
  | .invalidInt s cause => s!"invalid int {q.str s}: {cause}"
  | .invalidHexBytes s _ => s!"invalid hex bytes {q.str s}"
  | .noParsedAbi contract =>
    s!"contract {q.str contract} has no parsed ABI (config not validated?)"
  | .invalidInstanceAddress contract address =>
    s!"contract {q.str contract} instance {q.str address}: invalid address"
  | .functionMissing contract descriptor function =>
    s!"contract {q.str contract} metric {q.str descriptor}: function {q.str function}" ++
      " missing from ABI"
  | .pack contract descriptor function cause =>
    s!"contract {q.str contract} metric {q.str descriptor}: pack {q.str function}: {cause}"
  | .conflictingHelp name =>
    s!"metric {q.str name} has conflicting Help texts across contracts"
  | .outputCountMismatch names outputs =>
    s!"planner: output count mismatch ({names} names vs {outputs} outputs)"
  | .createGauge name _ => s!"create gauge {q.str name}"
  | .registerGauge name _ => s!"register {q.str name}"
  | .noOverload function => s!"no overload of {q.str function}"
  | .missingGauge name => s!"no gauge for {q.str name}"
  | .noOutputs function => s!"decoder: method {q.str function} has no outputs"
  | .decodeIndexRange index function n =>
    s!"decoder: output index {index} out of range for {q.str function} ({n} outputs)"
  | .unpack function cause => s!"decoder: unpack {q.str function}: {cause}"
  | .unpackedTooFew got index => s!"decoder: unpacked {got} values, need index {index}"
  | .tupleFieldRange field function =>
    s!"decoder: tuple field index {field} out of range for {q.str function}"
  | .decodedNotTuple index function got =>
    s!"decoder: field set but output {index} of {q.str function} is not a tuple ({q.dyn got})"
  | .unsupportedType got =>
    s!"decoder: unsupported return type for numeric metric: {q.dyn got}"
  | .chunkLength start stop got =>
    s!"multicall chunk [{start}:{stop}]: expected {stop - start} results, got {got}"
  | .resultCount got expected => s!"multicall returned {got} results, expected {expected}"
  | .rpc cause => cause
  | .unsupportedBlockTag tag => s!"unsupported block_tag {q.str tag}"
  | .noBlock tag => s!"probe block_tag={q.blockTag tag}: rpc returned no block"
  | .chainIdMismatch config got => s!"chain_id mismatch: config={config}, rpc={got}"
  | .createSelfMetric name _ => s!"create {name}"
  | .prometheus cause => cause
  | .bind address _ => s!"bind {address}"
  | .httpServer _ => "http server"
  | .serverTaskJoin cause => s!"server task join: {cause}"
  | .context ctx _ => ctx.text q

/-- The messages of an error and of its causes, outermost first. -/
def Error.chain (q : DebugText) : Error → List String
  | .context ctx cause => ctx.text q :: cause.chain q
  | .readAbi path cause => [Error.text q (.readAbi path cause), cause]
  | .parseAbi cause => [Error.text q (.parseAbi cause), cause]
  | .resolveField field cause => [Error.text q (.resolveField field cause), cause]
  | .resolveArg i ty cause => [Error.text q (.resolveArg i ty cause), cause]
  | .invalidAddress s cause => [Error.text q (.invalidAddress s cause), cause]
  | .invalidHexBytes s cause => [Error.text q (.invalidHexBytes s cause), cause]
  | .createGauge name cause => [Error.text q (.createGauge name cause), cause]
  | .registerGauge name cause => [Error.text q (.registerGauge name cause), cause]
  | .createSelfMetric name cause => [Error.text q (.createSelfMetric name cause), cause]
  | .bind address cause => [Error.text q (.bind address cause), cause]
  | .httpServer cause => [Error.text q (.httpServer cause), cause]
  | e => [e.text q]

end EvmExporter
